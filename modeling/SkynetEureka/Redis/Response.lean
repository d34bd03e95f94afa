import SkynetEureka.Lib.Decimal

/-!
# read_response (redis.lua)

A reply begins with a line, whose first character says what it is: a status, an error, an integer,
or the length of a bulk string or of an array. The elements of an array are replies again. All
replies of a connection follow each other in one stream, so that each has to be read to its end.
-/

namespace SkynetEureka.Redis

open Lib

/-! ## The stream -/

/-- How a reader stops without a value: it waits for more bytes, or it raises. -/
inductive Stop where
  | waits
  | raises
  | endless
deriving DecidableEq

/-- `fd:readline "\r\n"`: the line, and the bytes behind it -/
def readline : List UInt8 → Except Stop (List UInt8 × List UInt8)
  | 13 :: 10 :: s => .ok ([], s)
  | c :: s => (readline s).map fun (line, s) => (c :: line, s)
  | [] => .error .waits

/-- `fd:read(n)` -/
def read (n : ℕ) (s : List UInt8) : Except Stop (List UInt8 × List UInt8) :=
  if s.length < n then .error .waits else .ok (s.take n, s.drop n)

/-- A value that is returned: a table has a slot for each of its indexes, nil or not. -/
inductive Value where
  | nil
  | string (s : List UInt8)
  | integer (n : ℤ)
  | table (slots : List Value)

/-! ## read_response -/

section reader

-- what `tonumber` gives for other texts than decimal integers of 64 bits
variable (other : List UInt8 → Option ℤ)

/-- `tonumber(data)` -/
def tonumber (data : List UInt8) : Option ℤ :=
  match integer? data with
  | some n => if -2 ^ 63 ≤ n ∧ n < 2 ^ 63 then some n else other data
  | none => other data

/-- The loop of `redcmd[42]` -/
def readElements (readResponse : List UInt8 → Except Stop ((Bool × Value) × List UInt8)) :
    ℕ → List UInt8 → Except Stop ((Bool × List Value) × List UInt8)
  | 0, s => .ok ((true, []), s)
  | n + 1, s => do
    let ((ok, v), s) ← readResponse s
    let ((noerr, bulk), s) ← readElements readResponse n s
    .ok ((ok && noerr, v :: bulk), s)

/-- `redcmd[firstchar](fd, data)` -/
def redcmd (readResponse : List UInt8 → Except Stop ((Bool × Value) × List UInt8))
    (firstchar : UInt8) (data s : List UInt8) : Except Stop ((Bool × Value) × List UInt8) :=
  if firstchar = 36 then
    match tonumber other data with
    | none => .error .raises
    | some bytes =>
      if bytes < 0 then .ok ((true, .nil), s)
      else do
        let (firstline, s) ← read (bytes.toNat + 2) s
        .ok ((true, .string (firstline.take (firstline.length - 2))), s)
  else if firstchar = 43 then .ok ((true, .string data), s)
  else if firstchar = 45 then .ok ((false, .string data), s)
  else if firstchar = 58 then .ok ((true, ((tonumber other data).map .integer).getD .nil), s)
  else if firstchar = 42 then
    match tonumber other data with
    | none => .error .raises
    | some n =>
      if n < 0 then .ok ((true, .nil), s)
      else do
        let ((noerr, bulk), s) ← readElements readResponse n.toNat s
        .ok ((noerr, .table bulk), s)
  else .error .raises

/-- `read_response`, for replies that are nested less deep than the fuel -/
def readResponse : ℕ → List UInt8 → Except Stop ((Bool × Value) × List UInt8)
  | 0, _ => .error .endless
  | fuel + 1, s => do
    let (result, s) ← readline s
    match result with
    | [] => .error .raises
    | firstchar :: data => redcmd other (readResponse fuel) firstchar data s

/-- `read_response(fd)`: each reply that is nested in another one takes a byte at least. -/
def readReply (s : List UInt8) : Except Stop ((Bool × Value) × List UInt8) :=
  readResponse other (s.length + 1) s

/-! ## pipeline -/

/-- What the request of a pipeline of `n` commands reads, with a table `resp` -/
def readResp : ℕ → List UInt8 → Except Stop (List (Bool × Value) × List UInt8)
  | 0, s => .ok ([], s)
  | n + 1, s => do
    let (r, s) ← readReply other s
    let (resp, s) ← readResp n s
    .ok (r :: resp, s)

/-- And without a table, where `last` is the last response so far -/
def readLast : ℕ → Bool × Value → List UInt8 → Except Stop ((Bool × Value) × List UInt8)
  | 0, last, s => .ok (last, s)
  | n + 1, _, s => do
    let (r, s) ← readReply other s
    readLast n r s

end reader

/-! ## What the server sends -/

/-- A text that is sent as a line -/
structure Line where
  text : List UInt8
  unbroken : ¬ [13, 10] <:+: text

/-- The bytes of a string, as many as a memory has -/
structure Blob where
  bytes : List UInt8
  short : bytes.length < 2 ^ 63

/-- A value of the protocol -/
inductive Reply where
  | simple (s : Line)
  | error (s : Line)
  | integer (n : Int64)
  | bulk (s : Blob)
  | nullBulk
  | array (n : ℕ) (h : n < 2 ^ 63) (elements : Fin n → Reply)
  | nullArray

namespace Reply

def crlf : List UInt8 := [13, 10]

/-- The bytes of a value -/
def encode : Reply → List UInt8
  | simple s => 43 :: s.text ++ crlf
  | error s => 45 :: s.text ++ crlf
  | integer n => 58 :: numeral n.toInt ++ crlf
  | bulk s => 36 :: digits s.bytes.length ++ crlf ++ (s.bytes ++ crlf)
  | nullBulk => 36 :: numeral (-1) ++ crlf
  | array n _ elements => 42 :: digits n ++ crlf ++ (List.ofFn fun i => (elements i).encode).flatten
  | nullArray => 42 :: numeral (-1) ++ crlf

/-- What the value is in Lua -/
def decode : Reply → Value
  | simple s => .string s.text
  | error s => .string s.text
  | integer n => .integer n.toInt
  | bulk s => .string s.bytes
  | nullBulk => .nil
  | array _ _ elements => .table (List.ofFn fun i => (elements i).decode)
  | nullArray => .nil

/-- The value is an error, or an array that has one at some depth. -/
inductive HasError : Reply → Prop
  | error (s : Line) : HasError (error s)
  | array (n : ℕ) (h : n < 2 ^ 63) (elements : Fin n → Reply) (i : Fin n) :
    HasError (elements i) → HasError (array n h elements)

/-- The success flag -/
def ok : Reply → Bool
  | error _ => false
  | array _ _ elements => (List.ofFn fun i => (elements i).ok).all id
  | _ => true

theorem ok_eq_false_iff (v : Reply) : v.ok = false ↔ v.HasError := by
  induction v with
  | error s => exact iff_of_true rfl (.error s)
  | array n h elements ih =>
    show ((List.ofFn fun i => (elements i).ok).all id) = false ↔ _
    rw [List.all_eq_false]
    constructor
    · rintro ⟨b, hb, hfalse⟩
      obtain ⟨i, rfl⟩ := List.mem_ofFn.mp hb
      exact .array n h elements i ((ih i).mp (Bool.eq_false_iff.mpr hfalse))
    · rintro (_ | ⟨_, _, _, i, herror⟩)
      refine ⟨(elements i).ok, List.mem_ofFn.mpr ⟨i, rfl⟩, ?_⟩
      rw [(ih i).mpr herror]
      exact Bool.false_ne_true
  | simple s => exact iff_of_false Bool.noConfusion fun h => by cases h
  | integer n => exact iff_of_false Bool.noConfusion fun h => by cases h
  | bulk s => exact iff_of_false Bool.noConfusion fun h => by cases h
  | nullBulk => exact iff_of_false Bool.noConfusion fun h => by cases h
  | nullArray => exact iff_of_false Bool.noConfusion fun h => by cases h

end Reply

/-! ## Lines -/

theorem readline_cons {c : UInt8} {s : List UInt8} (h : ∀ t, c :: s ≠ 13 :: 10 :: t) :
    readline (c :: s) = (readline s).map fun (line, s) => (c :: line, s) := by
  conv_lhs => unfold readline
  split
  · rename_i heq
    exact absurd heq (h _)
  · rename_i heq
    cases heq
    rfl
  · rename_i heq
    cases heq

/-- A line ends with the first CR LF. -/
theorem readline_append {line : List UInt8} (h : ¬ [13, 10] <:+: line) (s : List UInt8) :
    readline (line ++ Reply.crlf ++ s) = .ok (line, s) := by
  induction line with
  | nil => rfl
  | cons c line ih =>
    have hline : ¬ [13, 10] <:+: line := fun hpart => h (hpart.trans (List.suffix_cons c line).isInfix)
    have hnext : ∀ t, c :: (line ++ Reply.crlf ++ s) ≠ 13 :: 10 :: t := by
      intro t heq
      cases line with
      | nil => cases heq
      | cons c' line =>
        obtain ⟨hc, htail⟩ := List.cons.inj heq
        obtain ⟨hc', -⟩ := List.cons.inj htail
        exact h ⟨[], line, by rw [hc, hc']; rfl⟩
    show readline (c :: (line ++ Reply.crlf ++ s)) = _
    rw [readline_cons hnext, ih hline]
    rfl

/-- A text without a CR is a line. -/
theorem unbroken_of_notMem {line : List UInt8} (h : (13 : UInt8) ∉ line) : ¬ [13, 10] <:+: line :=
  fun hpart => h (hpart.subset List.mem_cons_self)

theorem cr_notMem_digits (n : ℕ) : (13 : UInt8) ∉ digits n :=
  fun h => absurd (isDigit_of_mem_digits h) (by decide)

theorem cr_notMem_numeral (n : ℤ) : (13 : UInt8) ∉ numeral n := by
  unfold numeral
  split_ifs
  · rw [List.mem_cons, not_or]
    exact ⟨by decide, cr_notMem_digits _⟩
  · exact cr_notMem_digits _

theorem unbroken_cons {c : UInt8} {line : List UInt8} (hc : c ≠ 13) (h : ¬ [13, 10] <:+: line) :
    ¬ [13, 10] <:+: c :: line := by
  intro hpart
  rcases List.infix_cons_iff.mp hpart with hfront | hpart
  · obtain ⟨t, heq⟩ := hfront
    exact hc (List.cons.inj heq).1.symm
  · exact h hpart

/-! ## One reply -/

section exact

variable {other : List UInt8 → Option ℤ}

theorem tonumber_numeral {n : ℤ} (h : -2 ^ 63 ≤ n) (h' : n < 2 ^ 63) :
    tonumber other (numeral n) = some n := by
  unfold tonumber
  rw [integer?_numeral]
  exact if_pos ⟨h, h'⟩

theorem tonumber_digits {n : ℕ} (h : n < 2 ^ 63) : tonumber other (digits n) = some (n : ℤ) := by
  unfold tonumber
  rw [integer?_digits]
  exact if_pos ⟨by omega, by exact_mod_cast h⟩

theorem readResponse_line {fuel : ℕ} {c : UInt8} {line : List UInt8} (hc : c ≠ 13)
    (h : ¬ [13, 10] <:+: line) (s : List UInt8) :
    readResponse other (fuel + 1) (c :: line ++ Reply.crlf ++ s) =
      redcmd other (readResponse other fuel) c line s := by
  unfold readResponse
  rw [readline_append (unbroken_cons hc h)]
  rfl

/-- The reader takes the value from the stream, and nothing else. -/
def Reads (readResponse : List UInt8 → Except Stop ((Bool × Value) × List UInt8)) (v : Reply) :
    Prop :=
  ∀ rest, readResponse (v.encode ++ rest) = .ok ((v.ok, v.decode), rest)

/-- All elements are read, whatever errors are among them. -/
theorem readElements_ok {readResponse : List UInt8 → Except Stop ((Bool × Value) × List UInt8)}
    {vs : List Reply} (h : ∀ v ∈ vs, Reads readResponse v) (rest : List UInt8) :
    readElements readResponse vs.length ((vs.map Reply.encode).flatten ++ rest) =
      .ok (((vs.map Reply.ok).all id, vs.map Reply.decode), rest) := by
  induction vs with
  | nil => rfl
  | cons v vs ih =>
    have hv := h v List.mem_cons_self ((vs.map Reply.encode).flatten ++ rest)
    have hvs := ih fun v' hv' => h v' (List.mem_cons_of_mem v hv')
    rw [List.map_cons, List.flatten_cons, List.append_assoc]
    show (readResponse _ >>= _) = _
    rw [hv]
    show (readElements readResponse vs.length _ >>= _) = _
    rw [hvs]
    rfl

theorem read_blob (bytes rest : List UInt8) :
    read (bytes.length + 2) (bytes ++ Reply.crlf ++ rest) = .ok (bytes ++ Reply.crlf, rest) := by
  have hlen : (bytes ++ Reply.crlf).length = bytes.length + 2 := List.length_append
  unfold read
  rw [if_neg (by rw [List.length_append, hlen]; omega), List.take_left' hlen, List.drop_left' hlen]

/-- **A reply is read exactly**, if the fuel is enough for its bytes. -/
theorem readResponse_encode (v : Reply) {fuel : ℕ} (h : v.encode.length < fuel) :
    Reads (readResponse other fuel) v := by
  induction v generalizing fuel with
  | simple s =>
    intro rest
    obtain ⟨fuel, rfl⟩ : ∃ f, fuel = f + 1 := ⟨fuel - 1, by omega⟩
    exact readResponse_line (by decide) s.unbroken rest
  | error s =>
    intro rest
    obtain ⟨fuel, rfl⟩ : ∃ f, fuel = f + 1 := ⟨fuel - 1, by omega⟩
    exact readResponse_line (by decide) s.unbroken rest
  | integer n =>
    intro rest
    obtain ⟨fuel, rfl⟩ : ∃ f, fuel = f + 1 := ⟨fuel - 1, by omega⟩
    show readResponse other _ (58 :: numeral n.toInt ++ Reply.crlf ++ rest) = _
    rw [readResponse_line (by decide) (unbroken_of_notMem (cr_notMem_numeral _))]
    unfold redcmd
    rw [tonumber_numeral n.le_toInt n.toInt_lt]
    rfl
  | bulk s =>
    intro rest
    obtain ⟨fuel, rfl⟩ : ∃ f, fuel = f + 1 := ⟨fuel - 1, by omega⟩
    show readResponse other _
      (36 :: digits s.bytes.length ++ Reply.crlf ++ (s.bytes ++ Reply.crlf) ++ rest) = _
    rw [List.append_assoc, readResponse_line (by decide) (unbroken_of_notMem (cr_notMem_digits _))]
    unfold redcmd
    rw [if_pos rfl, tonumber_digits s.short]
    show (if (s.bytes.length : ℤ) < 0 then _ else _) = _
    rw [if_neg (by omega), Int.toNat_natCast, read_blob]
    show Except.ok _ = _
    have hlen : (s.bytes ++ Reply.crlf).length - 2 = s.bytes.length := by
      rw [List.length_append]
      rfl
    rw [hlen, List.take_left]
    rfl
  | nullBulk =>
    intro rest
    obtain ⟨fuel, rfl⟩ : ∃ f, fuel = f + 1 := ⟨fuel - 1, by omega⟩
    show readResponse other _ (36 :: numeral (-1) ++ Reply.crlf ++ rest) = _
    rw [readResponse_line (by decide) (unbroken_of_notMem (cr_notMem_numeral _))]
    unfold redcmd
    rw [if_pos rfl, tonumber_numeral (by decide) (by decide)]
    rfl
  | array n hn elements ih =>
    intro rest
    obtain ⟨fuel, rfl⟩ : ∃ f, fuel = f + 1 := ⟨fuel - 1, by omega⟩
    have hparts : (List.ofFn fun i => (elements i).encode) =
        (List.ofFn elements).map Reply.encode := by
      rw [List.map_ofFn]
      rfl
    have hlen : (Reply.array n hn elements).encode =
        42 :: digits n ++ Reply.crlf ++ ((List.ofFn elements).map Reply.encode).flatten := by
      rw [← hparts]
      rfl
    have helements : ∀ v ∈ List.ofFn elements, Reads (readResponse other fuel) v := by
      intro v hv
      obtain ⟨i, rfl⟩ := List.mem_ofFn.mp hv
      apply ih i
      have hle : (elements i).encode.length ≤
          ((List.ofFn elements).map Reply.encode).flatten.length :=
        (List.sublist_flatten_of_mem (List.mem_map_of_mem hv)).length_le
      rw [hlen, List.length_append, List.length_append, List.length_cons] at h
      omega
    rw [hlen, List.append_assoc,
      readResponse_line (by decide) (unbroken_of_notMem (cr_notMem_digits _))]
    unfold redcmd
    rw [if_neg (by decide), if_neg (by decide), if_neg (by decide), if_neg (by decide), if_pos rfl,
      tonumber_digits hn]
    show (if (n : ℤ) < 0 then _ else _) = _
    have hread := readElements_ok helements rest
    rw [List.length_ofFn] at hread
    rw [if_neg (by omega), Int.toNat_natCast, hread, List.map_ofFn, List.map_ofFn]
    rfl
  | nullArray =>
    intro rest
    obtain ⟨fuel, rfl⟩ : ∃ f, fuel = f + 1 := ⟨fuel - 1, by omega⟩
    show readResponse other _ (42 :: numeral (-1) ++ Reply.crlf ++ rest) = _
    rw [readResponse_line (by decide) (unbroken_of_notMem (cr_notMem_numeral _))]
    unfold redcmd
    rw [if_neg (by decide), if_neg (by decide), if_neg (by decide), if_neg (by decide), if_pos rfl,
      tonumber_numeral (by decide) (by decide)]
    rfl

theorem readReply_encode (v : Reply) : Reads (readReply other) v := by
  intro rest
  apply readResponse_encode v
  rw [List.length_append]
  omega

/-! ## Pipelines -/

theorem readResp_ok (vs : List Reply) (rest : List UInt8) :
    readResp other vs.length ((vs.map Reply.encode).flatten ++ rest) =
      .ok (vs.map fun v => (v.ok, v.decode), rest) := by
  induction vs with
  | nil => rfl
  | cons v vs ih =>
    rw [List.map_cons, List.flatten_cons, List.append_assoc]
    show (readReply other _ >>= _) = _
    rw [readReply_encode v]
    show (readResp other vs.length _ >>= _) = _
    rw [ih]
    rfl

theorem readLast_ok (vs : List Reply) (last : Bool × Value) (rest : List UInt8) :
    readLast other vs.length last ((vs.map Reply.encode).flatten ++ rest) =
      .ok ((vs.map fun v => (v.ok, v.decode)).getLastD last, rest) := by
  induction vs generalizing last with
  | nil => rfl
  | cons v vs ih =>
    rw [List.map_cons, List.flatten_cons, List.append_assoc]
    show (readReply other _ >>= _) = _
    rw [readReply_encode v]
    show readLast other vs.length _ _ = _
    rw [ih, List.map_cons, List.getLastD_cons]

end exact

/-- **Replies are read exactly**: each one to its end, with the flag false for an error at any
depth, and those of a pipeline in order. -/
theorem read_exact (other : List UInt8 → Option ℤ) :
    (∀ (v : Reply) (rest : List UInt8), ∃ ok,
      readReply other (v.encode ++ rest) = .ok ((ok, v.decode), rest) ∧
      (ok = false ↔ v.HasError)) ∧
    ∀ (vs : List Reply) (last : Bool × Value) (rest : List UInt8),
      ∃ resp : List (Bool × Value),
        readResp other vs.length ((vs.map Reply.encode).flatten ++ rest) = .ok (resp, rest) ∧
        readLast other vs.length last ((vs.map Reply.encode).flatten ++ rest) =
          .ok (resp.getLastD last, rest) ∧
        List.Forall₂ (fun v r => r.2 = v.decode ∧ (r.1 = false ↔ v.HasError)) vs resp := by
  constructor
  · intro v rest
    exact ⟨v.ok, readReply_encode v rest, v.ok_eq_false_iff⟩
  · intro vs last rest
    refine ⟨_, readResp_ok vs rest, readLast_ok vs last rest, ?_⟩
    rw [List.forall₂_map_right_iff, List.forall₂_same]
    exact fun v _ => ⟨rfl, v.ok_eq_false_iff⟩

end SkynetEureka.Redis
