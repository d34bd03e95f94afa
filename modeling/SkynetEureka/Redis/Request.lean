import SkynetEureka.Redis.Response

/-!
# compose_message and compose_table (redis.lua)

A request is an array of bulk strings. Its first line has the number of the strings, which comes
from the length operator, and the strings come from `ipairs`, which stops at a nil. Each piece
begins with the end of the line before it, so that it can be cached; the last line end is a piece of
its own.
-/

namespace SkynetEureka.Redis

open Lib Reply

/-! ## Caches -/

/-- A weak table with the values that have been computed for its keys, as far as they have not been
collected -/
structure Cache (K : Type) (f : K → List UInt8) where
  entries : K → Option (List UInt8)
  sound : ∀ k s, entries k = some s → s = f k

/-- `t[k]` -/
def Cache.fetch {K : Type} [DecidableEq K] {f : K → List UInt8} (t : Cache K f) (k : K) :
    List UInt8 × Cache K f :=
  match t.entries k with
  | some s => (s, t)
  | none =>
    (f k, ⟨fun k' => if k' = k then some (f k) else t.entries k', fun k' s h => by
      split_ifs at h with heq
      · rw [heq]
        exact (Option.some.inj h).symm
      · exact t.sound k' s h⟩)

/-- Cached or not, it is the same. -/
theorem Cache.fetch_fst {K : Type} [DecidableEq K] {f : K → List UInt8} (t : Cache K f) (k : K) :
    (t.fetch k).1 = f k := by
  unfold Cache.fetch
  split
  · rename_i s h
    exact t.sound k s h
  · rfl

/-- `string.upper` -/
def upper (s : List UInt8) : List UInt8 :=
  s.map fun c => if 97 ≤ c ∧ c ≤ 122 then c - 32 else c

/-- What is in `header_cache` -/
def header (k : ℕ) : List UInt8 := crlf ++ 36 :: digits k ++ crlf

/-- What is in `command_cache` -/
def commandLine (cmd : List UInt8) : List UInt8 :=
  crlf ++ 36 :: digits cmd.length ++ crlf ++ upper cmd

/-- What is in `count_cache` -/
def count (k : ℕ) : List UInt8 := 42 :: digits k

/-- The caches, which both composers use -/
structure Caches where
  headers : Cache ℕ header
  commands : Cache (List UInt8) commandLine
  counts : Cache ℕ count

/-! ## Values -/

/-- What Lua does with a value that is not nil; `none` for what raises. A table may have any length
at which a nil follows, or what its metatable says. -/
structure Lua (V : Type) where
  tostring : V → Option (List UInt8)
  /-- `type(v) == "table"` -/
  isTable : V → Bool
  /-- `#v` -/
  length : V → Option ℕ
  /-- The values in front of the first nil, as `ipairs(v)` has them -/
  ipairs : V → List V

section values

variable {V : Type}

/-- The loop of `luaH_getn`; each round makes `j - i` less. -/
def boundary (t : List (Option V)) : ℕ → ℕ → ℕ → ℕ
  | 0, i, _ => i
  | fuel + 1, i, j =>
    if j - i > 1 then
      let m := (i + j) / 2
      if (t.getD (m - 1) none).isNone then boundary t fuel i m else boundary t fuel m j
    else i

/-- `#t` for a table that has been made of these values and nothing else, `luaH_getn` -/
def getn (t : List (Option V)) : ℕ :=
  let j := t.length
  if j > 0 ∧ (t.getD (j - 1) none).isNone then boundary t j 0 j else j

/-- The values in front of the first nil -/
def present : List (Option V) → List V
  | some v :: t => v :: present t
  | _ => []

/-! ## compose_message -/

/-- The argument `msg`: a table, with its length and its values, or another value -/
inductive Msg (V : Type) where
  | table (length : Option ℕ) (values : List V)
  | other (v : Option V)

variable (lua : Lua V)

/-- The lines for the values -/
def composeValues : Caches → List V → Option (List (List UInt8) × Caches)
  | caches, [] => some ([], caches)
  | caches, v :: vs => do
    let v ← lua.tostring v
    let (line, headers) := caches.headers.fetch v.length
    let (lines, caches) ← composeValues { caches with headers := headers } vs
    some (line :: v :: lines, caches)

/-- `tostring`, also of nil -/
def tostring : Option V → Option (List UInt8)
  | some v => lua.tostring v
  | none => some "nil".toUTF8.toList

/-- `compose_message(cmd, msg)` -/
def composeMessage (caches : Caches) (cmd : List UInt8) :
    Msg V → Option (List (List UInt8) × Caches)
  | .table length values => do
    let length ← length
    let (first, counts) := caches.counts.fetch (length + 1)
    let (second, commands) := caches.commands.fetch cmd
    let (lines, caches) ← composeValues lua
      { caches with counts := counts, commands := commands } values
    some (first :: second :: lines ++ [crlf], caches)
  | .other msg => do
    let msg ← tostring lua msg
    let (second, commands) := caches.commands.fetch cmd
    let (third, headers) := caches.headers.fetch msg.length
    some ([count 2, second, third, msg, crlf],
      { caches with commands := commands, headers := headers })

/-- A value as `msg` -/
def Lua.msg : Option V → Msg V
  | none => .other none
  | some v => if lua.isTable v then .table (lua.length v) (lua.ipairs v) else .other (some v)

/-- A table constructor as `msg` -/
def constructed (t : List (Option V)) : Msg V := .table (some (getn t)) (present t)

/-- The methods that send one command -/
inductive Call (V : Type) where
  /-- the function that `__index` makes for the name -/
  | method (k : List UInt8) (v : Option V) (varargs : List (Option V))
  | exists (key : Option V)
  | sismember (key value : Option V)

/-- The command of the call -/
def Call.cmd : Call V → List UInt8
  | method k _ _ => upper k
  -- "EXISTS"
  | .exists _ => [69, 88, 73, 83, 84, 83]
  -- "SISMEMBER"
  | sismember _ _ => [83, 73, 83, 77, 69, 77, 66, 69, 82]

/-- The argument of `compose_message` -/
def Call.msg : Call V → Msg V
  | method _ v varargs =>
    match v with
    | some t => if lua.isTable t then lua.msg (some t) else constructed (some t :: varargs)
    | none => constructed (none :: varargs)
  | .exists key => lua.msg key
  | sismember key value => constructed [key, value]

/-- The bytes that the call writes -/
def Call.bytes (caches : Caches) (call : Call V) : Option (List UInt8) :=
  (composeMessage lua caches call.cmd (call.msg lua)).map fun p => p.1.flatten

/-! ## pipeline -/

/-- `compose_table(lines, msg)`: the lines that it adds -/
def composeTable (caches : Caches) (msg : V) : Option (List (List UInt8) × Caches) := do
  let length ← lua.length msg
  let (first, counts) := caches.counts.fetch length
  let (lines, caches) ← composeValues lua { caches with counts := counts } (lua.ipairs msg)
  some (first :: lines ++ [crlf], caches)

/-- The loop of `pipeline` -/
def composeOps : Caches → List V → Option (List (List UInt8) × Caches)
  | caches, [] => some ([], caches)
  | caches, cmd :: ops => do
    let (lines, caches) ← composeTable lua caches cmd
    let (rest, caches) ← composeOps caches ops
    some (lines ++ rest, caches)

/-- The bytes that `pipeline(ops)` writes -/
def pipelineBytes (caches : Caches) (ops : List V) : Option (List UInt8) :=
  if ops.length > 0 then (composeOps lua caches ops).map fun p => p.1.flatten else none

/-! ## Arrays -/

/-- A bulk string -/
def bulkString (s : List UInt8) : List UInt8 := 36 :: digits s.length ++ crlf ++ (s ++ crlf)

/-- Bulk strings behind an announced number of them -/
def announced (n : ℕ) (elements : List (List UInt8)) : List UInt8 :=
  42 :: digits n ++ crlf ++ elements.flatMap bulkString

/-- An array of bulk strings -/
def array (elements : List (List UInt8)) : List UInt8 := announced elements.length elements

/-- `tostring(v)` for all of the values; `none` if one of them raises -/
def texts (vs : List V) : Option (List (List UInt8)) := vs.mapM lua.tostring

/-- The length or a text cannot be had. -/
def Raises (length : Option ℕ) (values : List V) : Prop :=
  length = none ∨ ∃ v ∈ values, lua.tostring v = none

/-- The length is the number of the values that `ipairs` has, or there is none. -/
def Msg.Counted : Msg V → Prop
  | .table length values => Raises lua length values ∨ length = some values.length
  | .other _ => True

/-- The arguments, when none of them is nil -/
def Call.arguments : Call V → Option (List V)
  | method _ v varargs =>
    match v with
    | some t => if lua.isTable t then some (lua.ipairs t) else (some t :: varargs).mapM id
    | none => none
  | .exists key => key.map fun v => if lua.isTable v then lua.ipairs v else [v]
  | sismember key value => [key, value].mapM id

/-- The call raises, or it writes an array; without nil its elements are the command and the
arguments. -/
def Call.Sound (caches : Caches) (call : Call V) : Prop :=
  ∀ bytes, call.bytes lua caches = some bytes → ∃ elements, bytes = array elements ∧
    ∀ vs, call.arguments lua = some vs →
      ∃ strings, texts lua vs = some strings ∧ elements = call.cmd :: strings

/-- The pipeline raises, or it writes an array for each command. -/
def PipelineSound (caches : Caches) (ops : List V) : Prop :=
  ∀ bytes, pipelineBytes lua caches ops = some bytes → ∃ arrays : List (List (List UInt8)),
    bytes = arrays.flatMap array ∧
    List.Forall₂ (fun op elements => texts lua (lua.ipairs op) = some elements) ops arrays

/-! ## What is written -/

section written

variable {lua} {caches : Caches} {vs : List V}

/-- The end of a line is written with the next piece. -/
theorem crlf_flatMap (strings : List (List UInt8)) :
    crlf ++ strings.flatMap bulkString =
      strings.flatMap (fun s => header s.length ++ s) ++ crlf := by
  induction strings with
  | nil => rfl
  | cons s strings ih =>
    have hrest : s ++ (crlf ++ strings.flatMap bulkString) = s ++ (_ ++ crlf) := congrArg _ ih
    rw [List.flatMap_cons, List.flatMap_cons, List.append_assoc, List.append_assoc, ← hrest]
    unfold bulkString header
    simp only [List.cons_append, List.append_assoc]

theorem composeValues_eq (lua : Lua V) (caches : Caches) (vs : List V) :
    (composeValues lua caches vs).map (fun p => p.1.flatten) =
      (texts lua vs).map fun strings => strings.flatMap fun s => header s.length ++ s := by
  unfold texts
  induction vs generalizing caches with
  | nil => rfl
  | cons v vs ih =>
    rw [List.mapM_cons]
    unfold composeValues
    cases hv : lua.tostring v with
    | none => rfl
    | some s =>
      have hrest := ih { caches with headers := (caches.headers.fetch s.length).2 }
      have hheader := caches.headers.fetch_fst s.length
      cases hvs : vs.mapM lua.tostring with
      | none =>
        rw [hvs, Option.map_none, Option.map_eq_none_iff] at hrest
        simp [hrest]
      | some strings =>
        rw [hvs, Option.map_some, Option.map_eq_some_iff] at hrest
        obtain ⟨⟨lines, caches'⟩, hcompose, hlines⟩ := hrest
        simp [hcompose, ← hlines, hheader]

/-- The number that is announced, and the texts, for a message that does not raise -/
def Msg.announces (lua : Lua V) : Msg V → Option (ℕ × List (List UInt8))
  | .table length values => length.bind fun n => (texts lua values).map fun strings => (n, strings)
  | .other v => (tostring lua v).map fun s => (1, [s])

theorem length_upper (s : List UInt8) : (upper s).length = s.length := List.length_map _

theorem commandLine_eq (cmd : List UInt8) : commandLine cmd = header cmd.length ++ upper cmd := by
  unfold commandLine header
  simp only [List.append_assoc, List.cons_append]

/-- The pieces of a request -/
theorem pieces_eq (n : ℕ) (strings : List (List UInt8)) :
    count n ++ (strings.flatMap (fun s => header s.length ++ s) ++ crlf) =
      announced n strings := by
  rw [← crlf_flatMap]
  unfold count announced
  rw [← List.append_assoc]

theorem composeMessage_table (caches : Caches) (cmd : List UInt8) (n : ℕ) (values : List V) :
    composeMessage lua caches cmd (.table (some n) values) =
      (composeValues lua ⟨caches.headers, (caches.commands.fetch cmd).2,
          (caches.counts.fetch (n + 1)).2⟩ values >>= fun p =>
        some ((caches.counts.fetch (n + 1)).1 :: (caches.commands.fetch cmd).1 :: p.1 ++ [crlf],
          p.2)) := rfl

theorem composeMessage_other (caches : Caches) (cmd : List UInt8) (v : Option V) :
    composeMessage lua caches cmd (.other v) = tostring lua v >>= fun msg =>
      some ([count 2, (caches.commands.fetch cmd).1, (caches.headers.fetch msg.length).1, msg, crlf],
        ⟨(caches.headers.fetch msg.length).2, (caches.commands.fetch cmd).2, caches.counts⟩) := rfl

/-- What `compose_message` writes -/
theorem composeMessage_eq (caches : Caches) (cmd : List UInt8) (msg : Msg V) :
    (composeMessage lua caches cmd msg).map (fun p => p.1.flatten) =
      (msg.announces lua).map fun p => announced (p.1 + 1) (upper cmd :: p.2) := by
  have hcmd : commandLine cmd = header (upper cmd).length ++ upper cmd := by
    rw [length_upper, commandLine_eq]
  cases msg with
  | table length values =>
    cases length with
    | none => rfl
    | some n =>
      have hcount := caches.counts.fetch_fst (n + 1)
      have hcommand := caches.commands.fetch_fst cmd
      rw [composeMessage_table]
      generalize Caches.mk caches.headers (caches.commands.fetch cmd).2
        (caches.counts.fetch (n + 1)).2 = fetched
      have hvalues := composeValues_eq lua fetched values
      unfold Msg.announces
      cases hstrings : texts lua values with
      | none =>
        rw [hstrings, Option.map_none, Option.map_eq_none_iff] at hvalues
        simp [hvalues, hstrings]
      | some strings =>
        rw [hstrings, Option.map_some, Option.map_eq_some_iff] at hvalues
        obtain ⟨⟨lines, caches'⟩, hcompose, hlines⟩ := hvalues
        simp only [hstrings, Option.bind_some, Option.map_some, ← pieces_eq, List.flatMap_cons]
        simp [hcompose, ← hlines, hcount, hcommand, hcmd]
  | other v =>
    have hcommand := caches.commands.fetch_fst cmd
    rw [composeMessage_other]
    unfold Msg.announces
    cases hv : tostring lua v with
    | none => simp [hv]
    | some s =>
      have hheader := caches.headers.fetch_fst s.length
      simp only [hv, Option.map_some, ← pieces_eq, List.flatMap_cons]
      simp [hcommand, hheader, hcmd]

theorem composeTable_eq (caches : Caches) (op : V) :
    (composeTable lua caches op).map (fun p => p.1.flatten) =
      (lua.length op).bind fun n => (texts lua (lua.ipairs op)).map (announced n) := by
  unfold composeTable
  cases hlength : lua.length op with
  | none => rfl
  | some n =>
    have hcount := caches.counts.fetch_fst n
    have hvalues := composeValues_eq lua
      { caches with counts := (caches.counts.fetch n).2 } (lua.ipairs op)
    rw [Option.bind_some]
    cases hstrings : texts lua (lua.ipairs op) with
    | none =>
      rw [hstrings, Option.map_none, Option.map_eq_none_iff] at hvalues
      simp [hvalues]
    | some strings =>
      rw [hstrings, Option.map_some, Option.map_eq_some_iff] at hvalues
      obtain ⟨⟨lines, caches'⟩, hcompose, hlines⟩ := hvalues
      rw [Option.map_some, ← pieces_eq]
      simp [hcompose, ← hlines, hcount]

end written

/-! ## What can be read back -/

section inverse

variable {n m : ℕ} {s t : List UInt8} {elements elements' : List (List UInt8)}

theorem digits_inj (h : digits n = digits m) : n = m := by
  have hn := natural?_digits n
  rw [h, natural?_digits] at hn
  exact (Option.some.inj hn).symm

/-- A number ends with its line. -/
theorem digits_crlf_inj (h : digits n ++ crlf ++ s = digits m ++ crlf ++ t) : n = m ∧ s = t := by
  have hn := readline_append (unbroken_of_notMem (cr_notMem_digits n)) s
  rw [h, readline_append (unbroken_of_notMem (cr_notMem_digits m))] at hn
  obtain ⟨hdigits, hrest⟩ := Prod.mk.inj (Except.ok.inj hn)
  exact ⟨(digits_inj hdigits).symm, hrest.symm⟩

theorem bulkString_inj {u v : List UInt8} (h : bulkString u ++ s = bulkString v ++ t) :
    u = v ∧ s = t := by
  unfold bulkString at h
  simp only [List.cons_append, List.append_assoc] at h
  have hline := (List.cons.inj h).2
  rw [← List.append_assoc, ← List.append_assoc (digits v.length)] at hline
  obtain ⟨hlen, hbytes⟩ := digits_crlf_inj hline
  obtain ⟨huv, hrest⟩ := List.append_inj hbytes hlen
  exact ⟨huv, List.append_cancel_left hrest⟩

/-- Something else than a bulk string -/
def Ends (s : List UInt8) : Prop := s.head? ≠ some 36

theorem bulkStrings_inj (hs : Ends s) (ht : Ends t)
    (h : elements.flatMap bulkString ++ s = elements'.flatMap bulkString ++ t) :
    elements = elements' ∧ s = t := by
  induction elements generalizing elements' with
  | nil =>
    cases elements' with
    | nil => exact ⟨rfl, h⟩
    | cons e elements' =>
      rw [List.flatMap_nil, List.nil_append, List.flatMap_cons] at h
      exact absurd (congrArg List.head? h) hs
  | cons e elements ih =>
    cases elements' with
    | nil =>
      rw [List.flatMap_nil, List.nil_append, List.flatMap_cons] at h
      exact absurd (congrArg List.head? h).symm ht
    | cons e' elements' =>
      rw [List.flatMap_cons, List.flatMap_cons, List.append_assoc, List.append_assoc] at h
      obtain ⟨he, hrest⟩ := bulkString_inj h
      obtain ⟨helements, hst⟩ := ih hrest
      exact ⟨by rw [he, helements], hst⟩

theorem announced_inj (hs : Ends s) (ht : Ends t)
    (h : announced n elements ++ s = announced m elements' ++ t) :
    n = m ∧ elements = elements' ∧ s = t := by
  unfold announced at h
  simp only [List.cons_append, List.append_assoc] at h
  have hline := (List.cons.inj h).2
  rw [← List.append_assoc, ← List.append_assoc (digits m)] at hline
  obtain ⟨hnm, hbytes⟩ := digits_crlf_inj hline
  exact ⟨hnm, bulkStrings_inj hs ht hbytes⟩

theorem ends_nil : Ends [] := by
  unfold Ends
  exact Option.some_ne_none 36 |>.symm

/-- Arrays that follow each other are those that were announced. -/
theorem arrays_inj {ps : List (ℕ × List (List UInt8))} {arrays : List (List (List UInt8))}
    (hlen : ps.length = arrays.length)
    (h : (ps.flatMap fun p => announced p.1 p.2) = arrays.flatMap array) :
    ∀ p ∈ ps, p.1 = p.2.length := by
  induction ps generalizing arrays with
  | nil => exact fun p hp => by cases hp
  | cons p ps ih =>
    cases arrays with
    | nil => cases hlen
    | cons a arrays =>
      have hends : ∀ {α : Type} (f : α → ℕ × List (List UInt8)) (l : List α),
          Ends (l.flatMap fun x => announced (f x).1 (f x).2) := by
        intro α f l
        cases l with
        | nil => exact ends_nil
        | cons x l => exact fun hhead => by cases hhead
      rw [List.flatMap_cons, List.flatMap_cons] at h
      obtain ⟨hcount, helements, hrest⟩ :=
        announced_inj (hends id ps) (hends (fun a => (a.length, a)) arrays) h
      intro p' hp'
      rcases List.mem_cons.mp hp' with rfl | hmem
      · rw [hcount, helements]
      · exact ih (Nat.succ.inj hlen) hrest p' hmem

end inverse

/-! ## Texts -/

section texts

variable {lua} {vs : List V} {strings : List (List UInt8)}

theorem texts_cons (lua : Lua V) (v : V) (vs : List V) : texts lua (v :: vs) =
    (lua.tostring v).bind fun s => (texts lua vs).map fun strings => s :: strings := by
  unfold texts
  rw [List.mapM_cons]
  cases lua.tostring v <;> cases vs.mapM lua.tostring <;> rfl

theorem texts_eq_none_iff : texts lua vs = none ↔ ∃ v ∈ vs, lua.tostring v = none := by
  induction vs with
  | nil =>
    refine iff_of_false (Option.some_ne_none []) fun h => ?_
    obtain ⟨v, hv, -⟩ := h
    cases hv
  | cons v vs ih =>
    rw [texts_cons, List.exists_mem_cons_iff, ← ih, Option.bind_eq_none_iff]
    cases hv : lua.tostring v with
    | none => simp
    | some s => simp

theorem length_texts (h : texts lua vs = some strings) : strings.length = vs.length := by
  induction vs generalizing strings with
  | nil =>
    cases h
    rfl
  | cons v vs ih =>
    rw [texts_cons, Option.bind_eq_some_iff] at h
    obtain ⟨s, -, hmap⟩ := h
    obtain ⟨rest, hrest, rfl⟩ := Option.map_eq_some_iff.mp hmap
    rw [List.length_cons, List.length_cons, ih hrest]

/-- Where nothing raises, a message is counted right exactly when it announces as many texts as it
has. -/
theorem counted_iff {msg : Msg V} : msg.Counted lua ↔
    ∀ n strings, msg.announces lua = some (n, strings) → n = strings.length := by
  cases msg with
  | table length values =>
    constructor
    · intro hcounted n strings hannounces
      obtain ⟨m, hlength, hmap⟩ := Option.bind_eq_some_iff.mp hannounces
      obtain ⟨strings', hstrings, heq⟩ := Option.map_eq_some_iff.mp hmap
      obtain ⟨rfl, rfl⟩ := Prod.mk.inj heq
      rcases hcounted with (hnone | hraises) | hlen
      · rw [hlength] at hnone
        cases hnone
      · rw [texts_eq_none_iff.mpr hraises] at hstrings
        cases hstrings
      · rw [hlength] at hlen
        rw [Option.some.inj hlen, length_texts hstrings]
    · intro h
      by_cases hraises : Raises lua length values
      · exact Or.inl hraises
      · obtain ⟨hlength, hstrings⟩ := not_or.mp hraises
        obtain ⟨n, rfl⟩ := Option.ne_none_iff_exists'.mp hlength
        obtain ⟨strings, hstrings⟩ :=
          Option.ne_none_iff_exists'.mp fun hnone => hstrings (texts_eq_none_iff.mp hnone)
        have hn := h n strings (by
          show ((some n).bind fun n => (texts lua values).map fun strings => (n, strings)) = _
          rw [hstrings]
          rfl)
        exact Or.inr (by rw [hn, length_texts hstrings])
  | other v =>
    refine iff_of_true trivial fun n strings hannounces => ?_
    obtain ⟨s, -, heq⟩ := Option.map_eq_some_iff.mp hannounces
    obtain ⟨rfl, rfl⟩ := Prod.mk.inj heq
    rfl

/-- A list without nil -/
theorem mapM_id_eq_some {t : List (Option V)} (h : t.mapM id = some vs) : present t = vs := by
  induction t generalizing vs with
  | nil =>
    cases h
    rfl
  | cons v t ih =>
    rw [List.mapM_cons] at h
    obtain ⟨w, hw, hrest⟩ := Option.bind_eq_some_iff.mp h
    obtain ⟨ws, hws, heq⟩ := Option.bind_eq_some_iff.mp hrest
    cases heq
    rw [id_eq] at hw
    rw [hw]
    show w :: present t = _
    rw [ih hws]

/-- The texts of a call are those of its arguments. -/
theorem announces_arguments {call : Call V} {n : ℕ} (hvs : call.arguments lua = some vs)
    (h : (call.msg lua).announces lua = some (n, strings)) : texts lua vs = some strings := by
  have htable : ∀ {length : Option ℕ} {values : List V}, values = vs →
      (Msg.table length values).announces lua = some (n, strings) →
      texts lua vs = some strings := by
    intro length values hvalues htable
    obtain ⟨m, -, hmap⟩ := Option.bind_eq_some_iff.mp htable
    obtain ⟨strings', hstrings, heq⟩ := Option.map_eq_some_iff.mp hmap
    rw [← hvalues, hstrings, (Prod.mk.inj heq).2]
  cases call with
  | method k v varargs =>
    cases v with
    | none => cases hvs
    | some t =>
      unfold Call.arguments at hvs
      unfold Call.msg at h
      by_cases hist : lua.isTable t = true
      · simp only [hist, if_true, Lua.msg] at hvs h
        exact htable (Option.some.inj hvs) h
      · simp only [hist, if_false, Bool.false_eq_true] at hvs h
        exact htable (mapM_id_eq_some hvs) h
  | «exists» key =>
    obtain ⟨v, rfl, hv⟩ := Option.map_eq_some_iff.mp hvs
    unfold Call.msg at h
    by_cases hist : lua.isTable v = true
    · simp only [hist, if_true, Lua.msg] at hv h
      exact htable hv h
    · simp only [hist, if_false, Bool.false_eq_true, Lua.msg] at hv h
      obtain ⟨s, hs, heq⟩ := Option.map_eq_some_iff.mp h
      have hs : lua.tostring v = some s := hs
      rw [← hv, texts_cons, hs, ← (Prod.mk.inj heq).2]
      rfl
  | sismember key value => exact htable (mapM_id_eq_some hvs) h

end texts

theorem upper_upper (s : List UInt8) : upper (upper s) = upper s := by
  unfold upper
  rw [List.map_map]
  apply List.map_congr_left
  intro c _
  show (if 97 ≤ (if 97 ≤ c ∧ c ≤ 122 then c - 32 else c) ∧ _ then _ else _) = _
  by_cases hc : 97 ≤ c ∧ c ≤ 122
  · have hlow := UInt8.le_iff_toNat_le.mp hc.1
    have hhigh := UInt8.le_iff_toNat_le.mp hc.2
    have hsub : (c - 32).toNat = c.toNat - 32 :=
      UInt8.toNat_sub_of_le c 32 (UInt8.le_iff_toNat_le.mpr (by
        show 32 ≤ c.toNat
        exact le_trans (by decide) hlow))
    have hno : ¬ (97 ≤ c - 32 ∧ c - 32 ≤ 122) := by
      intro h
      have h97 := UInt8.le_iff_toNat_le.mp h.1
      rw [hsub] at h97
      change 97 ≤ c.toNat - 32 at h97
      change c.toNat ≤ 122 at hhigh
      omega
    simp only [if_pos hc, if_neg hno]
  · simp only [if_neg hc]

theorem upper_cmd (call : Call V) : upper call.cmd = call.cmd := by
  cases call with
  | method k v varargs => exact upper_upper k
  | «exists» key => exact (by decide : upper [69, 88, 73, 83, 84, 83] = [69, 88, 73, 83, 84, 83])
  | sismember key value =>
    exact (by decide : upper [83, 73, 83, 77, 69, 77, 66, 69, 82] =
      [83, 73, 83, 77, 69, 77, 66, 69, 82])

/-! ## Calls and pipelines -/

/-- A command is sent well-formed exactly when its message is counted right. -/
theorem call_sound_iff (lua : Lua V) (caches : Caches) (call : Call V) :
    call.Sound lua caches ↔ (call.msg lua).Counted lua := by
  have hbytes : call.bytes lua caches = _ := composeMessage_eq caches call.cmd (call.msg lua)
  rw [counted_iff]
  constructor
  · intro h n strings hannounces
    rw [hannounces, Option.map_some] at hbytes
    obtain ⟨elements, harray, -⟩ := h _ hbytes
    unfold array at harray
    rw [← List.append_nil (announced _ _), ← List.append_nil (announced elements.length _)]
      at harray
    obtain ⟨hcount, rfl, -⟩ := announced_inj ends_nil ends_nil harray
    rw [List.length_cons] at hcount
    exact Nat.succ.inj hcount
  · intro h bytes hcall
    rw [hbytes, Option.map_eq_some_iff] at hcall
    obtain ⟨⟨n, strings⟩, hannounces, rfl⟩ := hcall
    refine ⟨call.cmd :: strings, ?_, fun vs hvs =>
      ⟨strings, announces_arguments hvs hannounces, rfl⟩⟩
    show announced (n + 1) (upper call.cmd :: strings) = _
    rw [upper_cmd, h n strings hannounces]
    rfl

/-- The number that a command of a pipeline announces, and its texts -/
def opAnnounces (lua : Lua V) (op : V) : Option (ℕ × List (List UInt8)) :=
  (lua.length op).bind fun n => (texts lua (lua.ipairs op)).map fun strings => (n, strings)

theorem composeOps_cons (lua : Lua V) (caches : Caches) (op : V) (ops : List V) :
    composeOps lua caches (op :: ops) = composeTable lua caches op >>= fun p =>
      composeOps lua p.2 ops >>= fun q => some (p.1 ++ q.1, q.2) := rfl

/-- What `pipeline` writes -/
theorem composeOps_eq (lua : Lua V) (caches : Caches) (ops : List V) :
    (composeOps lua caches ops).map (fun p => p.1.flatten) =
      (ops.mapM (opAnnounces lua)).map fun ps => ps.flatMap fun p => announced p.1 p.2 := by
  induction ops generalizing caches with
  | nil => rfl
  | cons op ops ih =>
    have htable : (composeTable lua caches op).map (fun p => p.1.flatten) =
        (opAnnounces lua op).map fun p => announced p.1 p.2 := by
      rw [composeTable_eq]
      unfold opAnnounces
      cases lua.length op with
      | none => rfl
      | some n => cases texts lua (lua.ipairs op) <;> rfl
    rw [composeOps_cons, List.mapM_cons]
    cases hop : opAnnounces lua op with
    | none =>
      rw [hop, Option.map_none, Option.map_eq_none_iff] at htable
      rw [htable]
      rfl
    | some p =>
      rw [hop, Option.map_some, Option.map_eq_some_iff] at htable
      obtain ⟨⟨lines, caches'⟩, hcompose, hlines⟩ := htable
      have hrest := ih caches'
      rw [hcompose]
      show ((composeOps lua caches' ops >>= _).map _ : Option (List UInt8)) =
        ((ops.mapM (opAnnounces lua) >>= _).map _)
      cases hops : ops.mapM (opAnnounces lua) with
      | none =>
        rw [hops, Option.map_none, Option.map_eq_none_iff] at hrest
        rw [hrest]
        rfl
      | some ps =>
        rw [hops, Option.map_some, Option.map_eq_some_iff] at hrest
        obtain ⟨⟨lines', caches''⟩, hcompose', hlines'⟩ := hrest
        rw [hcompose']
        show some (lines ++ lines').flatten = some ((p :: ps).flatMap _)
        rw [List.flatten_append, List.flatMap_cons, ← hlines', ← hlines]

section ops

variable {lua}

/-- The commands one by one -/
theorem mapM_eq_some {ops : List V} {ps : List (ℕ × List (List UInt8))}
    (h : ops.mapM (opAnnounces lua) = some ps) :
    List.Forall₂ (fun op p => opAnnounces lua op = some p) ops ps := by
  induction ops generalizing ps with
  | nil =>
    cases h
    exact .nil
  | cons op ops ih =>
    rw [List.mapM_cons] at h
    obtain ⟨p, hp, hrest⟩ := Option.bind_eq_some_iff.mp h
    obtain ⟨ps', hps', heq⟩ := Option.bind_eq_some_iff.mp hrest
    cases heq
    exact .cons hp (ih hps')

theorem forall₂_mem {α β : Type} {R : α → β → Prop} {l : List α} {l' : List β} {x : α}
    (h : List.Forall₂ R l l') (hx : x ∈ l) : ∃ y ∈ l', R x y := by
  induction h with
  | nil => cases hx
  | cons hR _ ih =>
    rcases List.mem_cons.mp hx with rfl | hmem
    · exact ⟨_, List.mem_cons_self, hR⟩
    · obtain ⟨y, hy, hRy⟩ := ih hmem
      exact ⟨y, List.mem_cons_of_mem _ hy, hRy⟩

theorem exists_mapM {ops : List V} (h : ∀ op ∈ ops, ∃ p, opAnnounces lua op = some p) :
    ∃ ps, ops.mapM (opAnnounces lua) = some ps := by
  induction ops with
  | nil => exact ⟨[], rfl⟩
  | cons op ops ih =>
    obtain ⟨p, hp⟩ := h op List.mem_cons_self
    obtain ⟨ps, hps⟩ := ih fun op' hop' => h op' (List.mem_cons_of_mem op hop')
    refine ⟨p :: ps, ?_⟩
    rw [List.mapM_cons, hp, hps]
    rfl

theorem opAnnounces_eq_some {op : V} {n : ℕ} {strings : List (List UInt8)} :
    opAnnounces lua op = some (n, strings) ↔
      lua.length op = some n ∧ texts lua (lua.ipairs op) = some strings := by
  unfold opAnnounces
  rw [Option.bind_eq_some_iff]
  simp only [Option.map_eq_some_iff, Prod.mk.injEq, exists_eq_right_right]

/-- A command of a pipeline that cannot be composed -/
def OpRaises (lua : Lua V) (op : V) : Prop := Raises lua (lua.length op) (lua.ipairs op)

theorem opRaises_iff {op : V} : OpRaises lua op ↔ opAnnounces lua op = none := by
  unfold OpRaises Raises opAnnounces
  rw [← texts_eq_none_iff]
  cases lua.length op with
  | none => simp
  | some n => simp

/-- The commands of a pipeline that does not raise, with what they announce -/
theorem pipelineBytes_eq {caches : Caches} {ops : List V} {ps : List (ℕ × List (List UInt8))}
    (hne : ops ≠ []) (h : ops.mapM (opAnnounces lua) = some ps) :
    pipelineBytes lua caches ops = some (ps.flatMap fun p => announced p.1 p.2) := by
  unfold pipelineBytes
  rw [if_pos (List.length_pos_of_ne_nil hne), composeOps_eq, h, Option.map_some]

end ops

/-- A pipeline is sent well-formed exactly when a command raises, or each of them has as many values
as its length says. -/
theorem pipeline_sound_iff (lua : Lua V) (caches : Caches) (ops : List V) :
    PipelineSound lua caches ops ↔ (∃ op ∈ ops, OpRaises lua op) ∨
      ∀ op ∈ ops, lua.length op = some (lua.ipairs op).length := by
  constructor
  · intro h
    by_cases hraises : ∃ op ∈ ops, OpRaises lua op
    · exact Or.inl hraises
    · refine Or.inr fun op hop => ?_
      have hall : ∀ op ∈ ops, ∃ p, opAnnounces lua op = some p := fun op' hop' =>
        Option.ne_none_iff_exists'.mp fun hnone => hraises ⟨op', hop', opRaises_iff.mpr hnone⟩
      obtain ⟨ps, hps⟩ := exists_mapM hall
      obtain ⟨arrays, hbytes, hforall⟩ := h _ (pipelineBytes_eq (List.ne_nil_of_mem hop) hps)
      have hcounts := arrays_inj ((mapM_eq_some hps).length_eq.symm.trans hforall.length_eq) hbytes
      obtain ⟨⟨n, strings⟩, hp⟩ := hall op hop
      obtain ⟨hlength, hstrings⟩ := opAnnounces_eq_some.mp hp
      have hmem : (n, strings) ∈ ps := by
        obtain ⟨p, hmem, hp'⟩ := forall₂_mem (mapM_eq_some hps) hop
        rw [hp] at hp'
        rw [Option.some.inj hp']
        exact hmem
      have hcount : n = strings.length := hcounts _ hmem
      rw [hlength, hcount, length_texts hstrings]
  · intro h bytes hbytes
    unfold pipelineBytes at hbytes
    split_ifs at hbytes with hpos
    rw [composeOps_eq, Option.map_eq_some_iff] at hbytes
    obtain ⟨ps, hps, rfl⟩ := hbytes
    have hforall := mapM_eq_some hps
    have hcounted : ∀ op ∈ ops, lua.length op = some (lua.ipairs op).length := by
      refine h.resolve_left fun ⟨op, hop, hraises⟩ => ?_
      obtain ⟨p, -, hp⟩ := forall₂_mem hforall hop
      rw [opRaises_iff.mp hraises] at hp
      cases hp
    refine ⟨ps.map Prod.snd, ?_, ?_⟩
    · rw [List.flatMap_map]
      apply List.flatMap_congr
      intro p hp
      obtain ⟨op, hop, hannounces⟩ := forall₂_mem hforall.flip hp
      obtain ⟨hlength, hstrings⟩ := opAnnounces_eq_some.mp hannounces
      rw [hcounted op hop, ← length_texts hstrings] at hlength
      rw [← Option.some.inj hlength]
      rfl
    · rw [List.forall₂_map_right_iff]
      exact hforall.imp fun op p hp => (opAnnounces_eq_some.mp hp).2

/-- **Requests are well-formed** exactly when the numbers that are announced are those of the values
in front of the first nil, or the call raises. -/
theorem requests_sound_iff (lua : Lua V) (caches : Caches) :
    (∀ call : Call V, call.Sound lua caches ↔ (call.msg lua).Counted lua) ∧
    ∀ ops : List V, PipelineSound lua caches ops ↔ (∃ op ∈ ops, OpRaises lua op) ∨
      ∀ op ∈ ops, lua.length op = some (lua.ipairs op).length :=
  ⟨call_sound_iff lua caches, pipeline_sound_iff lua caches⟩

end values

/-! ## A hole -/

/-- Strings are indexed by `string`, which has no numbers. -/
def luaStrings : Lua (List UInt8) where
  tostring s := some s
  isTable _ := false
  length s := some s.length
  ipairs _ := []

/-- Nothing is cached. -/
def noCaches : Caches := ⟨⟨fun _ => none, nofun⟩, ⟨fun _ => none, nofun⟩, ⟨fun _ => none, nofun⟩⟩

/-- `db:set("k", nil, "v")` announces four elements and sends two, and `db:pipeline {"ping"}`
announces four and sends none. -/
theorem requests_holes :
    ¬ (Call.method [115, 101, 116] (some [107]) [none, some [118]]).Sound luaStrings noCaches ∧
    ¬ PipelineSound luaStrings noCaches [[112, 105, 110, 103]] := by
  constructor
  · intro h
    rcases (call_sound_iff luaStrings noCaches _).mp h with (hnone | ⟨v, -, hv⟩) | hlength
    · cases hnone
    · cases hv
    · exact absurd hlength (by decide)
  · intro h
    rcases (pipeline_sound_iff luaStrings noCaches _).mp h with ⟨op, -, hnone | ⟨v, -, hv⟩⟩ | hall
    · cases hnone
    · cases hv
    · exact absurd (hall _ List.mem_cons_self) (by decide)

end SkynetEureka.Redis
