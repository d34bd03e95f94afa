import Mathlib

/-!
# The read buffer of a socket (lua-socket.c)

The messages that have arrived stay as they are, in a list of nodes; `offset` bytes of the first one
have been read. The result `none` is a fault: a null pointer, or a negative length.
-/

namespace SkynetEureka.Socket

abbrev Bytes := List UInt8

/-- `struct socket_buffer`, with the messages of its nodes from `head` to `tail` -/
structure Buffer where
  size : ℤ
  offset : ℕ
  nodes : List Bytes

/-- What is converted to `int` -/
def toInt (n : ℤ) : ℤ := n.bmod (2 ^ 32)

/-! ## The functions -/

/-- `lpushlstring` of the first `n` bytes -/
def pushBytes (msg : Bytes) (n : ℤ) : Option Bytes :=
  if 0 ≤ n then some (msg.take n.toNat) else none

/-- The loop of `pop_lstring` -/
def popLoop (skip : ℕ) : List Bytes → ℕ → ℕ → Bytes → Option (Bytes × ℕ × List Bytes)
  | [], _, _, _ => none
  | current :: rest, offset, sz, b =>
    let bytes := current.length - offset
    if sz ≤ bytes then
      let b := if skip < sz then b ++ (current.drop offset).take (sz - skip) else b
      if bytes = sz then some (b, 0, rest) else some (b, offset + sz, current :: rest)
    else
      let realSz := sz - skip
      let b := if 0 < realSz then
        b ++ (current.drop offset).take (if realSz < bytes then realSz else bytes) else b
      popLoop skip rest 0 (sz - bytes) b

/-- `check_sep` -/
def checkSep : List Bytes → ℕ → Bytes → Option Bool
  | [], _, _ => none
  | node :: rest, start, sep =>
    let sz := node.length - start
    if sep.length ≤ sz then some ((node.drop start).take sep.length == sep)
    else if 0 < sz ∧ node.drop start ≠ sep.take sz then some false
    else checkSep rest 0 (sep.drop sz)

/-- The loop of `lreadline`, which has `n` positions left -/
def findSep (sep : Bytes) : ℕ → List Bytes → ℕ → ℤ → ℕ → Option (Option ℕ)
  | 0, _, _, _, _ => some none
  | n + 1, nodes, start, bytes, i => do
    let found ← checkSep nodes start sep
    if found then some (some i)
    else if bytes - 1 = 0 then
      match nodes.tail with
      | [] => some none
      | current :: rest => findSep sep n (current :: rest) 0 current.length (i + 1)
    else findSep sep n nodes (start + 1) (bytes - 1) (i + 1)

namespace Buffer

variable (sb : Buffer)

/-- `lnewbuffer` -/
def init : Buffer := ⟨0, 0, []⟩

/-- `lpushbuffer` -/
def push (msg : Bytes) : Buffer :=
  { sb with size := toInt (sb.size + msg.length), nodes := sb.nodes ++ [msg] }

/-- `pop_lstring` -/
def popLstring (sz : ℤ) (skip : ℕ) : Option (Bytes × Buffer) :=
  match sb.nodes with
  | [] => none
  | current :: rest =>
    if sz < current.length - sb.offset then do
      let ret ← pushBytes (current.drop sb.offset) (sz - skip)
      some (ret, { sb with offset := sb.offset + sz.toNat })
    else if sz = current.length - sb.offset then do
      let ret ← pushBytes (current.drop sb.offset) (sz - skip)
      some (ret, { sb with offset := 0, nodes := rest })
    else do
      let (b, offset, nodes) ← popLoop skip sb.nodes sb.offset sz.toNat []
      some (b, { sb with offset := offset, nodes := nodes })

/-- `lpopbuffer` -/
def pop (n : ℤ) : Option (Option Bytes × Buffer) :=
  let sz := toInt n
  if sb.size < sz ∨ sz = 0 then some (none, sb)
  else do
    let (ret, sb') ← sb.popLstring sz 0
    some (some ret, { sb' with size := toInt (sb'.size - sz) })

/-- `lreadall` -/
def readall : Bytes × Buffer :=
  match sb.nodes with
  | [] => ([], { sb with size := 0 })
  | current :: rest => (current.drop sb.offset ++ rest.flatten, init)

/-- `lclearbuffer` -/
def clear : Buffer := if sb.nodes = [] then { sb with size := 0 } else init

/-- Where `lreadline` finds the separator -/
def search (sep : Bytes) : Option (Option ℕ) :=
  match sb.nodes with
  | [] => some none
  | current :: _ => findSep sep (sb.size - toInt sep.length + 1).toNat sb.nodes sb.offset
      (current.length - sb.offset) 0

/-- `lreadline`, with a pool -/
def readline (sep : Bytes) : Option (Option Bytes × Buffer) := do
  let found ← sb.search sep
  match found with
  | none => some (none, sb)
  | some i => do
    let (ret, sb') ← sb.popLstring (i + sep.length) sep.length
    some (some ret, { sb' with size := toInt (sb'.size - (i + sep.length)) })

/-! ## What is in it -/

/-- The bytes that can be read -/
def bytes : Bytes := sb.nodes.flatten.drop sb.offset

end Buffer

/-- No node is empty, or has been read to its end. -/
def Shape : List Bytes → ℕ → Prop
  | [], offset => offset = 0
  | current :: rest, offset => offset < current.length ∧ ∀ node ∈ rest, node ≠ []

structure Buffer.Ok (sb : Buffer) : Prop where
  shape : Shape sb.nodes sb.offset
  size : sb.size = sb.bytes.length
  lt : sb.bytes.length < 2 ^ 31

variable {sb : Buffer} {nodes rest : List Bytes} {current sep : Bytes} {offset start skip sz n i : ℕ}

theorem toInt_eq (h : sz < 2 ^ 31) : toInt sz = sz := by
  unfold toInt
  rw [Int.bmod_eq_of_le] <;> omega

theorem shape_zero (h : ∀ node ∈ rest, node ≠ []) : Shape rest 0 := by
  cases rest with
  | nil => rfl
  | cons node rest =>
    refine ⟨List.length_pos_of_ne_nil (h node List.mem_cons_self), fun node' hnode' => ?_⟩
    exact h node' (List.mem_cons_of_mem _ hnode')

theorem drop_flatten (h : offset ≤ current.length) :
    (current :: rest).flatten.drop offset = current.drop offset ++ rest.flatten := by
  rw [List.flatten_cons, List.drop_append_of_le_length h]

/-- What the loop takes out, and what it leaves -/
theorem popLoop_eq (b : Bytes) (hshape : Shape nodes offset) (hpos : 0 < sz)
    (hle : sz ≤ (nodes.flatten.drop offset).length) :
    ∃ offset' nodes', popLoop skip nodes offset sz b =
        some (b ++ (nodes.flatten.drop offset).take (sz - skip), offset', nodes') ∧
      nodes'.flatten.drop offset' = (nodes.flatten.drop offset).drop sz ∧ Shape nodes' offset' := by
  induction nodes generalizing offset sz b with
  | nil =>
    simp at hle
    omega
  | cons current rest ih =>
    obtain ⟨hlt, hrest⟩ := hshape
    rw [drop_flatten hlt.le] at hle ⊢
    have hlength : (current.drop offset).length = current.length - offset := List.length_drop
    rw [List.length_append, hlength] at hle
    unfold popLoop
    dsimp only
    by_cases hfits : sz ≤ current.length - offset
    · rw [if_pos hfits]
      have htake : (if skip < sz then b ++ (current.drop offset).take (sz - skip) else b) =
          b ++ (current.drop offset ++ rest.flatten).take (sz - skip) := by
        rw [List.take_append_of_le_length (by omega)]
        split
        · rfl
        · rw [Nat.sub_eq_zero_of_le (by omega), List.take_zero, List.append_nil]
      rw [htake]
      by_cases hall : current.length - offset = sz
      · rw [if_pos hall]
        refine ⟨_, _, rfl, ?_, shape_zero hrest⟩
        have hnil : (current.drop offset).drop sz = [] := List.drop_of_length_le (by omega)
        rw [List.drop_zero, List.drop_append_of_le_length (by omega), hnil, List.nil_append]
      · rw [if_neg hall]
        refine ⟨_, _, rfl, ?_, by omega, hrest⟩
        rw [drop_flatten (by omega), List.drop_append_of_le_length (by omega), List.drop_drop]
    · rw [if_neg hfits]
      have htake : (if 0 < sz - skip then b ++ (current.drop offset).take
          (if sz - skip < current.length - offset then sz - skip else current.length - offset) else b) =
          b ++ (current.drop offset).take (sz - skip) := by
        split
        · split
          · rfl
          · rw [List.take_of_length_le (by omega), List.take_of_length_le (by omega)]
        · have hzero : sz - skip = 0 := by omega
          rw [hzero, List.take_zero, List.append_nil]
      rw [htake]
      have hdrop : rest.flatten.drop 0 = rest.flatten := List.drop_zero
      obtain ⟨offset', nodes', hloop, hflat, hshape⟩ :=
        ih (b ++ (current.drop offset).take (sz - skip)) (shape_zero hrest)
          (by omega : 0 < sz - (current.length - offset)) (by rw [hdrop]; omega)
      rw [hdrop] at hloop hflat
      refine ⟨offset', nodes', ?_, ?_, hshape⟩
      · rw [hloop, List.take_append, hlength, List.append_assoc]
        rw [Nat.sub_right_comm]
      · have hnil : (current.drop offset).drop sz = [] := List.drop_of_length_le (by omega)
        rw [hflat, List.drop_append, hlength, hnil, List.nil_append]

/-- `pop_lstring` takes `sz` bytes out, and returns them without the last `skip`. -/
theorem Buffer.popLstring_eq (hshape : Shape sb.nodes sb.offset) (hnodes : sb.nodes ≠ [])
    (hskip : skip ≤ sz) (hle : sz ≤ sb.bytes.length) :
    ∃ sb', sb.popLstring sz skip = some (sb.bytes.take (sz - skip), sb') ∧
      sb'.bytes = sb.bytes.drop sz ∧ Shape sb'.nodes sb'.offset ∧ sb'.size = sb.size := by
  obtain ⟨size, offset, nodes⟩ := sb
  unfold Buffer.popLstring Buffer.bytes at *
  dsimp only at *
  cases nodes with
  | nil => exact (hnodes rfl).elim
  | cons current rest =>
    obtain ⟨hlt, hrest⟩ := id hshape
    have hflat := @drop_flatten rest _ _ hlt.le
    have hlength : (current.drop offset).length = current.length - offset := List.length_drop
    have hpush : sz ≤ current.length - offset → pushBytes (current.drop offset) (sz - skip) =
        some (((current :: rest).flatten.drop offset).take (sz - skip)) := by
      intro hfits
      unfold pushBytes
      rw [if_pos (by omega), hflat, List.take_append_of_le_length (by omega)]
      congr 2
      omega
    dsimp only
    by_cases hfits : sz < current.length - offset
    · rw [if_pos (by omega), hpush hfits.le]
      refine ⟨_, rfl, ?_, ⟨?_, hrest⟩, rfl⟩
      · show (current :: rest).flatten.drop (offset + (sz : ℤ).toNat) = _
        rw [Int.toNat_natCast, List.drop_drop]
      · show offset + (sz : ℤ).toNat < current.length
        omega
    · rw [if_neg (by omega)]
      by_cases hall : sz = current.length - offset
      · rw [if_pos (by omega), hpush hall.le]
        refine ⟨_, rfl, ?_, shape_zero hrest, rfl⟩
        have hnil : (current.drop offset).drop sz = [] := List.drop_of_length_le (by omega)
        show rest.flatten.drop 0 = _
        rw [hflat, List.drop_zero, List.drop_append_of_le_length (by omega), hnil, List.nil_append]
      · rw [if_neg (by omega), Int.toNat_natCast]
        obtain ⟨offset', nodes', hloop, hbytes, hshape'⟩ :=
          @popLoop_eq _ _ skip sz [] hshape (by omega) hle
        rw [hloop]
        exact ⟨_, rfl, hbytes, hshape', rfl⟩

/-! ## The separator -/

/-- `check_sep` compares as many bytes as the separator has, if there are so many. -/
theorem checkSep_eq (hnodes : nodes ≠ []) (hshape : Shape nodes start)
    (hle : sep.length ≤ (nodes.flatten.drop start).length) :
    ∃ found, checkSep nodes start sep = some found ∧
      (found = true ↔ sep <+: nodes.flatten.drop start) := by
  induction nodes generalizing start sep with
  | nil => exact (hnodes rfl).elim
  | cons node rest ih =>
    obtain ⟨hlt, hrest⟩ := hshape
    have hlength : (node.drop start).length = node.length - start := List.length_drop
    rw [drop_flatten hlt.le] at hle ⊢
    rw [List.length_append, hlength] at hle
    unfold checkSep
    dsimp only
    by_cases hfits : sep.length ≤ node.length - start
    · rw [if_pos hfits]
      refine ⟨_, rfl, ?_⟩
      rw [List.prefix_iff_eq_take, List.take_append_of_le_length (by omega), beq_iff_eq]
      exact eq_comm
    · rw [if_neg hfits]
      have htake : (node.drop start ++ rest.flatten).take (node.length - start) =
          node.drop start := List.take_left' hlength
      by_cases hdiffer : node.drop start = sep.take (node.length - start)
      · rw [if_neg fun h => h.2 hdiffer]
        have hsep : sep = node.drop start ++ sep.drop (node.length - start) := by
          rw [hdiffer, List.take_append_drop]
        have hrest' : rest ≠ [] := by
          intro hnil
          rw [hnil] at hle
          simp at hle
          omega
        have hdrop : rest.flatten.drop 0 = rest.flatten := List.drop_zero
        obtain ⟨found, heq, hfound⟩ := ih hrest' (shape_zero hrest)
          (by rw [hdrop, List.length_drop]; omega : (sep.drop (node.length - start)).length ≤ _)
        refine ⟨found, heq, ?_⟩
        rw [hfound, hdrop]
        conv => rhs; rw [hsep]
        exact (List.prefix_append_right_inj _).symm
      · rw [if_pos ⟨by omega, hdiffer⟩]
        refine ⟨_, rfl, ⟨nofun, fun hprefix => (hdiffer ?_).elim⟩⟩
        rw [List.prefix_iff_eq_take.mp hprefix, List.take_take, Nat.min_eq_left (by omega), htake]

/-- The loop finds the first position that has the separator. -/
theorem findSep_eq (hnodes : nodes ≠ []) (hshape : Shape nodes start)
    (hle : n + sep.length ≤ (nodes.flatten.drop start).length + 1) {bytes : ℤ}
    (hbytes : ∀ current ∈ nodes.head?, bytes = current.length - start) :
    ∃ found, findSep sep n nodes start bytes i = some found ∧
      (∀ k ∈ found, ∃ j < n, k = i + j ∧ sep <+: (nodes.flatten.drop start).drop j ∧
        ∀ m < j, ¬sep <+: (nodes.flatten.drop start).drop m) ∧
      (found = none → ∀ j < n, ¬sep <+: (nodes.flatten.drop start).drop j) := by
  induction n generalizing nodes start bytes i with
  | zero => exact ⟨none, rfl, nofun, fun _ j hj => (Nat.not_lt_zero j hj).elim⟩
  | succ n ih =>
    obtain ⟨found, hcheck, hfound⟩ := checkSep_eq hnodes hshape (by omega : sep.length ≤ _)
    unfold findSep
    rw [hcheck]
    cases found with
    | true =>
      refine ⟨some i, rfl, ?_, nofun⟩
      rintro k ⟨⟩
      exact ⟨0, Nat.succ_pos n, rfl, hfound.mp rfl, fun m hm => (Nat.not_lt_zero m hm).elim⟩
    | false =>
      have hnot : ¬sep <+: nodes.flatten.drop start := fun h => Bool.false_ne_true (hfound.mpr h)
      have hpos : 0 < sep.length := by
        by_contra hzero
        rw [List.eq_nil_of_length_eq_zero (Nat.eq_zero_of_not_pos hzero)] at hnot
        exact hnot (List.nil_prefix)
      -- the loop goes on with the rest
      have hnext : ∀ {nodes' : List Bytes} {start' : ℕ} {bytes' : ℤ}, nodes' ≠ [] →
          Shape nodes' start' → nodes'.flatten.drop start' = (nodes.flatten.drop start).drop 1 →
          (∀ current ∈ nodes'.head?, bytes' = current.length - start') →
          ∃ found, findSep sep n nodes' start' bytes' (i + 1) = some found ∧
            (∀ k ∈ found, ∃ j < n + 1, k = i + j ∧
              sep <+: (nodes.flatten.drop start).drop j ∧
                ∀ m < j, ¬sep <+: (nodes.flatten.drop start).drop m) ∧
            (found = none → ∀ j < n + 1, ¬sep <+: (nodes.flatten.drop start).drop j) := by
        intro nodes' start' bytes' hnodes' hshape' hdrop hbytes'
        obtain ⟨found, heq, hsome, hnone⟩ :=
          ih (i := i + 1) hnodes' hshape' (by rw [hdrop, List.length_drop]; omega) hbytes'
        refine ⟨found, heq, ?_, ?_⟩
        · intro k hk
          obtain ⟨j, hj, rfl, hprefix, hfirst⟩ := hsome k hk
          rw [hdrop, List.drop_drop] at hprefix
          refine ⟨1 + j, by omega, Nat.add_assoc _ _ _, hprefix, fun m hm => ?_⟩
          cases m with
          | zero => exact hnot
          | succ m =>
            have hrest := hfirst m (by omega)
            rw [hdrop, List.drop_drop, Nat.add_comm] at hrest
            exact hrest
        · intro hfound j hj
          cases j with
          | zero => exact hnot
          | succ j =>
            have hrest := hnone hfound j (by omega)
            rw [hdrop, List.drop_drop, Nat.add_comm] at hrest
            exact hrest
      cases nodes with
      | nil => exact (hnodes rfl).elim
      | cons current rest =>
        have hbytes := hbytes current rfl
        obtain ⟨hlt, hrest⟩ := id hshape
        have hflat := @drop_flatten rest _ _ hlt.le
        have hlength : (current.drop start).length = current.length - start := List.length_drop
        show ∃ found, (if bytes - 1 = 0 then _ else _) = some found ∧ _
        by_cases hone : bytes - 1 = 0
        · rw [if_pos hone]
          have hdrop : ((current :: rest).flatten.drop start).drop 1 = rest.flatten := by
            rw [hflat, List.drop_append_of_le_length (by omega), List.drop_of_length_le (by omega),
              List.nil_append]
          cases rest with
          | nil =>
            refine ⟨none, rfl, nofun, fun _ j hj => ?_⟩
            have hlen := congrArg List.length hflat
            rw [List.length_append, hlength] at hlen
            have hnil : ([] : List Bytes).flatten.length = 0 := rfl
            obtain rfl : j = 0 := by omega
            exact hnot
          | cons node rest =>
            refine hnext (List.cons_ne_nil _ _) (shape_zero hrest) ?_ ?_
            · rw [hdrop, List.drop_zero]
            · rintro _ ⟨⟩
              omega
        · rw [if_neg hone]
          refine hnext (List.cons_ne_nil _ _) ⟨by omega, hrest⟩ ?_ ?_
          · rw [List.drop_drop]
          · rintro _ ⟨⟩
            omega

/-! ## The operations -/

namespace Buffer

theorem init_ok : init.Ok := ⟨rfl, rfl, by decide⟩

/-- A message is appended to what can be read. -/
theorem Ok.push {msg : Bytes} (h : sb.Ok) (hmsg : msg ≠ [])
    (hlt : sb.bytes.length + msg.length < 2 ^ 31) :
    (sb.push msg).Ok ∧ (sb.push msg).bytes = sb.bytes ++ msg := by
  have hbytes : (sb.push msg).bytes = sb.bytes ++ msg := by
    have hle : sb.offset ≤ sb.nodes.flatten.length := by
      have hshape := h.shape
      cases hnodes : sb.nodes with
      | nil =>
        rw [hnodes] at hshape
        exact hshape.le
      | cons current rest =>
        rw [hnodes] at hshape
        rw [List.flatten_cons, List.length_append]
        have hoffset := hshape.1
        omega
    show (sb.nodes ++ [msg]).flatten.drop sb.offset = _
    rw [List.flatten_append, List.flatten_singleton, List.drop_append_of_le_length hle]
    rfl
  refine ⟨⟨?_, ?_, ?_⟩, hbytes⟩
  · show Shape (sb.nodes ++ [msg]) sb.offset
    have hshape := h.shape
    cases hnodes : sb.nodes with
    | nil =>
      rw [hnodes] at hshape
      rw [(hshape : sb.offset = 0)]
      exact ⟨List.length_pos_of_ne_nil hmsg, nofun⟩
    | cons current rest =>
      rw [hnodes] at hshape
      refine ⟨hshape.1, fun node hnode => ?_⟩
      rcases List.mem_append.mp hnode with hold | hnew
      · exact hshape.2 node hold
      · rw [List.mem_singleton.mp hnew]
        exact hmsg
  · have hsize : (sb.push msg).size = toInt ((sb.bytes.length + msg.length : ℕ) : ℤ) := by
      show toInt (sb.size + msg.length) = _
      rw [h.size, Nat.cast_add]
    rw [hsize, toInt_eq hlt, hbytes, List.length_append]
  · rw [hbytes, List.length_append]
    exact hlt

theorem nodes_ne_nil (hbytes : sb.bytes ≠ []) : sb.nodes ≠ [] := by
  intro hnodes
  unfold bytes at hbytes
  rw [hnodes] at hbytes
  exact hbytes List.drop_nil

/-- What `pop_lstring` leaves -/
theorem Ok.popLstring (h : sb.Ok) (hnodes : sb.nodes ≠ []) (hskip : skip ≤ sz)
    (hle : sz ≤ sb.bytes.length) :
    ∃ sb', sb.popLstring sz skip = some (sb.bytes.take (sz - skip), sb') ∧
      ({ sb' with size := toInt (sb'.size - sz) } : Buffer).Ok ∧
      ({ sb' with size := toInt (sb'.size - sz) } : Buffer).bytes = sb.bytes.drop sz := by
  obtain ⟨sb', heq, hbytes, hshape, hsize⟩ := popLstring_eq h.shape hnodes hskip hle
  have hlt := h.lt
  have hlength : sb'.bytes.length = sb.bytes.length - sz := by
    rw [hbytes, List.length_drop]
  refine ⟨sb', heq, ⟨hshape, ?_, ?_⟩, hbytes⟩
  · show toInt (sb'.size - sz) = (sb'.bytes.length : ℤ)
    rw [hlength, ← toInt_eq (by omega : sb.bytes.length - sz < 2 ^ 31), hsize, h.size,
      Nat.cast_sub hle]
  · show sb'.bytes.length < 2 ^ 31
    omega

/-- `lpopbuffer` returns exactly as many bytes as it is asked for. -/
theorem Ok.pop (h : sb.Ok) (hpos : 0 < sz) (hle : sz ≤ sb.bytes.length) :
    ∃ sb', sb.pop sz = some (some (sb.bytes.take sz), sb') ∧ sb'.Ok ∧
      sb'.bytes = sb.bytes.drop sz := by
  have hlt := h.lt
  have hne : sb.bytes ≠ [] := List.ne_nil_of_length_pos (by omega)
  have hnodes := nodes_ne_nil hne
  obtain ⟨sb', heq, hok, hbytes⟩ := h.popLstring hnodes (Nat.zero_le sz) hle
  unfold Buffer.pop
  dsimp only
  have hsize : ¬((sb.bytes.length : ℤ) < sz ∨ (sz : ℤ) = 0) := by omega
  rw [toInt_eq (by omega : sz < 2 ^ 31), h.size, if_neg hsize, heq]
  exact ⟨_, rfl, hok, hbytes⟩

theorem Ok.pop_none (h : sb.Ok) (hlt : sz < 2 ^ 31) (hnone : sz = 0 ∨ sb.bytes.length < sz) :
    sb.pop sz = some (none, sb) := by
  unfold Buffer.pop
  dsimp only
  rw [toInt_eq hlt, h.size, if_pos (by omega)]

/-- `lreadall` takes everything out. -/
theorem Ok.readall (h : sb.Ok) :
    sb.readall.1 = sb.bytes ∧ sb.readall.2.Ok ∧ sb.readall.2.bytes = [] := by
  have hshape := h.shape
  obtain ⟨size, offset, nodes⟩ := sb
  cases nodes with
  | nil =>
    obtain rfl : offset = 0 := hshape
    exact ⟨rfl, init_ok, rfl⟩
  | cons current rest => exact ⟨(drop_flatten hshape.1.le).symm, init_ok, rfl⟩

/-- `lreadline` finds the first separator. -/
theorem Ok.search (h : sb.Ok) (hlt : sep.length < 2 ^ 31) :
    ∃ found, sb.search sep = some found ∧
      (∀ k ∈ found, sb.nodes ≠ [] ∧ k + sep.length ≤ sb.bytes.length ∧
        sep <+: sb.bytes.drop k ∧ ∀ m < k, ¬sep <+: sb.bytes.drop m) ∧
      (found = none → sb.bytes ≠ [] → ¬sep <:+: sb.bytes) := by
  have hsize : (sb.size - toInt sep.length + 1).toNat = sb.bytes.length + 1 - sep.length := by
    rw [h.size, toInt_eq hlt]
    omega
  unfold Buffer.search
  rw [hsize]
  cases hnodes : sb.nodes with
  | nil =>
    refine ⟨none, rfl, nofun, fun _ hbytes => ?_⟩
    exact (nodes_ne_nil hbytes hnodes).elim
  | cons current rest =>
    have hne : sb.nodes ≠ [] := by
      rw [hnodes]
      exact List.cons_ne_nil _ _
    have hhead : ∀ node ∈ sb.nodes.head?, (current.length - sb.offset : ℤ) = node.length - sb.offset := by
      rw [hnodes]
      rintro _ ⟨⟩
      rfl
    dsimp only
    by_cases hle : sep.length ≤ sb.bytes.length
    · obtain ⟨found, heq, hsome, hnone⟩ := findSep_eq (i := 0) hne h.shape
        (by show sb.bytes.length + 1 - sep.length + sep.length ≤ sb.bytes.length + 1; omega) hhead
      rw [hnodes] at heq
      refine ⟨found, heq, ?_, ?_⟩
      · intro k hk
        obtain ⟨j, hj, rfl, hprefix, hfirst⟩ := hsome k hk
        rw [Nat.zero_add]
        exact ⟨nofun, by omega, hprefix, hfirst⟩
      · rintro hfound - ⟨before, after, heq⟩
        have hlength := congrArg List.length heq
        rw [List.length_append, List.length_append] at hlength
        refine hnone hfound before.length (by omega) ?_
        show sep <+: sb.bytes.drop before.length
        rw [← heq, List.append_assoc, List.drop_left]
        exact List.prefix_append _ _
    · rw [Nat.sub_eq_zero_of_le (by omega)]
      refine ⟨none, rfl, nofun, fun _ _ hsub => hle hsub.length_le⟩

/-- The bytes of a line, with its separator, are taken out. -/
theorem Ok.readline (h : sb.Ok) (hlt : sep.length < 2 ^ 31) :
    (∃ line sb', sb.search sep ≠ some none ∧ sb.readline sep = some (some line, sb') ∧ sb'.Ok ∧
      sb.bytes = line ++ sep ++ sb'.bytes ∧ ∀ m < line.length, ¬sep <+: sb.bytes.drop m) ∨
    (sb.search sep = some none ∧ sb.readline sep = some (none, sb)) := by
  obtain ⟨found, hsearch, hsome, -⟩ := h.search hlt
  unfold Buffer.readline
  rw [hsearch]
  cases found with
  | none => exact .inr ⟨rfl, rfl⟩
  | some k =>
    obtain ⟨hnodes, hle, hprefix, hfirst⟩ := hsome k rfl
    obtain ⟨sb', heq, hok, hbytes⟩ := h.popLstring hnodes (Nat.le_add_left sep.length k) hle
    rw [Nat.cast_add] at heq hok hbytes
    refine .inl ⟨sb.bytes.take (k + sep.length - sep.length), _, nofun, ?_, hok, ?_, ?_⟩
    · show (sb.popLstring (k + sep.length) sep.length).bind _ = _
      rw [heq]
      rfl
    · obtain ⟨rest, hrest⟩ := hprefix
      rw [hbytes, Nat.add_sub_cancel, ← List.drop_drop, ← hrest, List.drop_left, List.append_assoc,
        hrest, List.take_append_drop]
    · rw [Nat.add_sub_cancel, List.length_take]
      exact fun m hm => hfirst m (hm.trans_le (Nat.min_le_left _ _))

end Buffer

end SkynetEureka.Socket
