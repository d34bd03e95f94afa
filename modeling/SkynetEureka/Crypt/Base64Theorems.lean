import SkynetEureka.Crypt.Base64
import SkynetEureka.Crypt.Hex
import SkynetEureka.Crypt.TextTheorems

/-!
# Texts in base64

What a text decodes to depends on the values of its characters only, on its length, and on whether
something foreign comes behind the last group.
-/

namespace SkynetEureka.Crypt

open Lib

variable {size i output : ℕ} {c ks : List ℤ} {text s t : List UInt8} {x : UInt8}

/-- A character that is in the table: one of the alphabet, or `=` -/
def InTable (x : UInt8) : Prop := b64index x ≠ -1

instance (x : UInt8) : Decidable (InTable x) := inferInstanceAs (Decidable (b64index x ≠ -1))

/-- The values of the characters that are not skipped -/
def indexes (text : List UInt8) : List ℤ := (text.filter InTable).map b64index

/-- The bytes of the groups up to the first one that is malformed, and whether there is one -/
def groups : List ℤ → List UInt8 × Bool
  | c₀ :: c₁ :: c₂ :: c₃ :: ks =>
    match decodeGroup c₀ c₁ c₂ c₃ with
    | none => ([], true)
    | some bytes => (bytes ++ (groups ks).1, (groups ks).2)
  | _ => ([], false)

/-- Something is left when the last group is complete. -/
def Ragged (c : Option (List ℤ)) (text : List UInt8) : Prop :=
  ((c.getD [] ++ indexes text).length % 4 ≠ 0) ∨
    match text.getLast? with
    | some x => ¬ InTable x
    | none => c = some []

instance (c : Option (List ℤ)) (text : List UInt8) : Decidable (Ragged c text) :=
  haveI : Decidable (match text.getLast? with
      | some x => ¬ InTable x
      | none => c = some []) :=
    match text.getLast? with
    | some x => inferInstanceAs (Decidable (¬ InTable x))
    | none => inferInstanceAs (Decidable (c = some []))
  inferInstanceAs (Decidable (_ ∨ _))

/-- What the decoder returns: the first thing that stops it, or the bytes. The `int` counts no more
than `2 ^ 31 - 1` characters. -/
def outcome (size i output : ℕ) (c : Option (List ℤ)) (text : List UInt8) :
    Except Halt (List UInt8) :=
  let found := groups (c.getD [] ++ indexes (text.take (2 ^ 31 - 1 - i)))
  if size < output + found.1.length then .error .write
  else if found.2 then .error invalidBase64
  else if 2 ^ 31 ≤ i + text.length then .error .overflow
  else if Ragged c text then .error invalidBase64
  else .ok found.1

/-! ## The loop -/

theorem indexes_skip (h : ¬ InTable x) : indexes (x :: text) = indexes text := by
  unfold indexes
  rw [List.filter_cons_of_neg (by simpa using h)]

theorem indexes_take (h : InTable x) : indexes (x :: text) = b64index x :: indexes text := by
  unfold indexes
  rw [List.filter_cons_of_pos (by simpa using h), List.map_cons]

theorem groups_short (h : ks.length < 4) : groups ks = ([], false) := by
  unfold groups
  split
  · simp only [List.length_cons] at h
    omega
  · rfl

theorem groups_none {c₀ c₁ c₂ c₃ : ℤ} (h : decodeGroup c₀ c₁ c₂ c₃ = none) :
    groups (c₀ :: c₁ :: c₂ :: c₃ :: ks) = ([], true) := by
  show (match decodeGroup c₀ c₁ c₂ c₃ with
    | none => ([], true)
    | some bytes => (bytes ++ (groups ks).1, (groups ks).2)) = _
  rw [h]

theorem groups_some {c₀ c₁ c₂ c₃ : ℤ} {bytes : List UInt8}
    (h : decodeGroup c₀ c₁ c₂ c₃ = some bytes) :
    groups (c₀ :: c₁ :: c₂ :: c₃ :: ks) = (bytes ++ (groups ks).1, (groups ks).2) := by
  show (match decodeGroup c₀ c₁ c₂ c₃ with
    | none => ([], true)
    | some bytes => (bytes ++ (groups ks).1, (groups ks).2)) = _
  rw [h]

theorem ragged_skip {c : Option (List ℤ)} (hc : (c.getD []).length < 4) (hx : ¬ InTable x) :
    Ragged c (x :: text) ↔ Ragged (some (c.getD [])) text := by
  unfold Ragged
  rw [indexes_skip hx, Option.getD_some]
  cases text with
  | nil =>
    refine iff_of_true (Or.inr hx) ?_
    by_cases hnil : c.getD [] = []
    · exact Or.inr (congrArg some hnil)
    · have := List.length_pos_of_ne_nil hnil
      refine Or.inl ?_
      show (c.getD [] ++ []).length % 4 ≠ 0
      rw [List.append_nil]
      omega
  | cons y text =>
    obtain ⟨z, hz⟩ : ∃ z, (y :: text).getLast? = some z :=
      ⟨_, List.getLast?_eq_some_getLast (List.cons_ne_nil y text)⟩
    rw [List.getLast?_cons_cons, hz]

theorem ragged_take {c : Option (List ℤ)} {c' : Option (List ℤ)} (hx : InTable x)
    (hlen : (c'.getD []).length % 4 = ((c.getD []).length + 1) % 4) (hc' : c' ≠ some []) :
    Ragged c (x :: text) ↔ Ragged c' text := by
  unfold Ragged
  rw [indexes_take hx]
  simp only [List.length_append, List.length_cons]
  cases text with
  | nil =>
    simp only [List.getLast?_singleton, List.getLast?_nil, hx, hc', not_true_eq_false, or_false]
    omega
  | cons y text =>
    obtain ⟨z, hz⟩ : ∃ z, (y :: text).getLast? = some z :=
      ⟨_, List.getLast?_eq_some_getLast (List.cons_ne_nil y text)⟩
    rw [List.getLast?_cons_cons, hz]
    refine or_congr ?_ Iff.rfl
    omega

/-- A character that is skipped -/
theorem outcome_skip {c : Option (List ℤ)} (hc : (c.getD []).length < 4) (hx : ¬ InTable x)
    (hi : i + 1 < 2 ^ 31) :
    outcome size i output c (x :: text) = outcome size (i + 1) output (some (c.getD [])) text := by
  unfold outcome
  rw [show 2 ^ 31 - 1 - i = 2 ^ 31 - 1 - (i + 1) + 1 by omega, List.take_succ_cons,
    indexes_skip hx, List.length_cons, show i + (text.length + 1) = i + 1 + text.length by omega,
    Option.getD_some]
  simp only [ragged_skip hc hx]

/-- A character that is taken, and more are missing -/
theorem outcome_fill {c : Option (List ℤ)} (hx : InTable x) (hi : i + 1 < 2 ^ 31) :
    outcome size i output c (x :: text) =
      outcome size (i + 1) output (some (c.getD [] ++ [b64index x])) text := by
  have hragged : Ragged c (x :: text) ↔ Ragged (some (c.getD [] ++ [b64index x])) text := by
    apply ragged_take hx
    · rw [Option.getD_some, List.length_append, List.length_singleton]
    · simp
  unfold outcome
  rw [show 2 ^ 31 - 1 - i = 2 ^ 31 - 1 - (i + 1) + 1 by omega, List.take_succ_cons,
    indexes_take hx, List.length_cons, show i + (text.length + 1) = i + 1 + text.length by omega,
    Option.getD_some, List.append_assoc]
  simp only [hragged]
  rfl

/-- The last character of a group -/
theorem outcome_group {c : Option (List ℤ)} {c₀ c₁ c₂ c₃ : ℤ} (hx : InTable x)
    (hi : i + 1 < 2 ^ 31) (hout : output ≤ size)
    (hgroup : c.getD [] ++ [b64index x] = [c₀, c₁, c₂, c₃]) :
    outcome size i output c (x :: text) =
      match decodeGroup c₀ c₁ c₂ c₃ with
      | none => .error invalidBase64
      | some bytes =>
        if size < output + bytes.length then .error .write
        else outcome size (i + 1) (output + bytes.length) none text >>= fun buffer =>
          .ok (bytes ++ buffer) := by
  have hlen := congrArg List.length hgroup
  rw [List.length_append, List.length_singleton] at hlen
  have hragged : Ragged c (x :: text) ↔ Ragged none text := by
    apply ragged_take hx
    · rw [hlen]
      simp only [Option.getD_none, List.length_cons, List.length_nil]
    · simp
  have hlist (ks : List ℤ) : c.getD [] ++ b64index x :: ks = c₀ :: c₁ :: c₂ :: c₃ :: ks := by
    rw [← List.singleton_append, ← List.append_assoc, hgroup]
    rfl
  unfold outcome
  rw [show 2 ^ 31 - 1 - i = 2 ^ 31 - 1 - (i + 1) + 1 by omega, List.take_succ_cons,
    indexes_take hx, List.length_cons, show i + (text.length + 1) = i + 1 + text.length by omega,
    hlist]
  simp only [hragged]
  cases hbytes : decodeGroup c₀ c₁ c₂ c₃ with
  | none =>
    rw [groups_none hbytes]
    dsimp only
    rw [if_neg (show ¬ size < output + ([] : List UInt8).length by rw [List.length_nil]; omega),
      if_pos rfl]
  | some bytes =>
    rw [groups_some hbytes]
    dsimp only
    rw [Option.getD_none, List.nil_append, List.length_append]
    generalize groups (indexes (List.take (2 ^ 31 - 1 - (i + 1)) text)) = found
    by_cases hfit : size < output + bytes.length
    · rw [if_pos hfit, if_pos (by omega)]
    · rw [if_neg hfit, ← Nat.add_assoc]
      split_ifs
      · rfl
      · rfl
      · rfl
      · rfl
      · rfl

theorem decodeLoop_cons {c : Option (List ℤ)} : decodeLoop size i output c (x :: text) =
    if 2 ^ 31 ≤ i + 1 then .error .overflow
    else if b64index x = -1 then decodeLoop size (i + 1) output (some (c.getD [])) text
    else
      match c.getD [] ++ [b64index x] with
      | [c₀, c₁, c₂, c₃] =>
        match decodeGroup c₀ c₁ c₂ c₃ with
        | none => .error invalidBase64
        | some bytes =>
          if size < output + bytes.length then .error .write
          else decodeLoop size (i + 1) (output + bytes.length) none text >>= fun buffer =>
            .ok (bytes ++ buffer)
      | c => decodeLoop size (i + 1) output (some c) text := by
  cases c <;> rfl

/-- Where there is nothing more to read, or the `int` overflows -/
theorem outcome_end {c : Option (List ℤ)} (hc : (c.getD []).length < 4) (hout : output ≤ size)
    (hend : text = [] ∨ 2 ^ 31 ≤ i + 1) : outcome size i output c text =
      if 2 ^ 31 ≤ i + text.length then .error .overflow
      else if Ragged c text then .error invalidBase64
      else .ok [] := by
  have htake : text.take (2 ^ 31 - 1 - i) = [] := by
    rcases hend with rfl | hover
    · exact List.take_nil
    · rw [show 2 ^ 31 - 1 - i = 0 by omega, List.take_zero]
  unfold outcome
  rw [htake, show indexes [] = [] from rfl, List.append_nil, groups_short hc]
  dsimp only
  rw [if_neg (show ¬ size < output + ([] : List UInt8).length by rw [List.length_nil]; omega),
    if_neg Bool.false_ne_true]

/-- The loop in one formula, by induction on the text that is left -/
theorem decodeLoop_eq {c : Option (List ℤ)} (hc : (c.getD []).length < 4) (hi : i < 2 ^ 31)
    (hout : output ≤ size) : decodeLoop size i output c text = outcome size i output c text := by
  induction text generalizing i output c with
  | nil =>
    rw [outcome_end hc hout (Or.inl rfl), List.length_nil, if_neg (show ¬ 2 ^ 31 ≤ i + 0 by omega)]
    cases c with
    | none => rw [if_neg (by decide)]; rfl
    | some c =>
      rw [if_pos]
      · rfl
      · by_cases hnil : c = []
        · exact Or.inr (congrArg some hnil)
        · have hpos := List.length_pos_of_ne_nil hnil
          have hlt : c.length < 4 := hc
          refine Or.inl ?_
          show (c ++ []).length % 4 ≠ 0
          rw [List.append_nil]
          omega
  | cons x text ih =>
    rw [decodeLoop_cons]
    by_cases hover : 2 ^ 31 ≤ i + 1
    · rw [if_pos hover, outcome_end hc hout (Or.inr hover),
        if_pos (by rw [List.length_cons]; omega)]
    · rw [if_neg hover]
      by_cases hx : InTable x
      · rw [if_neg hx]
        split
        · rename_i c₀ c₁ c₂ c₃ hgroup
          rw [outcome_group hx (by omega) hout hgroup]
          cases decodeGroup c₀ c₁ c₂ c₃ with
          | none => rfl
          | some bytes =>
            dsimp only
            by_cases hfit : size < output + bytes.length
            · rw [if_pos hfit, if_pos hfit]
            · rw [if_neg hfit, if_neg hfit,
                ih (c := none) (by decide) (by omega) (by omega)]
        · rename_i hshort
          have hlt : (c.getD []).length < 3 := by
            by_contra hge
            obtain ⟨c₀, c₁, c₂, heq⟩ := List.length_eq_three.mp (show (c.getD []).length = 3 by omega)
            exact hshort c₀ c₁ c₂ (b64index x) (by rw [heq]; rfl)
          rw [outcome_fill hx (by omega), ih ?_ (by omega) hout]
          rw [Option.getD_some, List.length_append, List.length_singleton]
          omega
      · rw [if_pos (not_not.mp hx), ih (by exact hc) (by omega) hout,
          outcome_skip hc hx (by omega)]

/-- **`lb64decode`** in one formula -/
theorem lb64decode_eq (text : List UInt8) :
    lb64decode text = outcome (bufferSize (decodeSz text.length)) 0 0 none text :=
  decodeLoop_eq (by decide) (by decide) (Nat.zero_le _)

/-! ## Characters that are skipped -/

theorem decodeGroup_length {c₀ c₁ c₂ c₃ : ℤ} {bytes : List UInt8}
    (h : decodeGroup c₀ c₁ c₂ c₃ = some bytes) : bytes.length ≤ 3 := by
  unfold decodeGroup at h
  split at h
  · cases h
    exact le_refl 3
  · split_ifs at h
    cases h
    exact Nat.le_succ 2
  · split_ifs at h
    cases h
    exact Nat.le_add_left 1 2
  · cases h

/-- A group has no more than three bytes. -/
theorem length_groups (ks : List ℤ) : (groups ks).1.length ≤ 3 * (ks.length / 4) := by
  induction ks using groups.induct with
  | case1 c₀ c₁ c₂ c₃ ks hgroup =>
    rw [groups_none hgroup]
    exact Nat.zero_le _
  | case2 c₀ c₁ c₂ c₃ ks bytes hgroup ih =>
    have hlen := decodeGroup_length hgroup
    rw [groups_some hgroup]
    simp only [List.length_append, List.length_cons]
    omega
  | case3 ks hshort =>
    unfold groups
    split
    · exact absurd rfl (hshort _ _ _ _ _)
    · exact Nat.zero_le _

/-- What comes behind a malformed group is not looked at. -/
theorem groups_append {bytes : List UInt8} (h : groups ks = (bytes, true)) (ks' : List ℤ) :
    groups (ks ++ ks') = (bytes, true) := by
  induction ks using groups.induct generalizing bytes with
  | case1 c₀ c₁ c₂ c₃ ks hgroup =>
    rw [groups_none hgroup] at h
    rw [← h]
    exact groups_none hgroup
  | case2 c₀ c₁ c₂ c₃ ks bytes' hgroup ih =>
    rw [groups_some hgroup] at h
    obtain ⟨hbytes, hbad⟩ := Prod.mk.inj h
    have htail := ih (Prod.ext rfl hbad)
    show groups (c₀ :: c₁ :: c₂ :: c₃ :: (ks ++ ks')) = _
    rw [groups_some hgroup, htail, ← hbytes]
  | case3 ks hshort =>
    unfold groups at h
    split at h
    · exact absurd rfl (hshort _ _ _ _ _)
    · cases h

theorem indexes_filter (text : List UInt8) : indexes (text.filter InTable) = indexes text := by
  unfold indexes
  rw [List.filter_filter]
  simp only [Bool.and_self]

theorem length_indexes_le (text : List UInt8) : (indexes text).length ≤ text.length := by
  unfold indexes
  rw [List.length_map]
  exact List.length_filter_le _ _

/-- The buffer is large enough when its size is an `int`. -/
theorem length_groups_le {n : ℕ} (hn : n ≤ text.length) (hlt : text.length < 2 ^ 31) :
    (groups (indexes (text.take n))).1.length ≤ bufferSize (decodeSz text.length) := by
  have hgroups := length_groups (indexes (text.take n))
  have hindexes := length_indexes_le (text.take n)
  rw [List.length_take] at hindexes
  unfold bufferSize decodeSz
  rw [toInt_of_lt (by omega)]
  split_ifs <;> omega

/-- Behind the last character of the table there is another one. -/
def EndsForeign (text : List UInt8) : Prop := ∃ x ∈ text.getLast?, ¬ InTable x

/-- Some bytes in front, and then a malformed group: as much of the text as the `int` counts -/
def found (text : List UInt8) : List UInt8 × Bool := groups (indexes (text.take (2 ^ 31 - 1)))

theorem found_of_lt (hlt : text.length < 2 ^ 31) : found text = groups (indexes text) := by
  unfold found
  rw [List.take_of_length_le (by omega)]

/-- Without the foreign characters the malformed group comes no later. -/
theorem found_filter (h : (found text).2 = true) : found (text.filter InTable) = found text := by
  have hprefix : (text.take (2 ^ 31 - 1)).filter InTable <+:
      (text.filter InTable).take (2 ^ 31 - 1) := by
    refine List.prefix_take_iff.mpr ⟨(List.take_prefix _ _).filter _, ?_⟩
    exact (List.length_filter_le _ _).trans (List.length_take_le _ _)
  obtain ⟨more, hmore⟩ := hprefix
  have hindexes : indexes ((text.filter InTable).take (2 ^ 31 - 1)) =
      indexes (text.take (2 ^ 31 - 1)) ++ indexes more := by
    rw [← hmore, ← indexes_filter (text.take _)]
    unfold indexes
    rw [List.filter_append, List.map_append]
  unfold found at h ⊢
  rw [hindexes, groups_append (Prod.ext rfl h)]
  exact (Prod.ext rfl h.symm)

theorem ragged_none : Ragged none text ↔ (indexes text).length % 4 ≠ 0 ∨ EndsForeign text := by
  unfold Ragged EndsForeign
  rw [Option.getD_none, List.nil_append]
  refine or_congr Iff.rfl ?_
  cases text.getLast? with
  | none => simp
  | some x => simp

theorem not_endsForeign_filter : ¬ EndsForeign (text.filter InTable) := by
  rintro ⟨x, hx, hforeign⟩
  have hmem := List.mem_of_getLast? hx
  exact hforeign (by simpa using (List.mem_filter.mp hmem).2)

/-- **`lb64decode`** of a text that an `int` counts -/
theorem lb64decode_of_lt (hlt : text.length < 2 ^ 31) : lb64decode text =
    if (groups (indexes text)).2 then .error invalidBase64
    else if Ragged none text then .error invalidBase64
    else .ok (groups (indexes text)).1 := by
  have hfit := length_groups_le (le_refl text.length) hlt
  rw [List.take_length] at hfit
  rw [lb64decode_eq]
  unfold outcome
  rw [Option.getD_none, List.nil_append, List.take_of_length_le (by omega)]
  dsimp only
  rw [if_neg (show ¬ bufferSize _ < 0 + _ by omega)]
  by_cases hbad : (groups (indexes text)).2
  · rw [if_pos hbad, if_pos hbad]
  · rw [if_neg hbad, if_neg hbad, if_neg (by omega)]

/-- and of a longer one -/
theorem lb64decode_of_ge (hge : 2 ^ 31 ≤ text.length) : lb64decode text =
    if bufferSize (decodeSz text.length) < (found text).1.length then .error .write
    else if (found text).2 then .error invalidBase64
    else .error .overflow := by
  rw [lb64decode_eq]
  unfold outcome found
  rw [Option.getD_none, List.nil_append, Nat.sub_zero, Nat.zero_add]
  dsimp only
  rw [Nat.zero_add, if_pos hge]

/-- A value, or an error that is raised -/
def Answered (r : Except Halt (List UInt8)) : Prop :=
  (∃ v, r = .ok v) ∨ ∃ message, r = .error (.error message)

/-- The text gives the same result or error without its foreign characters. -/
def SkipsForeign (text : List UInt8) : Prop :=
  Answered (lb64decode text) ∧ lb64decode text = lb64decode (text.filter InTable)

/-- **Exactly when foreign characters do not matter**: an `int` counts the text, and it does not end
with one of them behind complete and well-formed groups; or a malformed group comes before the `int`
overflows, and there is room for the bytes in front of it. -/
theorem skipsForeign_iff (text : List UInt8) : SkipsForeign text ↔
    (text.length < 2 ^ 31 ∧ (¬ EndsForeign text ∨ (indexes text).length % 4 ≠ 0 ∨
      (groups (indexes text)).2 = true)) ∨
    (2 ^ 31 ≤ text.length ∧ (found text).2 = true ∧
      (found text).1.length ≤ bufferSize (decodeSz text.length) ∧
      (found text).1.length ≤ bufferSize (decodeSz (text.filter InTable).length)) := by
  have hle : (text.filter InTable).length ≤ text.length := List.length_filter_le _ _
  unfold SkipsForeign
  rcases Nat.lt_or_ge text.length (2 ^ 31) with hlt | hge
  · have hnot : ¬ 2 ^ 31 ≤ text.length := by omega
    rw [lb64decode_of_lt hlt, lb64decode_of_lt (hle.trans_lt hlt), indexes_filter]
    simp only [hlt, hnot, true_and, false_and, or_false, ragged_none, indexes_filter,
      not_endsForeign_filter]
    by_cases hbad : (groups (indexes text)).2
    · rw [if_pos hbad, if_pos hbad]
      exact iff_of_true ⟨Or.inr ⟨_, rfl⟩, rfl⟩ (Or.inr (Or.inr hbad))
    · rw [if_neg hbad, if_neg hbad]
      by_cases hlen : (indexes text).length % 4 ≠ 0
      · rw [if_pos (ragged_none.mpr (Or.inl hlen)), if_pos hlen]
        exact iff_of_true ⟨Or.inr ⟨_, rfl⟩, rfl⟩ (Or.inr (Or.inl hlen))
      · rw [if_neg hlen]
        by_cases hforeign : EndsForeign text
        · rw [if_pos (ragged_none.mpr (Or.inr hforeign))]
          refine iff_of_false ?_ ?_
          · rintro ⟨-, h⟩
            cases h
          · rintro (h | h | h)
            · exact h hforeign
            · exact hlen h
            · exact hbad h
        · rw [if_neg fun h => (ragged_none.mp h).elim hlen hforeign]
          exact iff_of_true ⟨Or.inl ⟨_, rfl⟩, rfl⟩ (Or.inl hforeign)
  · have hnot : ¬ text.length < 2 ^ 31 := by omega
    simp only [hge, hnot, true_and, false_and, false_or]
    rw [lb64decode_of_ge hge]
    by_cases hfit : bufferSize (decodeSz text.length) < (found text).1.length
    · rw [if_pos hfit]
      refine iff_of_false ?_ fun h => by omega
      rintro ⟨⟨v, h⟩ | ⟨message, h⟩, -⟩
      · cases h
      · cases h
    rw [if_neg hfit]
    by_cases hbad : (found text).2 = true
    swap
    · rw [if_neg hbad]
      refine iff_of_false ?_ fun h => hbad h.1
      rintro ⟨⟨v, h⟩ | ⟨message, h⟩, -⟩
      · cases h
      · cases h
    rw [if_pos hbad]
    have hfound := found_filter hbad
    rcases Nat.lt_or_ge (text.filter InTable).length (2 ^ 31) with hlt' | hge'
    · have hgroups := found_of_lt hlt'
      have hroom := length_groups_le (le_refl _) hlt'
      rw [List.take_length, ← hgroups, hfound] at hroom
      rw [lb64decode_of_lt hlt', ← hgroups, hfound, if_pos hbad]
      exact iff_of_true ⟨Or.inr ⟨_, rfl⟩, rfl⟩ ⟨hbad, by omega, hroom⟩
    · rw [lb64decode_of_ge hge', hfound]
      by_cases hfit' : bufferSize (decodeSz (text.filter InTable).length) < (found text).1.length
      · rw [if_pos hfit']
        refine iff_of_false ?_ fun h => by omega
        rintro ⟨-, h⟩
        cases h
      · rw [if_neg hfit', if_pos hbad]
        exact iff_of_true ⟨Or.inr ⟨_, rfl⟩, rfl⟩ ⟨hbad, by omega, by omega⟩

/-- A line feed behind "QQ==" -/
theorem foreign_last : lb64decode [81, 81, 61, 61, 10] = .error invalidBase64 ∧
    lb64decode ([81, 81, 61, 61, 10].filter InTable) = .ok [65] ∧
    ¬ SkipsForeign [81, 81, 61, 61, 10] := by
  have hbad : lb64decode [81, 81, 61, 61, 10] = .error invalidBase64 := by decide
  have hgood : lb64decode ([81, 81, 61, 61, 10].filter InTable) = .ok [65] := by decide
  refine ⟨hbad, hgood, ?_⟩
  rintro ⟨-, h⟩
  rw [hbad, hgood] at h
  cases h

end SkynetEureka.Crypt
