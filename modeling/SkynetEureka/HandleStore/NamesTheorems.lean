import SkynetEureka.HandleStore.Names

/-!
# Names are sorted and stand for the handles given to them

The array is the sorted list of the names that are in force. Searching, inserting and retiring are
read off that list, and a run keeps it in step with what the calls have done.
-/

namespace SkynetEureka.HandleStore

open Lib

variable {s s' : NameStorage} {name : List UInt8} {h handle k : ℕ} {fresh : ℕ → HandleName}

/-! ## The order -/

section Order

variable {x y : UInt8} {a b c : List UInt8}

theorem strcmp_lt (hxy : x < y) : strcmp (x :: a) (y :: b) = .lt := by
  unfold strcmp
  exact if_pos hxy

theorem strcmp_gt (hyx : y < x) : strcmp (x :: a) (y :: b) = .gt := by
  unfold strcmp
  rw [if_neg (UInt8.lt_asymm hyx), if_pos hyx]

theorem strcmp_same : strcmp (x :: a) (x :: b) = strcmp a b := by
  rw [strcmp, if_neg (UInt8.lt_irrefl x), if_neg (UInt8.lt_irrefl x)]

theorem byte_cases (x y : UInt8) : x < y ∨ x = y ∨ y < x := by
  by_cases heq : x = y
  · exact Or.inr (Or.inl heq)
  · rcases UInt8.lt_or_lt_of_ne heq with hlt | hgt
    · exact Or.inl hlt
    · exact Or.inr (Or.inr hgt)

theorem strcmp_self (a : List UInt8) : strcmp a a = .eq := by
  induction a with
  | nil => rfl
  | cons x a ih =>
    rw [strcmp_same]
    exact ih

theorem eq_of_strcmp (hab : strcmp a b = .eq) : a = b := by
  induction a generalizing b with
  | nil =>
    cases b with
    | nil => rfl
    | cons y b => cases hab
  | cons x a ih =>
    cases b with
    | nil => cases hab
    | cons y b =>
      rcases byte_cases x y with hlt | rfl | hgt
      · rw [strcmp_lt hlt] at hab
        cases hab
      · rw [strcmp_same] at hab
        rw [ih hab]
      · rw [strcmp_gt hgt] at hab
        cases hab

theorem strcmp_swap (a b : List UInt8) : (strcmp a b).swap = strcmp b a := by
  induction a generalizing b with
  | nil => cases b <;> rfl
  | cons x a ih =>
    cases b with
    | nil => rfl
    | cons y b =>
      rcases byte_cases x y with hlt | rfl | hgt
      · rw [strcmp_lt hlt, strcmp_gt hlt]
        rfl
      · rw [strcmp_same, strcmp_same, ih]
      · rw [strcmp_gt hgt, strcmp_lt hgt]
        rfl

theorem strcmp_trans (hab : strcmp a b = .lt) (hbc : strcmp b c = .lt) : strcmp a c = .lt := by
  induction a generalizing b c with
  | nil =>
    cases c with
    | nil => cases b <;> cases hbc
    | cons z c => rfl
  | cons x a ih =>
    cases b with
    | nil => cases hab
    | cons y b =>
      cases c with
      | nil => cases hbc
      | cons z c =>
        rcases byte_cases x y with hxy | rfl | hxy
        · rcases byte_cases y z with hyz | rfl | hyz
          · exact strcmp_lt (UInt8.lt_trans hxy hyz)
          · exact strcmp_lt hxy
          · rw [strcmp_gt hyz] at hbc
            cases hbc
        · rcases byte_cases x z with hxz | rfl | hxz
          · exact strcmp_lt hxz
          · rw [strcmp_same] at hab hbc ⊢
            exact ih hab hbc
          · rw [strcmp_gt hxz] at hbc
            cases hbc
        · rw [strcmp_gt hxy] at hab
          cases hab

end Order

/-! ## One call -/

/-- The names are strictly increasing. -/
def NameStorage.Sorted (s : NameStorage) : Prop :=
  s.list.Pairwise fun m n => strcmp m.name n.name = .lt

namespace NameStorage.Sorted

theorem ordered (hs : s.Sorted) (name : List UInt8) :
    Ordered (fun i => strcmp (s.name i).name name) s.nameCount := by
  intro i j hij hj
  have hlt := pairwise_front.mp hs i j hij hj
  dsimp only
  cases hi : strcmp (s.name i).name name with
  | lt => exact Or.inl rfl
  | eq =>
    right
    rw [← eq_of_strcmp hi, ← strcmp_swap, hlt]
    rfl
  | gt =>
    right
    have hname : strcmp name (s.name i).name = .lt := by
      rw [← strcmp_swap, hi]
      rfl
    rw [← strcmp_swap, strcmp_trans hname hlt]
    rfl

theorem splits (hs : s.Sorted) (name : List UInt8) :
    (s.search name).Splits (fun i => strcmp (s.name i).name name) s.nameCount := by
  unfold search
  apply bisect_splits (hs.ordered name)
  · omega
  · omega
  · omega
  · intro i hi
    omega
  · intro i hi hn
    omega

/-- A name that is found is in the array, with its handle. -/
theorem found (hs : s.Sorted) (hsearch : s.search name = .found k) :
    ⟨name, (s.name k).handle⟩ ∈ s.list := by
  have hsplits := hs.splits name
  rw [hsearch] at hsplits
  have hname : (s.name k).name = name := eq_of_strcmp hsplits.2
  apply mem_front.mpr
  refine ⟨k, hsplits.1, ?_⟩
  rw [← hname]

/-- A name that is not found is not in the array. -/
theorem absent (hs : s.Sorted) (hsearch : s.search name = .before k) : ⟨name, h⟩ ∉ s.list := by
  have hsplits := hs.splits name
  rw [hsearch] at hsplits
  obtain ⟨-, hlow, hhigh⟩ := hsplits
  intro hmem
  obtain ⟨i, hi, heq⟩ := mem_front.mp hmem
  have hcmp : strcmp (s.name i).name name = .eq := by
    rw [heq]
    exact strcmp_self name
  rcases Nat.lt_or_ge i k with hlt | hge
  · have hltk := hlow i hlt
    dsimp only at hltk
    rw [hcmp] at hltk
    cases hltk
  · have hgtk := hhigh i hge hi
    dsimp only at hgtk
    rw [hcmp] at hgtk
    cases hgtk

/-- One name has one handle. -/
theorem unique {h' : ℕ} (hs : s.Sorted) (hh : ⟨name, h⟩ ∈ s.list) (hh' : ⟨name, h'⟩ ∈ s.list) :
    h = h' := by
  obtain ⟨i, hi, hieq⟩ := mem_front.mp hh
  obtain ⟨j, hj, hjeq⟩ := mem_front.mp hh'
  have hname : (s.name i).name = (s.name j).name := by
    rw [hieq, hjeq]
  rcases Nat.lt_trichotomy i j with hlt | rfl | hgt
  · have hcmp := pairwise_front.mp hs i j hlt hj
    rw [hname, strcmp_self] at hcmp
    cases hcmp
  · rw [hieq] at hjeq
    exact congrArg HandleName.handle hjeq
  · have hcmp := pairwise_front.mp hs j i hgt hi
    rw [hname, strcmp_self] at hcmp
    cases hcmp

theorem findname_of_mem (hs : s.Sorted) (hmem : ⟨name, h⟩ ∈ s.list) :
    skynetHandleFindname s name = h := by
  unfold skynetHandleFindname
  cases hsearch : s.search name with
  | found mid => exact hs.unique (hs.found hsearch) hmem
  | before first => exact absurd hmem (hs.absent hsearch)

theorem findname_of_absent (hs : s.Sorted) (habsent : ∀ h, ⟨name, h⟩ ∉ s.list) :
    skynetHandleFindname s name = 0 := by
  unfold skynetHandleFindname
  cases hsearch : s.search name with
  | found mid => exact absurd (hs.found hsearch) (habsent _)
  | before first => rfl

end NameStorage.Sorted

/-- With or without a new array, the name is put in. -/
theorem insertNameBefore_list (hk : k ≤ s.nameCount)
    (h' : insertNameBefore fresh s name handle k = some s') :
    s'.nameCount = s.nameCount + 1 ∧
      s'.list = s.list.take k ++ ⟨name, handle⟩ :: s.list.drop k := by
  unfold insertNameBefore at h'
  obtain ⟨⟨cap, n⟩, hmoved, rfl⟩ := Option.map_eq_some_iff.mp h'
  refine ⟨rfl, ?_⟩
  have hcells : (∀ i < k, n i = s.name i) ∧
      ∀ i, k ≤ i → i < s.nameCount → n (i + 1) = s.name i := by
    dsimp only at hmoved
    split at hmoved
    · split at hmoved
      · cases hmoved
      · obtain ⟨-, rfl⟩ := Prod.mk.inj (Option.some.inj hmoved)
        constructor
        · intro i hi
          rw [copyCells_apply, if_neg, copyCells_apply,
            if_pos ⟨Nat.zero_le i, List.mem_range.mpr hi⟩, Nat.sub_zero]
          rintro ⟨hone, hmem⟩
          have := (List.mem_range'_1.mp hmem).1
          omega
        · intro i hi hn
          rw [copyCells_apply, if_pos, Nat.add_sub_cancel]
          refine ⟨by omega, ?_⟩
          rw [Nat.add_sub_cancel]
          exact List.mem_range'_1.mpr (by omega)
    · obtain ⟨-, rfl⟩ := Prod.mk.inj (Option.some.inj hmoved)
      constructor
      · intro i hi
        rw [shiftCells_apply, if_neg (by omega)]
      · intro i hi hn
        rw [shiftCells_apply, if_pos (by omega), Nat.add_sub_cancel]
  unfold NameStorage.list
  dsimp only
  apply front_insert hk
  · intro i hi
    rw [Function.update_of_ne (by omega)]
    exact hcells.1 i hi
  · rw [Function.update_self]
  · intro i hi hn
    rw [Function.update_of_ne (by omega)]
    exact hcells.2 i hi hn

theorem NameStorage.Sorted.insert (hs : s.Sorted) (hsearch : s.search name = .before k)
    (h' : insertNameBefore fresh s name handle k = some s') : s'.Sorted := by
  have hsplits := hs.splits name
  rw [hsearch] at hsplits
  obtain ⟨hk, hlow, hhigh⟩ := hsplits
  unfold Sorted at hs ⊢
  rw [(insertNameBefore_list hk h').2]
  rw [← List.take_append_drop k s.list, List.pairwise_append] at hs
  obtain ⟨htake, hdrop, hcross⟩ := hs
  obtain ⟨m, hm⟩ : ∃ m, s.nameCount = k + m := ⟨s.nameCount - k, by omega⟩
  have hlist : s.list = front k s.name ++ front m (fun i => s.name (k + i)) := by
    unfold list
    rw [hm, front_add]
  have hbelow : ∀ e ∈ s.list.take k, strcmp e.name name = .lt := by
    intro e he
    rw [hlist, List.take_left' length_front] at he
    obtain ⟨i, hi, rfl⟩ := mem_front.mp he
    exact hlow i hi
  have habove : ∀ e ∈ s.list.drop k, strcmp name e.name = .lt := by
    intro e he
    rw [hlist, List.drop_left' length_front] at he
    obtain ⟨i, hi, rfl⟩ := mem_front.mp he
    rw [← strcmp_swap, show strcmp (s.name (k + i)).name name = .gt from
      hhigh (k + i) (by omega) (by omega)]
    rfl
  rw [List.pairwise_append, List.pairwise_cons]
  refine ⟨htake, ⟨habove, hdrop⟩, ?_⟩
  intro e he e' he'
  rcases List.mem_cons.mp he' with rfl | he'
  · exact hbelow e he
  · exact hcross e he e' he'

theorem mem_insert {e : HandleName} (hk : k ≤ s.nameCount)
    (h' : insertNameBefore fresh s name handle k = some s') :
    e ∈ s'.list ↔ e = ⟨name, handle⟩ ∨ e ∈ s.list := by
  have hold : e ∈ s.list ↔ e ∈ s.list.take k ∨ e ∈ s.list.drop k := by
    rw [← List.mem_append, List.take_append_drop]
  rw [(insertNameBefore_list hk h').2, List.mem_append, List.mem_cons, hold]
  tauto

theorem retireNames_list : (retireNames s h).list = s.list.filter fun n => n.handle ≠ h :=
  compactCells_spec.2.2

/-! ## The capacity -/

/-- The capacity is a power of two within the limit, and the names fit. -/
structure NameStorage.Fits (s : NameStorage) : Prop where
  cap : ∃ k ≤ 30, s.nameCap = 2 ^ k
  count : s.nameCount ≤ s.nameCap

theorem maxSlotSize_eq : maxSlotSize = 2 ^ 30 := rfl

/-- Only the last doubling is refused. -/
theorem NameStorage.Fits.double_le (hs : s.Fits) :
    s.nameCap * 2 ≤ maxSlotSize ↔ s.nameCap ≠ maxSlotSize := by
  obtain ⟨k, hk, hcap⟩ := hs.cap
  rw [hcap, maxSlotSize_eq, ← Nat.pow_succ, Nat.pow_le_pow_iff_right (by decide), ne_eq,
    Nat.pow_right_inj (by decide)]
  omega

theorem NameStorage.Fits.insert_eq_none (hs : s.Fits) :
    insertNameBefore fresh s name handle k = none ↔ s.nameCount = maxSlotSize := by
  have hcap : s.nameCap ≤ maxSlotSize := by
    obtain ⟨j, hj, hcap⟩ := hs.cap
    rw [hcap, maxSlotSize_eq]
    exact Nat.pow_le_pow_right (by decide) hj
  have hcount := hs.count
  have hdouble := hs.double_le
  unfold insertNameBefore
  rw [Option.map_eq_none_iff]
  dsimp only
  constructor
  · intro hnone
    split at hnone
    · split at hnone
      · rename_i hfull hover
        by_contra hne
        have := hdouble.mpr (by omega)
        omega
      · cases hnone
    · cases hnone
  · intro hmax
    have : ¬ s.nameCap * 2 ≤ maxSlotSize := fun hle => hdouble.mp hle (by omega)
    rw [if_pos (by omega), if_pos (by omega)]

theorem NameStorage.Fits.insert (hs : s.Fits) (hk : k ≤ s.nameCount)
    (h' : insertNameBefore fresh s name handle k = some s') : s'.Fits := by
  have hcount' := (insertNameBefore_list hk h').1
  have hcount := hs.count
  obtain ⟨j, hj, hcap⟩ := hs.cap
  unfold insertNameBefore at h'
  obtain ⟨⟨cap, n⟩, hmoved, rfl⟩ := Option.map_eq_some_iff.mp h'
  dsimp only at hmoved hcount' ⊢
  split at hmoved
  · split at hmoved
    · cases hmoved
    · rename_i hfull hover
      obtain ⟨rfl, -⟩ := Prod.mk.inj (Option.some.inj hmoved)
      constructor
      · refine ⟨j + 1, ?_, by rw [hcap, Nat.pow_succ]⟩
        rw [hcap, maxSlotSize_eq, ← Nat.pow_succ, Nat.not_lt,
          Nat.pow_le_pow_iff_right (by decide)] at hover
        exact hover
      · have hpos : 0 < 2 ^ j := Nat.two_pow_pos j
        show s.nameCount + 1 ≤ s.nameCap * 2
        omega
  · obtain ⟨rfl, -⟩ := Prod.mk.inj (Option.some.inj hmoved)
    exact ⟨⟨j, hj, hcap⟩, by show s.nameCount + 1 ≤ s.nameCap; omega⟩

theorem NameStorage.Fits.retire (hs : s.Fits) : (retireNames s h).Fits := by
  have hle : (retireNames s h).nameCount ≤ s.nameCount := compactCells_spec.1
  exact ⟨hs.cap, Nat.le_trans hle hs.count⟩

/-! ## Runs -/

variable {n n' : NamedNode} {harbor : ℤ}

/-- The array is what the calls have left. -/
structure NamedNode.Tracks (n : NamedNode) : Prop where
  sorted : n.names.Sorted
  fits : n.names.Fits
  given_iff : ∀ name h, given n.log name = some h ↔ ⟨name, h⟩ ∈ n.names.list

theorem NamedNode.tracks_init : (NamedNode.init harbor fresh).Tracks where
  sorted := List.Pairwise.nil
  fits := ⟨⟨1, by decide, rfl⟩, Nat.zero_le _⟩
  given_iff := by
    intro name h
    constructor
    · intro hgiven
      cases hgiven
    · intro hmem
      cases hmem

namespace NamedNode.Tracks

theorem given_eq_none (hn : n.Tracks) {first : ℕ} (hsearch : n.names.search name = .before first) :
    given n.log name = none := by
  cases hgiven : given n.log name with
  | none => rfl
  | some h => exact absurd ((hn.given_iff name h).mp hgiven) (hn.sorted.absent hsearch)

theorem given_eq_some (hn : n.Tracks) {mid : ℕ} (hsearch : n.names.search name = .found mid) :
    given n.log name = some (n.names.name mid).handle :=
  (hn.given_iff name _).mpr (hn.sorted.found hsearch)

theorem findname (hn : n.Tracks) (name : List UInt8) :
    skynetHandleFindname n.names name = (given n.log name).getD 0 := by
  cases hgiven : given n.log name with
  | none =>
    apply hn.sorted.findname_of_absent
    intro h hmem
    rw [(hn.given_iff name h).mpr hmem] at hgiven
    cases hgiven
  | some h => exact hn.sorted.findname_of_mem ((hn.given_iff name h).mp hgiven)

/-- A new name -/
theorem named (hn : n.Tracks) {names : NameStorage} {first : ℕ}
    (hsearch : n.names.search name = .before first)
    (hinsert : insertNameBefore fresh n.names name h first = some names) :
    ({ n with names, log := .named h name :: n.log } : NamedNode).Tracks := by
  have hsplits := hn.sorted.splits name
  rw [hsearch] at hsplits
  refine ⟨hn.sorted.insert hsearch hinsert, hn.fits.insert hsplits.1 hinsert, ?_⟩
  intro name' h'
  show (if name = name' then some h else given n.log name') = some h' ↔ _
  rw [mem_insert hsplits.1 hinsert, HandleName.mk.injEq]
  by_cases heq : name = name'
  · subst heq
    rw [if_pos rfl, Option.some.injEq]
    constructor
    · rintro rfl
      exact Or.inl ⟨rfl, rfl⟩
    · rintro (⟨-, rfl⟩ | hmem)
      · rfl
      · exact absurd hmem (hn.sorted.absent hsearch)
  · rw [if_neg heq, hn.given_iff]
    constructor
    · exact Or.inr
    · rintro (⟨rfl, -⟩ | hmem)
      · exact absurd rfl heq
      · exact hmem

/-- A handle that is retired takes its names along. -/
theorem retired (hn : n.Tracks) {node : Node} :
    (⟨node, retireNames n.names h, .retire h true :: n.log⟩ : NamedNode).Tracks := by
  refine ⟨?_, hn.fits.retire, ?_⟩
  · show (retireNames n.names h).list.Pairwise _
    rw [retireNames_list]
    exact hn.sorted.filter _
  · intro name' h'
    show (given n.log name').filter (· ≠ h) = some h' ↔ _ ∈ (retireNames n.names h).list
    rw [retireNames_list, List.mem_filter, Option.filter_eq_some_iff, hn.given_iff]

theorem step (hn : n.Tracks) {op : NameOp} (h' : n.step op = some n') : n'.Tracks := by
  cases op with
  | register c =>
    obtain ⟨node, -, rfl⟩ := Option.map_eq_some_iff.mp h'
    exact ⟨hn.sorted, hn.fits, hn.given_iff⟩
  | retire h =>
    unfold NamedNode.step at h'
    obtain ⟨node, -, rfl⟩ := Option.map_eq_some_iff.mp h'
    split
    · exact hn.retired
    · exact ⟨hn.sorted, hn.fits, hn.given_iff⟩
  | namehandle fresh h name =>
    obtain ⟨⟨names, ret⟩, hcall, rfl⟩ := Option.map_eq_some_iff.mp h'
    unfold skynetHandleNamehandle at hcall
    cases hsearch : n.names.search name with
    | found mid =>
      rw [hsearch] at hcall
      obtain ⟨rfl, rfl⟩ := Prod.mk.inj (Option.some.inj hcall)
      exact hn
    | before first =>
      rw [hsearch] at hcall
      obtain ⟨names', hinsert, hret⟩ := Option.map_eq_some_iff.mp hcall
      obtain ⟨rfl, rfl⟩ := Prod.mk.inj hret
      exact hn.named hsearch hinsert
  | findname name =>
    cases h'
    exact hn

theorem run {ops : List NameOp} (h : run NamedNode.step (.init harbor fresh) ops = some n) :
    n.Tracks :=
  run_invariant_of_step (fun _ _ _ hn hstep => hn.step hstep) tracks_init h

end NamedNode.Tracks

/-- What the calls do at this point of a run -/
structure NamedNode.Faithful (n : NamedNode) : Prop where
  /-- The names are strictly increasing. -/
  sorted : ∀ i j, i < j → j < n.names.nameCount →
    strcmp (n.names.name i).name (n.names.name j).name = .lt
  /-- `skynet_handle_findname` returns the handle given to the name. -/
  findname : ∀ name, skynetHandleFindname n.names name = (given n.log name).getD 0
  /-- `skynet_handle_namehandle` fails just if the name is there, and changes nothing then. -/
  fails : ∀ fresh h name names, skynetHandleNamehandle fresh n.names h name = some (names, none) ↔
    (given n.log name).isSome ∧ names = n.names
  /-- It ends the process just if the name is new and the array is as large as it may be. -/
  ends : ∀ fresh h name, skynetHandleNamehandle fresh n.names h name = none ↔
    given n.log name = none ∧ n.names.nameCount = maxSlotSize
  /-- No name stands for a handle that was retired. -/
  gone : ∀ h n', n.Live h → n.step (.retire h) = some n' →
    ∀ name, skynetHandleFindname n'.names name = h → h = 0

theorem NamedNode.Tracks.fails (hn : n.Tracks) {names : NameStorage} :
    skynetHandleNamehandle fresh n.names h name = some (names, none) ↔
      (given n.log name).isSome ∧ names = n.names := by
  unfold skynetHandleNamehandle
  cases hsearch : n.names.search name with
  | found mid =>
    rw [hn.given_eq_some hsearch]
    constructor
    · intro hcall
      exact ⟨rfl, (Prod.mk.inj (Option.some.inj hcall)).1.symm⟩
    · rintro ⟨-, rfl⟩
      rfl
  | before first =>
    rw [hn.given_eq_none hsearch]
    constructor
    · intro hcall
      obtain ⟨names', -, hret⟩ := Option.map_eq_some_iff.mp hcall
      cases hret
    · rintro ⟨hsome, -⟩
      cases hsome

theorem NamedNode.Tracks.ends (hn : n.Tracks) :
    skynetHandleNamehandle fresh n.names h name = none ↔
      given n.log name = none ∧ n.names.nameCount = maxSlotSize := by
  unfold skynetHandleNamehandle
  cases hsearch : n.names.search name with
  | found mid =>
    rw [hn.given_eq_some hsearch]
    constructor
    · intro hcall
      cases hcall
    · rintro ⟨hnone, -⟩
      cases hnone
  | before first =>
    dsimp only
    rw [Option.map_eq_none_iff, hn.fits.insert_eq_none, hn.given_eq_none hsearch]
    exact (and_iff_right rfl).symm

theorem NamedNode.Tracks.gone (hn : n.Tracks) (hlive : n.Live h)
    (h' : n.step (.retire h) = some n') (hname : skynetHandleFindname n'.names name = h) :
    h = 0 := by
  have hn' := hn.step h'
  unfold NamedNode.step at h'
  obtain ⟨node, -, rfl⟩ := Option.map_eq_some_iff.mp h'
  rw [hn'.findname name, if_pos hlive] at hname
  cases hgiven : given (.retire h true :: n.log) name with
  | none =>
    rw [hgiven] at hname
    exact hname.symm
  | some h₀ =>
    rw [hgiven] at hname
    have hne := (Option.filter_eq_some_iff.mp hgiven).2
    rw [show h₀ = h from hname] at hne
    exact absurd rfl (of_decide_eq_true hne)

theorem NamedNode.Tracks.faithful (hn : n.Tracks) : n.Faithful where
  sorted := pairwise_front.mp hn.sorted
  findname := hn.findname
  fails _ _ _ _ := hn.fails
  ends _ _ _ := hn.ends
  gone _ _ hlive h' _ hname := hn.gone hlive h' hname

/-- In every run, the names are sorted and stand for the handles given to them. -/
theorem names_faithful (harbor : ℤ) (fresh : ℕ → HandleName) (ops : List NameOp) (n : NamedNode)
    (h : run NamedNode.step (.init harbor fresh) ops = some n) : n.Faithful :=
  (NamedNode.Tracks.run h).faithful

theorem search_init : (NameStorage.init fresh).search name = .before 0 := by
  unfold NameStorage.search
  rw [bisect, if_neg]
  · rfl
  · show ¬ (0 : ℤ) ≤ ((0 : ℕ) : ℤ) - 1
    decide

/-- Memory that is all zero -/
def zeroed : ℕ → HandleName := fun _ => ⟨[], 0⟩

/-- A handle that no context has is named and retired. -/
def strayOps : List NameOp := [.namehandle zeroed 5 [97], .retire 5]

theorem run_strayOps : ∃ n, run NamedNode.step (.init 1 zeroed) strayOps = some n ∧
    n.log = [.retire 5 false, .named 5 [97]] := by
  have hname : (NamedNode.init 1 zeroed).step (.namehandle zeroed 5 [97]) =
      some { NamedNode.init 1 zeroed with
        names := ⟨2, 1, Function.update zeroed 0 ⟨[97], 5⟩⟩
        log := [.named 5 [97]] } := by
    unfold NamedNode.step skynetHandleNamehandle
    dsimp only
    rw [show (NamedNode.init 1 zeroed).names.search [97] = .before 0 from search_init]
    rfl
  exact ⟨_, run_cons_eq_some.mpr ⟨_, hname, rfl⟩, rfl⟩

theorem names_faithful_stray :
    ∃ n, run NamedNode.step (.init 1 zeroed) strayOps = some n ∧ n.Faithful := by
  obtain ⟨n, hrun, -⟩ := run_strayOps
  exact ⟨n, hrun, names_faithful 1 zeroed strayOps n hrun⟩

/-! ## As many names as there may be -/

/-- The name of round `k` -/
def nthName (k : ℕ) : List UInt8 := List.replicate (k + 1) 97

def fillOps (k : ℕ) : List NameOp := (List.range k).map fun i => .namehandle zeroed 1 (nthName i)

/-- Every round adds its name as long as there is room. -/
theorem run_fillOps (hk : k ≤ maxSlotSize) :
    ∃ n, run NamedNode.step (.init 1 zeroed) (fillOps k) = some n ∧ n.names.nameCount = k ∧
      ∀ i, k ≤ i → given n.log (nthName i) = none := by
  induction k with
  | zero => exact ⟨_, rfl, rfl, fun _ _ => rfl⟩
  | succ k ih =>
    obtain ⟨n, hrun, hcount, hnew⟩ := ih (by omega)
    have hn := NamedNode.Tracks.run hrun
    have hops : fillOps (k + 1) = fillOps k ++ [.namehandle zeroed 1 (nthName k)] := by
      unfold fillOps
      rw [List.range_succ, List.map_append]
      rfl
    rw [hops, run_append_of_eq_some hrun, run_cons]
    cases hsearch : n.names.search (nthName k) with
    | found mid =>
      have hgiven := hn.given_eq_some hsearch
      rw [hnew k (Nat.le_refl k)] at hgiven
      cases hgiven
    | before first =>
      have hsplits := hn.sorted.splits (nthName k)
      rw [hsearch] at hsplits
      cases hinsert : insertNameBefore zeroed n.names (nthName k) 1 first with
      | none =>
        have hmax := hn.fits.insert_eq_none.mp hinsert
        omega
      | some names =>
        have hstep : n.step (.namehandle zeroed 1 (nthName k)) =
            some { n with names, log := .named 1 (nthName k) :: n.log } := by
          unfold NamedNode.step skynetHandleNamehandle
          dsimp only
          rw [hsearch]
          dsimp only
          rw [hinsert]
          rfl
        refine ⟨{ n with names, log := .named 1 (nthName k) :: n.log }, ?_, ?_, ?_⟩
        · rw [hstep]
          rfl
        · rw [← hcount]
          exact (insertNameBefore_list hsplits.1 hinsert).1
        · intro i hi
          show (if nthName k = nthName i then some 1 else given n.log (nthName i)) = none
          rw [if_neg, hnew i (by omega)]
          intro heq
          have hlen := congrArg List.length heq
          unfold nthName at hlen
          rw [List.length_replicate, List.length_replicate] at hlen
          omega

/-- A call of `skynet_handle_retire` that does not find the handle leaves its names in force, and a
new name is not taken when there are 2^30. -/
theorem stray_name_stays_and_array_fills :
    (¬ ∀ n, run NamedNode.step (.init 1 zeroed) strayOps = some n →
      skynetHandleFindname n.names [97] = (givenSinceCall n.log [97]).getD 0) ∧
    ¬ ∀ n, run NamedNode.step (.init 1 zeroed) (fillOps maxSlotSize) = some n →
      (skynetHandleNamehandle zeroed n.names 1 (nthName maxSlotSize)).isSome := by
  constructor
  · intro hclaim
    obtain ⟨n, hrun, hlog⟩ := run_strayOps
    have hfind := (NamedNode.Tracks.run hrun).findname [97]
    rw [hclaim n hrun, hlog] at hfind
    exact absurd hfind (by decide)
  · intro hclaim
    obtain ⟨n, hrun, hcount, hnew⟩ := run_fillOps (Nat.le_refl maxSlotSize)
    have hends : skynetHandleNamehandle zeroed n.names 1 (nthName maxSlotSize) = none :=
      (NamedNode.Tracks.run hrun).ends.mpr ⟨hnew _ (Nat.le_refl _), hcount⟩
    have hsome := hclaim n hrun
    rw [hends] at hsome
    cases hsome

end SkynetEureka.HandleStore
