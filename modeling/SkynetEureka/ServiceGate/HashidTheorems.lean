import SkynetEureka.Lib.Linked
import SkynetEureka.ServiceGate.Hashid

/-!
# The table of ids is a finite map

`Hashid.Inv` connects the table to a map from ids to slots: each chain is the list of the slots of
its ids, and a slot of no id is as it was at first.
-/

namespace SkynetEureka.ServiceGate

open Lib Function

namespace Hashid

variable {t t' : Hashid} {chains : ℕ → List ℕ} {slot : ℕ → Option ℕ} {id c h rounds i : ℕ}
  {l m : List ℕ} {p : Option ℕ}

/-- The pointers -/
def next (t : Hashid) (c : ℕ) : Option ℕ := (t.id c).next

/-- The table holds the map. -/
structure Inv (t : Hashid) (chains : ℕ → List ℕ) (slot : ℕ → Option ℕ) : Prop where
  linked : ∀ h, Linked t.next (t.hash h) (chains h)
  nodup : ∀ h, (chains h).Nodup
  mem_iff : ∀ h c, c ∈ chains h ↔ ∃ id, slot id = some c ∧ id &&& t.hashmod = h
  node : ∀ id c, slot id = some c → (t.id c).id = id ∧ c < t.cap
  free : ∀ c, (∀ id, slot id ≠ some c) → t.id c = ⟨-1, none⟩
  count : ∃ present : Finset ℕ, (∀ id, id ∈ present ↔ (slot id).isSome) ∧
    t.count = present.card

/-! ## Looking up -/

theorem lookupLoop_absent (hl : Linked t.next p l) (hid : ∀ a ∈ l, (t.id a).id ≠ id)
    (hrounds : l.length < rounds) : t.lookupLoop id rounds p = some (-1) := by
  induction l generalizing p rounds with
  | nil =>
    cases hl
    cases rounds with
    | zero => omega
    | succ rounds => rfl
  | cons a l ih =>
    obtain ⟨rfl, htail⟩ := hl
    cases rounds with
    | zero => omega
    | succ rounds =>
      show (if (t.id a).id = id then _ else _) = _
      rw [if_neg (hid a List.mem_cons_self)]
      exact ih htail (fun b hb => hid b (List.mem_cons_of_mem a hb))
        (Nat.lt_of_succ_lt_succ hrounds)

theorem lookupLoop_present (hl : Linked t.next p (l ++ c :: m)) (hid : ∀ a ∈ l, (t.id a).id ≠ id)
    (hc : (t.id c).id = id) (hrounds : l.length < rounds) :
    t.lookupLoop id rounds p = some (c : ℤ) := by
  induction l generalizing p rounds with
  | nil =>
    obtain ⟨rfl, -⟩ := hl
    cases rounds with
    | zero => omega
    | succ rounds => exact if_pos hc
  | cons a l ih =>
    obtain ⟨rfl, htail⟩ := hl
    cases rounds with
    | zero => omega
    | succ rounds =>
      show (if (t.id a).id = id then _ else _) = _
      rw [if_neg (hid a List.mem_cons_self)]
      exact ih htail (fun b hb => hid b (List.mem_cons_of_mem a hb))
        (Nat.lt_of_succ_lt_succ hrounds)

namespace Inv

/-- One slot has one id. -/
theorem injective {id' : ℕ} (ht : t.Inv chains slot) (hid : slot id = some c)
    (hid' : slot id' = some c) : id = id' := by
  have heq := (ht.node id c hid).1
  rw [(ht.node id' c hid').1] at heq
  exact (Int.ofNat_inj.mp heq).symm

/-- A chain is no longer than the array. -/
theorem length_le (ht : t.Inv chains slot) (h : ℕ) : (chains h).length ≤ t.cap := by
  have hsub : (chains h).toFinset ⊆ Finset.range t.cap := by
    intro c hc
    obtain ⟨id, hid, -⟩ := (ht.mem_iff h c).mp (List.mem_toFinset.mp hc)
    exact Finset.mem_range.mpr (ht.node id c hid).2
  have hcard := Finset.card_le_card hsub
  rw [List.toFinset_card_of_nodup (ht.nodup h), Finset.card_range] at hcard
  exact hcard

/-- The chain around the slot of an id -/
theorem split (ht : t.Inv chains slot) (hid : slot id = some c) :
    ∃ l m, chains (id &&& t.hashmod) = l ++ c :: m ∧ (∀ a ∈ l, (t.id a).id ≠ id) := by
  have hmem : c ∈ chains (id &&& t.hashmod) := (ht.mem_iff _ c).mpr ⟨id, hid, rfl⟩
  obtain ⟨l, m, hsplit⟩ := List.append_of_mem hmem
  refine ⟨l, m, hsplit, ?_⟩
  intro a ha heq
  have hamem : a ∈ chains (id &&& t.hashmod) := by
    rw [hsplit]
    exact List.mem_append_left _ ha
  obtain ⟨id', hid', -⟩ := (ht.mem_iff _ a).mp hamem
  have hsame : id' = id := Int.ofNat_inj.mp ((ht.node id' a hid').1.symm.trans heq)
  rw [hsame, hid] at hid'
  cases hid'
  have hnodup := ht.nodup (id &&& t.hashmod)
  rw [hsplit, List.nodup_append] at hnodup
  exact hnodup.2.2 c ha c List.mem_cons_self rfl

/-- The chain of an absent id has other ids. -/
theorem others (ht : t.Inv chains slot) (hid : slot id = none) :
    ∀ a ∈ chains h, (t.id a).id ≠ id := by
  intro a ha heq
  obtain ⟨id', hid', -⟩ := (ht.mem_iff _ a).mp ha
  have hsame : id' = id := Int.ofNat_inj.mp ((ht.node id' a hid').1.symm.trans heq)
  rw [hsame, hid] at hid'
  cases hid'

/-- What a call returns for an id -/
def answer (slot : ℕ → Option ℕ) (id : ℕ) : ℤ :=
  match slot id with
  | some c => c
  | none => -1

theorem lookup (ht : t.Inv chains slot) (id : ℕ) : t.lookup id = some (answer slot id) := by
  have hlen := ht.length_le (id &&& t.hashmod)
  unfold Hashid.lookup answer
  cases hid : slot id with
  | none =>
    exact lookupLoop_absent (ht.linked _) (ht.others hid) (by omega)
  | some c =>
    obtain ⟨l, m, hsplit, hl⟩ := ht.split hid
    have hlinked := ht.linked (id &&& t.hashmod)
    rw [hsplit] at hlinked hlen
    rw [List.length_append] at hlen
    exact lookupLoop_present hlinked hl (ht.node id c hid).1 (by omega)

end Inv

/-! ## Removing -/

theorem removeLoop_absent (hl : Linked t.next (t.next c) l) (hid : ∀ a ∈ l, (t.id a).id ≠ id)
    (hrounds : l.length < rounds) : t.removeLoop id rounds c = some (t, none) := by
  induction l generalizing c rounds with
  | nil =>
    cases rounds with
    | zero => omega
    | succ rounds =>
      have hnext : (t.id c).next = none := hl
      unfold removeLoop
      rw [hnext]
  | cons a l ih =>
    obtain ⟨hnext, htail⟩ := hl
    cases rounds with
    | zero => omega
    | succ rounds =>
      unfold removeLoop
      rw [show (t.id c).next = some a from hnext]
      dsimp only
      rw [if_neg (hid a List.mem_cons_self)]
      exact ih htail (fun b hb => hid b (List.mem_cons_of_mem a hb))
        (Nat.lt_of_succ_lt_succ hrounds)

theorem removeLoop_present {b : ℕ} (hl : Linked t.next (t.next c) (l ++ b :: m))
    (hid : ∀ a ∈ l, (t.id a).id ≠ id) (hb : (t.id b).id = id) (hrounds : l.length < rounds) :
    ∃ l' last, c :: l = l' ++ [last] ∧ t.removeLoop id rounds c =
      some ({ t with id := update t.id last { t.id last with next := t.next b } }, some b) := by
  induction l generalizing c rounds with
  | nil =>
    obtain ⟨hnext, -⟩ := hl
    cases rounds with
    | zero => omega
    | succ rounds =>
      refine ⟨[], c, rfl, ?_⟩
      unfold removeLoop
      rw [show (t.id c).next = some b from hnext]
      exact if_pos hb
  | cons a l ih =>
    obtain ⟨hnext, htail⟩ := hl
    cases rounds with
    | zero => omega
    | succ rounds =>
      obtain ⟨l', last, hlast, hloop⟩ := ih htail (fun b hb => hid b (List.mem_cons_of_mem a hb))
        (Nat.lt_of_succ_lt_succ hrounds)
      refine ⟨c :: l', last, by rw [hlast, List.cons_append], ?_⟩
      unfold removeLoop
      rw [show (t.id c).next = some a from hnext]
      dsimp only
      rw [if_neg (hid a List.mem_cons_self)]
      exact hloop

/-- The slot is out of its chain, and nothing else is changed. -/
structure Unlinked (t t₁ : Hashid) (h : ℕ) (l m : List ℕ) : Prop where
  hashmod : t₁.hashmod = t.hashmod
  cap : t₁.cap = t.cap
  count : t₁.count = t.count
  node : ∀ a, (t₁.id a).id = (t.id a).id
  same : ∀ a ∉ l, t₁.id a = t.id a
  linked : Linked t₁.next (t₁.hash h) (l ++ m)
  hash : ∀ h' ≠ h, t₁.hash h' = t.hash h'

/-- The slot of a present id is unlinked, at the head of its chain or behind another one. -/
theorem Inv.unlinked (ht : t.Inv chains slot) (hid : slot id = some c)
    (hsplit : chains (id &&& t.hashmod) = l ++ c :: m) (hl : ∀ a ∈ l, (t.id a).id ≠ id) :
    ∃ t₁, Unlinked t t₁ (id &&& t.hashmod) l m ∧
      t.remove id = some (t₁.clearNode c, (c : ℤ)) := by
  have hlinked := ht.linked (id &&& t.hashmod)
  have hlen := ht.length_le (id &&& t.hashmod)
  have hnodup := ht.nodup (id &&& t.hashmod)
  have hc := (ht.node id c hid).1
  rw [hsplit] at hlinked hlen hnodup
  rw [List.length_append] at hlen
  unfold Hashid.remove
  cases l with
  | nil =>
    obtain ⟨hhead, htail⟩ := hlinked
    refine ⟨{ t with hash := update t.hash (id &&& t.hashmod) (t.id c).next },
      ⟨rfl, rfl, rfl, fun _ => rfl, fun _ _ => rfl, ?_, ?_⟩, ?_⟩
    · show Linked t.next (update t.hash (id &&& t.hashmod) (t.id c).next (id &&& t.hashmod)) m
      rw [update_self]
      exact htail
    · intro h' hne
      exact update_of_ne hne _ _
    · dsimp only
      rw [hhead]
      dsimp only
      rw [if_pos hc]
      rfl
  | cons a l =>
    obtain ⟨hhead, htail⟩ := hlinked
    have hrounds : l.length < t.cap + 1 := by
      rw [List.length_cons] at hlen
      omega
    obtain ⟨l', last, hlast, hloop⟩ := removeLoop_present htail
      (fun b hb => hl b (List.mem_cons_of_mem a hb)) hc hrounds
    refine ⟨{ t with id := update t.id last { t.id last with next := t.next c } },
      ⟨rfl, rfl, rfl, ?_, ?_, ?_, fun _ _ => rfl⟩, ?_⟩
    · intro b
      dsimp only
      by_cases hb : b = last
      · rw [hb, update_self]
      · rw [update_of_ne hb]
    · intro b hb
      apply update_of_ne
      rintro rfl
      apply hb
      rw [hlast]
      simp
    · show Linked _ (t.hash (id &&& t.hashmod)) (a :: l ++ m)
      have hwhole : Linked t.next (t.hash (id &&& t.hashmod)) (l' ++ last :: c :: m) := by
        rw [show l' ++ last :: c :: m = a :: l ++ c :: m by rw [hlast, List.append_assoc]; rfl]
        exact ⟨hhead, htail⟩
      have hwhole' : (l' ++ last :: c :: m).Nodup := by
        rw [show l' ++ last :: c :: m = a :: l ++ c :: m by rw [hlast, List.append_assoc]; rfl]
        exact hnodup
      rw [hlast, List.append_assoc]
      apply hwhole.unlink hwhole'
      · unfold Hashid.next
        dsimp only
        rw [update_self]
      · intro b hb
        unfold Hashid.next
        dsimp only
        rw [update_of_ne hb]
    · dsimp only
      rw [hhead]
      dsimp only
      rw [if_neg (hl a List.mem_cons_self), hloop]
      rfl

/-- An absent id is not found. -/
theorem Inv.remove_absent (ht : t.Inv chains slot) (hid : slot id = none) :
    t.remove id = some (t, -1) := by
  have hlinked := ht.linked (id &&& t.hashmod)
  have hlen := ht.length_le (id &&& t.hashmod)
  have hothers := ht.others (h := id &&& t.hashmod) hid
  unfold Hashid.remove
  dsimp only
  cases hchain : chains (id &&& t.hashmod) with
  | nil =>
    rw [hchain] at hlinked
    rw [show t.hash (id &&& t.hashmod) = none from hlinked]
    rfl
  | cons a l =>
    rw [hchain] at hlinked hlen hothers
    obtain ⟨hhead, htail⟩ := hlinked
    rw [hhead]
    dsimp only
    rw [if_neg (hothers a List.mem_cons_self), removeLoop_absent htail
      (fun b hb => hothers b (List.mem_cons_of_mem a hb))
      (by rw [List.length_cons] at hlen; omega)]
    rfl

theorem Inv.clear {t₁ : Hashid} (ht : t.Inv chains slot) (hid : slot id = some c)
    (hsplit : chains (id &&& t.hashmod) = l ++ c :: m)
    (h₁ : Unlinked t t₁ (id &&& t.hashmod) l m) :
    (t₁.clearNode c).Inv (update chains (id &&& t.hashmod) (l ++ m)) (update slot id none) := by
  have hnodup := ht.nodup (id &&& t.hashmod)
  rw [hsplit] at hnodup
  have hclm : c ∉ l ++ m := by
    intro hmem
    have := (List.perm_middle.nodup_iff.mp hnodup)
    exact (List.nodup_cons.mp this).1 hmem
  have hmem_l : ∀ a ∈ l, a ∈ chains (id &&& t.hashmod) := by
    intro a ha
    rw [hsplit]
    exact List.mem_append_left _ ha
  have hnext : ∀ a ∈ l ++ m, (t₁.clearNode c).next a = t₁.next a := by
    intro a ha
    have hac : a ≠ c := by
      rintro rfl
      exact hclm ha
    unfold Hashid.next clearNode
    dsimp only
    rw [update_of_ne hac]
  have hslot : ∀ id' c', update slot id none id' = some c' ↔ slot id' = some c' ∧ c' ≠ c := by
    intro id' c'
    by_cases heq : id' = id
    · subst heq
      rw [update_self, hid]
      constructor
      · intro hnone
        cases hnone
      · rintro ⟨hsome, hne⟩
        cases hsome
        exact absurd rfl hne
    · rw [update_of_ne heq]
      constructor
      · intro hsome
        refine ⟨hsome, ?_⟩
        rintro rfl
        exact heq (ht.injective hsome hid)
      · exact And.left
  refine ⟨?_, ?_, ?_, ?_, ?_, ?_⟩
  · intro h'
    by_cases hh : h' = id &&& t.hashmod
    · subst hh
      rw [update_self]
      exact h₁.linked.congr hnext
    · rw [update_of_ne hh]
      show Linked _ (t₁.hash h') _
      rw [h₁.hash h' hh]
      apply (ht.linked h').congr
      intro a ha
      obtain ⟨id', hid', hh'⟩ := (ht.mem_iff h' a).mp ha
      have hout : a ∉ chains (id &&& t.hashmod) := by
        intro hin
        obtain ⟨id'', hid'', hh''⟩ := (ht.mem_iff _ a).mp hin
        rw [ht.injective hid'' hid'] at hh''
        exact hh (hh'.symm.trans hh'')
      have hac : a ≠ c := by
        rintro rfl
        apply hout
        rw [hsplit]
        simp
      unfold Hashid.next clearNode
      dsimp only
      rw [update_of_ne hac, h₁.same a fun hl => hout (hmem_l a hl)]
  · intro h'
    by_cases hh : h' = id &&& t.hashmod
    · subst hh
      rw [update_self]
      exact (List.nodup_cons.mp (List.perm_middle.nodup_iff.mp hnodup)).2
    · rw [update_of_ne hh]
      exact ht.nodup h'
  · intro h' a
    have hmod : (t₁.clearNode c).hashmod = t.hashmod := h₁.hashmod
    rw [hmod]
    simp only [hslot]
    by_cases hh : h' = id &&& t.hashmod
    · subst hh
      rw [update_self]
      have hold := ht.mem_iff (id &&& t.hashmod) a
      rw [hsplit, List.perm_middle.mem_iff, List.mem_cons] at hold
      constructor
      · intro ha
        obtain ⟨id', hid', hh'⟩ := hold.mp (Or.inr ha)
        exact ⟨id', ⟨hid', fun heq => hclm (heq ▸ ha)⟩, hh'⟩
      · rintro ⟨id', ⟨hid', hne⟩, hh'⟩
        exact (hold.mpr ⟨id', hid', hh'⟩).resolve_left hne
    · rw [update_of_ne hh, ht.mem_iff]
      constructor
      · rintro ⟨id', hid', hh'⟩
        refine ⟨id', ⟨hid', ?_⟩, hh'⟩
        rintro rfl
        rw [ht.injective hid' hid] at hh'
        exact hh hh'.symm
      · rintro ⟨id', ⟨hid', -⟩, hh'⟩
        exact ⟨id', hid', hh'⟩
  · intro id' a ha
    obtain ⟨hid', hne⟩ := (hslot id' a).mp ha
    obtain ⟨hnode, hcap⟩ := ht.node id' a hid'
    refine ⟨?_, ?_⟩
    · unfold clearNode
      dsimp only
      rw [update_of_ne hne, h₁.node a, hnode]
    · show a < t₁.cap
      rw [h₁.cap]
      exact hcap
  · intro a ha
    unfold clearNode
    dsimp only
    by_cases hac : a = c
    · rw [hac, update_self]
    · have hnone : ∀ id', slot id' ≠ some a :=
        fun id' hid' => ha id' ((hslot id' a).mpr ⟨hid', hac⟩)
      rw [update_of_ne hac, h₁.same a, ht.free a hnone]
      intro hl
      obtain ⟨id', hid', -⟩ := (ht.mem_iff _ a).mp (hmem_l a hl)
      exact hnone id' hid'
  · obtain ⟨present, hpresent, hcount⟩ := ht.count
    have hmem : id ∈ present := (hpresent id).mpr (by rw [hid]; rfl)
    refine ⟨present.erase id, ?_, ?_⟩
    · intro id'
      rw [Finset.mem_erase, hpresent]
      by_cases heq : id' = id
      · subst heq
        rw [update_self]
        simp
      · rw [update_of_ne heq]
        exact and_iff_right heq
    · show t₁.count - 1 = _
      rw [h₁.count, hcount, Finset.card_erase_of_mem hmem]
      have hpos := Finset.card_pos.mpr ⟨id, hmem⟩
      omega

/-- The answer is the slot, and the id is gone. -/
theorem Inv.remove (ht : t.Inv chains slot) (id : ℕ) :
    ∃ t' chains', t.remove id = some (t', Inv.answer slot id) ∧ t'.cap = t.cap ∧
      t'.Inv chains' (update slot id none) := by
  unfold Inv.answer
  cases hid : slot id with
  | none =>
    refine ⟨t, chains, ht.remove_absent hid, rfl, ?_⟩
    rw [← hid, update_eq_self]
    exact ht
  | some c =>
    obtain ⟨l, m, hsplit, hl⟩ := ht.split hid
    obtain ⟨t₁, h₁, hremove⟩ := ht.unlinked hid hsplit hl
    exact ⟨_, _, hremove, h₁.cap, ht.clear hid hsplit h₁⟩

/-! ## Inserting -/

/-- The probe comes to a free slot, if there is one before the sum overflows. -/
theorem findLoop_free (hfree : ∃ j, i ≤ j ∧ j < i + rounds ∧ j + id < 2 ^ 31 ∧
    (t.id ((j + id) % t.cap)).id = -1) :
    ∃ j < i + rounds, t.findLoop id rounds i = some (some ((j + id) % t.cap)) ∧
      (t.id ((j + id) % t.cap)).id = -1 := by
  induction rounds generalizing i with
  | zero =>
    obtain ⟨j, hge, hlt, -⟩ := hfree
    omega
  | succ rounds ih =>
    obtain ⟨j, hge, hlt, hfits, hj⟩ := hfree
    unfold findLoop
    rw [if_neg (by omega)]
    dsimp only
    by_cases hi : (t.id ((i + id) % t.cap)).id = -1
    · rw [if_pos hi]
      exact ⟨i, by omega, rfl, hi⟩
    · rw [if_neg hi]
      have hij : i ≠ j := by
        rintro rfl
        exact hi hj
      obtain ⟨k, hk, hloop, hkfree⟩ := @ih (i + 1) ⟨j, by omega, by omega, hfits, hj⟩
      exact ⟨k, by omega, hloop, hkfree⟩

/-- A free slot is given to an absent id. -/
theorem Inv.insert (ht : t.Inv chains slot) (hid : slot id = none)
    (hfree : ∃ i < t.cap, i + id < 2 ^ 31 ∧ (t.id ((i + id) % t.cap)).id = -1) :
    ∃ t' chains' c, t.insert id = some (t', c) ∧ t'.cap = t.cap ∧
      t'.Inv chains' (update slot id (some c)) := by
  obtain ⟨i, hi, hfits, hifree⟩ := hfree
  obtain ⟨j, hj, hfind, hjfree⟩ :=
    findLoop_free (t := t) ⟨i, Nat.zero_le i, by rwa [Nat.zero_add], hfits, hifree⟩
  set c := (j + id) % t.cap
  have hccap : c < t.cap := Nat.mod_lt _ (by omega)
  have hnone : ∀ id', slot id' ≠ some c := by
    intro id' hid'
    rw [(ht.node id' c hid').1] at hjfree
    omega
  have hc := ht.free c hnone
  have hout : ∀ h, c ∉ chains h := by
    intro h hmem
    obtain ⟨id', hid', -⟩ := (ht.mem_iff h c).mp hmem
    exact hnone id' hid'
  have hslot : ∀ id' a, update slot id (some c) id' = some a ↔
      id' = id ∧ a = c ∨ slot id' = some a := by
    intro id' a
    by_cases heq : id' = id
    · subst heq
      rw [update_self, hid, Option.some.injEq]
      constructor
      · rintro rfl
        exact Or.inl ⟨rfl, rfl⟩
      · rintro (⟨-, rfl⟩ | hnone)
        · rfl
        · cases hnone
    · rw [update_of_ne heq]
      constructor
      · exact Or.inr
      · rintro (⟨hsame, -⟩ | hsome)
        · exact absurd hsame heq
        · exact hsome
  have hnext : ∀ h, ∀ a ∈ chains h,
      (update t.id c ⟨id, t.hash (id &&& t.hashmod)⟩ a).next = t.next a := by
    intro h a ha
    have hac : a ≠ c := by
      rintro rfl
      exact hout h ha
    rw [update_of_ne hac]
    rfl
  refine ⟨{ t with
      count := t.count + 1
      id := update t.id c ⟨id, t.hash (id &&& t.hashmod)⟩
      hash := update t.hash (id &&& t.hashmod) (some c) },
    update chains (id &&& t.hashmod) (c :: chains (id &&& t.hashmod)), c, ?_, rfl,
    ?_, ?_, ?_, ?_, ?_, ?_⟩
  · unfold Hashid.insert
    rw [hfind]
    show (if (t.id c).next.isSome then none else _) = _
    rw [hc]
    rfl
  · intro h'
    dsimp only
    by_cases hh : h' = id &&& t.hashmod
    · subst hh
      rw [update_self, update_self]
      refine ⟨rfl, ?_⟩
      unfold Hashid.next
      dsimp only
      rw [update_self]
      exact (ht.linked _).congr (hnext _)
    · rw [update_of_ne hh, update_of_ne hh]
      exact (ht.linked h').congr (hnext h')
  · intro h'
    by_cases hh : h' = id &&& t.hashmod
    · subst hh
      rw [update_self]
      exact List.nodup_cons.mpr ⟨hout _, ht.nodup _⟩
    · rw [update_of_ne hh]
      exact ht.nodup h'
  · intro h' a
    dsimp only
    simp only [hslot]
    by_cases hh : h' = id &&& t.hashmod
    · subst hh
      rw [update_self, List.mem_cons, ht.mem_iff]
      constructor
      · rintro (rfl | ⟨id', hid', hh'⟩)
        · exact ⟨id, Or.inl ⟨rfl, rfl⟩, rfl⟩
        · exact ⟨id', Or.inr hid', hh'⟩
      · rintro ⟨id', ⟨-, rfl⟩ | hid', hh'⟩
        · exact Or.inl rfl
        · exact Or.inr ⟨id', hid', hh'⟩
    · rw [update_of_ne hh, ht.mem_iff]
      constructor
      · rintro ⟨id', hid', hh'⟩
        exact ⟨id', Or.inr hid', hh'⟩
      · rintro ⟨id', ⟨rfl, -⟩ | hid', hh'⟩
        · exact absurd hh'.symm hh
        · exact ⟨id', hid', hh'⟩
  · intro id' a ha
    dsimp only
    rcases (hslot id' a).mp ha with ⟨rfl, rfl⟩ | hid'
    · rw [update_self]
      exact ⟨rfl, hccap⟩
    · have hac : a ≠ c := by
        rintro rfl
        exact hnone id' hid'
      rw [update_of_ne hac]
      exact ht.node id' a hid'
  · intro a ha
    dsimp only
    have hac : a ≠ c := by
      rintro rfl
      exact ha id ((hslot id c).mpr (Or.inl ⟨rfl, rfl⟩))
    rw [update_of_ne hac]
    exact ht.free a fun id' hid' => ha id' ((hslot id' a).mpr (Or.inr hid'))
  · obtain ⟨present, hpresent, hcount⟩ := ht.count
    have hmem : id ∉ present := by
      rw [hpresent, hid]
      exact Bool.false_ne_true
    refine ⟨Insert.insert id present, ?_, ?_⟩
    · intro id'
      rw [Finset.mem_insert, hpresent]
      by_cases heq : id' = id
      · subst heq
        rw [update_self]
        simp
      · rw [update_of_ne heq]
        exact or_iff_right heq
    · show t.count + 1 = _
      rw [hcount, Finset.card_insert_of_notMem hmem]
      rfl

end Hashid

/-! ## Runs -/

namespace Slots

variable {s s' : Slots} {cap : ℕ}

/-- The table and what has been done agree. -/
def Tracks (cap : ℕ) (s : Slots) : Prop :=
  s.table.cap = cap ∧ ∃ chains, s.table.Inv chains (slotOf s.log)

theorem slotOf_inserted (id slot : ℕ) (log : List HashidEvent) :
    slotOf (.inserted id slot :: log) = update (slotOf log) id (some slot) := by
  funext id'
  show (if id' = id then _ else _) = _
  rw [update_apply]

theorem slotOf_removed (id : ℕ) (log : List HashidEvent) :
    slotOf (.removed id :: log) = update (slotOf log) id none := by
  funext id'
  show (if id' = id then _ else _) = _
  rw [update_apply]

/-- An allowed call that probes within the `int`s succeeds. -/
theorem Tracks.step (hs : s.Tracks cap) {op : HashidOp} (hallowed : s.Allowed op)
    (hprobes : s.Probes op) : ∃ s', s.step op = some s' ∧ s'.Tracks cap := by
  obtain ⟨hcap, chains, ht⟩ := hs
  cases op with
  | insert id =>
    obtain ⟨t', chains', c, hinsert, hcap', ht'⟩ := ht.insert hallowed.2.1 hprobes
    refine ⟨⟨t', .inserted id c :: s.log⟩, ?_, hcap'.trans hcap, chains', ?_⟩
    · unfold Slots.step
      dsimp only
      rw [hinsert]
      rfl
    · rw [slotOf_inserted]
      exact ht'
  | remove id =>
    obtain ⟨t', chains', hremove, hcap', ht'⟩ := ht.remove id
    refine ⟨⟨t', .removed id :: s.log⟩, ?_, hcap'.trans hcap, chains', ?_⟩
    · unfold Slots.step
      dsimp only
      rw [hremove]
      rfl
    · rw [slotOf_removed]
      exact ht'
  | lookup id =>
    refine ⟨s, ?_, hcap, chains, ht⟩
    unfold Slots.step
    dsimp only
    rw [ht.lookup id]
    rfl

theorem Tracks.run (hs : s.Tracks cap) {ops : List HashidOp}
    (hguard : Guarded Slots.step (fun s op => s.Allowed op ∧ s.Probes op) s ops) :
    ∃ s', Lib.run Slots.step s ops = some s' ∧ s'.Tracks cap := by
  induction ops generalizing s with
  | nil => exact ⟨s, rfl, hs⟩
  | cons op ops ih =>
    obtain ⟨⟨hallowed, hprobes⟩, hrest⟩ := hguard
    obtain ⟨s₁, hstep, hs₁⟩ := hs.step hallowed hprobes
    obtain ⟨s', hrun, hs'⟩ := ih hs₁ (hrest s₁ hstep)
    refine ⟨s', ?_, hs'⟩
    rw [run_cons, hstep]
    exact hrun

/-- The table answers as the map from the present ids to the slots given to them. -/
structure IsMap (cap : ℕ) (s : Slots) : Prop where
  lookup : ∀ id, s.table.lookup id = some (Hashid.Inv.answer (slotOf s.log) id)
  remove : ∀ id, ∃ t, s.table.remove id = some (t, Hashid.Inv.answer (slotOf s.log) id)
  distinct : ∀ id id' c, slotOf s.log id = some c → slotOf s.log id' = some c → id = id'
  lt : ∀ id c, slotOf s.log id = some c → c < cap
  count : ∃ present : Finset ℕ, (∀ id, id ∈ present ↔ (slotOf s.log id).isSome) ∧
    s.table.count = present.card

theorem Tracks.isMap (hs : s.Tracks cap) : s.IsMap cap := by
  obtain ⟨hcap, chains, ht⟩ := hs
  refine ⟨ht.lookup, ?_, fun _ _ _ => ht.injective, ?_, ht.count⟩
  · intro id
    obtain ⟨t', -, hremove, -⟩ := ht.remove id
    exact ⟨t', hremove⟩
  · intro id c hid
    rw [← hcap]
    exact (ht.node id c hid).2

end Slots

/-- The doubling comes to the capacity before it overflows. -/
theorem hashcapLoop_eq {max : ℕ} (hmax : max ≤ 2 ^ 30) {k rounds : ℕ} (hk : k ≤ 30)
    (hrounds : 30 < k + rounds) : ∃ hashcap, hashcapLoop max rounds (2 ^ k) = some hashcap := by
  induction rounds generalizing k with
  | zero => omega
  | succ rounds ih =>
    unfold hashcapLoop
    by_cases hlt : 2 ^ k < max
    · have hk' : k < 30 := by
        by_contra hge
        have hpow : 2 ^ 30 ≤ 2 ^ k := Nat.pow_le_pow_right (by decide) (by omega)
        omega
      have hpow : 2 ^ (k + 1) ≤ 2 ^ 30 := Nat.pow_le_pow_right (by decide) hk'
      rw [if_pos hlt, ← Nat.pow_succ, if_neg (by omega)]
      exact ih hk' (by omega)
    · rw [if_neg hlt]
      exact ⟨_, rfl⟩

theorem hashidInit_tracks {cap : ℕ} (hcap : cap ≤ 2 ^ 30) :
    ∃ t, hashidInit cap = some t ∧ (⟨t, []⟩ : Slots).Tracks cap := by
  obtain ⟨hashcap, hloop⟩ :=
    hashcapLoop_eq hcap (show 4 ≤ 30 by decide) (show 30 < 4 + 28 by decide)
  refine ⟨⟨hashcap - 1, cap, 0, fun _ => ⟨-1, none⟩, fun _ => none⟩, ?_, rfl, fun _ => [], ?_⟩
  · unfold hashidInit
    rw [show (16 : ℕ) = 2 ^ 4 from rfl, hloop]
    rfl
  · refine ⟨fun _ => rfl, fun _ => List.nodup_nil, ?_, ?_, fun _ _ => rfl, ∅, ?_, rfl⟩
    · intro h c
      constructor
      · intro hmem
        cases hmem
      · rintro ⟨id, hid, -⟩
        cases hid
    · intro id c hid
      cases hid
    · intro id
      constructor
      · intro hmem
        cases hmem
      · intro hsome
        cases hsome

/-- **The table of ids is a finite map**, as long as each insert comes to a free slot before its sum
overflows, and the capacity can be rounded up to a power of two. -/
theorem hashid_is_map (cap : ℕ) (ops : List HashidOp) (hcap : cap ≤ 2 ^ 30) :
    ∃ t, hashidInit cap = some t ∧
      (Guarded Slots.step (fun s op => s.Allowed op ∧ s.Probes op) ⟨t, []⟩ ops →
        ∃ s, run Slots.step ⟨t, []⟩ ops = some s ∧ s.IsMap cap) := by
  obtain ⟨t, hinit, ht⟩ := hashidInit_tracks hcap
  refine ⟨t, hinit, ?_⟩
  intro hguard
  obtain ⟨s, hrun, hs⟩ := Slots.Tracks.run ht hguard
  exact ⟨s, hrun, hs.isMap⟩

/-- Two ids with one hash, and one of them removed -/
def collidingOps : List HashidOp :=
  [.insert 5, .insert 21, .lookup 5, .remove 21, .insert 37, .remove 8]

theorem hashid_is_map_colliding : ∃ t, hashidInit 3 = some t ∧
    Guarded Slots.step (fun s op => s.Allowed op ∧ s.Probes op) ⟨t, []⟩ collidingOps ∧
      ∃ s, run Slots.step ⟨t, []⟩ collidingOps = some s ∧ s.IsMap 3 := by
  have hcap : 3 ≤ 2 ^ 30 := by decide
  obtain ⟨t, hinit, hmap⟩ := hashid_is_map 3 collidingOps hcap
  have ht : t = ⟨15, 3, 0, fun _ => ⟨-1, none⟩, fun _ => none⟩ := (Option.some.inj hinit).symm
  subst ht
  have hguard : Guarded Slots.step (fun s op => s.Allowed op ∧ s.Probes op)
      ⟨⟨15, 3, 0, fun _ => ⟨-1, none⟩, fun _ => none⟩, []⟩ collidingOps := by
    decide
  exact ⟨_, hinit, hguard, hmap hguard⟩

/-- The slot of id `2^31 - 1` is taken, and the next sum overflows. -/
theorem hashid_overflows : ¬ ∀ t, hashidInit 3 = some t → ∀ ops,
    Guarded Slots.step (fun s op => s.Allowed op) ⟨t, []⟩ ops →
      (run Slots.step ⟨t, []⟩ ops).isSome := by
  intro hclaim
  have hrun := hclaim ⟨15, 3, 0, fun _ => ⟨-1, none⟩, fun _ => none⟩ rfl
    [.insert 1, .insert 2147483647] (by decide)
  exact absurd hrun (by decide)

end SkynetEureka.ServiceGate
