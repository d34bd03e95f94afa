import SkynetEureka.Lib.Run
import SkynetEureka.HandleStore.HandleTheorems

/-!
# The handle store as a map

A node runs the store operations one after another, each new context storing the handle it got
before the next operation. `owner` is what the operations so far say a handle stands for: the
context registered with it last, until it is retired. `Represents` connects the table to it.
-/

namespace SkynetEureka.HandleStore

open Lib

/-- A call on the handle store. -/
inductive Op where
  | register (c : Ctx)
  | retire (h : ℕ)
  | grab (h : ℕ)
  | retireall

/-- What a call did; a grab changes nothing and leaves no trace. -/
inductive Event where
  | registered (c : Ctx) (h : ℕ)
  | retired (h : ℕ)
  | retiredAll

/-- The context that a handle stands for, after the events of a log (newest first). -/
def owner : List Event → ℕ → Option Ctx
  | [], _ => none
  | .registered c h' :: log, h => if h = h' then some c else owner log h
  | .retired h' :: log, h => if h = h' then none else owner log h
  | .retiredAll :: _, _ => none

/-- The store, the field `handle` of every context, and what has been done. -/
structure Node where
  store : HandleStorage
  contextHandle : Ctx → ℕ
  log : List Event

/-- A node after `skynet_handle_init`. -/
def Node.init (harbor : ℤ) : Node where
  store := skynetHandleInit harbor
  contextHandle := fun _ => 0
  log := []

/-- One call. `register` sets `ctx->handle` to 0, registers and stores the result, as
`skynet_context_new` does; it is not enabled when the source would end the process. -/
def Node.step (n : Node) : Op → Option Node
  | .register c =>
    match skynetHandleRegister (Function.update n.contextHandle c 0) n.store c with
    | .ok (s, h) =>
      some ⟨s, Function.update n.contextHandle c h, .registered c h :: n.log⟩
    | .error _ => none
  | .retire h =>
    some { n with
      store := (skynetHandleRetire n.contextHandle n.store h).1
      log := .retired h :: n.log }
  | .grab _ => some n
  | .retireall =>
    some { n with
      store := skynetHandleRetireall n.contextHandle n.store
      log := .retiredAll :: n.log }

/-- The number of contexts in the table. -/
def HandleStorage.liveCount (s : HandleStorage) : ℕ :=
  ((Finset.range s.slotSize).filter fun i => (s.slot i).isSome).card

/-- A registered context is new, there is room for it, and the growth code is not entered with
an empty slot. -/
def Node.CanRegister (n : Node) : Op → Prop
  | .register c =>
    (∀ i < n.store.slotSize, n.store.slot i ≠ some c) ∧ n.store.liveCount < handleMask ∧
      (n.store.scan = none → ∀ i < n.store.slotSize, n.store.slot i ≠ none)
  | _ => True

instance (n : Node) : (op : Op) → Decidable (n.CanRegister op)
  | .register c => inferInstanceAs (Decidable
      ((∀ i < n.store.slotSize, n.store.slot i ≠ some c) ∧ n.store.liveCount < handleMask ∧
        (n.store.scan = none → ∀ i < n.store.slotSize, n.store.slot i ≠ none)))
  | .retire _ | .grab _ | .retireall => inferInstanceAs (Decidable True)

/-- The table holds the live contexts, each under the handle it owns. -/
structure Node.Represents (harbor : ℤ) (n : Node) : Prop where
  valid : Valid n.contextHandle n.store
  harbor : n.store.harbor = (harbor % 256).toNat <<< handleRemoteShift
  owner_iff : ∀ h c, owner n.log h = some c ↔ n.store.Has c ∧ n.contextHandle c = h

lemma liveCount_of_full {s : HandleStorage} (h : ∀ i < s.slotSize, s.slot i ≠ none) :
    s.liveCount = s.slotSize := by
  rw [HandleStorage.liveCount, Finset.filter_true_of_mem, Finset.card_range]
  intro i hi
  exact Option.isSome_iff_ne_none.mpr (h i (Finset.mem_range.mp hi))

lemma Valid.not_has {handle : Ctx → ℕ} {s : HandleStorage} (v : Valid handle s) {c : Ctx}
    (h : ∀ i < s.slotSize, s.slot i ≠ some c) : ¬ s.Has c := by
  rintro ⟨i, hi⟩
  exact h i (v.placed hi).1 hi

/-- Below the limit on contexts, a full table may double. -/
lemma Valid.double_le {handle : Ctx → ℕ} {s : HandleStorage} (v : Valid handle s)
    (h : s.slotSize < handleMask) : s.slotSize * 2 - 1 ≤ handleMask := by
  obtain ⟨k, -, -, hs⟩ := v.size
  have hk : k < 24 := by
    rw [hs, handleMask_eq] at h
    exact (Nat.pow_lt_pow_iff_right (by omega)).mp (by omega : 2 ^ k < 2 ^ 24)
  have : 2 ^ (k + 1) ≤ 2 ^ 24 := Nat.pow_le_pow_right (by omega) hk
  rw [hs, ← pow_succ, handleMask_eq]
  omega

namespace Node.Represents

variable {harbor : ℤ} {n : Node}

lemma init : (Node.init harbor).Represents harbor where
  valid := init_valid harbor _
  harbor := rfl
  owner_iff := fun h c => by simp [Node.init, owner, HandleStorage.Has, skynetHandleInit]

/-- A new context has not stored a handle that the growth code could read. -/
lemma field_eq {c d : Ctx} (hc : ¬ n.store.Has c) (hd : n.store.Has d) :
    Function.update n.contextHandle c 0 d = n.contextHandle d := by
  rw [Function.update_of_ne]
  rintro rfl
  exact hc hd

/-- A registration that grows a full table only, within the limit, succeeds, and its handle now
stands for the new context. -/
lemma register (r : n.Represents harbor) {c : Ctx} (hc : ¬ n.store.Has c)
    (hgrow : n.store.scan = none →
      (∀ i < n.store.slotSize, n.store.slot i ≠ none) ∧ n.store.slotSize * 2 - 1 ≤ handleMask) :
    ∃ n', n.step (.register c) = some n' ∧ n'.Represents harbor := by
  obtain ⟨s', h, heq, v', hhas, hne, hharbor⟩ := r.valid.register
    (Function.update n.contextHandle c 0) hc (fun hscan =>
      ⟨(hgrow hscan).1, (hgrow hscan).2, fun d hd => by rw [field_eq hc hd]⟩)
  refine ⟨⟨s', Function.update n.contextHandle c h, .registered c h :: n.log⟩,
    by simp only [Node.step, heq], v', hharbor.trans r.harbor, ?_⟩
  · intro g d
    simp only [owner, hhas]
    by_cases hg : g = h
    · subst hg
      rw [if_pos rfl]
      constructor
      · rintro ⟨rfl⟩
        exact ⟨Or.inl rfl, by rw [Function.update_self]⟩
      · rintro ⟨hd, hdg⟩
        by_contra hcd
        have hdc : d ≠ c := fun h => hcd (by rw [h])
        rw [Function.update_of_ne hdc] at hdg
        exact hne d (hd.resolve_left hdc) hdg
    · rw [if_neg hg, r.owner_iff]
      by_cases hdc : d = c
      · subst hdc
        rw [Function.update_self]
        constructor
        · exact fun h => absurd h.1 hc
        · exact fun h => absurd h.2.symm hg
      · rw [Function.update_of_ne hdc]
        simp [hdc]

/-- A retired handle stands for nothing, and the others for what they stood for. -/
lemma retire (r : n.Represents harbor) (h : ℕ) :
    ∃ n', n.step (.retire h) = some n' ∧ n'.Represents harbor := by
  obtain ⟨v', hhas⟩ := r.valid.retire n.contextHandle h
  refine ⟨_, rfl, v', ?_, ?_⟩
  · cases hg : skynetHandleGrab n.contextHandle n.store h with
    | none => rw [retire_of_grab_none hg]; exact r.harbor
    | some c => rw [retire_of_grab_some hg]; exact r.harbor
  · intro g d
    simp only [owner, hhas]
    have hgrab := r.valid.grab_iff (h := h) (c := d)
    by_cases hgh : g = h
    · subst hgh
      rw [if_pos rfl]
      refine iff_of_false (by simp) ?_
      rintro ⟨⟨hd, hne⟩, hdg⟩
      exact hne (hgrab.mpr ⟨hd, hdg⟩)
    · rw [if_neg hgh, r.owner_iff]
      constructor
      · rintro ⟨hd, rfl⟩
        exact ⟨⟨hd, fun hs => hgh (hgrab.mp hs).2⟩, rfl⟩
      · rintro ⟨⟨hd, -⟩, rfl⟩
        exact ⟨hd, rfl⟩

lemma retireall (r : n.Represents harbor) :
    ∃ n', n.step .retireall = some n' ∧ n'.Represents harbor := by
  obtain ⟨v', hnone, hharbor⟩ := r.valid.retireall
  refine ⟨_, rfl, v', hharbor.trans r.harbor, fun g d => ?_⟩
  simp [owner, hnone]

/-- What one call preserves. -/
lemma step (r : n.Represents harbor) (op : Op) (hok : n.CanRegister op) :
    ∃ n', n.step op = some n' ∧ n'.Represents harbor := by
  cases op with
  | register c =>
    obtain ⟨hnew, hroom, hfull⟩ := hok
    refine r.register (r.valid.not_has hnew) fun hscan => ⟨hfull hscan, r.valid.double_le ?_⟩
    rwa [liveCount_of_full (hfull hscan)] at hroom
  | retire h => exact r.retire h
  | grab h => exact ⟨n, rfl, r⟩
  | retireall => exact r.retireall

/-- What a run preserves; no call of it ends the process. -/
lemma run (r : n.Represents harbor) {ops : List Op}
    (hok : Guarded Node.step Node.CanRegister n ops) :
    ∃ n', Lib.run Node.step n ops = some n' ∧ n'.Represents harbor := by
  induction ops generalizing n with
  | nil => exact ⟨n, rfl, r⟩
  | cons op ops ih =>
    obtain ⟨t, ht, rt⟩ := r.step op hok.1
    obtain ⟨n', hn', rn'⟩ := ih rt (hok.2 t ht)
    exact ⟨n', by rw [run_cons, ht, Option.bind_some, hn'], rn'⟩

/-- A grab is a lookup in the map. -/
lemma grab_eq_owner (r : n.Represents harbor) (h : ℕ) :
    skynetHandleGrab n.contextHandle n.store h = owner n.log h := by
  refine Option.ext fun c => ?_
  rw [r.owner_iff, r.valid.grab_iff]

/-- What a live handle tells: its context, the slot of that context, and its own form. -/
lemma of_owner (r : n.Represents harbor) {h : ℕ} {c : Ctx} (ho : owner n.log h = some c) :
    n.contextHandle c = h ∧ n.store.slot (h &&& (n.store.slotSize - 1)) = some c ∧
      h &&& handleMask ≠ 0 ∧ h >>> handleRemoteShift = (harbor % 256).toNat := by
  obtain ⟨⟨i, hi⟩, rfl⟩ := (r.owner_iff h c).mp ho
  refine ⟨rfl, ?_, r.valid.low_pos hi, ?_⟩
  · rw [(r.valid.placed hi).2.1]
    exact hi
  · rw [r.valid.high_eq hi, r.harbor, Nat.shiftLeft_shiftRight]

end Node.Represents

/-- **The handle store is a map.** Over any run of the operations that stays within the limit on
contexts and never grows with an empty slot: every live context lies in the slot of its handle,
live handles are distinct, have non-zero low bits and the harbor on top, a grab returns exactly
the owner of the handle, and a retire takes away the owner of its handle and no other. -/
theorem handle_store_is_map (harbor : ℤ) (ops : List Op)
    (hok : Guarded Node.step Node.CanRegister (Node.init harbor) ops) :
    ∃ n, run Node.step (Node.init harbor) ops = some n ∧
      (∀ h c, owner n.log h = some c →
        n.contextHandle c = h ∧ n.store.slot (h &&& (n.store.slotSize - 1)) = some c ∧
          h &&& handleMask ≠ 0 ∧ h >>> handleRemoteShift = (harbor % 256).toNat) ∧
      (∀ g h c d, owner n.log g = some c → owner n.log h = some d →
        (n.contextHandle c = n.contextHandle d ↔ c = d)) ∧
      (∀ h, skynetHandleGrab n.contextHandle n.store h = owner n.log h) ∧
      (∀ h g, skynetHandleGrab n.contextHandle (skynetHandleRetire n.contextHandle n.store h).1 g =
        if g = h then none else owner n.log g) := by
  obtain ⟨n, hrun, r⟩ := Node.Represents.init.run hok
  refine ⟨n, hrun, fun h c => r.of_owner, ?_, r.grab_eq_owner, ?_⟩
  · intro g h c d hc hd
    refine ⟨fun heq => ?_, fun heq => heq ▸ rfl⟩
    have hgh : g = h := by rw [← (r.of_owner hc).1, ← (r.of_owner hd).1, heq]
    subst hgh
    exact Option.some.inj (hc.symm.trans hd)
  · intro h g
    obtain ⟨n', hn', r'⟩ := r.retire h
    cases hn'
    exact r'.grab_eq_owner g

/-- The run of five launches, a retire, a growth and a retire of all is within the limits. -/
theorem handle_store_is_map_growing :
    Guarded Node.step Node.CanRegister (Node.init 1)
        [.register 10, .register 20, .retire 0x1000001, .register 30, .grab 0x1000002,
          .register 40, .register 50, .register 60, .retireall, .register 10] ∧
      ∃ n, run Node.step (Node.init 1)
        [.register 10, .register 20, .retire 0x1000001, .register 30, .grab 0x1000002,
          .register 40, .register 50, .register 60, .retireall, .register 10] = some n ∧
        ∀ h, skynetHandleGrab n.contextHandle n.store h = owner n.log h := by
  have hok : Guarded Node.step Node.CanRegister (Node.init 1)
      [.register 10, .register 20, .retire 0x1000001, .register 30, .grab 0x1000002,
        .register 40, .register 50, .register 60, .retireall, .register 10] := by decide
  obtain ⟨n, hn, -, -, hgrab, -⟩ := handle_store_is_map 1 _ hok
  exact ⟨hok, n, hn, hgrab⟩

end SkynetEureka.HandleStore
