import SkynetEureka.Lib.Run
import SkynetEureka.HandleStore.HandleTheorems

/-!
# Concurrent launches

`skynet_context_new` calls `skynet_handle_register` and stores its result into `ctx->handle`
after the lock has been given back. Here the two are separate steps of a thread, and the steps
of all threads interleave. Between the two a context is in the table with handle 0: growth must
not meet it there, unless slot 0 is its place anyway.
-/

namespace SkynetEureka.HandleStore

open Lib

/-- A step of one of the threads. -/
inductive Action where
  /-- `ctx->handle = 0` and the locked body of `skynet_handle_register` -/
  | register (c : Ctx)
  /-- the store of the result into `ctx->handle` -/
  | store (c : Ctx)
  | retire (h : ℕ)
  | grab (h : ℕ)

/-- The shared store and fields; `result` holds what a call of `skynet_handle_register` has
returned and its caller has not stored yet, `registered` the handle of each context that was
registered and has not been retired since. -/
structure Launches where
  store : HandleStorage
  contextHandle : Ctx → ℕ
  result : Ctx → Option ℕ
  registered : Ctx → Option ℕ
  fault : Option Fault

def Launches.init (harbor : ℤ) : Launches where
  store := skynetHandleInit harbor
  contextHandle := fun _ => 0
  result := fun _ => none
  registered := fun _ => none
  fault := none

/-- The address of a new context is not in use, neither by the table nor by a thread. -/
def Launches.Fresh (l : Launches) (c : Ctx) : Prop :=
  (∀ i < l.store.slotSize, l.store.slot i ≠ some c) ∧ l.result c = none

instance (l : Launches) (c : Ctx) : Decidable (l.Fresh c) :=
  inferInstanceAs (Decidable
    ((∀ i < l.store.slotSize, l.store.slot i ≠ some c) ∧ l.result c = none))

/-- One step. After a fault the process has ended. -/
def Launches.step (l : Launches) (a : Action) : Option Launches :=
  if l.fault.isSome then none
  else
    match a with
    | .register c =>
      if l.Fresh c then
        let field := Function.update l.contextHandle c 0
        match skynetHandleRegister field l.store c with
        | .ok (s, h) =>
          some ⟨s, field, Function.update l.result c (some h),
            Function.update l.registered c (some h), none⟩
        | .error e => some { l with fault := some e }
      else none
    | .store c =>
      (l.result c).map fun h =>
        { l with
          contextHandle := Function.update l.contextHandle c h
          result := Function.update l.result c none }
    | .retire h =>
      match skynetHandleRetire l.contextHandle l.store h with
      | (s, some c) => some { l with store := s, registered := Function.update l.registered c none }
      | (s, none) => some { l with store := s }
    | .grab _ => some l

/-- A registration does not copy the table while a context waits for its handle, unless the
handle belongs to slot 0 of the doubled table. -/
def Launches.GrowsSettled (l : Launches) : Action → Prop
  | .register _ =>
    l.store.scan = none → (∀ i < l.store.slotSize, l.store.slot i ≠ none) →
      l.store.slotSize * 2 - 1 ≤ handleMask →
        ∀ i < l.store.slotSize, ∀ c ∈ l.store.slot i, ∀ h ∈ l.result c,
          h &&& (l.store.slotSize * 2 - 1) = 0
  | _ => True

instance (l : Launches) : (a : Action) → Decidable (l.GrowsSettled a)
  | .register _ => inferInstanceAs (Decidable
      (l.store.scan = none → (∀ i < l.store.slotSize, l.store.slot i ≠ none) →
        l.store.slotSize * 2 - 1 ≤ handleMask →
          ∀ i < l.store.slotSize, ∀ c ∈ l.store.slot i, ∀ h ∈ l.result c,
            h &&& (l.store.slotSize * 2 - 1) = 0))
  | .store _ | .retire _ | .grab _ => inferInstanceAs (Decidable True)

/-- The store is not corrupted: a registered context that has stored its handle is found under
this handle and no other, every context in the table lies in the slot of its handle, and the
`assert` of the growth code has not failed. -/
structure Launches.Intact (l : Launches) : Prop where
  found : ∀ c h, l.registered c = some h → l.result c = none →
    ∀ x, skynetHandleGrab l.contextHandle l.store x = some c ↔ x = h
  placed : ∀ c h, l.registered c = some h →
    ∀ i, l.store.slot i = some c ↔ i = h &&& (l.store.slotSize - 1)
  asserted : l.fault ≠ some .newSlotTaken

/-- The handle that was given to a context. -/
def Launches.given (l : Launches) (c : Ctx) : ℕ := (l.registered c).getD 0

/-- The invariant: the table is valid for the given handles, and the field of a context agrees
with its handle, or is 0 while its thread has the handle in hand. -/
structure Launches.Tracks (l : Launches) : Prop where
  valid : Valid l.given l.store
  has_iff : ∀ c, l.store.Has c ↔ (l.registered c).isSome
  stored : ∀ {c h}, l.registered c = some h → l.result c = none → l.contextHandle c = h
  waiting : ∀ {c h}, l.result c = some h → l.contextHandle c = 0
  same : ∀ {c h g}, l.result c = some h → l.registered c = some g → g = h
  asserted : l.fault ≠ some .newSlotTaken

/-- When the copy of the table is not reached or meets the free slot 0 at once, the growth code
fails in another way than by the `assert` on `new_slot`. -/
lemma Valid.growSlot_of_not_full {handle : Ctx → ℕ} {s : HandleStorage} (v : Valid handle s)
    (contextHandle : Ctx → ℕ) (hscan : s.scan = none)
    (h : ¬ ((∀ i < s.slotSize, s.slot i ≠ none) ∧ s.slotSize * 2 - 1 ≤ handleMask)) :
    HandleStore.growSlot contextHandle s = .error .slotSizeLimit ∨
      HandleStore.growSlot contextHandle s = .error .nullContext := by
  rw [HandleStore.growSlot]
  split
  · exact Or.inl rfl
  · rename_i hmax
    right
    have hzero : s.slot 0 = none := by
      by_contra hne
      refine h ⟨fun i hi => ?_, by omega⟩
      rcases Nat.eq_zero_or_pos i with rfl | hpos
      · exact hne
      · exact v.taken_of_scan_none hscan hi hpos
    obtain ⟨n, hn⟩ : ∃ n, s.slotSize = n + 1 :=
      Nat.exists_eq_succ_of_ne_zero (by have := v.four_le; omega)
    simp [hn, List.range_succ_eq_map, rehashSlot, hzero, bind, Except.bind]

namespace Launches.Tracks

variable {l l' : Launches}

lemma init (harbor : ℤ) : (Launches.init harbor).Tracks where
  valid := init_valid harbor _
  has_iff := fun c => by simp [Launches.init, skynetHandleInit, HandleStorage.Has]
  stored := fun h => nomatch h
  waiting := fun h => nomatch h
  same := fun h => nomatch h
  asserted := fun h => nomatch h

lemma not_has (t : l.Tracks) {c : Ctx} (h : l.Fresh c) : ¬ l.store.Has c := by
  rintro ⟨i, hi⟩
  exact h.1 i (t.valid.placed hi).1 hi

/-- What growth reads agrees with the given handles modulo the doubled table. -/
lemma field_and (t : l.Tracks) {c d : Ctx} (hc : l.Fresh c) (hd : l.store.Has d)
    (hzero : ∀ i < l.store.slotSize, ∀ e ∈ l.store.slot i, ∀ h ∈ l.result e,
      h &&& (l.store.slotSize * 2 - 1) = 0) :
    Function.update l.contextHandle c 0 d &&& (l.store.slotSize * 2 - 1) =
      l.given d &&& (l.store.slotSize * 2 - 1) := by
  have hdc : d ≠ c := by
    rintro rfl
    exact t.not_has hc hd
  obtain ⟨h, hreg⟩ := Option.isSome_iff_exists.mp ((t.has_iff d).mp hd)
  rw [Function.update_of_ne hdc, given, hreg, Option.getD_some]
  cases hres : l.result d with
  | none => rw [t.stored hreg hres]
  | some g =>
    obtain rfl := t.same hres hreg
    obtain ⟨i, hi⟩ := hd
    rw [t.waiting hres, hzero i (t.valid.placed hi).1 d hi h hres, Nat.zero_and]

/-- A registration that finds a slot, in the table or after the growth. -/
lemma register_ok (t : l.Tracks) {c : Ctx} (hc : l.Fresh c)
    (hgrow : l.store.scan = none → (∀ i < l.store.slotSize, l.store.slot i ≠ none) ∧
      l.store.slotSize * 2 - 1 ≤ handleMask)
    (hok : l.GrowsSettled (.register c)) :
    ∃ s h, skynetHandleRegister (Function.update l.contextHandle c 0) l.store c = .ok (s, h) ∧
      Tracks ⟨s, Function.update l.contextHandle c 0, Function.update l.result c (some h),
        Function.update l.registered c (some h), none⟩ := by
  obtain ⟨s, h, heq, v, hhas, -, -⟩ := t.valid.register
    (Function.update l.contextHandle c 0) (t.not_has hc) fun hscan =>
      ⟨(hgrow hscan).1, (hgrow hscan).2,
        fun d hd => t.field_and hc hd (hok hscan (hgrow hscan).1 (hgrow hscan).2)⟩
  refine ⟨s, h, heq, ?_, ?_, ?_, ?_, ?_, fun h => nomatch h⟩
  · refine v.congr fun d _ => ?_
    by_cases hdc : d = c
    · subst hdc
      simp [given]
    · simp [given, hdc]
  · intro d
    rw [hhas, t.has_iff]
    by_cases hdc : d = c
    · simp [hdc]
    · simp [hdc]
  · intro d g hreg hres
    by_cases hdc : d = c
    · subst hdc
      simp at hres
    · simp only [Function.update_of_ne hdc] at hreg hres ⊢
      exact t.stored hreg hres
  · intro d g hres
    by_cases hdc : d = c
    · simp [hdc]
    · simp only [Function.update_of_ne hdc] at hres ⊢
      exact t.waiting hres
  · intro d g g' hres hreg
    by_cases hdc : d = c
    · subst hdc
      simp only [Function.update_self, Option.some.injEq] at hres hreg
      exact hreg.symm.trans hres
    · simp only [Function.update_of_ne hdc] at hres hreg
      exact t.same hres hreg

lemma register (t : l.Tracks) {c : Ctx} (hok : l.GrowsSettled (.register c))
    (hstep : l.step (.register c) = some l') : l'.Tracks := by
  rw [step] at hstep
  split at hstep
  · cases hstep
  split at hstep
  swap
  · cases hstep
  rename_i hc
  by_cases hgrow : l.store.scan = none → (∀ i < l.store.slotSize, l.store.slot i ≠ none) ∧
      l.store.slotSize * 2 - 1 ≤ handleMask
  · obtain ⟨s, h, heq, t'⟩ := t.register_ok hc hgrow hok
    simp only [heq, Option.some.injEq] at hstep
    exact hstep ▸ t'
  · rw [Classical.not_imp] at hgrow
    -- the call ends the process before the copy, and nothing has changed
    have hfault : ∃ e, skynetHandleRegister (Function.update l.contextHandle c 0) l.store c =
        .error e ∧ e ≠ .newSlotTaken := by
      rw [skynetHandleRegister, registerLoop, hgrow.1]
      rcases t.valid.growSlot_of_not_full (Function.update l.contextHandle c 0) hgrow.1 hgrow.2
        with he | he
      · exact ⟨.slotSizeLimit, by simp only [he], by simp⟩
      · exact ⟨.nullContext, by simp only [he], by simp⟩
    obtain ⟨e, he, hne⟩ := hfault
    simp only [he, Option.some.injEq] at hstep
    subst hstep
    exact ⟨t.valid, t.has_iff, t.stored, t.waiting, t.same, fun h => hne (Option.some.inj h)⟩

lemma store (t : l.Tracks) {c : Ctx} (hstep : l.step (.store c) = some l') : l'.Tracks := by
  rw [step] at hstep
  split at hstep
  · cases hstep
  obtain ⟨h, hres, rfl⟩ := Option.map_eq_some_iff.mp hstep
  refine ⟨t.valid, t.has_iff, ?_, ?_, ?_, t.asserted⟩
  · intro d g hreg hd
    by_cases hdc : d = c
    · subst hdc
      simpa using (t.same hres hreg).symm
    · simp only [Function.update_of_ne hdc] at hd ⊢
      exact t.stored hreg hd
  · intro d g hd
    by_cases hdc : d = c
    · subst hdc
      simp at hd
    · simp only [Function.update_of_ne hdc] at hd ⊢
      exact t.waiting hd
  · intro d g g' hd hreg
    by_cases hdc : d = c
    · subst hdc
      simp at hd
    · simp only [Function.update_of_ne hdc] at hd
      exact t.same hd hreg

lemma retire (t : l.Tracks) {x : ℕ} (hstep : l.step (.retire x) = some l') : l'.Tracks := by
  rw [step] at hstep
  split at hstep
  · cases hstep
  obtain ⟨v, hhas⟩ := t.valid.retire l.contextHandle x
  have hsnd := retire_snd l.contextHandle l.store x
  generalize skynetHandleRetire l.contextHandle l.store x = r at hstep v hhas hsnd
  obtain ⟨s, released⟩ := r
  cases released with
  | none =>
    simp only [Option.some.injEq] at hstep hsnd
    subst hstep
    refine ⟨v, fun c => ?_, t.stored, t.waiting, t.same, t.asserted⟩
    simp only [hhas, t.has_iff, ← hsnd, ne_eq, reduceCtorEq, not_false_eq_true, and_true]
  | some c =>
    simp only [Option.some.injEq] at hstep hsnd
    subst hstep
    have hhas' : ∀ d, s.Has d ↔ l.store.Has d ∧ d ≠ c := by
      intro d
      rw [hhas, ← hsnd, ne_eq, Option.some.injEq, eq_comm]
    refine ⟨v.congr fun d hd => ?_, fun d => ?_, ?_, t.waiting, ?_, t.asserted⟩
    · simp only [given, Function.update_of_ne ((hhas' d).mp hd).2]
    · rw [hhas', t.has_iff]
      by_cases hdc : d = c
      · simp [hdc]
      · simp [hdc]
    · intro d g hreg hres
      by_cases hdc : d = c
      · subst hdc
        simp at hreg
      · simp only [Function.update_of_ne hdc] at hreg
        exact t.stored hreg hres
    · intro d g g' hres hreg
      by_cases hdc : d = c
      · subst hdc
        simp at hreg
      · simp only [Function.update_of_ne hdc] at hreg
        exact t.same hres hreg

/-- What one step preserves. -/
lemma of_step (t : l.Tracks) {a : Action} (hok : l.GrowsSettled a) (hstep : l.step a = some l') :
    l'.Tracks := by
  cases a with
  | register c => exact t.register hok hstep
  | store c => exact t.store hstep
  | retire x => exact t.retire hstep
  | grab x =>
    rw [step] at hstep
    split at hstep
    · cases hstep
    · exact Option.some.inj hstep ▸ t

lemma intact (t : l.Tracks) : l.Intact := by
  have hplaced : ∀ c h, l.registered c = some h →
      ∀ i, l.store.slot i = some c ↔ i = h &&& (l.store.slotSize - 1) := by
    intro c h hreg i
    have hgiven : l.given c = h := by rw [given, hreg, Option.getD_some]
    obtain ⟨j, hj⟩ := (t.has_iff c).mpr (by rw [hreg, Option.isSome_some])
    have hj' := (t.valid.placed hj).2.1
    rw [hgiven] at hj'
    refine ⟨fun hi => ?_, fun hi => ?_⟩
    · rw [hj', t.valid.slot_inj hi hj]
    · rw [hi, hj', hj]
  refine ⟨fun c h hreg hres x => ?_, hplaced, t.asserted⟩
  rw [grab_eq_some, t.stored hreg hres]
  constructor
  · rintro ⟨-, rfl⟩
    rfl
  · rintro rfl
    exact ⟨(hplaced c x hreg _).mpr rfl, rfl⟩

end Launches.Tracks

/-- **Concurrent launches keep the store intact**, over every interleaving of registrations,
handle stores, retires and grabs in which no growth copies a context that still waits for a
handle of another slot than 0. -/
theorem launches_intact (harbor : ℤ) (as : List Action) (l : Launches)
    (hok : Guarded Launches.step Launches.GrowsSettled (Launches.init harbor) as)
    (hrun : run Launches.step (Launches.init harbor) as = some l) : l.Intact :=
  (run_invariant (fun _ _ _ t hok hstep => t.of_step hok hstep)
    (Launches.Tracks.init harbor) hok hrun).intact

/-- Five launches, two of them at the same time, with a growth between. -/
theorem launches_intact_five :
    ∃ l, run Launches.step (Launches.init 1)
        [.register 1, .register 2, .store 2, .store 1, .register 3, .store 3, .register 4,
          .store 4, .register 5, .retire 0x1000002, .register 6, .store 5] = some l ∧
      l.Intact := by
  obtain ⟨l, hl⟩ : ∃ l, run Launches.step (Launches.init 1)
      [.register 1, .register 2, .store 2, .store 1, .register 3, .store 3, .register 4,
        .store 4, .register 5, .retire 0x1000002, .register 6, .store 5] = some l := ⟨_, rfl⟩
  exact ⟨l, hl, launches_intact 1 _ l (by decide) hl⟩

/-- The first launch has not stored its handle when the fifth grows the table: its context is
moved to slot 0, and a grab of its handle does not find it any more. -/
theorem growth_between_register_and_store :
    ∃ l, run Launches.step (Launches.init 1)
        [.register 1, .register 2, .store 2, .register 3, .store 3, .register 4, .store 4,
          .register 5, .store 5, .store 1] = some l ∧
      l.registered 1 = some 0x1000001 ∧ l.result 1 = none ∧
      skynetHandleGrab l.contextHandle l.store 0x1000001 = none ∧ ¬ l.Intact := by
  refine ⟨_, rfl, rfl, rfl, rfl, fun h => ?_⟩
  have := (h.found 1 0x1000001 rfl rfl 0x1000001).mpr rfl
  cases this

end SkynetEureka.HandleStore
