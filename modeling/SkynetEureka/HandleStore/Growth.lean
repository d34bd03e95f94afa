import SkynetEureka.HandleStore.Registry

/-!
# Growth of the handle table over long runs

`handle_index` runs past the table and wraps from `HANDLE_MASK` to 1. The scan that crosses the
wrap skips residue 0, so that slot 0 may be overlooked; the growth code then meets an empty slot.
Here any run is allowed whose new contexts are new; `growth_full_iff` says exactly when the
growth code meets a full table, and `churn` leads to a state where it does not.
-/

namespace SkynetEureka.HandleStore

open Lib

/-- A registered context is not in the table yet. -/
def Node.NewContext (n : Node) : Op → Prop
  | .register c => ∀ i < n.store.slotSize, n.store.slot i ≠ some c
  | _ => True

instance (n : Node) : (op : Op) → Decidable (n.NewContext op)
  | .register c => inferInstanceAs (Decidable (∀ i < n.store.slotSize, n.store.slot i ≠ some c))
  | .retire _ | .grab _ | .retireall => inferInstanceAs (Decidable True)

/-- The growth code, if a registration of `c` enters it, meets a full table: the scan has
overlooked no free slot, `skynet_context_handle` gets no null pointer and the `assert` on
`new_slot` holds. -/
def Node.GrowsFull (n : Node) (c : Ctx) : Prop :=
  n.store.scan = none →
    (∀ i < n.store.slotSize, n.store.slot i ≠ none) ∧
      growSlot (Function.update n.contextHandle c 0) n.store ≠ .error .nullContext ∧
      growSlot (Function.update n.contextHandle c 0) n.store ≠ .error .newSlotTaken

/-- Slot 0 is the only free slot, and the scan has to wrap on its way through the table (or the
table has its maximal size, where no handle belongs to slot 0). -/
def HandleStorage.SkipsZero (s : HandleStorage) : Prop :=
  s.slot 0 = none ∧ (∀ i < s.slotSize, 1 ≤ i → s.slot i ≠ none) ∧
    handleMask + 1 < s.handleIndex + s.slotSize ∧
      (s.handleIndex ≤ handleMask ∨ s.slotSize = handleMask + 1)

/-- Every call that returns keeps the invariant, whatever the limits. -/
lemma Node.Represents.of_step {harbor : ℤ} {n n' : Node} (r : n.Represents harbor) {op : Op}
    (hnew : n.NewContext op) (hstep : n.step op = some n') : n'.Represents harbor := by
  have hsome : ∀ {m : Node}, n.step op = some m → m.Represents harbor → n'.Represents harbor :=
    fun hm rm => Option.some.inj (hm.symm.trans hstep) ▸ rm
  cases op with
  | register c =>
    have hc := r.valid.not_has hnew
    cases heq : skynetHandleRegister (Function.update n.contextHandle c 0) n.store c with
    | error e =>
      simp only [Node.step, heq] at hstep
      cases hstep
    | ok sh =>
      obtain ⟨m, hm, rm⟩ := r.register hc (of_register_ok heq)
      exact hsome hm rm
  | retire h =>
    obtain ⟨m, hm, rm⟩ := r.retire h
    exact hsome hm rm
  | grab h => exact hsome rfl r
  | retireall =>
    obtain ⟨m, hm, rm⟩ := r.retireall
    exact hsome hm rm

/-- Every state that a run of calls reaches keeps the invariant. -/
lemma represents_of_run {harbor : ℤ} {n : Node} {ops : List Op}
    (hnew : Guarded Node.step Node.NewContext (Node.init harbor) ops)
    (hrun : run Node.step (Node.init harbor) ops = some n) : n.Represents harbor :=
  run_invariant (fun _ _ _ r hnew hstep => r.of_step hnew hstep) Node.Represents.init hnew hrun

/-- The scan tries no handle of residue 0 when it wraps in the middle. -/
lemma Valid.scan_eq_none_of_skipsZero {handle : Ctx → ℕ} {s : HandleStorage} (v : Valid handle s)
    (h : s.SkipsZero) : s.scan = none := by
  obtain ⟨-, htaken, hwrap, hidx⟩ := h
  by_contra hne
  obtain ⟨r, hr⟩ := Option.ne_none_iff_exists'.mp hne
  obtain ⟨hfree, hpos, hle, htried⟩ := scanSlot_some hr v.index_pos v.index_le
  have h4 := v.four_le
  have hzero : r &&& (s.slotSize - 1) = 0 := by
    by_contra hne
    exact htaken _ (v.and_lt r) (by omega) hfree
  rw [v.and_eq_mod] at hzero
  obtain ⟨a, ha⟩ := Nat.dvd_of_mod_eq_zero hzero
  obtain ⟨q, hq⟩ := v.size_dvd
  have hindex := v.index_le
  -- a multiple of `size` is at least one block below the wrap, and at least one above it
  have hblock : r + s.slotSize ≤ handleMask + 1 := by
    have haq : a < q := by
      by_contra hge
      have := Nat.mul_le_mul_left s.slotSize (Nat.le_of_not_lt hge)
      omega
    have := Nat.mul_le_mul_left s.slotSize (Nat.succ_le_of_lt haq)
    rw [Nat.mul_succ] at this
    omega
  have hone : s.slotSize ≤ r := by
    have ha1 : 1 ≤ a := Nat.pos_of_ne_zero fun h0 => by
      rw [h0, Nat.mul_zero] at ha
      omega
    have := Nat.mul_le_mul_left s.slotSize ha1
    omega
  omega

/-- A scan that finds nothing although a slot is free has skipped slot 0. -/
lemma Valid.full_of_not_skipsZero {handle : Ctx → ℕ} {s : HandleStorage} (v : Valid handle s)
    (h : ¬ s.SkipsZero) (hscan : s.scan = none) : ∀ i < s.slotSize, s.slot i ≠ none := by
  have htaken : ∀ i < s.slotSize, 1 ≤ i → s.slot i ≠ none :=
    fun i hi hpos => v.taken_of_scan_none hscan hi hpos
  intro i hi
  rcases Nat.eq_zero_or_pos i with rfl | hpos
  · intro hzero
    have hlimits : ¬ (handleMask + 1 < s.handleIndex + s.slotSize ∧
        (s.handleIndex ≤ handleMask ∨ s.slotSize = handleMask + 1)) :=
      fun hl => h ⟨hzero, htaken, hl⟩
    have hindex := v.index_le
    have hpos := v.index_pos
    have hsize := v.size_le
    have hmask : handleMask + 1 = 2 ^ 24 := by decide
    exact v.taken_zero_of_scan_none hscan (by omega) (by omega) hzero
  · exact htaken i hi hpos

/-- **Growth meets a full table.** In every state that a run of launches and retires reaches, the
growth code meets a full table, with no null pointer and no occupied target, if and only if the
scan does not skip slot 0 as the only free one. -/
theorem growth_full_iff (harbor : ℤ) (ops : List Op) (n : Node)
    (hnew : Guarded Node.step Node.NewContext (Node.init harbor) ops)
    (hrun : run Node.step (Node.init harbor) ops = some n) (c : Ctx)
    (hc : n.NewContext (.register c)) : n.GrowsFull c ↔ ¬ n.store.SkipsZero := by
  have r := represents_of_run hnew hrun
  constructor
  · intro hfull hskip
    have hscan := r.valid.scan_eq_none_of_skipsZero hskip
    exact (hfull hscan).1 0 (by have := r.valid.four_le; omega) hskip.1
  · intro hskip hscan
    have hfull := r.valid.full_of_not_skipsZero hskip hscan
    refine ⟨hfull, ?_⟩
    by_cases hmax : n.store.slotSize * 2 - 1 ≤ handleMask
    · obtain ⟨s', hs', -⟩ := r.valid.growSlot (Function.update n.contextHandle c 0)
        hfull hmax (fun d hd => by rw [Node.Represents.field_eq (r.valid.not_has hc) hd])
      rw [hs']
      exact ⟨by simp, by simp⟩
    · rw [growSlot, if_pos (by omega)]
      exact ⟨by simp, by simp⟩

/-- The growth code meets the table of four that four launches have filled. -/
theorem growth_full_iff_four :
    ∃ n, run Node.step (Node.init 1)
        [.register 10, .register 20, .register 30, .register 40] = some n ∧ n.GrowsFull 50 := by
  obtain ⟨n, hn⟩ : ∃ n, run Node.step (Node.init 1)
    [.register 10, .register 20, .register 30, .register 40] = some n := ⟨_, rfl⟩
  refine ⟨n, hn, (growth_full_iff 1 _ n (by decide) hn 50 ?_).mpr ?_⟩
  · cases hn
    exact of_decide_eq_true rfl
  · cases hn
    rintro ⟨h0, -⟩
    cases h0

/-! ## A long run to the wrap -/

/-- A registration whose scan finds a slot. -/
lemma register_of_scan {contextHandle : Ctx → ℕ} {s : HandleStorage} {c : Ctx} {low : ℕ}
    (h : s.scan = some low) :
    skynetHandleRegister contextHandle s c = .ok (s.put c low, low ||| s.harbor) := by
  rw [skynetHandleRegister, registerLoop, h]

/-- A run of calls, each new context being new, leads from one store to another. -/
def Reaches (s : HandleStorage) (f : Ctx → ℕ) (ops : List Op) (t : HandleStorage) (g : Ctx → ℕ) :
    Prop :=
  ∀ log, ∃ log', run Node.step ⟨s, f, log⟩ ops = some ⟨t, g, log'⟩ ∧
    Guarded Node.step Node.NewContext ⟨s, f, log⟩ ops

namespace Reaches

variable {s t u : HandleStorage} {f g k : Ctx → ℕ} {ops ops' : List Op}

lemma nil : Reaches s f [] s f := fun log => ⟨log, rfl, trivial⟩

lemma append (h : Reaches s f ops t g) (h' : Reaches t g ops' u k) :
    Reaches s f (ops ++ ops') u k := by
  intro log
  obtain ⟨log', hrun, hnew⟩ := h log
  obtain ⟨log'', hrun', hnew'⟩ := h' log'
  refine ⟨log'', by rw [run_append_of_eq_some hrun, hrun'], guarded_append.mpr ⟨hnew, ?_⟩⟩
  intro n hn
  obtain rfl := Option.some.inj (hrun.symm.trans hn)
  exact hnew'

lemma register {c : Ctx} {low : ℕ} (s' : HandleStorage) (hscan : s.scan = some low)
    (hnew : ∀ i < s.slotSize, s.slot i ≠ some c) (hput : s.put c low = s')
    (h : Reaches s' (Function.update f c (low ||| s.harbor)) ops t g) :
    Reaches s f (.register c :: ops) t g := by
  intro log
  obtain ⟨log', hrun, hnew'⟩ := h (.registered c (low ||| s.harbor) :: log)
  have hstep : Node.step ⟨s, f, log⟩ (.register c) = some ⟨s',
      Function.update f c (low ||| s.harbor), .registered c (low ||| s.harbor) :: log⟩ := by
    simp only [Node.step, register_of_scan hscan, hput]
  exact ⟨log', by rw [run_cons_of_eq_some hstep, hrun],
    (guarded_cons_of_eq_some hstep).mpr ⟨hnew, hnew'⟩⟩

lemma retire {x : ℕ} {s' : HandleStorage} (hret : (skynetHandleRetire f s x).1 = s')
    (h : Reaches s' f ops t g) : Reaches s f (.retire x :: ops) t g := by
  intro log
  obtain ⟨log', hrun, hnew'⟩ := h (.retired x :: log)
  have hstep : Node.step ⟨s, f, log⟩ (.retire x) = some ⟨s', f, .retired x :: log⟩ := by
    simp only [Node.step, hret]
  exact ⟨log', by rw [run_cons_of_eq_some hstep, hrun],
    (guarded_cons_of_eq_some hstep).mpr ⟨trivial, hnew'⟩⟩

end Reaches

/-- Launch and retire one service `k` times, the handles being 1 to `k` under harbor 1. -/
def churn : ℕ → List Op
  | 0 => []
  | k + 1 => churn k ++ [.register 10, .retire ((k + 1) ||| 1 <<< handleRemoteShift)]

/-- The store after `k` rounds of `churn`: empty again, with the index moved on. -/
def churned (k : ℕ) : HandleStorage := { skynetHandleInit 1 with handleIndex := k + 1 }

/-- One round of `churn`. -/
lemma churn_round {k : ℕ} (hk : k < handleMask) (f : Ctx → ℕ) :
    ∃ g, Reaches (churned k) f [.register 10, .retire ((k + 1) ||| 1 <<< handleRemoteShift)]
      (churned (k + 1)) g := by
  have hscan : (churned k).scan = some (k + 1) := by
    rw [HandleStorage.scan]
    simp [churned, skynetHandleInit, defaultSlotSize, scanSlot,
      Nat.not_lt.mpr (Nat.succ_le_of_lt hk)]
  have hidx : ((k + 1) ||| 1 <<< handleRemoteShift) &&&
      (((churned k).put 10 (k + 1)).slotSize - 1) = (k + 1) &&& ((churned k).slotSize - 1) :=
    or_harbor_and_size (k := 2) hk (by decide)
  have hslots : Function.update ((churned k).put 10 (k + 1)).slot
      ((k + 1) &&& ((churned k).slotSize - 1)) none = fun _ => none := by
    rw [HandleStorage.put, Function.update_idem]
    exact Function.update_eq_self (f := fun _ => none) _
  refine ⟨_, .register _ hscan (fun i _ => (Option.some_ne_none 10).symm) rfl
    (.retire ?_ .nil)⟩
  have hgrab : skynetHandleGrab
      (Function.update f 10 ((k + 1) ||| (churned k).harbor)) ((churned k).put 10 (k + 1))
      ((k + 1) ||| 1 <<< handleRemoteShift) = some 10 := by
    refine grab_eq_some.mpr ⟨?_, Function.update_self ..⟩
    rw [hidx]
    exact Function.update_self ..
  rw [retire_of_grab_some hgrab, hidx, hslots]
  rfl

lemma churn_spec (f : Ctx → ℕ) :
    ∀ k ≤ handleMask, ∃ g, Reaches (skynetHandleInit 1) f (churn k) (churned k) g
  | 0, _ => ⟨f, .nil⟩
  | k + 1, hk => by
    obtain ⟨g, hg⟩ := churn_spec f k (by omega)
    obtain ⟨g', hg'⟩ := churn_round (by omega : k < handleMask) g
    exact ⟨g', hg.append hg'⟩

/-- The four launches and the retire that leave slot 0 free with the index on `HANDLE_MASK`. -/
def lastOps : List Op :=
  [.register 1, .register 2, .register 3, .register 4, .retire 0x1fffffc]

/-- The number of rounds after which `lastOps` brings the index to `HANDLE_MASK`. -/
@[irreducible] def rounds : ℕ := 0xfffffa

/-- The stores on the way through the launches of `lastOps`. -/
def oneStore : HandleStorage := (churned rounds).put 1 0xfffffb
def twoStore : HandleStorage := oneStore.put 2 0xfffffc
def threeStore : HandleStorage := twoStore.put 3 0xfffffd
def fourStore : HandleStorage := threeStore.put 4 0xfffffe

/-- The store after `churn` and `lastOps`. -/
def lastStore : HandleStorage := { fourStore with slot := Function.update fourStore.slot 0 none }

lemma lastOps_spec (f : Ctx → ℕ) : ∃ g, Reaches (churned rounds) f lastOps lastStore g := by
  have h1 : (churned rounds).scan = some 0xfffffb := by decide +kernel
  have h2 : oneStore.scan = some 0xfffffc := by decide +kernel
  have h3 : twoStore.scan = some 0xfffffd := by decide +kernel
  have h4 : threeStore.scan = some 0xfffffe := by decide +kernel
  have hslot : fourStore.slot (0x1fffffc &&& (fourStore.slotSize - 1)) = some 2 := by
    decide +kernel
  have hhash : 0x1fffffc &&& (fourStore.slotSize - 1) = 0 := by decide +kernel
  have hlow : 0xfffffc ||| oneStore.harbor = 0x1fffffc := by decide +kernel
  refine ⟨_, .register oneStore h1 (by decide +kernel) rfl
    (.register twoStore h2 (by decide +kernel) rfl
    (.register threeStore h3 (by decide +kernel) rfl
    (.register fourStore h4 (by decide +kernel) rfl (.retire ?_ .nil))))⟩
  rw [retire_of_grab_some (grab_eq_some.mpr ⟨hslot, ?_⟩), hhash]
  · rfl
  · rw [Function.update_of_ne (by decide), Function.update_of_ne (by decide),
      Function.update_self, hlow]

/-- After 0xfffffa launches and retires and the calls of `lastOps`, launching one more service
takes the null pointer of slot 0 for a context. -/
theorem growth_meets_empty_slot :
    ∃ ops n, Guarded Node.step Node.NewContext (Node.init 1) ops ∧
      run Node.step (Node.init 1) ops = some n ∧ n.NewContext (.register 5) ∧
      ¬ n.GrowsFull 5 ∧
      skynetHandleRegister (Function.update n.contextHandle 5 0) n.store 5 =
        .error .nullContext := by
  obtain ⟨f, hchurn⟩ := churn_spec (fun _ => 0) rounds (by decide +kernel)
  obtain ⟨g, hlast⟩ := lastOps_spec f
  obtain ⟨log, hrun, hnew⟩ := hchurn.append hlast []
  have hscan : lastStore.scan = none := by decide +kernel
  have hzero : lastStore.slot 0 = none := by decide +kernel
  refine ⟨churn rounds ++ lastOps, ⟨lastStore, g, log⟩, hnew, hrun, ?_, ?_, ?_⟩
  · exact (by decide +kernel : ∀ i < lastStore.slotSize, lastStore.slot i ≠ some 5)
  · intro hfull
    exact (hfull hscan).1 0 (by decide +kernel : 0 < lastStore.slotSize) hzero
  · rw [skynetHandleRegister, registerLoop, hscan]
    rfl

end SkynetEureka.HandleStore
