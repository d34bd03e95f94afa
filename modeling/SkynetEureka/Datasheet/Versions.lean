import SkynetEureka.Lib.Lists
import SkynetEureka.Datasheet.Chain
import SkynetEureka.Datasheet.Service

/-!
# What holds in every run

The situations of the builder and of a customer, and the invariant that they are part of.
-/

namespace SkynetEureka.Datasheet

open Lib Function

/-! ## The builder -/

def Request.isCollect : Request → Bool
  | .collect _ => true
  | _ => false

def Answer.isUpdated : Answer → Bool
  | .updated .. => true
  | .collected _ => false

namespace Builder

/-- The requests that are not about collecting -/
def core (b : Builder) : List Request := b.sent.filter fun r => !r.isCollect

def news (b : Builder) : List Answer := b.answers.filter Answer.isUpdated

/-- How often the version `w` is still to be collected -/
def pending (b : Builder) (w : ℕ) : ℕ :=
  b.forks.count w + b.sent.count (.collect w) + b.answers.count (.updated w true)

/-- Where a builder is that makes one version after the other: the latest version of the service, and
the oldest one that the builder has not given back. -/
inductive At (b : Builder) : Option ℕ → Option ℕ → Prop
  | fresh (hcalls : b.calls = []) (hdataset : b.dataset = none) (hnext : b.next = 0)
    (hcore : b.core = []) (hnews : b.news = []) : At b none none
  | creating (hcalls : b.calls = [(none, 0)]) (hdataset : b.dataset = none) (hnext : b.next = 1)
    (hcore : b.core = [.update 0]) (hnews : b.news = []) : At b none none
  | created (hcalls : b.calls = [(none, 0)]) (hdataset : b.dataset = none) (hnext : b.next = 1)
    (hcore : b.core = []) (hnews : b.news = [.updated 0 true]) : At b (some 0) (some 0)
  | ready (L : ℕ) (hcalls : b.calls = []) (hdataset : b.dataset = some L) (hnext : b.next = L + 1)
    (hcore : b.core = []) (hnews : b.news = []) : At b (some L) (some L)
  | releasing (L : ℕ) (hcalls : b.calls = []) (hdataset : b.dataset = some (L + 1))
    (hnext : b.next = L + 2) (hcore : b.core = [.release L]) (hnews : b.news = []) :
    At b (some (L + 1)) (some L)
  | updating (L : ℕ) (hcalls : b.calls = [(some L, L + 1)]) (hdataset : b.dataset = some L)
    (hnext : b.next = L + 2) (hcore : b.core = [.update (L + 1)]) (hnews : b.news = []) :
    At b (some L) (some L)
  | both (L : ℕ) (hcalls : b.calls = [(some (L + 1), L + 2)]) (hdataset : b.dataset = some (L + 1))
    (hnext : b.next = L + 3) (hcore : b.core = [.release L, .update (L + 2)]) (hnews : b.news = []) :
    At b (some (L + 1)) (some L)
  | updated (L : ℕ) (hcalls : b.calls = [(some L, L + 1)]) (hdataset : b.dataset = some L)
    (hnext : b.next = L + 2) (hcore : b.core = []) (hnews : b.news = [.updated (L + 1) true]) :
    At b (some (L + 1)) (some L)

end Builder

/-! ## A customer -/

def Phase.handle : Phase → Option ℕ
  | .started v | .monitoring v | .stopped v => some v
  | .querying | .failed => none

namespace Customer

/-- The oldest version that a customer has not given back -/
def rest (c : Customer) : Option ℕ :=
  match c.sent with
  | .release v :: _ => some v
  | _ => c.phase.handle <|> c.answers.head?.join

/-- The latest version that the customer has been handed -/
def handed (c : Customer) : Option ℕ := c.answers.getLast?.join <|> c.phase.handle

/-- The situations of a customer -/
inductive Ok (c : Customer) (waiting : Prop) : Prop
  | asking (hphase : c.phase = .querying) (hsent : c.sent = [.query]) (hanswers : c.answers = [])
    (hwaiting : ¬waiting)
  | answered (v : ℕ) (hphase : c.phase = .querying) (hsent : c.sent = [])
    (hanswers : c.answers = [some v]) (hwaiting : ¬waiting)
  | refused (hphase : c.phase = .querying) (hsent : c.sent = []) (hanswers : c.answers = [none])
    (hwaiting : ¬waiting)
  | failed (hphase : c.phase = .failed) (hsent : c.sent = []) (hanswers : c.answers = [])
    (hwaiting : ¬waiting)
  | started (v : ℕ) (hphase : c.phase = .started v) (hsent : c.sent = []) (hanswers : c.answers = [])
    (hwaiting : ¬waiting)
  | calling (v : ℕ) (hphase : c.phase = .monitoring v) (hsent : c.sent = [.monitor v])
    (hanswers : c.answers = []) (hwaiting : ¬waiting)
  | releasing (v : ℕ) (hphase : c.phase = .monitoring (v + 1))
    (hsent : c.sent = [.release v, .monitor (v + 1)]) (hanswers : c.answers = [])
    (hwaiting : ¬waiting)
  | waiting (v : ℕ) (hphase : c.phase = .monitoring v) (hsent : c.sent = []) (hanswers : c.answers = [])
    (hwaiting : waiting)
  | told (v : ℕ) (hphase : c.phase = .monitoring v) (hsent : c.sent = [])
    (hanswers : c.answers = [some (v + 1)]) (hwaiting : ¬waiting)

/-- The customer uses a version, or has it on the way. -/
def Uses (c : Customer) (w : ℕ) : Prop := c.phase.handle = some w ∨ some w ∈ c.answers

end Customer

/-! ## The invariant -/

/-- All that have not given back a version, the builder (`rest`) and the customers -/
def Sheet.rests (s : Sheet) (rest : Option ℕ) : List ℕ :=
  rest.toList ++ s.customers.filterMap Customer.rest

/-- The reference counts -/
def refs (handles : ℕ → Option Handle) (w : ℕ) : Option ℤ := (handles w).map Handle.ref

/-- The handles of the service: each is collected once, and the builder knows it until then. -/
structure Collecting (s : Sheet) : Prop where
  pending : ∀ w, s.builder.pending w = ((s.handles w).any fun h => !h.collect).toNat
  kept : ∀ w h, s.handles w = some h → h.collect = true → h.ref ≠ 0
  collected : ∀ w, w ∈ s.collected ↔ ∃ L ∈ s.handle, w ≤ L ∧ s.handles w = none
  cache : ∀ d ∈ s.builder.dataset, ∀ w ≤ d, s.handles w ≠ none → w ∈ s.builder.cache
  answered : ∀ w, .collected w ∈ s.builder.answers → w ∈ s.collected

/-- What the version `v` that a customer `k` has been handed is to the latest one -/
def Sheet.Near (s : Sheet) (k v : ℕ) : Prop :=
  ∃ L ∈ s.handle, v ≤ L ∧ L ≤ v + 1 ∧ (k ∈ s.monitors → v = L)

/-- The customers pass from each version to the next one. -/
structure Following (s : Sheet) : Prop where
  ok : ∀ (k : ℕ) (c : Customer), s.customers[k]? = some c → c.Ok (k ∈ s.monitors)
  handed : ∀ (k : ℕ) (c : Customer), s.customers[k]? = some c → ∀ v ∈ c.handed, s.Near k v
  monitors : ∀ k ∈ s.monitors, k < s.customers.length

theorem Following.of_eq {s s' : Sheet} (hs : Following s) (hhandle : s'.handle = s.handle)
    (hmonitors : s'.monitors = s.monitors) (hcustomers : s'.customers = s.customers) :
    Following s' := by
  refine ⟨?_, ?_, ?_⟩
  · rw [hcustomers, hmonitors]
    exact hs.ok
  · unfold Sheet.Near
    rw [hcustomers, hmonitors, hhandle]
    exact hs.handed
  · rw [hcustomers, hmonitors]
    exact hs.monitors

structure Inv (s : Sheet) (rest : Option ℕ) : Prop where
  builder : s.builder.At s.handle rest
  counted : Counted s.handle (s.rests rest) (refs s.handles)
  collecting : Collecting s
  following : Following s

/-- No call of the builder is waiting when the next one is made. -/
def Alone (s : Sheet) : Action → Prop
  | .new | .update => s.builder.calls = []
  | _ => True

/-- No customer skips a version: all have been handed the latest one when the next one comes. -/
def Passed (s : Sheet) : Action → Prop
  | .serveBuilder =>
    match s.builder.sent with
    | .update _ :: _ => ∀ c ∈ s.customers, ∀ w ∈ c.handed, s.handle = some w
    | _ => True
  | _ => True

instance (s : Sheet) : (a : Action) → Decidable (Alone s a)
  | .new | .update => inferInstanceAs (Decidable (s.builder.calls = []))
  | .fork _ | .serveBuilder | .built | .query | .start _ | .serve _ | .resume _ =>
    inferInstanceAs (Decidable True)

instance (s : Sheet) : (a : Action) → Decidable (Passed s a)
  | .serveBuilder =>
    match h : s.builder.sent with
    | .update _ :: _ =>
      decidable_of_iff (∀ c ∈ s.customers, ∀ w ∈ c.handed, s.handle = some w)
        (by unfold Passed; rw [h])
    | [] | .query :: _ | .monitor _ :: _ | .release _ :: _ | .collect _ :: _ =>
      isTrue (by unfold Passed; rw [h]; trivial)
  | .new | .update | .fork _ | .built | .query | .start _ | .serve _ | .resume _ =>
    inferInstanceAs (Decidable True)

section Invariant

variable {s : Sheet} {rest : Option ℕ} {w L r : ℕ} {handles : ℕ → Option Handle}

theorem inv_init : Inv .init none := by
  refine ⟨.fresh rfl rfl rfl rfl rfl, ⟨nofun, nofun, fun _ _ => rfl, nofun⟩,
    ⟨fun _ => rfl, nofun, fun w => ?_, nofun, nofun⟩, ⟨nofun, nofun, nofun⟩⟩
  constructor
  · intro hw
    cases hw
  · rintro ⟨L, hL, -⟩
    cases hL

theorem refs_update {o : Option Handle} :
    refs (update handles w o) = update (refs handles) w (o.map Handle.ref) := by
  funext w'
  unfold refs
  by_cases heq : w' = w
  · subst heq
    rw [update_self, update_self]
  · rw [update_of_ne heq, update_of_ne heq]

/-- A version that somebody has not given back is there. -/
theorem Inv.alive (hs : Inv s rest) (hL : s.handle = some L) (hr : r ∈ s.rests rest) (hle : r ≤ w)
    (hw : w ≤ L) : ∃ h, s.handles w = some h ∧ 0 < h.ref := by
  have hcounted := hs.counted
  rw [hL] at hcounted
  obtain ⟨n, hn, hpos, -⟩ := hcounted.alive hr hle hw
  obtain ⟨h, hh, rfl⟩ := Option.map_eq_some_iff.mp hn
  exact ⟨h, hh, hpos⟩

/-- The latest version is there, with the reference of the builder. -/
theorem Inv.latest (hs : Inv s rest) (hL : s.handle = some L) :
    ∃ h, s.handles L = some h ∧ 0 < h.ref := by
  have hbuilder := hs.builder
  rw [hL] at hbuilder
  have hrest : ∃ r, rest = some r ∧ r ≤ L := by
    cases hbuilder with
    | created => exact ⟨0, rfl, le_rfl⟩
    | ready => exact ⟨L, rfl, le_rfl⟩
    | updating => exact ⟨L, rfl, le_rfl⟩
    | releasing L => exact ⟨L, rfl, Nat.le_succ L⟩
    | both L => exact ⟨L, rfl, Nat.le_succ L⟩
    | updated L => exact ⟨L, rfl, Nat.le_succ L⟩
  obtain ⟨r, rfl, hle⟩ := hrest
  exact hs.alive hL (List.mem_append_left _ List.mem_cons_self) hle le_rfl

/-! ### The handles -/

/-- What `Collecting` needs of the builder -/
theorem Collecting.build (hs : Collecting s) {b : Builder}
    (hpending : ∀ w, b.pending w = s.builder.pending w)
    (hcache : ∀ d ∈ b.dataset, ∀ w ≤ d, s.handles w ≠ none → w ∈ b.cache)
    (hanswers : ∀ w, .collected w ∈ b.answers → .collected w ∈ s.builder.answers) :
    Collecting { s with builder := b } :=
  ⟨fun w => (hpending w).trans (hs.pending w), hs.kept, hs.collected, hcache,
    fun w hw => hs.answered w (hanswers w hw)⟩

end Invariant

end SkynetEureka.Datasheet
