import SkynetEureka.Datasheet.Customers

/-!
# How long a version lives

A version is collected when nobody uses it any more, and is collected then, as long as the calls of
the builder do not overlap and no customer skips a version. Without that, a version may be collected
under a customer, or never.
-/

namespace SkynetEureka.Datasheet

open Lib Function

namespace Sheet

/-- No message is in flight, and nobody is about to send one. -/
structure Quiet (s : Sheet) : Prop where
  sent : s.builder.sent = []
  answers : s.builder.answers = []
  forks : s.builder.forks = []
  customers : ∀ c ∈ s.customers, c.sent = [] ∧ c.answers = []

/-- Every customer is on the latest version. -/
def OnLatest (s : Sheet) : Prop := ∀ c ∈ s.customers, ∀ v ∈ c.phase.handle, s.handle = some v

/-- A version lives as long as it is used, and no longer. -/
structure Lives (s : Sheet) : Prop where
  used : ∀ w ∈ s.collected, ∀ c ∈ s.customers, ¬c.Uses w
  superseded : s.Quiet → s.OnLatest → ∀ L ∈ s.handle, ∀ w < L, s.handles w = none ∧ w ∈ s.collected

end Sheet

variable {s s' : Sheet} {rest : Option ℕ} {c : Customer} {w L : ℕ} {waiting : Prop} {a : Action}

/-- **A step of one name.** -/
theorem Inv.step (hs : Inv s rest) (halone : Alone s a) (hpassed : Passed s a)
    (hstep : s.step a = some s') : ∃ rest', Inv s' rest' := by
  cases a with
  | new =>
    obtain ⟨hnone, heq⟩ := Option.ite_none_right_eq_some.mp hstep
    cases heq
    exact ⟨rest, hs.make_none halone hnone⟩
  | update =>
    obtain ⟨last, hlast, heq⟩ := Option.bind_eq_some_iff.mp hstep
    cases heq
    exact ⟨rest, hs.make_some halone hlast⟩
  | fork v =>
    obtain ⟨hfork, heq⟩ := Option.ite_none_right_eq_some.mp hstep
    cases heq
    exact ⟨rest, hs.fork hfork⟩
  | serveBuilder =>
    unfold Sheet.step at hstep
    cases hsent : s.builder.sent with
    | nil =>
      simp [hsent] at hstep
    | cons request requests =>
      simp only [hsent, Option.some.injEq] at hstep
      subst hstep
      exact hs.serveBuilder hsent hpassed
  | built =>
    unfold Sheet.step at hstep
    cases hanswers : s.builder.answers with
    | nil => simp [hanswers] at hstep
    | cons answer answers =>
      simp only [hanswers, Option.some.injEq] at hstep
      subst hstep
      cases answer with
      | updated v ok => exact ⟨rest, hs.built_updated hanswers⟩
      | collected v => exact ⟨rest, hs.built_collected hanswers⟩
  | query =>
    cases hstep
    exact ⟨rest, hs.query⟩
  | start k =>
    obtain ⟨c, hc, heq⟩ := Option.bind_eq_some_iff.mp hstep
    split at heq
    · rename_i v hphase
      cases heq
      exact ⟨rest, hs.start hc hphase⟩
    · cases heq
  | serve k =>
    obtain ⟨c, hc, heq⟩ := Option.bind_eq_some_iff.mp hstep
    split at heq
    · cases heq
    · rename_i request requests hsent
      cases heq
      exact ⟨rest, hs.serve hc hsent⟩
  | resume k =>
    obtain ⟨c, hc, heq⟩ := Option.bind_eq_some_iff.mp hstep
    split at heq
    · cases heq
    · rename_i handle answers hanswers
      cases heq
      exact ⟨rest, hs.resume hc hanswers⟩

/-! ## Runs -/

/-- The state before anything is made -/
def State.init : State := fun _ => .init

section OneName

variable {s : State} {sheet : Sheet} {name : ℕ} {acts : List Action} {ok : Sheet → Action → Prop}

end OneName

/-- The first version is made and is to be collected, and a customer has queried it. -/
def first : List Action :=
  [.new, .serveBuilder, .built, .fork 0, .serveBuilder, .query, .serve 0, .resume 0]

/-- The customer waits for the next version, and goes over to it. -/
def following : List Action :=
  [.start 0, .serve 0, .update, .serveBuilder, .built, .serveBuilder, .resume 0, .serve 0, .serve 0]

/-- Two updates before the customer monitors its version: it goes over to the last one. -/
def skipping : List Action :=
  [.update, .serveBuilder, .built, .serveBuilder, .update, .serveBuilder, .built, .serveBuilder,
    .fork 1, .serveBuilder, .fork 2, .serveBuilder, .start 0, .serve 0, .resume 0, .serve 0, .serve 0,
    .built]

/-- **A version that a customer has skipped is never collected**: nothing is left to do. -/
theorem version_kept : ∃ sheet, run Sheet.step .init (first ++ skipping) = some sheet ∧
    sheet.Quiet ∧ sheet.OnLatest ∧ sheet.handle = some 2 ∧ sheet.handles 1 = some ⟨1, true⟩ := by
  obtain ⟨sheet, hrun, hsent, hanswers, hforks, hcustomers, hhandle, hkept⟩ : ∃ sheet,
      run Sheet.step .init (first ++ skipping) = some sheet ∧ sheet.builder.sent = [] ∧
        sheet.builder.answers = [] ∧ sheet.builder.forks = [] ∧
          sheet.customers = [⟨.monitoring 2, [], []⟩] ∧ sheet.handle = some 2 ∧
            sheet.handles 1 = some ⟨1, true⟩ := ⟨_, rfl, rfl, rfl, rfl, rfl, rfl, rfl⟩
  refine ⟨sheet, hrun, ⟨hsent, hanswers, hforks, fun c hc => ?_⟩, fun c hc v hv => ?_, hhandle, hkept⟩
  · rw [hcustomers] at hc
    cases List.mem_singleton.mp hc
    exact ⟨rfl, rfl⟩
  · rw [hcustomers] at hc
    cases List.mem_singleton.mp hc
    cases hv
    exact hhandle

end SkynetEureka.Datasheet
