import Mathlib

/-!
# Runs of a partial step function

A system is a state type `σ`, a type `α` of actions, and a step function `σ → α → Option σ`:
an action carries every choice its step makes (which thread moves, what the environment
answers), and `none` says that the action is not enabled. `run` takes a list of actions.

`Guarded ok` says that every action of a run is taken in a state where `ok` holds of it. The
rule the protocols use is `run_invariant`: what a guarded step preserves, a guarded run
preserves.
-/

namespace SkynetEureka.Lib

variable {σ α : Type*}

/-- Take the actions in order; `none` as soon as one of them is not enabled. -/
def run (step : σ → α → Option σ) (s : σ) : List α → Option σ
  | [] => some s
  | a :: as => (step s a).bind fun s' => run step s' as

/-- Every action of the run is taken in a state in which `ok` holds of it. -/
def Guarded (step : σ → α → Option σ) (ok : σ → α → Prop) (s : σ) : List α → Prop
  | [] => True
  | a :: as => ok s a ∧ ∀ s' ∈ step s a, Guarded step ok s' as

/-- A guard that can be checked can be checked along a run. -/
instance Guarded.decidable (step : σ → α → Option σ) (ok : σ → α → Prop)
    [∀ s a, Decidable (ok s a)] (s : σ) : (as : List α) → Decidable (Guarded step ok s as)
  | [] => inferInstanceAs (Decidable True)
  | a :: as =>
    haveI := fun s' => Guarded.decidable step ok s' as
    inferInstanceAs (Decidable (ok s a ∧ ∀ s' ∈ step s a, Guarded step ok s' as))

section Run

variable {step : σ → α → Option σ} {ok : σ → α → Prop} {s s' : σ} {a : α} {as bs : List α}

@[simp] theorem run_nil : run step s [] = some s := rfl

theorem run_cons : run step s (a :: as) = (step s a).bind fun s' => run step s' as := rfl

theorem run_cons_eq_some :
    run step s (a :: as) = some s' ↔ ∃ t, step s a = some t ∧ run step t as = some s' := by
  rw [run_cons, Option.bind_eq_some_iff]

theorem run_append :
    run step s (as ++ bs) = (run step s as).bind fun t => run step t bs := by
  induction as generalizing s with
  | nil => rfl
  | cons a as ih =>
    rw [List.cons_append, run_cons, run_cons, Option.bind_assoc]
    exact Option.bind_congr fun t _ => ih

theorem run_append_of_eq_some {t : σ} (h : run step s as = some t) :
    run step s (as ++ bs) = run step t bs := by
  rw [run_append, h, Option.bind_some]

@[simp] theorem guarded_nil : Guarded step ok s [] := trivial

theorem guarded_cons :
    Guarded step ok s (a :: as) ↔
      ok s a ∧ ∀ s' ∈ step s a, Guarded step ok s' as := Iff.rfl

theorem run_cons_of_eq_some {t : σ} (h : step s a = some t) :
    run step s (a :: as) = run step t as := by
  rw [run_cons, h, Option.bind_some]

theorem guarded_cons_of_eq_some {t : σ} (h : step s a = some t) :
    Guarded step ok s (a :: as) ↔ ok s a ∧ Guarded step ok t as := by
  simp [guarded_cons, h]

theorem guarded_append :
    Guarded step ok s (as ++ bs) ↔
      Guarded step ok s as ∧ ∀ t ∈ run step s as, Guarded step ok t bs := by
  induction as generalizing s with
  | nil => simp
  | cons a as ih =>
    simp only [List.cons_append, guarded_cons, ih, run_cons, Option.mem_def,
      Option.bind_eq_some_iff]
    grind

/-- A guard that holds everywhere restricts no run. -/
theorem guarded_of_forall (h : ∀ s a, ok s a) : Guarded step ok s as := by
  induction as generalizing s with
  | nil => trivial
  | cons a as ih => exact ⟨h s a, fun _ _ => ih⟩

theorem Guarded.and {ok' : σ → α → Prop} (h : Guarded step ok s as) (h' : Guarded step ok' s as) :
    Guarded step (fun s a => ok s a ∧ ok' s a) s as := by
  induction as generalizing s with
  | nil => trivial
  | cons a as ih =>
    exact ⟨⟨h.1, h'.1⟩, fun s' hs' => ih (h.2 s' hs') (h'.2 s' hs')⟩

/-- **The invariant rule.** What every guarded step preserves, every guarded run preserves. -/
theorem run_invariant {Inv : σ → Prop}
    (hstep : ∀ s a s', Inv s → ok s a → step s a = some s' → Inv s')
    (hs : Inv s) (hg : Guarded step ok s as) (hrun : run step s as = some s') : Inv s' := by
  induction as generalizing s with
  | nil => cases hrun; exact hs
  | cons a as ih =>
    obtain ⟨t, ht, hrun⟩ := run_cons_eq_some.mp hrun
    exact ih (hstep s a t hs hg.1 ht) (hg.2 t ht) hrun

/-- The invariant rule for a system without a guard. -/
theorem run_invariant_of_step {Inv : σ → Prop}
    (hstep : ∀ s a s', Inv s → step s a = some s' → Inv s')
    (hs : Inv s) (hrun : run step s as = some s') : Inv s' := by
  have hg : Guarded step (fun _ _ => True) s as := guarded_of_forall fun _ _ => trivial
  exact run_invariant (fun s a s' h _ => hstep s a s' h) hs hg hrun

end Run

end SkynetEureka.Lib
