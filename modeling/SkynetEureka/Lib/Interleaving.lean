import SkynetEureka.Lib.Lists
import SkynetEureka.Lib.Run

/-!
# Threads that share a memory

A thread is the place in its code where it is, with what it carries. `Program.next` is the next step of
a thread: it changes the memory, the thread goes on, and it may start other threads. `none` is a thread
that has ended or has to wait, and `some none` is a fault: an assertion that fails, or an access to what
is freed.

Invariants of all interleavings rest on counts: `total f threads` is how often the threads have a thing,
when `f` is how often one of them has it. No count depends on the order of the threads, so that it is
enough to look at a step of the first one (`Program.run_safe`).
-/

namespace SkynetEureka.Lib

variable {M T : Type}

/-- A memory, the threads, and whether one of them has failed -/
structure Threads (M T : Type) where
  mem : M
  threads : List T
  fault : Bool
  deriving DecidableEq

structure Program (M T : Type) where
  /-- A thread that may start at any time -/
  starts : T → Bool
  next : M → T → Option (Option (M × T × List T))

/-- A thread starts, or the one of the given number takes its next step. -/
inductive Move (T : Type) where
  | start (t : T)
  | go (i : ℕ)

def Move.isStart : Move T → Bool
  | .start _ => true
  | .go _ => false

namespace Program

variable (p : Program M T)

/-- The step of the thread `t`, which has the number `i` -/
def advance (s : Threads M T) (i : ℕ) (t : T) : Option (Threads M T) :=
  (p.next s.mem t).map fun
    | none => { s with fault := true }
    | some (mem, t', started) => ⟨mem, s.threads.set i t' ++ started, false⟩

/-- Nothing is done after a fault. -/
def step (s : Threads M T) (a : Move T) : Option (Threads M T) :=
  if s.fault then none
  else
    match a with
    | .start t => if p.starts t then some { s with threads := s.threads ++ [t] } else none
    | .go i => s.threads[i]?.bind (p.advance s i)

end Program

/-- A condition on the steps of threads: on the memory, the thread and the other threads. -/
def Meets (ok : M → T → List T → Prop) (s : Threads M T) : Move T → Prop
  | .start _ => True
  | .go i => ∀ t, s.threads[i]? = some t → ok s.mem t (s.threads.eraseIdx i)

instance Meets.decidable (ok : M → T → List T → Prop) [∀ m t l, Decidable (ok m t l)]
    (s : Threads M T) (a : Move T) : Decidable (Meets ok s a) :=
  match a with
  | .start _ => inferInstanceAs (Decidable True)
  | .go i =>
    match h : s.threads[i]? with
    | none => .isTrue fun t ht => by rw [h] at ht; cases ht
    | some t =>
      decidable_of_iff (ok s.mem t (s.threads.eraseIdx i))
        ⟨fun hok t' ht' => by rw [h] at ht'; cases ht'; exact hok, fun hall => hall t h⟩

/-! ## Counts -/

/-- How often the threads have what a thread `t` has `f t` times -/
def total (f : T → ℕ) (threads : List T) : ℕ := (threads.map f).sum

section Total

variable {f g : T → ℕ} {t : T} {l l' : List T}

@[simp] theorem total_nil : total f [] = 0 := rfl

@[simp] theorem total_cons : total f (t :: l) = f t + total f l := by simp [total]

@[simp] theorem total_append : total f (l ++ l') = total f l + total f l' := by simp [total]

theorem total_perm (h : l.Perm l') : total f l = total f l' := (h.map f).sum_eq

theorem total_mono (h : ∀ t ∈ l, f t ≤ g t) : total f l ≤ total g l :=
  List.sum_le_sum h

theorem total_eq_zero (h : ∀ t ∈ l, f t = 0) : total f l = 0 := by
  apply List.sum_eq_zero
  intro n hn
  obtain ⟨t, ht, rfl⟩ := List.mem_map.mp hn
  exact h t ht

end Total

/-! ## The rule of invariants -/

namespace Program

variable {p : Program M T} {I : M → List T → Prop} {ok : M → T → List T → Prop}
  {s s' : Threads M T} {as : List (Move T)} {a : Move T}

/-- The thread that moves is put in front of the others. -/
theorem set_perm {l : List T} {i : ℕ} {t : T} (t' : T) (h : l[i]? = some t) :
    (l.set i t').Perm (t' :: l.eraseIdx i) := by
  obtain ⟨hlt, -⟩ := List.getElem?_eq_some_iff.mp h
  exact List.set_perm_cons_eraseIdx hlt t'

/-- A thread that takes its next step without a fault, and what it changes a count by -/
theorem step_go (f : T → ℕ) {m' : M} {t t' : T} {started : List T} {i : ℕ} (hfault : s.fault = false)
    (ht : s.threads[i]? = some t) (hnext : p.next s.mem t = some (some (m', t', started))) :
    p.step s (.go i) = some ⟨m', s.threads.set i t' ++ started, false⟩ ∧
      total f (s.threads.set i t' ++ started) + f t = total f s.threads + f t' + total f started := by
  constructor
  · simp [step, hfault, ht, advance, hnext]
  · have hset := total_perm (f := f) (set_perm t' ht)
    have herase := total_perm (f := f) (perm_cons_eraseIdx ht)
    simp only [total_append, total_cons] at hset herase ⊢
    omega

/-- **One step.** It is enough to look at a step of the first thread. -/
theorem step_safe (hperm : ∀ m l l', l.Perm l' → I m l → I m l')
    (hstart : ∀ m t l, I m l → p.starts t = true → I m (t :: l))
    (hnext : ∀ m t l r, I m (t :: l) → ok m t l → p.next m t = some r →
      ∃ m' t' started, r = some (m', t', started) ∧ I m' (t' :: (started ++ l)))
    (h : s.fault = false ∧ I s.mem s.threads) (hok : Meets ok s a)
    (hstep : p.step s a = some s') : s'.fault = false ∧ I s'.mem s'.threads := by
  obtain ⟨hfault, hinv⟩ := h
  unfold step at hstep
  rw [hfault, if_neg Bool.false_ne_true] at hstep
  cases a with
  | start t =>
    simp only at hstep
    split at hstep
    case isTrue hs =>
      cases hstep
      refine ⟨rfl, hperm _ _ _ ?_ (hstart _ _ _ hinv hs)⟩
      exact (List.perm_append_singleton t s.threads).symm
    case isFalse => cases hstep
  | go i =>
    obtain ⟨t, ht, hadv⟩ := Option.bind_eq_some_iff.mp hstep
    obtain ⟨r, hr, hs'⟩ := Option.map_eq_some_iff.mp hadv
    have hfront := hperm _ _ _ (perm_cons_eraseIdx ht) hinv
    obtain ⟨m', t', started, rfl, hinv'⟩ := hnext _ _ _ _ hfront (hok t ht) hr
    cases hs'
    refine ⟨rfl, hperm _ _ _ ?_ hinv'⟩
    -- the threads that were started are behind the others
    have hset := (set_perm t' ht).append_right started
    exact ((List.perm_append_comm.cons t').trans hset.symm)

/-- **All interleavings.** No thread fails, and the invariant holds in every state reached. -/
theorem run_safe (hperm : ∀ m l l', l.Perm l' → I m l → I m l')
    (hstart : ∀ m t l, I m l → p.starts t = true → I m (t :: l))
    (hnext : ∀ m t l r, I m (t :: l) → ok m t l → p.next m t = some r →
      ∃ m' t' started, r = some (m', t', started) ∧ I m' (t' :: (started ++ l)))
    (h : s.fault = false ∧ I s.mem s.threads) (hok : Guarded p.step (Meets ok) s as)
    (hrun : run p.step s as = some s') : s'.fault = false ∧ I s'.mem s'.threads := by
  have hstep : ∀ s a s', s.fault = false ∧ I s.mem s.threads → Meets ok s a → p.step s a = some s' →
      s'.fault = false ∧ I s'.mem s'.threads :=
    fun _ _ _ h hok hstep => step_safe hperm hstart hnext h hok hstep
  have hrule := run_invariant hstep h hok hrun
  exact hrule

end Program

end SkynetEureka.Lib
