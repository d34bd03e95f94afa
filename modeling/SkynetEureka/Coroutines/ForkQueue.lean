import SkynetEureka.Lib.Run

/-!
# The queue of forked coroutines (skynet.lua)

`skynet.fork` puts a coroutine behind a border of the table `fork_queue`, and `dispatch_message`
takes whatever entry `next` gives until there is none. Which border the length operator reports, and
which entry `next` gives, is open. The coroutines are numbered by the calls of `skynet.fork`.
-/

namespace SkynetEureka.Coroutines

open Lib

/-- Where a service is: outside of `dispatch_message`, in the handler of the message, in the loop,
or in the forked coroutine that the loop has resumed. -/
inductive Phase where
  | idle
  | handling
  | loop
  | running (co : ℕ)
  deriving DecidableEq

/-- `forkQueue` has the keys with their coroutines, the latest one last; `forked` is the number of
calls of `skynet.fork`; `started` are the coroutines that have been resumed by the loop, in order;
`cleared` are those that `skynet.exit` has dropped. `err` has the errors of this message, `none` for
the handler; `succ` is whether there is none. -/
structure Forks where
  phase : Phase
  forkQueue : List (ℕ × ℕ)
  forked : ℕ
  started : List ℕ
  cleared : List ℕ
  err : List (Option ℕ)
  deriving DecidableEq

/-- What happens -/
inductive ForkAct where
  /-- `skynet.fork`, by any code of the service or by the error branch of `suspend`, with the border
  of `fork_queue` -/
  | fork (border : ℕ)
  /-- `skynet.exit` -/
  | exit
  /-- `dispatch_message` is called. -/
  | dispatch
  /-- `pcall(raw_dispatch_message,...)` returns. -/
  | handled (succ : Bool)
  /-- `next` gives the entry of this key, and its coroutine is resumed. -/
  | next (key : ℕ)
  /-- `pcall(suspend,co,...)` returns. -/
  | finished (succ : Bool)
  /-- `next` gives nothing, and `dispatch_message` returns or raises. -/
  | leave

namespace Forks

variable (s : Forks)

/-- The value of a key of `fork_queue` -/
def get (key : ℕ) : Option ℕ := (s.forkQueue.find? fun e => e.1 = key).map Prod.snd

/-- A border of `fork_queue`: the next key is free, and this one is not, or it is 0. -/
def Border (border : ℕ) : Prop :=
  (border = 0 ∨ (s.get border).isSome) ∧ s.get (border + 1) = none

instance (border : ℕ) : Decidable (s.Border border) :=
  inferInstanceAs (Decidable ((_ ∨ _) ∧ _))

def step : ForkAct → Option Forks
  | .fork border =>
    if s.phase ≠ .loop ∧ s.Border border then
      some { s with forkQueue := s.forkQueue ++ [(border + 1, s.forked)], forked := s.forked + 1 }
    else none
  | .exit =>
    if s.phase ≠ .loop then
      some { s with forkQueue := [], cleared := s.cleared ++ s.forkQueue.map Prod.snd }
    else none
  | .dispatch => if s.phase = .idle then some { s with phase := .handling, err := [] } else none
  | .handled succ =>
    if s.phase = .handling then
      some { s with phase := .loop, err := if succ then [] else [none] }
    else none
  | .next key =>
    if s.phase = .loop then
      (s.get key).map fun co =>
        { s with
          phase := .running co
          forkQueue := s.forkQueue.filter fun e => e.1 ≠ key
          started := s.started ++ [co] }
    else none
  | .finished succ =>
    match s.phase with
    | .running co =>
      some { s with phase := .loop, err := if succ then s.err else s.err ++ [some co] }
    | _ => none
  | .leave =>
    if s.phase = .loop ∧ s.forkQueue = [] then some { s with phase := .idle } else none

/-- A service that is loaded -/
def init : Forks := ⟨.idle, [], 0, [], [], []⟩

/-- The length operator gives the last key, and `next` the first one. -/
def InFront : ForkAct → Prop
  | .fork border => ∀ e ∈ s.forkQueue, e.1 ≤ border
  | .next key => ∀ e ∈ s.forkQueue, key ≤ e.1
  | _ => True

instance : (a : ForkAct) → Decidable (s.InFront a)
  | .fork border => inferInstanceAs (Decidable (∀ e ∈ s.forkQueue, e.1 ≤ border))
  | .next key => inferInstanceAs (Decidable (∀ e ∈ s.forkQueue, key ≤ e.1))
  | .exit | .dispatch | .handled _ | .finished _ | .leave => inferInstanceAs (Decidable True)

/-! ## Once -/

/-- Every key is there once, and each coroutine is in one place. -/
structure Kept : Prop where
  keys : (s.forkQueue.map Prod.fst).Nodup
  once : (s.started ++ s.cleared ++ s.forkQueue.map Prod.snd).Perm (List.range s.forked)

variable {s} {s' : Forks} {key border co : ℕ}

theorem get_eq_none : s.get key = none ↔ key ∉ s.forkQueue.map Prod.fst := by
  unfold get
  rw [Option.map_eq_none_iff, List.find?_eq_none, List.mem_map]
  constructor
  · rintro h ⟨e, he, heq⟩
    exact h e he (decide_eq_true heq)
  · intro h e he heq
    exact h ⟨e, he, of_decide_eq_true heq⟩

/-- The entry of a key, with the entries before and behind it -/
theorem get_split (hget : s.get key = some co) (hkeys : (s.forkQueue.map Prod.fst).Nodup) :
    ∃ l m, s.forkQueue = l ++ (key, co) :: m ∧
      (s.forkQueue.filter fun e => e.1 ≠ key) = l ++ m := by
  unfold get at hget
  obtain ⟨e, hfind, rfl⟩ := Option.map_eq_some_iff.mp hget
  have hfound := List.find?_some hfind
  have hkey : e.1 = key := of_decide_eq_true hfound
  obtain ⟨l, m, hsplit⟩ := List.append_of_mem (List.mem_of_find?_eq_some hfind)
  have hne : ∀ e' ∈ l ++ m, e'.1 ≠ key := by
    intro e' he' heq
    rw [hsplit] at hkeys
    have hmiddle : (l ++ e :: m).Perm (e :: (l ++ m)) := List.perm_middle
    have hperm := hmiddle.map Prod.fst
    have hcons := hperm.nodup_iff.mp hkeys
    rw [List.map_cons, List.nodup_cons] at hcons
    exact hcons.1 (List.mem_map.mpr ⟨e', he', heq.trans hkey.symm⟩)
  refine ⟨l, m, by rw [hsplit, ← hkey], ?_⟩
  rw [hsplit, List.filter_append, List.filter_cons_of_neg (by simpa using hkey),
    ← List.filter_append, List.filter_eq_self]
  intro e' he'
  exact decide_eq_true (hne e' he')

theorem kept_init : init.Kept := ⟨List.nodup_nil, List.Perm.refl _⟩

theorem Kept.step (hs : s.Kept) {a : ForkAct} (h : s.step a = some s') : s'.Kept := by
  cases a with
  | fork border =>
    unfold Forks.step at h
    dsimp only at h
    split at h
    · rename_i hfork
      cases h
      refine ⟨?_, ?_⟩
      · show ((s.forkQueue ++ [(border + 1, s.forked)]).map Prod.fst).Nodup
        rw [List.map_append, List.map_singleton]
        exact List.nodup_append_comm.mp
          (List.nodup_cons.mpr ⟨get_eq_none.mp hfork.2.2, hs.keys⟩)
      · show (s.started ++ s.cleared ++ (s.forkQueue ++ [(border + 1, s.forked)]).map Prod.snd).Perm
          (List.range (s.forked + 1))
        rw [List.map_append, List.map_singleton, List.range_succ, ← List.append_assoc]
        exact hs.once.append_right _
    · cases h
  | exit =>
    unfold Forks.step at h
    dsimp only at h
    split at h
    · cases h
      refine ⟨List.nodup_nil, ?_⟩
      show (s.started ++ (s.cleared ++ s.forkQueue.map Prod.snd) ++ []).Perm _
      rw [List.append_nil, ← List.append_assoc]
      exact hs.once
    · cases h
  | dispatch =>
    unfold Forks.step at h
    dsimp only at h
    split at h
    · cases h
      exact ⟨hs.keys, hs.once⟩
    · cases h
  | handled succ =>
    unfold Forks.step at h
    dsimp only at h
    split at h
    · cases h
      exact ⟨hs.keys, hs.once⟩
    · cases h
  | next key =>
    unfold Forks.step at h
    dsimp only at h
    split at h
    · obtain ⟨co, hget, rfl⟩ := Option.map_eq_some_iff.mp h
      obtain ⟨l, m, hqueue, hfilter⟩ := get_split hget hs.keys
      refine ⟨?_, ?_⟩
      · exact hs.keys.sublist (List.filter_sublist.map _)
      · show (s.started ++ [co] ++ s.cleared ++
          (s.forkQueue.filter fun e => e.1 ≠ key).map Prod.snd).Perm _
        rw [hfilter]
        refine List.Perm.trans ?_ hs.once
        rw [hqueue]
        simp only [List.map_append, List.map_cons, List.append_assoc, List.singleton_append]
        refine List.Perm.append_left _ (List.Perm.symm ?_)
        rw [← List.append_assoc, ← List.append_assoc]
        exact List.perm_middle
    · cases h
  | finished succ =>
    unfold Forks.step at h
    dsimp only at h
    split at h
    · cases h
      exact ⟨hs.keys, hs.once⟩
    · cases h
  | leave =>
    unfold Forks.step at h
    dsimp only at h
    split at h
    · cases h
      exact ⟨hs.keys, hs.once⟩
    · cases h

theorem Kept.run {acts : List ForkAct} (h : Lib.run Forks.step init acts = some s) : s.Kept :=
  run_invariant_of_step (fun _ _ _ hs hstep => hs.step hstep) kept_init h

/-! ## In order -/

/-- The entries are in the order of their keys, and the coroutines in the order of their forks. -/
structure Queued (s : Forks) : Prop where
  keys : s.forkQueue.Pairwise fun e e' => e.1 < e'.1
  order : (s.started ++ s.forkQueue.map Prod.snd).Pairwise (· < ·)
  forked : ∀ co ∈ s.started ++ s.forkQueue.map Prod.snd, co < s.forked

theorem queued_init : init.Queued := ⟨List.Pairwise.nil, List.Pairwise.nil, fun _ h => by cases h⟩

/-- The first key is that of the first entry. -/
theorem Queued.head (hs : s.Queued) (hget : s.get key = some co)
    (hfront : ∀ e ∈ s.forkQueue, key ≤ e.1) : ∃ m, s.forkQueue = (key, co) :: m ∧
      (s.forkQueue.filter fun e => e.1 ≠ key) = m := by
  have hkeys : (s.forkQueue.map Prod.fst).Nodup := by
    have hlt := List.pairwise_map.mpr hs.keys
    exact hlt.imp fun h => h.ne
  obtain ⟨l, m, hqueue, hfilter⟩ := get_split hget hkeys
  cases l with
  | nil => exact ⟨m, hqueue, hfilter⟩
  | cons e l =>
    have hlt := hs.keys
    rw [hqueue] at hlt hfront
    have hle := hfront e List.mem_cons_self
    have hgt := (List.pairwise_cons.mp hlt).1 (key, co) (by simp)
    omega

theorem Queued.step (hs : s.Queued) {a : ForkAct} (hfront : s.InFront a)
    (h : s.step a = some s') : s'.Queued := by
  cases a with
  | fork border =>
    unfold Forks.step at h
    dsimp only at h
    split at h
    · cases h
      refine ⟨?_, ?_, ?_⟩
      · show (s.forkQueue ++ [(border + 1, s.forked)]).Pairwise _
        rw [List.pairwise_append]
        refine ⟨hs.keys, List.pairwise_singleton .., ?_⟩
        intro e he e' he'
        rw [List.mem_singleton.mp he']
        exact Nat.lt_succ_of_le (hfront e he)
      · show (s.started ++ (s.forkQueue ++ [(border + 1, s.forked)]).map Prod.snd).Pairwise _
        rw [List.map_append, List.map_singleton, ← List.append_assoc, List.pairwise_append]
        refine ⟨hs.order, List.pairwise_singleton .., ?_⟩
        intro co hco co' hco'
        rw [List.mem_singleton.mp hco']
        exact hs.forked co hco
      · intro co hco
        dsimp only at hco ⊢
        rw [List.map_append, List.map_singleton, ← List.append_assoc, List.mem_append] at hco
        rcases hco with hold | hnew
        · exact Nat.lt_succ_of_lt (hs.forked co hold)
        · rw [List.mem_singleton.mp hnew]
          exact Nat.lt_succ_self _
    · cases h
  | exit =>
    unfold Forks.step at h
    dsimp only at h
    split at h
    · cases h
      refine ⟨List.Pairwise.nil, ?_, ?_⟩
      · show (s.started ++ []).Pairwise _
        rw [List.append_nil]
        exact (List.pairwise_append.mp hs.order).1
      · intro co hco
        exact hs.forked co (List.mem_append_left _ (by simpa using hco))
    · cases h
  | dispatch =>
    unfold Forks.step at h
    dsimp only at h
    split at h
    · cases h
      exact ⟨hs.keys, hs.order, hs.forked⟩
    · cases h
  | handled succ =>
    unfold Forks.step at h
    dsimp only at h
    split at h
    · cases h
      exact ⟨hs.keys, hs.order, hs.forked⟩
    · cases h
  | next key =>
    unfold Forks.step at h
    dsimp only at h
    split at h
    · obtain ⟨co, hget, rfl⟩ := Option.map_eq_some_iff.mp h
      obtain ⟨m, hqueue, hfilter⟩ := hs.head hget hfront
      have hsame : s.started ++ [co] ++ m.map Prod.snd =
          s.started ++ s.forkQueue.map Prod.snd := by
        rw [hqueue, List.append_assoc]
        rfl
      have hkeys := hs.keys
      rw [hqueue] at hkeys
      refine ⟨?_, ?_, ?_⟩
      · show (s.forkQueue.filter fun e => e.1 ≠ key).Pairwise _
        rw [hfilter]
        exact (List.pairwise_cons.mp hkeys).2
      · show (s.started ++ [co] ++ (s.forkQueue.filter fun e => e.1 ≠ key).map Prod.snd).Pairwise _
        rw [hfilter, hsame]
        exact hs.order
      · show ∀ c ∈ s.started ++ [co] ++ (s.forkQueue.filter fun e => e.1 ≠ key).map Prod.snd, _
        rw [hfilter, hsame]
        exact hs.forked
    · cases h
  | finished succ =>
    unfold Forks.step at h
    dsimp only at h
    split at h
    · cases h
      exact ⟨hs.keys, hs.order, hs.forked⟩
    · cases h
  | leave =>
    unfold Forks.step at h
    dsimp only at h
    split at h
    · cases h
      exact ⟨hs.keys, hs.order, hs.forked⟩
    · cases h

theorem Queued.run {acts : List ForkAct} (hfront : Guarded Forks.step InFront init acts)
    (h : Lib.run Forks.step init acts = some s) : s.Queued :=
  run_invariant (fun _ _ _ hs hok hstep => hs.step hok hstep) queued_init hfront h

/-! ## The message is done -/

end Forks

end SkynetEureka.Coroutines
