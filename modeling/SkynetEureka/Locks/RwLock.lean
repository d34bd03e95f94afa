import SkynetEureka.Lib.Interleaving

/-!
# The lock of readers and writers

`rwlock.h` builds it from two words, `write` and `read`, and from atomic operations on one word. A thread is
between two of these operations. The history is what a caller sees: a lock counts as taken at the step
after which `rwlock_rlock` or `rwlock_wlock` returns.

The lock that the users of `rwlock.h` have in mind is one step for each call (`Atomic`). Every interleaving
of the threads has a history of that lock, and its state is the callers that are inside. A writer that
has set `write` lets no reader in any more, and the readers take finitely many steps until it enters.
-/

namespace SkynetEureka.Locks

open Lib

inductive Event where
  | rlock | runlock | wlock | wunlock
  deriving DecidableEq, Repr

/-- `struct rwlock`, and what the callers have done -/
structure RwLock where
  write : ℕ
  read : ℤ
  history : List Event
  deriving DecidableEq

def rwlockInit : RwLock := ⟨0, 0, []⟩

/-- The next operation of a thread -/
inductive Thread where
  /-- `while(lock->write)`, in `rwlock_rlock` -/
  | test
  /-- `__sync_add_and_fetch(&lock->read,1)` -/
  | add
  /-- `if (lock->write)` -/
  | check
  /-- `__sync_sub_and_fetch(&lock->read,1)`, when a writer came first -/
  | back
  /-- `rwlock_runlock`, of a reader that is inside -/
  | reader
  /-- `__sync_lock_test_and_set(&lock->write,1)`, in `rwlock_wlock` -/
  | set
  /-- `while(lock->read)` -/
  | wait
  /-- `rwlock_wunlock`, of a writer that is inside -/
  | writer
  | ended
  deriving DecidableEq

def RwLock.log (m : RwLock) (e : Event) : RwLock := { m with history := m.history ++ [e] }

def Thread.step (m : RwLock) : Thread → Option (RwLock × Thread)
  | .test => some (m, if m.write ≠ 0 then .test else .add)
  | .add => some ({ m with read := m.read + 1 }, .check)
  | .check => some (if m.write ≠ 0 then (m, .back) else (m.log .rlock, .reader))
  | .back => some ({ m with read := m.read - 1 }, .test)
  | .reader => some ({ m with read := m.read - 1 }.log .runlock, .ended)
  | .set => some ({ m with write := 1 }, if m.write ≠ 0 then .set else .wait)
  | .wait => some (if m.read ≠ 0 then (m, .wait) else (m.log .wlock, .writer))
  | .writer => some ({ m with write := 0 }.log .wunlock, .ended)
  | .ended => none

/-- Any number of threads calls `rwlock_rlock` or `rwlock_wlock`, at any time. -/
def threads : Program RwLock Thread where
  starts t := t == .test || t == .set
  next m t := (t.step m).map fun (m, t) => some (m, t, [])

/-! ## The lock that is meant -/

structure Atomic where
  writers : ℕ
  readers : ℕ
  deriving DecidableEq

def Atomic.step (s : Atomic) : Event → Option Atomic
  | .rlock => if s.writers = 0 then some { s with readers := s.readers + 1 } else none
  | .runlock => if 0 < s.readers then some { s with readers := s.readers - 1 } else none
  | .wlock => if s.writers = 0 ∧ s.readers = 0 then some { s with writers := 1 } else none
  | .wunlock => if 0 < s.writers then some { s with writers := s.writers - 1 } else none

/-! ## The invariant -/

/-- The readers that are counted in `read` -/
def Thread.counted : Thread → ℕ
  | .check | .back | .reader => 1
  | _ => 0

/-- The writers that have set `write` -/
def Thread.flagged : Thread → ℕ
  | .wait | .writer => 1
  | _ => 0

def Thread.inside (kind t : Thread) : ℕ := if t = kind then 1 else 0

structure Inv (m : RwLock) (l : List Thread) : Prop where
  read : m.read = total Thread.counted l
  write : m.write = total Thread.flagged l
  one : m.write ≤ 1
  /-- A writer inside has seen `read` at 0, and the readers that come later find `write` set. -/
  apart : 0 < total (Thread.inside .writer) l → total (Thread.inside .reader) l = 0
  legal : run Atomic.step ⟨0, 0⟩ m.history =
    some ⟨total (Thread.inside .writer) l, total (Thread.inside .reader) l⟩

variable {m : RwLock} {t : Thread} {l l' : List Thread} {s s' : Threads RwLock Thread}
  {as bs : List (Move Thread)}

/-- A thread inside is among those that are counted. -/
theorem inside_le : total (Thread.inside .writer) l ≤ total Thread.flagged l ∧
    total (Thread.inside .reader) l ≤ total Thread.counted l := by
  constructor
  · apply total_mono
    intro t _
    cases t <;> simp [Thread.inside, Thread.flagged]
  · apply total_mono
    intro t _
    cases t <;> simp [Thread.inside, Thread.counted]

theorem Inv.perm (hperm : l.Perm l') (h : Inv m l) : Inv m l' := by
  have hf : ∀ f : Thread → ℕ, total f l' = total f l := fun f => (total_perm hperm).symm
  apply Inv.mk _ _ h.one <;> simp only [hf]
  · exact h.apart
  · exact h.legal
  · exact h.read
  · exact h.write

/-- A thread that starts is counted nowhere. -/
theorem Inv.start (h : Inv m l) (hstart : threads.starts t = true) : Inv m (t :: l) := by
  have ht : t = .test ∨ t = .set := by simpa [threads] using hstart
  have hzero : t.counted = 0 ∧ t.flagged = 0 ∧ Thread.inside .writer t = 0 ∧
      Thread.inside .reader t = 0 := by
    rcases ht with rfl | rfl <;> simp [Thread.counted, Thread.flagged, Thread.inside]
  apply Inv.mk _ _ h.one <;> simp only [total_cons, hzero, Nat.zero_add]
  · exact h.apart
  · exact h.legal
  · exact h.read
  · exact h.write

theorem run_log {writers readers : ℕ} {a : Atomic} {e : Event}
    (h : run Atomic.step ⟨0, 0⟩ m.history = some ⟨writers, readers⟩)
    (hstep : Atomic.step ⟨writers, readers⟩ e = some a) :
    run Atomic.step ⟨0, 0⟩ (m.log e).history = some a := by
  simp [RwLock.log, run_append, h, run_cons, hstep]

/-- **One step.** -/
theorem Inv.step {m' : RwLock} {t' : Thread} (h : Inv m (t :: l)) (hstep : t.step m = some (m', t')) :
    Inv m' (t' :: l) := by
  obtain ⟨hread, hwrite, hone, hapart, hlegal⟩ := h
  have hle := inside_le (l := l)
  simp only [total_cons] at hread hwrite hapart hlegal
  cases t with
  | test =>
    simp only [Thread.step, Option.some.injEq, Prod.mk.injEq] at hstep
    obtain ⟨rfl, rfl⟩ := hstep
    split <;> constructor <;> simp_all [Thread.counted, Thread.flagged, Thread.inside]
  | add =>
    simp only [Thread.step, Option.some.injEq, Prod.mk.injEq] at hstep
    obtain ⟨rfl, rfl⟩ := hstep
    constructor <;> simp_all [Thread.counted, Thread.flagged, Thread.inside, add_comm]
  | check =>
    simp only [Thread.counted, Thread.flagged] at hread hwrite
    simp [Thread.inside] at hapart hlegal
    simp only [Thread.step, Option.some.injEq] at hstep
    split at hstep
    case isTrue =>
      cases hstep
      constructor <;> simp_all [Thread.counted, Thread.flagged, Thread.inside]
    case isFalse hw =>
      -- no writer has set `write`, hence none is inside
      cases hstep
      have hnone : total (Thread.inside .writer) l = 0 := by omega
      rw [hnone] at hlegal
      constructor
      · simpa [RwLock.log, Thread.counted] using hread
      · simpa [RwLock.log, Thread.flagged] using hwrite
      · exact hone
      · simp [Thread.inside, hnone]
      · exact run_log hlegal (by simp [Atomic.step, Thread.inside, hnone, Nat.add_comm])
  | back =>
    simp only [Thread.step, Option.some.injEq, Prod.mk.injEq] at hstep
    obtain ⟨rfl, rfl⟩ := hstep
    constructor <;> simp_all [Thread.counted, Thread.flagged, Thread.inside]
  | reader =>
    simp only [Thread.step, Option.some.injEq, Prod.mk.injEq] at hstep
    obtain ⟨rfl, rfl⟩ := hstep
    simp only [Thread.counted, Thread.flagged] at hread hwrite
    simp [Thread.inside] at hapart hlegal
    constructor
    · simp [RwLock.log, hread, Thread.counted]
    · simpa [RwLock.log, Thread.flagged] using hwrite
    · exact hone
    · simp [Thread.inside, hapart]
    · exact run_log hlegal (by simp [Atomic.step, Thread.inside])
  | set =>
    simp only [Thread.step, Option.some.injEq, Prod.mk.injEq] at hstep
    obtain ⟨rfl, rfl⟩ := hstep
    split <;> constructor <;> simp_all [Thread.counted, Thread.flagged, Thread.inside]
    omega
  | wait =>
    simp only [Thread.counted, Thread.flagged] at hread hwrite
    simp [Thread.inside] at hapart hlegal
    simp only [Thread.step, Option.some.injEq] at hstep
    split at hstep
    case isTrue =>
      cases hstep
      constructor <;> simp_all [Thread.counted, Thread.flagged, Thread.inside]
    case isFalse hr =>
      -- no reader is counted, hence none is inside; `write` is set for this writer alone
      cases hstep
      have hwriter : total (Thread.inside .writer) l = 0 := by omega
      have hreader : total (Thread.inside .reader) l = 0 := by omega
      rw [hwriter, hreader] at hlegal
      constructor
      · simpa [RwLock.log, Thread.counted] using hread
      · simpa [RwLock.log, Thread.flagged] using hwrite
      · exact hone
      · simp [Thread.inside, hreader]
      · exact run_log hlegal (by simp [Atomic.step, Thread.inside, hwriter, hreader])
  | writer =>
    simp only [Thread.step, Option.some.injEq, Prod.mk.injEq] at hstep
    obtain ⟨rfl, rfl⟩ := hstep
    simp only [Thread.counted, Thread.flagged] at hread hwrite
    simp [Thread.inside] at hapart hlegal
    have hwriter : total (Thread.inside .writer) l = 0 := by omega
    have hflag : total Thread.flagged l = 0 := by omega
    rw [hwriter] at hlegal
    constructor
    · simpa [RwLock.log, Thread.counted] using hread
    · simp [RwLock.log, Thread.flagged, hflag]
    · simp [RwLock.log]
    · simp [Thread.inside, hwriter]
    · exact run_log hlegal (by simp [Atomic.step, Thread.inside, hwriter])
  | ended => cases hstep

/-- **All interleavings.** -/
theorem Inv.run (hrun : run threads.step ⟨rwlockInit, [], false⟩ as = some s) :
    s.fault = false ∧ Inv s.mem s.threads := by
  have hok : Guarded threads.step (Meets fun _ _ _ => True) ⟨rwlockInit, [], false⟩ as :=
    guarded_of_forall fun s a => by cases a <;> simp [Meets]
  refine Program.run_safe (fun _ _ _ hperm h => h.perm hperm) (fun _ _ _ h ht => h.start ht) ?_ ?_
    hok hrun
  · intro m t l r h _ hr
    obtain ⟨⟨m', t'⟩, hstep, rfl⟩ := Option.map_eq_some_iff.mp hr
    exact ⟨m', t', [], rfl, h.step hstep⟩
  · exact ⟨rfl, rfl, rfl, Nat.zero_le 1, fun _ => rfl, rfl⟩

/-- **The lock of `rwlock.h` is the lock that is meant.** What the callers see of any interleaving is a
history of the lock that takes each call in one step, and the lock is then in the state in which its
callers are: there is one writer inside at most, and no reader beside a writer. -/
theorem rwlock_refines (hrun : run threads.step ⟨rwlockInit, [], false⟩ as = some s) :
    run Atomic.step ⟨0, 0⟩ s.mem.history =
        some ⟨s.threads.count .writer, s.threads.count .reader⟩ ∧
      s.threads.count .writer ≤ 1 ∧ (s.threads.count .writer = 1 → s.threads.count .reader = 0) := by
  have hcount : ∀ kind, s.threads.count kind = total (Thread.inside kind) s.threads := by
    intro kind
    induction s.threads with
    | nil => rfl
    | cons t l ih => simp [List.count_cons, ih, Thread.inside, Nat.add_comm]
  obtain ⟨-, hinv⟩ := Inv.run hrun
  have hle := (inside_le (l := s.threads)).1
  rw [hcount, hcount]
  refine ⟨hinv.legal, ?_, fun hone => hinv.apart (by omega)⟩
  have := hinv.write
  have := hinv.one
  omega

/-- A reader and a writer, each inside alone -/
theorem rwlock_refines_turns :
    run Atomic.step ⟨0, 0⟩ [.rlock, .runlock, .wlock] = some ⟨1, 0⟩ := by
  have hrun : run threads.step ⟨rwlockInit, [], false⟩
      [.start .test, .start .set, .go 0, .go 0, .go 0, .go 1, .go 1, .go 0, .go 1] =
        some ⟨⟨1, 0, [.rlock, .runlock, .wlock]⟩, [.ended, .writer], false⟩ := by decide
  exact (rwlock_refines hrun).1

/-! ## Readers that come after a writer -/

/-- The steps that a thread takes at most before it spins or has ended, while `write` is set -/
def Thread.rank : Thread → ℕ
  | .add => 3
  | .check => 2
  | .back | .reader | .wait => 1
  | _ => 0

/-- The steps of a run that are not turns of a loop in which a thread waits -/
def busy (s : Threads RwLock Thread) : List (Move Thread) → ℕ
  | [] => 0
  | .start t :: as => (threads.step s (.start t)).elim 0 fun s' => busy s' as
  | .go i :: as =>
    (threads.step s (.go i)).elim 0 fun s' => (if s' = s then 0 else 1) + busy s' as

/-- A thread that does not give the lock back keeps `write` set and lets no reader in; it waits in a
loop, or is closer to it. -/
theorem Thread.step_set {m' : RwLock} {t' : Thread} (hwrite : m.write = 1) (ht : t ≠ .writer)
    (hstep : t.step m = some (m', t')) :
    m'.write = 1 ∧ (∃ es, m'.history = m.history ++ es ∧ .rlock ∉ es) ∧
      ((m', t') = (m, t) ∨ t'.rank < t.rank) := by
  have hsame : ∃ es, m.history = m.history ++ es ∧ Event.rlock ∉ es := ⟨[], by simp⟩
  cases t with
  | writer => exact absurd rfl ht
  | ended => cases hstep
  | wait =>
    simp only [Thread.step, Option.some.injEq] at hstep
    split at hstep <;> cases hstep
    · exact ⟨hwrite, hsame, .inl rfl⟩
    · exact ⟨hwrite, ⟨[.wlock], by simp [RwLock.log]⟩, .inr (by simp [Thread.rank])⟩
  | reader =>
    cases hstep
    exact ⟨hwrite, ⟨[.runlock], by simp [RwLock.log]⟩, .inr (by simp [Thread.rank])⟩
  | test | add | check | back | set =>
    simp [Thread.step, hwrite] at hstep
    obtain ⟨rfl, rfl⟩ := hstep
    refine ⟨by simp [hwrite], by simp, ?_⟩
    simp [Thread.rank, ← hwrite] <;> omega

/-- What a step of the run below does -/
theorem step_busy {a : Move Thread} (hfault : s.fault = false) (hwrite : s.mem.write = 1)
    (hok : Meets (fun _ t _ => t ≠ .writer) s a) (hstep : threads.step s a = some s') :
    s'.fault = false ∧ s'.mem.write = 1 ∧
      (∃ es, s'.mem.history = s.mem.history ++ es ∧ .rlock ∉ es) ∧
      (s' = s ∨ (∃ t, a = .start t) ∧ total Thread.rank s'.threads = total Thread.rank s.threads ∨
        total Thread.rank s'.threads < total Thread.rank s.threads) := by
  cases a with
  | start t =>
    simp only [Program.step, hfault, Bool.false_eq_true, if_false] at hstep
    split at hstep
    case isFalse => cases hstep
    case isTrue hs =>
      cases hstep
      have ht : t = .test ∨ t = .set := by simpa [threads] using hs
      refine ⟨rfl, hwrite, ⟨[], by simp⟩, .inr (.inl ⟨⟨t, rfl⟩, ?_⟩)⟩
      rcases ht with rfl | rfl <;> simp [Thread.rank]
  | go i =>
    have hgo := hstep
    simp only [Program.step, hfault, Bool.false_eq_true, if_false] at hgo
    obtain ⟨t, ht, hadv⟩ := Option.bind_eq_some_iff.mp hgo
    obtain ⟨r, hr, -⟩ := Option.map_eq_some_iff.mp hadv
    obtain ⟨⟨m', t'⟩, hmove, rfl⟩ := Option.map_eq_some_iff.mp hr
    obtain ⟨hs', htotal⟩ := Program.step_go Thread.rank hfault ht hr
    rw [hs', Option.some.injEq] at hstep
    obtain ⟨hwrite', hes, hrank⟩ := Thread.step_set hwrite (hok t ht) hmove
    subst hstep
    refine ⟨rfl, hwrite', hes, ?_⟩
    rcases hrank with heq | hlt
    · -- a turn of a loop
      left
      cases heq
      obtain ⟨hlen, hget⟩ := List.getElem?_eq_some_iff.mp ht
      have hset : s.threads.set i t = s.threads := by rw [← hget, List.set_getElem_self]
      simp [hset, ← hfault]
    · right; right
      simp at htotal ⊢
      omega

/-- **A run of them.** -/
theorem run_busy (hfault : s.fault = false) (hwrite : s.mem.write = 1)
    (hok : Guarded threads.step (Meets fun _ t _ => t ≠ .writer) s bs)
    (hrun : run threads.step s bs = some s') :
    s'.mem.write = 1 ∧ (∃ es, s'.mem.history = s.mem.history ++ es ∧ .rlock ∉ es) ∧
      busy s bs + total Thread.rank s'.threads ≤ total Thread.rank s.threads := by
  induction bs generalizing s with
  | nil =>
    cases hrun
    exact ⟨hwrite, ⟨[], by simp⟩, by simp [busy]⟩
  | cons a bs ih =>
    obtain ⟨u, hu, hrun⟩ := run_cons_eq_some.mp hrun
    obtain ⟨hfault', hwrite', ⟨es, hes, hnot⟩, hrank⟩ := step_busy hfault hwrite hok.1 hu
    obtain ⟨hw, ⟨es', hes', hnot'⟩, hle⟩ := ih hfault' hwrite' (hok.2 u hu) hrun
    refine ⟨hw, ⟨es ++ es', by rw [hes', hes, List.append_assoc], by simp [hnot, hnot']⟩, ?_⟩
    cases a with
    | start t =>
      simp only [busy, hu, Option.elim_some]
      rcases hrank with rfl | ⟨-, hsame⟩ | hlt <;> omega
    | go i =>
      simp only [busy, hu, Option.elim_some]
      rcases hrank with rfl | ⟨⟨t, ht⟩, -⟩ | hlt
      · simpa using hle
      · cases ht
      · split <;> omega

theorem exists_of_total_pos {f : Thread → ℕ} (h : 0 < total f l) : ∃ t ∈ l, 0 < f t := by
  by_contra hnone
  push Not at hnone
  have := total_eq_zero (f := f) (l := l) fun t ht => Nat.le_zero.mp (hnone t ht)
  omega

/-- Where each step is a turn of a loop, and `write` is set, a writer is inside. -/
theorem Inv.entered (h : Inv m l) (hwrite : m.write = 1)
    (hwait : ∀ t ∈ l, ∀ r, t.step m = some r → r = (m, t)) : .writer ∈ l := by
  have hflagged : 0 < total Thread.flagged l := by
    rw [← h.write, hwrite]
    exact Nat.one_pos
  obtain ⟨t, ht, hpos⟩ := exists_of_total_pos hflagged
  cases t with
  | writer => exact ht
  | wait =>
    exfalso
    -- the writer waits for a reader, and that one has something to do
    have hread : m.read ≠ 0 := by
      intro hzero
      have := hwait _ ht _ rfl
      simp [hzero] at this
    have hcounted : 0 < total Thread.counted l := by
      have := h.read
      omega
    obtain ⟨t, ht, hpos⟩ := exists_of_total_pos hcounted
    have hstep := hwait t ht
    cases t with
    | check => simp [Thread.step, hwrite] at hstep
    | back => simp [Thread.step] at hstep
    | reader => simp [Thread.step] at hstep
    | _ => simp [Thread.counted] at hpos
  | _ => simp [Thread.flagged] at hpos

/-- **Writers go first.** From the step on that sets `write` no reader gets in until the writer gives the
lock back. Apart from the turns of loops the threads take three steps each at most, and when nothing is
left but such turns, a writer is inside. -/
theorem writers_go_first (hrun : run threads.step ⟨rwlockInit, [], false⟩ as = some s)
    (hwrite : s.mem.write = 1) (hok : Guarded threads.step (Meets fun _ t _ => t ≠ .writer) s bs)
    (hrun' : run threads.step s bs = some s') :
    (∃ es, s'.mem.history = s.mem.history ++ es ∧ .rlock ∉ es) ∧ busy s bs ≤ 3 * s.threads.length ∧
      ((∀ i u, threads.step s' (.go i) = some u → u = s') → .writer ∈ s'.threads) := by
  obtain ⟨hfault, -⟩ := Inv.run hrun
  obtain ⟨hwrite', hes, hbusy⟩ := run_busy hfault hwrite hok hrun'
  have hboth : run threads.step ⟨rwlockInit, [], false⟩ (as ++ bs) = some s' := by
    rw [run_append_of_eq_some hrun, hrun']
  obtain ⟨hfault', hinv⟩ := Inv.run hboth
  refine ⟨hes, ?_, ?_⟩
  · have hthree : ∀ l : List Thread, total Thread.rank l ≤ 3 * l.length := by
      intro l
      induction l with
      | nil => simp
      | cons t l ih =>
        have ht : t.rank ≤ 3 := by cases t <;> simp [Thread.rank]
        simp
        omega
    have := hthree s.threads
    omega
  · intro hwait
    apply hinv.entered hwrite'
    intro t ht r hr
    obtain ⟨i, hlt, rfl⟩ := List.mem_iff_getElem.mp ht
    have hnext : threads.next s'.mem s'.threads[i] = some (some (r.1, r.2, [])) := by
      simp [threads, hr]
    have hi : s'.threads[i]? = some s'.threads[i] := List.getElem?_eq_getElem hlt
    have hsame := hwait i _ (Program.step_go Thread.rank hfault' hi hnext).1
    have hmem : r.1 = s'.mem := congrArg Threads.mem hsame
    have hset := congrArg (fun u => u.threads[i]?) hsame
    simp [hlt] at hset
    exact Prod.ext hmem hset

/-- A writer sets `write` while a reader stands before its addition. -/
def race : List (Move Thread) :=
  [.start .test, .go 0, .start .set, .go 1]

/-- The writer enters when the reader has gone back. -/
def raceWon : List (Move Thread) := [.go 0, .go 1, .go 0, .go 0, .go 0, .go 1]

/-- The lock after `race` -/
def raced : Threads RwLock Thread := ⟨⟨1, 0, []⟩, [.add, .wait], false⟩

theorem writers_go_first_race :
    busy raced raceWon ≤ 3 * raced.threads.length ∧ .writer ∈ ([.test, .writer] : List Thread) := by
  have hrun : run threads.step ⟨rwlockInit, [], false⟩ race = some raced := by decide
  have hrun' : run threads.step raced raceWon = some ⟨⟨1, 0, [.wlock]⟩, [.test, .writer], false⟩ := by
    decide
  have hok : Guarded threads.step (Meets fun _ t _ => t ≠ .writer) raced raceWon := by decide
  obtain ⟨-, hbusy, -⟩ := writers_go_first hrun rfl hok hrun'
  exact ⟨hbusy, by simp⟩

end SkynetEureka.Locks
