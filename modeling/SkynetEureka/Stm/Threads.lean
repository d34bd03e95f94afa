import SkynetEureka.Stm.Counts

/-!
# What the threads have

`print` is what a thread has of each resource, and `total` what all of them have. `Inv` is the
invariant of all interleavings.
-/

namespace SkynetEureka.Stm

open Lib

variable {Msg : Type} {s s' : State Msg} {mem : Mem Msg} {r r' : Reader} {w : Writer} {i c : ℕ}
  {o : Option ℕ}

/-- What a thread can have: a reference of the object, a side of its lock, the duty to free it, and
the same of a copy. -/
inductive Res where
  | ref
  | read
  | write
  | free
  | hold (c : ℕ)
  | drop (c : ℕ)

def count (o : Option ℕ) (c : ℕ) : ℕ := if o = some c then 1 else 0

def Writer.print (w : Writer) : Res → ℕ
  | .ref =>
    match w with
    | .unlocking | .leaving | .done => 0
    | _ => 1
  | .read =>
    match w with
    | .grabbing | .grabbed => 1
    | _ => 0
  | .write =>
    match w with
    | .writing _ | .stored _ | .released | .freeingLast _ | .clearing | .cleared | .unlocking
    | .leaving => 1
    | _ => 0
  | .free =>
    match w with
    | .leaving => 1
    | _ => 0
  | .hold c =>
    match w with
    | .updating c' | .writing c' | .dropping c' => count (some c') c
    | .stored old => count old c
    | _ => 0
  | .drop c =>
    match w with
    | .freeing c' | .freeingLast c' => count (some c') c
    | _ => 0

/-- What a reader has while it is at this phase, beside its handle and its last copy -/
def Phase.print (p : Phase) : Res → ℕ
  | .ref | .write => 0
  | .read =>
    match p with
    | .reading | .taken .. | .deleting | .unlocking | .leaving => 1
    | _ => 0
  | .free =>
    match p with
    | .leaving => 1
    | _ => 0
  | .hold c =>
    match p with
    | .taken o _ | .comparing o _ => count o c
    | .dropping c' => count (some c') c
    | _ => 0
  | .drop c =>
    match p with
    | .freeing c' => count (some c') c
    | _ => 0

/-- What the handle and the last copy stand for -/
def Reader.box (r : Reader) : Res → ℕ
  | .ref => if r.live then 1 else 0
  | .hold c => count r.lastcopy c
  | _ => 0

def Reader.print (r : Reader) (x : Res) : ℕ := r.box x + r.phase.print x

def State.total (s : State Msg) (x : Res) : ℕ :=
  s.writer.print x + (s.readers.map fun r => r.print x).sum

/-! ## Totals -/

theorem sum_set {α : Type} {l : List α} {a b : α} (f : α → ℕ) (h : l[i]? = some a) :
    ((l.set i b).map f).sum + f a = (l.map f).sum + f b := by
  have hperm := ((cons_set_perm (a := b) h).map f).sum_eq
  rw [List.map_cons, List.sum_cons, List.map_cons, List.sum_cons] at hperm
  omega

/-- The reader `i` goes on. -/
theorem total_put (h : s.readers[i]? = some r) (x : Res) :
    (s.put i r' mem).total x + r.print x = s.total x + r'.print x := by
  have hsum := sum_set (b := r') (fun r => r.print x) h
  show s.writer.print x + ((s.readers.set i r').map fun r => r.print x).sum + r.print x = _
  unfold State.total
  omega

theorem print_le_total (h : s.readers[i]? = some r) (x : Res) : r.print x ≤ s.total x := by
  have hsum := ((perm_cons_eraseIdx h).map fun r => r.print x).sum_eq
  rw [List.map_cons, List.sum_cons] at hsum
  unfold State.total
  omega

theorem Reader.free_le (r : Reader) : r.print .free ≤ r.print .read := by
  unfold Reader.print
  show 0 + r.phase.print .free ≤ 0 + r.phase.print .read
  cases r.phase <;> simp [Phase.print]

theorem Writer.free_le (w : Writer) : w.print .free ≤ w.print .write := by
  cases w <;> simp [Writer.print]

theorem sum_free_le (l : List Reader) :
    (l.map fun r => r.print .free).sum ≤ (l.map fun r => r.print .read).sum :=
  List.sum_le_sum fun r _ => r.free_le

/-- As long as a reader is in the lock that does not free the object, there is a reference. -/
theorem ref_of_reader (hobj : ObjOk s.mem (s.total .ref) (s.total .read) (s.total .write)
    (s.total .free)) (h : s.readers[i]? = some r) (hlt : r.print .free < r.print .read) :
    0 < s.total .ref := by
  have hread := ((perm_cons_eraseIdx h).map fun r => r.print .read).sum_eq
  have hfree := ((perm_cons_eraseIdx h).map fun r => r.print .free).sum_eq
  rw [List.map_cons, List.sum_cons] at hread hfree
  have hle := sum_free_le (s.readers.eraseIdx i)
  have hwriter := s.writer.free_le
  by_contra hzero
  have hdead := (hobj.dead (by omega)).2
  unfold State.total at hdead
  omega

theorem ref_of_writer (hobj : ObjOk s.mem (s.total .ref) (s.total .read) (s.total .write)
    (s.total .free)) (hlt : s.writer.print .free < s.writer.print .write) : 0 < s.total .ref := by
  have hle := sum_free_le s.readers
  by_contra hzero
  have hdead := (hobj.dead (by omega)).2
  unfold State.total at hdead
  omega

/-! ## The invariant -/

/-- The copy of which the object has a reference -/
def State.current (s : State Msg) : Option ℕ :=
  match s.writer with
  | .freeingLast _ | .clearing => none
  | _ => s.mem.copy

/-- The copies are numbered in the order of the updates; the current one is the last. -/
def Writer.Ok (copy : Option ℕ) (length completed : ℕ) : Writer → Prop
  | .updating c | .writing c =>
    (∃ old, copy = some old ∧ old + 1 = completed) ∧ c = completed ∧ length = completed + 1
  | .stored _ => copy = some completed ∧ length = completed + 1
  | .cleared | .unlocking | .leaving | .done => copy = none ∧ length = completed
  | _ => (∃ c, copy = some c ∧ c + 1 = completed) ∧ length = completed

/-- A reader takes a copy with a handle only, and without one it keeps none. -/
def Reader.Ok (completed : ℕ) (r : Reader) : Prop :=
  match r.phase with
  | .reading | .deleting => r.live = true
  | .taken o latest | .comparing o latest =>
    r.live = true ∧ ∀ c, o = some c → c + 1 = latest ∧ latest ≤ completed
  | .unlocking | .leaving => r.live = false
  | _ => r.live = false → r.lastcopy = none

/-- A read returns the message of the update that was the latest one. -/
def Read.Ok (msgs : List Msg) (completed : ℕ) (x : Read Msg) : Prop :=
  x.latest ≤ completed ∧ ∃ c, c + 1 = x.latest ∧ msgs[c]? = some x.msg

structure Inv (s : State Msg) : Prop where
  fault : s.fault = false
  obj : ObjOk s.mem (s.total .ref) (s.total .read) (s.total .write) (s.total .free)
  copies : CopiesOk s.mem.copies (fun c => s.total (.hold c) + count s.current c)
    (fun c => s.total (.drop c))
  writer : s.writer.Ok s.mem.copy s.mem.copies.length s.completed
  readers : ∀ r ∈ s.readers, r.Ok s.completed
  reads : ∀ x ∈ s.reads, x.Ok (s.mem.copies.map Copy.msg) s.completed

theorem count_self : count (some c) c = 1 := if_pos rfl

theorem count_of_ne {c' : ℕ} (hne : c' ≠ c) : count (some c) c' = 0 :=
  if_neg fun heq => hne (Option.some.inj heq).symm

end SkynetEureka.Stm
