import SkynetEureka.Lib.Run
import SkynetEureka.Stm.Writing

/-!
# What is freed

`Inv` holds in every interleaving in which a reader that gives the last reference back is alone in the
lock. Without this, a reader that leaves the lock may touch what another one has freed.
-/

namespace SkynetEureka.Stm

open Lib

variable {Msg : Type} {s s' : State Msg} {a : Action Msg} {i : ℕ}

/-! ## Every step -/

theorem Inv.init (msg : Msg) : Inv (State.init msg) := by
  refine ⟨rfl, ⟨rfl, fun _ => ⟨rfl, rfl⟩, ?_, fun _ => rfl, ?_, Nat.zero_le _, fun _ => rfl⟩,
    ⟨?_, ?_⟩, ⟨⟨0, rfl, rfl⟩, rfl⟩, nofun, nofun⟩
  · exact fun hzero => (Nat.one_ne_zero hzero).elim
  · exact fun _ => ⟨nofun, fun hone => (Nat.zero_ne_one hone).elim⟩
  · intro c copy hget
    obtain ⟨hlt, heq⟩ := List.getElem?_eq_some_iff.mp hget
    obtain rfl : c = 0 := Nat.lt_one_iff.mp hlt
    cases heq
    exact ⟨rfl, fun _ => ⟨rfl, rfl⟩, nofun⟩
  · intro c hc
    have hc : 1 ≤ c := hc
    refine ⟨?_, rfl⟩
    show 0 + count (some 0) c = 0
    rw [count_of_ne (by omega)]

/-- Where `stm_releasereader` gives the last reference back, no other thread is in the lock. -/
def Last (s : State Msg) : Action Msg → Prop
  | .reader i => ∀ r ∈ s.readers[i]?, r.phase = .deleting → s.mem.reference = 1 → s.mem.read = 1
  | _ => True

/-- A step that is made -/
def Made (next : Option (Option (State Msg))) : Prop := ∀ o ∈ next, ∃ s', o = some s' ∧ Inv s'

theorem Made.of_eq {next : Option (Option (State Msg))}
    (h : ∃ s', next = some (some s') ∧ Inv s') : Made next := by
  obtain ⟨s', heq, hinv⟩ := h
  intro o ho
  rw [heq] at ho
  cases ho
  exact ⟨s', rfl, hinv⟩

theorem Made.none : Made (Option.none : Option (Option (State Msg))) := nofun

theorem Inv.writerStep (h : Inv s) : Made (s.writerStep s.writer) := by
  cases hw : s.writer with
  | idle | done => exact .none
  | grabbing => exact .of_eq (h.grabbing hw)
  | grabbed => exact .of_eq (h.grabbed hw)
  | updating c => exact h.updating hw
  | writing c => exact .of_eq (h.writing hw)
  | stored old => exact .of_eq (h.stored hw)
  | dropping c => exact .of_eq (h.drop hw)
  | freeing c => exact .of_eq (h.free hw)
  | releasing => exact h.releasing hw
  | released => exact .of_eq (h.released hw)
  | freeingLast c => exact .of_eq (h.freeingLast hw)
  | clearing => exact .of_eq (h.clearing hw)
  | cleared => exact .of_eq (h.cleared hw)
  | unlocking => exact .of_eq (h.write_unlock hw)
  | leaving => exact .of_eq (h.write_leave hw)

theorem Inv.readerStep {r : Reader} (h : Inv s) (hget : s.readers[i]? = some r)
    (hlast : Last s (.reader i)) : Made (s.readerStep i r) := by
  have hok := h.readers r (List.mem_of_getElem? hget)
  obtain ⟨live, last, phase⟩ := r
  cases phase with
  | idle => exact .none
  | reading =>
    obtain rfl : live = true := hok
    exact .of_eq (h.reading hget)
  | taken copy latest =>
    obtain rfl : live = true := hok.1
    exact .of_eq (h.taken hget)
  | comparing copy latest =>
    obtain rfl : live = true := hok.1
    exact .of_eq (h.comparing hget)
  | dropping c => exact .of_eq (h.dropping hget)
  | freeing c => exact .of_eq (h.freeing hget)
  | deleting =>
    obtain rfl : live = true := hok
    exact .of_eq (h.deleting hget (hlast _ hget rfl))
  | unlocking =>
    obtain rfl : live = false := hok
    exact .of_eq (h.unlocking hget)
  | leaving =>
    obtain rfl : live = false := hok
    exact .of_eq (h.leaving hget)

theorem Inv.step (h : Inv s) (hlast : Last s a) (hstep : s.step a = some s') : Inv s' := by
  have hfault : ¬s.fault = true := by
    rw [h.fault]
    exact Bool.false_ne_true
  unfold State.step at hstep
  rw [if_neg hfault] at hstep
  cases a with
  | grab =>
    obtain ⟨⟨hw, hwrite⟩, heq⟩ := Option.ite_none_right_eq_some.mp hstep
    have href : 0 < s.total .ref := writer_le_total hw .ref
    rw [touch_eq (h.obj.alive href).1] at heq
    cases heq
    exact h.grab hw hwrite
  | update msg =>
    obtain ⟨hw, heq⟩ := Option.ite_none_right_eq_some.mp hstep
    cases heq
    exact h.update hw
  | release =>
    obtain ⟨hw, heq⟩ := Option.ite_none_right_eq_some.mp hstep
    obtain ⟨hnext, hinv⟩ := h.release hw
    rw [hnext] at heq
    cases heq
    exact hinv
  | read i => exact h.enter (.inl rfl) hstep
  | delete i => exact h.enter (.inr rfl) hstep
  | writer =>
    obtain ⟨next, hnext, heq⟩ := Option.map_eq_some_iff.mp hstep
    obtain ⟨t, rfl, hinv⟩ := h.writerStep next hnext
    cases heq
    exact hinv
  | reader i =>
    obtain ⟨r, hget, hstep⟩ := Option.bind_eq_some_iff.mp hstep
    obtain ⟨next, hnext, heq⟩ := Option.bind_eq_some_iff.mp hstep
    obtain ⟨t, rfl, hinv⟩ := h.readerStep hget hlast next hnext
    cases heq
    exact hinv

/-! ## What is promised -/

/-- No step has touched what was freed, and what is freed is used by nobody. Once the writer and all
readers have released what they had, everything has been freed. -/
structure Safe (s : State Msg) : Prop where
  fault : s.fault = false
  object : s.mem.freed ≤ 1
  copies : ∀ copy ∈ s.mem.copies, copy.freed ≤ 1
  left : s.mem.freed = 1 → s.total .ref = 0 ∧ ∀ r ∈ s.readers, r.live = false
  unused : ∀ c copy, s.mem.copies[c]? = some copy → copy.freed = 1 →
    s.current ≠ some c ∧ ∀ r ∈ s.readers, r.lastcopy ≠ some c ∧ r.phase.print (.hold c) = 0
  ended : s.writer = .done → (∀ r ∈ s.readers, r.live = false ∧ r.phase = .idle) →
    s.mem.freed = 1 ∧ ∀ copy ∈ s.mem.copies, copy.freed = 1
  reads : ∀ x ∈ s.reads, x.Ok (s.mem.copies.map Copy.msg) s.completed

theorem total_zero {x : Res} (hwriter : s.writer.print x = 0) (h : ∀ r ∈ s.readers, r.print x = 0) :
    s.total x = 0 := by
  unfold State.total
  rw [hwriter, Nat.zero_add, List.sum_eq_zero_iff]
  intro n hn
  obtain ⟨r, hr, rfl⟩ := List.mem_map.mp hn
  exact h r hr

theorem print_le_of_mem {r : Reader} (hr : r ∈ s.readers) (x : Res) : r.print x ≤ s.total x := by
  obtain ⟨i, hget⟩ := List.mem_iff_getElem?.mp hr
  exact print_le_total hget x

theorem Inv.safe (h : Inv s) : Safe s where
  fault := h.fault
  object := by
    by_cases href : s.total .ref = 0
    · have hdead := (h.obj.dead href).1
      omega
    · have halive := (h.obj.alive (by omega)).1
      omega
  copies copy hmem := by
    obtain ⟨c, hget⟩ := List.mem_iff_getElem?.mp hmem
    have hok := h.copies.ok c copy hget
    by_cases hhold : s.total (.hold c) + count s.current c = 0
    · have hdead := hok.dead hhold
      omega
    · have halive := (hok.alive (by omega)).1
      omega
  left hfreed := by
    have href : s.total .ref = 0 := by
      by_contra hne
      have halive := (h.obj.alive (by omega)).1
      omega
    refine ⟨href, fun r hr => ?_⟩
    have hle := print_le_of_mem hr .ref
    cases hlive : r.live with
    | false => rfl
    | true =>
      have hprint : r.print .ref = (if r.live then 1 else 0) + 0 := rfl
      rw [hlive, if_pos rfl] at hprint
      omega
  unused c copy hget hfreed := by
    have hhold : s.total (.hold c) + count s.current c = 0 := by
      by_contra hne
      have halive := ((h.copies.ok c copy hget).alive (by omega)).1
      omega
    refine ⟨fun hcurrent => ?_, fun r hr => ?_⟩
    · rw [hcurrent, count_self] at hhold
      omega
    · have hle := print_le_of_mem hr (.hold c)
      have hprint : r.print (.hold c) = count r.lastcopy c + r.phase.print (.hold c) := rfl
      refine ⟨fun hlastcopy => ?_, by omega⟩
      rw [hlastcopy, count_self] at hprint
      omega
  ended hdone hreaders := by
    have hok := h.writer
    rw [hdone] at hok
    have hnone : ∀ x, s.total x = 0 := by
      intro x
      refine total_zero (by rw [hdone]; cases x <;> rfl) fun r hr => ?_
      obtain ⟨hlive, hphase⟩ := hreaders r hr
      have hlastcopy := h.readers r hr
      unfold Reader.Ok at hlastcopy
      rw [hphase] at hlastcopy
      obtain ⟨live, last, phase⟩ := r
      obtain rfl : live = false := hlive
      obtain rfl : phase = .idle := hphase
      obtain rfl : last = none := hlastcopy rfl
      cases x <;> rfl
    refine ⟨?_, fun copy hmem => ?_⟩
    · have hdead := (h.obj.dead (hnone _)).1
      rw [hnone] at hdead
      omega
    · obtain ⟨c, hget⟩ := List.mem_iff_getElem?.mp hmem
      have hcurrent : s.current = none := by
        rw [current_of hdone nofun nofun]
        exact hok.1
      have hdead := (h.copies.ok c copy hget).dead (by rw [hnone, hcurrent]; rfl)
      rw [hnone] at hdead
      omega
  reads := h.reads

/-- **Freed once, and not used afterwards**, in every interleaving in which the reader that gives the
last reference back is alone in the lock. -/
theorem freed_once (msg : Msg) (as : List (Action Msg))
    (hlast : Guarded State.step Last (State.init msg) as)
    (hrun : run State.step (State.init msg) as = some s) : Safe s := by
  have hinv : Inv s :=
    run_invariant (fun _ _ _ h hlast hstep => h.step hlast hstep) (Inv.init msg) hlast hrun
  exact hinv.safe

instance (s : State Msg) : (a : Action Msg) → Decidable (Last s a)
  | .reader i => inferInstanceAs (Decidable (∀ r ∈ s.readers[i]?,
      r.phase = .deleting → s.mem.reference = 1 → s.mem.read = 1))
  | .grab | .update _ | .release | .read _ | .delete _ | .writer =>
    inferInstanceAs (Decidable True)

/-- Two readers, of which one has read the second message, and the writer releases the object. -/
def shared : List (Action ℕ) :=
  [.grab, .writer, .writer, .grab, .writer, .writer, .update 5, .writer, .writer, .writer, .writer,
    .writer, .read 0, .reader 0, .reader 0, .reader 0, .release, .writer, .writer, .writer, .writer,
    .writer]

/-- The readers release the object one after the other. -/
theorem freed_once_shared : ∃ s : State ℕ,
    (s.mem.freed, s.mem.copies.map Copy.freed, s.reads.map Read.msg) = (1, [1, 1], [5]) ∧
      Safe s := by
  let as : List (Action ℕ) := shared ++
    [.delete 0, .reader 0, .reader 0, .reader 0, .reader 0, .delete 1, .reader 1, .reader 1]
  have hsome : ((run State.step (State.init 3) as).map fun s =>
      (s.mem.freed, s.mem.copies.map Copy.freed, s.reads.map Read.msg)) =
      some (1, [1, 1], [5]) := by decide
  obtain ⟨s, hs, heq⟩ := Option.map_eq_some_iff.mp hsome
  exact ⟨s, heq, freed_once 3 as (by decide) hs⟩

/-- A reader has given its reference back, and leaves the lock of an object that the other one has
freed. -/
theorem freed_used : ∃ as : List (Action ℕ), ∃ s,
    run State.step (State.init 3) as = some s ∧ ¬Safe s := by
  let as : List (Action ℕ) := shared ++
    [.delete 0, .delete 1, .reader 0, .reader 1, .reader 1, .reader 0]
  have hsome : ((run State.step (State.init 3) as).map State.fault) = some true := by decide
  obtain ⟨s, hs, hfault⟩ := Option.map_eq_some_iff.mp hsome
  refine ⟨as, s, hs, fun h => ?_⟩
  rw [h.fault] at hfault
  cases hfault

end SkynetEureka.Stm
