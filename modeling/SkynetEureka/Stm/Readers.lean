import SkynetEureka.Stm.Threads

/-!
# The steps of a reader

Each step of a reader keeps `Inv` and is no fault. Where the last reference of the object goes, no
other thread may be in the lock.
-/

namespace SkynetEureka.Stm

open Lib

variable {Msg : Type} {s : State Msg} {mem : Mem Msg} {r r' : Reader} {i c latest : ℕ}
  {o last : Option ℕ} {x : Res} {live : Bool}

/-! ## What a step changes -/

theorem total_same (hget : s.readers[i]? = some r) (heq : r'.print x = r.print x) :
    (s.put i r' mem).total x = s.total x := by
  have hput := @total_put _ s mem r r' i hget x
  omega

theorem total_succ (hget : s.readers[i]? = some r) (heq : r'.print x = r.print x + 1) :
    (s.put i r' mem).total x = s.total x + 1 := by
  have hput := @total_put _ s mem r r' i hget x
  omega

theorem total_pred (hget : s.readers[i]? = some r) (heq : r.print x = r'.print x + 1) :
    s.total x = (s.put i r' mem).total x + 1 := by
  have hput := @total_put _ s mem r r' i hget x
  omega

theorem total_write (hget : s.readers[i]? = some r) :
    (s.put i r' mem).total .write = s.total .write := total_same hget rfl

theorem touch_eq {α : Type} {m : Mem Msg} (hfreed : m.freed = 0) (next : Option α) :
    m.touch next = next := if_pos hfreed

/-- A reader goes on, and the counters with it. -/
theorem Inv.put (h : Inv s)
    (hobj : ObjOk mem ((s.put i r' mem).total .ref) ((s.put i r' mem).total .read)
      ((s.put i r' mem).total .write) ((s.put i r' mem).total .free))
    (hcopies : CopiesOk mem.copies
      (fun c => (s.put i r' mem).total (.hold c) + count s.current c)
      (fun c => (s.put i r' mem).total (.drop c)))
    (hcopy : mem.copy = s.mem.copy)
    (hmsgs : mem.copies.map Copy.msg = s.mem.copies.map Copy.msg) (hr' : r'.Ok s.completed) :
    Inv (s.put i r' mem) := by
  have hcurrent : (s.put i r' mem).current = s.current := by
    unfold State.current State.put
    dsimp only
    rw [hcopy]
  have hlength : mem.copies.length = s.mem.copies.length := by
    rw [← List.length_map Copy.msg, hmsgs, List.length_map]
  refine ⟨h.fault, hobj, ?_, ?_, ?_, ?_⟩
  · rw [hcurrent]
    exact hcopies
  · show s.writer.Ok mem.copy mem.copies.length s.completed
    rw [hcopy, hlength]
    exact h.writer
  · intro r₁ hr₁
    rcases List.mem_or_eq_of_mem_set hr₁ with hold | rfl
    · exact h.readers r₁ hold
    · exact hr'
  · intro x hx
    show x.Ok (mem.copies.map Copy.msg) s.completed
    rw [hmsgs]
    exact h.reads x hx

/-- What a reader has of the copies stays the same. -/
theorem Inv.same_copies (h : Inv s) (hget : s.readers[i]? = some r)
    (hhold : ∀ c, r'.print (.hold c) = r.print (.hold c))
    (hdrop : ∀ c, r'.print (.drop c) = r.print (.drop c)) :
    CopiesOk s.mem.copies (fun c => (s.put i r' mem).total (.hold c) + count s.current c)
      (fun c => (s.put i r' mem).total (.drop c)) := by
  refine h.copies.congr ?_ ?_
  · intro c
    rw [total_same hget (hhold c)]
  · intro c
    rw [total_same hget (hdrop c)]

/-- What a reader has of the object stays the same. -/
theorem Inv.same_obj (h : Inv s) (hget : s.readers[i]? = some r)
    (href : r'.print .ref = r.print .ref) (hread : r'.print .read = r.print .read)
    (hfree : r'.print .free = r.print .free) :
    ObjOk s.mem ((s.put i r' mem).total .ref) ((s.put i r' mem).total .read)
      ((s.put i r' mem).total .write) ((s.put i r' mem).total .free) := by
  rw [total_same hget href, total_same hget hread, total_write hget, total_same hget hfree]
  exact h.obj

theorem ObjOk.cast {m : Mem Msg} {ref rd wr fr ref' rd' wr' fr' : ℕ} (h : ObjOk m ref rd wr fr)
    (href : ref' = ref) (hread : rd' = rd) (hwrite : wr' = wr) (hfree : fr' = fr) :
    ObjOk m ref' rd' wr' fr' := by
  rw [href, hread, hwrite, hfree]
  exact h

theorem ObjOk.put {m : Mem Msg} {ref rd wr fr : ℕ} (h : ObjOk m ref rd wr fr)
    (copy : Copy Msg) : ObjOk (m.put c copy) ref rd wr fr :=
  ⟨h.reference, h.alive, h.dead, h.read, h.write, h.one, h.excl⟩

/-! ## The lock -/

/-- As long as a reader is in the lock, the writer is not: the current copy is the last one. -/
theorem Inv.current_eq (h : Inv s) (hread : 0 < s.total .read) :
    s.current = s.mem.copy ∧ ∀ c, s.mem.copy = some c → c + 1 = s.completed := by
  have hwrite : s.writer.print .write = 0 := by
    by_contra hne
    have hone := h.obj.one
    have hexcl := h.obj.excl
    unfold State.total at hone hexcl hread
    have hrest : 0 ≤ (s.readers.map fun r => r.print .write).sum := Nat.zero_le _
    have hle : s.writer.print .write ≤ 1 := by omega
    have hread' := hexcl (by omega)
    omega
  have hok := h.writer
  unfold State.current
  -- the phases in the lock are excluded
  cases hw : s.writer <;> rw [hw] at hok hwrite <;> simp [Writer.print] at hwrite
  all_goals refine ⟨rfl, fun c hc => ?_⟩
  all_goals first
    | obtain ⟨⟨old, hold, hcompleted⟩, -⟩ := hok
      rw [hc] at hold
      cases hold
      exact hcompleted
    | rw [hok.1] at hc
      cases hc

/-- The beginning of `stm_copy` or of `stm_releasereader` -/
theorem Inv.enter {phase : Phase} (h : Inv s) (hphase : phase = .reading ∨ phase = .deleting)
    {s' : State Msg} (hstep : s.enter i phase = some s') : Inv s' := by
  unfold State.enter at hstep
  obtain ⟨⟨live, last, p⟩, hget, hstep⟩ := Option.bind_eq_some_iff.mp hstep
  obtain ⟨⟨hidle, hlive, hwrite⟩, heq⟩ := Option.ite_none_right_eq_some.mp hstep
  have hidle : p = .idle := hidle
  have hlive : live = true := hlive
  subst hidle hlive
  have href : 0 < s.total .ref := (print_le_total hget .ref : 1 ≤ _)
  rw [touch_eq (h.obj.alive href).1] at heq
  cases heq
  have hobj := h.obj.rlock hwrite href
  rcases hphase with rfl | rfl
  · refine h.put ?_ (h.same_copies hget (fun _ => rfl) fun _ => rfl) rfl rfl rfl
    exact hobj.cast (total_same hget rfl) (total_succ hget rfl) (total_write hget)
      (total_same hget rfl)
  · refine h.put ?_ (h.same_copies hget (fun _ => rfl) fun _ => rfl) rfl rfl rfl
    exact hobj.cast (total_same hget rfl) (total_succ hget rfl) (total_write hget)
      (total_same hget rfl)

/-! ## `stm_copy` and `lread` -/

/-- The reader takes the current copy. -/
theorem Inv.reading (h : Inv s) (hget : s.readers[i]? = some ⟨true, last, .reading⟩) :
    ∃ s', s.readerStep i ⟨true, last, .reading⟩ = some (some s') ∧ Inv s' := by
  have href : 0 < s.total .ref := (print_le_total hget .ref : 1 ≤ _)
  have hread : 0 < s.total .read := (print_le_total hget .read : 1 ≤ _)
  obtain ⟨hcurrent, hlatest⟩ := h.current_eq hread
  unfold State.readerStep
  dsimp only
  rw [touch_eq (h.obj.alive href).1]
  cases hcopy : s.mem.copy with
  | none =>
    refine ⟨_, rfl, h.put ?_ ?_ rfl rfl ⟨rfl, nofun⟩⟩
    · exact h.same_obj hget rfl rfl rfl
    · exact h.same_copies hget (fun _ => rfl) fun _ => rfl
  | some c =>
    rw [hcopy] at hcurrent
    let r' : Reader := ⟨true, last, .taken (some c) s.completed⟩
    have hold : ∀ mem c', (s.put i r' mem).total (.hold c') =
        s.total (.hold c') + count (some c) c' := by
      intro mem c'
      have hput := @total_put _ s mem _ r' i hget (.hold c')
      have hr : (⟨true, last, .reading⟩ : Reader).print (.hold c') = count last c' + 0 := rfl
      have hr' : r'.print (.hold c') = count last c' + count (some c) c' := rfl
      omega
    have hpos : 0 < s.total (.hold c) + count s.current c := by
      rw [hcurrent, count_self]
      exact Nat.succ_pos _
    have hsucc : ∀ mem, Succ (fun c' => s.total (.hold c') + count s.current c')
        (fun c' => (s.put i r' mem).total (.hold c') + count s.current c') c := by
      intro mem
      refine ⟨?_, fun c' hne => ?_⟩
      · dsimp only
        rw [hold, count_self]
        omega
      · dsimp only
        rw [hold, count_of_ne hne, Nat.add_zero]
    obtain ⟨copy', hinc, hcopies, hmsgs⟩ := h.copies.inc hpos (hsucc s.mem)
    refine ⟨s.put i r' (s.mem.put c copy'), ?_, h.put ?_ ?_ rfl hmsgs ⟨rfl, ?_⟩⟩
    · dsimp only
      rw [hinc]
      rfl
    · exact (h.obj.put copy').cast (total_same hget rfl) (total_same hget rfl) (total_write hget)
        (total_same hget rfl)
    · refine hcopies.congr (fun c' => ?_) fun c' => total_same hget rfl
      rw [hold, hold]
    · intro c' hc'
      cases hc'
      exact ⟨hlatest c hcopy, Nat.le_refl _⟩

/-- The reader leaves the lock. -/
theorem Inv.taken (h : Inv s) (hget : s.readers[i]? = some ⟨true, last, .taken o latest⟩) :
    ∃ s', s.readerStep i ⟨true, last, .taken o latest⟩ = some (some s') ∧ Inv s' := by
  have href : 0 < s.total .ref := (print_le_total hget .ref : 1 ≤ _)
  have hok := h.readers _ (List.mem_of_getElem? hget)
  unfold State.readerStep
  dsimp only
  rw [touch_eq (h.obj.alive href).1]
  refine ⟨_, rfl, h.put ?_ (h.same_copies hget (fun _ => rfl) fun _ => rfl) rfl rfl hok⟩
  have hread : s.total .read =
      (s.put i ⟨true, last, .comparing o latest⟩ s.mem.runlock).total .read + 1 :=
    total_pred hget rfl
  have hobj := h.obj
  rw [hread] at hobj
  exact (hobj.runlock href).cast (total_same hget rfl) rfl (total_write hget)
    (total_same hget rfl)

/-- What becomes of a reader that gives up the copy `o` -/
theorem print_drop (live : Bool) (last o : Option ℕ) (x : Res) :
    (⟨live, last, o.elim .idle .dropping⟩ : Reader).print x =
      (⟨live, last, .comparing o latest⟩ : Reader).print x := by
  cases o with
  | none => cases x <;> rfl
  | some c => cases x <;> rfl

theorem ok_drop {live : Bool} {last : Option ℕ} (o : Option ℕ) (completed : ℕ)
    (h : live = false → last = none) :
    (⟨live, last, o.elim .idle .dropping⟩ : Reader).Ok completed := by
  cases o <;> exact h

/-- The reader keeps one of its two copies, and gives the other one up. -/
theorem Inv.comparing (h : Inv s)
    (hget : s.readers[i]? = some ⟨true, last, .comparing o latest⟩) :
    ∃ s', s.readerStep i ⟨true, last, .comparing o latest⟩ = some (some s') ∧ Inv s' := by
  have hok := h.readers _ (List.mem_of_getElem? hget)
  unfold State.readerStep
  dsimp only
  split
  · refine ⟨_, rfl, h.put ?_ ?_ rfl rfl (ok_drop _ _ nofun)⟩
    · exact h.same_obj hget (print_drop _ _ _ _) (print_drop _ _ _ _) (print_drop _ _ _ _)
    · exact h.same_copies hget (fun _ => print_drop _ _ _ _) fun _ => print_drop _ _ _ _
  · have hswap : ∀ x, (⟨true, o, last.elim .idle .dropping⟩ : Reader).print x =
        (⟨true, last, .comparing o latest⟩ : Reader).print x := by
      intro x
      rw [@print_drop latest]
      cases x with
      | hold c =>
        show count o c + count last c = count last c + count o c
        exact Nat.add_comm _ _
      | _ => rfl
    have hinv : Inv (s.put i ⟨true, o, last.elim .idle .dropping⟩ s.mem) := by
      refine h.put ?_ ?_ rfl rfl (ok_drop _ _ nofun)
      · exact h.same_obj hget (hswap _) (hswap _) (hswap _)
      · exact h.same_copies hget (fun _ => hswap _) fun _ => hswap _
    cases o with
    | none => exact ⟨_, rfl, hinv⟩
    | some c =>
      obtain ⟨hlatest, hle⟩ := hok.2 c rfl
      have hhold : 1 ≤ s.total (.hold c) := by
        have hle := print_le_total hget (.hold c)
        have hprint : (⟨true, last, .comparing (some c) latest⟩ : Reader).print (.hold c) =
            count last c + count (some c) c := rfl
        rw [count_self] at hprint
        omega
      obtain ⟨copy, hcopy, hfreed, -⟩ := h.copies.exists (c := c) (by omega)
      refine ⟨{ s.put i ⟨true, some c, last.elim .idle .dropping⟩ s.mem with
        reads := s.reads ++ [⟨copy.msg, latest⟩] }, ?_, ?_⟩
      · unfold Mem.touchCopy
        dsimp only
        rw [hcopy]
        show some (if copy.freed = 0 then _ else none) = _
        rw [if_pos hfreed]
      · refine ⟨hinv.fault, hinv.obj, hinv.copies, hinv.writer, hinv.readers, ?_⟩
        intro x hx
        rcases List.mem_append.mp hx with hold | hnew
        · exact h.reads x hold
        · rw [List.mem_singleton.mp hnew]
          refine ⟨hle, c, hlatest, ?_⟩
          show (s.mem.copies.map Copy.msg)[c]? = some copy.msg
          rw [List.getElem?_map, hcopy]
          rfl

/-! ## `stm_releasecopy` -/

/-- A reader gives a copy up. -/
theorem Inv.dropping (h : Inv s) (hget : s.readers[i]? = some ⟨live, last, .dropping c⟩) :
    ∃ s', s.readerStep i ⟨live, last, .dropping c⟩ = some (some s') ∧ Inv s' := by
  have hok : live = false → last = none := h.readers _ (List.mem_of_getElem? hget)
  have hold : ∀ mem phase c', phase = .idle ∨ phase = .freeing c →
      s.total (.hold c') =
        (s.put i ⟨live, last, phase⟩ mem).total (.hold c') + count (some c) c' := by
    intro mem phase c' hphase
    have hput := @total_put _ s mem _ ⟨live, last, phase⟩ i hget (.hold c')
    have hr : (⟨live, last, .dropping c⟩ : Reader).print (.hold c') =
        count last c' + count (some c) c' := rfl
    have hr' : (⟨live, last, phase⟩ : Reader).print (.hold c') = count last c' + 0 := by
      rcases hphase with rfl | rfl <;> rfl
    omega
  have hsucc : ∀ mem phase, phase = .idle ∨ phase = .freeing c →
      Succ (fun c' => (s.put i ⟨live, last, phase⟩ mem).total (.hold c') + count s.current c')
        (fun c' => s.total (.hold c') + count s.current c') c := by
    intro mem phase hphase
    refine ⟨?_, fun c' hne => ?_⟩
    · dsimp only
      rw [hold mem phase c hphase, count_self]
      omega
    · dsimp only
      rw [hold mem phase c' hphase, count_of_ne hne, Nat.add_zero]
  obtain ⟨copy', reference, hdec, hmsgs, hzero, hmore⟩ :=
    h.copies.dec (hsucc s.mem .idle (.inl rfl))
  unfold State.readerStep
  dsimp only
  rw [hdec]
  refine ⟨_, rfl, ?_⟩
  by_cases hlast : reference = 0
  · rw [if_pos hlast]
    refine h.put ?_ ?_ rfl hmsgs hok
    · exact (h.obj.put copy').cast (total_same hget rfl) (total_same hget rfl) (total_write hget)
        (total_same hget rfl)
    · have hdrop : ∀ mem c', (s.put i ⟨live, last, .freeing c⟩ mem).total (.drop c') =
          s.total (.drop c') + count (some c) c' := by
        intro mem c'
        have hput := @total_put _ s mem _ ⟨live, last, .freeing c⟩ i hget (.drop c')
        have hr : (⟨live, last, .dropping c⟩ : Reader).print (.drop c') = 0 + 0 := rfl
        have hr' : (⟨live, last, .freeing c⟩ : Reader).print (.drop c') =
            0 + count (some c) c' := rfl
        omega
      refine (hzero hlast (fun c' => s.total (.drop c') + count (some c) c') ⟨?_, ?_⟩).congr
        (fun c' => ?_) fun c' => hdrop _ c'
      · dsimp only
        rw [count_self]
      · intro c' hne
        dsimp only
        rw [count_of_ne hne, Nat.add_zero]
      · have hidle := hold s.mem .idle c' (.inl rfl)
        have hfreeing := hold (s.mem.put c copy') (.freeing c) c' (.inr rfl)
        dsimp only
        omega
  · rw [if_neg hlast]
    refine h.put ?_ ?_ rfl hmsgs hok
    · exact (h.obj.put copy').cast (total_same hget rfl) (total_same hget rfl) (total_write hget)
        (total_same hget rfl)
    · exact (hmore hlast).congr (fun _ => rfl) fun c' => total_same hget rfl

/-- A reader frees a copy. -/
theorem Inv.freeing (h : Inv s) (hget : s.readers[i]? = some ⟨live, last, .freeing c⟩) :
    ∃ s', s.readerStep i ⟨live, last, .freeing c⟩ = some (some s') ∧ Inv s' := by
  have hok : live = false → last = none := h.readers _ (List.mem_of_getElem? hget)
  have hdrop : ∀ mem c', s.total (.drop c') =
      (s.put i ⟨live, last, .idle⟩ mem).total (.drop c') + count (some c) c' := by
    intro mem c'
    have hput := @total_put _ s mem _ ⟨live, last, .idle⟩ i hget (.drop c')
    have hr : (⟨live, last, .freeing c⟩ : Reader).print (.drop c') = 0 + count (some c) c' := rfl
    have hr' : (⟨live, last, .idle⟩ : Reader).print (.drop c') = 0 + 0 := rfl
    omega
  have hsucc : Succ (fun c' => (s.put i ⟨live, last, .idle⟩ s.mem).total (.drop c'))
      (fun c' => s.total (.drop c')) c := by
    refine ⟨?_, fun c' hne => ?_⟩
    · dsimp only
      rw [hdrop s.mem, count_self]
    · dsimp only
      rw [hdrop s.mem, count_of_ne hne, Nat.add_zero]
  obtain ⟨copy', hfree, hcopies, hmsgs⟩ := h.copies.free hsucc
  unfold State.readerStep
  dsimp only
  rw [hfree]
  refine ⟨_, rfl, h.put ?_ ?_ rfl hmsgs hok⟩
  · exact (h.obj.put copy').cast (total_same hget rfl) (total_same hget rfl) (total_write hget)
      (total_same hget rfl)
  · refine hcopies.congr (fun c' => ?_) fun _ => rfl
    have hsame : (s.put i ⟨live, last, .idle⟩ (s.mem.put c copy')).total (.hold c') =
        s.total (.hold c') := total_same hget rfl
    rw [← hsame]

/-! ## `stm_releasereader` -/

/-- A reader gives its handle up. The last one has to be alone in the lock. -/
theorem Inv.deleting (h : Inv s) (hget : s.readers[i]? = some ⟨true, last, .deleting⟩)
    (halone : s.mem.reference = 1 → s.mem.read = 1) :
    ∃ s', s.readerStep i ⟨true, last, .deleting⟩ = some (some s') ∧ Inv s' := by
  have href : 0 < s.total .ref := (print_le_total hget .ref : 1 ≤ _)
  have hfreed := (h.obj.alive href).1
  have hpred : ∀ mem phase, s.total .ref = (s.put i ⟨false, last, phase⟩ mem).total .ref + 1 :=
    fun mem phase => total_pred hget rfl
  unfold State.readerStep
  dsimp only
  rw [touch_eq hfreed]
  refine ⟨_, rfl, ?_⟩
  have hcount := h.obj.reference
  have hobj := h.obj
  by_cases hzero : s.mem.reference - 1 = 0
  · rw [if_pos hzero]
    have hone : s.total .ref = 1 := by omega
    have hread : s.total .read = 1 := by
      rw [← h.obj.read hfreed]
      exact halone (by omega)
    have hwrite : s.total .write = 0 := by
      have hle := h.obj.one
      by_contra hne
      have hnone := h.obj.excl (by omega)
      omega
    rw [hone] at hobj
    refine h.put ((hobj.last (by omega)).cast ?_ (total_same hget rfl) (total_write hget)
      (total_succ hget rfl)) (h.same_copies hget (fun _ => rfl) fun _ => rfl) rfl rfl rfl
    have hpred := hpred { s.mem with reference := s.mem.reference - 1 } .leaving
    rw [hone] at hpred
    exact (Nat.succ.inj hpred).symm
  · rw [if_neg hzero]
    have hpred := hpred { s.mem with reference := s.mem.reference - 1 } .unlocking
    rw [hpred] at hobj hcount
    refine h.put ((hobj.release (by omega)).cast rfl (total_same hget rfl) (total_write hget)
      (total_same hget rfl)) (h.same_copies hget (fun _ => rfl) fun _ => rfl) rfl rfl rfl

/-- What a reader still has when it has left the object -/
theorem print_leave (r : Reader) (c : ℕ) (hphase : ∀ c, r.phase.print (.hold c) = 0) :
    (State.leave r).print (.hold c) = r.print (.hold c) := by
  unfold Reader.print
  rw [hphase c]
  unfold State.leave
  cases hlast : r.lastcopy with
  | none =>
    show 0 + 0 = count r.lastcopy c + 0
    rw [hlast]
    rfl
  | some c' =>
    show 0 + count (some c') c = count r.lastcopy c + 0
    rw [hlast, Nat.zero_add, Nat.add_zero]

theorem print_leave_lock (r : Reader) :
    (State.leave r).print .read = 0 ∧ (State.leave r).print .free = 0 ∧
      (State.leave r).print .ref = r.box .ref ∧ ∀ c, (State.leave r).print (.drop c) = 0 := by
  unfold State.leave
  cases r.lastcopy <;> exact ⟨rfl, rfl, rfl, fun _ => rfl⟩

theorem ok_leave (r : Reader) (completed : ℕ) : (State.leave r).Ok completed :=
  ok_drop _ _ fun _ => rfl

/-- A reader that was not the last one leaves the lock. -/
theorem Inv.unlocking (h : Inv s) (hget : s.readers[i]? = some ⟨false, last, .unlocking⟩) :
    ∃ s', s.readerStep i ⟨false, last, .unlocking⟩ = some (some s') ∧ Inv s' := by
  have href : 0 < s.total .ref := ref_of_reader h.obj hget Nat.zero_lt_one
  obtain ⟨hread, hfree, hbox, hdrop⟩ := print_leave_lock ⟨false, last, .unlocking⟩
  unfold State.readerStep
  dsimp only
  rw [touch_eq (h.obj.alive href).1]
  refine ⟨_, rfl, h.put ?_ ?_ rfl rfl (ok_leave _ _)⟩
  · have hobj := h.obj
    have hpred : s.total .read =
        (s.put i (State.leave ⟨false, last, .unlocking⟩) s.mem.runlock).total .read + 1 :=
      total_pred hget (by rw [hread]; rfl)
    rw [hpred] at hobj
    exact (hobj.runlock href).cast (total_same hget hbox) rfl (total_write hget)
      (total_same hget hfree)
  · exact h.same_copies hget (fun c => print_leave _ c fun _ => rfl) hdrop

/-- The last reader frees the object, and leaves the lock locked. -/
theorem Inv.leaving (h : Inv s) (hget : s.readers[i]? = some ⟨false, last, .leaving⟩) :
    ∃ s', s.readerStep i ⟨false, last, .leaving⟩ = some (some s') ∧ Inv s' := by
  have hread : 1 ≤ s.total .read := print_le_total hget .read
  have hfree : 1 ≤ s.total .free := print_le_total hget .free
  have href : s.total .ref = 0 := by
    by_contra hne
    have hnone := (h.obj.alive (by omega)).2
    omega
  -- the writer is gone, and has taken the copy with it
  have hcopy : s.mem.copy = none := by
    have hwriter : s.writer.print .ref = 0 := by
      unfold State.total at href
      omega
    have hok := h.writer
    cases hw : s.writer <;> rw [hw] at hok hwriter <;> simp [Writer.print] at hwriter
    all_goals exact hok.1
  obtain ⟨hread', hfree', hbox, hdrop⟩ := print_leave_lock ⟨false, last, .leaving⟩
  have hfreed : s.mem.freed = 0 := h.obj.not_freed (by omega)
  unfold State.readerStep Mem.free
  dsimp only
  rw [if_pos hcopy, touch_eq hfreed]
  refine ⟨_, rfl, h.put ?_ ?_ rfl rfl (ok_leave _ _)⟩
  · have hobj := h.obj
    have hpred : ∀ mem, s.total .free =
        (s.put i (State.leave ⟨false, last, .leaving⟩) mem).total .free + 1 :=
      fun mem => total_pred hget (by rw [hfree']; rfl)
    have hpred' : ∀ mem, s.total .read =
        (s.put i (State.leave ⟨false, last, .leaving⟩) mem).total .read + 1 :=
      fun mem => total_pred hget (by rw [hread']; rfl)
    rw [hpred { s.mem with freed := s.mem.freed + 1 }] at hobj
    refine (hobj.free ?_ (Nat.le_refl _)).cast (total_same hget hbox) rfl (total_write hget) rfl
    rw [hpred' { s.mem with freed := s.mem.freed + 1 }]
    exact Nat.add_right_comm _ _ _
  · exact h.same_copies hget (fun c => print_leave _ c fun _ => rfl) hdrop

end SkynetEureka.Stm
