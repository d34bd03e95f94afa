import SkynetEureka.Stm.Readers

/-!
# The steps of the writer

Each step of the writer keeps `Inv` and is no fault.
-/

namespace SkynetEureka.Stm

open Lib

variable {Msg : Type} {s t : State Msg} {mem : Mem Msg} {w w' : Writer} {c : ℕ} {old : Option ℕ}
  {x : Res}

/-! ## What a step changes -/

theorem total_writer (hreaders : t.readers = s.readers) (x : Res) :
    t.total x + s.writer.print x = s.total x + t.writer.print x := by
  unfold State.total
  rw [hreaders]
  omega

theorem wsame (hw : s.writer = w) (hreaders : t.readers = s.readers) (hw' : t.writer = w')
    (heq : w'.print x = w.print x) : t.total x = s.total x := by
  have htotal := total_writer hreaders x
  rw [hw, hw'] at htotal
  omega

theorem wsucc (hw : s.writer = w) (hreaders : t.readers = s.readers) (hw' : t.writer = w')
    (heq : w'.print x = w.print x + 1) : t.total x = s.total x + 1 := by
  have htotal := total_writer hreaders x
  rw [hw, hw'] at htotal
  omega

theorem wpred (hw : s.writer = w) (hreaders : t.readers = s.readers) (hw' : t.writer = w')
    (heq : w.print x = w'.print x + 1) : s.total x = t.total x + 1 := by
  have htotal := total_writer hreaders x
  rw [hw, hw'] at htotal
  omega

theorem writer_le_total (hw : s.writer = w) (x : Res) : w.print x ≤ s.total x := by
  unfold State.total
  rw [hw]
  exact Nat.le_add_right _ _

theorem Reader.Ok.mono {r : Reader} {n m : ℕ} (h : r.Ok n) (hle : n ≤ m) : r.Ok m := by
  unfold Reader.Ok at h ⊢
  split at h
  · exact h
  · exact h
  · exact ⟨h.1, fun c hc => ⟨(h.2 c hc).1, (h.2 c hc).2.trans hle⟩⟩
  · exact ⟨h.1, fun c hc => ⟨(h.2 c hc).1, (h.2 c hc).2.trans hle⟩⟩
  · exact h
  · exact h
  · exact h

/-- The writer goes on, and the counters with it. -/
theorem Inv.write (h : Inv s) (hfault : t.fault = s.fault) (hreads : t.reads = s.reads)
    (hreaders : ∀ r ∈ t.readers, r ∈ s.readers ∨ r = ⟨true, none, .idle⟩)
    (hcompleted : s.completed ≤ t.completed)
    (hmsgs : ∃ more, t.mem.copies.map Copy.msg = s.mem.copies.map Copy.msg ++ more)
    (hobj : ObjOk t.mem (t.total .ref) (t.total .read) (t.total .write) (t.total .free))
    (hcopies : CopiesOk t.mem.copies (fun c => t.total (.hold c) + count t.current c)
      (fun c => t.total (.drop c)))
    (hwriter : t.writer.Ok t.mem.copy t.mem.copies.length t.completed) : Inv t := by
  refine ⟨hfault.trans h.fault, hobj, hcopies, hwriter, ?_, ?_⟩
  · intro r hr
    rcases hreaders r hr with hold | rfl
    · exact (h.readers r hold).mono hcompleted
    · exact nofun
  · intro x hx
    rw [hreads] at hx
    obtain ⟨hle, c, hc, hmsg⟩ := h.reads x hx
    obtain ⟨more, hmore⟩ := hmsgs
    refine ⟨hle.trans hcompleted, c, hc, ?_⟩
    rw [hmore, List.getElem?_append_left (List.getElem?_eq_some_iff.mp hmsg).1]
    exact hmsg

/-- The copies stay as they are, and what the writer has of them. -/
theorem Inv.write_lock (h : Inv s) (hw : s.writer = w) (hw' : t.writer = w')
    (hfault : t.fault = s.fault) (hreads : t.reads = s.reads) (hreaders : t.readers = s.readers)
    (hcompleted : s.completed ≤ t.completed) (hcopies : t.mem.copies = s.mem.copies)
    (hcurrent : t.current = s.current)
    (hhold : ∀ c, w'.print (.hold c) = w.print (.hold c))
    (hdrop : ∀ c, w'.print (.drop c) = w.print (.drop c))
    (hobj : ObjOk t.mem (t.total .ref) (t.total .read) (t.total .write) (t.total .free))
    (hwriter : w'.Ok t.mem.copy t.mem.copies.length t.completed) : Inv t := by
  refine h.write hfault hreads ?_ hcompleted ?_ hobj ?_ ?_
  · intro r hr
    rw [hreaders] at hr
    exact .inl hr
  · rw [hcopies]
    exact ⟨[], (List.append_nil _).symm⟩
  · rw [hcopies, hcurrent]
    exact h.copies.congr (fun c => by rw [wsame hw hreaders hw' (hhold c)])
      fun c => wsame hw hreaders hw' (hdrop c)
  · rw [hw']
    exact hwriter

/-- The current copy, unless the writer has given it up. -/
theorem current_of (hw : s.writer = w) (hlast : ∀ c, w ≠ .freeingLast c) (hclearing : w ≠ .clearing) :
    s.current = s.mem.copy := by
  unfold State.current
  rw [hw]
  split
  · exact (hlast _ rfl).elim
  · exact (hclearing rfl).elim
  · rfl

/-! ## `stm_grab` -/

theorem Inv.grab (h : Inv s) (hw : s.writer = .idle) (hwrite : s.mem.write = false) :
    Inv { s with mem := s.mem.rlock, writer := .grabbing } := by
  have href : 0 < s.total .ref := writer_le_total hw .ref
  have hok := h.writer
  rw [hw] at hok
  refine h.write_lock hw rfl rfl rfl rfl (Nat.le_refl _) rfl ?_ (fun _ => rfl) (fun _ => rfl) ?_ hok
  · exact (current_of hw nofun nofun).symm
  · exact (h.obj.rlock hwrite href).cast (wsame hw rfl rfl rfl) (wsucc hw rfl rfl rfl)
      (wsame hw rfl rfl rfl) (wsame hw rfl rfl rfl)

/-- The new reference is that of a new reader. -/
theorem Inv.grabbing (h : Inv s) (hw : s.writer = .grabbing) :
    ∃ s', s.writerStep .grabbing = some (some s') ∧ Inv s' := by
  have href : 0 < s.total .ref := writer_le_total hw .ref
  have hok := h.writer
  rw [hw] at hok
  have hreference : 0 < s.mem.reference := by
    rw [h.obj.reference]
    exact Int.natCast_pos.mpr href
  unfold State.writerStep
  dsimp only
  rw [touch_eq (h.obj.alive href).1, if_pos hreference]
  refine ⟨_, rfl, ?_⟩
  have hnew : ∀ x (mem : Mem Msg), ({ s with
      mem := mem, readers := s.readers ++ [⟨true, none, .idle⟩], writer := .grabbed } :
        State Msg).total x = s.total x + (⟨true, none, .idle⟩ : Reader).print x := by
    intro x mem
    have hprint : Writer.grabbed.print x = Writer.grabbing.print x := by cases x <;> rfl
    unfold State.total
    dsimp only
    rw [hw, hprint, List.map_append, List.sum_append, List.map_singleton, List.sum_singleton]
    omega
  refine h.write rfl rfl ?_ (Nat.le_refl _) ⟨[], (List.append_nil _).symm⟩ ?_ ?_ hok
  · intro r hr
    exact (List.mem_append.mp hr).imp_right List.mem_singleton.mp
  · exact (h.obj.grab href).cast (hnew .ref _) (hnew .read _) (hnew .write _) (hnew .free _)
  · refine h.copies.congr (fun c => ?_) fun c => hnew (.drop c) _
    rw [hnew (.hold c), current_of hw nofun nofun]
    rfl

theorem Inv.grabbed (h : Inv s) (hw : s.writer = .grabbed) :
    ∃ s', s.writerStep .grabbed = some (some s') ∧ Inv s' := by
  have href : 0 < s.total .ref := writer_le_total hw .ref
  have hok := h.writer
  rw [hw] at hok
  unfold State.writerStep
  dsimp only
  rw [touch_eq (h.obj.alive href).1]
  refine ⟨_, rfl, ?_⟩
  refine h.write_lock hw rfl rfl rfl rfl (Nat.le_refl _) rfl ?_ (fun _ => rfl) (fun _ => rfl) ?_ hok
  · exact (current_of hw nofun nofun).symm
  · have hobj := h.obj
    have hpred : s.total .read =
        ({ s with mem := s.mem.runlock, writer := .idle } : State Msg).total .read + 1 :=
      wpred hw rfl rfl rfl
    rw [hpred] at hobj
    exact (hobj.runlock href).cast (wsame hw rfl rfl rfl) rfl (wsame hw rfl rfl rfl)
      (wsame hw rfl rfl rfl)

/-! ## `stm_update` -/

/-- `stm_newcopy` -/
theorem Inv.update {msg : Msg} (h : Inv s) (hw : s.writer = .idle) :
    Inv { s with
      mem := { s.mem with copies := s.mem.copies ++ [⟨1, msg, 0⟩] }
      writer := .updating s.mem.copies.length } := by
  have hok := h.writer
  rw [hw] at hok
  obtain ⟨hcurrent, hlength⟩ := hok
  let t : State Msg := { s with
    mem := { s.mem with copies := s.mem.copies ++ [⟨1, msg, 0⟩] }
    writer := .updating s.mem.copies.length }
  have htotal : ∀ c, t.total (.hold c) = s.total (.hold c) + count (some s.mem.copies.length) c := by
    intro c
    have htotal := @total_writer _ s t rfl (.hold c)
    rw [hw] at htotal
    exact htotal
  have hobj : ObjOk t.mem (s.total .ref) (s.total .read) (s.total .write) (s.total .free) :=
    ⟨h.obj.reference, h.obj.alive, h.obj.dead, h.obj.read, h.obj.write, h.obj.one, h.obj.excl⟩
  refine h.write rfl rfl (fun r hr => .inl hr) (Nat.le_refl _) ⟨[msg], ?_⟩ ?_ ?_ ?_
  · exact List.map_append
  · exact hobj.cast (wsame hw rfl rfl rfl) (wsame hw rfl rfl rfl) (wsame hw rfl rfl rfl)
      (wsame hw rfl rfl rfl)
  · have hsucc : Succ (fun c => s.total (.hold c) + count s.current c)
        (fun c => t.total (.hold c) + count t.current c) s.mem.copies.length := by
      refine ⟨?_, fun c hne => ?_⟩
      · dsimp only
        rw [htotal, count_self, current_of hw nofun nofun]
        exact Nat.add_right_comm _ _ _
      · dsimp only
        rw [htotal, count_of_ne hne, current_of hw nofun nofun]
        rfl
    exact (h.copies.new hsucc).congr (fun _ => rfl) fun c => wsame hw rfl rfl rfl
  · refine ⟨hcurrent, hlength, ?_⟩
    show (s.mem.copies ++ [_]).length = _
    rw [List.length_append, hlength]
    rfl

theorem Inv.updating (h : Inv s) (hw : s.writer = .updating c) :
    ∀ next ∈ s.writerStep (.updating c), ∃ s', next = some s' ∧ Inv s' := by
  intro next hnext
  have href : 0 < s.total .ref := writer_le_total hw .ref
  have hok := h.writer
  rw [hw] at hok
  obtain ⟨hfree, heq⟩ := Option.ite_none_right_eq_some.mp hnext
  rw [touch_eq (h.obj.alive href).1] at heq
  cases heq
  refine ⟨_, rfl, ?_⟩
  refine h.write_lock hw rfl rfl rfl rfl (Nat.le_refl _) rfl ?_ (fun _ => rfl) (fun _ => rfl) ?_ hok
  · exact (current_of hw nofun nofun).symm
  · exact (h.obj.wlock hfree href).cast (wsame hw rfl rfl rfl) (wsame hw rfl rfl rfl)
      (wsucc hw rfl rfl rfl) (wsame hw rfl rfl rfl)

/-- The references of the new copy and of the old one change hands. -/
theorem Inv.writing (h : Inv s) (hw : s.writer = .writing c) :
    ∃ s', s.writerStep (.writing c) = some (some s') ∧ Inv s' := by
  have href : 0 < s.total .ref := writer_le_total hw .ref
  have hok := h.writer
  rw [hw] at hok
  obtain ⟨-, hc, hlength⟩ := hok
  unfold State.writerStep
  dsimp only
  rw [touch_eq (h.obj.alive href).1]
  refine ⟨_, rfl, ?_⟩
  have hobj : ObjOk ({ s.mem with copy := some c } : Mem Msg) (s.total .ref) (s.total .read)
      (s.total .write) (s.total .free) :=
    ⟨h.obj.reference, h.obj.alive, h.obj.dead, h.obj.read, h.obj.write, h.obj.one, h.obj.excl⟩
  refine h.write rfl rfl (fun r hr => .inl hr) (Nat.le_refl _) ⟨[], (List.append_nil _).symm⟩ ?_ ?_ ?_
  · exact hobj.cast (wsame hw rfl rfl rfl) (wsame hw rfl rfl rfl) (wsame hw rfl rfl rfl)
      (wsame hw rfl rfl rfl)
  · refine h.copies.congr (fun c' => ?_) fun c' => wsame hw rfl rfl rfl
    let t : State Msg :=
      { s with mem := { s.mem with copy := some c }, writer := .stored s.mem.copy }
    have htotal := @total_writer _ s t rfl (.hold c')
    rw [hw] at htotal
    rw [current_of hw nofun nofun]
    exact htotal
  · exact ⟨congrArg some hc, hlength⟩

/-- What becomes of a writer that gives up the copy `old` -/
theorem print_elim (old : Option ℕ) :
    (old.elim .idle .dropping : Writer).print .ref = 1 ∧
      (old.elim .idle .dropping : Writer).print .read = 0 ∧
      (old.elim .idle .dropping : Writer).print .write = 0 ∧
      (old.elim .idle .dropping : Writer).print .free = 0 ∧
      (∀ c, (old.elim .idle .dropping : Writer).print (.hold c) = count old c) ∧
      ∀ c, (old.elim .idle .dropping : Writer).print (.drop c) = 0 := by
  cases old with
  | none => exact ⟨rfl, rfl, rfl, rfl, fun _ => rfl, fun _ => rfl⟩
  | some c => exact ⟨rfl, rfl, rfl, rfl, fun _ => rfl, fun _ => rfl⟩

theorem current_elim (old : Option ℕ) {t : State Msg}
    (hw : t.writer = old.elim .idle .dropping) : t.current = t.mem.copy := by
  cases old with
  | none => exact current_of hw nofun nofun
  | some c => exact current_of hw nofun nofun

/-- The update is completed. -/
theorem Inv.stored (h : Inv s) (hw : s.writer = .stored old) :
    ∃ s', s.writerStep (.stored old) = some (some s') ∧ Inv s' := by
  have href : 0 < s.total .ref := writer_le_total hw .ref
  have hok := h.writer
  rw [hw] at hok
  obtain ⟨hcopy, hlength⟩ := hok
  obtain ⟨hprint, hread, hwrite, hfree, hhold, hdrop⟩ := print_elim old
  unfold State.writerStep
  dsimp only
  rw [touch_eq (h.obj.alive href).1]
  refine ⟨_, rfl, ?_⟩
  refine h.write_lock hw rfl rfl rfl rfl (Nat.le_succ _) rfl ?_ hhold hdrop ?_ ?_
  · rw [current_of hw nofun nofun]
    exact current_elim old rfl
  · have hobj := h.obj
    have hpred : s.total .write = ({ s with
        mem := { s.mem with write := false }
        completed := s.completed + 1
        writer := old.elim .idle .dropping } : State Msg).total .write + 1 :=
      wpred hw rfl rfl (by rw [hwrite]; rfl)
    rw [hpred] at hobj
    exact (hobj.wunlock href).cast (wsame hw rfl rfl hprint) (wsame hw rfl rfl hread) rfl
      (wsame hw rfl rfl hfree)
  · have hlast : (∃ c, s.mem.copy = some c ∧ c + 1 = s.completed + 1) ∧
        s.mem.copies.length = s.completed + 1 := ⟨⟨s.completed, hcopy, rfl⟩, hlength⟩
    cases old with
    | none => exact hlast
    | some c => exact hlast

/-! ## `stm_releasecopy` -/

/-- What a thread has of the object -/
structure SameObj (w w' : Writer) : Prop where
  ref : w'.print .ref = w.print .ref
  read : w'.print .read = w.print .read
  write : w'.print .write = w.print .write
  free : w'.print .free = w.print .free

/-- One copy changes. -/
theorem Inv.write_put {copy : Copy Msg} (h : Inv s) (hw : s.writer = w) (hobj : SameObj w w')
    (hmsgs : (s.mem.put c copy).copies.map Copy.msg = s.mem.copies.map Copy.msg)
    (hcopies : CopiesOk (s.mem.put c copy).copies
      (fun c' => ({ s with writer := w' } : State Msg).total (.hold c') +
        count ({ s with writer := w' } : State Msg).current c')
      (fun c' => ({ s with writer := w' } : State Msg).total (.drop c')))
    (hok : w'.Ok s.mem.copy s.mem.copies.length s.completed) :
    Inv { s with mem := s.mem.put c copy, writer := w' } := by
  have hlength : (s.mem.put c copy).copies.length = s.mem.copies.length := List.length_set
  refine h.write rfl rfl (fun r hr => .inl hr) (Nat.le_refl _) ⟨[], ?_⟩ ?_ hcopies ?_
  · rw [List.append_nil]
    exact hmsgs
  · exact (h.obj.put copy).cast (wsame hw rfl rfl hobj.ref) (wsame hw rfl rfl hobj.read)
      (wsame hw rfl rfl hobj.write) (wsame hw rfl rfl hobj.free)
  · show w'.Ok s.mem.copy (s.mem.put c copy).copies.length s.completed
    rw [hlength]
    exact hok

/-- The writer gives a reference of a copy back, as `last` if it is to free the copy then. -/
theorem Inv.write_dec {last more : Writer} (h : Inv s) (hw : s.writer = w)
    (hobj : SameObj w last ∧ SameObj w more)
    (hhold : ∀ w', w' = last ∨ w' = more → ∀ c',
      w.print (.hold c') + count s.current c' = w'.print (.hold c') +
        count ({ s with writer := w' } : State Msg).current c' + count (some c) c')
    (hlast : ∀ c', last.print (.drop c') = w.print (.drop c') + count (some c) c')
    (hmore : ∀ c', more.print (.drop c') = w.print (.drop c'))
    (hok : last.Ok s.mem.copy s.mem.copies.length s.completed ∧
      more.Ok s.mem.copy s.mem.copies.length s.completed) :
    ∃ mem reference, s.mem.decCopy c = some (mem, reference) ∧
      Inv { s with mem := mem, writer := if reference = 0 then last else more } := by
  have hold : ∀ w', w' = last ∨ w' = more → ∀ c',
      s.total (.hold c') + count s.current c' =
        ({ s with writer := w' } : State Msg).total (.hold c') +
          count ({ s with writer := w' } : State Msg).current c' + count (some c) c' := by
    intro w' hw' c'
    have htotal := @total_writer _ s { s with writer := w' } rfl (.hold c')
    have hprint := hhold w' hw' c'
    rw [hw] at htotal
    dsimp only at htotal
    omega
  have hsucc : ∀ w', w' = last ∨ w' = more →
      Succ (fun c' => ({ s with writer := w' } : State Msg).total (.hold c') +
          count ({ s with writer := w' } : State Msg).current c')
        (fun c' => s.total (.hold c') + count s.current c') c := by
    intro w' hw'
    refine ⟨?_, fun c' hne => ?_⟩
    · dsimp only
      rw [hold w' hw' c, count_self]
    · dsimp only
      rw [hold w' hw' c', count_of_ne hne, Nat.add_zero]
  obtain ⟨copy, reference, hdec, hmsgs, hzero, hnonzero⟩ := h.copies.dec (hsucc more (.inr rfl))
  refine ⟨_, reference, hdec, ?_⟩
  by_cases href : reference = 0
  · rw [if_pos href]
    refine h.write_put hw hobj.1 hmsgs ?_ hok.1
    have hdrop : Succ (fun c' => s.total (.drop c'))
        (fun c' => ({ s with writer := last } : State Msg).total (.drop c')) c := by
      have htotal : ∀ c', ({ s with writer := last } : State Msg).total (.drop c') =
          s.total (.drop c') + count (some c) c' := by
        intro c'
        have htotal := @total_writer _ s { s with writer := last } rfl (.drop c')
        have hprint := hlast c'
        rw [hw] at htotal
        dsimp only at htotal
        omega
      refine ⟨?_, fun c' hne => ?_⟩
      · dsimp only
        rw [htotal, count_self]
      · dsimp only
        rw [htotal, count_of_ne hne, Nat.add_zero]
    refine (hzero href _ hdrop).congr (fun c' => ?_) fun _ => rfl
    have heq := hold last (.inl rfl) c'
    have heq' := hold more (.inr rfl) c'
    omega
  · rw [if_neg href]
    refine h.write_put hw hobj.2 hmsgs ?_ hok.2
    exact (hnonzero href).congr (fun _ => rfl) fun c' => wsame hw rfl rfl (hmore c')

/-- The writer frees a copy. -/
theorem Inv.write_free {next : Writer} (h : Inv s) (hw : s.writer = w) (hobj : SameObj w next)
    (hhold : ∀ c', next.print (.hold c') = w.print (.hold c'))
    (hcurrent : ({ s with writer := next } : State Msg).current = s.current)
    (hdrop : ∀ c', w.print (.drop c') = next.print (.drop c') + count (some c) c')
    (hok : next.Ok s.mem.copy s.mem.copies.length s.completed) :
    ∃ mem, s.mem.freeCopy c = some mem ∧ Inv { s with mem := mem, writer := next } := by
  have htotal : ∀ c', s.total (.drop c') =
      ({ s with writer := next } : State Msg).total (.drop c') + count (some c) c' := by
    intro c'
    have htotal := @total_writer _ s { s with writer := next } rfl (.drop c')
    have hprint := hdrop c'
    rw [hw] at htotal
    dsimp only at htotal
    omega
  have hsucc : Succ (fun c' => ({ s with writer := next } : State Msg).total (.drop c'))
      (fun c' => s.total (.drop c')) c := by
    refine ⟨?_, fun c' hne => ?_⟩
    · dsimp only
      rw [htotal, count_self]
    · dsimp only
      rw [htotal, count_of_ne hne, Nat.add_zero]
  obtain ⟨copy, hfree, hcopies, hmsgs⟩ := h.copies.free hsucc
  refine ⟨_, hfree, h.write_put hw hobj hmsgs ?_ hok⟩
  refine hcopies.congr (fun c' => ?_) fun _ => rfl
  have hsame : ({ s with writer := next } : State Msg).total (.hold c') = s.total (.hold c') :=
    wsame hw rfl rfl (hhold c')
  rw [hcurrent, hsame]

theorem Inv.drop (h : Inv s) (hw : s.writer = .dropping c) :
    ∃ s', s.writerStep (.dropping c) = some (some s') ∧ Inv s' := by
  have hok := h.writer
  rw [hw] at hok
  have hcurrent := current_of hw nofun nofun
  obtain ⟨mem, reference, hdec, hinv⟩ :=
    @Inv.write_dec _ s _ c (.freeing c) .idle h hw ⟨⟨rfl, rfl, rfl, rfl⟩, ⟨rfl, rfl, rfl, rfl⟩⟩
      (by
        intro w' hw' c'
        rw [hcurrent]
        rcases hw' with rfl | rfl
        · show count (some c) c' + count s.mem.copy c' = 0 + count s.mem.copy c' + _
          omega
        · show count (some c) c' + count s.mem.copy c' = 0 + count s.mem.copy c' + _
          omega)
      (fun c' => (Nat.zero_add _).symm) (fun _ => rfl) ⟨hok, hok⟩
  unfold State.writerStep
  dsimp only
  rw [hdec]
  exact ⟨_, rfl, hinv⟩

theorem Inv.free (h : Inv s) (hw : s.writer = .freeing c) :
    ∃ s', s.writerStep (.freeing c) = some (some s') ∧ Inv s' := by
  have hok := h.writer
  rw [hw] at hok
  obtain ⟨mem, hfree, hinv⟩ := @Inv.write_free _ s _ c .idle h hw ⟨rfl, rfl, rfl, rfl⟩
    (fun _ => rfl) (current_of hw nofun nofun).symm (fun c' => (Nat.zero_add _).symm) hok
  unfold State.writerStep
  dsimp only
  rw [hfree]
  exact ⟨_, rfl, hinv⟩

/-! ## `stm_release` -/

theorem Inv.release (h : Inv s) (hw : s.writer = .idle) :
    s.mem.touch (if s.mem.copy.isSome then some { s with writer := .releasing } else none) =
        some { s with writer := .releasing } ∧
      Inv { s with writer := .releasing } := by
  have href : 0 < s.total .ref := writer_le_total hw .ref
  have hok := h.writer
  rw [hw] at hok
  obtain ⟨⟨c, hcopy, hcompleted⟩, hlength⟩ := hok
  refine ⟨?_, ?_⟩
  · rw [touch_eq (h.obj.alive href).1, hcopy]
    rfl
  · refine h.write_lock hw rfl rfl rfl rfl (Nat.le_refl _) rfl ?_ (fun _ => rfl) (fun _ => rfl) ?_
      ⟨⟨c, hcopy, hcompleted⟩, hlength⟩
    · exact (current_of hw nofun nofun).symm
    · exact h.obj.cast (wsame hw rfl rfl rfl) (wsame hw rfl rfl rfl) (wsame hw rfl rfl rfl)
        (wsame hw rfl rfl rfl)

theorem Inv.releasing (h : Inv s) (hw : s.writer = .releasing) :
    ∀ next ∈ s.writerStep .releasing, ∃ s', next = some s' ∧ Inv s' := by
  intro next hnext
  have href : 0 < s.total .ref := writer_le_total hw .ref
  have hok := h.writer
  rw [hw] at hok
  obtain ⟨hfree, heq⟩ := Option.ite_none_right_eq_some.mp hnext
  rw [touch_eq (h.obj.alive href).1] at heq
  cases heq
  refine ⟨_, rfl, ?_⟩
  refine h.write_lock hw rfl rfl rfl rfl (Nat.le_refl _) rfl ?_ (fun _ => rfl) (fun _ => rfl) ?_ hok
  · exact (current_of hw nofun nofun).symm
  · exact (h.obj.wlock hfree href).cast (wsame hw rfl rfl rfl) (wsame hw rfl rfl rfl)
      (wsucc hw rfl rfl rfl) (wsame hw rfl rfl rfl)

/-- The object's reference of the current copy is given back. -/
theorem Inv.released (h : Inv s) (hw : s.writer = .released) :
    ∃ s', s.writerStep .released = some (some s') ∧ Inv s' := by
  have href : 0 < s.total .ref := writer_le_total hw .ref
  have hok := h.writer
  rw [hw] at hok
  obtain ⟨⟨c, hcopy, hcompleted⟩, hlength⟩ := hok
  obtain ⟨mem, reference, hdec, hinv⟩ :=
    @Inv.write_dec _ s _ c (.freeingLast c) .clearing h hw
      ⟨⟨rfl, rfl, rfl, rfl⟩, ⟨rfl, rfl, rfl, rfl⟩⟩
      (by
        intro w' hw' c'
        rw [current_of hw nofun nofun, hcopy]
        rcases hw' with rfl | rfl
        · exact (Nat.zero_add _).trans (Nat.zero_add _).symm
        · exact (Nat.zero_add _).trans (Nat.zero_add _).symm)
      (fun c' => (Nat.zero_add _).symm) (fun _ => rfl)
      ⟨⟨⟨c, hcopy, hcompleted⟩, hlength⟩, ⟨⟨c, hcopy, hcompleted⟩, hlength⟩⟩
  unfold State.writerStep
  dsimp only
  rw [touch_eq (h.obj.alive href).1, hcopy]
  dsimp only
  rw [hdec]
  exact ⟨_, rfl, hinv⟩

theorem Inv.freeingLast (h : Inv s) (hw : s.writer = .freeingLast c) :
    ∃ s', s.writerStep (.freeingLast c) = some (some s') ∧ Inv s' := by
  have hok := h.writer
  have hcurrent : s.current = none := by
    unfold State.current
    rw [hw]
  rw [hw] at hok
  obtain ⟨mem, hfree, hinv⟩ := @Inv.write_free _ s _ c .clearing h hw ⟨rfl, rfl, rfl, rfl⟩
    (fun _ => rfl) hcurrent.symm (fun c' => (Nat.zero_add _).symm) hok
  unfold State.writerStep
  dsimp only
  rw [hfree]
  exact ⟨_, rfl, hinv⟩

theorem Inv.clearing (h : Inv s) (hw : s.writer = .clearing) :
    ∃ s', s.writerStep .clearing = some (some s') ∧ Inv s' := by
  have href : 0 < s.total .ref := writer_le_total hw .ref
  have hok := h.writer
  have hcurrent : s.current = none := by
    unfold State.current
    rw [hw]
  rw [hw] at hok
  have hobj : ObjOk ({ s.mem with copy := none } : Mem Msg) (s.total .ref) (s.total .read)
      (s.total .write) (s.total .free) :=
    ⟨h.obj.reference, h.obj.alive, h.obj.dead, h.obj.read, h.obj.write, h.obj.one, h.obj.excl⟩
  unfold State.writerStep
  dsimp only
  rw [touch_eq (h.obj.alive href).1]
  refine ⟨_, rfl, ?_⟩
  refine h.write_lock hw rfl rfl rfl rfl (Nat.le_refl _) rfl hcurrent.symm (fun _ => rfl)
    (fun _ => rfl) ?_ ⟨rfl, hok.2⟩
  exact hobj.cast (wsame hw rfl rfl rfl) (wsame hw rfl rfl rfl) (wsame hw rfl rfl rfl)
    (wsame hw rfl rfl rfl)

/-- The writer gives its reference of the object back. It is alone in the lock. -/
theorem Inv.cleared (h : Inv s) (hw : s.writer = .cleared) :
    ∃ s', s.writerStep .cleared = some (some s') ∧ Inv s' := by
  have href : 0 < s.total .ref := writer_le_total hw .ref
  have hwrite : 0 < s.total .write := writer_le_total hw .write
  have hok := h.writer
  rw [hw] at hok
  have hcount := h.obj.reference
  have hobj := h.obj
  have hpred : ∀ w' : Writer, w'.print .ref = 0 → s.total .ref =
      ({ s with
        mem := { s.mem with reference := s.mem.reference - 1 }
        writer := w' } : State Msg).total .ref + 1 :=
    fun w' hzero => wpred hw rfl rfl (congrArg Nat.succ hzero.symm)
  have hcurrent := current_of hw nofun nofun
  unfold State.writerStep
  dsimp only
  rw [touch_eq (h.obj.alive href).1]
  refine ⟨_, rfl, ?_⟩
  by_cases hpos : 0 < s.mem.reference - 1
  · rw [if_pos hpos]
    have hpred := hpred .unlocking rfl
    rw [hpred] at hobj hcount
    refine h.write_lock hw rfl rfl rfl rfl (Nat.le_refl _) rfl hcurrent.symm (fun _ => rfl)
      (fun _ => rfl) ?_ hok
    exact (hobj.release (by omega)).cast rfl (wsame hw rfl rfl rfl) (wsame hw rfl rfl rfl)
      (wsame hw rfl rfl rfl)
  · rw [if_neg hpos]
    have hone : s.total .ref = 1 := by omega
    have hpred := hpred .leaving rfl
    have hwr : s.total .write = 1 := by
      have hle := h.obj.one
      omega
    have hrd := h.obj.excl hwr
    rw [hone] at hobj hpred
    refine h.write_lock hw rfl rfl rfl rfl (Nat.le_refl _) rfl hcurrent.symm (fun _ => rfl)
      (fun _ => rfl) ?_ hok
    exact (hobj.last (by omega)).cast (Nat.succ.inj hpred).symm (wsame hw rfl rfl rfl)
      (wsame hw rfl rfl rfl) (wsucc hw rfl rfl rfl)

theorem Inv.write_unlock (h : Inv s) (hw : s.writer = .unlocking) :
    ∃ s', s.writerStep .unlocking = some (some s') ∧ Inv s' := by
  have href : 0 < s.total .ref := by
    apply ref_of_writer h.obj
    rw [hw]
    exact Nat.zero_lt_one
  have hok := h.writer
  rw [hw] at hok
  have hcurrent := current_of hw nofun nofun
  unfold State.writerStep
  dsimp only
  rw [touch_eq (h.obj.alive href).1]
  refine ⟨_, rfl, ?_⟩
  refine h.write_lock hw rfl rfl rfl rfl (Nat.le_refl _) rfl hcurrent.symm (fun _ => rfl)
    (fun _ => rfl) ?_ hok
  have hobj := h.obj
  have hpred : s.total .write = ({ s with
      mem := { s.mem with write := false }, writer := .done } : State Msg).total .write + 1 :=
    wpred hw rfl rfl rfl
  rw [hpred] at hobj
  exact (hobj.wunlock href).cast (wsame hw rfl rfl rfl) (wsame hw rfl rfl rfl) rfl
    (wsame hw rfl rfl rfl)

/-- The writer frees the object, and leaves the lock locked. -/
theorem Inv.write_leave (h : Inv s) (hw : s.writer = .leaving) :
    ∃ s', s.writerStep .leaving = some (some s') ∧ Inv s' := by
  have hwrite : 1 ≤ s.total .write := writer_le_total hw .write
  have hok := h.writer
  rw [hw] at hok
  have hcurrent := current_of hw nofun nofun
  unfold State.writerStep Mem.free
  dsimp only
  rw [touch_eq (h.obj.not_freed (by omega))]
  refine ⟨_, rfl, ?_⟩
  refine h.write_lock hw rfl rfl rfl rfl (Nat.le_refl _) rfl hcurrent.symm (fun _ => rfl)
    (fun _ => rfl) ?_ hok
  let t : State Msg := { s with mem := { s.mem with freed := s.mem.freed + 1 }, writer := .done }
  have hpred : s.total .write = t.total .write + 1 := wpred hw rfl rfl rfl
  have hpred' : s.total .free = t.total .free + 1 := wpred hw rfl rfl rfl
  have hobj := h.obj
  rw [hpred'] at hobj
  have hleft : s.total .read + t.total .write + 1 = s.total .read + s.total .write := by omega
  exact (hobj.free hleft (by omega)).cast (wsame hw rfl rfl rfl) (wsame hw rfl rfl rfl) rfl rfl

end SkynetEureka.Stm
