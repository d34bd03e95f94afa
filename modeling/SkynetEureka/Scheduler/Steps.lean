import SkynetEureka.Scheduler.Frame

/-!
# The steps of the threads

`Goes` says that a step of the first thread is no fault and keeps the invariant. There is one lemma for
each place in the code.
-/

namespace SkynetEureka.Scheduler

open Lib Server

variable {m : Memory} {l : List ℕ} {t : Thread} {rest : List Thread} {c q handle i n : ℕ}
  {s : Service} {mq : MessageQueue} {k : After} {weight : ℤ} {message : Message}

/-- The step `r` of the first thread goes well. -/
def Goes (r : Option (Memory × Thread × List Thread)) (rest : List Thread) : Prop :=
  ∃ m' t' started, r = some (m', t', started) ∧ ∃ l', Inv m' l' (t' :: (started ++ rest))

/-! ## References -/

/-- `skynet_handle_grab`: the thread that goes on with the context has a reference, and what it had. -/
theorem goes_grab {found : ℕ → Thread} {missing : Thread} (h : Inv m l (t :: rest))
    (hfound : ∀ c, m.table handle = some c → ∀ r x,
      (found c).has r x = t.has r x + if r = .ref then one c x else 0)
    (hmissing : ∀ r x, missing.has r x = t.has r x)
    (hok : ∀ c s m', m.table handle = some c → m.services[c]? = some s → s.handle = handle →
      s.Ok 1 (l.count c) (fun r => t.has r c + count rest r c) → m.Le m' → (found c).Ok m')
    (hok' : missing.Ok m) : Goes (Thread.grab m handle found missing) rest := by
  unfold Thread.grab
  cases htable : m.table handle with
  | none =>
    refine ⟨m, missing, [], rfl, l, ?_⟩
    exact h.same hmissing hok'
  | some c =>
    obtain ⟨s, hs, hhandle⟩ := h.table handle c htable
    have hservice := h.service c s hs
    have hreg : m.registered c s = 1 := by
      unfold Memory.registered
      rw [hhandle]
      exact if_pos htable
    rw [hreg] at hservice
    have hcontext := hservice.context hs (by omega)
    show Goes (do let s ← m.context c; _) rest
    rw [hcontext]
    refine ⟨_, _, [], rfl, l, ?_⟩
    refine h.put hs rfl rfl h.holds h.fifo (fun _ _ => rfl) ?_ ?_ ?_ ?_ ?_
    · intro r x hx
      rw [hfound c htable]
      split
      · rw [one_of_ne hx, Nat.add_zero]
      · rfl
    · exact ⟨rfl, id, fun q hq => ⟨q, hq, id, id⟩⟩
    · exact id
    · intro hold
      rw [hreg] at hold ⊢
      simp only [hfound c htable]
      refine ⟨hold.handle, ?_, ?_, ?_, ?_, ?_, ?_, ?_⟩
      · have := hold.reference
        simp only [if_true, one_self]
        push_cast at this ⊢
        omega
      · intro _
        have := hold.alive (by omega)
        simp_all
      · intro hzero
        omega
      · intro _
        omega
      · simpa using hold.init
      · intro hq
        simpa using hold.unborn hq
      · intro mq hq
        have hmq := hold.born mq hq
        refine ⟨hmq.handle, ?_, ?_, ?_, ?_, hmq.keeps⟩
        · simpa using hmq.create
        · have := hmq.release
          simp only [if_true] at this ⊢
          constructor
          · intro hrelease
            have := this.mp hrelease
            omega
          · intro hzero
            omega
        · simpa using hmq.place
        · simpa using hmq.freed
    · intro hle
      have hold := h.service c s hs
      simp only [count_cons] at hold
      rw [hreg] at hold
      exact hok c s _ htable hs hhandle hold hle

theorem goes_send (h : Inv m l (.send handle message :: rest))
    (hborn : ∀ c s, m.table handle = some c → m.services[c]? = some s → s.queue.isSome = true) :
    Goes (Thread.grab m handle (.push · message) .ended) rest := by
  apply goes_grab h
  · intro c _ r x
    cases r <;> simp [Thread.has]
  · intro r x
    cases r <;> simp [Thread.has]
  · intro c s m' htable hs _ _ hle
    obtain ⟨mq, hmq⟩ := Option.isSome_iff_exists.mp (hborn c s htable hs)
    exact Thread.Ok.mono hle (t := .push c message) ⟨s, mq, hs, hmq⟩
  · trivial

theorem goes_visit (h : Inv m l (.visit handle :: rest)) :
    Goes (Thread.grab m handle (.release · .done) .ended) rest := by
  apply goes_grab h
  · intro c _ r x
    cases r <;> simp [Thread.has, After.queue, After.launch]
  · intro r x
    cases r <;> simp [Thread.has]
  · intros
    trivial
  · trivial

/-- A reference is given back that is not the last one. -/
theorem Service.Ok.kept {registered listed : ℕ} {n n' : Res → ℕ} (h : s.Ok registered listed n)
    (href : n .ref = n' .ref + 1) (hpos : 0 < registered + n' .ref)
    (hsame : ∀ r, r ≠ .ref → r ≠ .settle → n' r = n r) :
    ({ s with ref := s.ref - 1 } : Service).Ok registered listed n' := by
  have hdelete := hsame .delete (by decide) (by decide)
  have hfree := hsame .free (by decide) (by decide)
  have hqueue := hsame .queue (by decide) (by decide)
  have hlaunch := hsame .launch (by decide) (by decide)
  have hcreate := hsame .create (by decide) (by decide)
  refine ⟨h.handle, ?_, ?_, ?_, fun _ => hpos, ?_, ?_, ?_⟩
  · have := h.reference
    show s.ref - 1 = _
    omega
  · intro _
    have := h.alive (by omega)
    rwa [hdelete, hfree]
  · intro hzero
    omega
  · rw [hlaunch]
    exact h.init
  · rw [hcreate, hqueue]
    exact h.unborn
  · intro mq hmq
    have hold := h.born mq hmq
    have hrelease := hold.release
    refine ⟨hold.handle, hcreate.trans hold.create, ?_, ?_, ?_, hold.keeps⟩
    · constructor
      · intro hmark
        have := hrelease.mp hmark
        omega
      · intro hzero
        omega
    · rw [hqueue]
      exact hold.place
    · rw [hqueue]
      exact hold.freed

/-- The last reference is given back. -/
theorem Service.Ok.gone {registered listed : ℕ} {n n' : Res → ℕ} (h : s.Ok registered listed n)
    (href : n .ref = n' .ref + 1) (hzero : registered + n' .ref = 0)
    (hdelete : n' .delete = n .delete + 1) (hsettle : n' .settle = 0)
    (hsame : ∀ r, r ≠ .ref → r ≠ .settle → r ≠ .delete → n' r = n r) :
    ({ s with ref := s.ref - 1 } : Service).Ok registered listed n' := by
  have hfree := hsame .free (by decide) (by decide) (by decide)
  have hqueue := hsame .queue (by decide) (by decide) (by decide)
  have hlaunch := hsame .launch (by decide) (by decide) (by decide)
  have hcreate := hsame .create (by decide) (by decide) (by decide)
  obtain ⟨hfreed, hdelete₀, hfree₀⟩ := h.alive (by omega)
  refine ⟨h.handle, ?_, ?_, ?_, ?_, ?_, ?_, ?_⟩
  · have := h.reference
    show s.ref - 1 = _
    omega
  · intro hpos
    omega
  · intro _
    show n' .delete + n' .free + s.freed = 1
    omega
  · intro hpos
    omega
  · intro hpos
    omega
  · rw [hcreate, hqueue]
    exact h.unborn
  · intro mq hmq
    have hold := h.born mq hmq
    have hrelease := hold.release
    refine ⟨hold.handle, hcreate.trans hold.create, ?_, ?_, ?_, hold.keeps⟩
    · constructor
      · intro hmark
        have := hrelease.mp hmark
        omega
      · intro hnone
        omega
    · rw [hqueue]
      exact hold.place
    · rw [hqueue]
      exact hold.freed

/-- `skynet_context_release`: the last reference brings the duty to delete the context, unless a launch
stands in front of `ctx->init = true`. -/
theorem goes_release (h : Inv m l (.release c k :: rest))
    (hsettled : ∀ s, m.services[c]? = some s → s.ref = 1 → count rest .settle c = 0) :
    ∃ r, Thread.next m (.release c k) = some r ∧ Goes r rest := by
  obtain ⟨s, hs, hok⟩ := h.get (c := c) (r := .ref) (by simp [Thread.has])
  have hcontext := hok.context hs (by simp only [Thread.has, one_self]; omega)
  have hnext : Thread.next m (.release c k) = some (some (m.put c { s with ref := s.ref - 1 },
      if s.ref - 1 = 0 then .delete c k else k.kept c, [])) := by
    simp [Thread.next, hcontext]
  refine ⟨_, hnext, _, _, [], rfl, l, ?_⟩
  have hk := h.thread _ List.mem_cons_self
  have href := hok.reference
  simp only [Thread.has, one_self] at href
  refine h.put hs rfl rfl h.holds h.fifo (fun _ _ => rfl) ?_ ⟨rfl, id, fun q hq => ⟨q, hq, id, id⟩⟩ id
    ?_ ?_
  · intro r x hx
    split
    · cases r <;> simp [Thread.has, one_of_ne hx]
    · cases k <;> cases r <;> first | rfl | exact (one_of_ne hx).symm | exact one_of_ne hx
  · intro hold
    have halive := hold.alive (by simp only [Thread.has, one_self]; omega)
    split
    case isTrue hlast =>
      -- the last reference
      apply hold.gone
      · simp only [Thread.has, one_self]
        omega
      · simp only [Thread.has]
        omega
      · simp only [Thread.has, one_self]
        omega
      · simpa [Thread.has] using hsettled s hs (by omega)
      · intro r h₁ h₂ h₃
        cases r <;> simp_all [Thread.has]
    case isFalse hmore =>
      apply hold.kept
      · simp only [kept_ref]
        simp only [Thread.has, one_self]
        omega
      · simp only [kept_ref]
        omega
      · intro r h₁ h₂
        simp only [kept_has h₁ h₂]
  · intro hle
    split
    · exact After.Ok.mono hle hk
    · cases k with
      | failed handle => exact After.Ok.mono (k := .failed handle) hle hk
      | _ => trivial

/-- `skynet_mq_mark_release`: a queue that is not listed is pushed to the global list. -/
theorem goes_delete (h : Inv m l (.delete c k :: rest)) :
    ∃ r, Thread.next m (.delete c k) = some r ∧ Goes r rest := by
  obtain ⟨s, hs, hok⟩ := h.get (c := c) (r := .delete) (by simp [Thread.has])
  have hdelete : 0 < (Thread.delete c k).has .delete c + count rest .delete c := by
    simp only [Thread.has, one_self]
    omega
  have hcontext := hok.context hs (by omega)
  have hzero : m.registered c s + ((Thread.delete c k).has .ref c + count rest .ref c) = 0 := by
    by_contra hpos
    have := (hok.alive (by omega)).2.1
    omega
  -- a context that is in front of skynet_mq_create has a reference
  have hcreate : (Thread.delete c k).has .create c + count rest .create c = 0 := by
    have := count_create_le rest c
    simp only [Thread.has] at hzero ⊢
    omega
  obtain ⟨mq, hq, hmq⟩ := hok.exists_queue (.inr hcreate)
  have hfreed := hmq.live (by omega)
  have hrelease : mq.release = false := by
    by_contra hmark
    have := hmq.release.mp (by simpa using hmark)
    omega
  have hplace := hmq.place hfreed
  obtain ⟨m', hlist, hservices, htable, hholds, hfifo⟩ :=
    h.list { s with queue := some { mq with release := true } } hs rfl hfreed
      (!mq.inGlobal) (by
        intro hlisted
        rw [hrelease] at hplace
        simp at hlisted
        simp [hlisted] at hplace
        exact hplace.2)
  have hk := h.thread _ List.mem_cons_self
  have hnext : Thread.next m (.delete c k) = some (some (m', .free c k, [])) := by
    simp [Thread.next, hcontext, Memory.queue_eq hs hq hfreed, skynetMqMarkRelease, hrelease, hlist]
  refine ⟨_, hnext, m', _, [], rfl, pushed l c !mq.inGlobal, ?_⟩
  refine h.put hs hservices htable hholds hfifo (fun x hx => pushed_count_of_ne hx) ?_ ?_ ?_ ?_ ?_
  · intro r x hx
    cases r <;> first | rfl | exact (one_of_ne hx).symm | exact one_of_ne hx
  · refine ⟨rfl, id, fun q hq' => ?_⟩
    rw [hq] at hq'
    cases hq'
    exact ⟨_, rfl, fun _ => rfl, fun hd => ⟨rfl, hd.2⟩⟩
  · intro _ q hq'
    rw [hq] at hq'
    cases hq'
    exact hfreed
  · intro hold
    simp only [Thread.has] at hzero hcreate hplace
    refine ⟨hold.handle, hold.reference, ?_, ?_, hold.settle, hold.init, ?_, ?_⟩
    · intro hpos
      simp only [Thread.has] at hpos
      omega
    · intro _
      have := hold.dead hzero
      simp only [Thread.has, one_self] at this ⊢
      omega
    · intro hnone
      cases hnone
    · intro q' hq'
      cases hq'
      have hone := hold.dead hzero
      simp only [Thread.has, one_self] at hone
      obtain ⟨messages, hkeeps⟩ := hmq.keeps
      refine ⟨hmq.handle, hcreate, ?_, ?_, ?_, messages, hkeeps.ring, hkeeps.pushed, ?_, ?_,
        hkeeps.freed⟩
      · simp only [Thread.has, true_iff]
        omega
      · intro _
        rw [hrelease] at hplace
        rw [pushed_count_self]
        simp only [Thread.has]
        cases hglobal : mq.inGlobal <;> simp [hglobal] at hplace ⊢ <;> omega
      · intro hne
        exact absurd hfreed hne
      · intro _ hmark
        cases hmark
      · intro _
        rfl
  · intro hle
    exact After.Ok.mono hle hk

/-- The context is freed. -/
theorem goes_free (h : Inv m l (.free c k :: rest)) :
    ∃ r, Thread.next m (.free c k) = some r ∧ Goes r rest := by
  obtain ⟨s, hs, hok⟩ := h.get (c := c) (r := .free) (by simp [Thread.has])
  have hfree : 0 < (Thread.free c k).has .free c + count rest .free c := by
    simp only [Thread.has, one_self]
    omega
  have hcontext := hok.context hs (by omega)
  have hzero : m.registered c s + ((Thread.free c k).has .ref c + count rest .ref c) = 0 := by
    by_contra hpos
    have := (hok.alive (by omega)).2.2
    omega
  have hk := h.thread _ List.mem_cons_self
  have hnext : Thread.next m (.free c k) =
      some (some (m.put c { s with freed := s.freed + 1 }, k.gone c, [])) := by
    simp [Thread.next, hcontext]
  refine ⟨_, hnext, _, _, [], rfl, l, ?_⟩
  refine h.put hs rfl rfl h.holds h.fifo (fun _ _ => rfl) ?_ ⟨rfl, id, fun q hq => ⟨q, hq, id, id⟩⟩ id
    ?_ ?_
  · intro r x hx
    cases k <;> cases r <;> first | rfl | exact (one_of_ne hx).symm
  · intro hold
    have hdead := hold.dead hzero
    have hgone : ∀ r, r ≠ .free → r ≠ .launch →
        (k.gone c).has r c = (Thread.free c k).has r c := fun r h₁ h₂ => gone_has h₁ h₂ c
    have href := hgone .ref (by decide) (by decide)
    have hdelete := hgone .delete (by decide) (by decide)
    have hqueue := hgone .queue (by decide) (by decide)
    have hcreate := hgone .create (by decide) (by decide)
    have hsettle := hgone .settle (by decide) (by decide)
    have hfree' := gone_free (c := c) (k := k) c
    have hreg : m.registered c s = 0 := by omega
    refine ⟨hold.handle, ?_, ?_, ?_, ?_, ?_, ?_, ?_⟩
    · rw [href]
      exact hold.reference
    · intro hpos
      omega
    · intro _
      rw [hdelete, hfree']
      simp only [Thread.has, one_self] at hdead ⊢
      omega
    · intro hpos
      rw [hsettle] at hpos
      have := hold.settle hpos
      omega
    · intro hpos
      omega
    · rw [hcreate, hqueue]
      exact hold.unborn
    · intro mq hq
      have hmq := hold.born mq hq
      apply hmq.congr
      · rw [href]
      · rw [hdelete]
      · rw [hqueue]
      · rw [hcreate]
  · intro hle
    cases k with
    | failed handle => exact After.Ok.mono (k := .failed handle) hle hk
    | _ => trivial

/-! ## Launching -/

/-- `skynet_mq_create`: the launch has the queue, which counts as listed. -/
theorem goes_create {ok : Bool} (h : Inv m l (.create c ok :: rest)) :
    ∃ r, Thread.next m (.create c ok) = some r ∧ Goes r rest := by
  obtain ⟨s, hs, hok⟩ := h.get (c := c) (r := .ref) (by simp [Thread.has])
  have hcontext := hok.context hs (by simp only [Thread.has, one_self]; omega)
  have hnone : s.queue = none := by
    by_contra hsome
    obtain ⟨mq, hmq⟩ := Option.ne_none_iff_exists'.mp hsome
    have := (hok.born mq hmq).create
    simp only [Thread.has, one_self] at this
    omega
  obtain ⟨hcreate, hplace, hlog⟩ := hok.unborn hnone
  simp only [Thread.has, one_self] at hcreate hplace
  have hnext : Thread.next m (.create c ok) =
      some (some (m.put c { s with queue := some (skynetMqCreate s.handle) },
        .release c (if ok then .launched else .failed s.handle), [])) := by
    simp [Thread.next, hcontext]
  refine ⟨_, hnext, _, _, [], rfl, l, ?_⟩
  refine h.put hs rfl rfl h.holds h.fifo (fun _ _ => rfl) ?_ ?_ ?_ ?_ ?_
  · intro r x hx
    cases ok <;> cases r <;> first | rfl | exact (one_of_ne hx).symm | exact one_of_ne hx
  · refine ⟨rfl, id, fun q hq => ?_⟩
    rw [hnone] at hq
    cases hq
  · intro _ q hq
    rw [hnone] at hq
    cases hq
  · intro hold
    -- what the launch has now
    have hqueue : (Thread.release c (if ok then .launched else .failed s.handle)).has .queue c = 1 := by
      cases ok <;> simp [Thread.has, After.queue]
    have hlaunch : (Thread.release c (if ok then .launched else .failed s.handle)).has .launch c = 1 := by
      cases ok <;> simp [Thread.has, After.launch]
    have halive := hold.alive (by simp only [Thread.has, one_self]; omega)
    have href := hold.reference
    simp only [Thread.has, one_self] at halive href
    refine ⟨hold.handle, ?_, fun _ => halive, ?_, ?_, ?_, ?_, ?_⟩
    · simp only [Thread.has, one_self]
      exact href
    · simp only [Thread.has, one_self]
      omega
    · simp only [Thread.has, one_self]
      omega
    · intro _
      rw [hlaunch]
      exact .inr (by omega)
    · intro hq
      cases hq
    · intro q hq
      cases hq
      refine ⟨rfl, ?_, ?_, ?_, fun hne => absurd rfl hne, [], ?_⟩
      · simp only [Thread.has]
        omega
      · simp only [Thread.has, one_self]
        constructor
        · intro hmark
          cases hmark
        · intro hzero
          omega
      · intro _
        rw [hqueue]
        simp only [skynetMqCreate, true_or, if_true]
        omega
      · refine ⟨Lib.RingBuffer.holds_empty (by decide), ?_, fun _ _ => rfl, ?_, fun _ => rfl⟩
        · simp [hlog]
        · simp [hlog]
  · intro hle
    cases ok with
    | true => trivial
    | false =>
      obtain ⟨s', hs', hle'⟩ := hle c s hs
      exact ⟨s', hs', hle'.handle⟩

/-- `ctx->init = true` -/
theorem goes_settle (h : Inv m l (.settle c :: rest)) :
    ∃ r, Thread.next m (.settle c) = some r ∧ Goes r rest := by
  obtain ⟨s, hs, hok⟩ := h.get (c := c) (r := .settle) (by simp [Thread.has])
  have hpos := hok.settle (by simp only [Thread.has, one_self]; omega)
  have hcontext := hok.context hs (by omega)
  have hnext : Thread.next m (.settle c) =
      some (some (m.put c { s with init := true }, .publish c, [])) := by
    simp [Thread.next, hcontext]
  refine ⟨_, hnext, _, _, [], rfl, l, ?_⟩
  refine h.put hs rfl rfl h.holds h.fifo (fun _ _ => rfl) ?_
    ⟨rfl, fun _ => rfl, fun q hq => ⟨q, hq, id, id⟩⟩ id ?_ fun _ => trivial
  · intro r x hx
    cases r <;> first | rfl | exact (one_of_ne hx).symm
  · intro hold
    refine ⟨hold.handle, hold.reference, hold.alive, hold.dead, ?_, fun _ => .inl rfl,
      hold.unborn, fun q hq => (hold.born q hq).congr rfl rfl rfl rfl⟩
    intro _
    exact hpos

/-- `skynet_globalmq_push` at the end of a good launch -/
theorem goes_publish (h : Inv m l (.publish c :: rest)) :
    ∃ r, Thread.next m (.publish c) = some r ∧ Goes r rest := by
  obtain ⟨s, hs, hok⟩ := h.get (c := c) (r := .queue) (by simp [Thread.has])
  have hone : (Thread.publish c).has .queue c = 1 := one_self c
  obtain ⟨mq, hq, hmq⟩ := hok.exists_queue (by omega)
  have hfreed := hmq.live (by omega)
  have hplace := hmq.place hfreed
  have hlisted : l.count c = 0 := by
    split at hplace <;> omega
  obtain ⟨m', hpush, hservices, htable, hholds, hfifo⟩ := h.globalPush hs hq hfreed hlisted
  have hnext : Thread.next m (.publish c) = some (some (m', .ended, [])) := by
    simp [Thread.next, hpush]
  refine ⟨_, hnext, m', .ended, [], rfl, pushed l c true, ?_⟩
  refine h.put hs hservices htable hholds hfifo (fun x hx => pushed_count_of_ne hx) ?_ (.refl s) id
    ?_ fun _ => trivial
  · intro r x hx
    cases r <;> first | rfl | exact (one_of_ne hx).symm
  · intro hold
    rw [pushed_count_self]
    refine ⟨hold.handle, hold.reference, hold.alive, hold.dead, hold.settle, hold.init, ?_, ?_⟩
    · intro hnone
      rw [hq] at hnone
      cases hnone
    · intro q hq'
      have hold' := hold.born q hq'
      rw [hq] at hq'
      cases hq'
      refine ⟨hold'.handle, hold'.create, hold'.release, ?_, ?_, hold'.keeps⟩
      · intro _
        rw [← hplace]
        simp [Thread.has]
        omega
      · intro hne
        exact absurd hfreed hne

/-! ## Messages and handles -/

/-- `skynet_mq_push`: a queue that is not listed is pushed to the global list. -/
theorem goes_push (h : Inv m l (.push c message :: rest)) :
    ∃ r, Thread.next m (.push c message) = some r ∧ Goes r rest := by
  obtain ⟨s, hs, hok⟩ := h.get (c := c) (r := .ref) (by simp [Thread.has])
  have hone : (Thread.push c message).has .ref c = 1 := one_self c
  have hcontext := hok.context hs (by omega)
  obtain ⟨s', mq, hs', hq⟩ := h.thread _ List.mem_cons_self
  rw [hs] at hs'
  cases hs'
  have hmq := hok.born mq hq
  have hfreed := hmq.live (by omega)
  have hplace := hmq.place hfreed
  have hrelease : mq.release = false := by
    by_contra hmark
    have := hmq.release.mp (by simpa using hmark)
    omega
  set log : Log := { s.log with pushed := s.log.pushed ++ [message] } with hlog
  obtain ⟨m', hlist, hservices, htable, hholds, hfifo⟩ :=
    h.list { s with queue := some (skynetMqPush mq message).1, log := log } hs rfl hfreed
      (skynetMqPush mq message).2 (by
        intro hlisted
        have hglobal : mq.inGlobal = false := by simpa [skynetMqPush] using hlisted
        simp [hglobal, hrelease] at hplace
        exact hplace.2)
  have hnext : Thread.next m (.push c message) = some (some (m', .release c .done, [])) := by
    simp [Thread.next, hcontext, Memory.queue_eq hs hq hfreed, hlist, ← hlog]
  refine ⟨_, hnext, m', .release c .done, [], rfl, pushed l c (skynetMqPush mq message).2, ?_⟩
  refine h.put hs hservices htable hholds hfifo (fun x hx => pushed_count_of_ne hx) ?_ ?_ ?_ ?_
    fun _ => trivial
  · intro r x hx
    cases r <;> rfl
  · refine ⟨rfl, id, fun q hq' => ?_⟩
    rw [hq] at hq'
    cases hq'
    refine ⟨_, rfl, id, fun hd => ?_⟩
    rw [hd.1] at hrelease
    cases hrelease
  · intro _ q hq'
    rw [hq] at hq'
    cases hq'
    exact hfreed
  · intro hold
    refine ⟨hold.handle, hold.reference, hold.alive, hold.dead, hold.settle, hold.init, ?_, ?_⟩
    · intro hnone
      cases hnone
    · intro q' hq'
      cases hq'
      obtain ⟨messages, hkeeps⟩ := hmq.keeps
      refine ⟨hmq.handle, hmq.create, hmq.release, ?_, ?_, messages ++ [message], ?_⟩
      · intro _
        rw [pushed_count_self]
        cases hglobal : mq.inGlobal <;>
          simp [hglobal, hrelease, skynetMqPush, Thread.has, After.queue] at hplace ⊢ <;> omega
      · intro hne
        exact absurd hfreed hne
      · refine ⟨ring_push hkeeps.ring message, ?_, ?_, hkeeps.dropped, fun hne => absurd hfreed hne⟩
        · rw [hlog, hkeeps.pushed, List.append_assoc]
        · intro hglobal
          cases hglobal

/-- The handle store gives its reference to a thread, and a launch may end. -/
theorem Service.Ok.unregister {listed : ℕ} {n n' : Res → ℕ} (h : s.Ok 1 listed n)
    (href : n' .ref = n .ref + 1)
    (hsame : ∀ r, r ≠ .ref → r ≠ .launch → n' r = n r) : s.Ok 0 listed n' := by
  have hdelete := hsame .delete (by decide) (by decide)
  have hfree := hsame .free (by decide) (by decide)
  have hqueue := hsame .queue (by decide) (by decide)
  have hsettle := hsame .settle (by decide) (by decide)
  have hcreate := hsame .create (by decide) (by decide)
  have hreference := h.reference
  refine ⟨h.handle, ?_, ?_, ?_, ?_, ?_, ?_, ?_⟩
  · rw [href]
    omega
  · intro _
    rw [hdelete, hfree]
    exact h.alive (by omega)
  · intro hzero
    omega
  · intro _
    omega
  · intro hpos
    omega
  · rw [hcreate, hqueue]
    exact h.unborn
  · intro mq hq
    have hmq := h.born mq hq
    have hrelease := hmq.release
    refine ⟨hmq.handle, hcreate.trans hmq.create, ?_, ?_, ?_, hmq.keeps⟩
    · constructor
      · intro hmark
        have := hrelease.mp hmark
        omega
      · intro hzero
        omega
    · rw [hqueue]
      exact hmq.place
    · rw [hqueue]
      exact hmq.freed

/-- `skynet_handle_retire`: the reference of the handle store becomes one of the thread. -/
theorem goes_retire {failed : Option ℕ} (h : Inv m l (.retire handle failed :: rest)) :
    ∃ r, Thread.next m (.retire handle failed) = some r ∧ Goes r rest := by
  have hknown := h.thread _ List.mem_cons_self
  cases htable : m.table handle with
  | none =>
    have hnext : Thread.next m (.retire handle failed) =
        some (some (m, failed.elim .ended (.releaseQueue · none), [])) := by
      simp [Thread.next, htable]
    refine ⟨_, hnext, _, _, [], rfl, l, ?_⟩
    cases failed with
    | none =>
      show Inv m l (Thread.ended :: rest)
      refine h.same ?_ trivial
      intro r x
      cases r <;> rfl
    | some c =>
      -- the handle of a launch that has failed was retired by another thread
      obtain ⟨s, hs, hhandle⟩ := hknown
      have hreg : m.registered c s = 0 := by
        unfold Memory.registered
        rw [hhandle, htable]
        rfl
      refine h.put hs (set_eq_self hs).symm rfl h.holds h.fifo (fun _ _ => rfl) ?_
        (.refl s) id ?_ fun _ => trivial
      · intro r x hx
        cases r <;> first | rfl | exact (one_of_ne hx).symm
      · intro hold
        rw [hreg] at hold ⊢
        refine ⟨hold.handle, hold.reference, hold.alive, hold.dead, hold.settle, ?_, hold.unborn,
          fun q hq => (hold.born q hq).congr rfl rfl rfl rfl⟩
        intro hpos
        omega
  | some c =>
    obtain ⟨s, hs, hhandle⟩ := h.table handle c htable
    have hold := h.service c s hs
    have hreg : m.registered c s = 1 := by
      unfold Memory.registered
      rw [hhandle]
      exact if_pos htable
    have hcontext := hold.context hs (by omega)
    have hlives : s.Lives := by
      intro q hq
      exact (hold.born q hq).live (by omega)
    -- the launch that has failed is the one of this context
    have hsame : ∀ c', failed = some c' → c' = c := by
      rintro c' rfl
      obtain ⟨s', hs', hhandle'⟩ := hknown
      refine h.unique c' c s' s hs' hs ?_ hlives (hhandle'.trans hhandle.symm)
      obtain ⟨s'', hs'', hok⟩ := h.get (c := c') (r := .queue) (by simp [Thread.has])
      rw [hs'] at hs''
      cases hs''
      intro q hq
      apply (hok.born q hq).live
      simp only [Thread.has, one_self]
      omega
    have hnext : Thread.next m (.retire handle failed) =
        some (some (m.setHandle handle none,
          .release c (failed.elim .done .unregistered), [])) := by
      simp [Thread.next, htable, hcontext]
    refine ⟨_, hnext, _, _, [], rfl, l, ?_⟩
    refine h.change [] c h.holds h.fifo rfl (fun _ _ => rfl) ?_ ?_ (fun _ _ => rfl) ?_ ?_
      ?_ ?_
    · intro x y hxy
      by_cases hx : x = handle
      · subst hx
        rw [Memory.setHandle_self] at hxy
        cases hxy
      · rwa [Memory.setHandle_of_ne hx] at hxy
    · intro x y hy hxy
      have hx : x ≠ handle := by
        rintro rfl
        rw [htable] at hxy
        exact hy (Option.some.inj hxy).symm
      rwa [Memory.setHandle_of_ne hx]
    · intro r x hx
      cases failed with
      | none => cases r <;> first | rfl | exact one_of_ne hx
      | some c' =>
        cases hsame c' rfl
        cases r <;> first | rfl | exact (one_of_ne hx).symm | exact one_of_ne hx
    · intro hge
      obtain ⟨hlt, -⟩ := List.getElem?_eq_some_iff.mp hs
      omega
    · intro a b ha hb hold
      rw [hs] at ha
      rw [show (m.setHandle handle none).services[c]? = m.services[c]? from rfl, hs] at hb
      cases ha
      cases hb
      refine ⟨.refl s, id, ?_⟩
      have hreg' : (m.setHandle handle none).registered c s = 0 := by
        unfold Memory.registered
        rw [hhandle, Memory.setHandle_self]
        rfl
      rw [hreg] at hold
      rw [hreg']
      apply hold.unregister
      · simp only [count_nil, Thread.has, one_self]
        omega
      · intro r h₁ h₂
        cases failed with
        | none => cases r <;> simp_all [Thread.has, After.queue]
        | some c' =>
          cases hsame c' rfl
          cases r <;> simp_all [Thread.has, After.queue]
    · intro _
      refine ⟨?_, by simp⟩
      cases failed <;> trivial

/-- `skynet_handle_register`: a new context has two references, and no queue yet. The handle is not that
of a service whose queue is still looked after. -/
theorem goes_register {cb ok : Bool} {r : Option (Memory × Thread × List Thread)}
    (h : Inv m l (.register handle cb ok :: rest))
    (hnew : ∀ s ∈ m.services, s.handle = handle → ¬ s.Lives)
    (hnext : Thread.next m (.register handle cb ok) = some r) : Goes r rest := by
  rw [Thread.next] at hnext
  split at hnext
  case isFalse => cases hnext
  case isTrue hfree =>
    obtain ⟨hhandle, htable⟩ := hfree
    cases hnext
    set c := m.services.length with hc
    obtain ⟨hl, hn⟩ := h.bound c le_rfl
    have hzero : ∀ r, count rest r c = 0 := by
      intro r
      have := hn r
      rw [count_cons] at this
      omega
    set s : Service := ⟨handle, 2, cb, false, 0, none, ⟨[], [], []⟩⟩ with hs
    set m' : Memory := { m.setHandle handle (some c) with services := m.services ++ [s] } with hm'
    refine ⟨m', .create c ok, [], rfl, l, ?_⟩
    have hself : m'.services[c]? = some s := List.getElem?_concat_length
    have hback : ∀ (x : ℕ) (s' : Service), m'.services[x]? = some s' →
        m.services[x]? = some s' ∧ x ≠ c ∨ x = c ∧ s' = s := by
      intro x s' hs'
      rcases getElem?_concat_cases hs' with hold | hnew
      · obtain ⟨hlt, -⟩ := List.getElem?_eq_some_iff.mp hold
        exact .inl ⟨hold, by omega⟩
      · exact .inr hnew
    have hle : m.Le m' := fun x s' hs' => ⟨s', getElem?_concat_of_eq_some hs', .refl s'⟩
    have hlives : ∀ (x : ℕ) (s' : Service), m.services[x]? = some s' → s'.Lives →
        s'.handle ≠ handle := fun x s' hs' hlive heq =>
      hnew s' (List.mem_of_getElem? hs') heq hlive
    refine ⟨h.holds, h.fifo, ?_, ?_, ?_, ?_, ?_⟩
    · intro x s' hs'
      rcases hback x s' hs' with ⟨hold, hne⟩ | ⟨rfl, rfl⟩
      · -- a handle of the store is not the new one
        have hreg : m'.registered x s' = m.registered x s' := by
          unfold Memory.registered
          by_cases heq : s'.handle = handle
          · rw [heq, htable]
            show (if (m.setHandle handle (some c)).table handle = some x then 1 else 0) = _
            rw [Memory.setHandle_self, if_neg (by simp [hne.symm])]
            rfl
          · show (if (m.setHandle handle (some c)).table s'.handle = some x then 1 else 0) = _
            rw [Memory.setHandle_of_ne heq]
        have hcount : (fun r => count (.create c ok :: ([] ++ rest)) r x) =
            fun r => count (.register handle cb ok :: rest) r x := by
          funext r
          simp only [List.nil_append, count_cons]
          congr 1
          cases r <;> first | rfl | exact one_of_ne hne
        rw [hreg, hcount]
        exact h.service x s' hold
      · have hreg : m'.registered c s = 1 := by
          unfold Memory.registered
          show (if (m.setHandle handle (some c)).table handle = some c then 1 else 0) = _
          rw [Memory.setHandle_self, if_pos rfl]
        rw [hreg, hl]
        have hcount : ∀ r, count (.create c ok :: ([] ++ rest)) r c =
            (Thread.create c ok).has r c := by
          intro r
          rw [List.nil_append, count_cons, hzero r, Nat.add_zero]
        simp only [hcount]
        refine ⟨hhandle, ?_, ?_, ?_, ?_, ?_, ?_, ?_⟩
        · simp [hs, Thread.has]
        · simp [hs, Thread.has]
        · simp
        · simp [Thread.has]
        · simp [Thread.has]
        · simp [hs, Thread.has]
        · intro mq hq
          cases hq
    · intro x hx
      have hx' : x ≥ m.services.length ∧ x ≠ c := by
        have : m'.services.length = m.services.length + 1 := List.length_append
        omega
      obtain ⟨hl', hn'⟩ := h.bound x hx'.1
      refine ⟨hl', fun r => ?_⟩
      have := hn' r
      rw [count_cons] at this
      rw [List.nil_append, count_cons]
      have hzero' : (Thread.create c ok).has r x = 0 := by
        cases r <;> first | rfl | exact one_of_ne hx'.2
      omega
    · intro x y hxy
      by_cases hx : x = handle
      · subst hx
        rw [show m'.table = (m.setHandle x (some c)).table from rfl, Memory.setHandle_self] at hxy
        cases hxy
        exact ⟨s, hself, rfl⟩
      · rw [show m'.table = (m.setHandle handle (some c)).table from rfl,
          Memory.setHandle_of_ne hx] at hxy
        obtain ⟨s', hs', heq⟩ := h.table x y hxy
        exact ⟨s', getElem?_concat_of_eq_some hs', heq⟩
    · intro x y a b ha hb hla hlb heq
      rcases hback x a ha with ⟨ha, -⟩ | ⟨rfl, rfl⟩ <;> rcases hback y b hb with ⟨hb, -⟩ | ⟨rfl, rfl⟩
      · exact h.unique x y a b ha hb hla hlb heq
      · exact absurd heq (hlives x a ha hla)
      · exact absurd heq.symm (hlives y b hb hlb)
      · rfl
    · intro u hu
      rcases List.mem_cons.mp hu with rfl | hu
      · trivial
      · exact (h.thread u (List.mem_cons_of_mem _ hu)).mono hle

end SkynetEureka.Scheduler
