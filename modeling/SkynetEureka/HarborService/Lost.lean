import SkynetEureka.HarborService.Sound

/-!
# Harbors that went down

The error to the source is guarded by a slave without a socket whose status is down. No slave gets
there: `close_harbor` leaves the socket id, so a message to a harbor that went down is written to
the socket that was closed, or waits for its handshake.
-/

namespace SkynetEureka.HarborService

open Lib Function

/-- `PTYPE_ERROR` is sent to the source. -/
def Answered (es : List Effect) (source : ℕ) : Prop :=
  ∃ destination session, .answer destination source session ∈ es

variable {h h' : Harbor} {stamp : ℕ} {m : Message} {es : List Effect}

theorem step_lost {sys sys' : System} (hstep : sys.step m = some sys') {id : ℕ}
    (hlost : sys'.lost id = true) :
    sys.lost id = true ∨ (sys'.h.s id).status = .down ∨ (sys.h.s id).fd ≠ 0 := by
  unfold System.step at hstep
  split at hstep
  · next hvalid =>
    cases hstep
    simp only [Bool.or_eq_true, Bool.and_eq_true, decide_eq_true_eq] at hlost
    obtain (hlost | hdown) | ⟨hne, hid⟩ := hlost
    · exact .inl hlost
    · exact .inr (.inl hdown)
    · cases m with
      | closed fd =>
        refine .inr (.inr ?_)
        rw [← hid]
        show (sys.h.s (harborId sys.h fd)).fd ≠ 0
        rw [harborId_fd hne]
        exact hvalid
      | _ => exact absurd rfl hne
  · exact absurd hstep (by simp)

/-- A harbor whose connection is closed keeps its socket. -/
theorem lost_fd {id slave : ℕ} {ms : List Message} {sys : System}
    (hrun : run System.step (System.init id slave) ms = some sys) {lost : ℕ}
    (hlost : sys.lost lost = true) : (sys.h.s lost).fd ≠ 0 := by
  have hinv : Sound sys ∧ ∀ lost, sys.lost lost = true → (sys.h.s lost).fd ≠ 0 := by
    refine @run_invariant_of_step _ _ System.step (System.init id slave) sys ms
      (fun sys => Sound sys ∧ ∀ lost, sys.lost lost = true → (sys.h.s lost).fd ≠ 0)
      ?_ ⟨sound_init id slave, fun _ hlost => absurd hlost (by simp [System.init])⟩ hrun
    intro sys m sys' hboth hstep
    obtain ⟨hs, hinv⟩ := hboth
    have hs' := sound_step hs hstep
    refine ⟨hs', fun lost hlost hzero => ?_⟩
    obtain ⟨h, es, hmove, _, rfl, _⟩ := step_eq hstep
    have hkept : (sys.h.s lost).fd = 0 := by
      by_contra hfd
      rw [hmove.fd_eq hfd] at hzero
      exact hfd hzero
    obtain hlost | hdown | hfd := step_lost hstep hlost
    · exact hinv lost hlost hkept
    · have hwait := (hs'.slave lost).wait.mp hzero
      rw [hdown] at hwait
      exact absurd hwait (by simp)
    · exact hfd hkept
  exact hinv.2 lost hlost

theorem arrival_valid {a : Arrival} (ha : arrival h m = some a) : m.Valid := by
  cases m with
  | remote => trivial
  | _ => exact absurd ha (by simp [arrival])

/-- A message to a handle of a harbor with a socket is written, or waits for the handshake. -/
theorem remote_connected {a : Arrival} {handle : ℕ} (ha : arrival h m = some a)
    (hdest : a.destination = .handle handle) (hremote : harborOf handle ≠ h.id)
    (hfd : (h.s (harborOf handle)).fd ≠ 0) :
    mainloop h stamp m = (h, [.sendRemote (h.s (harborOf handle)).fd (h.s (harborOf handle)).status
      (a.msg (handle &&& handleMask) stamp)]) ∨
    mainloop h stamp m = (h.setSlave (harborOf handle) { h.s (harborOf handle) with
      queue := some ((h.s (harborOf handle)).waiting ++
        [a.msg (handle &&& handleMask) stamp]) }, []) := by
  have hsame : ∀ {b : Arrival} {handle'}, arrival h m = some b →
      b.destination = .handle handle' → b = a ∧ handle' = handle := by
    intro b handle' hb hbdest
    rw [ha] at hb
    cases hb
    rw [hdest] at hbdest
    cases hbdest
    exact ⟨rfl, rfl⟩
  have hmove := mainloop_move h stamp m (arrival_valid ha)
  generalize mainloop h stamp m = result at *
  obtain ⟨h', es⟩ := result
  dsimp only at hmove
  cases hmove with
  | «local» hb hbdest _ hlocal =>
    obtain ⟨rfl, rfl⟩ := hsame hb hbdest
    exact absurd hlocal hremote
  | wait hb hbdest =>
    obtain ⟨rfl, rfl⟩ := hsame hb hbdest
    exact .inr rfl
  | send hb hbdest =>
    obtain ⟨rfl, rfl⟩ := hsame hb hbdest
    exact .inl rfl
  | drop hb hbdest _ hzero =>
    obtain ⟨rfl, rfl⟩ := hsame hb hbdest
    exact absurd hzero hfd
  | unresolved hb hbdest =>
    rw [ha] at hb
    cases hb
    exact absurd (hdest.symm.trans hbdest) (by simp)
  | idle hb => exact absurd ha (by simp [hb])
  | read hb => exact absurd ha (by simp [hb])
  | refuse hb => exact absurd ha (by simp [hb])
  | shake hb => exact absurd ha (by simp [hb])
  | connect hb => exact absurd ha (by simp [hb])
  | accept hb => exact absurd ha (by simp [hb])
  | _ => exact absurd ha (by simp [arrival])

/-- What waits for a name is written when the name gets a handle of a harbor with a socket. -/
theorem name_connected {name : Name} {handle : ℕ} (hname : ValidName name)
    (hvalid : (Message.command (.name name) handle).Valid) (hok : (h.s (harborOf handle)).Ok)
    (hfd : (h.s (harborOf handle)).fd ≠ 0) :
    (mainloop h stamp (.command (.name name) handle)).2 = (h.unnamed name).map fun q =>
      .sendRemote (h.s (harborOf handle)).fd (h.s (harborOf handle)).status (q.fill handle) := by
  obtain ⟨hqueue, hes, _⟩ | ⟨hzero, _⟩ | ⟨hzero, _⟩ | ⟨_, hes, _⟩ :=
    (mainloop_move h stamp _ hvalid).named hname hok
  · rw [hes, Harbor.unnamed, hqueue]
    rfl
  · exact absurd hzero hfd
  · exact absurd hzero hfd
  · exact hes

/-- A message to a harbor that went down is never answered: it is written to the socket that was
closed, or waits for its handshake. -/
theorem lost_unanswered {id slave : ℕ} {ms : List Message} {sys : System}
    (hrun : run System.step (System.init id slave) ms = some sys) {lost : ℕ}
    (hlost : sys.lost lost = true) :
    (∀ m a handle, arrival sys.h m = some a → a.destination = .handle handle →
      harborOf handle = lost → lost ≠ sys.h.id →
      ¬ Answered (mainloop sys.h sys.clock m).2 a.source ∧
      ((mainloop sys.h sys.clock m).2 = [.sendRemote (sys.h.s lost).fd (sys.h.s lost).status
          (a.msg (handle &&& handleMask) sys.clock)] ∨
        (mainloop sys.h sys.clock m).2 = [] ∧
          a.msg (handle &&& handleMask) sys.clock ∈
            ((mainloop sys.h sys.clock m).1.s lost).waiting)) ∧
    ∀ name handle, ValidName name → (Message.command (.name name) handle).Valid →
      harborOf handle = lost → ∀ q ∈ sys.h.unnamed name,
      ¬ Answered (mainloop sys.h sys.clock (.command (.name name) handle)).2 q.header.source ∧
      .sendRemote (sys.h.s lost).fd (sys.h.s lost).status (q.fill handle) ∈
        (mainloop sys.h sys.clock (.command (.name name) handle)).2 := by
  have hfd := lost_fd hrun hlost
  refine ⟨?_, ?_⟩
  · rintro m a handle ha hdest rfl hremote
    obtain hsent | hwaits := @remote_connected sys.h sys.clock m a handle ha hdest hremote hfd
    · rw [hsent]
      exact ⟨by simp [Answered], .inl rfl⟩
    · rw [hwaits]
      refine ⟨by simp [Answered], .inr ⟨rfl, ?_⟩⟩
      rw [setSlave_s, if_pos rfl]
      exact List.mem_append_right _ (List.mem_singleton_self _)
  · rintro name handle hname hvalid rfl q hq
    rw [name_connected hname hvalid ((sound_run hrun).slave _) hfd]
    refine ⟨by simp [Answered], ?_⟩
    exact List.mem_map.mpr ⟨q, hq, rfl⟩

/-- Harbor 2 is connected and its socket is closed. -/
theorem lost_unanswered_closed :
    ∃ sys, run System.step (System.init 1 0x1000005)
        [.command (.accept 9 2) 0x1000005, .closed 9] = some sys ∧ sys.lost 2 = true ∧
      ¬ Answered (mainloop sys.h sys.clock
        (.remote 0x1000009 ⟨[], 0x2000007⟩ 3 7 [1, 2])).2 0x1000009 := by
  refine ⟨_, rfl, rfl, ?_⟩
  have hrun : run System.step (System.init 1 0x1000005)
      [.command (.accept 9 2) 0x1000005, .closed 9] = some _ := rfl
  exact ((lost_unanswered hrun rfl).1 (.remote 0x1000009 ⟨[], 0x2000007⟩ 3 7 [1, 2]) _ 0x2000007
    rfl rfl rfl (by decide)).1

/-- Harbor 2 answers the handshake with the id 3; a message to it is written to its socket. -/
theorem bad_handshake_unanswered :
    ∃ sys, run System.step (System.init 1 0x1000005)
        [.command (.connect 9 2) 0x1000005, .data 9 [3] fun _ => true] = some sys ∧
      sys.lost 2 = true ∧ (sys.h.s 2).status = .down ∧ .socketClose 9 ∈ sys.log ∧
      (mainloop sys.h sys.clock (.remote 0x1000009 ⟨[], 0x2000007⟩ 3 7 [1, 2])).2 =
        [.sendRemote 9 .down ⟨⟨0x1000009, 0x3000007, 7⟩, [1, 2], 2⟩] ∧
      ¬ Answered (mainloop sys.h sys.clock
        (.remote 0x1000009 ⟨[], 0x2000007⟩ 3 7 [1, 2])).2 0x1000009 := by
  refine ⟨_, rfl, rfl, rfl, by decide, rfl, ?_⟩
  rintro ⟨destination, session, hanswer⟩
  exact absurd (List.mem_singleton.mp hanswer) (by simp)

end SkynetEureka.HarborService
