import SkynetEureka.Eureka.Service

/-!
# The registration is renewed

The cycle of `_register` and `_heartbeat` goes on in one place: a timer, or a coroutine that has not
set its timer yet. It does as long as no call of the webclient raises an error before the timer is
set, a new webclient is there when it is asked for, and no message "run" starts a second cycle
(`renewal_continues`). Nothing in the cycle catches an error.
-/

namespace SkynetEureka.Eureka

open Lib

/-- The coroutine still has to set the timer. -/
def Task.renews : Task → Bool
  | .launching _ | .registering | .beating => true
  | .fetching _ _ => false

/-- The places where the cycle goes on. -/
def Service.continuations (s : Service) : ℕ := s.timers.length + s.tasks.countP Task.renews

/-- No error is raised before the timer is set, and the service is not run once more. -/
def Action.Sound : Action → Prop
  | .reply .registering r | .reply .beating r => r ≠ .raised
  | .launched _ ok => ok = true
  | .run _ => False
  | _ => True

instance : (a : Action) → Decidable a.Sound
  | .reply .registering r | .reply .beating r => inferInstanceAs (Decidable (r ≠ .raised))
  | .launched _ ok => inferInstanceAs (Decidable (ok = true))
  | .run _ => inferInstanceAs (Decidable False)
  | .reply (.launching _) _ | .reply (.fetching _ _) _ | .timer _ | .ribbon _ =>
    inferInstanceAs (Decidable True)

variable {s s' : Service}

/-! ## How many continuations each function leaves -/

@[simp] theorem continuations_timeout (time : ℤ) (callback : Callback) :
    (s.timeout time callback).continuations = s.continuations + 1 := by
  unfold Service.continuations Service.timeout
  dsimp only
  rw [List.length_append, List.length_singleton]
  omega

theorem continuations_wait (task : Task) :
    (s.wait task).continuations = s.continuations + if task.renews then 1 else 0 := by
  unfold Service.continuations Service.wait
  dsimp only
  rw [List.countP_append, List.countP_singleton, Nat.add_assoc]

@[simp] theorem continuations_sendRegister :
    s.sendRegister.continuations = s.continuations + 1 := by
  unfold Service.sendRegister
  split
  · exact continuations_timeout _ _
  · exact continuations_wait _

@[simp] theorem continuations_register : s.register.continuations = s.continuations + 1 := by
  unfold Service.register
  split
  · exact continuations_sendRegister
  · split
    · exact continuations_timeout _ _
    · exact continuations_wait _

@[simp] theorem continuations_registered (answer : Answer) :
    (s.registered answer).continuations = s.continuations + 1 := by
  unfold Service.registered
  split
  · exact continuations_timeout _ _
  · exact continuations_timeout _ _

@[simp] theorem continuations_getapps (names : List Name) :
    (s.getapps names).continuations = s.continuations := by
  induction names with
  | nil => rfl
  | cons appid rest ih =>
    rw [Service.getapps]
    split
    · exact ih
    · exact continuations_wait _

@[simp] theorem continuations_gotApp (appid : Name) (rest : List Name) (answer : Answer) :
    (s.gotApp appid rest answer).continuations = s.continuations := by
  unfold Service.gotApp
  split
  · exact continuations_getapps _
  · exact continuations_getapps _

/-- The timer is set before the names are gone through. -/
@[simp] theorem continuations_beaten (answer : Answer) :
    (s.beaten answer).continuations = s.continuations + 1 := by
  unfold Service.beaten
  split
  · rw [continuations_getapps, continuations_timeout]
  · exact continuations_register

theorem continuations_heartbeat (hclient : s.eurekaclient ≠ none) :
    s.heartbeat.continuations = s.continuations + 1 := by
  unfold Service.heartbeat
  split
  · rename_i hnone
    exact absurd hnone hclient
  · split
    · exact continuations_register
    · exact continuations_wait _

/-! ## The client is there when it is used -/

@[simp] theorem eurekaclient_getapps (names : List Name) :
    (s.getapps names).eurekaclient = s.eurekaclient := by
  induction names with
  | nil => rfl
  | cons appid rest ih =>
    rw [Service.getapps]
    split
    · exact ih
    · rfl

@[simp] theorem eurekaclient_sendRegister : s.sendRegister.eurekaclient = s.eurekaclient := by
  unfold Service.sendRegister
  split
  · rfl
  · rfl

@[simp] theorem eurekaclient_register : s.register.eurekaclient = s.eurekaclient := by
  unfold Service.register
  split
  · exact eurekaclient_sendRegister
  · split
    · rfl
    · rfl

theorem eurekaclient_heartbeat : s.heartbeat.eurekaclient = s.eurekaclient := by
  unfold Service.heartbeat
  split
  · rfl
  · split
    · exact eurekaclient_register
    · rfl

theorem eurekaclient_resume (task : Task) (r : Reply) :
    (s.resume task r).eurekaclient = s.eurekaclient := by
  unfold Service.resume
  split
  · unfold Service.registered
    split
    · rfl
    · rfl
  · unfold Service.beaten
    split
    · exact eurekaclient_getapps _
    · exact eurekaclient_register
  · unfold Service.gotApp
    split
    · exact eurekaclient_getapps _
    · exact eurekaclient_getapps _
  · rfl
  · rfl

/-- Before the client is there, only `_register` is under way. -/
def Service.Ready (s : Service) : Prop :=
  s.eurekaclient = none → (∀ t ∈ s.timers, t.callback = .register) ∧
    Task.registering ∉ s.tasks ∧ Task.beating ∉ s.tasks

theorem Service.Ready.timeout (h : s.Ready) (time : ℤ) : (s.timeout time .register).Ready := by
  intro hnone
  obtain ⟨htimers, htasks⟩ := h hnone
  refine ⟨fun t ht => ?_, htasks⟩
  rcases List.mem_append.mp ht with hold | hnew
  · exact htimers t hold
  · rw [List.mem_singleton.mp hnew]

theorem Service.Ready.wait (h : s.Ready) {task : Task} (hregistering : task ≠ .registering)
    (hbeating : task ≠ .beating) : (s.wait task).Ready := by
  intro hnone
  obtain ⟨htimers, hreg, hbeat⟩ := h hnone
  have hnot : ∀ other, other ∉ s.tasks → task ≠ other → other ∉ s.tasks ++ [task] := by
    intro other hother hne hmem
    rcases List.mem_append.mp hmem with hold | hnew
    · exact hother hold
    · exact hne (List.mem_singleton.mp hnew).symm
  exact ⟨htimers, hnot _ hreg hregistering, hnot _ hbeat hbeating⟩

theorem Service.Ready.leave (h : s.Ready) (task : Task) : (s.leave task).Ready := by
  intro hnone
  obtain ⟨htimers, hreg, hbeat⟩ := h hnone
  exact ⟨htimers, fun hmem => hreg (List.mem_of_mem_erase hmem),
    fun hmem => hbeat (List.mem_of_mem_erase hmem)⟩

theorem Service.Ready.getapps (h : s.Ready) (names : List Name) : (s.getapps names).Ready := by
  induction names with
  | nil => exact h
  | cons appid rest ih =>
    rw [Service.getapps]
    split
    · exact ih
    · exact h.wait nofun nofun

theorem Service.Ready.register (h : s.Ready) : s.register.Ready := by
  by_cases hclient : s.eurekaclient = none
  · unfold Service.register
    rw [hclient]
    dsimp only
    split
    · exact h.timeout 500
    · exact h.wait nofun nofun
  · intro hnone
    rw [eurekaclient_register] at hnone
    exact absurd hnone hclient

/-! ## The steps -/

/-- The cycle goes on in one place. -/
structure Renewed (s : Service) : Prop where
  once : s.continuations = 1
  ready : s.Ready

theorem renewed_start (conf : Config) (names : List Name) : Renewed (Service.start conf names) :=
  ⟨continuations_register, Service.Ready.register fun _ => ⟨nofun, nofun, nofun⟩⟩

/-- A timer is taken out. -/
theorem continuations_erase {t : Timer} (hmem : t ∈ s.timers) :
    Service.continuations { s with timers := s.timers.erase t } + 1 = s.continuations := by
  unfold Service.continuations
  dsimp only
  rw [List.length_erase_of_mem hmem]
  have := List.length_pos_of_mem hmem
  omega

theorem continuations_leave {task : Task} (hmem : task ∈ s.tasks) (hrenews : task.renews = true) :
    (s.leave task).continuations + 1 = s.continuations := by
  unfold Service.continuations Service.leave
  dsimp only
  rw [List.countP_erase, if_pos ⟨hmem, hrenews⟩]
  have := List.countP_pos_iff.mpr ⟨task, hmem, hrenews⟩
  omega

theorem continuations_leave_fetching (appid : Name) (rest : List Name) :
    (s.leave (.fetching appid rest)).continuations = s.continuations := by
  unfold Service.continuations Service.leave
  dsimp only
  rw [List.countP_erase, if_neg fun h => absurd h.2 nofun]
  rfl

theorem Renewed.timer (h : Renewed s) {t : Timer} (hmem : t ∈ s.timers) :
    Renewed (Service.call { s with timers := s.timers.erase t } t.callback) := by
  have hless := continuations_erase hmem
  have hready : Service.Ready { s with timers := s.timers.erase t } := fun hnone =>
    ⟨fun t' ht' => (h.ready hnone).1 t' (List.mem_of_mem_erase ht'), (h.ready hnone).2⟩
  have honce := h.once
  cases hcallback : t.callback with
  | register =>
    show Renewed (Service.register _)
    refine ⟨?_, hready.register⟩
    rw [continuations_register]
    omega
  | heartbeat =>
    have hclient : s.eurekaclient ≠ none := fun hnone => by
      have := (h.ready hnone).1 t hmem
      rw [hcallback] at this
      cases this
    show Renewed (Service.heartbeat _)
    constructor
    · rw [@continuations_heartbeat { s with timers := s.timers.erase t } hclient]
      omega
    · intro hnone
      rw [eurekaclient_heartbeat] at hnone
      exact absurd hnone hclient

theorem Renewed.launched (h : Renewed s) {client : Client} (hmem : .launching client ∈ s.tasks) :
    Renewed (Service.sendRegister
      { s.leave (.launching client) with eurekaclient := some client }) := by
  have hless := continuations_leave hmem rfl
  have honce := h.once
  constructor
  · rw [continuations_sendRegister]
    show (s.leave (.launching client)).continuations + 1 = 1
    omega
  · intro hnone
    rw [eurekaclient_sendRegister] at hnone
    cases hnone

/-- A coroutine of the cycle sets the timer, or goes on to `_register`. -/
theorem Renewed.resume (h : Renewed s) {task : Task} (hmem : task ∈ s.tasks)
    (htask : task = .registering ∨ task = .beating) {r : Reply} (hr : r ≠ .raised) :
    Renewed ((s.leave task).resume task r) := by
  have honce := h.once
  have hclient : s.eurekaclient ≠ none := fun hnone => by
    obtain ⟨-, hreg, hbeat⟩ := h.ready hnone
    rcases htask with rfl | rfl
    · exact hreg hmem
    · exact hbeat hmem
  constructor
  · obtain ⟨received, hreceived⟩ : ∃ received, Client.received r = some received := by
      cases r with
      | raised => exact absurd rfl hr
      | empty => exact ⟨_, rfl⟩
      | done result content errmsg responseCode => exact ⟨_, rfl⟩
    unfold Service.resume
    rw [hreceived]
    rcases htask with rfl | rfl
    · show ((s.leave .registering).registered _).continuations = 1
      rw [continuations_registered, continuations_leave hmem rfl]
      exact honce
    · show ((s.leave .beating).beaten _).continuations = 1
      rw [continuations_beaten, continuations_leave hmem rfl]
      exact honce
  · intro hnone
    rw [eurekaclient_resume] at hnone
    exact absurd hnone hclient

/-- What a coroutine does that fetches instances is no matter to the cycle, also when it ends with
an error. -/
theorem Renewed.fetched (h : Renewed s) (appid : Name) (rest : List Name) (r : Reply) :
    Renewed ((s.leave (.fetching appid rest)).resume (.fetching appid rest) r) := by
  have hready := h.ready.leave (.fetching appid rest)
  have honce : (s.leave (.fetching appid rest)).continuations = 1 :=
    (continuations_leave_fetching appid rest).trans h.once
  unfold Service.resume
  cases hreceived : Client.received r with
  | none => exact ⟨honce, hready⟩
  | some received =>
    show Renewed ((s.leave (.fetching appid rest)).gotApp appid rest _)
    constructor
    · rw [continuations_gotApp]
      exact honce
    · unfold Service.gotApp
      split
      · rename_i body _
        have hsent : Service.Ready { s.leave (.fetching appid rest) with
            updates := (s.leave (.fetching appid rest)).updates ++ [(appid, body)] } := hready
        exact hsent.getapps rest
      · exact hready.getapps rest

theorem Renewed.step {a : Action} (h : Renewed s) (hsound : a.Sound)
    (hstep : s.step a = some s') : Renewed s' := by
  cases a with
  | timer t =>
    rw [Service.step, Option.ite_none_right_eq_some] at hstep
    obtain ⟨hmem, heq⟩ := hstep
    exact Option.some.inj heq ▸ h.timer hmem
  | launched client ok =>
    rw [Service.step, Option.ite_none_right_eq_some] at hstep
    obtain ⟨hmem, heq⟩ := hstep
    obtain rfl : ok = true := hsound
    exact Option.some.inj heq ▸ h.launched hmem
  | reply task r =>
    cases task with
    | launching client => cases hstep
    | registering =>
      obtain ⟨hmem, heq⟩ := Option.ite_none_right_eq_some.mp hstep
      exact Option.some.inj heq ▸ h.resume hmem (.inl rfl) hsound
    | beating =>
      obtain ⟨hmem, heq⟩ := Option.ite_none_right_eq_some.mp hstep
      exact Option.some.inj heq ▸ h.resume hmem (.inr rfl) hsound
    | fetching appid rest =>
      obtain ⟨-, heq⟩ := Option.ite_none_right_eq_some.mp hstep
      exact Option.some.inj heq ▸ h.fetched appid rest r
  | ribbon name =>
    rw [Service.step, Option.ite_none_left_eq_some] at hstep
    exact Option.some.inj hstep.2 ▸ ⟨h.once, h.ready⟩
  | run conf => exact hsound.elim

/-- **The registration is renewed.** Whatever the exchanges come to, there is one continuation of
the cycle, as long as no call of it raises an error. -/
theorem renewal_continues {conf : Config} {names : List Name} {acts : List Action}
    (hsound : Guarded Service.step (fun _ a => a.Sound) (.start conf names) acts)
    (hrun : run Service.step (.start conf names) acts = some s) : s.continuations = 1 := by
  have h : Renewed s := run_invariant (fun s a s' h ha hstep => h.step ha hstep)
    (renewed_start conf names) hsound hrun
  exact h.once

/-- A registry, and the instance that is registered there. -/
def sampleConf : Config where
  eurekaserver := ⟨some ['h'], some 17000, none, none, some 300⟩
  instanceData := ⟨some ['a'], some ['i'], .ok "\x7b\x7d"⟩

/-- The client of `sampleConf` -/
def sampleClient : Client := ⟨['h'], 17000, ['/', 'e', 'u', 'r', 'e', 'k', 'a'], none⟩

/-- The instance is registered, and a heartbeat is sent. -/
def registration : List Action :=
  [.launched sampleClient true, .reply .registering (.done 0 "" none 204),
    .timer ⟨300, .heartbeat⟩]

/-- The registry does not know the instance of the heartbeat, and the registration fails. -/
def unknown : List Action :=
  registration ++
    [.reply .beating (.done 0 "" none 404), .reply .registering (.done 7 "" none 0)]

theorem renewal_continues_unknown : ∃ s,
    run Service.step (.start sampleConf []) unknown = some s ∧
      s.timers = [⟨500, .register⟩] ∧ s.continuations = 1 := by
  obtain ⟨s, hrun, htimers⟩ : ∃ s, run Service.step (.start sampleConf []) unknown = some s ∧
      s.timers = [⟨500, .register⟩] := ⟨_, rfl, rfl⟩
  have hsound : Guarded Service.step (fun _ a => a.Sound) (.start sampleConf []) unknown := by
    decide
  exact ⟨s, hrun, htimers, renewal_continues hsound hrun⟩

/-- The webclient fails while a heartbeat is sent: nothing is left of the cycle. -/
theorem renewal_lost : ∃ s, run Service.step (.start sampleConf [])
      (registration ++ [.reply .beating .raised]) = some s ∧ s.continuations = 0 :=
  ⟨_, rfl, rfl⟩

end SkynetEureka.Eureka
