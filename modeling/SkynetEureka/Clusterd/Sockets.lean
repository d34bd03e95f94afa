import SkynetEureka.Lib.Run
import SkynetEureka.Lib.Lists

/-!
# The agents of sockets (clusterd.lua)

The gate reports to clusterd which sockets are open. `command.socket` starts a clusteragent.lua for
each of them; it yields where it waits for the new service, and other reports come meanwhile.
-/

namespace SkynetEureka.Clusterd.Sockets

open Lib Function

/-- What `cluster_agent` has for a socket. -/
inductive Entry where
  /-- `false` or `true`: the agent is being launched -/
  | launching (closed : Bool)
  /-- the agent of a connection -/
  | service (n : ℕ)
deriving DecidableEq

/-- The entry counts as true. -/
def Entry.isTrue : Entry → Bool
  | .launching closed => closed
  | .service _ => true

/-- The agent of a connection. -/
inductive Launch where
  | pending
  | launched
  | failed
deriving DecidableEq

/-- A report "open" and what has come of it. Its number stands for the agent that is launched
for it. -/
structure Connection where
  fd : ℕ
  /-- "close" or "error" has been reported -/
  closed : Bool
  launch : Launch
  /-- how often the agent has been sent "exit" -/
  exits : ℕ
deriving DecidableEq

structure State where
  clusterAgent : ℕ → Option Entry
  connections : List Connection

/-- What happens. -/
inductive Action where
  | opened (fd : ℕ)
  | closed (fd : ℕ)
  | error (fd : ℕ)
  /-- any other report -/
  | other (fd : ℕ)
  /-- `skynet.newservice` returns an agent, or raises an error -/
  | launched (n : ℕ) (ok : Bool)
deriving DecidableEq

/-- The socket is gone. -/
def Connection.close (fd : ℕ) (c : Connection) : Connection :=
  if c.fd = fd then { c with closed := true } else c

namespace State

variable (s : State)

/-- `skynet.send(agent, "lua", "exit")` -/
def sendExit (n : ℕ) : State :=
  { s with connections := s.connections.modify n fun c => { c with exits := c.exits + 1 } }

/-- `command.socket` with "open", up to `skynet.newservice` -/
def openSocket (fd : ℕ) : State where
  clusterAgent := update s.clusterAgent fd (some (.launching false))
  connections := s.connections ++ [⟨fd, false, .pending, 0⟩]

/-- `command.socket` with "open", from where the new service is there -/
def launched (n fd : ℕ) : State :=
  let closed := s.clusterAgent fd
  let s : State :=
    { clusterAgent := update s.clusterAgent fd (some (.service n))
      connections := s.connections.modify n fun c => { c with launch := .launched } }
  if closed.elim false Entry.isTrue then
    { s.sendExit n with clusterAgent := update s.clusterAgent fd none }
  else s

/-- `command.socket` with "close" or "error" -/
def closeSocket (fd : ℕ) : State :=
  let s : State := { s with connections := s.connections.map (Connection.close fd) }
  match s.clusterAgent fd with
  | none => s
  | some (.launching _) =>
    { s with clusterAgent := update s.clusterAgent fd (some (.launching true)) }
  | some (.service n) => { s.sendExit n with clusterAgent := update s.clusterAgent fd none }

/-- A step. -/
def step : Action → Option State
  | .opened fd => some (s.openSocket fd)
  | .closed fd => some (s.closeSocket fd)
  | .error fd => some (s.closeSocket fd)
  | .other _ => some s
  | .launched n ok => do
    let c ← s.connections[n]?
    if c.launch = .pending then
      some (if ok then s.launched n c.fd
        -- the error ends the handler
        else { s with connections := s.connections.modify n fun c => { c with launch := .failed } })
    else none

/-- No socket has been reported. -/
def init : State := ⟨fun _ => none, []⟩

/-- The gate reports "open" for a new socket: the number of a socket is used again only when it is
gone, and its agent has been launched long before. -/
def Fresh : Action → Prop
  | .opened fd => ∀ c ∈ s.connections, c.fd = fd → c.closed = true ∧ c.launch ≠ .pending
  | _ => True

instance : (a : Action) → Decidable (s.Fresh a)
  | .opened fd =>
    inferInstanceAs (Decidable (∀ c ∈ s.connections, c.fd = fd → c.closed = true ∧
      c.launch ≠ .pending))
  | .closed _ | .error _ | .other _ | .launched _ _ => inferInstanceAs (Decidable True)

end State

/-! ## What holds of each connection -/

/-- An agent that is being launched is marked with whether its socket is gone, an agent of an open
socket is the entry, and one of a closed socket has been sent "exit". -/
def State.Kept (s : State) (n : ℕ) (c : Connection) : Prop :=
  (c.launch = .pending → s.clusterAgent c.fd = some (.launching c.closed) ∧ c.exits = 0) ∧
  (c.launch = .launched → c.closed = false →
    s.clusterAgent c.fd = some (.service n) ∧ c.exits = 0) ∧
  (c.launch = .launched → c.closed = true → c.exits = 1) ∧
  (c.launch = .failed → c.exits = 0)

structure Matched (s : State) : Prop where
  kept : ∀ (n : ℕ) c, s.connections[n]? = some c → s.Kept n c
  /-- only the last connection of a socket may be open, or have its agent launched -/
  alone : ∀ (n n' : ℕ) c c', s.connections[n]? = some c → s.connections[n']? = some c' →
    n < n' → c.fd = c'.fd → c.closed = true ∧ c.launch ≠ .pending
  service : ∀ fd n, s.clusterAgent fd = some (.service n) →
    ∃ c, s.connections[n]? = some c ∧ c.fd = fd ∧ c.launch = .launched ∧ c.closed = false

variable {s s' : State} {fd n : ℕ} {c : Connection}

theorem matched_init : Matched State.init :=
  ⟨nofun, nofun, nofun⟩

/-- The entry of its socket is all that matters for a connection. -/
theorem State.Kept.mono (h : s.Kept n c) (hsame : s'.clusterAgent c.fd = s.clusterAgent c.fd) :
    s'.Kept n c := by
  unfold State.Kept at h ⊢
  rw [hsame]
  exact h

/-- Not even that matters when the socket is gone and the agent is launched. -/
theorem State.Kept.settled (h : s.Kept n c) (hclosed : c.closed = true)
    (hlaunch : c.launch ≠ .pending) : s'.Kept n c :=
  ⟨fun hpending => absurd hpending hlaunch, fun _ hopen => absurd (hclosed.symm.trans hopen) nofun,
    h.2.2⟩

/-- Two connections of one socket: one of them is settled. -/
theorem Matched.settled (h : Matched s) {n' : ℕ} {c' : Connection}
    (hget : s.connections[n]? = some c) (hget' : s.connections[n']? = some c') (hne : n' ≠ n)
    (hfd : c'.fd = c.fd) (hnot : c.closed = false ∨ c.launch = .pending) :
    c'.closed = true ∧ c'.launch ≠ .pending := by
  rcases Nat.lt_or_gt_of_ne hne with hlt | hgt
  · exact h.alone n' n c' c hget' hget hlt hfd
  · obtain ⟨hclosed, hlaunch⟩ := h.alone n n' c c' hget hget' hgt hfd.symm
    rcases hnot with hopen | hpending
    · exact absurd (hclosed.symm.trans hopen) nofun
    · exact absurd hpending hlaunch

/-! ## The steps -/

theorem Matched.openSocket (h : Matched s) (hfresh : s.Fresh (.opened fd)) :
    Matched (s.openSocket fd) := by
  have hother : ∀ fd', fd' ≠ fd → (s.openSocket fd).clusterAgent fd' = s.clusterAgent fd' :=
    fun fd' hne => update_of_ne hne _ _
  have hself : (s.openSocket fd).clusterAgent fd = some (.launching false) := update_self _ _ _
  constructor
  · intro n c hget
    rcases getElem?_concat_cases hget with hold | ⟨-, rfl⟩
    · by_cases hfd : c.fd = fd
      · obtain ⟨hclosed, hlaunch⟩ := hfresh c (List.mem_of_getElem? hold) hfd
        exact (h.kept n c hold).settled hclosed hlaunch
      · exact (h.kept n c hold).mono (hother _ hfd)
    · exact ⟨fun _ => ⟨hself, rfl⟩, nofun, nofun, nofun⟩
  · intro n n' c c' hget hget' hlt hfd
    rcases getElem?_concat_cases hget' with hold' | ⟨hn', rfl⟩
    · rcases getElem?_concat_cases hget with hold | ⟨hn, rfl⟩
      · exact h.alone n n' c c' hold hold' hlt hfd
      · have := (List.getElem?_eq_some_iff.mp hold').1
        omega
    · rcases getElem?_concat_cases hget with hold | ⟨hn, rfl⟩
      · exact hfresh c (List.mem_of_getElem? hold) hfd
      · omega
  · intro fd' n hentry
    by_cases hfd : fd' = fd
    · rw [hfd, hself] at hentry
      cases hentry
    · rw [hother fd' hfd] at hentry
      obtain ⟨c, hget, hc⟩ := h.service fd' n hentry
      exact ⟨c, getElem?_concat_of_eq_some hget, hc⟩

/-- The agent of a connection is there, or has failed: what changes is this connection, and the
entry of its socket. -/
theorem Matched.change (h : Matched s) (hget : s.connections[n]? = some c)
    (hpending : c.launch = .pending) {f : Connection → Connection} (hfd : (f c).fd = c.fd)
    (hclosed : (f c).closed = c.closed)
    (hconnections : s'.connections = s.connections.modify n f)
    (hother : ∀ fd, fd ≠ c.fd → s'.clusterAgent fd = s.clusterAgent fd)
    (hkept : s'.Kept n (f c))
    (hservice : ∀ n', s'.clusterAgent c.fd = some (.service n') →
      n' = n ∧ (f c).launch = .launched ∧ c.closed = false) : Matched s' := by
  have hcases : ∀ (n' : ℕ) c', s'.connections[n']? = some c' →
      n' = n ∧ c' = f c ∨ n' ≠ n ∧ s.connections[n']? = some c' := fun n' c' hget' =>
    getElem?_modify_cases hget (hconnections ▸ hget')
  have hnew : s'.connections[n]? = some (f c) := by
    rw [hconnections, List.getElem?_modify_eq, hget]
    rfl
  constructor
  · intro n' c' hget'
    rcases hcases n' c' hget' with ⟨rfl, rfl⟩ | ⟨hne, hold⟩
    · exact hkept
    · by_cases hsame : c'.fd = c.fd
      · obtain ⟨hclosed', hlaunch'⟩ := h.settled hget hold hne hsame (.inr hpending)
        exact (h.kept n' c' hold).settled hclosed' hlaunch'
      · exact (h.kept n' c' hold).mono (hother _ hsame)
  · intro n₁ n₂ c₁ c₂ hget₁ hget₂ hlt hsame
    rcases hcases n₁ c₁ hget₁ with ⟨rfl, rfl⟩ | ⟨hne₁, hold₁⟩
    · rcases hcases n₂ c₂ hget₂ with ⟨rfl, rfl⟩ | ⟨hne₂, hold₂⟩
      · omega
      · exact absurd hpending (h.alone n₁ n₂ c c₂ hget hold₂ hlt (hfd.symm.trans hsame)).2
    · rcases hcases n₂ c₂ hget₂ with ⟨rfl, rfl⟩ | ⟨hne₂, hold₂⟩
      · exact h.alone n₁ n₂ c₁ c hold₁ hget hlt (hsame.trans hfd)
      · exact h.alone n₁ n₂ c₁ c₂ hold₁ hold₂ hlt hsame
  · intro fd n' hentry
    by_cases hsame : fd = c.fd
    · subst hsame
      obtain ⟨rfl, hlaunched, hopen⟩ := hservice n' hentry
      exact ⟨f c, hnew, hfd, hlaunched, hclosed.trans hopen⟩
    · rw [hother fd hsame] at hentry
      obtain ⟨c', hget', hfd', hlaunched, hopen⟩ := h.service fd n' hentry
      have hne : n' ≠ n := by
        rintro rfl
        obtain rfl := Option.some.inj (hget.symm.trans hget')
        exact absurd (hpending.symm.trans hlaunched) nofun
      refine ⟨c', ?_, hfd', hlaunched, hopen⟩
      rw [hconnections, List.getElem?_modify_ne f _ hne.symm]
      exact hget'

theorem Matched.launched (h : Matched s) (hget : s.connections[n]? = some c)
    (hpending : c.launch = .pending) : Matched (s.launched n c.fd) := by
  obtain ⟨hentry, hexits⟩ := (h.kept n c hget).1 hpending
  have hother : ∀ (e e' : Option Entry) fd, fd ≠ c.fd →
      update (update s.clusterAgent c.fd e) c.fd e' fd = s.clusterAgent fd := fun e e' fd hne =>
    (update_of_ne hne _ _).trans (update_of_ne hne _ _)
  have htrue : (some (Entry.launching c.closed)).elim false Entry.isTrue = c.closed := rfl
  unfold State.launched
  dsimp only
  rw [hentry, htrue]
  by_cases hclosed : c.closed = true
  · -- the socket has been closed meanwhile
    rw [if_pos hclosed]
    refine h.change hget hpending
      (f := fun c => { c with launch := .launched, exits := c.exits + 1 })
      rfl rfl ?_ (hother _ _) ?_ ?_
    · exact List.modify_modify_eq ..
    · refine ⟨nofun, fun _ hopen => absurd (hclosed.symm.trans hopen) nofun, fun _ _ => ?_, nofun⟩
      show c.exits + 1 = 1
      rw [hexits]
    · intro n' hservice
      have hnone : update (update s.clusterAgent c.fd (some (.service n))) c.fd none c.fd = none :=
        update_self _ _ _
      cases hnone.symm.trans hservice
  · rw [if_neg hclosed]
    have hself : update s.clusterAgent c.fd (some (.service n)) c.fd = some (.service n) :=
      update_self _ _ _
    refine h.change hget hpending (f := fun c => { c with launch := .launched }) rfl rfl rfl
      (fun fd hne => update_of_ne hne _ _) ?_ ?_
    · exact ⟨nofun, fun _ _ => ⟨hself, hexits⟩, fun _ hopen => absurd hopen hclosed, nofun⟩
    · intro n' hservice
      cases hself.symm.trans hservice
      exact ⟨rfl, rfl, Bool.eq_false_iff.mpr hclosed⟩

theorem Matched.failed (h : Matched s) (hget : s.connections[n]? = some c)
    (hpending : c.launch = .pending) : Matched { s with
      connections := s.connections.modify n fun c => { c with launch := .failed } } := by
  obtain ⟨hentry, hexits⟩ := (h.kept n c hget).1 hpending
  refine h.change hget hpending (f := fun c => { c with launch := .failed }) rfl rfl rfl
    (fun _ _ => rfl) ⟨nofun, nofun, nofun, fun _ => hexits⟩ ?_
  intro n' hservice
  cases hentry.symm.trans hservice

theorem close_of_ne (hne : c.fd ≠ fd) : c.close fd = c := if_neg hne

theorem closed_close (hfd : c.fd = fd) : (c.close fd).closed = true := by
  unfold Connection.close
  rw [if_pos hfd]

theorem fd_close : (c.close fd).fd = c.fd := by
  unfold Connection.close
  rw [apply_ite Connection.fd]
  exact ite_self _

theorem launch_close : (c.close fd).launch = c.launch := by
  unfold Connection.close
  rw [apply_ite Connection.launch]
  exact ite_self _

theorem exits_close : (c.close fd).exits = c.exits := by
  unfold Connection.close
  rw [apply_ite Connection.exits]
  exact ite_self _

/-- The connections of a socket are closed, and `g` is what happens to them besides. -/
theorem Matched.close (h : Matched s) {g : ℕ → Connection → Connection}
    (hconnections : ∀ n, s'.connections[n]? = (s.connections[n]?).map (g n))
    (hne : ∀ (n : ℕ) c, s.connections[n]? = some c → c.fd ≠ fd → g n c = c)
    (hsame : ∀ n c, (g n c).fd = c.fd ∧ (g n c).launch = c.launch)
    (hclosed : ∀ n c, c.fd = fd → (g n c).closed = true)
    (hother : ∀ fd', fd' ≠ fd → s'.clusterAgent fd' = s.clusterAgent fd')
    (hkept : ∀ (n : ℕ) c, s.connections[n]? = some c → c.fd = fd → s'.Kept n (g n c))
    (hservice : ∀ n, s'.clusterAgent fd ≠ some (.service n)) : Matched s' := by
  have hold : ∀ (n : ℕ) c', s'.connections[n]? = some c' →
      ∃ c, s.connections[n]? = some c ∧ g n c = c' := fun n c' hget =>
    Option.map_eq_some_iff.mp (hconnections n ▸ hget)
  constructor
  · intro n c' hget'
    obtain ⟨c, hget, rfl⟩ := hold n c' hget'
    by_cases hfd : c.fd = fd
    · exact hkept n c hget hfd
    · rw [hne n c hget hfd]
      exact (h.kept n c hget).mono (hother _ hfd)
  · intro n₁ n₂ c₁' c₂' hget₁' hget₂' hlt hfd
    obtain ⟨c₁, hget₁, rfl⟩ := hold n₁ c₁' hget₁'
    obtain ⟨c₂, hget₂, rfl⟩ := hold n₂ c₂' hget₂'
    rw [(hsame n₁ c₁).1, (hsame n₂ c₂).1] at hfd
    obtain ⟨hclosed', hlaunch⟩ := h.alone n₁ n₂ c₁ c₂ hget₁ hget₂ hlt hfd
    rw [(hsame n₁ c₁).2]
    refine ⟨?_, hlaunch⟩
    by_cases hfd₁ : c₁.fd = fd
    · exact hclosed n₁ c₁ hfd₁
    · rw [hne n₁ c₁ hget₁ hfd₁]
      exact hclosed'
  · intro fd' n hentry
    have hfd : fd' ≠ fd := fun heq => hservice n (heq ▸ hentry)
    rw [hother fd' hfd] at hentry
    obtain ⟨c, hget, hcfd, hlaunched, hopen⟩ := h.service fd' n hentry
    have hg : g n c = c := hne n c hget (hcfd.trans_ne hfd)
    refine ⟨c, ?_, hcfd, hlaunched, hopen⟩
    rw [hconnections n, hget, Option.map_some, hg]

/-- A report "close" or "error": the entry of an agent goes, and that of one which is being
launched is marked. -/
theorem Matched.closeSocket (h : Matched s) (fd : ℕ) : Matched (s.closeSocket fd) := by
  have hmap : ∀ n : ℕ, (s.connections.map (Connection.close fd))[n]? =
      (s.connections[n]?).map (Connection.close fd) := fun n => List.getElem?_map
  unfold State.closeSocket
  dsimp only
  cases hentry : s.clusterAgent fd with
  | none =>
    refine h.close (g := fun _ => Connection.close fd) hmap (fun _ _ _ => close_of_ne)
      (fun _ _ => ⟨fd_close, launch_close⟩) (fun _ _ => closed_close) (fun _ _ => rfl) ?_ ?_
    · intro n c hget hfd
      obtain ⟨hpending, hlaunched, hexit, hfailed⟩ := h.kept n c hget
      rw [hfd, hentry] at hpending hlaunched
      unfold State.Kept
      rw [launch_close, exits_close]
      refine ⟨fun hl => absurd (hpending hl).1 nofun, fun _ hopen => ?_, fun hl _ => ?_, hfailed⟩
      · exact absurd ((closed_close hfd).symm.trans hopen) nofun
      · by_cases hclosed : c.closed = true
        · exact hexit hl hclosed
        · exact absurd (hlaunched hl (Bool.eq_false_iff.mpr hclosed)).1 nofun
    · intro n hservice
      cases hentry.symm.trans hservice
  | some entry =>
    have hother : ∀ (e : Option Entry) fd', fd' ≠ fd →
        update s.clusterAgent fd e fd' = s.clusterAgent fd' := fun e fd' hne => update_of_ne hne _ _
    cases entry with
    | launching closed =>
      have hself : update s.clusterAgent fd (some (.launching true)) fd =
        some (.launching true) := update_self _ _ _
      refine h.close (g := fun _ => Connection.close fd) hmap (fun _ _ _ => close_of_ne)
        (fun _ _ => ⟨fd_close, launch_close⟩) (fun _ _ => closed_close) (hother _) ?_ ?_
      · intro n c hget hfd
        obtain ⟨hpending, hlaunched, hexit, hfailed⟩ := h.kept n c hget
        rw [hfd, hentry] at hpending hlaunched
        unfold State.Kept
        rw [launch_close, exits_close, fd_close, hfd, closed_close hfd]
        refine ⟨fun hl => ⟨hself, (hpending hl).2⟩, nofun, fun hl _ => ?_, hfailed⟩
        by_cases hclosed : c.closed = true
        · exact hexit hl hclosed
        · exact absurd (hlaunched hl (Bool.eq_false_iff.mpr hclosed)).1 nofun
      · intro n hservice
        cases hself.symm.trans hservice
    | service m =>
      -- the agent of the one connection that is open
      obtain ⟨cm, hgetm, hfdm, hlaunchm, hopenm⟩ := h.service fd m hentry
      have hexitm : cm.exits = 0 := ((h.kept m cm hgetm).2.1 hlaunchm hopenm).2
      have hnone : update s.clusterAgent fd none fd = none := update_self _ _ _
      refine h.close (g := fun n c => if n = m then
          { c.close fd with exits := (c.close fd).exits + 1 } else c.close fd) ?_ ?_ ?_ ?_
        (hother _) ?_ ?_
      · intro n
        show ((s.connections.map (Connection.close fd)).modify m _)[n]? = _
        rw [List.getElem?_modify, hmap n, Option.map_eq_map, Option.map_map]
        congr 1
        funext c
        by_cases hn : m = n
        · rw [if_pos hn.symm]
          exact if_pos hn
        · rw [if_neg (Ne.symm hn)]
          exact if_neg hn
      · intro n c hget hfd
        have hn : n ≠ m := by
          rintro rfl
          exact hfd ((congrArg Connection.fd (Option.some.inj (hget.symm.trans hgetm))).trans hfdm)
        rw [if_neg hn]
        exact close_of_ne hfd
      · intro n c
        split_ifs
        · exact ⟨fd_close, launch_close⟩
        · exact ⟨fd_close, launch_close⟩
      · intro n c hfd
        split_ifs
        · exact closed_close hfd
        · exact closed_close hfd
      · intro n c hget hfd
        by_cases hn : n = m
        · subst hn
          obtain rfl := Option.some.inj (hget.symm.trans hgetm)
          rw [if_pos rfl]
          unfold State.Kept
          dsimp only
          rw [launch_close, exits_close, hlaunchm, hexitm, closed_close hfd]
          exact ⟨nofun, nofun, fun _ _ => rfl, nofun⟩
        · rw [if_neg hn]
          obtain ⟨hclosed, hlaunch⟩ := h.settled hgetm hget hn (hfd.trans hfdm.symm) (.inl hopenm)
          have hkept := h.kept n c hget
          unfold State.Kept at hkept ⊢
          rw [launch_close, exits_close, closed_close hfd]
          exact ⟨fun hl => absurd hl hlaunch, nofun, fun hl _ => hkept.2.2.1 hl hclosed,
            hkept.2.2.2⟩
      · intro n hservice
        cases hnone.symm.trans hservice

theorem Matched.step {a : Action} (h : Matched s) (hfresh : s.Fresh a)
    (hstep : s.step a = some s') : Matched s' := by
  cases a with
  | opened fd => exact Option.some.inj hstep ▸ h.openSocket hfresh
  | closed fd => exact Option.some.inj hstep ▸ h.closeSocket fd
  | error fd => exact Option.some.inj hstep ▸ h.closeSocket fd
  | other fd => exact Option.some.inj hstep ▸ h
  | launched n ok =>
    obtain ⟨c, hget, hstep⟩ := Option.bind_eq_some_iff.mp hstep
    rw [Option.ite_none_right_eq_some] at hstep
    obtain ⟨hpending, heq⟩ := hstep
    rw [← Option.some.inj heq]
    split_ifs
    · exact h.launched hget hpending
    · exact h.failed hget hpending

/-- **Agents match their sockets.** When the reports of a socket have ended with "close" or "error",
and its agents have been launched, no agent is kept for it and each agent that has been launched
for it has been sent "exit" once. The agent of an open socket has not been sent "exit". -/
theorem agents_match_sockets {acts : List Action}
    (hfresh : Guarded State.step State.Fresh .init acts)
    (hrun : run State.step .init acts = some s) :
    (∀ fd, (∀ c ∈ s.connections, c.fd = fd → c.closed = true ∧ c.launch ≠ .pending) →
      (∀ n, s.clusterAgent fd ≠ some (.service n)) ∧
        ∀ c ∈ s.connections, c.fd = fd → c.launch = .launched → c.exits = 1) ∧
      ∀ c ∈ s.connections, c.closed = false → c.exits = 0 := by
  have h : Matched s := run_invariant (fun s a s' h ha hstep => h.step ha hstep) matched_init
    hfresh hrun
  constructor
  · intro fd hdone
    constructor
    · intro n hentry
      obtain ⟨c, hget, hfd, -, hopen⟩ := h.service fd n hentry
      exact absurd ((hdone c (List.mem_of_getElem? hget) hfd).1.symm.trans hopen) nofun
    · intro c hmem hfd hlaunched
      obtain ⟨n, hget⟩ := List.getElem?_of_mem hmem
      exact (h.kept n c hget).2.2.1 hlaunched (hdone c hmem hfd).1
  · intro c hmem hopen
    obtain ⟨n, hget⟩ := List.getElem?_of_mem hmem
    obtain ⟨hpending, hlaunched, -, hfailed⟩ := h.kept n c hget
    cases hlaunch : c.launch with
    | pending => exact (hpending hlaunch).2
    | launched => exact (hlaunched hlaunch hopen).2
    | failed => exact hfailed hlaunch

/-- The socket 5 is closed while its agent is launched, and an error is reported too; 6 is open. -/
def closedEarly : List Action :=
  [.opened 5, .opened 6, .launched 1 true, .closed 5, .error 5, .launched 0 true, .closed 5]

theorem agents_match_sockets_early : ∃ s, run State.step .init closedEarly = some s ∧
    (∀ n, s.clusterAgent 5 ≠ some (.service n)) ∧
      s.connections = [⟨5, true, .launched, 1⟩, ⟨6, false, .launched, 0⟩] := by
  obtain ⟨s, hrun, hconnections⟩ : ∃ s, run State.step .init closedEarly = some s ∧
      s.connections = [⟨5, true, .launched, 1⟩, ⟨6, false, .launched, 0⟩] := ⟨_, rfl, rfl⟩
  have hfresh : Guarded State.step State.Fresh .init closedEarly := by decide
  refine ⟨s, hrun, ((agents_match_sockets hfresh hrun).1 5 ?_).1, hconnections⟩
  rw [hconnections]
  decide

end SkynetEureka.Clusterd.Sockets
