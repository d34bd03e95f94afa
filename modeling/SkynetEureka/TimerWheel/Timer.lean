import Mathlib

/-!
# The timing wheel (`skynet_timer.c`)

A `link_list` is the list of its nodes from `head.next` on; `link` appends, `link_clear` takes
them all. A node carries the argument bytes of `timer_add` behind it, which no function of the
wheel reads: they are the type parameter `α`. `uint32_t` values are naturals below `2 ^ 32`.

The second half is the timer thread: `timer_update` holds the lock except while
`dispatch_list` runs, and `timer_add` is called by other threads whenever the lock is free.
-/

namespace SkynetEureka.TimerWheel

/-- `TIME_NEAR_SHIFT` -/
def timeNearShift : ℕ := 8

/-- `TIME_NEAR` -/
def timeNear : ℕ := 1 <<< timeNearShift

/-- `TIME_LEVEL_SHIFT` -/
def timeLevelShift : ℕ := 6

/-- `TIME_LEVEL` -/
def timeLevel : ℕ := 1 <<< timeLevelShift

/-- `TIME_NEAR_MASK` -/
def timeNearMask : ℕ := timeNear - 1

/-- `TIME_LEVEL_MASK` -/
def timeLevelMask : ℕ := timeLevel - 1

/-- `struct timer_event` -/
structure TimerEvent where
  handle : ℕ
  session : ℤ
deriving DecidableEq

/-- `struct timer_node`, with the bytes that follow it -/
structure TimerNode (α : Type*) where
  expire : ℕ
  arg : α
deriving DecidableEq

/-- The wheel of `struct timer`. -/
structure Timer (α : Type*) where
  near : ℕ → List (TimerNode α)
  t : ℕ → ℕ → List (TimerNode α)
  time : ℕ

variable {α : Type*}

/-- `link(&T->near[idx], node)` -/
def Timer.linkNear (T : Timer α) (idx : ℕ) (node : TimerNode α) : Timer α :=
  { T with near := Function.update T.near idx (T.near idx ++ [node]) }

/-- `link(&T->t[level][idx], node)` -/
def Timer.linkLevel (T : Timer α) (level idx : ℕ) (node : TimerNode α) : Timer α :=
  { T with
    t := Function.update T.t level (Function.update (T.t level) idx (T.t level idx ++ [node])) }

/-- The loop of `add_node`: the level of the innermost block that holds both times, at most `n`
rounds from level `i` on. -/
def findLevel (time currentTime : ℕ) : ℕ → ℕ → ℕ → ℕ
  | 0, i, _ => i
  | n + 1, i, mask =>
    if time ||| (mask - 1) = currentTime ||| (mask - 1) then i
    else findLevel time currentTime n (i + 1) (mask <<< timeLevelShift % 2 ^ 32)

/-- `add_node` -/
def addNode (T : Timer α) (node : TimerNode α) : Timer α :=
  let time := node.expire
  let currentTime := T.time
  if time ||| timeNearMask = currentTime ||| timeNearMask then
    T.linkNear (time &&& timeNearMask) node
  else
    let i := findLevel time currentTime 3 0 (timeNear <<< timeLevelShift)
    T.linkLevel i (time >>> (timeNearShift + i * timeLevelShift) &&& timeLevelMask) node

/-- The locked part of `timer_add`. -/
def timerAdd (T : Timer α) (arg : α) (time : ℕ) : Timer α :=
  addNode T { expire := (time + T.time) % 2 ^ 32, arg := arg }

/-- `move_list` -/
def moveList (T : Timer α) (level idx : ℕ) : Timer α :=
  let current := T.t level idx
  current.foldl addNode
    { T with t := Function.update T.t level (Function.update (T.t level) idx []) }

/-- The loop of `timer_shift`. It ends in the fourth round at the latest, see
`shiftLoop_eq`. -/
def shiftLoop (T : Timer α) (ct : ℕ) : ℕ → ℕ → ℕ → ℕ → Timer α
  | 0, _, _, _ => T
  | n + 1, mask, time, i =>
    if ct &&& (mask - 1) = 0 then
      let idx := time &&& timeLevelMask
      if idx ≠ 0 then moveList T i idx
      else shiftLoop T ct n (mask <<< timeLevelShift) (time >>> timeLevelShift) (i + 1)
    else T

/-- `timer_shift` -/
def timerShift (T : Timer α) : Timer α :=
  let ct := (T.time + 1) % 2 ^ 32
  let T := { T with time := ct }
  if ct = 0 then moveList T 3 0
  else shiftLoop T ct 4 timeNear (ct >>> timeNearShift) 0

/-- One test of the `while` of `timer_execute`: the list to dispatch, and the wheel without it. -/
def timerExecute (T : Timer α) : Option (List (TimerNode α) × Timer α) :=
  let idx := T.time &&& timeNearMask
  match T.near idx with
  | [] => none
  | current => some (current, { T with near := Function.update T.near idx [] })

/-- `timer_create_timer`, with any value in `time`. -/
def timerCreateTimer (time : ℕ) : Timer α where
  near := fun _ => []
  t := fun _ _ => []
  time := time

/-! ## The timer thread and its clients -/

/-- A delay that `skynet_timeout` hands to `timer_add`: a positive `int`. -/
structure Delay where
  time : ℕ
  pos : 0 < time
  lt : time < 2 ^ 31

/-- A call of `timer_add`: its place in the order of all calls, the number of shifts and the
value of `T->time` when it took the lock, and its arguments. -/
structure Request where
  seq : ℕ
  tick : ℕ
  now : ℕ
  delay : Delay
  event : TimerEvent

/-- What `dispatch_list` pushed, in which tick and with which value of `T->time`. -/
structure Dispatch where
  request : Request
  tick : ℕ
  now : ℕ

/-- Where the timer thread is. -/
inductive Phase where
  /-- outside `timer_update` -/
  | idle
  /-- in `dispatch_list`, without the lock, before or after `timer_shift` -/
  | dispatching (shifted : Bool) (current : List (TimerNode Request))

/-- The wheel, the timer thread, and the history: the shifts counted without wrapping, the calls
of `timer_add` and the dispatches, both in order. -/
structure Clock where
  timer : Timer Request
  phase : Phase
  ticks : ℕ
  added : List Request
  dispatched : List Dispatch

def Clock.init (time : ℕ) : Clock where
  timer := timerCreateTimer time
  phase := .idle
  ticks := 0
  added := []
  dispatched := []

/-- From the `while` of the second `timer_execute` on, with the lock. -/
def Clock.executeShifted (s : Clock) : Clock :=
  match timerExecute s.timer with
  | some (current, T) => { s with timer := T, phase := .dispatching true current }
  | none => { s with phase := .idle }

/-- From the `while` of the first `timer_execute` on, with the lock. -/
def Clock.execute (s : Clock) : Clock :=
  match timerExecute s.timer with
  | some (current, T) => { s with timer := T, phase := .dispatching false current }
  | none => Clock.executeShifted { s with timer := timerShift s.timer, ticks := s.ticks + 1 }

/-- What can happen next. -/
inductive Action where
  /-- another thread calls `timer_add` -/
  | add (delay : Delay) (event : TimerEvent)
  /-- the timer thread calls `timer_update` -/
  | update
  /-- the timer thread takes its next step inside `timer_update` -/
  | proceed

/-- One step. `timer_add` needs the lock, which is free in both phases. -/
def Clock.step (s : Clock) : Action → Option Clock
  | .add delay event =>
    let request := ⟨s.added.length, s.ticks, s.timer.time, delay, event⟩
    some { s with
      timer := timerAdd s.timer request delay.time
      added := s.added ++ [request] }
  | .update =>
    match s.phase with
    | .idle => some s.execute
    | .dispatching .. => none
  | .proceed =>
    match s.phase with
    | .idle => none
    -- the next round of `dispatch_list`
    | .dispatching shifted (node :: rest) =>
      some { s with
        phase := .dispatching shifted rest
        dispatched := s.dispatched ++ [⟨node.arg, s.ticks, s.timer.time⟩] }
    -- `dispatch_list` has returned: lock and test the `while` again
    | .dispatching false [] => some s.execute
    | .dispatching true [] => some s.executeShifted

end SkynetEureka.TimerWheel
