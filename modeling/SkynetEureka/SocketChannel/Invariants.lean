import SkynetEureka.SocketChannel.Channel

/-!
# What holds of a channel

`Returns` says what `get_response` returns on the bytes of a connection, and `Chain` that the
callers which have been served have got what it returns on the bytes that follow one another. `At`
is the invariant of the channel: `q` are the entries of the two queues, and `cur` is the caller
whose response function runs.
-/

namespace SkynetEureka.SocketChannel

open Lib Function

variable {D : Type}

/-! ## What a caller has to get -/

/-- The loop of `get_response` has these parts after it has read so many bytes. -/
inductive Gets (func : Response D) (bytes : List UInt8) : Option (List D) → ℕ → Prop where
  | start : Gets func bytes none 0
  | first {reply : Reply D} (h : func.run bytes = some reply) (hok : reply.ok)
      (hpadding : reply.padding) : Gets func bytes (some [reply.data]) reply.size
  | more {l : List D} {n : ℕ} {reply : Reply D} (hgets : Gets func bytes (some l) n)
      (h : func.run (bytes.drop n) = some reply) (hok : reply.ok) (hpadding : reply.padding) :
      Gets func bytes (some (l ++ [reply.data])) (n + reply.size)

/-- What `get_response` returns, and how many bytes it reads -/
inductive Returns (func : Response D) (bytes : List UInt8) : Bool → Value D → ℕ → Prop where
  | one {reply : Reply D} (h : func.run bytes = some reply) (hlast : ¬(reply.ok ∧ reply.padding)) :
      Returns func bytes reply.ok (.one reply.data) reply.size
  | failed {l : List D} {n : ℕ} {reply : Reply D} (hgets : Gets func bytes (some l) n)
      (h : func.run (bytes.drop n) = some reply) (hok : ¬reply.ok) :
      Returns func bytes reply.ok (.one reply.data) (n + reply.size)
  | parts {l : List D} {n : ℕ} {reply : Reply D} (hgets : Gets func bytes (some l) n)
      (h : func.run (bytes.drop n) = some reply) (hok : reply.ok) (hlast : ¬reply.padding) :
      Returns func bytes true (.parts (l ++ [reply.data])) (n + reply.size)

/-- Each caller has got what its own response function returns on the bytes that follow. -/
def Chain : List UInt8 → List (Served D) → Prop
  | _, [] => True
  | bytes, entry :: l =>
    Returns entry.caller.response bytes entry.ok entry.value entry.size ∧
      Chain (bytes.drop entry.size) l

/-- The bytes that the callers have read -/
def total (l : List (Served D)) : ℕ := (l.map Served.size).sum

section

variable {func : Response D} {bytes more : List UInt8} {parts : Option (List D)} {n : ℕ} {ok : Bool}
  {value : Value D} {l : List (Served D)} {entry : Served D}

theorem Response.run_drop {reply : Reply D} (hn : n ≤ bytes.length)
    (h : func.run (bytes.drop n) = some reply) :
    func.run ((bytes ++ more).drop n) = some reply := by
  rw [List.drop_append_of_le_length hn]
  exact func.extend _ _ _ h

theorem Response.add_size_le {reply : Reply D} (hn : n ≤ bytes.length)
    (h : func.run (bytes.drop n) = some reply) : n + reply.size ≤ bytes.length := by
  have hle := func.size_le _ _ h
  rw [List.length_drop] at hle
  omega

theorem Gets.le (h : Gets func bytes parts n) : n ≤ bytes.length := by
  induction h with
  | start => exact Nat.zero_le _
  | first h => exact func.size_le _ _ h
  | more hgets h hok hpadding ih => exact Response.add_size_le ih h

theorem Gets.extend (h : Gets func bytes parts n) : Gets func (bytes ++ more) parts n := by
  induction h with
  | start => exact .start
  | first h hok hpadding => exact .first (func.extend _ _ _ h) hok hpadding
  | more hgets h hok hpadding ih => exact .more ih (Response.run_drop hgets.le h) hok hpadding

theorem Returns.le (h : Returns func bytes ok value n) : n ≤ bytes.length := by
  cases h with
  | one h => exact func.size_le _ _ h
  | failed hgets h => exact Response.add_size_le hgets.le h
  | parts hgets h => exact Response.add_size_le hgets.le h

theorem Returns.extend (h : Returns func bytes ok value n) :
    Returns func (bytes ++ more) ok value n := by
  cases h with
  | one h hlast => exact .one (func.extend _ _ _ h) hlast
  | failed hgets h hok => exact .failed hgets.extend (Response.run_drop hgets.le h) hok
  | parts hgets h hok hlast => exact .parts hgets.extend (Response.run_drop hgets.le h) hok hlast

theorem total_append : total (l ++ [entry]) = total l + entry.size := by
  unfold total
  rw [List.map_append, List.sum_append]
  rfl

theorem Chain.le (h : Chain bytes l) : total l ≤ bytes.length := by
  induction l generalizing bytes with
  | nil => exact Nat.zero_le _
  | cons entry l ih =>
    have hle := h.1.le
    have hrest := ih h.2
    rw [List.length_drop] at hrest
    show entry.size + total l ≤ _
    omega

theorem Chain.extend (h : Chain bytes l) : Chain (bytes ++ more) l := by
  induction l generalizing bytes with
  | nil => trivial
  | cons entry l ih =>
    refine ⟨h.1.extend, ?_⟩
    rw [List.drop_append_of_le_length h.1.le]
    exact ih h.2

/-- The next caller goes on where the last one has stopped. -/
theorem Chain.append (h : Chain bytes l)
    (hentry : Returns entry.caller.response (bytes.drop (total l)) entry.ok entry.value
      entry.size) :
    Chain bytes (l ++ [entry]) := by
  induction l generalizing bytes with
  | nil => exact ⟨hentry, trivial⟩
  | cons head l ih =>
    refine ⟨h.1, ih h.2 ?_⟩
    rw [List.drop_drop]
    exact hentry

end

/-! ## The invariant -/

/-- The callers among the entries of the queues -/
def callers (q : List (Option (Caller D))) : List (Caller D) := q.filterMap id

/-- An outcome that a caller may get: an error, or what it has been served. -/
def Outcome.Ok (o : Outcome D) (w : Wait D) (served : List (Served D)) : Prop :=
  o.conn = w.conn ∧ (o.result = .socketError ∨ ∃ entry ∈ served, entry.caller = w.caller ∧
    o.result = .answer entry.ok ∧ o.data = some entry.value)

/-- A caller that has been woken once has its outcome, and one that has not been has none. -/
structure Wait.Ok (s : State D) (co : ℕ) (w : Wait D) : Prop where
  own : w.caller.co = co
  asleep : w.outcome = none → w.woken = 0 ∧ s.result co = none ∧ s.resultData co = none
  awake : ∀ o ∈ w.outcome, w.woken = 1 ∧ s.result co = some o.result ∧ s.resultData co = o.data ∧
    o.Ok w (s.served w.conn)

/-- The callers `P` of connection `k` are those that have not been woken. -/
structure Core (s : State D) (k : ℕ) (P : List (Caller D)) : Prop where
  pending : ∀ x ∈ P, s.waits x.co = some ⟨k, x, 0, none⟩
  nodup : (P.map Caller.co).Nodup
  waiting : ∀ co, ∀ w ∈ s.waits co, w.outcome = none → w.caller ∈ P
  idle : ∀ co, s.waits co = none → s.result co = none ∧ s.resultData co = none
  ok : ∀ co, ∀ w ∈ s.waits co, w.Ok s co

/-- Callers are served in their order. -/
structure Order (s : State D) : Prop where
  served : ∀ k, (s.served k).map Served.caller <+: s.joined k
  numbered : ∀ (k i : ℕ) (x : Caller D), (s.joined k)[i]? = some x → x.index = i
  chain : ∀ k, Chain (s.received k) (s.served k)
  fresh : ∀ k ≥ s.connections, s.joined k = [] ∧ s.consumed k = 0

/-- What the dispatch coroutine does for the caller `cur` -/
def Current (s : State D) (k : ℕ) (cur : List (Caller D)) : Phase D → Prop
  | .start => cur = [] ∧ s.consumed k = total (s.served k)
  | .waiting => cur = [] ∧ s.consumed k = total (s.served k)
  | .called co func parts => (∃ i, cur = [⟨co, i, func⟩]) ∧ ∃ n,
      s.consumed k = total (s.served k) + n ∧
        Gets func ((s.received k).drop (total (s.served k))) parts n
  | .closing co _ => s.sock = none ∧ ∃ x, cur = [x] ∧ x.co = co

/-- The invariant, when the dispatch coroutine of connection `k` is at this phase -/
structure At (s : State D) (k : ℕ) (q : List (Option (Caller D)))
    (cur : List (Caller D)) (phase : Option (Phase D)) : Prop where
  request : s.request = q.map (Option.map Caller.response)
  thread : s.thread = q.map (Option.map Caller.co)
  core : Core s k (cur ++ callers q)
  order : Order s
  running : ∀ p ∈ phase, k < s.connections ∧ Current s k cur p ∧
    (s.served k).map Served.caller ++ (cur ++ callers q) <+: s.joined k
  ended : phase = none → s.sock = none ∧ cur = [] ∧ (q = [] ∨ s.failing ≠ [])
  sock : ∀ k' ∈ s.sock, k' = k ∧ none ∉ q ∧
    (s.served k).map Served.caller ++ (cur ++ callers q) = s.joined k
  failing : ∀ x ∈ s.failing, x.2 = k
  shut : s.failing ≠ [] → s.sock = none
  woken : phase = some .waiting → q ≠ [] → s.waitResponse = false
  opening : ∀ c ∈ s.connector, c.phase = .opening ∨ c.phase = .awaiting → s.sock = none
  awaiting : ∀ c ∈ s.connector, c.phase = .awaiting → s.failing = []

def Inv (s : State D) : Prop :=
  ∃ k q cur phase, s.dispatchThread = phase.map (Dispatch.mk k) ∧ At s k q cur phase

end SkynetEureka.SocketChannel
