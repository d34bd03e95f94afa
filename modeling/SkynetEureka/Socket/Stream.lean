import SkynetEureka.Lib.Run
import SkynetEureka.Socket.Reading

/-!
# The byte stream

What the calls of the reader return, and what is in the buffer, are the bytes that have been received.
Sizes that are 0, or that do not fit an `int`, are the exception.
-/

namespace SkynetEureka.Socket

open Lib

variable {s s' : State} {sb : Buffer} {c : Call} {result : Result} {msg sep : Bytes} {sz since : ℕ}

/-! ## What is promised -/

/-- The bytes that a call has returned, with the separator of a line put back -/
def Return.bytes (x : Return) : Bytes :=
  match x.result with
  | .ok ret =>
    match x.call with
    | .readline sep => ret ++ sep
    | _ => ret
  | .fail ret => ret.getD []
  | .status _ => []

/-- A call fails only when the socket is closed, and leaves nothing behind. -/
structure Return.Ok (x : Return) : Prop where
  exact : ∀ sz ret, x.call = .read sz → x.result = .ok ret → ret.length = sz
  failed : ∀ ret, x.result = .fail ret → x.connected = false ∧ x.left = []
  status : ∀ connected, x.result = .status connected → connected = x.connected

/-- What a call waits for, beside the end of the stream -/
def State.Condition (s : State) (since : ℕ) : Call → Prop
  | .read sz => sz ≤ s.buffer.bytes.length
  | .readAny => s.buffer.bytes ≠ []
  | .readall => False
  | .readline sep => sep <:+: s.buffer.bytes
  | .block => since < s.received.length

/-- The sizes fit an `int`; where a size or a separator is empty, there is nothing to wait for. -/
def Fits : Option State → Action → Prop
  | some s, .data msg => s.buffer.bytes.length + msg.length < 2 ^ 31
  | some s, .call (.read sz) => sz < 2 ^ 31 ∧ (sz = 0 → s.connected = false)
  | some s, .call (.readline sep) =>
    sep.length < 2 ^ 31 ∧ (sep = [] → s.connected = true → s.buffer.bytes ≠ [])
  | _, _ => True

/-! ## The invariant -/

/-- What a call leaves in `readRequired` -/
def Call.required : Call → Required
  | .read sz => .number sz
  | .readAny | .block => .number 0
  | .readall => .all
  | .readline sep => .string sep

def Call.Fits : Call → Prop
  | .read sz => sz < 2 ^ 31
  | .readline sep => sep.length < 2 ^ 31
  | _ => True

/-- A reader that is woken while the socket is connected will find what it wants. -/
def State.Ready (s : State) : Call → Prop
  | .read sz => 0 < sz ∧ sz ≤ s.buffer.bytes.length
  | .readAny => s.buffer.bytes ≠ []
  | .readall => False
  | .readline sep => sep <:+: s.buffer.bytes ∧ s.buffer.bytes ≠ []
  | .block => True

def State.ReaderOk (s : State) : Reader → Prop
  | .idle => s.connected = true → s.readRequired = none
  | .suspended call since =>
    s.connected = true ∧ s.readRequired = some call.required ∧ call.Fits ∧ ¬s.Condition since call ∧
      since ≤ s.received.length
  | .woken call => call.Fits ∧ (s.connected = true → s.readRequired = none ∧ s.Ready call)

structure Inv (s : State) : Prop where
  buffer : s.buffer.Ok
  limit : s.bufferLimit = none
  stream : s.returned.flatMap Return.bytes ++ s.buffer.bytes = s.received
  returns : ∀ x ∈ s.returned, x.Ok
  required : ∀ sep, s.readRequired = some (.string sep) → sep.length < 2 ^ 31
  reader : s.ReaderOk s.reader

theorem Inv.init : Inv State.init :=
  ⟨Buffer.init_ok, rfl, rfl, nofun, nofun, fun _ => rfl⟩

/-- A call returns, and what it returns goes out of the buffer. -/
theorem Inv.finish (h : Inv s) (hidle : s.connected = true → s.readRequired = none) (hok : sb.Ok)
    (hbytes : (⟨c, result, s.connected, sb.bytes⟩ : Return).bytes ++ sb.bytes = s.buffer.bytes)
    (hreturn : (⟨c, result, s.connected, sb.bytes⟩ : Return).Ok) :
    Inv ({ s with buffer := sb }.finish c result) := by
  refine ⟨hok, h.limit, ?_, ?_, h.required, hidle⟩
  · show (s.returned ++ [_]).flatMap Return.bytes ++ sb.bytes = s.received
    rw [List.flatMap_append, List.append_assoc, List.flatMap_singleton, hbytes]
    exact h.stream
  · intro x hx
    rcases List.mem_append.mp hx with hold | hnew
    · exact h.returns x hold
    · rw [List.mem_singleton.mp hnew]
      exact hreturn

/-- The call fails, and returns all that is left. -/
theorem Inv.fail (h : Inv s) (hclosed : s.connected = false) : Inv (s.fail c) := by
  obtain ⟨hall, hok, hnil⟩ := h.buffer.readall
  refine h.finish ?_ hok ?_ ⟨nofun, fun _ _ => ⟨hclosed, hnil⟩, nofun⟩
  · intro hconnected
    rw [hclosed] at hconnected
    cases hconnected
  · rw [hnil, List.append_nil]
    exact hall

theorem Inv.succeed {ret : Bytes} (h : Inv s) (hidle : s.connected = true → s.readRequired = none)
    (hok : sb.Ok)
    (hbytes : (⟨c, .ok ret, s.connected, sb.bytes⟩ : Return).bytes ++ sb.bytes = s.buffer.bytes)
    (hexact : ∀ sz, c = .read sz → ret.length = sz) : Inv (s.succeed c ret sb) := by
  refine h.finish hidle hok hbytes ⟨?_, nofun, nofun⟩
  rintro sz _ hcall ⟨⟩
  exact hexact sz hcall

/-- The whole buffer is returned. -/
theorem Inv.succeed_all (h : Inv s) (hidle : s.connected = true → s.readRequired = none)
    (hcall : c = .readAny ∨ c = .readall) :
    Inv (s.succeed c s.buffer.readall.1 s.buffer.readall.2) := by
  obtain ⟨hall, hok, hnil⟩ := h.buffer.readall
  rcases hcall with rfl | rfl
  · refine h.succeed hidle hok ?_ nofun
    rw [hnil, List.append_nil]
    exact hall
  · refine h.succeed hidle hok ?_ nofun
    rw [hnil, List.append_nil]
    exact hall

/-- A call waits for what is not there yet. -/
theorem Inv.suspend (h : Inv s) (hidle : s.connected = true → s.readRequired = none)
    (hconnected : s.connected = true) (hfits : c.Fits)
    (hcondition : ¬s.Condition s.received.length c) :
    ∃ s', s.suspend c c.required = some s' ∧ Inv s' := by
  unfold State.suspend
  rw [hidle hconnected]
  refine ⟨_, rfl, h.buffer, h.limit, h.stream, h.returns, ?_, hconnected, rfl, hfits, hcondition,
    Nat.le_refl _⟩
  intro sep hsep
  cases c with
  | readline sep' =>
    cases hsep
    exact hfits
  | _ => cases hsep

/-! ## The calls -/

/-- `driver.pop`, at the beginning of `socket.read` and after its wait -/
theorem Inv.pop (h : Inv s) (hidle : s.connected = true → s.readRequired = none)
    (hlt : sz < 2 ^ 31) :
    (0 < sz ∧ sz ≤ s.buffer.bytes.length ∧
      ∃ ret sb, s.buffer.pop sz = some (some ret, sb) ∧ Inv (s.succeed (.read sz) ret sb)) ∨
    (¬(0 < sz ∧ sz ≤ s.buffer.bytes.length) ∧ s.buffer.pop sz = some (none, s.buffer)) := by
  by_cases hready : 0 < sz ∧ sz ≤ s.buffer.bytes.length
  · obtain ⟨sb, heq, hok, hbytes⟩ := h.buffer.pop hready.1 hready.2
    refine .inl ⟨hready.1, hready.2, _, sb, heq, h.succeed hidle hok ?_ ?_⟩
    · rw [hbytes]
      exact List.take_append_drop _ _
    · rintro _ ⟨⟩
      rw [List.length_take, Nat.min_eq_left hready.2]
  · exact .inr ⟨hready, h.buffer.pop_none hlt (by omega)⟩

/-- `driver.readline`, at the beginning of `socket.readline` and after its wait -/
theorem Inv.readline (h : Inv s) (hidle : s.connected = true → s.readRequired = none)
    (hlt : sep.length < 2 ^ 31) :
    (∃ ret sb, s.buffer.readline sep = some (some ret, sb) ∧ Inv (s.succeed (.readline sep) ret sb)) ∨
    ((s.buffer.bytes ≠ [] → ¬sep <:+: s.buffer.bytes) ∧
      s.buffer.readline sep = some (none, s.buffer)) := by
  obtain ⟨found, hsearch, -, hnone⟩ := h.buffer.search hlt
  rcases h.buffer.readline hlt with ⟨line, sb, -, heq, hok, hbytes, -⟩ | ⟨hsearch', heq⟩
  · exact .inl ⟨line, sb, heq, h.succeed hidle hok hbytes.symm nofun⟩
  · rw [hsearch'] at hsearch
    exact .inr ⟨hnone (Option.some.inj hsearch).symm, heq⟩

/-- Where there is not enough in the buffer, the call fails or waits. -/
theorem Inv.wait (h : Inv s) (hidle : s.connected = true → s.readRequired = none) (hfits : c.Fits)
    (hcondition : s.connected = true → ¬s.Condition s.received.length c) :
    ∃ s', (if s.connected = false then some (s.fail c) else s.suspend c c.required) = some s' ∧
      Inv s' := by
  by_cases hclosed : s.connected = false
  · rw [if_pos hclosed]
    exact ⟨_, rfl, h.fail hclosed⟩
  · rw [if_neg hclosed]
    have hconnected : s.connected = true := Bool.eq_true_of_not_eq_false hclosed
    exact h.suspend hidle hconnected hfits (hcondition hconnected)

/-- `driver.readall` of an empty buffer -/
theorem Inv.emptied (h : Inv s) (hidle : s.connected = true → s.readRequired = none)
    (hnil : s.buffer.bytes = []) : Inv { s with buffer := s.buffer.readall.2, reader := .idle } := by
  obtain ⟨-, hok, hempty⟩ := h.buffer.readall
  refine ⟨hok, h.limit, ?_, h.returns, h.required, hidle⟩
  show _ ++ s.buffer.readall.2.bytes = s.received
  rw [hempty, ← hnil]
  exact h.stream

theorem Inv.call (h : Inv s) (hreader : s.reader = .idle) (hfits : Fits (some s) (.call c)) :
    ∃ s', s.call c = some s' ∧ Inv s' := by
  have hidle := h.reader
  rw [hreader] at hidle
  obtain ⟨hall, hok, hempty⟩ := h.buffer.readall
  unfold State.call
  cases c with
  | read sz =>
    dsimp only
    rcases h.pop hidle hfits.1 with ⟨-, -, ret, sb, heq, hinv⟩ | ⟨hnot, heq⟩
    · rw [heq]
      exact ⟨_, rfl, hinv⟩
    · rw [heq]
      refine h.wait hidle hfits.1 fun hconnected hle => hnot ⟨?_, hle⟩
      by_contra hzero
      have hclosed := hfits.2 (Nat.eq_zero_of_not_pos hzero)
      rw [hconnected] at hclosed
      cases hclosed
  | readAny =>
    dsimp only
    by_cases hne : s.buffer.readall.1 ≠ []
    · rw [if_pos hne]
      exact ⟨_, rfl, h.succeed_all hidle (.inl rfl)⟩
    · rw [if_neg hne]
      have hnil : s.buffer.bytes = [] := by
        rw [← hall]
        exact not_not.mp hne
      by_cases hclosed : s.connected = false
      · rw [if_pos hclosed]
        exact ⟨_, rfl, h.fail hclosed⟩
      · rw [if_neg hclosed]
        have hconnected := Bool.eq_true_of_not_eq_false hclosed
        obtain ⟨s', heq, hinv⟩ := @Inv.suspend _ .readAny (h.emptied hidle hnil) hidle hconnected
          trivial (not_not.mpr hempty)
        exact ⟨s', heq, hinv⟩
  | readall =>
    dsimp only
    by_cases hclosed : s.connected = false
    · rw [if_pos hclosed]
      refine ⟨_, rfl, ?_⟩
      by_cases hne : s.buffer.readall.1 ≠ []
      · rw [if_pos hne]
        exact h.succeed_all hidle (.inr rfl)
      · rw [if_neg hne]
        refine h.finish hidle hok ?_ ⟨nofun, fun _ _ => ⟨hclosed, hempty⟩, nofun⟩
        rw [hempty, ← hall]
        exact (not_not.mp hne).symm
    · rw [if_neg hclosed]
      exact h.suspend hidle (Bool.eq_true_of_not_eq_false hclosed) trivial id
  | readline sep =>
    dsimp only
    rcases h.readline hidle hfits.1 with ⟨ret, sb, heq, hinv⟩ | ⟨hnot, heq⟩
    · rw [heq]
      exact ⟨_, rfl, hinv⟩
    · rw [heq]
      refine h.wait hidle hfits.1 fun hconnected hsub => ?_
      by_cases hnil : s.buffer.bytes = []
      · have hsub : sep <:+: s.buffer.bytes := hsub
        rw [hnil] at hsub
        exact hfits.2 (List.eq_nil_of_infix_nil hsub) hconnected hnil
      · exact hnot hnil hsub
  | block =>
    dsimp only
    by_cases hclosed : s.connected = false
    · rw [if_pos hclosed]
      exact ⟨_, rfl, h.finish hidle h.buffer rfl ⟨nofun, nofun, by rintro _ ⟨⟩; exact hclosed.symm⟩⟩
    · rw [if_neg hclosed]
      exact h.suspend hidle (Bool.eq_true_of_not_eq_false hclosed) trivial (Nat.lt_irrefl _)

/-- A reader that has been woken finds what it wants, or the socket is closed. -/
theorem Inv.resume (h : Inv s) (hreader : s.reader = .woken c) :
    ∃ s', s.resume c = some s' ∧ Inv s' := by
  have hok := h.reader
  rw [hreader] at hok
  obtain ⟨hfits, hready⟩ := hok
  have hidle : s.connected = true → s.readRequired = none := fun hconnected => (hready hconnected).1
  obtain ⟨hall, -, -⟩ := h.buffer.readall
  -- a call that finds too little fails
  have hclosed : ¬s.Ready c → s.connected = false := by
    intro hnot
    cases hconnected : s.connected with
    | false => rfl
    | true => exact (hnot (hready hconnected).2).elim
  unfold State.resume
  cases c with
  | read sz =>
    dsimp only
    rcases h.pop hidle hfits with ⟨-, -, ret, sb, heq, hinv⟩ | ⟨hnot, heq⟩
    · rw [heq]
      exact ⟨_, rfl, hinv⟩
    · rw [heq]
      exact ⟨_, rfl, h.fail (hclosed hnot)⟩
  | readAny =>
    refine ⟨_, rfl, ?_⟩
    by_cases hne : s.buffer.readall.1 ≠ []
    · rw [if_pos hne]
      exact h.succeed_all hidle (.inl rfl)
    · rw [if_neg hne]
      rw [hall] at hne
      exact h.fail (hclosed hne)
  | readall =>
    exact ⟨_, if_pos (hclosed id), h.succeed_all hidle (.inr rfl)⟩
  | readline sep =>
    dsimp only
    by_cases hconnected : s.connected = true
    · rw [if_pos hconnected]
      obtain ⟨hsub, hne⟩ := (hready hconnected).2
      rcases h.readline hidle hfits with ⟨ret, sb, heq, hinv⟩ | ⟨hnot, -⟩
      · rw [heq]
        exact ⟨_, rfl, hinv⟩
      · exact (hnot hne hsub).elim
    · rw [if_neg hconnected]
      exact ⟨_, rfl, h.fail (Bool.eq_false_of_not_eq_true hconnected)⟩
  | block =>
    exact ⟨_, rfl, h.finish hidle h.buffer rfl ⟨nofun, nofun, by rintro _ ⟨⟩; rfl⟩⟩

/-! ## The messages -/

/-- Whoever waits is woken by the end of the stream. -/
theorem Inv.close (h : Inv s) : Inv s.close := by
  have hok := h.reader
  unfold State.close State.wakeup
  dsimp only
  cases hreader : s.reader with
  | idle => exact ⟨h.buffer, h.limit, h.stream, h.returns, h.required, nofun⟩
  | suspended call since =>
    rw [hreader] at hok
    exact ⟨h.buffer, h.limit, h.stream, h.returns, h.required, hok.2.2.1, nofun⟩
  | woken call =>
    rw [hreader] at hok
    exact ⟨h.buffer, h.limit, h.stream, h.returns, h.required, hok.1, nofun⟩

/-- What is ready stays ready. -/
theorem State.Ready.append {t : State} (h : s.Ready c) (hbytes : t.buffer.bytes = s.buffer.bytes ++ msg) :
    t.Ready c := by
  cases c with
  | read sz =>
    refine ⟨h.1, ?_⟩
    rw [hbytes, List.length_append]
    exact h.2.trans (Nat.le_add_right _ _)
  | readAny =>
    show t.buffer.bytes ≠ []
    rw [hbytes]
    exact List.append_ne_nil_of_left_ne_nil h _
  | readall => exact h
  | readline sep =>
    refine ⟨?_, ?_⟩
    · rw [hbytes]
      exact h.1.trans (List.infix_append' [] _ msg)
    · rw [hbytes]
      exact List.append_ne_nil_of_left_ne_nil h.2 _
  | block => trivial

/-- After the push of a message -/
def State.pushed (s : State) (msg : Bytes) : State :=
  { s with buffer := s.buffer.push msg, received := s.received ++ msg }

/-- The reader has what it waits for. -/
def State.woken (s : State) : State := { s with readRequired := none }.wakeup

theorem State.data_eq (hlimit : s.bufferLimit = none) : s.data msg =
    match s.readRequired with
    | some (.number rr) =>
      some (if rr ≤ (s.pushed msg).buffer.size then (s.pushed msg).woken else s.pushed msg)
    | some (.string sep) => ((s.pushed msg).buffer.search sep).map fun found =>
      if found.isSome then (s.pushed msg).woken else s.pushed msg
    | _ => some (s.pushed msg) := by
  obtain ⟨buffer, connected, readRequired, bufferLimit, reader, received, returned⟩ := s
  obtain rfl : bufferLimit = none := hlimit
  cases readRequired with
  | none => rfl
  | some required =>
    cases required with
    | string sep =>
      show ((buffer.push msg).search sep).bind _ = _
      exact Option.map_eq_bind.symm
    | _ => rfl

/-- A message for a reader that does not wait -/
theorem Inv.awake {required : Option Required} (h : Inv s) (hok : (s.pushed msg).buffer.Ok)
    (hbytes : (s.pushed msg).buffer.bytes = s.buffer.bytes ++ msg)
    (hawake : ∀ call since, s.reader ≠ .suspended call since)
    (hrequired : required = s.readRequired ∨ required = none) :
    Inv { s.pushed msg with readRequired := required } := by
  refine ⟨hok, h.limit, ?_, h.returns, ?_, ?_⟩
  · show s.returned.flatMap Return.bytes ++ (s.pushed msg).buffer.bytes = s.received ++ msg
    rw [hbytes, ← List.append_assoc, h.stream]
  · intro sep hsep
    rcases hrequired with rfl | rfl
    · exact h.required sep hsep
    · cases hsep
  · have hreader := h.reader
    have hnone : s.readRequired = none → required = none := by
      intro hnone
      rw [hnone] at hrequired
      exact hrequired.elim id id
    show ({ s.pushed msg with readRequired := required } : State).ReaderOk s.reader
    cases hr : s.reader with
    | idle =>
      rw [hr] at hreader
      exact fun hconnected => hnone (hreader hconnected)
    | suspended call since => exact (hawake call since hr).elim
    | woken call =>
      rw [hr] at hreader
      refine ⟨hreader.1, fun hconnected => ?_⟩
      obtain ⟨hrequired', hready⟩ := hreader.2 hconnected
      exact ⟨hnone hrequired', hready.append hbytes⟩

theorem Inv.data_awake (h : Inv s) (hok : (s.pushed msg).buffer.Ok)
    (hbytes : (s.pushed msg).buffer.bytes = s.buffer.bytes ++ msg)
    (hawake : ∀ call since, s.reader ≠ .suspended call since) :
    ∃ s', s.data msg = some s' ∧ Inv s' := by
  have hwoken : (s.pushed msg).woken = { s.pushed msg with readRequired := none } := by
    unfold State.woken State.wakeup
    split
    · rename_i call since hreader
      exact (hawake call since hreader).elim
    · rfl
  have hinv : ∀ wake : Prop, [Decidable wake] →
      Inv (if wake then (s.pushed msg).woken else s.pushed msg) := by
    intro wake _
    split
    · rw [hwoken]
      exact h.awake hok hbytes hawake (.inr rfl)
    · exact h.awake hok hbytes hawake (.inl rfl)
  rw [State.data_eq h.limit]
  split
  · exact ⟨_, rfl, hinv _⟩
  · rename_i sep hrequired
    obtain ⟨found, hsearch, -, -⟩ := hok.search (h.required sep hrequired)
    rw [hsearch]
    exact ⟨_, rfl, hinv _⟩
  · exact ⟨_, rfl, h.awake hok hbytes hawake (.inl rfl)⟩

/-- A message for a reader that waits: it is woken when it has what it waits for. -/
theorem Inv.waiting (h : Inv s) (hreader : s.reader = .suspended c since)
    (hok : (s.pushed msg).buffer.Ok)
    (hbytes : (s.pushed msg).buffer.bytes = s.buffer.bytes ++ msg) {wake : Prop} [Decidable wake]
    (hready : wake → (s.pushed msg).Ready c)
    (hnot : ¬wake → ¬(s.pushed msg).Condition since c) :
    Inv (if wake then (s.pushed msg).woken else s.pushed msg) := by
  have hstream : s.returned.flatMap Return.bytes ++ (s.pushed msg).buffer.bytes =
      s.received ++ msg := by
    rw [hbytes, ← List.append_assoc, h.stream]
  have hsuspended := h.reader
  rw [hreader] at hsuspended
  obtain ⟨hconnected, hrequired, hfits, -, hsince⟩ := hsuspended
  by_cases hwake : wake
  · rw [if_pos hwake]
    have hwoken : (s.pushed msg).woken =
        { s.pushed msg with readRequired := none, reader := .woken c } := by
      unfold State.woken State.wakeup State.pushed
      rw [hreader]
    rw [hwoken]
    exact ⟨hok, h.limit, hstream, h.returns, nofun, hfits, fun _ => ⟨rfl, hready hwake⟩⟩
  · rw [if_neg hwake]
    refine ⟨hok, h.limit, hstream, h.returns, h.required, ?_⟩
    show (s.pushed msg).ReaderOk s.reader
    rw [hreader]
    refine ⟨hconnected, hrequired, hfits, hnot hwake, hsince.trans ?_⟩
    show s.received.length ≤ (s.received ++ msg).length
    rw [List.length_append]
    exact Nat.le_add_right _ _

theorem Inv.data (h : Inv s) (hmsg : msg ≠ []) (hlt : s.buffer.bytes.length + msg.length < 2 ^ 31) :
    ∃ s', s.data msg = some s' ∧ Inv s' := by
  obtain ⟨hok, hbytes⟩ := h.buffer.push hmsg hlt
  have hne : (s.pushed msg).buffer.bytes ≠ [] := by
    show (s.buffer.push msg).bytes ≠ []
    rw [hbytes]
    exact List.append_ne_nil_of_right_ne_nil _ hmsg
  have hsize : (s.pushed msg).buffer.size = ((s.pushed msg).buffer.bytes.length : ℤ) := hok.size
  cases hreader : s.reader with
  | suspended call since =>
    have hsuspended := h.reader
    rw [hreader] at hsuspended
    obtain ⟨-, hrequired, hfits, hcondition, hsince⟩ := hsuspended
    rw [State.data_eq h.limit, hrequired]
    cases call with
    | read sz =>
      refine ⟨_, rfl, h.waiting hreader hok hbytes ?_ ?_⟩
      · intro hle
        rw [hsize] at hle
        have hle : sz ≤ (s.pushed msg).buffer.bytes.length := Int.ofNat_le.mp hle
        refine ⟨?_, hle⟩
        by_contra hzero
        rw [Nat.eq_zero_of_not_pos hzero] at hcondition
        exact hcondition (Nat.zero_le _)
      · intro hlt hle
        rw [hsize] at hlt
        exact hlt (Int.ofNat_le.mpr hle)
    | readAny =>
      refine ⟨_, rfl, h.waiting hreader hok hbytes (fun _ => hne) fun hlt => ?_⟩
      rw [hsize] at hlt
      exact (hlt (Int.natCast_nonneg _)).elim
    | readall =>
      have hinv : Inv (if False then (s.pushed msg).woken else s.pushed msg) :=
        h.waiting hreader hok hbytes (fun h => h.elim) fun _ => id
      exact ⟨_, rfl, hinv⟩
    | readline sep =>
      obtain ⟨found, hsearch, hsome, hnone⟩ := hok.search hfits
      have hinv : Inv (if found.isSome then (s.pushed msg).woken else s.pushed msg) := by
        refine h.waiting hreader hok hbytes ?_ ?_
        · intro hfound
          obtain ⟨k, hk⟩ := Option.isSome_iff_exists.mp hfound
          obtain ⟨-, -, hpre, -⟩ := hsome k hk
          exact ⟨hpre.isInfix.trans (List.drop_suffix k _).isInfix, hne⟩
        · intro hfound
          exact hnone (Option.not_isSome_iff_eq_none.mp hfound) hne
      refine ⟨_, ?_, hinv⟩
      show ((s.buffer.push msg).search sep).map _ = _
      rw [hsearch]
      rfl
    | block =>
      refine ⟨_, rfl, h.waiting hreader hok hbytes (fun _ => trivial) fun hlt => ?_⟩
      rw [hsize] at hlt
      exact (hlt (Int.natCast_nonneg _)).elim
  | idle => exact h.data_awake hok hbytes (by rw [hreader]; nofun)
  | woken call => exact h.data_awake hok hbytes (by rw [hreader]; nofun)

/-! ## Every run -/

theorem Inv.step {o : Option State} {a : Action} (h : Inv s) (hfits : Fits (some s) a)
    (hstep : step (some s) a = some o) : ∃ s', o = some s' ∧ Inv s' := by
  cases a with
  | data msg =>
    obtain ⟨hmsg, heq⟩ := Option.ite_none_right_eq_some.mp hstep
    obtain ⟨s', hdata, hinv⟩ := h.data hmsg hfits
    cases heq
    exact ⟨s', hdata, hinv⟩
  | close =>
    cases hstep
    exact ⟨_, rfl, h.close⟩
  | call call =>
    unfold Socket.step at hstep
    cases hreader : s.reader with
    | idle =>
      obtain ⟨s', hcall, hinv⟩ := h.call hreader hfits
      simp only [Option.bind_eq_bind, Option.bind_some, hreader, hcall] at hstep
      cases hstep
      exact ⟨s', rfl, hinv⟩
    | suspended call since => simp [hreader] at hstep
    | woken call => simp [hreader] at hstep
  | resume =>
    unfold Socket.step at hstep
    cases hreader : s.reader with
    | idle => simp [hreader] at hstep
    | suspended call since => simp [hreader] at hstep
    | woken call =>
      obtain ⟨s', hresume, hinv⟩ := h.resume hreader
      simp only [Option.bind_eq_bind, Option.bind_some, hreader, hresume] at hstep
      cases hstep
      exact ⟨s', rfl, hinv⟩

instance : (o : Option State) → (a : Action) → Decidable (Fits o a)
  | some s, .data msg => inferInstanceAs (Decidable (s.buffer.bytes.length + msg.length < 2 ^ 31))
  | some s, .call (.read sz) =>
    inferInstanceAs (Decidable (sz < 2 ^ 31 ∧ (sz = 0 → s.connected = false)))
  | some s, .call (.readline sep) => inferInstanceAs
    (Decidable (sep.length < 2 ^ 31 ∧ (sep = [] → s.connected = true → s.buffer.bytes ≠ [])))
  | some _, .call .readAny | some _, .call .readall | some _, .call .block | some _, .close
  | some _, .resume | none, _ => inferInstanceAs (Decidable True)

end SkynetEureka.Socket
