import SkynetEureka.Gate.Netpack

/-!
# Frames in chunks

What a socket has sent so far is a number of frames and the beginning of the next one. `Pending`
says which record stands for this beginning. A chunk extends it: `filter_data_` hands out or
pushes exactly the frames that become complete (`filterData_spec`).
-/

namespace SkynetEureka.Gate

open Lib Function

/-- A package that can be framed. -/
structure Frame where
  msg : List UInt8
  msg_lt : msg.length < 0x10000

/-- The bytes on the wire. -/
def Frame.bytes (f : Frame) : List UInt8 :=
  UInt8.ofNat (f.msg.length >>> 8) :: UInt8.ofNat f.msg.length :: f.msg

/-- The package that stands for the frame. -/
def Frame.package (fd : ℕ) (f : Frame) : Netpack := ⟨fd, f.msg.length, f.msg⟩

/-- The bytes of a socket. -/
def stream (frames : List Frame) : List UInt8 := frames.flatMap Frame.bytes

/-- The beginning of a frame. -/
def Incomplete : List UInt8 → Prop
  | [] | [_] => True
  | high :: low :: body => body.length < readSize high low

/-- Exactly what can be packed is a frame. -/
theorem lpack_eq_some {msg bytes : List UInt8} :
    lpack msg = some bytes ↔ ∃ f : Frame, f.msg = msg ∧ f.bytes = bytes := by
  unfold lpack
  split_ifs with hlong
  · simp only [false_iff, not_exists, not_and]
    intro f hf
    have := f.msg_lt
    rw [hf] at this
    omega
  · constructor
    · intro h
      exact ⟨⟨msg, not_le.mp hlong⟩, rfl, Option.some.inj h⟩
    · rintro ⟨f, rfl, rfl⟩
      rfl

/-! ## Sizes -/

theorem readSize_eq (high low : UInt8) : readSize high low = high.toNat * 256 + low.toNat := by
  have hlow : low.toNat < 2 ^ 8 := low.toNat_lt
  rw [readSize, ← Nat.shiftLeft_add_eq_or_of_lt hlow, Nat.shiftLeft_eq]

theorem readSize_lt (high low : UInt8) : readSize high low < 0x10000 := by
  have hhigh := high.toNat_lt
  have hlow := low.toNat_lt
  rw [readSize_eq]
  omega

theorem readSize_ofNat {n : ℕ} (h : n < 0x10000) :
    readSize (UInt8.ofNat (n >>> 8)) (UInt8.ofNat n) = n := by
  rw [readSize_eq, UInt8.toNat_ofNat', UInt8.toNat_ofNat', Nat.shiftRight_eq_div_pow]
  omega

/-- The two bytes of a size are those that are written for it. -/
theorem ofNat_readSize (high low : UInt8) :
    UInt8.ofNat (readSize high low >>> 8) = high ∧ UInt8.ofNat (readSize high low) = low := by
  have hhigh := high.toNat_lt
  have hlow := low.toNat_lt
  rw [readSize_eq]
  constructor
  · apply UInt8.toNat_inj.mp
    rw [UInt8.toNat_ofNat', Nat.shiftRight_eq_div_pow]
    omega
  · apply UInt8.toNat_inj.mp
    rw [UInt8.toNat_ofNat']
    omega

/-- The frame at the front of a buffer that has room for it. -/
theorem exists_frame {high low : UInt8} {buffer : List UInt8}
    (h : readSize high low ≤ buffer.length) :
    ∃ f : Frame, f.msg = buffer.take (readSize high low) ∧
      f.msg.length = readSize high low ∧
      high :: low :: buffer = f.bytes ++ buffer.drop (readSize high low) := by
  have hlen : (buffer.take (readSize high low)).length = readSize high low := by
    rw [List.length_take, Nat.min_eq_left h]
  refine ⟨⟨buffer.take (readSize high low), by rw [hlen]; exact readSize_lt ..⟩, rfl, hlen, ?_⟩
  obtain ⟨hhigh, hlow⟩ := ofNat_readSize high low
  simp only [Frame.bytes, hlen, hhigh, hlow, List.cons_append, List.take_append_drop]

/-- A stream is cut into frames in one way. -/
theorem stream_inj {frames frames' : List Frame} {rest rest' : List UInt8}
    (hrest : Incomplete rest) (hrest' : Incomplete rest')
    (h : stream frames ++ rest = stream frames' ++ rest') : frames = frames' ∧ rest = rest' := by
  have hfront : ∀ {f : Frame} {fs : List Frame} {r r' : List UInt8},
      r = stream (f :: fs) ++ r' → ¬Incomplete r := by
    rintro f fs r r' rfl hinc
    change (f.msg ++ stream fs ++ r').length <
      readSize (UInt8.ofNat (f.msg.length >>> 8)) (UInt8.ofNat f.msg.length) at hinc
    rw [readSize_ofNat f.msg_lt, List.length_append, List.length_append] at hinc
    omega
  induction frames generalizing frames' with
  | nil =>
    cases frames' with
    | nil => exact ⟨rfl, h⟩
    | cons f' fs' => exact (hfront h hrest).elim
  | cons f fs ih =>
    cases frames' with
    | nil => exact (hfront h.symm hrest').elim
    | cons f' fs' =>
      have hbytes : f.bytes ++ (stream fs ++ rest) = f'.bytes ++ (stream fs' ++ rest') := by
        simpa only [stream, List.flatMap_cons, List.append_assoc] using h
      have hsize : f.msg.length = f'.msg.length := by
        have hhigh := (List.cons.inj hbytes).1
        have hlow := (List.cons.inj (List.cons.inj hbytes).2).1
        rw [← readSize_ofNat f.msg_lt, hhigh, hlow, readSize_ofNat f'.msg_lt]
      obtain ⟨hf, htail⟩ := List.append_inj hbytes (by
        simp only [Frame.bytes, List.length_cons, hsize])
      obtain ⟨rfl, rfl⟩ := ih htail
      have hmsg : f.msg = f'.msg := (List.cons.inj (List.cons.inj hf).2).2
      cases f
      cases f'
      cases hmsg
      exact ⟨rfl, rfl⟩

/-! ## The queue -/

/-- The queue holds these records and these packages. -/
structure Shows (q : Option Queue) (saved : ℕ → Option Uncomplete) (waiting : List Netpack) :
    Prop where
  hash : (getQueue q).hash.Holds Uncomplete.fd hashFd saved
  ring : (getQueue q).ring.Holds waiting

variable {q : Option Queue} {saved : ℕ → Option Uncomplete} {waiting : List Netpack} {fd : ℕ}

theorem shows_nil : Shows none (fun _ => none) [] where
  hash := Chains.holds_empty
  ring := RingBuffer.holds_empty (by decide)

namespace Shows

theorem findUncomplete (h : Shows q saved waiting) (fd : ℕ) :
    ∃ q', Gate.findUncomplete q fd = (saved fd, q') ∧ Shows q' (update saved fd none) waiting := by
  obtain ⟨hash, hunlink, hholds⟩ := h.hash.unlink fd
  cases q with
  | none =>
    have hnone : saved fd = none := (congrArg Prod.fst hunlink).symm
    refine ⟨none, by rw [hnone]; rfl, ?_⟩
    rw [← hnone, update_eq_self]
    exact h
  | some q =>
    refine ⟨some { q with hash := hash }, ?_, hholds, h.ring⟩
    have hunlink : q.hash.unlink Uncomplete.fd hashFd fd = (saved fd, hash) := hunlink
    rw [Gate.findUncomplete, hunlink]

theorem saveUncomplete (h : Shows q saved waiting) (uc : Uncomplete) (hnew : saved uc.fd = none) :
    Shows (Gate.saveUncomplete q uc) (update saved uc.fd (some uc)) waiting where
  hash := h.hash.link hnew
  ring := h.ring

theorem pushData (h : Shows q saved waiting) (fd : ℕ) (buffer : List UInt8) (size : ℕ) :
    Shows (Gate.pushData q fd buffer size) saved (waiting ++ [⟨fd, size, buffer⟩]) where
  hash := h.hash
  ring := by
    have hgrow : (getQueue q).ring.cap < (getQueue q).ring.cap + queueSize :=
      Nat.lt_add_of_pos_right (by decide)
    exact @RingBuffer.Holds.push _ _ _ h.ring (· + queueSize) hgrow _

theorem lpop_nil (h : Shows q saved []) : lpop q = none := by
  cases q with
  | none => rfl
  | some q =>
    have hring : q.ring.Holds [] := h.ring
    rw [lpop, hring.pop_nil]
    rfl

theorem lpop_cons {np : Netpack} (h : Shows q saved (np :: waiting)) :
    ∃ q', lpop q = some (np, q') ∧ Shows q' saved waiting := by
  cases q with
  | none => exact (List.cons_ne_nil _ _ (h.ring.head_eq_tail_iff.mp rfl)).elim
  | some q =>
    have hring : q.ring.Holds (np :: waiting) := h.ring
    obtain ⟨ring, hpop, hholds⟩ := hring.pop_cons
    exact ⟨some { q with ring := ring }, by rw [lpop, hpop]; rfl, h.hash, hholds⟩

end Shows

/-! ## Chunks -/

/-- The record for the beginning `rest` of a frame. -/
def Pending (fd : ℕ) (rest : List UInt8) (uc : Option Uncomplete) : Prop :=
  match rest with
  | [] => uc = none
  | [header] => uc = some (oneByte fd header)
  | high :: low :: body => body.length < readSize high low ∧
      ∃ header, uc = some ⟨⟨fd, readSize high low, body⟩, body.length, header⟩

theorem Pending.incomplete {rest : List UInt8} {uc : Option Uncomplete} (h : Pending fd rest uc) :
    Incomplete rest := by
  match rest with
  | [] => trivial
  | [_] => trivial
  | _ :: _ :: _ => exact h.1

theorem stream_cons (f : Frame) (frames : List Frame) :
    stream (f :: frames) = f.bytes ++ stream frames := List.flatMap_cons

theorem stream_singleton (f : Frame) : stream [f] = f.bytes := by
  rw [stream_cons]
  exact List.append_nil _

theorem stream_append (frames frames' : List Frame) :
    stream (frames ++ frames') = stream frames ++ stream frames' := List.flatMap_append

/-- `push_more` pushes the complete frames of its buffer and saves what is left. -/
theorem pushMore_spec {buffer : List UInt8} (h : Shows q saved waiting) (hnew : saved fd = none) :
    ∃ frames rest uc, buffer = stream frames ++ rest ∧ Pending fd rest uc ∧
      Shows (pushMore q fd buffer) (update saved fd uc)
        (waiting ++ frames.map (Frame.package fd)) := by
  induction hn : buffer.length using Nat.strong_induction_on generalizing q waiting buffer with
  | _ n ih =>
    match buffer with
    | [] =>
      refine ⟨[], [], none, rfl, rfl, ?_⟩
      rw [pushMore, ← hnew, update_eq_self, List.map_nil, List.append_nil]
      exact h
    | [header] =>
      refine ⟨[], [header], _, rfl, rfl, ?_⟩
      rw [pushMore, List.map_nil, List.append_nil]
      exact h.saveUncomplete _ hnew
    | high :: low :: body =>
      rw [pushMore]
      by_cases hshort : body.length < readSize high low
      · refine ⟨[], high :: low :: body, _, rfl, ⟨hshort, 0, rfl⟩, ?_⟩
        simp only [if_pos hshort, List.map_nil, List.append_nil]
        exact h.saveUncomplete ⟨⟨fd, readSize high low, body⟩, body.length, 0⟩ hnew
      · obtain ⟨f, hmsg, hlen, hbytes⟩ := exists_frame (not_lt.mp hshort)
        have hpush := h.pushData fd (body.take (readSize high low)) (readSize high low)
        have hpackage : (⟨fd, readSize high low, body.take (readSize high low)⟩ : Netpack) =
            f.package fd := by rw [Frame.package, hlen, hmsg]
        rw [hpackage] at hpush
        simp only [if_neg hshort]
        by_cases hmore : 0 < (body.drop (readSize high low)).length
        · have hlt : (body.drop (readSize high low)).length < n := by
            rw [List.length_drop, ← hn, List.length_cons, List.length_cons]
            omega
          obtain ⟨frames, rest, uc, hrest, hpending, hshows⟩ := ih _ hlt hpush rfl
          refine ⟨f :: frames, rest, uc, ?_, hpending, ?_⟩
          · rw [stream_cons, List.append_assoc, ← hrest, ← hbytes]
          · rw [if_pos hmore]
            rwa [List.append_assoc] at hshows
        · have hnil : body.drop (readSize high low) = [] :=
            List.length_eq_zero_iff.mp (Nat.eq_zero_of_not_pos hmore)
          refine ⟨[f], [], none, ?_, rfl, ?_⟩
          · rw [hbytes, hnil, stream_singleton]
          · rw [if_neg hmore, ← hnew, update_eq_self]
            exact hpush

/-- What `filter_data_` does with the frames that become complete: one is handed out, or all are
pushed. -/
def HandsOut (fd : ℕ) (frames : List Frame) (waiting waiting' : List Netpack)
    (result : Filtered) : Prop :=
  match result with
  | .nothing => frames = [] ∧ waiting' = waiting
  | .data fd' buffer size => ∃ f, frames = [f] ∧ (⟨fd', size, buffer⟩ : Netpack) = f.package fd ∧
      waiting' = waiting
  | .more => waiting' = waiting ++ frames.map (Frame.package fd)

/-- The whole of a chunk that goes beyond a frame is pushed. -/
theorem more_spec (buffer : List UInt8) (f : Frame) (h : Shows q saved waiting)
    (hnew : saved fd = none) :
    ∃ frames rest uc, f.bytes ++ buffer = stream frames ++ rest ∧ Pending fd rest uc ∧
      Shows (pushMore (pushData q fd f.msg f.msg.length) fd buffer) (update saved fd uc)
        (waiting ++ frames.map (Frame.package fd)) := by
  obtain ⟨frames, rest, uc, hrest, hpending, hshows⟩ :=
    @pushMore_spec _ saved _ fd buffer (h.pushData fd f.msg f.msg.length) hnew
  refine ⟨f :: frames, rest, uc, by rw [stream_cons, List.append_assoc, ← hrest], hpending, ?_⟩
  rwa [List.append_assoc] at hshows

/-- A chunk of a socket without a record. -/
theorem filterFresh_spec {buffer : List UInt8} (h : Shows q saved waiting)
    (hnew : saved fd = none) (hne : buffer ≠ []) :
    ∃ frames rest uc waiting', buffer = stream frames ++ rest ∧ Pending fd rest uc ∧
      Shows (filterFresh q fd buffer).1 (update saved fd uc) waiting' ∧
      HandsOut fd frames waiting waiting' (filterFresh q fd buffer).2 := by
  match buffer with
  | [] => exact (hne rfl).elim
  | [header] =>
    exact ⟨[], [header], _, waiting, rfl, rfl, h.saveUncomplete _ hnew, rfl, rfl⟩
  | high :: low :: body =>
    rw [filterFresh]
    by_cases hshort : body.length < readSize high low
    · simp only [if_pos hshort]
      exact ⟨[], high :: low :: body, _, waiting, rfl, ⟨hshort, 0, rfl⟩,
        h.saveUncomplete ⟨⟨fd, readSize high low, body⟩, body.length, 0⟩ hnew, rfl, rfl⟩
    · obtain ⟨f, hmsg, hlen, hbytes⟩ := exists_frame (not_lt.mp hshort)
      simp only [if_neg hshort]
      by_cases hone : body.length = readSize high low
      · have hwhole : f.msg = body := by rw [hmsg, ← hone, List.take_length]
        refine ⟨[f], [], none, waiting, ?_, rfl, ?_, ?_⟩
        · rw [hbytes, ← hone, List.drop_length, stream_singleton]
        · rw [if_pos hone, ← hnew, update_eq_self]
          exact h
        · rw [if_pos hone]
          exact ⟨f, rfl, by rw [Frame.package, hwhole], rfl⟩
      · obtain ⟨frames, rest, uc, hrest, hpending, hshows⟩ :=
          more_spec (body.drop (readSize high low)) f h hnew
        rw [hmsg, ← hmsg, hlen, hmsg] at hshows
        rw [if_neg hone]
        exact ⟨frames, rest, uc, _, hbytes.trans hrest, hpending, hshows, rfl⟩

/-- A record whose size is known. -/
theorem fillBody_spec {high low header : UInt8} {body : List UInt8} (buffer : List UInt8)
    (h : Shows q saved waiting) (hnew : saved fd = none) (hle : body.length ≤ readSize high low) :
    ∃ frames rest uc waiting', high :: low :: body ++ buffer = stream frames ++ rest ∧
      Pending fd rest uc ∧
      Shows (fillBody q ⟨⟨fd, readSize high low, body⟩, body.length, header⟩ fd buffer).1
        (update saved fd uc) waiting' ∧
      HandsOut fd frames waiting waiting'
        (fillBody q ⟨⟨fd, readSize high low, body⟩, body.length, header⟩ fd buffer).2 := by
  have hneed : ((readSize high low : ℤ) - body.length).toNat = readSize high low - body.length := by
    omega
  rw [fillBody]
  by_cases hshort : (buffer.length : ℤ) < readSize high low - body.length
  · have hread : ((body ++ buffer).length : ℤ) = body.length + buffer.length := by
      rw [List.length_append]
      push_cast
      rfl
    have hsave := h.saveUncomplete
      ⟨⟨fd, readSize high low, body ++ buffer⟩, (body ++ buffer).length, header⟩ hnew
    rw [hread] at hsave
    simp only [if_pos hshort]
    refine ⟨[], high :: low :: (body ++ buffer), _, waiting, rfl, ⟨?_, header, ?_⟩, hsave, rfl, rfl⟩
    · rw [List.length_append]
      omega
    · rw [hread]
  · have hroom : readSize high low ≤ (body ++ buffer).length := by
      rw [List.length_append]
      omega
    obtain ⟨f, hmsg, hlen, hbytes⟩ := exists_frame hroom
    have htake : body ++ buffer.take (readSize high low - body.length) = f.msg := by
      rw [hmsg, List.take_append, List.take_of_length_le hle]
    have hdrop : (body ++ buffer).drop (readSize high low) =
        buffer.drop (readSize high low - body.length) := by
      rw [List.drop_append, List.drop_of_length_le hle, List.nil_append]
    rw [hdrop] at hbytes
    simp only [if_neg hshort, hneed, htake]
    by_cases hone : (buffer.drop (readSize high low - body.length)).length = 0
    · rw [List.length_eq_zero_iff.mp hone, List.append_nil] at hbytes
      rw [if_pos hone]
      refine ⟨[f], [], none, waiting, ?_, rfl, ?_, f, rfl, ?_, rfl⟩
      · rw [stream_singleton, List.append_nil]
        exact hbytes
      · rw [← hnew, update_eq_self]
        exact h
      · rw [Frame.package, hlen]
    · obtain ⟨frames, rest, uc, hrest, hpending, hshows⟩ :=
        more_spec (buffer.drop (readSize high low - body.length)) f h hnew
      rw [hlen] at hshows
      rw [if_neg hone]
      exact ⟨frames, rest, uc, _, hbytes.trans hrest, hpending, hshows, rfl⟩

/-- A chunk of a socket with a record. -/
theorem filterResumed_spec {buffer rest : List UInt8} {uc : Uncomplete}
    (h : Shows q saved waiting) (hnew : saved fd = none) (hne : buffer ≠ [])
    (hpending : Pending fd rest (some uc)) :
    ∃ frames rest' uc' waiting', rest ++ buffer = stream frames ++ rest' ∧ Pending fd rest' uc' ∧
      Shows (filterResumed q uc fd buffer).1 (update saved fd uc') waiting' ∧
      HandsOut fd frames waiting waiting' (filterResumed q uc fd buffer).2 := by
  match rest with
  | [] => cases hpending
  | [header] =>
    obtain rfl : uc = oneByte fd header := Option.some.inj hpending
    obtain ⟨low, buffer, rfl⟩ := List.exists_cons_of_ne_nil hne
    have hfill : fillSize (oneByte fd header) (low :: buffer) =
        (⟨⟨fd, readSize header low, []⟩, ((([] : List UInt8).length : ℕ) : ℤ), header⟩,
          buffer) := by
      rw [readSize, Nat.lor_comm]
      rfl
    have hle : ([] : List UInt8).length ≤ readSize header low := Nat.zero_le _
    rw [filterResumed, hfill]
    exact fillBody_spec buffer h hnew hle
  | high :: low :: body =>
    obtain ⟨hlt, header, huc⟩ := hpending
    obtain rfl := Option.some.inj huc
    have hfill : fillSize ⟨⟨fd, readSize high low, body⟩, body.length, header⟩ buffer =
        (⟨⟨fd, readSize high low, body⟩, body.length, header⟩, buffer) := by
      rw [fillSize, if_neg (not_lt.mpr (Int.natCast_nonneg _))]
    rw [filterResumed, hfill]
    exact fillBody_spec buffer h hnew hlt.le

/-- **A chunk** makes frames complete, and these are handed out or pushed. -/
theorem filterData_spec {buffer rest : List UInt8} (h : Shows q saved waiting)
    (hpending : Pending fd rest (saved fd)) (hne : buffer ≠ []) :
    ∃ frames rest' uc waiting', rest ++ buffer = stream frames ++ rest' ∧ Pending fd rest' uc ∧
      Shows (filterData q fd buffer).1 (update saved fd uc) waiting' ∧
      HandsOut fd frames waiting waiting' (filterData q fd buffer).2 := by
  obtain ⟨q', hfind, hshows⟩ := h.findUncomplete fd
  have hnew : update saved fd none fd = none := update_self ..
  rw [filterData, hfind]
  cases hsaved : saved fd with
  | none =>
    rw [hsaved] at hpending
    have hrest : rest = [] := by
      match rest with
      | [] => rfl
      | [_] => cases hpending
      | _ :: _ :: _ =>
        obtain ⟨-, header, huc⟩ := hpending
        cases huc
    subst hrest
    have := filterFresh_spec hshows hnew hne
    simpa only [update_idem, List.nil_append] using this
  | some uc =>
    rw [hsaved] at hpending
    have := filterResumed_spec hshows hnew hne hpending
    simpa only [update_idem] using this

end SkynetEureka.Gate
