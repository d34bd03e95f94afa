import SkynetEureka.NetPack.NetpackextTheorems

/-!
# Frames and cuts

What a peer sends: frames one after another, cut into chunks by TCP. A position in the stream of
a socket is the list of the frames that are not complete yet and the number of bytes that the
first of them has received. `WellCut` says of a way of cutting that `filter_data_` copes with it.
-/

namespace SkynetEureka.NetPack

open Lib Function

/-- A frame as `filter_data_` accepts it. -/
structure Frame where
  head : List UInt8
  body : List UInt8
  head_length : head.length = headSize
  body_length : headLength head = body.length
  body_le : body.length ≤ maxBody

/-- The bytes on the wire. -/
def Frame.bytes (f : Frame) : List UInt8 := f.head ++ f.body

/-- The package that stands for the frame: the session bytes hold the socket id. -/
def Frame.package (fd : ℕ) (f : Frame) : Netpackext := ⟨fd, setbufferSession f.head fd ++ f.body⟩

/-- The bytes of a socket. -/
def stream (frames : List Frame) : List UInt8 := frames.flatMap Frame.bytes

/-- The position `n` bytes after the start of these frames. -/
def advance : List Frame → ℕ → List Frame × ℕ
  | [], n => ([], n)
  | f :: frames, n =>
    if n < f.bytes.length then (f :: frames, n) else advance frames (n - f.bytes.length)

/-- At the position (`frames`, `done`) a chunk of `n` bytes is handled. At the start of a frame
it must not end between the end of the head and the end of the body, except just behind the head
if the block that is allocated for the byte-swapped length has room for the body. Inside of a
frame it must end where the frame ends. -/
def WellCutChunk (frames : List Frame) (done n : ℕ) : Prop :=
  match frames with
  | [] => True
  | f :: _ =>
    if done = 0 then
      n < headSize ∨ f.bytes.length ≤ n ∨ n = headSize ∧ f.body.length ≤ nativeLength f.head
    else done + n = f.bytes.length

/-- From a position on, all chunks are handled. -/
def WellCut (frames : List Frame) (done : ℕ) : List (List UInt8) → Prop
  | [] => True
  | chunk :: chunks =>
    WellCutChunk frames done chunk.length ∧
      WellCut (advance frames (done + chunk.length)).1 (advance frames (done + chunk.length)).2
        chunks

instance : (frames : List Frame) → (done n : ℕ) → Decidable (WellCutChunk frames done n)
  | [], _, _ => inferInstanceAs (Decidable True)
  | f :: _, done, n => inferInstanceAs (Decidable
      (if done = 0 then
        n < headSize ∨ f.bytes.length ≤ n ∨ n = headSize ∧ f.body.length ≤ nativeLength f.head
      else done + n = f.bytes.length))

instance WellCut.decidable : (frames : List Frame) → (done : ℕ) → (chunks : List (List UInt8)) →
    Decidable (WellCut frames done chunks)
  | _, _, [] => inferInstanceAs (Decidable True)
  | frames, done, chunk :: chunks =>
    haveI := WellCut.decidable (advance frames (done + chunk.length)).1
      (advance frames (done + chunk.length)).2 chunks
    inferInstanceAs (Decidable (_ ∧ _))

/-! ## Positions -/

theorem Frame.length_bytes (f : Frame) : f.bytes.length = headSize + f.body.length := by
  rw [bytes, List.length_append, f.head_length]

theorem Frame.bytes_pos (f : Frame) : 0 < f.bytes.length := by
  rw [f.length_bytes, headSize]
  omega

theorem stream_cons (f : Frame) (frames : List Frame) :
    stream (f :: frames) = f.bytes ++ stream frames := List.flatMap_cons

theorem advance_cons (f : Frame) (frames : List Frame) (n : ℕ) :
    advance (f :: frames) n =
      if n < f.bytes.length then (f :: frames, n) else advance frames (n - f.bytes.length) := rfl

@[simp] theorem advance_zero (frames : List Frame) : advance frames 0 = (frames, 0) := by
  cases frames with
  | nil => rfl
  | cons f frames => rw [advance_cons, if_pos f.bytes_pos]

theorem advance_of_lt {f : Frame} {frames : List Frame} {n : ℕ} (h : n < f.bytes.length) :
    advance (f :: frames) n = (f :: frames, n) := by
  rw [advance_cons, if_pos h]

theorem advance_add (f : Frame) (frames : List Frame) (n : ℕ) :
    advance (f :: frames) (f.bytes.length + n) = advance frames n := by
  rw [advance_cons, if_neg (by omega), Nat.add_sub_cancel_left]

/-- The front of a list that is cut in two ways. -/
theorem append_cut {α : Type} {x later b rest : List α} (h : x ++ later = b ++ rest) :
    (x.length ≤ b.length → x = b.take x.length ∧ later = b.drop x.length ++ rest) ∧
      (b.length ≤ x.length → ∃ y, x = b ++ y ∧ y ++ later = rest) := by
  rcases List.append_eq_append_iff.mp h with ⟨m, rfl, rfl⟩ | ⟨m, rfl, rfl⟩
  · refine ⟨fun _ => by simp, fun hle => ⟨[], ?_, ?_⟩⟩
    · have hm : m = [] := by
        rw [List.length_append] at hle
        exact List.length_eq_zero_iff.mp (by omega)
      simp [hm]
    · have hm : m = [] := by
        rw [List.length_append] at hle
        exact List.length_eq_zero_iff.mp (by omega)
      simp [hm]
  · refine ⟨fun hle => ?_, fun _ => ⟨m, rfl, rfl⟩⟩
    have hm : m = [] := by
      rw [List.length_append] at hle
      exact List.length_eq_zero_iff.mp (by omega)
    simp [hm]

/-! ## Records of frames -/

/-- The record of the first `done` bytes of a frame. -/
structure Partial (fd : ℕ) (f : Frame) (done : ℕ) (uc : Uncomplete) : Prop where
  fd_eq : uc.fd = fd
  read_eq : uc.read = done
  short : done < headSize →
    uc.head = f.head.take done ++ List.replicate (headSize - done) 0 ∧ uc.protobuf = none
  long : headSize ≤ done →
    uc.head = setbufferSession f.head fd ∧ ∃ block, uc.protobuf = some block ∧
      block.take (done - headSize) = (f.body.take (done - headSize)).map some

/-- The block of the record has room for the body. -/
def Room (f : Frame) (uc : Uncomplete) : Prop :=
  ∀ block, uc.protobuf = some block → f.body.length ≤ block.length

/-- What the queue holds for a socket at a position of its stream. -/
def Pending (fd : ℕ) (frames : List Frame) (done : ℕ) (record : Option Uncomplete) : Prop :=
  if done = 0 then record = none
  else
    match frames with
    | [] => False
    | f :: _ => done < f.bytes.length ∧ ∃ uc, record = some uc ∧ Partial fd f done uc ∧ Room f uc

theorem pending_zero {fd : ℕ} {frames : List Frame} {record : Option Uncomplete} :
    Pending fd frames 0 record ↔ record = none := by
  unfold Pending
  rw [if_pos rfl]

theorem pending_cons {fd done : ℕ} {f : Frame} {frames : List Frame} {record : Option Uncomplete}
    (h : 0 < done) :
    Pending fd (f :: frames) done record ↔
      done < f.bytes.length ∧ ∃ uc, record = some uc ∧ Partial fd f done uc ∧ Room f uc := by
  unfold Pending
  rw [if_neg (by omega)]

/-- `push_more` and the fresh branch save the same record of an incomplete head. -/
theorem partial_partialHead {fd : ℕ} {f : Frame} {chunk : List UInt8}
    (hlt : chunk.length < headSize) (h : chunk = f.head.take chunk.length) :
    Partial fd f chunk.length (partialHead fd chunk) ∧ Room f (partialHead fd chunk) := by
  refine ⟨⟨rfl, rfl, fun _ => ⟨?_, rfl⟩, fun hle => absurd hlt (by omega)⟩, fun _ hb => by cases hb⟩
  rw [partialHead, ← h]

end SkynetEureka.NetPack
