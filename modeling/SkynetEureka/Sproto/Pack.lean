import SkynetEureka.Lib.Memory

/-!
# 0 pack of sproto (sproto.c)

`sproto_pack` drops the zero bytes of a message: each segment of 8 bytes becomes a header, with a
bit for each byte that is not zero, and these bytes. Up to 256 segments with hardly a zero byte are
kept as they are, behind the two bytes of an FF block. `sproto_unpack` is the way back.

Pointers are offsets: into `srcv`, which has `srcsz` bytes, and into the output buffer `out`, which
has the `bufsz` bytes of the first call.
-/

namespace SkynetEureka.Sproto

open Lib

/-! ## pack_seg -/

/-- The variables of `pack_seg`. -/
structure SegState where
  header : UInt8
  notzero : ℕ
  buffer : ℕ
  sz : ℤ
  out : Cells

/-- The loop body of `pack_seg`; `src` reads the segment. -/
def packSegByte (src : ℕ → Checked UInt8) (s : SegState) (i : ℕ) : Checked SegState := do
  let b ← src i
  if b ≠ 0 then
    let s := { s with notzero := s.notzero + 1, header := s.header ||| 1 <<< UInt8.ofNat i }
    if s.sz > 0 then
      let out ← writeAt s.out s.buffer b
      pure { s with out := out, buffer := s.buffer + 1, sz := s.sz - 1 }
    else pure s
  else pure s

/-- `pack_seg`: the number of bytes of the packed segment. A segment that belongs to an FF block
leaves scratch bytes in the buffer, which `write_ff` replaces. -/
def packSeg (src : ℕ → Checked UInt8) (buffer : ℕ) (out : Cells) (sz : ℤ) (n : ℕ) :
    Checked (ℕ × Cells) := do
  let s ← (List.range 8).foldlM (packSegByte src) ⟨0, 0, buffer + 1, sz - 1, out⟩
  let notzero := if (s.notzero = 7 ∨ s.notzero = 6) ∧ n > 0 then 8 else s.notzero
  if notzero = 8 then
    pure (if n > 0 then 8 else 10, s.out)
  else
    -- `obuffer` is NULL when there is no byte left for the header
    let out ← if sz - 1 < 0 then pure s.out else writeAt s.out buffer s.header
    pure (notzero + 1, out)

/-! ## sproto_pack -/

/-- A pointer to a segment. -/
inductive Source where
  | srcv (offset : ℕ)
  /-- the copy of the last segment, filled up with zeros -/
  | tmp (bytes : List UInt8)

/-- The byte `i` behind the pointer. -/
def Source.at (srcv : List UInt8) (i : ℕ) : Source → Checked UInt8
  | .srcv offset => readAt srcv (offset + i)
  | .tmp bytes => readAt bytes i

/-- The `n` bytes behind the pointer. -/
def Source.slice (srcv : List UInt8) (n : ℕ) : Source → Checked (List UInt8)
  | .srcv offset => readSlice srcv offset n
  | .tmp bytes => readSlice bytes 0 n

/-- `write_ff`. -/
def writeFf (srcv : List UInt8) (src : Source) (out : Cells) (des n : ℕ) : Checked Cells := do
  let align8 := (n + 7) / 8 * 8
  let out ← writeAt out des 0xff
  let out ← writeAt out (des + 1) (UInt8.ofNat (align8 / 8 - 1))
  let bytes ← src.slice srcv n
  let out ← writeSlice out (des + 2) bytes
  writeSlice out (des + 2 + n) (List.replicate (align8 - n) 0)

/-- The variables of `sproto_pack`. -/
structure PackState where
  ffSrcstart : Source
  ffDesstart : ℕ
  ffN : ℕ
  size : ℤ
  buffer : ℕ
  bufsz : ℤ
  out : Cells

/-- The segment at `i`, which the code copies to `tmp` when `padding` zeros are missing. -/
def segmentSource (srcv : List UInt8) (i : ℕ) (padding : ℤ) : Checked Source :=
  if padding > 0 then do
    let bytes ← readSlice srcv i (8 - padding).toNat
    pure (.tmp (bytes ++ List.replicate padding.toNat 0))
  else pure (.srcv i)

/-- Write the FF block of `n` bytes, if all has fit into the buffer so far. -/
def flushFf (srcv : List UInt8) (s : PackState) (n : ℕ) : Checked PackState :=
  if s.bufsz ≥ 0 then
    writeFf srcv s.ffSrcstart s.out s.ffDesstart n >>= fun out =>
      pure { s with out := out, ffN := 0 }
  else pure { s with ffN := 0 }

/-- What the loop of `sproto_pack` does about the FF block when `pack_seg` has returned `n`. -/
def collectFf (srcv : List UInt8) (src : Source) (n : ℕ) (s : PackState) : Checked PackState :=
  if n = 10 then
    -- first FF
    pure { s with ffSrcstart := src, ffDesstart := s.buffer, ffN := 1 }
  else if n = 8 ∧ s.ffN > 0 then
    if s.ffN + 1 = 256 then flushFf srcv s (256 * 8)
    else pure { s with ffN := s.ffN + 1 }
  else if s.ffN > 0 then flushFf srcv s (s.ffN * 8)
  else pure s

/-- The loop body of `sproto_pack` for the segment at `8 * k`. -/
def packStep (srcv : List UInt8) (s : PackState) (k : ℕ) : Checked PackState := do
  let next ← int (8 * k + 8)
  let src ← segmentSource srcv (8 * k) (next - srcv.length)
  let (n, out) ← packSeg (fun i => src.at srcv i) s.buffer s.out s.bufsz s.ffN
  let bufsz ← int (s.bufsz - n)
  let s ← collectFf srcv src n { s with out := out, bufsz := bufsz }
  let size ← int (s.size + n)
  pure { s with size := size, buffer := s.buffer + n }

/-- The FF block that is still open behind the last segment. -/
def packLast (srcv : List UInt8) (s : PackState) : Checked Cells :=
  if s.bufsz ≥ 0 then
    if s.ffN = 1 then writeFf srcv s.ffSrcstart s.out s.ffDesstart 8
    else if s.ffN > 1 then
      match s.ffSrcstart with
      | .srcv offset => writeFf srcv s.ffSrcstart s.out s.ffDesstart (srcv.length - offset)
      | .tmp _ => .error (.fault .read)
    else pure s.out
  else pure s.out

/-- The number of rounds of the loop `for (i=0;i<srcsz;i+=8)`. -/
def segmentCount (srcv : List UInt8) : ℕ := (srcv.length + 7) / 8

/-- `sproto_pack(srcv, srcsz, bufferv, bufsz)`: the size, and the buffer behind the call. -/
def sprotoPack (srcv : List UInt8) (bufsz : ℕ) : Checked (ℤ × Cells) := do
  let s ← (List.range (segmentCount srcv)).foldlM (packStep srcv)
    ⟨.srcv 0, 0, 0, 0, 0, bufsz, blank bufsz⟩
  let out ← packLast srcv s
  pure (s.size, out)

/-! ## sproto_unpack -/

/-- The variables of `sproto_unpack`. -/
structure UnpackState where
  src : ℕ
  srcsz : ℤ
  buffer : ℕ
  bufsz : ℤ
  size : ℤ
  out : Cells

/-- The loop body for one byte of a segment, but for `++size`. -/
def unpackBit (srcv : List UInt8) (header : UInt8) (s : UnpackState) (i : ℕ) :
    Checked UnpackState :=
  if (header >>> UInt8.ofNat i) &&& 1 = 1 then
    if s.srcsz < 0 then .error .fail
    else do
      let s ← if s.bufsz > 0 then do
          let b ← readAt srcv s.src
          let out ← writeAt s.out s.buffer b
          pure { s with out := out, bufsz := s.bufsz - 1, buffer := s.buffer + 1 }
        else pure s
      pure { s with src := s.src + 1, srcsz := s.srcsz - 1 }
  else if s.bufsz > 0 then do
    let out ← writeAt s.out s.buffer 0
    pure { s with out := out, bufsz := s.bufsz - 1, buffer := s.buffer + 1 }
  else pure s

/-- The loop body for one byte of a segment. -/
def unpackByte (srcv : List UInt8) (header : UInt8) (s : UnpackState) (i : ℕ) :
    Checked UnpackState := do
  let s ← unpackBit srcv header s i
  let size ← int (s.size + 1)
  pure { s with size := size }

/-- An FF block. -/
def unpackFf (srcv : List UInt8) (s : UnpackState) : Checked UnpackState := do
  if s.srcsz < 0 then .error .fail
  let count ← readAt srcv s.src
  let n := (count.toNat + 1) * 8
  if s.srcsz < n + 1 then .error .fail
  let src := s.src + 1
  let out ← if s.bufsz ≥ n then do
      let bytes ← readSlice srcv src n
      writeSlice s.out s.buffer bytes
    else pure s.out
  let bufsz ← int (s.bufsz - n)
  let size ← int (s.size + n)
  pure { src := src + n, srcsz := s.srcsz - (n + 1), buffer := s.buffer + n, bufsz := bufsz,
         size := size, out := out }

/-- The loop body of `sproto_unpack`. -/
def unpackSeg (srcv : List UInt8) (s : UnpackState) : Checked UnpackState := do
  let header ← readAt srcv s.src
  let s := { s with srcsz := s.srcsz - 1, src := s.src + 1 }
  if header = 0xff then unpackFf srcv s
  else (List.range 8).foldlM (unpackByte srcv header) s

/-- The loop of `sproto_unpack`. Each round takes at least one byte of the stream. -/
def unpackLoop (srcv : List UInt8) : ℕ → UnpackState → Checked (ℤ × Cells)
  | fuel, s =>
    if s.srcsz > 0 then
      match fuel with
      | 0 => .error (.fault .endless)
      | fuel + 1 => do
        let s ← unpackSeg srcv s
        unpackLoop srcv fuel s
    else pure (s.size, s.out)

/-- `sproto_unpack(srcv, srcsz, bufferv, bufsz)`: the size, and the buffer behind the call. -/
def sprotoUnpack (srcv : List UInt8) (bufsz : ℕ) : Checked (ℤ × Cells) :=
  unpackLoop srcv srcv.length ⟨0, srcv.length, 0, bufsz, 0, blank bufsz⟩

end SkynetEureka.Sproto
