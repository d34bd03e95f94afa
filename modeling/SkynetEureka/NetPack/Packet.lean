import SkynetEureka.NetPack.Session

/-!
# Packets (netpack.lua)

A packet is packed and unpacked by the format strings of Lua, and read by the C code byte by byte.
All formats here are big-endian, without alignment.
-/

namespace SkynetEureka.NetPack

open Lib Function

/-! ## `string.pack` -/

/-- An option of a format: an unsigned integer of so many bytes, or a string of so many. -/
inductive Format where
  | uint (size : ℕ)
  | chars (size : ℕ)

/-- `B`, `H`, `I4` and `L` -/
def formatB : Format := .uint 1

def formatH : Format := .uint 2

def formatI4 : Format := .uint 4

def formatL : Format := .uint 8

/-- An argument or a result; an integer has 64 bits. -/
inductive Value where
  | int (n : ℤ)
  | str (bytes : List UInt8)
deriving DecidableEq

/-- The bytes of a number, the highest first -/
def beBytes (size n : ℕ) : List UInt8 := (leBytes size n).reverse

/-- `(lua_Unsigned)n` -/
def luaUnsigned (n : ℤ) : ℕ := (n % 2 ^ 64).toNat

/-- An option of `string.pack` with its argument; `none` is an error. -/
def Format.pack : Format → Value → Option (List UInt8)
  | .uint size, .int n =>
    -- "unsigned overflow" is checked for the short sizes
    if size < 8 ∧ 256 ^ size ≤ luaUnsigned n then none else some (beBytes size (luaUnsigned n))
  | .chars size, .str bytes =>
    if size < bytes.length then none
    else some (bytes ++ List.replicate (size - bytes.length) 0)
  | _, _ => none

/-- `string.pack` -/
def stringPack : List Format → List Value → Option (List UInt8)
  | [], _ => some []
  | option :: options, value :: values => do
    let bytes ← option.pack value
    let rest ← stringPack options values
    return bytes ++ rest
  | _ :: _, [] => none

/-- An option of `string.unpack`, and the bytes behind it -/
def Format.unpack : Format → List UInt8 → Option (Value × List UInt8)
  | .uint size, bytes =>
    if bytes.length < size then none
    else
      let n := ofLeBytes (bytes.take size).reverse
      some (.int (if size = 8 then Int.bmod n (2 ^ 64) else n), bytes.drop size)
  | .chars size, bytes =>
    if bytes.length < size then none else some (.str (bytes.take size), bytes.drop size)

/-- `string.unpack`; the position behind the last option is not used. -/
def stringUnpack : List Format → List UInt8 → Option (List Value)
  | [], _ => some []
  | option :: options, bytes => do
    let (value, bytes) ← option.unpack bytes
    let values ← stringUnpack options bytes
    return value :: values

/-! ## `netpack` -/

/-- `head`, `version` and `checksum` -/
def packetHead : ℤ := 0x11

def packetVersion : ℤ := 0x1

def packetChecksum : ℤ := 0

/-- `">BBI4HI4HL"` -/
def headFormat : List Format :=
  [formatB, formatB, formatI4, formatH, formatI4, formatH, formatL]

/-- `netpack.pack` -/
def pack (serial cmd session : ℤ) : Option (List UInt8) → Option (List UInt8)
  | some protobuf =>
    stringPack (headFormat ++ [.chars protobuf.length])
      [.int packetHead, .int packetVersion, .int protobuf.length, .int packetChecksum, .int serial,
        .int cmd, .int session, .str protobuf]
  | none =>
    stringPack headFormat
      [.int packetHead, .int packetVersion, .int 0, .int packetChecksum, .int serial, .int cmd,
        .int session]

/-- What `netpack.unpack` returns. -/
structure Packet where
  head : ℤ
  version : ℤ
  length : ℤ
  checksum : ℤ
  serial : ℤ
  cmd : ℤ
  session : ℤ
  protobuf : Option (List UInt8)
deriving DecidableEq

/-- `netpack.unpack` -/
def unpack (msg : List UInt8) : Option Packet :=
  match stringUnpack headFormat msg with
  | some [.int head, .int version, .int length, .int checksum, .int serial, .int cmd, .int session] =>
    if length > 0 then
      match stringUnpack [.chars length.toNat] (msg.drop 22) with
      | some [.str protobuf] =>
        some ⟨head, version, length, checksum, serial, cmd, session, some protobuf⟩
      | _ => none
    else some ⟨head, version, length, checksum, serial, cmd, session, none⟩
  | _ => none

/-! ## One option -/

variable {n : ℤ} {size k length serial cmd : ℕ} {session : ℤ} {rest body : List UInt8}
  {protobuf : Option (List UInt8)}

/-- The 22 bytes of a head -/
def headBytes (length serial cmd : ℕ) (session : ℤ) : List UInt8 :=
  beBytes 1 0x11 ++ (beBytes 1 1 ++ (beBytes 4 length ++ (beBytes 2 0 ++ (beBytes 4 serial ++
    (beBytes 2 cmd ++ beBytes 8 (luaUnsigned session))))))

/-- The bytes of a head, one by one -/
theorem headBytes_eq : headBytes length serial cmd session =
    [0x11, 1, .ofNat (length / 256 / 256 / 256), .ofNat (length / 256 / 256), .ofNat (length / 256),
      .ofNat length, 0, 0, .ofNat (serial / 256 / 256 / 256), .ofNat (serial / 256 / 256),
      .ofNat (serial / 256), .ofNat serial, .ofNat (cmd / 256), .ofNat cmd] ++
      beBytes 8 (luaUnsigned session) := rfl

end SkynetEureka.NetPack
