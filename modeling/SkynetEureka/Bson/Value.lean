import SkynetEureka.Lib.Bytes

/-!
# Values and documents (lua-bson.c)

A table is the list of its entries in the order of `lua_next`, with the result of `lua_rawlen`,
which may be any border. It has no metatable. Object ids, dates and the like are strings that begin
with a NUL and the byte of their type.
-/

namespace SkynetEureka.Bson

open Lib

/-- A key of a table. -/
inductive Key where
  | integer (i : Int64)
  /-- a float, by its bit pattern -/
  | number (bits : UInt64)
  | string (bytes : List UInt8)
  /-- a key of another type, with its name -/
  | other (typename : String)
deriving DecidableEq

/-- A value of a table, which is never nil. -/
inductive Value where
  | boolean (b : Bool)
  | integer (x : Int64)
  | number (bits : UInt64)
  | string (bytes : List UInt8)
  /-- a full userdata, with its memory -/
  | userdata (memory : List UInt8)
  /-- a value of another type, with its name -/
  | other (typename : String)
  | table (entries : List (Key × Value)) (rawlen : ℕ)

abbrev Entries := List (Key × Value)

/-- `BSON_REAL`, `BSON_STRING`, .. -/
inductive Tag where
  | real
  | string
  | document
  | array
  | binary
  | objectid
  | boolean
  | date
  | null
  | regex
  | dbpointer
  | jscode
  | symbol
  | codews
  | int32
  | timestamp
  | int64
  | minkey
  | maxkey
deriving DecidableEq

namespace Tag

/-- The byte of a type. -/
def byte : Tag → UInt8
  | real => 1
  | string => 2
  | document => 3
  | array => 4
  | binary => 5
  | objectid => 7
  | boolean => 8
  | date => 9
  | null => 10
  | regex => 11
  | dbpointer => 12
  | jscode => 13
  | symbol => 14
  | codews => 15
  | int32 => 16
  | timestamp => 17
  | int64 => 18
  | minkey => 255
  | maxkey => 127

/-- All types that the two `switch` statements name. -/
def all : List Tag :=
  [real, string, document, array, binary, objectid, boolean, date, null, regex, dbpointer, jscode,
    symbol, codews, int32, timestamp, int64, minkey, maxkey]

/-- The type of a byte; `none` is the default of the `switch`. -/
def ofByte (b : UInt8) : Option Tag := all.find? fun t => t.byte = b

theorem ofByte_byte (t : Tag) : ofByte t.byte = some t := by
  cases t <;> rfl

/-- Whether a document of this type is an array; `none` when it is no document. -/
def nested : Tag → Option Bool
  | document => some false
  | array => some true
  | _ => none

end Tag

/-- A number of 32 bits, as C converts it to an int. -/
def wrap (x : ℤ) : ℤ := Int.bmod x (2 ^ 32)

theorem wrap_of_range {x : ℤ} (h : -2 ^ 31 ≤ x) (h' : x < 2 ^ 31) : wrap x = x := by
  unfold wrap
  rw [Int.bmod_def]
  split_ifs with hlt
  · omega
  · omega

theorem wrap_of_over {x : ℤ} (h : 2 ^ 31 ≤ x) (h' : x < 2 ^ 31 + 2 ^ 32) :
    wrap x = x - 2 ^ 32 := by
  unfold wrap
  rw [Int.bmod_def]
  split_ifs with hlt
  · omega
  · omega

theorem wrap_range (x : ℤ) : -2 ^ 31 ≤ wrap x ∧ wrap x < 2 ^ 31 := by
  unfold wrap
  rw [Int.bmod_def]
  split_ifs with hlt
  · omega
  · omega

/-! ## Tables -/

/-- Raw assignment of a value that is not nil. -/
def assign (entries : Entries) (k : Key) (v : Value) : Entries :=
  if entries.any fun e => e.1 = k then entries.map fun e => if e.1 = k then (e.1, v) else e
  else entries ++ [(k, v)]

/-- `lua_geti` of a table without a metatable -/
def geti (entries : Entries) (i : Int64) : Option Value :=
  (entries.find? fun e => e.1 = .integer i).map Prod.snd

/-- A border of a table that was just built: the first. -/
def firstBorder (entries : Entries) : ℕ :=
  ((List.range entries.length).takeWhile
    fun i => (geti entries (Int64.ofNat (i + 1))).isSome).length

/-- `lua_rawlen` may return `n`. -/
def IsBorder (entries : Entries) (n : ℕ) : Prop :=
  (n = 0 ∨ geti entries (Int64.ofNat n) ≠ none) ∧ geti entries (Int64.ofNat (n + 1)) = none

/-! ## Equality by content -/

mutual

/-- Tables have the same entries, in any order. -/
inductive Same : Value → Value → Prop
  | boolean (b : Bool) : Same (.boolean b) (.boolean b)
  | integer (x : Int64) : Same (.integer x) (.integer x)
  | number (bits : UInt64) : Same (.number bits) (.number bits)
  | string (bytes : List UInt8) : Same (.string bytes) (.string bytes)
  | table {entries entries' entries'' : Entries} {rawlen rawlen' : ℕ} :
    entries.Perm entries' → SameEntries entries' entries'' →
      Same (.table entries rawlen) (.table entries'' rawlen')

/-- Entries with the same keys and values, one by one. -/
inductive SameEntries : Entries → Entries → Prop
  | nil : SameEntries [] []
  | cons {k : Key} {v v' : Value} {es es' : Entries} :
    Same v v' → SameEntries es es' → SameEntries ((k, v) :: es) ((k, v') :: es')

end

/-! ## The constructors -/

/-- `make_object` -/
def makeObject (tag : Tag) (bytes : List UInt8) : List UInt8 := 0 :: tag.byte :: bytes

/-- `ldate`: the four bytes of an int -/
def date (d : ℤ) : List UInt8 := makeObject .date (leBytes 4 (d % 2 ^ 32).toNat)

/-- `ltimestamp`, with the increment that is given or counted -/
def timestamp (d inc : ℤ) : List UInt8 :=
  makeObject .timestamp (leBytes 4 (inc % 2 ^ 32).toNat ++ leBytes 4 (d % 2 ^ 32).toNat)

/-- `lbinary` -/
def binary (bytes : List UInt8) : List UInt8 := makeObject .binary (0 :: bytes)

/-- `lobjectid`, for the twelve bytes that are decoded or made up -/
def objectid (bytes : List UInt8) : List UInt8 := makeObject .objectid bytes

/-- `bson.null`, `bson.minkey` and `bson.maxkey` -/
def null : List UInt8 := makeObject .null []

def minkey : List UInt8 := makeObject .minkey []

def maxkey : List UInt8 := makeObject .maxkey []

end SkynetEureka.Bson
