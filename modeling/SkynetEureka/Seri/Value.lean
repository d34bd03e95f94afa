import Mathlib

/-!
# Lua values (`lua-seri.c`)

The values that `luaseri_pack` accepts, as the Lua API shows them. A table without `__pairs` is
the list of its entries in the order of `lua_next`, with the result of `lua_rawlen`, which may be
any border of the table. A double is its bit pattern, a light userdata its address.

Tables are compared by identity in Lua: a table that is read from a stream is a new object.
-/

namespace SkynetEureka.Seri

inductive Value where
  | nil
  | boolean (b : Bool)
  | integer (x : Int64)
  | number (bits : UInt64)
  | lightuserdata (address : UInt64)
  | string (bytes : List UInt8)
  | table (entries : List (Value × Value)) (rawlen : ℕ)

abbrev Entries := List (Value × Value)

namespace Value

/-- `lua_isnil` -/
def isNil : Value → Bool
  | nil => true
  | _ => false

/-- Primitive equality of a key with a key that is already in a table; a table just read is in
no table yet. -/
def rawEqual : Value → Value → Bool
  | nil, nil => true
  | boolean a, boolean b => a = b
  | integer x, integer y => x = y
  | number a, number b => a = b
  | lightuserdata a, lightuserdata b => a = b
  | string a, string b => a = b
  | _, _ => false

lemma rawEqual_integer (x y : Int64) : (integer x).rawEqual (integer y) = decide (x = y) := rfl

end Value

/-- The eleven bits of the exponent. -/
def realExponent (bits : UInt64) : ℕ := bits.toNat / 2 ^ 52 % 2 ^ 11

/-- The fraction, with the hidden bit of a normal number. -/
def realSignificand (bits : UInt64) : ℕ :=
  if realExponent bits = 0 then bits.toNat % 2 ^ 52 else 2 ^ 52 + bits.toNat % 2 ^ 52

/-- `luai_numisnan` -/
def realIsNaN (bits : UInt64) : Bool :=
  realExponent bits = 2047 && bits.toNat % 2 ^ 52 ≠ 0

/-- `luaV_tointeger` of a float, without rounding: the integer it is equal to, if there is one
and `lua_Integer` holds it. -/
def realToInteger (bits : UInt64) : Option Int64 :=
  let m := realSignificand bits
  let e := max 1 (realExponent bits)
  let abs :=
    if 1075 ≤ e then some (m * 2 ^ (e - 1075))
    else if m % 2 ^ (1075 - e) = 0 then some (m / 2 ^ (1075 - e)) else none
  if realExponent bits = 2047 then none
  else
    abs.bind fun a =>
      let x : Int := if bits.toNat < 2 ^ 63 then a else -a
      if -2 ^ 63 ≤ x ∧ x < 2 ^ 63 then some (Int64.ofInt x) else none

/-- Raw access with an integer key (`lua_rawgeti`). -/
def rawgeti (entries : Entries) (i : Int64) : Value :=
  ((entries.find? fun e => e.1.rawEqual (.integer i)).map (·.2)).getD .nil

/-- Raw assignment with a key that the table takes as it is. -/
def assign (entries : Entries) (k v : Value) : Entries :=
  if v.isNil then entries.filter fun e => !e.1.rawEqual k
  else if entries.any fun e => e.1.rawEqual k then
    entries.map fun e => if e.1.rawEqual k then (e.1, v) else e
  else entries ++ [(k, v)]

/-- `lua_rawset`: a float key with an integer value becomes that integer; `none` is the error for
a nil or NaN key. -/
def rawset (entries : Entries) (k v : Value) : Option Entries :=
  match k with
  | .nil => none
  | .number bits =>
    if realIsNaN bits then none
    else
      match realToInteger bits with
      | some i => some (assign entries (.integer i) v)
      | none => some (assign entries k v)
  | _ => some (assign entries k v)

/-- A border of a table that was just built: the first. -/
def firstBorder (entries : Entries) : ℕ :=
  ((List.range entries.length).takeWhile
    fun i => !(rawgeti entries (Int64.ofNat (i + 1))).isNil).length

/-! ## Legal values and equality by content -/

/-- A key that can be in a table: not nil, not NaN, and not a float with an integer value. -/
def Value.LegalKey : Value → Prop
  | .nil => False
  | .number bits => realIsNaN bits = false ∧ realToInteger bits = none
  | _ => True

/-- A value whose tables are nested at most `n` deep and whose strings are shorter than
`2 ^ 31`: the keys of a table are legal and pairwise different, and no entry is nil. -/
def Value.Legal : ℕ → Value → Prop
  | _, .string bytes => bytes.length < 2 ^ 31
  | 0, .table .. => False
  | n + 1, .table entries _ =>
    entries.Pairwise (fun e e' => e.1.rawEqual e'.1 = false) ∧
      ∀ e ∈ entries, e.1.LegalKey ∧ e.2.isNil = false ∧ e.1.Legal n ∧ e.2.Legal n
  | _, _ => True

mutual

/-- Equality by content: tables have the same entries, in any order. -/
inductive Same : Value → Value → Prop
  | nil : Same .nil .nil
  | boolean (b : Bool) : Same (.boolean b) (.boolean b)
  | integer (x : Int64) : Same (.integer x) (.integer x)
  | number (bits : UInt64) : Same (.number bits) (.number bits)
  | lightuserdata (address : UInt64) : Same (.lightuserdata address) (.lightuserdata address)
  | string (bytes : List UInt8) : Same (.string bytes) (.string bytes)
  | table {entries entries' entries'' : Entries} {len len' : ℕ} :
    entries.Perm entries' → SameEntries entries' entries'' →
      Same (.table entries len) (.table entries'' len')

/-- Entries with the same keys and values, one by one. -/
inductive SameEntries : Entries → Entries → Prop
  | nil : SameEntries [] []
  | cons {k k' v v' : Value} {es es' : Entries} :
    Same k k' → Same v v' → SameEntries es es' → SameEntries ((k, v) :: es) ((k', v') :: es')

end

end SkynetEureka.Seri
