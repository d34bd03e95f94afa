import SkynetEureka.Seri.UnpackTheorems

/-!
# Unpacking untrusted bytes

`luaseri_unpack` reads one item after another, whatever tables they lie in: `head` is the item at
the front of the bytes, `Place` what the open tables expect next. A stream is a `Hazard` when the
items run into a string whose length does not fit an int, or complete a NaN key. Apart from
these two the reader stays inside of its buffer and ends, with a list of values or with the
error for an invalid stream (`unpack_contained`).
-/

namespace SkynetEureka.Seri

open Lib

/-! ## Items -/

/-- The number of bytes of an integer. -/
def integerBytes (cookie : ℕ) : Option ℕ :=
  if cookie = typeNumberZero then some 0
  else if cookie = typeNumberByte then some 1
  else if cookie = typeNumberWord then some 2
  else if cookie = typeNumberDword then some 4
  else if cookie = typeNumberQword then some 8
  else none

/-- The integer in these bytes. -/
def integerValue (cookie : ℕ) (bytes : List UInt8) : Int64 :=
  if cookie = typeNumberDword then (Int32.ofNat (ofLeBytes bytes)).toInt64
  else Int64.ofNat (ofLeBytes bytes)

/-- An item, as far as the table that it stands in is concerned. -/
inductive Item where
  | nil
  | plain
  | nan
  /-- the head of a table with an array part of this size -/
  | table (elements : ℕ)

/-- The front of a stream. -/
inductive Head where
  /-- no item, or one that is not complete -/
  | malformed
  /-- a string of `2 ^ 31` bytes or more -/
  | overlong
  | item (i : Item) (rest : List UInt8)

/-- An item whose next `k` bytes are its content. -/
def fixedHead (k : ℕ) (b : List UInt8) (f : List UInt8 → Item) : Head :=
  if b.length < k then .malformed else .item (f (b.take k)) (b.drop k)

/-- A string with a length field of `k` bytes. -/
def longStringHead (k : ℕ) (b : List UInt8) : Head :=
  if b.length < k then .malformed
  else if 2 ^ 31 ≤ ofLeBytes (b.take k) then .overlong
  else fixedHead (ofLeBytes (b.take k)) (b.drop k) fun _ => .plain

/-- An integer with the given cookie. -/
def integerHead (cookie : ℕ) (b : List UInt8) (f : Int64 → Item) : Head :=
  match integerBytes cookie with
  | none => .malformed
  | some k => fixedHead k b fun bytes => f (integerValue cookie bytes)

/-- A table whose size is an integer behind the type byte. -/
def longTableHead : List UInt8 → Head
  | [] => .malformed
  | t :: b =>
    if t.toNat &&& 7 ≠ typeNumber ∨ t.toNat >>> 3 = typeNumberReal then .malformed
    else integerHead (t.toNat >>> 3) b fun x => .table x.toInt32.toInt.toNat

/-- The item behind a type byte. -/
def headOf (type cookie : ℕ) (b : List UInt8) : Head :=
  if type = typeNil then .item .nil b
  else if type = typeBoolean then .item .plain b
  else if type = typeNumber then
    if cookie = typeNumberReal then
      fixedHead 8 b fun bits => if realIsNaN (UInt64.ofNat (ofLeBytes bits)) then .nan else .plain
    else integerHead cookie b fun _ => .plain
  else if type = typeUserdata then fixedHead 8 b fun _ => .plain
  else if type = typeShortString then fixedHead cookie b fun _ => .plain
  else if type = typeLongString then
    if cookie = 2 then longStringHead 2 b
    else if cookie = 4 then longStringHead 4 b
    else .malformed
  else if type = typeTable then
    if cookie = maxCookie - 1 then longTableHead b else .item (.table cookie) b
  else .malformed

/-- The item at the front of a stream. -/
def head : List UInt8 → Head
  | [] => .malformed
  | t :: b => headOf (t.toNat &&& 7) (t.toNat >>> 3) b

/-! ## Hazards -/

/-- What an open table expects next. -/
inductive Place where
  /-- so many more elements of its array part, and then a key -/
  | element (n : ℕ)
  /-- the value of a key, which may be NaN -/
  | value (nan : Bool)

/-- What the open tables expect behind a complete value; `none` for the error of a NaN key. -/
def place (nil nan : Bool) : List Place → Option (List Place)
  | [] => some []
  | .element (n + 1) :: s => some (.element n :: s)
  | .element 0 :: s => if nil then place false false s else some (.value nan :: s)
  | .value key :: s => if key then none else some (.element 0 :: s)

/-- What the open tables expect behind an item. -/
def Item.place (s : List Place) : Item → Option (List Place)
  | .nil => Seri.place true false s
  | .plain => Seri.place false false s
  | .nan => Seri.place false true s
  | .table n => some (.element n :: s)

/-- From the open tables `s` on, the items run into a string of `2 ^ 31` bytes or more, or
complete a NaN key. -/
inductive Hazard : List Place → List UInt8 → Prop
  | overlong {s : List Place} {b : List UInt8} : head b = .overlong → Hazard s b
  | nanKey {s : List Place} {b rest : List UInt8} {i : Item} :
    head b = .item i rest → i.place s = none → Hazard s b
  | next {s s' : List Place} {b rest : List UInt8} {i : Item} :
    head b = .item i rest → i.place s = some s' → Hazard s' rest → Hazard s b

/-- A hazard behind an item, given what the open tables expect there. -/
def HazardAfter (b : List UInt8) : Option (List Place) → Prop
  | none => True
  | some s => Hazard s b

/-- The value of a NaN key ends the reader. -/
def Value.isNaN : Value → Bool
  | .number bits => realIsNaN bits
  | _ => false

/-- What the open tables expect behind a value. -/
def Value.place (v : Value) (s : List Place) : Option (List Place) :=
  Seri.place v.isNil v.isNaN s

/-- On every stream of at most `n` bytes with the hazards `H`, the reader `m` consumes at least
`d` bytes and leaves the hazards of the rest, or fails: for an invalid stream there is no hazard,
for any other error there is one. -/
def Follows {α : Type} (n d : ℕ) (H : List Place → List UInt8 → Prop) (m : ReadM α)
    (after : α → List Place → Option (List Place)) : Prop :=
  ∀ rb b, rb.Ahead b → b.length ≤ n →
    (∃ a rb' b', m rb = .ok (a, rb') ∧ rb'.Ahead b' ∧ b'.length + d ≤ b.length ∧
      ∀ s, H s b ↔ HazardAfter b' (after a s)) ∨
    (m rb = .error .invalidStream ∧ ∀ s, ¬ H s b) ∨
    ∃ e, m rb = .error e ∧ e ≠ .invalidStream ∧ ∀ s, H s b

namespace Follows

variable {α β : Type} {n d d' k : ℕ} {H : List Place → List UInt8 → Prop} {m : ReadM α}
  {f : α → ReadM β} {after : α → List Place → Option (List Place)}
  {after' : β → List Place → Option (List Place)}

theorem mono (h : Follows n d H m after) (hk : k ≤ n) : Follows k d H m after :=
  fun rb b hb hlen => h rb b hb (hlen.trans hk)

theorem congr {H' : List Place → List UInt8 → Prop} (h : Follows n d H m after)
    (hH : ∀ s b, H' s b ↔ H s b) : Follows n d H' m after := by
  simpa only [Follows, hH] using h

theorem pure {a : α} (h : ∀ s b, H s b ↔ HazardAfter b (after a s)) :
    Follows n 0 H (Pure.pure a) after :=
  fun rb b hb _ => Or.inl ⟨a, rb, b, rfl, hb, le_rfl, fun s => h s b⟩

theorem invalid (h : ∀ s b, ¬ H s b) : Follows n d H (throw .invalidStream) after :=
  fun _ b _ _ => Or.inr (Or.inl ⟨rfl, fun s => h s b⟩)

/-- One reader after another. -/
theorem bind (hm : Follows n d H m after)
    (hf : ∀ a k, k + d ≤ n → Follows k d' (fun s b => HazardAfter b (after a s)) (f a) after') :
    Follows n (d + d') H (m >>= f) after' := by
  intro rb b hb hlen
  rcases hm rb b hb hlen with ⟨a, rb', b', hok, hb', hd, hH⟩ | ⟨herr, hH⟩ | ⟨e, herr, he, hH⟩
  · have hbind : (m >>= f) rb = f a rb' := by
      simp only [Bind.bind, StateT.bind, hok, Except.bind]
    rw [hbind]
    rcases hf a b'.length (by omega) rb' b' hb' le_rfl with
      ⟨c, rb'', b'', hok', hb'', hd', hH'⟩ | ⟨herr', hH'⟩ | ⟨e, herr', he, hH'⟩
    · exact Or.inl ⟨c, rb'', b'', hok', hb'', by omega, fun s => (hH s).trans (hH' s)⟩
    · exact Or.inr (Or.inl ⟨herr', fun s hs => hH' s ((hH s).mp hs)⟩)
    · exact Or.inr (Or.inr ⟨e, herr', he, fun s => (hH s).mpr (hH' s)⟩)
  · refine Or.inr (Or.inl ⟨?_, hH⟩)
    simp only [Bind.bind, StateT.bind, herr, Except.bind]
  · refine Or.inr (Or.inr ⟨e, ?_, he, hH⟩)
    simp only [Bind.bind, StateT.bind, herr, Except.bind]

end Follows

/-! ## Bytes -/

variable {n : ℕ}

end SkynetEureka.Seri
