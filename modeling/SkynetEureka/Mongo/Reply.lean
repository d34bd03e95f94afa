import SkynetEureka.Bson.Decode

/-!
# Replies of the database (lua-mongo.c)

A reply is a header of 32 bytes and documents one after another, each of which begins with its
length. `op_reply` steps by these lengths, which are signed.
-/

namespace SkynetEureka.Mongo

open Lib Bson

/-- What a function of the driver gives: it raises "Invalid result bson document", or returns. The
documents are pointers into the string, here offsets. -/
inductive Result where
  | invalid
  /-- `false` -/
  | short
  /-- `false`, the request id and the error document -/
  | failure (id : ℤ) (doc : ℤ)
  /-- `false` and the request id: there are more or fewer documents than the header says. -/
  | mismatch (id : ℤ)
  /-- `true`, with the documents that are stored in the table, the first document, the cursor and
  where it starts -/
  | reply (id : ℤ) (docs : List ℤ) (document : Option ℤ) (cursor : Option (List UInt8)) (starting : ℤ)
deriving DecidableEq

/-- `sizeof(*reply)` -/
def replySize : ℕ := 32

/-- `REPLY_QUERYFAILURE`, the second bit -/
def queryFailure (flags : ℤ) : Bool := flags / 2 % 2 = 1

variable (data : List UInt8)

/-- A field of the header, an int -/
def field (offset : ℕ) : ℤ := wrap (ofLeBytes ((data.drop offset).take 4))

/-- `get_length`: four bytes of the string -/
def getLength (doc : ℤ) : Except Stop ℕ := (load data doc 4).map ofLeBytes

/-- The loop of `op_reply`: the documents, and the bytes that are left -/
def documents : ℕ → ℤ → ℤ → Except Stop (List ℤ × ℤ)
  | 0, _, _ => .error .endless
  | fuel + 1, doc, sz =>
    if sz > 4 then do
      let n ← getLength data doc
      let docLen := wrap n
      let (docs, sz) ← documents fuel (doc + docLen) (wrap (sz - docLen))
      return (doc :: docs, sz)
    else .ok ([], sz)

/-- The end of `op_reply` -/
def finish (docs : List ℤ) (sz : ℤ) : Result :=
  if sz ≠ 0 then .invalid
  else
    .reply (field data 4) docs (if field data 28 = 0 then none else some replySize)
      (if field data 16 = 0 ∧ field data 20 = 0 then none else some ((data.drop 16).take 8))
      (field data 24)

/-- `op_reply`, with a table for the documents or without one. What else is in the table is taken
out. -/
def opReply (fuel : ℕ) (table : Bool) : Except Stop Result :=
  if data.length < replySize then .ok .short
  else if queryFailure (field data 12) then .ok (.failure (field data 4) replySize)
  else
    let sz := wrap (wrap data.length - replySize)
    if table then do
      let (docs, sz) ← documents data fuel replySize sz
      if docs.length ≠ field data 28 then return .mismatch (field data 4)
      else return finish data docs sz
    else if sz ≥ 4 then do
      let n ← getLength data replySize
      return finish data [] (wrap (sz - n))
    else .ok (finish data [] sz)

/-! ## What a reply should be -/

/-- The length that the document at an offset declares -/
def declared (doc : ℕ) : ℤ := wrap (ofLeBytes ((data.drop doc).take 4))

/-- The documents are there, one after another from `p` to the end of the string. -/
def Adjacent (p : ℤ) : List ℤ → Prop
  | [] => p = data.length
  | doc :: docs =>
    doc = p ∧ 0 ≤ doc ∧ 5 ≤ declared data doc.toNat ∧ doc + declared data doc.toNat ≤ data.length ∧
      Adjacent (doc + declared data doc.toNat) docs

/-- What `op_reply` returns is safe to read. -/
def Result.Sound (table : Bool) : Result → Prop
  | .reply _ docs document _ _ =>
    if table then Adjacent data replySize docs ∧ ∀ doc ∈ document, docs.head? = some doc
    else ∀ doc ∈ document, Adjacent data replySize [doc]
  | _ => True

/-- It ends, reads only the string, and what it returns is sound. -/
def Safe (table : Bool) : Prop :=
  ∃ fuel result, opReply data fuel table = .ok result ∧ result.Sound data table

/-- The offsets that the loop comes to -/
inductive Reached : ℕ → Prop
  | first : Reached replySize
  | next (doc : ℕ) : Reached doc → 4 < (data.length : ℤ) - doc →
    Reached (doc + (declared data doc).toNat)

variable {data} {p : ℕ} {table : Bool}

theorem Adjacent.le {p : ℤ} {docs : List ℤ} (h : Adjacent data p docs) : p ≤ data.length := by
  cases docs with
  | nil => exact le_of_eq h
  | cons doc docs =>
    obtain ⟨heq, -, hlen, hle, -⟩ := h
    omega

/-- The header of a reply to request 1 with one document -/
def header : List UInt8 :=
  [0, 0, 0, 0, 1, 0, 0, 0, 1, 0, 0, 0, 0, 0, 0, 0, 0, 0, 0, 0, 0, 0, 0, 0, 0, 0, 0, 0, 1, 0, 0, 0]

end SkynetEureka.Mongo
