import SkynetEureka.Lib.Search
import SkynetEureka.Lib.Decimal

/-!
# Reading HTTP messages (http/internal.lua, httpd.lua)

`readbytes()` gives the bytes that the socket has next, some at least, and `readbytes(n)` exactly `n` bytes;
both raise when the connection ends first. Strings of Lua are lists of bytes. The functions of
`internal.lua` read a header block or a chunked body, and hand the bytes on that they have not used;
`writeall` of `httpd.lua` writes a response.
-/

namespace SkynetEureka.Http

open Lib

/-! ## Strings -/

def crlf : List UInt8 := [13, 10]

/-- The end of a header block. -/
def blankLine : List UInt8 := [13, 10, 13, 10]

/-- `s:sub(i, j)`; a place below 0 is one from the end. -/
def sub (s : List UInt8) (i j : ℤ) : List UInt8 :=
  let first := if i > 0 then i - 1 else if i = 0 then 0 else s.length + i
  let last := if j < 0 then s.length + j + 1 else j
  (s.take last.toNat).drop first.toNat

def isSpace (c : UInt8) : Bool := c = 32 || (9 ≤ c && c ≤ 13)

/-- The value of a letter or a digit. -/
def alnum? (c : UInt8) : Option ℕ :=
  if 48 ≤ c ∧ c ≤ 57 then some (c.toNat - 48)
  else if 97 ≤ c ∧ c ≤ 122 then some (c.toNat - 87)
  else if 65 ≤ c ∧ c ≤ 90 then some (c.toNat - 55)
  else none

/-- The sign of a numeral, and what is behind it. -/
def signed : List UInt8 → Bool × List UInt8
  | 45 :: s => (true, s)
  | 43 :: s => (false, s)
  | s => (false, s)

/-- A number of 64 bits. -/
def wrap (n : ℤ) : ℤ := n.bmod (2 ^ 64)

/-- The number that these hexadecimal digits stand for; `none` when there is another letter. -/
def hexValue : List UInt8 → ℕ → Option ℕ
  | [], n => some n
  | c :: s, n =>
    match alnum? c with
    | some d => if d < 16 then hexValue s (n * 16 + d) else none
    | none => none

/-- `tonumber(s, 16)`: spaces around the numeral and a sign are allowed. -/
def tonumber16 (s : List UInt8) : Option ℤ :=
  let (neg, s) := signed (s.dropWhile isSpace)
  let digits := s.takeWhile fun c => (alnum? c).isSome
  let rest := s.dropWhile fun c => (alnum? c).isSome
  if digits = [] ∨ ¬ rest.all isSpace then none
  else (hexValue digits 0).map fun n : ℕ => wrap (if neg then -(n : ℤ) else n)

/-! ## The connection -/

/-- The bytes that are still to come, and the lengths in which they come. -/
structure Stream where
  rest : List UInt8
  cuts : List ℕ
deriving DecidableEq, Repr

/-- How a function ends without returning. -/
inductive Stop where
  /-- `readbytes` raises: the connection is closed -/
  | socket
  /-- an error of the language -/
  | raises
  /-- a loop that is still running when its bound is reached -/
  | endless
deriving DecidableEq, Repr

/-- `readbytes()`. -/
def readbytes (s : Stream) : Except Stop (List UInt8 × Stream) :=
  if s.rest = [] then .error .socket
  else
    let n := max 1 (s.cuts.headD 1)
    .ok (s.rest.take n, { rest := s.rest.drop n, cuts := s.cuts.tail })

/-- `readbytes(n)`. -/
def readbytesN (n : ℕ) (s : Stream) : Except Stop (List UInt8 × Stream) :=
  if s.rest.length < n then .error .socket
  else .ok (s.rest.take n, { s with rest := s.rest.drop n })

/-! ## Header blocks -/

/-- `LIMIT`. -/
def limit : ℕ := 8192

/-- The lines that `header:gmatch("(.-)\r\n")` gives, up to an empty one; `line` is what the current line
has so far. -/
def splitLines : List UInt8 → List UInt8 → List (List UInt8)
  | line, 13 :: 10 :: s => if line = [] then [] else line :: splitLines [] s
  | line, c :: s => splitLines (line ++ [c]) s
  | _, [] => []

/-- The loop of `recvheader`: the lines, and the bytes behind the block; `none` for a block that is too
long. A round takes a byte at least. -/
def recvheaderLoop : ℕ → List UInt8 → Stream → Except Stop (Option (List (List UInt8) × List UInt8) × Stream)
  | 0, _, _ => .error .endless
  | fuel + 1, header, s => do
    let (bytes, s) ← readbytes s
    let header := header ++ bytes
    match indexFrom blankLine header (header.length - (bytes.length + 3)) with
    | some e => .ok (some (splitLines [] header, header.drop (e + 4)), s)
    | none =>
      if crlf <+: header then .ok (some ([], header.drop 2), s)
      else if header.length > limit then .ok (none, s)
      else recvheaderLoop fuel header s

/-- `recvheader`; the lines are what it adds to `lines`. -/
def recvheader (header : List UInt8) (s : Stream) : Except Stop (Option (List (List UInt8) × List UInt8) × Stream) :=
  if header.length ≥ 2 ∧ crlf <+: header then .ok (some ([], header.drop 2), s)
  else
    match indexOf blankLine header with
    | some e => .ok (some (splitLines [] header, header.drop (e + 4)), s)
    | none => recvheaderLoop (s.rest.length + 1) header s

/-- The value of a header: a string, or a table of the strings that have come under its name. -/
inductive HeaderValue where
  | one (v : List UInt8)
  | many (vs : List (List UInt8))
deriving DecidableEq, Repr

/-- The table of the headers, the last one that is set in front. -/
abbrev Header := List (List UInt8 × HeaderValue)

/-- `name:lower()`. -/
def lower (s : List UInt8) : List UInt8 := s.map fun c => if 65 ≤ c ∧ c ≤ 90 then c + 32 else c

/-- `line:match "^(.-):%s*(.*)"`. -/
def matchHeader (line : List UInt8) : Option (List UInt8 × List UInt8) :=
  match indexOf [58] line with
  | some i => some (line.take i, (line.drop (i + 1)).dropWhile isSpace)
  | none => none

def Header.set (header : Header) (name : List UInt8) (v : HeaderValue) : Header :=
  (name, v) :: header.filter fun h => h.1 ≠ name

/-- The loop of `parseheader`; `name` is that of the line in front. The result is nil for a line that is no
header, and a continuation of a table raises. -/
def parseLines : List (List UInt8) → Option (List UInt8) → Header → Except Stop (Option Header)
  | [], _, header => .ok (some header)
  | line :: lines, name, header =>
    if line.head? = some 9 then
      match name with
      | none => .ok none
      | some n =>
        match header.lookup n with
        | some (.one v) => parseLines lines name (header.set n (.one (v ++ line.drop 1)))
        | _ => .error .raises
    else
      match matchHeader line with
      | none => .ok none
      | some (n, value) =>
        let n := lower n
        match header.lookup n with
        | some (.many vs) => parseLines lines (some n) (header.set n (.many (vs ++ [value])))
        | some (.one v) => parseLines lines (some n) (header.set n (.many [v, value]))
        | none => parseLines lines (some n) (header.set n (.one value))

/-- `parseheader`. -/
def parseheader (lines : List (List UInt8)) (header : Header) : Except Stop (Option Header) :=
  parseLines lines none header

/-! ## Chunked bodies -/

/-- The loop of `chunksize`; nil when there is no line in sight, or when it is no number. -/
def chunksize : ℕ → List UInt8 → Stream → Except Stop (Option (ℤ × List UInt8) × Stream)
  | 0, _, _ => .error .endless
  | fuel + 1, body, s =>
    match indexOf crlf body with
    | some f => .ok ((tonumber16 (body.take f)).map fun sz => (sz, body.drop (f + 2)), s)
    | none =>
      if body.length > 128 then .ok (none, s)
      else do
        let (bytes, s) ← readbytes s
        chunksize fuel (body ++ bytes) s

/-- `readcrln`. -/
def readcrln (body : List UInt8) (s : Stream) : Except Stop (Option (List UInt8) × Stream) :=
  if body.length ≥ 2 then
    if body.take 2 ≠ crlf then .ok (none, s) else .ok (some (body.drop 2), s)
  else do
    let (bytes, s) ← readbytesN (2 - body.length) s
    if body ++ bytes ≠ crlf then .ok (none, s) else .ok (some [], s)

/-- The content of a chunk of `sz` bytes, and what is behind it. -/
def chunkdata (sz : ℤ) (body : List UInt8) (s : Stream) : Except Stop ((List UInt8 × List UInt8) × Stream) :=
  if body.length ≥ sz then .ok ((sub body 1 sz, sub body (sz + 1) (-1)), s)
  else do
    let (bytes, s) ← readbytesN (sz - body.length).toNat s
    .ok ((body ++ bytes, []), s)

/-- The variables of `recvchunkedbody`. -/
structure Chunks where
  result : List UInt8
  size : ℤ
  body : List UInt8

/-- The loop of `recvchunkedbody`, in which each round takes a line at least. -/
def recvchunks (bodylimit : Option ℤ) : ℕ → Chunks → Stream → Except Stop (Option Chunks × Stream)
  | 0, _, _ => .error .endless
  | fuel + 1, c, s => do
    let (sz, s) ← chunksize (s.rest.length + 1) c.body s
    match sz with
    | none => .ok (none, s)
    | some (sz, body) =>
      if sz = 0 then .ok (some { c with body := body }, s)
      else
        let size := wrap (c.size + sz)
        if ∃ l ∈ bodylimit, size > l then .ok (none, s)
        else do
          let ((data, body), s) ← chunkdata sz body s
          let (body, s) ← readcrln body s
          match body with
          | none => .ok (none, s)
          | some body => recvchunks bodylimit fuel { result := c.result ++ data, size := size, body := body } s

/-- `recvchunkedbody`: the body, and the header with the trailer, which is nil when it cannot be parsed. -/
def recvchunkedbody (bodylimit : Option ℤ) (header : Header) (body : List UInt8) (s : Stream) :
    Except Stop (Option (List UInt8 × Option Header) × Stream) := do
  let (c, s) ← recvchunks bodylimit (body.length + s.rest.length + 1) { result := [], size := 0, body := body } s
  match c with
  | none => .ok (none, s)
  | some c => do
    let (trailer, s) ← recvheader c.body s
    match trailer with
    | none => .ok (none, s)
    | some (lines, _) => do
      let header ← parseheader lines header
      .ok (some (c.result, header), s)

/-! ## Responses -/

def hexDigit (d : ℕ) : UInt8 := UInt8.ofNat (if d < 10 then 48 + d else 87 + d)

/-- `"%x"`. -/
def hex (n : ℕ) : List UInt8 := if n = 0 then [48] else (Nat.digits 16 n).reverse.map hexDigit

/-- `bodyfunc`: nothing, a string, or the strings that a function returns up to nil. -/
inductive Body where
  | none
  | string (s : List UInt8)
  | chunks (cs : List (List UInt8))

/-- `"%s: %s\r\n"`. -/
def headerLine (name value : List UInt8) : List UInt8 := name ++ [58, 32] ++ value ++ crlf

/-- The lines for one entry of the header. -/
def headerLines : List UInt8 × HeaderValue → List UInt8
  | (name, .one v) => headerLine name v
  | (name, .many vs) => vs.flatMap fun v => headerLine name v

/-- What is written for a body. -/
def writeBody : Body → List UInt8
  | .none => crlf
  | .string s => "content-length: ".toUTF8.toList ++ digits s.length ++ blankLine ++ s
  | .chunks cs =>
    "transfer-encoding: chunked".toUTF8.toList ++ crlf ++
      cs.flatMap (fun s => if s ≠ [] then crlf ++ hex s.length ++ crlf ++ s else []) ++ crlf ++ [48] ++ blankLine

/-- `writeall`: the bytes of all calls of `writefunc`; `statusline` is the first line without its end, and
the entries of `header` come in the order of `pairs`. -/
def writeall (statusline : List UInt8) (body : Body) (header : Header) : List UInt8 :=
  statusline ++ crlf ++ header.flatMap headerLines ++ writeBody body

end SkynetEureka.Http
