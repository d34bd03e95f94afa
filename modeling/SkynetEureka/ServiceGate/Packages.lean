import SkynetEureka.ServiceGate.Databuffer

/-!
# What a client sends

A client sends packages, each with its length in front of it. `Follows` says how far a connection
has got: some packages are done, and what is left of the bytes that have come is a header that has
been read, or none, and the bytes of the buffer.
-/

namespace SkynetEureka.ServiceGate

open Lib

/-- The length of a package, highest byte first -/
def head (headerSize n : ℕ) : List UInt8 := (leBytes headerSize n).reverse

def package (headerSize : ℕ) (body : List UInt8) : List UInt8 := head headerSize body.length ++ body

def stream (headerSize : ℕ) (packages : List (List UInt8)) : List UInt8 :=
  packages.flatMap (package headerSize)

/-- The lengths of packages are below this. -/
def limit (headerSize : ℕ) : ℕ := if headerSize = 2 then 0x10000 else 0x1000000

/-- The bytes of the header that has been read -/
def headRead (headerSize : ℕ) (header : ℤ) : List UInt8 :=
  if header = 0 then [] else head headerSize header.toNat

/-- Of the packages, these are forwarded. -/
def nonempty (packages : List (List UInt8)) : List (List UInt8) :=
  packages.filter fun body => !body.isEmpty

/-- How far a connection has got -/
structure Follows (headerSize : ℕ) (packages : List (List UInt8)) (received : List UInt8)
    (sent : List (List UInt8)) (header : ℤ) (bytes : List UInt8) : Prop where
  split : ∃ done left, packages = done ++ left ∧
    received = stream headerSize done ++ headRead headerSize header ++ bytes ∧ sent = nonempty done
  nonneg : 0 ≤ header
  lt : header < limit headerSize

variable {headerSize n : ℕ} {packages sent : List (List UInt8)}
  {body received later bytes : List UInt8}
  {header : ℤ}

theorem length_head : (head headerSize n).length = headerSize := by
  unfold head
  rw [List.length_reverse, length_leBytes]

theorem limit_le (hsize : headerSize = 2 ∨ headerSize = 4) :
    limit headerSize ≤ 256 ^ headerSize := by
  rcases hsize with rfl | rfl <;> decide

/-- The length is read as it has been written. -/
theorem readLength_head (hsize : headerSize = 2 ∨ headerSize = 4) (hn : n < limit headerSize) :
    Databuffer.readLength headerSize (head headerSize n) = n := by
  unfold Databuffer.readLength head
  rw [List.reverse_reverse, ofLeBytes_leBytes_of_lt (hn.trans_le (limit_le hsize))]
  refine if_pos ?_
  rcases hsize with rfl | rfl
  · exact .inl rfl
  · have hlimit : limit 4 = 0x1000000 := rfl
    omega

theorem head_inj {m : ℕ} (hsize : headerSize = 2 ∨ headerSize = 4) (hn : n < limit headerSize)
    (hm : m < limit headerSize) (heq : head headerSize n = head headerSize m) : n = m := by
  have hread := congrArg (Databuffer.readLength headerSize) heq
  rw [readLength_head hsize hn, readLength_head hsize hm] at hread
  exact_mod_cast hread

theorem stream_cons : stream headerSize (body :: packages) =
    head headerSize body.length ++ (body ++ stream headerSize packages) := by
  show package _ _ ++ _ = _
  rw [package, List.append_assoc]
  rfl

theorem stream_append {packages' : List (List UInt8)} : stream headerSize (packages ++ packages') =
    stream headerSize packages ++ stream headerSize packages' := List.flatMap_append

theorem stream_singleton : stream headerSize [body] = head headerSize body.length ++ body := by
  rw [stream_cons]
  show _ ++ (body ++ []) = _
  rw [List.append_nil]

theorem nonempty_append {packages' : List (List UInt8)} :
    nonempty (packages ++ packages') = nonempty packages ++ nonempty packages' :=
  List.filter_append ..

theorem follows_nil : Follows headerSize packages [] [] 0 [] := by
  refine ⟨⟨[], packages, rfl, rfl, rfl⟩, le_rfl, ?_⟩
  unfold limit
  split <;> decide

/-- A block has come. -/
theorem Follows.receive (h : Follows headerSize packages received sent header bytes)
    (data : List UInt8) :
    Follows headerSize packages (received ++ data) sent header (bytes ++ data) := by
  obtain ⟨done, left, hsplit, hreceived, hsent⟩ := h.split
  refine ⟨⟨done, left, hsplit, ?_, hsent⟩, h.nonneg, h.lt⟩
  rw [hreceived, List.append_assoc]

theorem left_eq {done left : List (List UInt8)}
    (hreceived : received = stream headerSize done ++ headRead headerSize header ++ bytes)
    (hstream : received ++ later = stream headerSize (done ++ left)) :
    headRead headerSize header ++ (bytes ++ later) = stream headerSize left := by
  rw [hreceived, stream_append, List.append_assoc, List.append_assoc] at hstream
  exact List.append_cancel_left hstream

/-- The packages that are left start with the header that has been read, or with that in the
buffer. -/
theorem Follows.exists_left (h : Follows headerSize packages received sent header bytes)
    (hstream : received ++ later = stream headerSize packages)
    (hne : headRead headerSize header ++ bytes ≠ []) :
    ∃ done body left, packages = done ++ body :: left ∧ sent = nonempty done ∧
      received = stream headerSize done ++ headRead headerSize header ++ bytes ∧
        headRead headerSize header ++ (bytes ++ later) =
          head headerSize body.length ++ (body ++ stream headerSize left) := by
  obtain ⟨done, left, rfl, hreceived, hsent⟩ := h.split
  have hrest := left_eq hreceived hstream
  cases left with
  | nil =>
    have hnil : headRead headerSize header ++ (bytes ++ later) = [] := hrest
    rw [← List.append_assoc, List.append_eq_nil_iff] at hnil
    exact (hne hnil.1).elim
  | cons body left =>
    rw [stream_cons] at hrest
    exact ⟨done, body, left, rfl, hsent, hreceived, hrest⟩

/-- A header is read. -/
theorem Follows.readHeader (h : Follows headerSize packages received sent 0 bytes)
    (hsize : headerSize = 2 ∨ headerSize = 4)
    (hstream : received ++ later = stream headerSize packages)
    (hlimit : ∀ body ∈ packages, body.length < limit headerSize)
    (hle : headerSize ≤ bytes.length) :
    Follows headerSize packages received sent
      (Databuffer.readLength headerSize (bytes.take headerSize)) (bytes.drop headerSize) := by
  have hpos : bytes ≠ [] := by
    rintro rfl
    rw [List.length_nil] at hle
    omega
  obtain ⟨done, body, left, rfl, hsent, hreceived, hrest⟩ := h.exists_left hstream hpos
  have hbytes : bytes ++ later = head headerSize body.length ++ (body ++ stream headerSize left) :=
    hrest
  have htake : bytes.take headerSize = head headerSize body.length := by
    have htake := congrArg (List.take headerSize) hbytes
    rwa [List.take_append_of_le_length hle, List.take_left' length_head] at htake
  have hbody := hlimit body (by simp)
  rw [htake, readLength_head hsize hbody]
  refine ⟨?_, Int.natCast_nonneg _, by exact_mod_cast hbody⟩
  have hsplit : head headerSize body.length ++ bytes.drop headerSize = bytes := by
    rw [← htake, List.take_append_drop]
  have hreceived' : received = stream headerSize done ++ bytes := by
    rw [hreceived]
    exact congrArg (· ++ bytes) (List.append_nil _)
  by_cases hzero : body = []
  · -- an empty package is done
    subst hzero
    refine ⟨done ++ [[]], left, by simp, ?_, ?_⟩
    · show received = _ ++ [] ++ _
      rw [hreceived', stream_append, stream_singleton, List.append_nil, List.append_nil,
        List.append_assoc, hsplit]
    · rw [nonempty_append, hsent]
      exact (List.append_nil _).symm
  · refine ⟨done, body :: left, rfl, ?_, hsent⟩
    have hheader : (body.length : ℤ) ≠ 0 := by simpa using hzero
    unfold headRead
    rw [if_neg hheader, Int.toNat_natCast, List.append_assoc, hsplit]
    exact hreceived'

/-- A body is read. -/
theorem Follows.readBody (h : Follows headerSize packages received sent header bytes)
    (hsize : headerSize = 2 ∨ headerSize = 4)
    (hstream : received ++ later = stream headerSize packages)
    (hlimit : ∀ body ∈ packages, body.length < limit headerSize)
    (hpos : 0 < header) (hle : header ≤ bytes.length) :
    Follows headerSize packages received (sent ++ [bytes.take header.toNat]) 0
      (bytes.drop header.toNat) := by
  have hread : headRead headerSize header = head headerSize header.toNat := if_neg hpos.ne'
  have hne : headRead headerSize header ++ bytes ≠ [] := by
    intro hnil
    rw [(List.append_eq_nil_iff.mp hnil).2, List.length_nil] at hle
    omega
  obtain ⟨done, body, left, rfl, hsent, hreceived, hrest⟩ := h.exists_left hstream hne
  have hbody := hlimit body (by simp)
  have hlt := h.lt
  rw [hread] at hrest hreceived
  obtain ⟨hhead, hbytes⟩ := List.append_inj hrest (by rw [length_head, length_head])
  have hlength : header.toNat = body.length := head_inj hsize (by omega) hbody hhead
  have htake : bytes.take header.toNat = body := by
    have htake := congrArg (List.take header.toNat) hbytes
    rwa [List.take_append_of_le_length (by omega), hlength, List.take_left, ← hlength] at htake
  have hnonempty : nonempty [body] = [body] := by
    refine List.filter_cons_of_pos ?_
    rw [Bool.not_eq_true', List.isEmpty_eq_false_iff]
    rintro rfl
    rw [List.length_nil] at hlength
    omega
  have hsplit : body ++ bytes.drop body.length = bytes := by
    rw [← hlength]
    nth_rewrite 1 [← htake]
    exact List.take_append_drop _ _
  refine ⟨⟨done ++ [body], left, by simp, ?_, ?_⟩, le_rfl, hpos.trans hlt⟩
  · show received = _ ++ [] ++ _
    rw [hreceived, stream_append, stream_singleton, List.append_nil, hlength, List.append_assoc,
      List.append_assoc, List.append_assoc, hsplit]
  · rw [nonempty_append, hsent, htake, hnonempty]

/-- What a client has sent when the buffer waits for more: whole packages, and less than the next
one. -/
def Complete (headerSize : ℕ) (packages : List (List UInt8)) (received : List UInt8)
    (sent : List (List UInt8)) : Prop :=
  ∃ done left rest, packages = done ++ left ∧ received = stream headerSize done ++ rest ∧
    sent = nonempty done ∧ ∀ body ∈ left.head?, rest.length < (package headerSize body).length

/-- The buffer has to wait for a header, or for a body. -/
def Waits (headerSize : ℕ) (header : ℤ) (bytes : List UInt8) : Prop :=
  if header = 0 then bytes.length < headerSize else bytes.length < header

/-- What waits is less than the next package. -/
theorem Waits.short {left : List (List UInt8)} (hwaits : Waits headerSize header bytes)
    (h : Follows headerSize packages received sent header bytes)
    (hsize : headerSize = 2 ∨ headerSize = 4) (hbody : body.length < limit headerSize)
    (hrest : headRead headerSize header ++ (bytes ++ later) = stream headerSize (body :: left)) :
    (headRead headerSize header ++ bytes).length < (package headerSize body).length := by
  unfold Waits at hwaits
  rw [package, List.length_append, List.length_append, length_head]
  by_cases hzero : header = 0
  · rw [if_pos hzero] at hwaits
    rw [headRead, if_pos hzero, List.length_nil]
    omega
  · -- the header that has been read is that of the next package
    rw [if_neg hzero] at hwaits
    have hread : headRead headerSize header = head headerSize header.toNat := if_neg hzero
    have hlt := h.lt
    have hnonneg := h.nonneg
    rw [hread, stream_cons] at hrest
    have hhead := (List.append_inj hrest (by rw [length_head, length_head])).1
    have hlength := head_inj hsize (by omega) hbody hhead
    rw [hread, length_head]
    omega

theorem Follows.complete (h : Follows headerSize packages received sent header bytes)
    (hsize : headerSize = 2 ∨ headerSize = 4)
    (hstream : received ++ later = stream headerSize packages)
    (hlimit : ∀ body ∈ packages, body.length < limit headerSize)
    (hwaits : Waits headerSize header bytes) :
    Complete headerSize packages received sent := by
  obtain ⟨done, left, rfl, hreceived, hsent⟩ := h.split
  have hrest := left_eq hreceived hstream
  refine ⟨done, left, headRead headerSize header ++ bytes, rfl, ?_, hsent, ?_⟩
  · rw [hreceived, List.append_assoc]
  · intro body hbody
    obtain ⟨left, rfl⟩ := List.head?_eq_some_iff.mp hbody
    exact hwaits.short h hsize (hlimit body (by simp)) hrest

/-- All that has been sent has been forwarded, when it is whole packages. -/
theorem Complete.all (h : Complete headerSize packages (stream headerSize packages) sent) :
    sent = nonempty packages := by
  obtain ⟨done, left, rest, rfl, hreceived, rfl, hrest⟩ := h
  cases left with
  | nil => rw [List.append_nil]
  | cons body left =>
    rw [stream_append] at hreceived
    have hlt := hrest body rfl
    rw [← List.append_cancel_left hreceived] at hlt
    have hle : (package headerSize body).length ≤ (stream headerSize (body :: left)).length := by
      show _ ≤ (package headerSize body ++ _).length
      rw [List.length_append]
      omega
    omega

end SkynetEureka.ServiceGate
