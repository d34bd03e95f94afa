import SkynetEureka.ServiceGate.Contents

/-!
# Packages and their receivers

`_forward` reads the body of a package only when there is somebody to whom it goes. The buffer of a
connection starts with a package, or with its body, as long as each package that is not empty finds
a receiver.
-/

namespace SkynetEureka.ServiceGate

open Lib Function Relation

/-- The packages that are whole in the bytes, of at most so many -/
def wholeLoop (headerSize : ℕ) : ℕ → List UInt8 → List (List UInt8)
  | 0, _ => []
  | n + 1, bytes =>
    let rest := bytes.drop headerSize
    let length := ofLeBytes (bytes.take headerSize).reverse
    if bytes.length < headerSize ∨ rest.length < length then []
    else rest.take length :: wholeLoop headerSize n (rest.drop length)

/-- The packages that are whole in the bytes -/
def whole (headerSize : ℕ) (bytes : List UInt8) : List (List UInt8) :=
  wholeLoop headerSize bytes.length bytes

/-- There is a receiver when a block makes a package whole that is not empty. -/
def Gate.Catches (g : Gate) : Action → Prop
  | .data id data => ∀ c ∈ g.connection id, (g.receiver id c).isSome ∨
      nonempty (whole g.headerSize (c.received ++ data)) = nonempty (whole g.headerSize c.received)
  | _ => True

instance Gate.decidableCatches (g : Gate) : (a : Action) → Decidable (g.Catches a)
  | .data id _ => inferInstanceAs (Decidable (∀ c ∈ g.connection id, _ ∨ _))
  | .accept _ | .close _ | .forward _ _ _ | .broker _ => inferInstanceAs (Decidable True)

section

variable {g g' : Gate} {headerSize n id : ℕ} {packages done left bodies : List (List UInt8)}
  {received rest body later : List UInt8} {c : Connection} {f : Framed}

/-! ## Whole packages -/

theorem wholeLoop_succ {bytes : List UInt8} : wholeLoop headerSize (n + 1) bytes =
    if bytes.length < headerSize ∨
      (bytes.drop headerSize).length < ofLeBytes (bytes.take headerSize).reverse then []
    else (bytes.drop headerSize).take (ofLeBytes (bytes.take headerSize).reverse) ::
      wholeLoop headerSize n
        ((bytes.drop headerSize).drop (ofLeBytes (bytes.take headerSize).reverse)) := rfl

theorem wholeLoop_cons (hsize : headerSize = 2 ∨ headerSize = 4)
    (hbody : body.length < limit headerSize) :
    wholeLoop headerSize (n + 1) (head headerSize body.length ++ (body ++ rest)) =
      body :: wholeLoop headerSize n rest := by
  have hlength : ofLeBytes (head headerSize body.length).reverse = body.length := by
    unfold head
    rw [List.reverse_reverse, ofLeBytes_leBytes_of_lt (hbody.trans_le (limit_le hsize))]
  rw [wholeLoop_succ, List.take_left' length_head, List.drop_left' length_head, hlength,
    List.take_left, List.drop_left, if_neg]
  rw [List.length_append, List.length_append, length_head]
  omega

theorem wholeLoop_stream (hsize : headerSize = 2 ∨ headerSize = 4)
    (hlimit : ∀ body ∈ done, body.length < limit headerSize) :
    wholeLoop headerSize (done.length + n) (stream headerSize done ++ rest) =
      done ++ wholeLoop headerSize n rest := by
  induction done with
  | nil =>
    rw [List.length_nil, Nat.zero_add]
    rfl
  | cons body done ih =>
    have hcons := List.forall_mem_cons.mp hlimit
    rw [stream_cons, List.append_assoc, List.append_assoc, List.length_cons, Nat.add_right_comm,
      wholeLoop_cons hsize hcons.1, ih hcons.2]
    rfl

/-- Each package has a byte at least. -/
theorem length_le_stream (hpos : 0 < headerSize) :
    done.length ≤ (stream headerSize done).length := by
  induction done with
  | nil => exact Nat.zero_le _
  | cons body done ih =>
    rw [stream_cons, List.length_append, List.length_append, length_head, List.length_cons]
    omega

theorem whole_stream (hsize : headerSize = 2 ∨ headerSize = 4)
    (hlimit : ∀ body ∈ done, body.length < limit headerSize) :
    ∃ n, whole headerSize (stream headerSize done ++ rest) =
      done ++ wholeLoop headerSize n rest := by
  have hle : done.length ≤ (stream headerSize done ++ rest).length := by
    rw [List.length_append]
    exact (length_le_stream (by omega)).trans (Nat.le_add_right _ _)
  obtain ⟨n, hn⟩ := Nat.exists_eq_add_of_le hle
  refine ⟨n, ?_⟩
  unfold whole
  rw [hn]
  exact wholeLoop_stream hsize hlimit

/-- What is less than the next package has no whole one. -/
theorem wholeLoop_short (hsize : headerSize = 2 ∨ headerSize = 4)
    (hlimit : ∀ body ∈ left, body.length < limit headerSize)
    (hrest : rest ++ later = stream headerSize left)
    (hshort : ∀ body ∈ left.head?, rest.length < (package headerSize body).length) :
    wholeLoop headerSize n rest = [] := by
  cases n with
  | zero => rfl
  | succ n =>
    rw [wholeLoop_succ, if_pos]
    by_contra hle
    cases left with
    | nil =>
      have hnil : rest = [] := (List.append_eq_nil_iff.mp hrest).1
      rw [hnil, List.length_nil] at hle
      omega
    | cons body left =>
      have hlt := hshort body rfl
      rw [package, List.length_append, length_head] at hlt
      rw [stream_cons] at hrest
      have htake : rest.take headerSize = head headerSize body.length := by
        have htake := congrArg (List.take headerSize) hrest
        rwa [List.take_append_of_le_length (by omega), List.take_left' length_head] at htake
      have hbody := (hlimit body List.mem_cons_self).trans_le (limit_le hsize)
      have hlength : ofLeBytes (rest.take headerSize).reverse = body.length := by
        rw [htake]
        unfold head
        rw [List.reverse_reverse, ofLeBytes_leBytes_of_lt hbody]
      rw [hlength, List.length_drop] at hle
      omega

/-- The packages that are done are those that are whole. -/
theorem Complete.whole (h : Complete headerSize packages received bodies)
    (hsize : headerSize = 2 ∨ headerSize = 4)
    (hstream : received ++ later = stream headerSize packages)
    (hlimit : ∀ body ∈ packages, body.length < limit headerSize) :
    bodies = nonempty (whole headerSize received) ∧
      stream headerSize (whole headerSize received) <+: received ∧
        ∀ body ∈ whole headerSize received, body.length < limit headerSize := by
  obtain ⟨done, left, rest, rfl, rfl, rfl, hshort⟩ := h
  have hdone := fun body hbody => hlimit body (List.mem_append_left left hbody)
  have hleft := fun body hbody => hlimit body (List.mem_append_right done hbody)
  rw [stream_append, List.append_assoc] at hstream
  obtain ⟨n, hwhole⟩ := @whole_stream _ _ rest hsize hdone
  rw [hwhole, wholeLoop_short hsize hleft (List.append_cancel_left hstream) hshort, List.append_nil]
  exact ⟨rfl, List.prefix_append _ _, hdone⟩

/-- The packages of a part of the bytes are whole. -/
theorem prefix_whole (hsize : headerSize = 2 ∨ headerSize = 4)
    (hlimit : ∀ body ∈ done, body.length < limit headerSize)
    (hpart : stream headerSize done <+: received) : done <+: whole headerSize received := by
  obtain ⟨rest, rfl⟩ := hpart
  obtain ⟨n, hwhole⟩ := @whole_stream _ _ rest hsize hlimit
  rw [hwhole]
  exact List.prefix_append _ _

theorem nonempty_mono {packages' : List (List UInt8)} (h : packages <+: packages') :
    nonempty packages <+: nonempty packages' := by
  obtain ⟨rest, rfl⟩ := h
  rw [nonempty_append]
  exact List.prefix_append _ _

/-! ## Every run -/

/-- A connection that sends packages has done those that are whole. -/
def Framed.Clean (headerSize : ℕ) (f : Framed) : Prop :=
  ∀ packages later, f.received ++ later = stream headerSize packages →
    (∀ body ∈ packages, body.length < limit headerSize) →
      f.Follows headerSize packages ∧ Waits headerSize f.header f.bytes

theorem Framed.Clean.sent (h : f.Clean headerSize) (hsize : headerSize = 2 ∨ headerSize = 4)
    (hstream : f.received ++ later = stream headerSize packages)
    (hlimit : ∀ body ∈ packages, body.length < limit headerSize) :
    f.sent.map Sent.body = nonempty (whole headerSize f.received) ∧
      stream headerSize (whole headerSize f.received) <+: f.received ∧
        ∀ body ∈ whole headerSize f.received, body.length < limit headerSize := by
  obtain ⟨hfollows, hwaits⟩ := h packages later hstream hlimit
  have hcomplete := ServiceGate.Follows.complete hfollows hsize hstream hlimit hwaits
  exact hcomplete.whole hsize hstream hlimit

/-- A block that makes no package whole leaves nothing to be forwarded. -/
theorem Framed.Clean.caught {data : List UInt8} (h : f.Clean headerSize)
    (hsize : headerSize = 2 ∨ headerSize = 4)
    (hstream : f.received ++ data ++ later = stream headerSize packages)
    (hlimit : ∀ body ∈ packages, body.length < limit headerSize)
    (hsame : nonempty (ServiceGate.whole headerSize (f.received ++ data)) =
      nonempty (ServiceGate.whole headerSize f.received)) :
    (f.receive data).Caught headerSize packages := by
  intro done left hsplit hpart
  rw [hsplit] at hlimit
  have hdone := fun body hbody => hlimit body (List.mem_append_left left hbody)
  have hle := (nonempty_mono (prefix_whole hsize hdone hpart)).length_le
  rw [← hsplit] at hlimit
  rw [List.append_assoc] at hstream
  have hsent := congrArg List.length (h.sent hsize hstream hlimit).1
  rw [List.length_map] at hsent
  show _ ≤ f.sent.length
  rw [hsent, ← hsame]
  exact hle

theorem Framed.Clean.drains {data : List UInt8} {f' : Framed}
    {receiver : Option (ℕ × ℕ × List UInt8)} (h : f.Clean headerSize)
    (hsize : headerSize = 2 ∨ headerSize = 4)
    (hcatch : receiver.isSome ∨ nonempty (ServiceGate.whole headerSize (f.received ++ data)) =
      nonempty (ServiceGate.whole headerSize f.received))
    (hdrains : (f.receive data).Drains headerSize receiver f') : f'.Clean headerSize := by
  intro packages later hstream hlimit
  have hreceived := Framed.received_steps hdrains.steps
  rw [hreceived] at hstream
  have hstream' : f.received ++ data ++ later = stream headerSize packages := hstream
  have hold : f.received ++ (data ++ later) = stream headerSize packages := by
    rw [← List.append_assoc]
    exact hstream'
  have hreceive : (f.receive data).Follows headerSize packages :=
    (h packages _ hold hlimit).1.receive data
  refine hreceive.drains hsize hstream hlimit (fun hnone => ?_) hdrains
  refine h.caught hsize hstream' hlimit (hcatch.resolve_left ?_)
  rw [hnone]
  exact Bool.false_ne_true

/-- What comes while there is a receiver is forwarded. -/
theorem Framed.Clean.forwards {data : List UInt8} {f' : Framed}
    {receiver : Option (ℕ × ℕ × List UInt8)} (h : f.Clean headerSize)
    (hsize : headerSize = 2 ∨ headerSize = 4) (hreceiver : receiver.isSome)
    (hdrains : (f.receive data).Drains headerSize receiver f')
    (hstream : f'.received ++ later = stream headerSize packages)
    (hlimit : ∀ body ∈ packages, body.length < limit headerSize) :
    f'.sent.map Sent.body = f.sent.map Sent.body ++
      (nonempty (ServiceGate.whole headerSize f'.received)).drop
        (nonempty (ServiceGate.whole headerSize f.received)).length := by
  have hafter := (h.drains hsize (.inl hreceiver) hdrains).sent hsize hstream hlimit
  have hreceived : f'.received = f.received ++ data := Framed.received_steps hdrains.steps
  have hold : f.received ++ (data ++ later) = stream headerSize packages := by
    rw [← List.append_assoc, ← hreceived]
    exact hstream
  obtain ⟨hbefore, hpart, hwhole⟩ := h.sent hsize hold hlimit
  -- the packages that were whole still are
  have hstill : stream headerSize (whole headerSize f.received) <+: f'.received :=
    hpart.trans (hreceived ▸ List.prefix_append _ _)
  have hgrow := nonempty_mono (prefix_whole hsize hwhole hstill)
  rw [hafter.1, hbefore]
  exact List.prefix_iff_eq_append.mp hgrow |>.symm

end

end SkynetEureka.ServiceGate
