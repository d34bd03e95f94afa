import SkynetEureka.ServiceGate.Framed
import SkynetEureka.ServiceGate.Packages

/-!
# A block is dispatched

Whatever a client has sent, `dispatch_message` comes to its end, and the other buffers are not
touched. When the client has sent packages, and there is a receiver for those that are complete, the
connection goes on to follow them, and at the end it waits for more bytes.
-/

namespace SkynetEureka.ServiceGate

open Lib Function Relation

/-- What the connection has done with its bytes -/
def Connection.Follows (headerSize : ℕ) (packages : List (List UInt8)) (c : Connection)
    (bytes : List UInt8) : Prop :=
  ServiceGate.Follows headerSize packages c.received (c.sent.map Sent.body) c.buffer.header bytes

namespace Framed

/-- What the connection has done with its bytes -/
def Follows (headerSize : ℕ) (packages : List (List UInt8)) (f : Framed) : Prop :=
  ServiceGate.Follows headerSize packages f.received (f.sent.map Sent.body) f.header f.bytes

/-- Each package that has come and is not empty has been forwarded. -/
def Caught (headerSize : ℕ) (packages : List (List UInt8)) (f : Framed) : Prop :=
  ∀ done left, packages = done ++ left → stream headerSize done <+: f.received →
    (nonempty done).length ≤ f.sent.length

variable {headerSize : ℕ} {receiver : Option (ℕ × ℕ × List UInt8)} {f f' : Framed}
  {packages : List (List UInt8)} {later : List UInt8}

/-- A step reads a header, drops all that is there, or forwards a body. -/
theorem next_cases (h : f.Next headerSize receiver f') :
    (f.header = 0 ∧ headerSize ≤ f.bytes.length ∧
      f' = { f with
        header := Databuffer.readLength headerSize (f.bytes.take headerSize)
        bytes := f.bytes.drop headerSize }) ∨
    (0x1000000 ≤ f.header ∧ f.header ≤ f.bytes.length ∧
      f' = { f with header := 0, bytes := [], closes := f.closes + 1 }) ∨
    (0 < f.header ∧ f.header < 0x1000000 ∧ f.header ≤ f.bytes.length ∧
      f' = f.forward receiver) := by
  unfold Next next at h
  by_cases hzero : f.header = 0
  · rw [if_pos hzero] at h
    by_cases hlt : f.bytes.length < headerSize
    · rw [if_pos hlt] at h
      cases h
    · rw [if_neg hlt] at h
      exact .inl ⟨hzero, not_lt.mp hlt, (Option.some.inj h).symm⟩
  · rw [if_neg hzero] at h
    by_cases hwait : f.header < 0 ∨ (f.bytes.length : ℤ) < f.header
    · rw [if_pos hwait] at h
      cases h
    · rw [if_neg hwait] at h
      by_cases hbig : 0x1000000 ≤ f.header
      · rw [if_pos hbig] at h
        exact .inr (.inl ⟨hbig, by omega, (Option.some.inj h).symm⟩)
      · rw [if_neg hbig] at h
        exact .inr (.inr ⟨by omega, by omega, by omega, (Option.some.inj h).symm⟩)

/-- A connection that does nothing waits for a header, or for a body. -/
theorem waits_of_next (h : f.next headerSize receiver = none) (hnonneg : 0 ≤ f.header) :
    Waits headerSize f.header f.bytes := by
  unfold next at h
  unfold Waits
  by_cases hzero : f.header = 0
  · rw [if_pos hzero] at h ⊢
    by_contra hlt
    rw [if_neg hlt] at h
    cases h
  · rw [if_neg hzero] at h ⊢
    by_contra hlt
    rw [if_neg (by omega)] at h
    split at h <;> cases h

theorem limit_le_max : limit headerSize ≤ 0x1000000 := by
  unfold limit
  split <;> decide

theorem received_forward : (f.forward receiver).received = f.received := by
  unfold forward
  split <;> rfl

theorem received_next (h : f.Next headerSize receiver f') : f'.received = f.received := by
  rcases next_cases h with ⟨-, -, rfl⟩ | ⟨-, -, rfl⟩ | ⟨-, -, -, rfl⟩
  · rfl
  · rfl
  · exact received_forward

theorem received_steps (h : ReflTransGen (Next headerSize receiver) f f') :
    f'.received = f.received := by
  induction h with
  | refl => rfl
  | tail _ hnext ih => exact (received_next hnext).trans ih

theorem sent_next (h : f.Next headerSize receiver f') : f.sent.length ≤ f'.sent.length := by
  rcases next_cases h with ⟨-, -, rfl⟩ | ⟨-, -, rfl⟩ | ⟨-, -, -, rfl⟩
  · exact le_rfl
  · exact le_rfl
  · unfold forward
    split
    · exact le_rfl
    · show f.sent.length ≤ (f.sent ++ [_]).length
      rw [List.length_append]
      exact Nat.le_add_right _ _

theorem Caught.next (h : f.Caught headerSize packages) (hnext : f.Next headerSize receiver f') :
    f'.Caught headerSize packages := by
  intro done left hsplit hpart
  rw [received_next hnext] at hpart
  exact (h done left hsplit hpart).trans (sent_next hnext)

/-- The next package is there as a whole, so there is somebody to whom it can be forwarded. -/
theorem Follows.receiver_ne_none (h : f.Follows headerSize packages)
    (hsize : headerSize = 2 ∨ headerSize = 4)
    (hstream : f.received ++ later = stream headerSize packages)
    (hlimit : ∀ body ∈ packages, body.length < limit headerSize)
    (hcaught : receiver = none → f.Caught headerSize packages)
    (hpos : 0 < f.header) (hle : f.header ≤ f.bytes.length) : receiver ≠ none := by
  intro hnone
  -- what would have been forwarded is one more than what has been
  obtain ⟨done, left, hsplit, hreceived, hsent⟩ :=
    (ServiceGate.Follows.readBody h hsize hstream hlimit hpos hle).split
  have hpart : stream headerSize done <+: f.received := by
    rw [hreceived, List.append_assoc]
    exact List.prefix_append _ _
  have hcount := hcaught hnone done left hsplit hpart
  rw [← hsent, List.length_append, List.length_map, List.length_singleton] at hcount
  omega

theorem Follows.next (h : f.Follows headerSize packages) (hsize : headerSize = 2 ∨ headerSize = 4)
    (hstream : f.received ++ later = stream headerSize packages)
    (hlimit : ∀ body ∈ packages, body.length < limit headerSize)
    (hcaught : receiver = none → f.Caught headerSize packages)
    (hnext : f.Next headerSize receiver f') : f'.Follows headerSize packages := by
  rcases next_cases hnext with ⟨hzero, hle, rfl⟩ | ⟨hbig, -, -⟩ | ⟨hpos, -, hle, rfl⟩
  · unfold Follows at h
    rw [hzero] at h
    exact h.readHeader hsize hstream hlimit hle
  · -- no package is that long
    have hlt := h.lt
    have hmax : limit headerSize ≤ 0x1000000 := limit_le_max
    omega
  · obtain ⟨r, hreceiver⟩ := Option.ne_none_iff_exists'.mp
      (h.receiver_ne_none hsize hstream hlimit hcaught hpos hle)
    have hbody := ServiceGate.Follows.readBody h hsize hstream hlimit hpos hle
    rw [hreceiver]
    unfold Follows forward
    dsimp only
    rw [List.map_append]
    exact hbody

theorem Follows.steps (h : f.Follows headerSize packages)
    (hsize : headerSize = 2 ∨ headerSize = 4)
    (hstream : f.received ++ later = stream headerSize packages)
    (hlimit : ∀ body ∈ packages, body.length < limit headerSize)
    (hcaught : receiver = none → f.Caught headerSize packages)
    (hsteps : ReflTransGen (Next headerSize receiver) f f') :
    f'.Follows headerSize packages ∧ f'.received = f.received ∧
      (receiver = none → f'.Caught headerSize packages) := by
  induction hsteps with
  | refl => exact ⟨h, rfl, hcaught⟩
  | tail _ hnext ih =>
    obtain ⟨hfollows, hreceived, hcaught'⟩ := ih
    refine ⟨?_, (received_next hnext).trans hreceived, fun hnone => (hcaught' hnone).next hnext⟩
    exact hfollows.next hsize (hreceived ▸ hstream) hlimit hcaught' hnext

/-- The whole loop -/
theorem Follows.drains (h : f.Follows headerSize packages)
    (hsize : headerSize = 2 ∨ headerSize = 4)
    (hstream : f.received ++ later = stream headerSize packages)
    (hlimit : ∀ body ∈ packages, body.length < limit headerSize)
    (hcaught : receiver = none → f.Caught headerSize packages)
    (hdrains : f.Drains headerSize receiver f') :
    f'.Follows headerSize packages ∧ Waits headerSize f'.header f'.bytes := by
  have hfollows := (h.steps hsize hstream hlimit hcaught hdrains.steps).1
  exact ⟨hfollows, waits_of_next hdrains.waits hfollows.nonneg⟩

end Framed

/-- A block has been put into the buffer, and what it completes has been forwarded. -/
theorem dispatchMessage_spec {g : Gate} {nodes : ℕ → List ℕ} {id : ℕ} {c : Connection}
    {bytes data : List UInt8} (hsize : g.headerSize = 2 ∨ g.headerSize = 4)
    (hholds : Holds g.mp nodes id c.buffer bytes) (hne : data ≠ []) :
    ∃ mem' c', g.dispatchMessage id c data = some (c', mem') ∧
      (∃ bytes', Holds mem' nodes id c'.buffer bytes' ∧ ∀ packages later, c'.served →
        c'.received ++ later = stream g.headerSize packages →
          (∀ body ∈ packages, body.length < limit g.headerSize) →
            c.Follows g.headerSize packages bytes →
              c'.Follows g.headerSize packages bytes' ∧
                Waits g.headerSize c'.buffer.header bytes') ∧
      Frame g.mp mem' nodes id ∧ c'.received = c.received ++ data ∧
        c'.served = (c.served && (g.receiver id c).isSome) := by
  obtain ⟨mem', c', bytes', hdispatch, hholds', hdrains, hframe, hreceived, hserved⟩ :=
    dispatchMessage_framed (by omega) hholds hne
  refine ⟨mem', c', hdispatch, ⟨bytes', hholds', ?_⟩, hframe, hreceived, hserved⟩
  intro packages later hserved' hstream hlimit hc
  rw [hserved, Bool.and_eq_true] at hserved'
  rw [hreceived] at hstream
  have hreceive : ((c.framed bytes).receive data).Follows g.headerSize packages := hc.receive data
  have hsome := Option.isSome_iff_ne_none.mp hserved'.2
  exact hreceive.drains hsize hstream hlimit (fun hnone => (hsome hnone).elim) hdrains

end SkynetEureka.ServiceGate
