import SkynetEureka.Cluster.Core

/-!
# Packets and frames

Every packet that is packed has the prefix of its length, and its frame unpacks to what was
packed. Unpacking a request reads inside of the frame, whatever the frame is, unless it is empty
(`unpackrequest_safe`).
-/

namespace SkynetEureka.Cluster

open Lib

variable {buf mid : List UInt8} {offset : ℕ}

/-! ## Reads -/

theorem bytesAt_of_append (pre post : List UInt8) {sz : ℤ} (h : buf = pre ++ mid ++ post)
    (hoffset : pre.length = offset) (hsz : (mid.length : ℤ) = sz) :
    bytesAt buf offset sz = .ok mid := by
  subst h hoffset hsz
  have hin : (0 : ℤ) ≤ mid.length ∧
      (pre.length : ℤ) + mid.length ≤ ((pre ++ mid ++ post).length : ℕ) := by
    simp only [List.length_append]
    omega
  rw [bytesAt, if_pos hin, List.append_assoc, List.drop_left, Int.toNat_natCast, List.take_left]

theorem byteAt_of_append (pre : List UInt8) {post : List UInt8} {b : UInt8}
    (h : buf = pre ++ b :: post) (hoffset : pre.length = offset) : byteAt buf offset = .ok b := by
  subst h hoffset
  rw [byteAt, List.getElem?_append_right le_rfl, Nat.sub_self]
  rfl

theorem unpackUint32_of_append (pre post : List UInt8) {n : ℕ}
    (h : buf = pre ++ fillUint32 n ++ post) (hoffset : pre.length = offset) (hn : n < 2 ^ 32) :
    unpackUint32 buf offset = .ok n := by
  rw [unpackUint32, bytesAt_of_append _ _ h hoffset (by rw [fillUint32, length_leBytes]; rfl),
    except_ok_bind, fillUint32, ofLeBytes_leBytes_of_lt hn]
  rfl

/-- A read inside of the frame. -/
theorem bytesAt_ne_outOfBounds (buf : List UInt8) (offset : ℕ) (sz : ℤ) (h : 0 ≤ sz)
    (hle : offset + sz ≤ buf.length) : ∃ bytes, bytesAt buf offset sz = .ok bytes := by
  rw [bytesAt, if_pos ⟨h, hle⟩]
  exact ⟨_, rfl⟩

theorem byteAt_ne_outOfBounds (buf : List UInt8) (offset : ℕ) (h : offset < buf.length) :
    ∃ b, byteAt buf offset = .ok b := by
  rw [byteAt, List.getElem?_eq_getElem h]
  exact ⟨_, rfl⟩

theorem unpackUint32_ne_outOfBounds (buf : List UInt8) (offset : ℕ) (h : offset + 4 ≤ buf.length) :
    ∃ n, unpackUint32 buf offset = .ok n := by
  obtain ⟨bytes, hbytes⟩ := bytesAt_ne_outOfBounds buf offset 4 (by decide) (by omega)
  rw [unpackUint32, hbytes]
  exact ⟨_, rfl⟩

/-! ## Safety -/

theorem unpackreqNumber_safe : unpackreqNumber buf ≠ .error .outOfBounds := by
  unfold unpackreqNumber
  split_ifs with hshort
  · simp
  obtain ⟨address, haddress⟩ := unpackUint32_ne_outOfBounds buf 1 (by omega)
  obtain ⟨session, hsession⟩ := unpackUint32_ne_outOfBounds buf 5 (by omega)
  obtain ⟨msg, hmsg⟩ := bytesAt_ne_outOfBounds buf 9 ((buf.length : ℤ) - 9) (by omega) (by omega)
  rw [haddress, hsession, hmsg]
  exact nofun

theorem unpackmreqNumber_safe (isPush : Bool) :
    unpackmreqNumber buf isPush ≠ .error .outOfBounds := by
  unfold unpackmreqNumber
  split_ifs with hsize
  · simp
  obtain ⟨address, haddress⟩ := unpackUint32_ne_outOfBounds buf 1 (by omega)
  obtain ⟨session, hsession⟩ := unpackUint32_ne_outOfBounds buf 5 (by omega)
  obtain ⟨size, hsz⟩ := unpackUint32_ne_outOfBounds buf 9 (by omega)
  rw [haddress, hsession, hsz]
  exact nofun

theorem unpackmreqPart_safe : unpackmreqPart buf ≠ .error .outOfBounds := by
  unfold unpackmreqPart
  split_ifs with hshort
  · simp
  obtain ⟨type, htype⟩ := byteAt_ne_outOfBounds buf 0 (by omega)
  obtain ⟨session, hsession⟩ := unpackUint32_ne_outOfBounds buf 1 (by omega)
  obtain ⟨msg, hmsg⟩ := bytesAt_ne_outOfBounds buf 5 ((buf.length : ℤ) - 5) (by omega) (by omega)
  rw [htype, hsession, hmsg]
  exact nofun

theorem unpacktrace_safe (h : 1 ≤ buf.length) : unpacktrace buf ≠ .error .outOfBounds := by
  unfold unpacktrace
  obtain ⟨tag, htag⟩ := bytesAt_ne_outOfBounds buf 1 ((buf.length : ℤ) - 1) (by omega) (by omega)
  rw [htag]
  exact nofun

theorem unpackreqString_safe : unpackreqString buf ≠ .error .outOfBounds := by
  unfold unpackreqString
  split_ifs with hshort
  · simp
  obtain ⟨b, hb⟩ := byteAt_ne_outOfBounds buf 1 (by omega)
  rw [hb, except_ok_bind]
  generalize b.toNat = namesz
  show (if buf.length < namesz + 6 then _ else _) ≠ Except.error UnpackError.outOfBounds
  split_ifs with hname
  · exact nofun
  obtain ⟨name, hn⟩ := bytesAt_ne_outOfBounds buf 2 namesz
    (by omega) (by omega)
  obtain ⟨session, hsession⟩ := unpackUint32_ne_outOfBounds buf (namesz + 2)
    (by omega)
  obtain ⟨msg, hmsg⟩ := bytesAt_ne_outOfBounds buf (2 + namesz + 4)
    ((buf.length : ℤ) - namesz - 6) (by omega) (by push_cast; omega)
  rw [hn, hsession, hmsg]
  exact nofun

theorem unpackmreqString_safe (isPush : Bool) :
    unpackmreqString buf isPush ≠ .error .outOfBounds := by
  unfold unpackmreqString
  split_ifs with hshort
  · simp
  obtain ⟨b, hb⟩ := byteAt_ne_outOfBounds buf 1 (by omega)
  rw [hb, except_ok_bind]
  generalize b.toNat = namesz
  show (if buf.length < namesz + 10 then _ else _) ≠ Except.error UnpackError.outOfBounds
  split_ifs with hname
  · exact nofun
  obtain ⟨name, hn⟩ := bytesAt_ne_outOfBounds buf 2 namesz
    (by omega) (by omega)
  obtain ⟨session, hsession⟩ := unpackUint32_ne_outOfBounds buf (namesz + 2)
    (by omega)
  obtain ⟨size, hsz⟩ := unpackUint32_ne_outOfBounds buf (namesz + 6) (by omega)
  rw [hn, hsession, hsz]
  exact nofun

/-- **Parsing a request stays inside of the frame**, with values or an error raised, exactly when
there is a byte for the kind of the packet. -/
theorem unpackrequest_safe (frame : List UInt8) :
    lunpackrequest frame ≠ .error .outOfBounds ↔ frame ≠ [] := by
  constructor
  · rintro h rfl
    exact h rfl
  · intro h
    have hpos : 1 ≤ frame.length := List.length_pos_of_ne_nil h
    obtain ⟨type, htype⟩ := byteAt_ne_outOfBounds frame 0 (by omega)
    rw [lunpackrequest, htype, except_ok_bind]
    split_ifs
    · exact unpackreqNumber_safe
    · exact unpackmreqNumber_safe false
    · exact unpackmreqNumber_safe true
    · exact unpackmreqPart_safe
    · exact unpacktrace_safe hpos
    · exact unpackreqString_safe
    · exact unpackmreqString_safe false
    · exact unpackmreqString_safe true
    · exact nofun

/-- An empty frame: the kind is read behind its end. -/
theorem empty_frame_read : lunpackrequest [] = .error .outOfBounds := rfl

/-! ## Packets -/

/-- The big-endian prefix of a packet. -/
def sizePrefix (p : Packet) : ℕ := (p.getD 0 0).toNat * 256 + (p.getD 1 0).toNat

/-- The prefix is the number of bytes behind it, and fits its two bytes. -/
def Prefixed (p : Packet) : Prop :=
  2 ≤ p.length ∧ sizePrefix p = p.length - 2 ∧ sizePrefix p ≤ 0xffff

theorem packet_eq {sz : ℕ} {frame : List UInt8} (hsz : frame.length = sz)
    (hle : sz + 2 ≤ tempLength) :
    ∃ p, packet sz frame = .ok p ∧ p.drop 2 = frame ∧ Prefixed p := by
  have hlt : sz < 0x10000 := by
    unfold tempLength at hle
    omega
  refine ⟨UInt8.ofNat (sz >>> 8) :: UInt8.ofNat sz :: frame, ?_, rfl, ?_⟩
  · rw [packet, fillHeader, if_pos hlt, except_ok_bind, if_neg (by simp; omega)]
    rfl
  · have hpre : sizePrefix (UInt8.ofNat (sz >>> 8) :: UInt8.ofNat sz :: frame) = sz := by
      show (UInt8.ofNat (sz >>> 8)).toNat * 256 + (UInt8.ofNat sz).toNat = sz
      rw [UInt8.toNat_ofNat', UInt8.toNat_ofNat', Nat.shiftRight_eq_div_pow]
      omega
    refine ⟨by simp, ?_, by omega⟩
    rw [hpre, List.length_cons, List.length_cons, hsz]
    omega

theorem parts_of_le {sz : ℕ} (hle : sz ≤ multiPart) : parts sz = 1 := by
  unfold multiPart at hle
  rw [parts, multiPart, Nat.div_eq_of_lt (by omega)]

theorem parts_of_lt {sz : ℕ} (hlt : multiPart < sz) : parts sz = parts (sz - multiPart) + 1 := by
  have hone : sz - 1 = sz - multiPart - 1 + multiPart := by
    unfold multiPart at hlt ⊢
    omega
  rw [parts, parts, hone, Nat.add_div_right _ (by decide)]

/-- Every part is packed, into a packet for which `P` holds. -/
def Packs (pack : Bool → List UInt8 → Except PackError Packet)
    (P : Bool → List UInt8 → Packet → Prop) : Prop :=
  ∀ last s, s.length ≤ multiPart → ∃ p, pack last s = .ok p ∧ Prefixed p ∧ P last s p

section Parts

variable {pack : Bool → List UInt8 → Except PackError Packet}
  {P : Bool → List UInt8 → Packet → Prop} {msg : List UInt8} {p : Packet} {ps : List Packet}

/-- The last part of a message. -/
theorem partLoop_last (h : Packs pack P) (hle : msg.length ≤ multiPart) :
    ∃ p, partLoop pack (parts msg.length) msg = .ok [p] ∧ Prefixed p ∧ P true msg p := by
  obtain ⟨p, hp, hpre, hP⟩ := h true msg hle
  refine ⟨p, ?_, hpre, hP⟩
  rw [parts_of_le hle, partLoop]
  simp only [hle, decide_true, List.take_of_length_le hle, hp]
  rfl

/-- A part that is not the last. -/
theorem partLoop_more (h : Packs pack P) (hlt : multiPart < msg.length)
    (hps : partLoop pack (parts (msg.drop multiPart).length) (msg.drop multiPart) = .ok ps) :
    ∃ p, partLoop pack (parts msg.length) msg = .ok (p :: ps) ∧ Prefixed p ∧
      P false (msg.take multiPart) p := by
  obtain ⟨p, hp, hpre, hP⟩ := h false (msg.take multiPart) (List.length_take_le _ _)
  refine ⟨p, ?_, hpre, hP⟩
  rw [List.length_drop] at hps
  rw [parts_of_lt hlt, partLoop]
  simp only [decide_eq_false (not_le.mpr hlt), hp, except_ok_bind, hps]
  rfl

/-- Every message can be cut into parts. -/
theorem partLoop_ok (h : Packs pack P) (msg : List UInt8) :
    ∃ ps, partLoop pack (parts msg.length) msg = .ok ps ∧ ps ≠ [] ∧ ∀ p ∈ ps, Prefixed p := by
  induction hn : msg.length using Nat.strong_induction_on generalizing msg with
  | _ n ih =>
    rw [← hn]
    by_cases hle : msg.length ≤ multiPart
    · obtain ⟨p, hp, hpre, -⟩ := partLoop_last h hle
      exact ⟨[p], hp, by simp, by simpa using hpre⟩
    · have hshort : (msg.drop multiPart).length < n := by
        rw [List.length_drop, ← hn]
        unfold multiPart at hle ⊢
        omega
      obtain ⟨ps, hps, -, hall⟩ := ih _ hshort _ rfl
      obtain ⟨p, hp, hpre, -⟩ := partLoop_more h (not_le.mp hle) hps
      exact ⟨p :: ps, hp, by simp, List.forall_mem_cons.mpr ⟨hpre, hall⟩⟩

theorem ok_cons_inj {p' : Packet} {ps' : List Packet}
    (h : (.ok (p :: ps) : Except PackError (List Packet)) = .ok (p' :: ps')) :
    p = p' ∧ ps = ps' := by
  injection h with h
  exact List.cons.inj h

/-- The first of the parts is the last one, or the others are those of the rest. -/
theorem partLoop_cases (h : Packs pack P)
    (hps : partLoop pack (parts msg.length) msg = .ok (p :: ps)) :
    (ps = [] ∧ P true msg p) ∨
    (ps ≠ [] ∧ P false (msg.take multiPart) p ∧ multiPart < msg.length ∧
      partLoop pack (parts (msg.drop multiPart).length) (msg.drop multiPart) = .ok ps) := by
  by_cases hle : msg.length ≤ multiPart
  · obtain ⟨p', hp', -, hP⟩ := partLoop_last h hle
    obtain ⟨rfl, rfl⟩ := ok_cons_inj (hp'.symm.trans hps)
    exact .inl ⟨rfl, hP⟩
  · have hlt := not_le.mp hle
    obtain ⟨ps', hps', hne, -⟩ := partLoop_ok h (msg.drop multiPart)
    obtain ⟨p', hp', -, hP⟩ := partLoop_more h hlt hps'
    obtain ⟨rfl, rfl⟩ := ok_cons_inj (hp'.symm.trans hps)
    exact .inr ⟨hne, hP, hlt, hps'⟩

end Parts

/-! ## Parts of requests -/

theorem length_fillUint32 (n : ℕ) : (fillUint32 n).length = 4 := length_leBytes 4 n

/-- A part unpacks to its bytes. -/
theorem unpackrequest_part {session : ℕ} {msg : List UInt8} (last : Bool)
    (hsession : session < 2 ^ 32) :
    lunpackrequest ((if last then 3 else 2) :: fillUint32 session ++ msg) =
      .ok ⟨none, some session, some msg, msg.length, !last, false⟩ := by
  have hlen : ((if last then 3 else 2 : UInt8) :: fillUint32 session ++ msg).length =
      5 + msg.length := by
    simp only [List.length_append, List.length_cons, length_fillUint32]
  generalize hbuf : ((if last then 3 else 2 : UInt8) :: fillUint32 session ++ msg) = buf at hlen
  have htype : byteAt buf 0 = .ok (if last then 3 else 2) :=
    byteAt_of_append [] hbuf.symm rfl
  have hread : unpackUint32 buf 1 = .ok session :=
    unpackUint32_of_append [if last then 3 else 2] _ hbuf.symm rfl hsession
  have hmsg : bytesAt buf 5 ((buf.length : ℤ) - 5) = .ok msg := by
    refine bytesAt_of_append ((if last then 3 else 2) :: fillUint32 session) []
      ?_ ?_ (by omega)
    · rw [List.append_nil, hbuf]
    · rw [List.length_cons, length_fillUint32]
  rw [lunpackrequest, htype, except_ok_bind]
  cases last with
  | true =>
    show unpackmreqPart buf = _
    rw [unpackmreqPart, if_neg (by omega), htype, hread, hmsg]
    rfl
  | false =>
    show unpackmreqPart buf = _
    rw [unpackmreqPart, if_neg (by omega), htype, hread, hmsg]
    rfl

/-- Every part of a request is packed into a packet that unpacks to it. -/
theorem packs_request {session : ℕ} (hsession : session < 2 ^ 32) :
    Packs (fun last s => packet (s.length + 5) ((if last then 3 else 2) :: fillUint32 session ++ s))
      fun last s p =>
        lunpackrequest (p.drop 2) = .ok ⟨none, some session, some s, s.length, !last, false⟩ := by
  intro last s hle
  have hlen : ((if last then 3 else 2 : UInt8) :: fillUint32 session ++ s).length =
      s.length + 5 := by
    simp only [List.length_append, List.length_cons, length_fillUint32]
    omega
  obtain ⟨p, hp, hframe, hpre⟩ := packet_eq hlen (by
    unfold multiPart at hle
    unfold tempLength
    omega)
  refine ⟨p, hp, hpre, ?_⟩
  show lunpackrequest (p.drop 2) = _
  rw [hframe]
  exact unpackrequest_part last hsession

/-! ## Concatenation -/

theorem concatLoop_bytes {sz : ℕ} (buff : List UInt8) (chunks : List (List UInt8))
    (h : buff.length + chunks.flatten.length ≤ sz) :
    concatLoop sz buff (chunks.map .bytes) = some (buff ++ chunks.flatten) := by
  induction chunks generalizing buff with
  | nil => simp [concatLoop]
  | cons s chunks ih =>
    rw [List.flatten_cons, List.length_append] at h
    rw [List.map_cons, concatLoop, if_neg (by omega),
      ih _ (by rw [List.length_append]; omega), List.flatten_cons, List.append_assoc]

/-- The parts of a message are put together. -/
theorem lconcat_bytes (chunks : List (List UInt8)) :
    lconcat (.size chunks.flatten.length :: chunks.map .bytes) = some chunks.flatten := by
  rw [lconcat, concatLoop_bytes [] chunks (by simp), List.nil_append, Option.filter_some]
  simp

end SkynetEureka.Cluster
