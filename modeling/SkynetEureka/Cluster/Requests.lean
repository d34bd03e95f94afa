import SkynetEureka.Cluster.Agent

/-!
# Requests through one connection

Each packet unpacks to the values it was packed from; the parts of a request meet in its entry of
`large_request`, whatever other packets come between (`Entry`), and its last packet dispatches
it.
-/

namespace SkynetEureka.Cluster

open Lib Function

/-! ## The first packet -/

theorem unpackrequest_number {n w : ℕ} (hn : n < 2 ^ 32) (hw : w < 2 ^ 32) (msg : List UInt8) :
    lunpackrequest (0 :: fillUint32 n ++ fillUint32 w ++ msg) =
      .ok ⟨some (.number n), some w, some msg, msg.length, false, w = 0⟩ := by
  have hlen : ((0 : UInt8) :: fillUint32 n ++ fillUint32 w ++ msg).length = 9 + msg.length := by
    simp only [List.length_append, List.length_cons, length_fillUint32]
  generalize hbuf : (0 : UInt8) :: fillUint32 n ++ fillUint32 w ++ msg = buf at hlen
  have htype : byteAt buf 0 = .ok 0 := byteAt_of_append [] hbuf.symm rfl
  have haddr : unpackUint32 buf 1 = .ok n := by
    refine unpackUint32_of_append [0] (fillUint32 w ++ msg) ?_ rfl hn
    rw [← hbuf, List.append_assoc]
    rfl
  have hsession : unpackUint32 buf 5 = .ok w := by
    refine unpackUint32_of_append (0 :: fillUint32 n) _ hbuf.symm ?_ hw
    rw [List.length_cons, length_fillUint32]
  have hmsg : bytesAt buf 9 ((buf.length : ℤ) - 9) = .ok msg := by
    refine bytesAt_of_append (0 :: fillUint32 n ++ fillUint32 w) [] ?_ ?_
      (by omega)
    · rw [List.append_nil, hbuf]
    · simp only [List.length_append, List.length_cons, length_fillUint32]
  rw [lunpackrequest, htype, except_ok_bind]
  show unpackreqNumber buf = _
  rw [unpackreqNumber, if_neg (by omega), haddr, hsession, hmsg]
  rfl

theorem unpackrequest_multiNumber {n session size : ℕ} (hn : n < 2 ^ 32)
    (hsession : session < 2 ^ 32) (hsize : size < 2 ^ 32) (isPush : Bool) :
    lunpackrequest ((if isPush then 0x41 else 1) ::
        fillUint32 n ++ fillUint32 session ++ fillUint32 size) =
      .ok ⟨some (.number n), some session, none, size, true, isPush⟩ := by
  have hlen : ((if isPush then 0x41 else 1 : UInt8) ::
      fillUint32 n ++ fillUint32 session ++ fillUint32 size).length = 13 := by
    simp only [List.length_append, List.length_cons, length_fillUint32]
  generalize hbuf : (if isPush then 0x41 else 1 : UInt8) ::
    fillUint32 n ++ fillUint32 session ++ fillUint32 size = buf at hlen
  have htype : byteAt buf 0 = .ok (if isPush then 0x41 else 1) :=
    byteAt_of_append [] hbuf.symm rfl
  have haddr : unpackUint32 buf 1 = .ok n := by
    refine unpackUint32_of_append [if isPush then 0x41 else 1]
      (fillUint32 session ++ fillUint32 size) ?_ rfl hn
    rw [← hbuf, List.append_assoc]
    rfl
  have hread : unpackUint32 buf 5 = .ok session := by
    refine unpackUint32_of_append ((if isPush then 0x41 else 1) :: fillUint32 n) _
      hbuf.symm ?_ hsession
    rw [List.length_cons, length_fillUint32]
  have hsz : unpackUint32 buf 9 = .ok size := by
    refine unpackUint32_of_append
      ((if isPush then 0x41 else 1) :: fillUint32 n ++ fillUint32 session) [] ?_ ?_ hsize
    · rw [List.append_nil, hbuf]
    · simp only [List.length_append, List.length_cons, length_fillUint32]
  rw [lunpackrequest, htype, except_ok_bind]
  cases isPush with
  | true =>
    show unpackmreqNumber buf true = _
    rw [unpackmreqNumber, if_neg (by omega), haddr, hread, hsz]
    rfl
  | false =>
    show unpackmreqNumber buf false = _
    rw [unpackmreqNumber, if_neg (by omega), haddr, hread, hsz]
    rfl

theorem unpackrequest_string {name : List UInt8} {w : ℕ} (hname : name.length ≤ 255)
    (hw : w < 2 ^ 32) (msg : List UInt8) :
    lunpackrequest (0x80 :: UInt8.ofNat name.length :: name ++ fillUint32 w ++ msg) =
      .ok ⟨some (.name name), some w, some msg, msg.length, false, w = 0⟩ := by
  have hlen : ((0x80 : UInt8) :: UInt8.ofNat name.length :: name ++ fillUint32 w ++ msg).length =
      name.length + 6 + msg.length := by
    simp only [List.length_append, List.length_cons, length_fillUint32]
  have hsz : (UInt8.ofNat name.length).toNat = name.length := by
    rw [UInt8.toNat_ofNat', Nat.mod_eq_of_lt (by omega)]
  generalize hbuf : (0x80 : UInt8) :: UInt8.ofNat name.length :: name ++ fillUint32 w ++ msg = buf
    at hlen
  have htype : byteAt buf 0 = .ok 0x80 := byteAt_of_append [] hbuf.symm rfl
  have hnamesz : byteAt buf 1 = .ok (UInt8.ofNat name.length) :=
    byteAt_of_append [0x80] hbuf.symm rfl
  have hbytes : bytesAt buf 2 name.length = .ok name := by
    refine bytesAt_of_append [0x80, UInt8.ofNat name.length] (fillUint32 w ++ msg) ?_ rfl rfl
    rw [← hbuf, List.append_assoc]
    rfl
  have hsession : unpackUint32 buf (name.length + 2) = .ok w := by
    refine unpackUint32_of_append (0x80 :: UInt8.ofNat name.length :: name) _
      hbuf.symm ?_ hw
    rw [List.length_cons, List.length_cons]
  have hmsg : bytesAt buf (2 + name.length + 4) ((buf.length : ℤ) - name.length - 6) =
      .ok msg := by
    refine bytesAt_of_append (0x80 :: UInt8.ofNat name.length :: name ++ fillUint32 w) [] ?_ ?_
      (by omega)
    · rw [List.append_nil, hbuf]
    · simp only [List.length_append, List.length_cons, length_fillUint32]
      omega
  rw [lunpackrequest, htype, except_ok_bind]
  show unpackreqString buf = _
  rw [unpackreqString, if_neg (by omega), hnamesz, except_ok_bind]
  simp only [hsz]
  rw [if_neg (by omega), hbytes, hsession, hmsg]
  rfl

theorem unpackrequest_multiString {name : List UInt8} {session size : ℕ}
    (hname : name.length ≤ 255) (hsession : session < 2 ^ 32) (hsize : size < 2 ^ 32)
    (isPush : Bool) :
    lunpackrequest ((if isPush then 0xc1 else 0x81) :: UInt8.ofNat name.length ::
        name ++ fillUint32 session ++ fillUint32 size) =
      .ok ⟨some (.name name), some session, none, size, true, isPush⟩ := by
  have hlen : ((if isPush then 0xc1 else 0x81 : UInt8) :: UInt8.ofNat name.length ::
      name ++ fillUint32 session ++ fillUint32 size).length = name.length + 10 := by
    simp only [List.length_append, List.length_cons, length_fillUint32]
  have hsz : (UInt8.ofNat name.length).toNat = name.length := by
    rw [UInt8.toNat_ofNat', Nat.mod_eq_of_lt (by omega)]
  generalize hbuf : (if isPush then 0xc1 else 0x81 : UInt8) :: UInt8.ofNat name.length ::
    name ++ fillUint32 session ++ fillUint32 size = buf at hlen
  have htype : byteAt buf 0 = .ok (if isPush then 0xc1 else 0x81) :=
    byteAt_of_append [] hbuf.symm rfl
  have hnamesz : byteAt buf 1 = .ok (UInt8.ofNat name.length) :=
    byteAt_of_append [if isPush then 0xc1 else 0x81] hbuf.symm rfl
  have hbytes : bytesAt buf 2 name.length = .ok name := by
    refine bytesAt_of_append [if isPush then 0xc1 else 0x81, UInt8.ofNat name.length]
      (fillUint32 session ++ fillUint32 size) ?_ rfl rfl
    rw [← hbuf, List.append_assoc]
    rfl
  have hread : unpackUint32 buf (name.length + 2) = .ok session := by
    refine unpackUint32_of_append
      ((if isPush then 0xc1 else 0x81) :: UInt8.ofNat name.length :: name) _ hbuf.symm ?_ hsession
    rw [List.length_cons, List.length_cons]
  have hsize' : unpackUint32 buf (name.length + 6) = .ok size := by
    refine unpackUint32_of_append ((if isPush then 0xc1 else 0x81) ::
      UInt8.ofNat name.length :: name ++ fillUint32 session) [] ?_ ?_ hsize
    · rw [List.append_nil, hbuf]
    · simp only [List.length_append, List.length_cons, length_fillUint32]
  rw [lunpackrequest, htype, except_ok_bind]
  cases isPush with
  | true =>
    show unpackmreqString buf true = _
    rw [unpackmreqString, if_neg (by omega), hnamesz, except_ok_bind]
    simp only [hsz]
    rw [if_neg (by omega), hbytes, hread, hsize']
    rfl
  | false =>
    show unpackmreqString buf false = _
    rw [unpackmreqString, if_neg (by omega), hnamesz, except_ok_bind]
    simp only [hsz]
    rw [if_neg (by omega), hbytes, hread, hsize']
    rfl

namespace Request

variable (r : Request)

theorem session_lt : r.session < 2 ^ 32 := by
  have := r.session_ok
  omega

/-- The session that is written into a packet of its own. -/
def wireSession : ℕ := if r.isPush then 0 else r.session

theorem wireSession_lt : r.wireSession < 2 ^ 32 := by
  unfold wireSession
  split
  · decide
  · exact r.session_lt

theorem wireSession_eq_zero : decide (r.wireSession = 0) = r.isPush := by
  have := r.session_ok
  unfold wireSession
  cases r.isPush with
  | true => rfl
  | false =>
    show decide (r.session = 0) = false
    exact decide_eq_false (by omega)

theorem session_pos : ¬((r.session : ℤ) ≤ 0) := by
  have := r.session_ok
  omega

/-- **A small request** is one packet, which unpacks to it. -/
theorem packets_small (h : r.msg.length < multiPart) :
    ∃ p, r.packets = .ok [p] ∧ Prefixed p ∧ lunpackrequest (p.drop 2) =
      .ok ⟨some r.addr, some r.wireSession, some r.msg, r.msg.length, false, r.isPush⟩ := by
  have haddr := r.addr_ok
  have hmulti : multiPart = 0x8000 := rfl
  have htemp : tempLength = 0x8200 := rfl
  rw [packets, packrequest, if_neg r.session_pos]
  simp only [Int.toNat_natCast]
  cases hr : r.addr with
  | number n =>
    rw [hr] at haddr
    have hlen : ((0 : UInt8) :: fillUint32 n ++ fillUint32 r.wireSession ++ r.msg).length =
        r.msg.length + 9 := by
      simp only [List.length_append, List.length_cons, length_fillUint32]
      omega
    obtain ⟨p, hp, hframe, hpre⟩ := packet_eq hlen (by omega)
    refine ⟨p, ?_, hpre, ?_⟩
    · simp only [packreqNumber, if_pos h]
      rw [show (if r.isPush then 0 else r.session) = r.wireSession from rfl, hp]
      rfl
    · rw [hframe, unpackrequest_number haddr r.wireSession_lt, r.wireSession_eq_zero]
  | name s =>
    rw [hr] at haddr
    have hlen : ((0x80 : UInt8) :: UInt8.ofNat s.length :: s ++ fillUint32 r.wireSession ++
        r.msg).length = r.msg.length + 6 + s.length := by
      simp only [List.length_append, List.length_cons, length_fillUint32]
      omega
    obtain ⟨p, hp, hframe, hpre⟩ := packet_eq hlen (by omega)
    refine ⟨p, ?_, hpre, ?_⟩
    · simp only [packreqString, if_pos h]
      rw [show (if r.isPush then 0 else r.session) = r.wireSession from rfl, hp,
        if_neg (by omega)]
      rfl
    · rw [hframe, unpackrequest_string haddr.2 r.wireSession_lt, r.wireSession_eq_zero]

/-- **A large request** is a packet with its size, and the parts. -/
theorem packets_large (h : multiPart ≤ r.msg.length) :
    ∃ p ps, r.packets = .ok (p :: ps) ∧ packreqMulti r.session r.msg = .ok ps ∧ ps ≠ [] ∧
      (∀ p' ∈ p :: ps, Prefixed p') ∧ lunpackrequest (p.drop 2) =
        .ok ⟨some r.addr, some r.session, none, r.msg.length, true, r.isPush⟩ := by
  have haddr := r.addr_ok
  have htemp : tempLength = 0x8200 := rfl
  have hsize : r.msg.length < 2 ^ 32 := r.msg_lt.trans (by decide)
  have hparts : parts r.msg.length ≠ 0 := Nat.succ_ne_zero _
  obtain ⟨ps, hps, hne, hall⟩ := partLoop_ok (packs_request r.session_lt) r.msg
  rw [packets, packrequest, if_neg r.session_pos]
  simp only [Int.toNat_natCast, packreqMulti, hps]
  cases hr : r.addr with
  | number n =>
    rw [hr] at haddr
    have hlen : ((if r.isPush then 0x41 else 1 : UInt8) ::
        fillUint32 n ++ fillUint32 r.session ++ fillUint32 r.msg.length).length = 13 := by
      simp only [List.length_append, List.length_cons, length_fillUint32]
    obtain ⟨p, hp, hframe, hpre⟩ := packet_eq hlen (by decide)
    refine ⟨p, ps, ?_, rfl, hne, List.forall_mem_cons.mpr ⟨hpre, hall⟩, ?_⟩
    · simp only [packreqNumber, if_neg (not_lt.mpr h)]
      rw [hp]
      simp only [except_ok_bind, pure, Except.pure, if_pos hparts]
      rfl
    · rw [hframe, unpackrequest_multiNumber haddr r.session_lt hsize]
  | name s =>
    rw [hr] at haddr
    have hlen : ((if r.isPush then 0xc1 else 0x81 : UInt8) :: UInt8.ofNat s.length ::
        s ++ fillUint32 r.session ++ fillUint32 r.msg.length).length = 10 + s.length := by
      simp only [List.length_append, List.length_cons, length_fillUint32]
      omega
    obtain ⟨p, hp, hframe, hpre⟩ := packet_eq hlen (by omega)
    refine ⟨p, ps, ?_, rfl, hne, List.forall_mem_cons.mpr ⟨hpre, hall⟩, ?_⟩
    · simp only [packreqString, if_neg (not_lt.mpr h)]
      rw [hp, if_neg (by omega)]
      simp only [except_ok_bind, pure, Except.pure, if_pos hparts]
      rfl
    · rw [hframe, unpackrequest_multiString haddr.2 r.session_lt hsize]

end Request

/-! ## Parts -/

/-- What `large_request` holds for a request whose packets `ps` have not arrived. -/
def Entry (r : Request) (ps : List Packet) (entry : Option LargeRequest) : Prop :=
  match entry with
  | none => r.packets = .ok ps
  | some req => ∃ (chunks : List (List UInt8)) (rest : List UInt8),
      req = ⟨some r.addr, r.isPush, none, .size r.msg.length :: chunks.map .bytes⟩ ∧
      r.msg = chunks.flatten ++ rest ∧ packreqMulti r.session rest = .ok ps

/-- What a packet does: it waits in the entry, or it is the last one. -/
def Received (agent : Agent) (r : Request) (ps : List Packet) (result : Agent × Outcome) : Prop :=
  if ps = [] then
    ∃ d, result = (⟨update agent.largeRequest r.session none, none⟩, .dispatch d) ∧ d.Of r
  else
    ∃ req, result = (⟨update agent.largeRequest r.session (some req), none⟩, .nothing) ∧
      Entry r ps (some req)

variable {agent : Agent} {r : Request} {p : Packet} {ps : List Packet}

theorem receive_eq {args : Arguments} (h : lunpackrequest (p.drop 2) = .ok args) :
    receive agent p = dispatchRequest agent args := by
  rw [receive, h]

/-- The first packet of a request. -/
theorem receive_first (htrace : agent.tracetag = none) (hsingle : ¬r.Single)
    (hentry : agent.largeRequest r.session = none) (hps : r.packets = .ok (p :: ps)) :
    Received agent r ps (receive agent p) := by
  by_cases hsmall : r.msg.length < multiPart
  · obtain ⟨p', hp', -, hargs⟩ := r.packets_small hsmall
    obtain ⟨rfl, rfl⟩ := ok_cons_inj (hp'.symm.trans hps)
    have hcall : r.isPush = false := by
      by_contra hpush
      exact hsingle ⟨by simpa using hpush, hsmall⟩
    have hwire : r.wireSession = r.session := by
      rw [Request.wireSession, hcall]
      rfl
    rw [hwire] at hargs
    refine ⟨⟨some r.addr, r.session, r.msg, r.isPush, none⟩, ?_, rfl, rfl, rfl, fun _ => rfl⟩
    rw [receive_eq hargs, dispatchRequest]
    simp only [hentry, finish, htrace, hcall, Bool.false_eq_true, if_false]
    rw [← hentry, update_eq_self]
  · obtain ⟨p', ps', hp', hmulti, hne, -, hargs⟩ := r.packets_large (not_lt.mp hsmall)
    obtain ⟨rfl, rfl⟩ := ok_cons_inj (hp'.symm.trans hps)
    rw [Received, if_neg hne]
    refine ⟨⟨some r.addr, r.isPush, none, [.size r.msg.length]⟩, ?_, [], r.msg, rfl, rfl, hmulti⟩
    rw [receive_eq hargs, dispatchRequest]
    simp only [if_true, hentry, Option.getD_none, htrace]
    rfl

/-- A part of a request. -/
theorem receive_part {req : LargeRequest} (hreq : agent.largeRequest r.session = some req)
    (hentry : Entry r (p :: ps) (some req)) : Received agent r ps (receive agent p) := by
  obtain ⟨chunks, rest, rfl, hmsg, hps⟩ := hentry
  rw [packreqMulti] at hps
  obtain ⟨rfl, hargs⟩ | ⟨hne, hargs, hlt, hps⟩ := partLoop_cases (packs_request r.session_lt) hps
  · have hwhole : r.msg = (chunks ++ [rest]).flatten := by
      rw [hmsg, List.flatten_append, List.flatten_singleton]
    have hconcat : lconcat (lappend (.size r.msg.length :: chunks.map .bytes) (some rest)
        rest.length) = some r.msg := by
      have := lconcat_bytes (chunks ++ [rest])
      rwa [← hwhole, List.map_append] at this
    refine ⟨⟨some r.addr, r.session, r.msg, r.isPush, none⟩, ?_, rfl, rfl, rfl, fun _ => rfl⟩
    rw [receive_eq hargs, dispatchRequest]
    simp only [hreq, hconcat, finish]
    cases r.isPush with
    | true => rfl
    | false => rfl
  · rw [Received, if_neg hne]
    refine ⟨⟨some r.addr, r.isPush, none,
      .size r.msg.length :: (chunks ++ [rest.take multiPart]).map .bytes⟩, ?_,
      chunks ++ [rest.take multiPart], rest.drop multiPart, rfl, ?_, hps⟩
    · rw [receive_eq hargs, dispatchRequest]
      simp only [hreq, Option.getD_some, lappend, List.map_append, List.cons_append]
      rfl
    · rw [List.flatten_append, List.flatten_singleton, List.append_assoc, List.take_append_drop]
      exact hmsg

/-- A push that is one packet is dispatched at once. -/
theorem receive_single (htrace : agent.tracetag = none) (hentry : agent.largeRequest 0 = none)
    (hsingle : r.Single) (hp : r.packets = .ok [p]) :
    ∃ d, receive agent p = (agent, .dispatch d) ∧ d.Of r := by
  obtain ⟨p', hp', -, hargs⟩ := r.packets_small hsingle.2
  obtain ⟨rfl, -⟩ := ok_cons_inj (hp'.symm.trans hp)
  have hwire : r.wireSession = 0 := by
    rw [Request.wireSession, if_pos hsingle.1]
  rw [hwire] at hargs
  refine ⟨⟨some r.addr, 0, r.msg, r.isPush, none⟩, ?_, rfl, rfl, rfl, ?_⟩
  · rw [receive_eq hargs, dispatchRequest]
    simp only [hentry, finish, htrace, Bool.false_eq_true, if_false, hsingle.1, if_true]
    rw [← htrace]
  · intro hcall
    rw [hsingle.1] at hcall
    cases hcall

/-! ## The connection -/

/-- The request that is on its way with this session. -/
def Connection.waiting (c : Connection) (session : ℕ) : Option Request :=
  (c.outstanding session).map Prod.fst

/-- The entries of `large_request` belong to the requests that are on their way. -/
structure Connection.Inv (c : Connection) : Prop where
  entry : ∀ session r ps, c.outstanding session = some (r, ps) →
    r.session = session ∧ ¬r.Single ∧ ps ≠ [] ∧ Entry r ps (c.agent.largeRequest session)
  clean : ∀ session, c.outstanding session = none → c.agent.largeRequest session = none
  untraced : c.agent.tracetag = none
  dispatched : List.Forall₂ (fun o r => ∃ d, o = .dispatch d ∧ d.Of r) c.outcomes c.complete
  counted : ∀ r, c.sent.count r =
    c.complete.count r + if c.waiting r.session = some r then 1 else 0

namespace Connection

variable {c : Connection}

theorem init_inv : init.Inv where
  entry := by simp [init]
  clean := fun _ _ => rfl
  untraced := rfl
  dispatched := .nil
  counted := by simp [init, waiting]

/-- Writing a request. -/
theorem write_inv (h : c.Inv) (hsingle : ¬r.Single) (hfree : c.outstanding r.session = none)
    (hne : ps ≠ []) (hps : r.packets = .ok ps) : (c.write r ps).Inv where
  entry := by
    intro session r' ps' hr'
    show r'.session = session ∧ ¬r'.Single ∧ ps' ≠ [] ∧ Entry r' ps' (c.agent.largeRequest session)
    change update c.outstanding r.session (some (r, ps)) session = some (r', ps') at hr'
    by_cases hs : session = r.session
    · subst hs
      rw [update_self] at hr'
      obtain ⟨rfl, rfl⟩ := Prod.mk.inj (Option.some.inj hr')
      rw [h.clean _ hfree]
      exact ⟨rfl, hsingle, hne, hps⟩
    · rw [update_of_ne hs] at hr'
      exact h.entry _ _ _ hr'
  clean := by
    intro session hnone
    change update c.outstanding r.session (some (r, ps)) session = none at hnone
    by_cases hs : session = r.session
    · subst hs
      rw [update_self] at hnone
      cases hnone
    · rw [update_of_ne hs] at hnone
      exact h.clean _ hnone
  untraced := h.untraced
  dispatched := h.dispatched
  counted := by
    intro r'
    have hcount := h.counted r'
    show (c.sent ++ [r]).count r' = c.complete.count r' +
      if (update c.outstanding r.session (some (r, ps)) r'.session).map Prod.fst = some r'
        then 1 else 0
    rw [List.count_append, hcount, List.count_singleton]
    by_cases hs : r'.session = r.session
    · rw [waiting, hs, hfree, update_self]
      simp
    · have hne : (r == r') = false := beq_eq_false_iff_ne.mpr fun heq => hs (heq ▸ rfl)
      rw [update_of_ne hs, hne]
      rfl

/-- A packet that is not the last waits in the entry; the last one dispatches its request. -/
theorem next_inv (h : c.Inv) (hout : c.outstanding r.session = some (r, p :: ps)) :
    (c.next r p ps).Inv := by
  obtain ⟨-, hsingle, -, hentry⟩ := h.entry _ _ _ hout
  have hreceived : Received c.agent r ps (receive c.agent p) := by
    cases hreq : c.agent.largeRequest r.session with
    | none =>
      rw [hreq] at hentry
      exact receive_first h.untraced hsingle hreq hentry
    | some req =>
      rw [hreq] at hentry
      exact receive_part hreq hentry
  by_cases hlast : ps = []
  · subst hlast
    obtain ⟨d, hd, hof⟩ := hreceived
    have hnext : c.next r p [] = ⟨c.sent, update c.outstanding r.session none,
        ⟨update c.agent.largeRequest r.session none, none⟩, c.outcomes ++ [.dispatch d],
        c.complete ++ [r]⟩ := by
      rw [next, arrive, hd]
      rfl
    rw [hnext]
    exact {
      entry := by
        intro session r' ps' hr'
        have hs : session ≠ r.session := by
          rintro rfl
          simp at hr'
        simp only [update_of_ne hs] at hr' ⊢
        exact h.entry _ _ _ hr'
      clean := by
        intro session hnone
        by_cases hs : session = r.session
        · subst hs
          exact update_self ..
        · simp only [update_of_ne hs] at hnone ⊢
          exact h.clean _ hnone
      untraced := rfl
      dispatched := List.rel_append h.dispatched (.cons ⟨d, rfl, hof⟩ .nil)
      counted := by
        intro r'
        show c.sent.count r' = (c.complete ++ [r]).count r' +
          if (update c.outstanding r.session none r'.session).map Prod.fst = some r'
            then 1 else 0
        rw [h.counted r', List.count_append, List.count_singleton]
        by_cases hs : r'.session = r.session
        · rw [waiting, hs, hout, update_self]
          simp
        · have hne : (r == r') = false := beq_eq_false_iff_ne.mpr fun heq => hs (heq ▸ rfl)
          rw [update_of_ne hs, hne]
          rfl }
  · rw [Received, if_neg hlast] at hreceived
    obtain ⟨req, hreq, hreqEntry⟩ := hreceived
    have hnext : c.next r p ps = ⟨c.sent, update c.outstanding r.session (some (r, ps)),
        ⟨update c.agent.largeRequest r.session (some req), none⟩, c.outcomes,
        c.complete⟩ := by
      rw [next, arrive, hreq, if_neg hlast, if_neg hlast]
      rfl
    rw [hnext]
    exact {
      entry := by
        intro session r' ps' hr'
        by_cases hs : session = r.session
        · subst hs
          simp only [update_self] at hr' ⊢
          obtain ⟨rfl, rfl⟩ := Prod.mk.inj (Option.some.inj hr')
          exact ⟨rfl, hsingle, hlast, hreqEntry⟩
        · simp only [update_of_ne hs] at hr' ⊢
          exact h.entry _ _ _ hr'
      clean := by
        intro session hnone
        have hs : session ≠ r.session := by
          rintro rfl
          simp at hnone
        simp only [update_of_ne hs] at hnone ⊢
        exact h.clean _ hnone
      untraced := rfl
      dispatched := h.dispatched
      counted := by
        intro r'
        show c.sent.count r' = c.complete.count r' +
          if (update c.outstanding r.session (some (r, ps)) r'.session).map Prod.fst = some r'
            then 1 else 0
        rw [h.counted r']
        by_cases hs : r'.session = r.session
        · rw [waiting, hs, hout, update_self]
          rfl
        · rw [update_of_ne hs]
          rfl }

/-- A push of one packet. -/
theorem single_inv (h : c.Inv) (hsingle : r.Single) (hp : r.packets = .ok [p]) :
    Inv { c.arrive r p [] with sent := c.sent ++ [r] } := by
  have hfree : c.outstanding 0 = none := by
    cases hout : c.outstanding 0 with
    | none => rfl
    | some x =>
      obtain ⟨hzero, -⟩ := h.entry _ _ _ hout
      have := x.1.session_ok
      omega
  obtain ⟨d, hd, hof⟩ := receive_single h.untraced (h.clean _ hfree) hsingle hp
  have harrive : ({ c.arrive r p [] with sent := c.sent ++ [r] } : Connection) =
      ⟨c.sent ++ [r], c.outstanding, c.agent, c.outcomes ++ [.dispatch d], c.complete ++ [r]⟩ := by
    rw [arrive, hd]
    rfl
  rw [harrive]
  exact {
    entry := h.entry
    clean := h.clean
    untraced := h.untraced
    dispatched := List.rel_append h.dispatched (.cons ⟨d, rfl, hof⟩ .nil)
    counted := by
      intro r'
      have hcount := h.counted r'
      show (c.sent ++ [r]).count r' = (c.complete ++ [r]).count r' +
        if c.waiting r'.session = some r' then 1 else 0
      rw [List.count_append, List.count_append]
      omega }

/-- What a step does. -/
theorem step_cases {a : Arrival} {c' : Connection} (hstep : c.step a = some c') :
    (∃ r ps, a = .send r ∧ ¬r.Single ∧ c.outstanding r.session = none ∧ ps ≠ [] ∧
      r.packets = .ok ps ∧ c' = c.write r ps) ∨
    (∃ session r p ps, a = .deliver session ∧ c.outstanding session = some (r, p :: ps) ∧
      c' = c.next r p ps) ∨
    (∃ r p, a = .single r ∧ r.Single ∧ r.packets = .ok [p] ∧
      c' = { c.arrive r p [] with sent := c.sent ++ [r] }) := by
  cases a with
  | send r =>
    simp only [step] at hstep
    split_ifs at hstep with hcond
    push Not at hcond
    split at hstep
    · next p ps hps =>
      exact .inl ⟨r, p :: ps, rfl, hcond.1, by simpa using hcond.2, by simp, hps,
        (Option.some.inj hstep).symm⟩
    · cases hstep
  | deliver session =>
    simp only [step] at hstep
    split at hstep
    · next r p ps hout =>
      exact .inr (.inl ⟨session, r, p, ps, rfl, hout, (Option.some.inj hstep).symm⟩)
    · cases hstep
  | single r =>
    simp only [step] at hstep
    split_ifs at hstep with hsingle
    split at hstep
    · next p hp => exact .inr (.inr ⟨r, p, rfl, hsingle, hp, (Option.some.inj hstep).symm⟩)
    · cases hstep

theorem step_inv {a : Arrival} {c' : Connection} (h : c.Inv) (hstep : c.step a = some c') :
    c'.Inv := by
  obtain ⟨r, ps, -, hsingle, hfree, hne, hps, rfl⟩ | ⟨session, r, p, ps, -, hout, rfl⟩ |
    ⟨r, p, -, hsingle, hp, rfl⟩ := step_cases hstep
  · exact write_inv h hsingle hfree hne hps
  · obtain ⟨rfl, -⟩ := h.entry _ _ _ hout
    exact next_inv h hout
  · exact single_inv h hsingle hp

/-- **Requests round-trip.** Every request is cut into packets, each behind the prefix of its
length. In every run, every complete request has been dispatched exactly once, in the order of
the last packets, and nothing else has been done; a session without packets on their way has no
entry left; and every request on its way goes on with its next packet, so that, once nothing is
on its way, the dispatched requests are those that were sent. -/
theorem requests_round_trip {actions : List Arrival} {c : Connection}
    (hrun : run step init actions = some c) :
    (∀ r : Request, ∃ ps, r.packets = .ok ps ∧ ∀ p ∈ ps, Prefixed p) ∧
    List.Forall₂ (fun o r => ∃ d, o = .dispatch d ∧ d.Of r) c.outcomes c.complete ∧
    (∀ session, c.outstanding session = none → c.agent.largeRequest session = none) ∧
    (∀ session, (c.outstanding session).isSome → (c.step (.deliver session)).isSome) ∧
    ((∀ session, c.outstanding session = none) → c.complete.Perm c.sent) := by
  have h : c.Inv := run_invariant_of_step (fun _ _ _ => step_inv) init_inv hrun
  refine ⟨?_, h.dispatched, h.clean, ?_, ?_⟩
  · intro r
    by_cases hsmall : r.msg.length < multiPart
    · obtain ⟨p, hp, hpre, -⟩ := r.packets_small hsmall
      exact ⟨[p], hp, by simpa using hpre⟩
    · obtain ⟨p, ps, hps, -, -, hall, -⟩ := r.packets_large (not_lt.mp hsmall)
      exact ⟨p :: ps, hps, hall⟩
  · intro session hsome
    obtain ⟨⟨r, ps⟩, hout⟩ := Option.isSome_iff_exists.mp hsome
    obtain ⟨-, -, hne, -⟩ := h.entry _ _ _ hout
    obtain ⟨p, ps, rfl⟩ := List.exists_cons_of_ne_nil hne
    simp only [step, hout, Option.isSome_some]
  · intro hnone
    rw [List.perm_iff_count]
    intro r
    rw [h.counted r, waiting, hnone]
    rfl

/-- A call of 32768 bytes, with a push between its two packets. -/
theorem requests_round_trip_interleaved :
    let call : Request := ⟨.number 8, 7, List.replicate multiPart 1, false, by decide, by decide, by
      rw [List.length_replicate]
      decide⟩
    let push : Request := ⟨.name [64, 97], 3, [5], true, by decide, by decide, by decide⟩
    ∃ c, run step init [.send call, .deliver 7, .single push, .deliver 7] = some c ∧
      c.complete = [push, call] ∧
      List.Forall₂ (fun o r => ∃ d, o = .dispatch d ∧ d.Of r) c.outcomes c.complete := by
  intro call push
  have hlen : call.msg.length = multiPart := List.length_replicate
  obtain ⟨p, ps, hps, hmulti, -⟩ := call.packets_large hlen.ge
  obtain ⟨p', hlast, -⟩ := partLoop_last (packs_request call.session_lt) hlen.le
  obtain rfl : ps = [p'] := by
    exact (Except.ok.inj (hlast.symm.trans hmulti)).symm
  have hcall : ¬call.Single := by simp [Request.Single, call]
  have hpush : push.Single := ⟨rfl, by decide⟩
  obtain ⟨p'', hp'', -⟩ := push.packets_small hpush.2
  have hrun : ∃ c, run step init [.send call, .deliver 7, .single push, .deliver 7] = some c ∧
      c.complete = [push, call] := by
    have hsession : call.session = 7 := rfl
    simp [run_cons, step, init, hcall, hps, hpush, hp'', write, next, arrive, hsession]
  obtain ⟨c, hrun, hcomplete⟩ := hrun
  exact ⟨c, hrun, hcomplete, (requests_round_trip hrun).2.1⟩

end Connection

end SkynetEureka.Cluster

