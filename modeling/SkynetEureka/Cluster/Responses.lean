import SkynetEureka.Cluster.Channel

/-!
# Responses through one channel

The parts of a response meet in the table of the coroutine that waits for its session
(`Gathered`), whatever other packets come between, and its last packet wakes this coroutine up.
-/

namespace SkynetEureka.Cluster

open Lib Function

/-! ## Packets -/

theorem unpackresponse_eq {session : ℕ} (hsession : session < 2 ^ 32) (type : UInt8)
    (payload : List UInt8) :
    lunpackresponse (fillUint32 session ++ type :: payload) =
      if type = 0 then some ⟨session, false, .bytes payload, false⟩
      else if type = 1 ∨ type = 4 then some ⟨session, true, .bytes payload, false⟩
      else if type = 2 then
        if payload.length ≠ 4 then none else some ⟨session, true, .size (ofLeBytes payload), true⟩
      else if type = 3 then some ⟨session, true, .bytes payload, true⟩
      else none := by
  have hfill := length_fillUint32 session
  have hlen : (fillUint32 session ++ type :: payload).length = payload.length + 5 := by
    rw [List.length_append, List.length_cons, hfill]
    omega
  have hsize : payload.length + 5 ≠ 9 ↔ payload.length ≠ 4 := by omega
  have hread : ofLeBytes ((fillUint32 session ++ type :: payload).take 4) = session := by
    rw [List.take_left' hfill, fillUint32, ofLeBytes_leBytes_of_lt hsession]
  have htype : (fillUint32 session ++ type :: payload).getD 4 0 = type := by
    rw [List.getD_append_right _ _ _ _ hfill.le, hfill]
    rfl
  have hdrop : (fillUint32 session ++ type :: payload).drop 5 = payload := by
    rw [List.drop_append, hfill, List.drop_of_length_le (by omega)]
    rfl
  rw [lunpackresponse, if_neg (by omega)]
  simp only [hread, htype, hdrop, hlen, hsize]

/-- A packet is read from the stream as it was written. -/
theorem readResponse_append {p : Packet} (h : Prefixed p) (rest : List UInt8) :
    readResponse (p ++ rest) = (lunpackresponse (p.drop 2), rest) := by
  obtain ⟨hlen, hpre, -⟩ := h
  have hsize : sizePrefix (p ++ rest) = p.length - 2 := by
    rw [← hpre, sizePrefix, sizePrefix, List.getD_append _ _ _ _ (by omega),
      List.getD_append _ _ _ _ (by omega)]
  have htake : ((p ++ rest).drop 2).take (p.length - 2) = p.drop 2 := by
    rw [List.drop_append_of_le_length hlen, List.take_left' (List.length_drop ..)]
  rw [readResponse, hsize, htake, Nat.add_sub_cancel' hlen, List.drop_left]

theorem readResponse_eq {p : Packet} (h : Prefixed p) :
    (readResponse p).1 = lunpackresponse (p.drop 2) := by
  have := readResponse_append h []
  rw [List.append_nil] at this
  rw [this]

/-- Every part of a response is packed into a packet that unpacks to it. -/
theorem packs_response {session : ℕ} (hsession : session < 2 ^ 32) :
    Packs (fun last s => packet (s.length + 5)
        (fillUint32 session ++ (if last then 4 else 3) :: s))
      fun last s p => lunpackresponse (p.drop 2) = some ⟨session, true, .bytes s, !last⟩ := by
  intro last s hle
  have hlen : (fillUint32 session ++ (if last then 4 else 3 : UInt8) :: s).length =
      s.length + 5 := by
    rw [List.length_append, List.length_cons, length_fillUint32]
    omega
  obtain ⟨p, hp, hframe, hpre⟩ := packet_eq hlen (by
    unfold multiPart at hle
    unfold tempLength
    omega)
  refine ⟨p, hp, hpre, ?_⟩
  show lunpackresponse (p.drop 2) = _
  rw [hframe, unpackresponse_eq hsession]
  cases last with
  | true => rfl
  | false => rfl

namespace Reply

variable (r : Reply) {session : ℕ}

/-- The message of a response, as it is sent. -/
def text : List UInt8 := if r.ok then r.msg else r.msg.take multiPart

/-- **A small response**, or an error. -/
theorem packets_single (hsession : session < 2 ^ 32) (h : ¬(r.ok ∧ multiPart < r.msg.length)) :
    ∃ p, r.packets session = .ok [p] ∧ Prefixed p ∧
      lunpackresponse (p.drop 2) = some ⟨session, r.ok, .bytes r.text, false⟩ := by
  have htext : r.text.length ≤ multiPart := by
    unfold text
    split
    · next hok => exact not_lt.mp fun hlt => h ⟨hok, hlt⟩
    · exact List.length_take_le _ _
  have hlen : (fillUint32 session ++ (if r.ok then 1 else 0 : UInt8) :: r.text).length =
      r.text.length + 5 := by
    rw [List.length_append, List.length_cons, length_fillUint32]
    omega
  obtain ⟨p, hp, hframe, hpre⟩ := packet_eq hlen (by
    unfold multiPart at htext
    unfold tempLength
    omega)
  have hsingle : lpackresponse session r.ok r.msg = .ok (.single p) := by
    rw [lpackresponse, if_neg h]
    show (do
      let p ← packet (r.text.length + 5) (fillUint32 session ++ (if r.ok then 1 else 0) :: r.text)
      return Response.single p : Except PackError Response) = .ok (.single p)
    rw [hp]
    rfl
  refine ⟨p, ?_, hpre, ?_⟩
  · rw [packets, hsingle]
    rfl
  · rw [hframe, unpackresponse_eq hsession]
    cases r.ok with
    | true => rfl
    | false => rfl

/-- **A large response** is a packet with its size, and the parts. -/
theorem packets_multi (hsession : session < 2 ^ 32) (hok : r.ok = true)
    (h : multiPart < r.msg.length) :
    ∃ p ps, r.packets session = .ok (p :: ps) ∧ packrespMulti session r.msg = .ok ps ∧ ps ≠ [] ∧
      (∀ p' ∈ p :: ps, Prefixed p') ∧
      lunpackresponse (p.drop 2) = some ⟨session, true, .size r.msg.length, true⟩ := by
  have hsize : r.msg.length < 2 ^ 32 := (r.msg_lt hok).trans (by decide)
  have hlen : (fillUint32 session ++ 2 :: fillUint32 r.msg.length).length = 9 := by
    simp only [List.length_append, List.length_cons, length_fillUint32]
  obtain ⟨p, hp, hframe, hpre⟩ := packet_eq hlen (by decide)
  obtain ⟨ps, hps, hne, hall⟩ := partLoop_ok (packs_response hsession) r.msg
  refine ⟨p, ps, ?_, hps, hne, List.forall_mem_cons.mpr ⟨hpre, hall⟩, ?_⟩
  · rw [packets, lpackresponse, if_pos ⟨hok, h⟩, hp, packrespMulti, hps]
    rfl
  · rw [hframe, unpackresponse_eq hsession, fillUint32, length_leBytes,
      ofLeBytes_leBytes_of_lt hsize]
    rfl

/-- Every response has packets, each behind the prefix of its length. -/
theorem packets_ok (hsession : session < 2 ^ 32) :
    ∃ ps, r.packets session = .ok ps ∧ ps ≠ [] ∧ ∀ p ∈ ps, Prefixed p := by
  by_cases h : r.ok ∧ multiPart < r.msg.length
  · obtain ⟨p, ps, hps, -, -, hall, -⟩ := r.packets_multi hsession h.1 h.2
    exact ⟨p :: ps, hps, by simp, hall⟩
  · obtain ⟨p, hp, hpre, -⟩ := r.packets_single hsession h
    exact ⟨[p], hp, by simp, by simpa using hpre⟩

end Reply

/-! ## Parts -/

/-- What `__result_data` holds for the coroutine that waits for a response whose packets `ps` have
not been read. -/
def Gathered (r : Reply) (session : ℕ) (ps : List Packet) (resultData : Option Data) : Prop :=
  match resultData with
  | none => r.packets session = .ok ps
  | some (.table items) => r.ok = true ∧ ∃ (chunks : List (List UInt8)) (rest : List UInt8),
      items = .size r.msg.length :: chunks.map .bytes ∧
      r.msg = chunks.flatten ++ rest ∧ packrespMulti session rest = .ok ps
  | some (.item _) => False

/-- What a packet does: it waits in the table, or it is the last one and wakes the coroutine up. -/
def Dispatched (c : Channel) (r : Reply) (session : ℕ) (co : Co) (ps : List Packet)
    (channel : Option Channel) : Prop :=
  if ps = [] then
    ∃ data, channel = some { c with
        thread := update c.thread session none
        result := update c.result co (some (.ok r.ok))
        resultData := update c.resultData co (some data)
        awake := update c.awake co true } ∧
      commandReq (waitForResponse (some (.ok r.ok)) (some data)) = r.returned
  else
    ∃ data, channel = some { c with resultData := update c.resultData co (some data) } ∧
      Gathered r session ps (some data)

section Dispatch

variable {c : Channel} {r : Reply} {session : ℕ} {co : Co} {p : Packet} {ps : List Packet}

/-- The first packet of a response. -/
theorem dispatch_first (hsession : session < 2 ^ 32) (hthread : c.thread session = some co)
    (hdata : c.resultData co = none) (hps : r.packets session = .ok (p :: ps)) :
    Dispatched c r session co ps (c.dispatchBySession (readResponse p).1) := by
  by_cases h : r.ok ∧ multiPart < r.msg.length
  · obtain ⟨p', ps', hp', hmulti, hne, hall, hanswer⟩ := r.packets_multi hsession h.1 h.2
    obtain ⟨rfl, rfl⟩ := ok_cons_inj (hp'.symm.trans hps)
    rw [readResponse_eq (hall p' (by simp)), hanswer, Dispatched, if_neg hne]
    refine ⟨.table [.size r.msg.length], ?_, h.1, [], r.msg, rfl, rfl, hmulti⟩
    rw [Channel.dispatchBySession]
    simp only [hthread, hdata]
    rfl
  · obtain ⟨p', hp', hpre, hanswer⟩ := r.packets_single hsession h
    obtain ⟨rfl, rfl⟩ := ok_cons_inj (hp'.symm.trans hps)
    rw [readResponse_eq hpre, hanswer]
    refine ⟨.item (.bytes r.text), ?_, ?_⟩
    · rw [Channel.dispatchBySession]
      simp only [hthread, hdata]
      rfl
    · rw [Reply.returned, Reply.text]
      cases r.ok with
      | true => rfl
      | false => rfl

/-- A part of a response. -/
theorem dispatch_part {data : Data} (hsession : session < 2 ^ 32)
    (hthread : c.thread session = some co) (hdata : c.resultData co = some data)
    (hgathered : Gathered r session (p :: ps) (some data)) (hpre : Prefixed p) :
    Dispatched c r session co ps (c.dispatchBySession (readResponse p).1) := by
  cases data with
  | item d => exact hgathered.elim
  | table items =>
    obtain ⟨hok, chunks, rest, rfl, hmsg, hps⟩ := hgathered
    rw [packrespMulti] at hps
    obtain ⟨rfl, hanswer⟩ | ⟨hne, hanswer, -, hps⟩ := partLoop_cases (packs_response hsession) hps
    · have hwhole : r.msg = (chunks ++ [rest]).flatten := by
        rw [hmsg, List.flatten_append, List.flatten_singleton]
      rw [readResponse_eq hpre, hanswer]
      refine ⟨.table (.size r.msg.length :: (chunks ++ [rest]).map .bytes), ?_, ?_⟩
      · rw [Channel.dispatchBySession]
        simp only [hthread, hdata, hok, tableInsert, List.map_append, List.cons_append]
        rfl
      · have hconcat := lconcat_bytes (chunks ++ [rest])
        rw [← hwhole] at hconcat
        rw [Reply.returned, hok]
        show Returned.ret (lconcat _) = _
        rw [hconcat]
        rfl
    · rw [readResponse_eq hpre, hanswer, Dispatched, if_neg hne]
      refine ⟨.table (.size r.msg.length :: (chunks ++ [rest.take multiPart]).map .bytes), ?_, hok,
        chunks ++ [rest.take multiPart], rest.drop multiPart, rfl, ?_, hps⟩
      · rw [Channel.dispatchBySession]
        simp only [hthread, hdata, tableInsert, List.map_append, List.cons_append,
          Option.getD_some]
        rfl
      · rw [List.flatten_append, List.flatten_singleton, List.append_assoc, List.take_append_drop]
        exact hmsg

/-- **The next packet of a response.** -/
theorem dispatch_next (hsession : session < 2 ^ 32) (hthread : c.thread session = some co)
    (hgathered : Gathered r session (p :: ps) (c.resultData co)) (hpre : Prefixed p) :
    Dispatched c r session co ps (c.dispatchBySession (readResponse p).1) := by
  cases hdata : c.resultData co with
  | none =>
    rw [hdata] at hgathered
    exact dispatch_first hsession hthread hdata hgathered
  | some data =>
    rw [hdata] at hgathered
    exact dispatch_part hsession hthread hdata hgathered hpre

end Dispatch

/-! ## The client -/

/-- The response that a coroutine has got is the one to its request. -/
def Receipt.Right (x : Receipt) : Prop := ∃ r, x.reply = some r ∧ x.returned = r.returned

/-- A coroutine waits for the remote side, or is awake with what it has to get. -/
def Client.Waits (c : Client) (co : Co) (session : ℕ) : Prop :=
  (∃ response, c.remote session = some (co, response)) ∨
  (c.channel.awake co = true ∧ ∃ r, c.answered co = some r ∧
    commandReq (waitForResponse (c.channel.result co) (c.channel.resultData co)) = r.returned)

/-- Each outstanding session belongs to the coroutine that has asked. -/
structure Client.Inv (c : Client) : Prop where
  outstanding : ∀ session co response, c.remote session = some (co, response) →
    session < 2 ^ 32 ∧ c.channel.thread session = some co ∧
    c.channel.waiting co = some session ∧ c.channel.result co = none ∧
    c.channel.awake co = false ∧
    match response with
    | none => c.channel.resultData co = none
    | some (r, ps) => ps ≠ [] ∧ (∀ p ∈ ps, Prefixed p) ∧
        Gathered r session ps (c.channel.resultData co)
  free : ∀ session, c.remote session = none → c.channel.thread session = none
  idle : ∀ co, c.channel.waiting co = none →
    c.channel.result co = none ∧ c.channel.resultData co = none ∧ c.channel.awake co = false
  waits : ∀ co session, c.channel.waiting co = some session → c.Waits co session
  connected : c.channel.sock = true
  known : c.channel.unknown = []
  right : ∀ x ∈ c.receipts, x.Right
  counted : ∀ co session, c.asked.count (co, session) =
    (c.receipts.map fun x => (x.co, x.session)).count (co, session) +
      if c.channel.waiting co = some session then 1 else 0

namespace Client

variable {c : Client} {co : Co} {session : ℕ}

theorem init_inv : init.Inv where
  outstanding := by simp [init]
  free := fun _ _ => rfl
  idle := fun _ _ => ⟨rfl, rfl, rfl⟩
  waits := by simp [init]
  connected := rfl
  known := rfl
  right := by simp [init]
  counted := by simp [init]

/-- The coroutine of another session is another coroutine. -/
theorem Inv.co_ne (h : c.Inv) {session' : ℕ} {co' : Co} {response response'}
    (hr : c.remote session = some (co, response))
    (hr' : c.remote session' = some (co', response')) (hne : session' ≠ session) : co' ≠ co := by
  rintro rfl
  have hw := (h.outstanding _ _ _ hr).2.2.1
  have hw' := (h.outstanding _ _ _ hr').2.2.1
  rw [hw] at hw'
  exact hne (Option.some.inj hw').symm

/-- A request is written. -/
theorem ask_inv (h : c.Inv) (hco : c.channel.waiting co = none) (hfree : c.remote session = none)
    (hsession : session < 2 ^ 32) : (c.ask co session).Inv where
  outstanding := by
    intro session' co' response hr
    change update c.remote session (some (co, none)) session' = some (co', response) at hr
    obtain ⟨hresult, hdata, hawake⟩ := h.idle co hco
    by_cases hs : session' = session
    · subst hs
      rw [update_self] at hr
      obtain ⟨rfl, rfl⟩ := Prod.mk.inj (Option.some.inj hr)
      exact ⟨hsession, update_self .., update_self .., hresult, hawake, hdata⟩
    · rw [update_of_ne hs] at hr
      obtain ⟨hlt, hthread, hwaiting, hrest⟩ := h.outstanding _ _ _ hr
      have hne : co' ≠ co := by
        rintro rfl
        rw [hco] at hwaiting
        cases hwaiting
      exact ⟨hlt, (update_of_ne hs ..).trans hthread, (update_of_ne hne ..).trans hwaiting, hrest⟩
  free := by
    intro session' hr
    change update c.remote session (some (co, none)) session' = none at hr
    show update c.channel.thread session (some co) session' = none
    by_cases hs : session' = session
    · subst hs
      rw [update_self] at hr
      cases hr
    · rw [update_of_ne hs] at hr ⊢
      exact h.free _ hr
  idle := by
    intro co' hw
    change update c.channel.waiting co (some session) co' = none at hw
    by_cases hc : co' = co
    · subst hc
      rw [update_self] at hw
      cases hw
    · rw [update_of_ne hc] at hw
      exact h.idle _ hw
  waits := by
    intro co' session' hw
    change update c.channel.waiting co (some session) co' = some session' at hw
    by_cases hc : co' = co
    · subst hc
      rw [update_self] at hw
      obtain rfl := Option.some.inj hw
      exact .inl ⟨none, update_self ..⟩
    · rw [update_of_ne hc] at hw
      obtain ⟨response, hr⟩ | hawake := h.waits _ _ hw
      · have hs : session' ≠ session := by
          rintro rfl
          rw [hfree] at hr
          cases hr
        exact .inl ⟨response, (update_of_ne hs ..).trans hr⟩
      · exact .inr hawake
  connected := h.connected
  known := h.known
  right := h.right
  counted := by
    intro co' session'
    show (c.asked ++ [(co, session)]).count (co', session') =
      (c.receipts.map fun x => (x.co, x.session)).count (co', session') +
      if update c.channel.waiting co (some session) co' = some session' then 1 else 0
    rw [List.count_append, h.counted, List.count_singleton]
    by_cases hc : co' = co
    · subst hc
      rw [hco, update_self]
      simp
    · have hne : ((co, session) == (co', session')) = false :=
        beq_eq_false_iff_ne.mpr fun heq => hc (Prod.mk.inj heq).1.symm
      rw [update_of_ne hc, hne]
      rfl

/-- The response of an outstanding session is another one, for the same coroutine. -/
theorem remote_inv {response} (h : c.Inv) (hr : c.remote session = some (co, response))
    {r : Reply} {ps : List Packet} {resultData : Co → Option Data}
    (hother : ∀ co', co' ≠ co → resultData co' = c.channel.resultData co')
    (hne : ps ≠ []) (hall : ∀ p ∈ ps, Prefixed p)
    (hgathered : Gathered r session ps (resultData co)) :
    Inv { c with
      channel := { c.channel with resultData := resultData }
      remote := update c.remote session (some (co, some (r, ps))) } where
  outstanding := by
    intro session' co' response' hr'
    change update c.remote session (some (co, some (r, ps))) session' = some (co', response') at hr'
    by_cases hs : session' = session
    · subst hs
      rw [update_self] at hr'
      obtain ⟨rfl, rfl⟩ := Prod.mk.inj (Option.some.inj hr')
      obtain ⟨hlt, hthread, hwaiting, hresult, hawake, -⟩ := h.outstanding _ _ _ hr
      exact ⟨hlt, hthread, hwaiting, hresult, hawake, hne, hall, hgathered⟩
    · rw [update_of_ne hs] at hr'
      have hco := h.co_ne hr hr' hs
      simp only [hother _ hco]
      exact h.outstanding _ _ _ hr'
  free := by
    intro session' hr'
    change update c.remote session (some (co, some (r, ps))) session' = none at hr'
    have hs : session' ≠ session := by
      rintro rfl
      rw [update_self] at hr'
      cases hr'
    rw [update_of_ne hs] at hr'
    exact h.free _ hr'
  idle := by
    intro co' hw
    have hco : co' ≠ co := by
      rintro rfl
      have hwaiting := (h.outstanding _ _ _ hr).2.2.1
      rw [show c.channel.waiting co' = none from hw] at hwaiting
      cases hwaiting
    obtain ⟨hresult, hdata, hawake⟩ := h.idle _ hw
    exact ⟨hresult, (hother _ hco).trans hdata, hawake⟩
  waits := by
    intro co' session' hw
    by_cases hco : co' = co
    · subst hco
      have hwaiting := (h.outstanding _ _ _ hr).2.2.1
      obtain rfl : session = session' := Option.some.inj (hwaiting.symm.trans hw)
      exact .inl ⟨_, update_self ..⟩
    · obtain ⟨response', hr'⟩ | ⟨hawake, r', hr', hreturned⟩ := h.waits _ _ hw
      · have hs : session' ≠ session := by
          rintro rfl
          rw [hr] at hr'
          exact hco (Prod.mk.inj (Option.some.inj hr')).1.symm
        exact .inl ⟨response', (update_of_ne hs ..).trans hr'⟩
      · refine .inr ⟨hawake, r', hr', ?_⟩
        simp only [hother _ hco]
        exact hreturned
  connected := h.connected
  known := h.known
  right := h.right
  counted := h.counted

/-- The last packet of a response wakes its coroutine up. -/
theorem last_inv {response} (h : c.Inv) (hr : c.remote session = some (co, response)) {r : Reply}
    {data : Data}
    (hdata : commandReq (waitForResponse (some (.ok r.ok)) (some data)) = r.returned) :
    Inv { c with
      channel := { c.channel with
        thread := update c.channel.thread session none
        result := update c.channel.result co (some (.ok r.ok))
        resultData := update c.channel.resultData co (some data)
        awake := update c.channel.awake co true }
      remote := update c.remote session none
      answered := update c.answered co (some r) } where
  outstanding := by
    intro session' co' response' hr'
    change update c.remote session none session' = some (co', response') at hr'
    have hs : session' ≠ session := by
      rintro rfl
      rw [update_self] at hr'
      cases hr'
    rw [update_of_ne hs] at hr'
    have hco := h.co_ne hr hr' hs
    simp only [update_of_ne hs, update_of_ne hco]
    exact h.outstanding _ _ _ hr'
  free := by
    intro session' hr'
    change update c.remote session none session' = none at hr'
    show update c.channel.thread session none session' = none
    by_cases hs : session' = session
    · subst hs
      exact update_self ..
    · rw [update_of_ne hs] at hr' ⊢
      exact h.free _ hr'
  idle := by
    intro co' hw
    have hco : co' ≠ co := by
      rintro rfl
      have hwaiting := (h.outstanding _ _ _ hr).2.2.1
      rw [show c.channel.waiting co' = none from hw] at hwaiting
      cases hwaiting
    simp only [update_of_ne hco]
    exact h.idle _ hw
  waits := by
    intro co' session' hw
    by_cases hco : co' = co
    · subst hco
      refine .inr ⟨update_self .., r, update_self .., ?_⟩
      simp only [update_self]
      exact hdata
    · unfold Waits
      simp only [update_of_ne hco]
      obtain ⟨response', hr'⟩ | hawake := h.waits _ _ hw
      · have hs : session' ≠ session := by
          rintro rfl
          rw [hr] at hr'
          exact hco (Prod.mk.inj (Option.some.inj hr')).1.symm
        exact .inl ⟨response', (update_of_ne hs ..).trans hr'⟩
      · exact .inr hawake
  connected := h.connected
  known := h.known
  right := h.right
  counted := h.counted

/-- The coroutine goes on with what it has to get. -/
theorem goOn_inv (h : c.Inv) (hw : c.channel.waiting co = some session)
    (hawake : c.channel.awake co = true) : (c.goOn co session).Inv := by
  have hremote : ∀ session' co' response, c.remote session' = some (co', response) → co' ≠ co := by
    rintro session' co' response hr rfl
    have hasleep := (h.outstanding _ _ _ hr).2.2.2.2.1
    rw [hawake] at hasleep
    cases hasleep
  exact {
    outstanding := by
      intro session' co' response hr
      have hco := hremote _ _ _ hr
      simp only [goOn, Channel.resume, update_of_ne hco]
      exact h.outstanding _ _ _ hr
    free := h.free
    idle := by
      intro co' hw'
      by_cases hco : co' = co
      · subst hco
        exact ⟨update_self .., update_self .., update_self ..⟩
      · simp only [goOn, Channel.resume, update_of_ne hco] at hw' ⊢
        exact h.idle _ hw'
    waits := by
      intro co' session' hw'
      have hco : co' ≠ co := by
        rintro rfl
        simp [goOn, Channel.resume] at hw'
      unfold Waits
      simp only [goOn, Channel.resume, update_of_ne hco] at hw' ⊢
      exact h.waits _ _ hw'
    connected := h.connected
    known := h.known
    right := by
      intro x hx
      obtain hx | hx := List.mem_append.mp hx
      · exact h.right x hx
      · obtain rfl := List.mem_singleton.mp hx
        obtain ⟨response, hr⟩ | ⟨-, r, hr, hreturned⟩ := h.waits _ _ hw
        · exact (hremote _ _ _ hr rfl).elim
        · exact ⟨r, hr, hreturned⟩
    counted := by
      intro co' session'
      show c.asked.count (co', session') =
        ((c.receipts ++ [Receipt.mk co session (c.answered co) (c.channel.resume co).2]).map
          fun x => (x.co, x.session)).count (co', session') +
        if update c.channel.waiting co none co' = some session' then 1 else 0
      rw [h.counted, List.map_append, List.count_append, List.map_singleton, List.count_singleton]
      by_cases hco : co' = co
      · subst hco
        rw [hw, update_self]
        simp
      · have hne : ((co, session) == (co', session')) = false :=
          beq_eq_false_iff_ne.mpr fun heq => hco (Prod.mk.inj heq).1.symm
        rw [update_of_ne hco, hne]
        rfl }

/-- The next packet of a response is read, and an outstanding session has its coroutine. -/
theorem deliver_inv {r : Reply} {p : Packet} {ps : List Packet} (h : c.Inv)
    (hr : c.remote session = some (co, some (r, p :: ps))) :
    ∃ c', c.step (.deliver session) = some c' ∧ c'.Inv := by
  obtain ⟨hlt, hthread, -, -, -, -, hall, hgathered⟩ := h.outstanding _ _ _ hr
  have hnext := dispatch_next hlt hthread hgathered (hall p (by simp))
  unfold Dispatched at hnext
  split_ifs at hnext with hlast
  · obtain ⟨data, hdispatch, hreturned⟩ := hnext
    refine ⟨_, ?_, last_inv h hr hreturned⟩
    simp only [step, hr, hdispatch, if_pos hlast]
    rfl
  · obtain ⟨data, hdispatch, hgathered'⟩ := hnext
    have hother : ∀ co', co' ≠ co →
        update c.channel.resultData co (some data) co' = c.channel.resultData co' :=
      fun co' hco => update_of_ne hco ..
    refine ⟨_, ?_, remote_inv h hr hother hlast (fun p' hp' => hall p' (List.mem_cons_of_mem _ hp'))
      (by rwa [update_self])⟩
    simp only [step, hr, hdispatch, if_neg hlast]
    rfl

theorem step_inv {c' : Client} {a : Exchange} (h : c.Inv) (hstep : c.step a = some c') :
    c'.Inv := by
  cases a with
  | ask co session =>
    simp only [step] at hstep
    split_ifs at hstep with hcond
    push Not at hcond
    obtain rfl := Option.some.inj hstep
    exact ask_inv h (by simpa using hcond.1) (by simpa using hcond.2.1) hcond.2.2
  | reply session r =>
    simp only [step] at hstep
    split at hstep
    · next co ps hr hps =>
      obtain rfl := Option.some.inj hstep
      obtain ⟨hlt, -, -, -, -, hdata⟩ := h.outstanding _ _ _ hr
      obtain ⟨ps', hps', hne, hall⟩ := r.packets_ok hlt
      obtain rfl : ps' = ps := Except.ok.inj (hps'.symm.trans hps)
      exact remote_inv h hr (fun _ _ => rfl) hne hall (by rw [hdata]; exact hps)
    · cases hstep
  | deliver session =>
    have hstep' := hstep
    simp only [step] at hstep'
    split at hstep'
    · next co r p ps hr =>
      obtain ⟨c'', hc'', hinv⟩ := deliver_inv h hr
      obtain rfl := Option.some.inj (hc''.symm.trans hstep)
      exact hinv
    · cases hstep'
  | resume co =>
    simp only [step] at hstep
    split at hstep
    · next session hw =>
      split_ifs at hstep with hawake
      obtain rfl := Option.some.inj hstep
      exact goOn_inv h hw hawake
    · cases hstep

/-- **Responses round-trip.** In every run, each request of a coroutine has got exactly one
result, or the coroutine still waits for it; each result is what the response to this request has
to give; no packet is dropped, the channel stays open, and nothing is left in the tables of a
coroutine that does not wait. Every response can be packed, every packet on its way can be read,
and a coroutine that waits for no packet more can go on. -/
theorem responses_round_trip {actions : List Exchange} (hrun : run step init actions = some c) :
    (∀ co session, c.asked.count (co, session) =
      (c.receipts.map fun x => (x.co, x.session)).count (co, session) +
        if c.channel.waiting co = some session then 1 else 0) ∧
    (∀ x ∈ c.receipts, ∃ r, x.reply = some r ∧ x.returned = r.returned) ∧
    c.channel.unknown = [] ∧ c.channel.sock = true ∧
    (∀ co, c.channel.waiting co = none →
      c.channel.result co = none ∧ c.channel.resultData co = none) ∧
    (∀ session, c.remote session = none → c.channel.thread session = none) ∧
    (∀ session co r, c.remote session = some (co, none) → (c.step (.reply session r)).isSome) ∧
    (∀ session co r ps, c.remote session = some (co, some (r, ps)) →
      (c.step (.deliver session)).isSome) ∧
    (∀ co session, c.channel.waiting co = some session →
      (∃ response, c.remote session = some (co, response)) ∨ (c.step (.resume co)).isSome) := by
  have h : c.Inv := run_invariant_of_step (fun _ _ _ => step_inv) init_inv hrun
  refine ⟨h.counted, h.right, h.known, h.connected, ?_, h.free, ?_, ?_, ?_⟩
  · intro co hw
    obtain ⟨hresult, hdata, -⟩ := h.idle co hw
    exact ⟨hresult, hdata⟩
  · intro session co r hr
    obtain ⟨ps, hps, -⟩ := r.packets_ok (h.outstanding _ _ _ hr).1
    simp only [step, hr, hps, Option.isSome_some]
  · intro session co r ps hr
    obtain ⟨-, -, -, -, -, hne, -⟩ := h.outstanding _ _ _ hr
    obtain ⟨p, ps, rfl⟩ := List.exists_cons_of_ne_nil hne
    obtain ⟨c', hc', -⟩ := deliver_inv h hr
    rw [hc', Option.isSome_some]
  · intro co session hw
    obtain hremote | ⟨hawake, -⟩ := h.waits _ _ hw
    · exact .inl hremote
    · refine .inr ?_
      simp only [step, hw, if_pos hawake, Option.isSome_some]

/-- A response of two parts, with an error between them. -/
theorem responses_round_trip_interleaved :
    let large : Reply := ⟨true, List.replicate (multiPart + 1) 1, fun _ => by
      rw [List.length_replicate]
      decide⟩
    let error : Reply := ⟨false, [110, 111], by simp⟩
    ∃ c, run step init [.ask 1 7, .ask 2 9, .reply 7 large, .reply 9 error, .deliver 7,
        .deliver 7, .deliver 9, .resume 2, .deliver 7, .resume 1] = some c ∧
      c.asked = [(1, 7), (2, 9)] ∧ c.receipts.length = 2 ∧
      ∀ x ∈ c.receipts, ∃ r, x.reply = some r ∧ x.returned = r.returned := by
  intro large error
  have hlen : large.msg.length = multiPart + 1 := List.length_replicate
  have h7 : 7 < 2 ^ 32 := by decide
  obtain ⟨p, ps, hps, hmulti, -, hall, hp⟩ :=
    large.packets_multi h7 rfl (by rw [hlen]; exact Nat.lt_succ_self _)
  have hdrop : (large.msg.drop multiPart).length ≤ multiPart := by
    rw [List.length_drop, hlen]
    decide
  obtain ⟨p₂, hp₂, hpre₂, hans₂⟩ := partLoop_last (packs_response h7) hdrop
  obtain ⟨p₁, hp₁, hpre₁, hans₁⟩ :=
    partLoop_more (packs_response h7) (by rw [hlen]; exact Nat.lt_succ_self _) hp₂
  obtain rfl : ps = [p₁, p₂] := (Except.ok.inj (hp₁.symm.trans hmulti)).symm
  have h9 : 9 < 2 ^ 32 := by decide
  obtain ⟨q, hq, hqprefix, hqans⟩ := error.packets_single h9 (by decide)
  have hread := readResponse_eq (hall p (by simp))
  have hread₁ := readResponse_eq hpre₁
  have hread₂ := readResponse_eq hpre₂
  have hreadq := readResponse_eq hqprefix
  rw [hp] at hread
  rw [hans₁] at hread₁
  rw [hans₂] at hread₂
  rw [hqans] at hreadq
  have hrun : ∃ c, run step init [.ask 1 7, .ask 2 9, .reply 7 large, .reply 9 error, .deliver 7,
        .deliver 7, .deliver 9, .resume 2, .deliver 7, .resume 1] = some c ∧
      c.asked = [(1, 7), (2, 9)] ∧ c.receipts.length = 2 := by
    simp [run_cons, step, init, ask, goOn, Channel.pushResponse, Channel.resume,
      Channel.dispatchBySession, tableInsert, hps, hq, hread, hread₁, hread₂, hreadq]
  obtain ⟨c, hrun, hasked, hcount⟩ := hrun
  exact ⟨c, hrun, hasked, hcount, (responses_round_trip hrun).2.1⟩

end Client

end SkynetEureka.Cluster
