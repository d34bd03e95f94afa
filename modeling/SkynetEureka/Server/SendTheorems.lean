import SkynetEureka.Server.Send

/-!
# One owner for each payload

A call that goes on behind the checks holds one pointer: the payload that was given to it, the copy
that it made, or `NULL`. It either pushes one message with it, or frees it.
-/

namespace SkynetEureka.Server

open HandleStore

variable {s s₁ s' : Node} {context ctx : Ctx} {source destination b : ℕ} {type : BitVec 32}
  {session r : ℤ} {data p : Ptr} {sz : BitVec 64} {m : Message}

/-! ## What a call is to do -/

/-- The block that a message hands over -/
def Message.block (m : Message) : Ptr :=
  match m.data with
  | .payload p => p
  | .remote rmsg => rmsg.message

/-- How often a block was freed or handed over -/
def Node.disposals (s : Node) (b : ℕ) : ℕ :=
  s.freed.count b + s.pushed.countP fun m => m.2.block = some b

/-- The payload is not to be copied. -/
def Dontcopy (type : BitVec 32) : Prop := type &&& ptypeTagDontcopy ≠ 0

instance (type : BitVec 32) : Decidable (Dontcopy type) := inferInstanceAs (Decidable (_ ≠ _))

/-- What the caller promises: the payload is allocated, and what is to be copied is there. -/
def Promised (s : Node) (type : BitVec 32) (data : Ptr) (sz : BitVec 64) : Prop :=
  ∀ b, data = some b → b < s.next ∧ ∃ bytes, s.heap b = some bytes ∧
    (¬ Dontcopy type → sz &&& messageTypeMask = sz → sz.toNat ≤ bytes.length)

/-- The session that a message is sent with -/
def sessionOf (s : Node) (context : Ctx) (type : BitVec 32) (session : ℤ) : ℤ :=
  if type &&& ptypeTagAllocsession ≠ 0 then (skynetContextNewsession s context).2 else session

/-- What a call owns: the payload given to it, and the blocks it allocates -/
def Owned (s s' : Node) (type : BitVec 32) (data : Ptr) (b : ℕ) : Prop :=
  Dontcopy type ∧ data = some b ∨ s.next ≤ b ∧ b < s'.next

/-- What a call has done when it returns `r`; `unsent` says that there is nothing to send. -/
structure Settled (s s' : Node) (context : Ctx) (type : BitVec 32) (session : ℤ) (data : Ptr)
    (sz : BitVec 64) (unsent : Prop) (r : ℤ) : Prop where
  /-- What the call owns is freed once, or handed over once. -/
  once : ∀ b, Owned s s' type data b → s'.disposals b = s.disposals b + 1
  /-- Other blocks are left alone. -/
  kept : ∀ b, ¬ Owned s s' type data b → s'.disposals b = s.disposals b ∧ s'.heap b = s.heap b
  /-- The bytes of the payload, or of the copy with a byte 0 -/
  bytes : ∀ m, s'.pushed = s.pushed ++ [m] → ∀ b, m.2.block = some b →
    ∃ d bytes, data = some d ∧ s.heap d = some bytes ∧
      s'.heap b = some (if Dontcopy type then bytes else bytes.take sz.toNat ++ [0])
  /-- The session is returned for a message that is accepted, or if there is nothing to send. -/
  result : (∃ m, s'.pushed = s.pushed ++ [m] ∧ m.2.session = r) ∧
        r = sessionOf s context type session ∨
      s'.pushed = s.pushed ∧
        (r = -1 ∨ r = -2 ∨ unsent ∧ data = none ∧ r = sessionOf s context type session)

/-- Every return is settled, a payload that is copied is left to the caller, and memory is not
misused. -/
def Settles (s : Node) (context : Ctx) (type : BitVec 32) (session : ℤ) (data : Ptr)
    (sz : BitVec 64) (unsent : Prop) : Except Stop (Node × ℤ) → Prop
  | .error stop => stop = .abort
  | .ok (s', r) => Settled s s' context type session data sz unsent r ∧
    ∀ d, data = some d → ¬ Dontcopy type → s'.disposals d = s.disposals d ∧ s'.heap d = s.heap d

theorem Settled.settles {unsent : Prop} (h : Settled s s' context type session data sz unsent r)
    (hdata : Promised s type data sz) :
    Settles s context type session data sz unsent (.ok (s', r)) := by
  refine ⟨h, ?_⟩
  intro d hd hcopy
  apply h.kept
  rintro (⟨hdont, -⟩ | ⟨hge, -⟩)
  · exact hcopy hdont
  · have hlt := (hdata d hd).1
    omega

/-! ## What is held -/

/-- Nothing is freed or pushed yet; `p` is the payload of the caller, a copy of it, or `NULL`. -/
structure Held (s s₁ : Node) (type : BitVec 32) (data : Ptr) (sz : BitVec 64) (p : Ptr) :
    Prop where
  freed : s₁.freed = s.freed
  pushed : s₁.pushed = s.pushed
  block : (p = (if Dontcopy type then data else none) ∧ s₁.next = s.next ∧ s₁.heap = s.heap) ∨
    ∃ d bytes, ¬ Dontcopy type ∧ data = some d ∧ s.heap d = some bytes ∧ p = some s.next ∧
      s₁.next = s.next + 1 ∧
      s₁.heap = Function.update s.heap s.next (some (bytes.take sz.toNat ++ [0]))

namespace Held

theorem owned_iff (h : Held s s₁ type data sz p) (hnext : s'.next = s₁.next) :
    Owned s s' type data b ↔ p = some b := by
  unfold Owned
  rcases h.block with ⟨rfl, heq, -⟩ | ⟨d, bytes, hcopy, -, -, rfl, heq, -⟩
  · rw [hnext, heq]
    by_cases hdont : Dontcopy type
    · rw [if_pos hdont]
      constructor
      · rintro (⟨-, hdata⟩ | hrange)
        · exact hdata
        · omega
      · intro hdata
        exact Or.inl ⟨hdont, hdata⟩
    · rw [if_neg hdont]
      constructor
      · rintro (⟨hdont', -⟩ | hrange)
        · exact absurd hdont' hdont
        · omega
      · intro hnone
        cases hnone
  · rw [hnext, heq, Option.some.injEq]
    constructor
    · rintro (⟨hdont, -⟩ | hrange)
      · exact absurd hdont hcopy
      · omega
    · intro hb
      exact Or.inr (by omega)

/-- What is held is allocated, with the bytes that it should have. -/
theorem bytes (h : Held s s₁ type data sz p) (hdata : Promised s type data sz) (hp : p = some b) :
    ∃ d bytes, data = some d ∧ s.heap d = some bytes ∧
      s₁.heap b = some (if Dontcopy type then bytes else bytes.take sz.toNat ++ [0]) := by
  rcases h.block with ⟨rfl, -, hheap⟩ | ⟨d, bytes, hcopy, hd, hbytes, rfl, -, hheap⟩
  · by_cases hdont : Dontcopy type
    · rw [if_pos hdont] at hp
      obtain ⟨-, bytes, hbytes, -⟩ := hdata b hp
      refine ⟨b, bytes, hp, hbytes, ?_⟩
      rw [hheap, hbytes, if_pos hdont]
    · rw [if_neg hdont] at hp
      cases hp
  · cases hp
    refine ⟨d, bytes, hd, hbytes, ?_⟩
    rw [hheap, Function.update_self, if_neg hcopy]

/-- Blocks that are not held are as they were. -/
theorem heap_eq (h : Held s s₁ type data sz p) (hb : p ≠ some b) : s₁.heap b = s.heap b := by
  rcases h.block with ⟨-, -, hheap⟩ | ⟨d, bytes, -, -, -, rfl, -, hheap⟩
  · rw [hheap]
  · rw [hheap, Function.update_of_ne]
    intro heq
    exact hb (congrArg some heq.symm)

theorem disposals_eq (h : Held s s₁ type data sz p) : s₁.disposals b = s.disposals b := by
  unfold Node.disposals
  rw [h.freed, h.pushed]

theorem error {text : String} (h : Held s s₁ type data sz p) :
    Held s (s₁.error ctx text) type data sz p :=
  ⟨h.freed, h.pushed, h.block⟩

/-- One message takes over what is held. -/
theorem push {unsent : Prop} (h : Held s s₁ type data sz p) (hdata : Promised s type data sz)
    (hm : m.block = p) (hsession : m.session = r) (hr : r = sessionOf s context type session) :
    Settled s (s₁.push ctx m) context type session data sz unsent r where
  once := by
    intro b hb
    have hp := (h.owned_iff rfl).mp hb
    rw [← h.disposals_eq]
    unfold Node.disposals Node.push
    dsimp only
    rw [List.countP_append, List.countP_singleton,
      if_pos (by rw [hm, hp]; exact decide_eq_true rfl), Nat.add_assoc]
  kept := by
    intro b hb
    have hp : p ≠ some b := fun hp => hb ((h.owned_iff rfl).mpr hp)
    refine ⟨?_, h.heap_eq hp⟩
    rw [← h.disposals_eq]
    unfold Node.disposals Node.push
    dsimp only
    rw [List.countP_append, List.countP_singleton,
      if_neg (by rw [hm]; exact fun he => hp (of_decide_eq_true he)), Nat.add_zero]
  bytes := by
    intro m' hpush b hb
    have hlast : (ctx, m) = m' := by
      rw [show (s₁.push ctx m).pushed = s₁.pushed ++ [(ctx, m)] from rfl, h.pushed] at hpush
      exact List.singleton_inj.mp (List.append_cancel_left hpush)
    rw [← hlast, hm] at hb
    exact h.bytes hdata hb
  result := by
    left
    refine ⟨⟨(ctx, m), ?_, hsession⟩, hr⟩
    rw [← h.pushed]
    rfl

/-- What is held is freed. -/
theorem free {unsent : Prop} (h : Held s s₁ type data sz p) (hdata : Promised s type data sz)
    (hr : r = -1 ∨ r = -2) :
    ∃ s', s₁.free p = .ok s' ∧ Settled s s' context type session data sz unsent r := by
  have hresult : s₁.pushed = s.pushed ∧
      (r = -1 ∨ r = -2 ∨ unsent ∧ data = none ∧ r = sessionOf s context type session) :=
    ⟨h.pushed, hr.imp_right Or.inl⟩
  have hbytes : ∀ m, s₁.pushed ≠ s.pushed ++ [m] := by
    intro m hm
    rw [h.pushed] at hm
    have hlen := congrArg List.length hm
    rw [List.length_append, List.length_singleton] at hlen
    omega
  cases hp : p with
  | none =>
    rw [hp] at h
    refine ⟨s₁, rfl, ?_, ?_, fun m hm => absurd hm (hbytes m), Or.inr hresult⟩
    · intro b hb
      cases (h.owned_iff rfl).mp hb
    · intro b hb
      exact ⟨h.disposals_eq, h.heap_eq (by intro hnone; cases hnone)⟩
  | some c =>
    rw [hp] at h
    obtain ⟨d, bytes, -, -, hc⟩ := h.bytes hdata rfl
    have hfree : s₁.free (some c) = .ok { s₁ with
        heap := Function.update s₁.heap c none, freed := s₁.freed ++ [c] } := by
      unfold Node.free
      dsimp only
      rw [hc]
      rfl
    refine ⟨_, hfree, ?_, ?_, fun m hm => absurd hm (hbytes m), Or.inr hresult⟩
    · intro b hb
      have hcb : some c = some b := (h.owned_iff rfl).mp hb
      cases hcb
      rw [← h.disposals_eq]
      unfold Node.disposals
      dsimp only
      rw [List.count_append, List.count_singleton_self, Nat.add_right_comm]
    · intro b hb
      have hne : some c ≠ some b := fun hcb => hb ((h.owned_iff rfl).mpr hcb)
      have hcb : c ≠ b := fun heq => hne (congrArg some heq)
      constructor
      · rw [← h.disposals_eq]
        unfold Node.disposals
        dsimp only
        rw [List.count_append, List.count_singleton, if_neg (by simpa using hcb), Nat.add_zero]
      · dsimp only
        rw [Function.update_of_ne hcb.symm]
        exact h.heap_eq hne

end Held

/-! ## Calls -/

theorem Settles.mono {unsent unsent' : Prop} {e : Except Stop (Node × ℤ)}
    (h : Settles s context type session data sz unsent e) (himp : unsent → unsent') :
    Settles s context type session data sz unsent' e := by
  rcases e with stop | ⟨s', r⟩
  · exact h
  · obtain ⟨hsettled, huntouched⟩ := h
    refine ⟨⟨hsettled.once, hsettled.kept, hsettled.bytes, ?_⟩, huntouched⟩
    rcases hsettled.result with haccepted | ⟨hpushed, hr⟩
    · exact Or.inl haccepted
    · exact Or.inr ⟨hpushed, hr.imp_right (Or.imp_right (And.imp_left himp))⟩

theorem ok_bind {α β : Type} (a : α) (f : α → Except Stop β) : (.ok a >>= f) = f a := rfl

/-- The payload is dropped before anything is held. -/
theorem held_of_unfiltered : Held s s type data sz (if Dontcopy type then data else none) :=
  ⟨rfl, rfl, Or.inl ⟨rfl, rfl, rfl⟩⟩

/-- An early exit: the payload is freed if the call owns it. -/
theorem settles_drop {unsent : Prop}
    (h : Held s s₁ type data sz (if Dontcopy type then data else none))
    (hdata : Promised s type data sz) (hr : r = -1 ∨ r = -2) :
    Settles s context type session data sz unsent (do
      let s ← freeGiven s₁ type data
      .ok (s, r)) := by
  obtain ⟨s', hfree, hsettled⟩ : ∃ s', s₁.free (if Dontcopy type then data else none) = .ok s' ∧
      Settled s s' context type session data sz unsent r := h.free hdata hr
  have hgiven : freeGiven s₁ type data = .ok s' := by
    unfold freeGiven
    by_cases hdont : Dontcopy type
    · rw [if_pos hdont] at hfree
      rw [if_pos (show type &&& ptypeTagDontcopy ≠ 0 from hdont), hfree]
    · rw [if_neg hdont] at hfree
      rw [if_neg (show ¬ type &&& ptypeTagDontcopy ≠ 0 from hdont)]
      exact hfree
  rw [hgiven]
  exact hsettled.settles hdata

/-- A new session leaves the memory alone. -/
theorem filterSession_cases : filterSession s context type session = .error .abort ∨
    ∃ s₁, filterSession s context type session = .ok (s₁, sessionOf s context type session) ∧
      s₁.freed = s.freed ∧ s₁.pushed = s.pushed ∧ s₁.next = s.next ∧ s₁.heap = s.heap := by
  unfold filterSession sessionOf
  by_cases halloc : type &&& ptypeTagAllocsession ≠ 0
  · rw [if_pos halloc, if_pos halloc]
    by_cases hzero : session = 0
    · right
      rw [if_pos hzero]
      refine ⟨(skynetContextNewsession s context).1, rfl, ?_⟩
      unfold skynetContextNewsession
      dsimp only
      split
      · exact ⟨rfl, rfl, rfl, rfl⟩
      · exact ⟨rfl, rfl, rfl, rfl⟩
    · rw [if_neg hzero]
      exact Or.inl rfl
  · rw [if_neg halloc, if_neg halloc]
    exact Or.inr ⟨s, rfl, rfl, rfl, rfl, rfl⟩

/-- The copy is made of what the caller promises. -/
theorem filterData_held {s₀ : Node} (hdata : Promised s type data sz)
    (hsz : sz &&& messageTypeMask = sz) (hfreed : s₀.freed = s.freed)
    (hpushed : s₀.pushed = s.pushed) (hnext : s₀.next = s.next) (hheap : s₀.heap = s.heap) :
    ∃ s₁ p, filterData s₀ type data sz = .ok (s₁, p) ∧ Held s s₁ type data sz p ∧
      (p = none → data = none) := by
  unfold filterData
  cases hp : data with
  | none =>
    refine ⟨s₀, none, rfl, ⟨hfreed, hpushed, Or.inl ⟨?_, hnext, hheap⟩⟩, fun _ => rfl⟩
    exact (ite_self none).symm
  | some d =>
    obtain ⟨-, bytes, hbytes, hlen⟩ := hdata d hp
    dsimp only
    by_cases hcopy : type &&& ptypeTagDontcopy = 0
    · have hnot : ¬ Dontcopy type := fun hdont => hdont hcopy
      have hmsg : copied s₀ d sz.toNat = .ok (bytes.take sz.toNat) := by
        unfold copied
        rw [hheap, hbytes]
        exact if_pos (hlen hnot hsz)
      rw [if_pos hcopy, hmsg, ok_bind]
      refine ⟨_, _, rfl, ⟨hfreed, hpushed, Or.inr ⟨d, bytes, hnot, rfl, hbytes,
        congrArg some hnext, ?_, ?_⟩⟩, ?_⟩
      · show s₀.next + 1 = s.next + 1
        rw [hnext]
      · show Function.update s₀.heap s₀.next _ = _
        rw [hheap, hnext]
      · intro hnone
        cases hnone
    · rw [if_neg hcopy]
      refine ⟨s₀, some d, rfl, ⟨hfreed, hpushed, Or.inl ⟨(if_pos hcopy).symm, hnext, hheap⟩⟩, ?_⟩
      intro hnone
      cases hnone

/-- `_filter_args` makes the copy and the session. -/
theorem filterArgs_cases (hdata : Promised s type data sz)
    (hsz : sz &&& messageTypeMask = sz) :
    filterArgs s context type session data sz = .error .abort ∨
      ∃ s₁ p, filterArgs s context type session data sz =
          .ok (s₁, sessionOf s context type session, p,
            sz ||| (type &&& 0xff).setWidth 64 <<< messageTypeShift) ∧
        Held s s₁ type data sz p ∧ (p = none → data = none) := by
  unfold filterArgs
  have hcases : filterSession s context type session = .error .abort ∨ _ := filterSession_cases
  rcases hcases with habort | ⟨s₀, hsession, hfreed, hpushed, hnext, hheap⟩
  · left
    rw [habort]
    rfl
  · right
    obtain ⟨s₁, p, hfilter, hheld, hnull⟩ := filterData_held hdata hsz hfreed hpushed hnext hheap
    rw [hsession, ok_bind]
    dsimp only
    rw [hfilter]
    exact ⟨s₁, p, rfl, hheld, hnull⟩

theorem settles_harborSend {unsent : Prop} {rmsg : RemoteMessage} (h : Held s s₁ type data sz p)
    (hdata : Promised s type data sz) (hp : rmsg.message = p) :
    Settles s context type session data sz unsent (do
      let s₂ ← skynetHarborSend s₁ rmsg source (sessionOf s context type session)
      .ok (s₂, sessionOf s context type session)) := by
  unfold skynetHarborSend
  split
  · cases s₁.remote with
    | none => rfl
    | some ctx =>
      apply Settled.settles _ hdata
      exact h.push hdata hp rfl rfl
  · rfl

/-- `skynet_send` settles its payload. -/
theorem skynetSend_settles (hdata : Promised s type data sz) :
    Settles s context type session data sz (destination = 0)
      (skynetSend s context source destination type session data sz) := by
  unfold skynetSend
  by_cases hsz : sz &&& messageTypeMask = sz
  · rw [if_neg (not_not_intro hsz)]
    have hcases : filterArgs s context type session data sz = .error .abort ∨ _ :=
      filterArgs_cases hdata hsz
    rcases hcases with habort | ⟨s₁, p, hfilter, hheld, hnull⟩
    · rw [habort]
      rfl
    · rw [hfilter, ok_bind]
      dsimp only
      by_cases hdest : destination = 0
      · rw [if_pos hdest]
        cases p with
        | none =>
          apply Settled.settles _ hdata
          refine ⟨?_, ?_, ?_, Or.inr ⟨hheld.pushed, Or.inr (Or.inr ⟨hdest, hnull rfl, rfl⟩)⟩⟩
          · intro b hb
            cases (hheld.owned_iff rfl).mp hb
          · intro b hb
            exact ⟨hheld.disposals_eq, hheld.heap_eq (by intro hnone; cases hnone)⟩
          · intro m hm
            rw [hheld.pushed] at hm
            have hlen := congrArg List.length hm
            rw [List.length_append, List.length_singleton] at hlen
            omega
        | some c =>
          obtain ⟨s', hfree, hsettled⟩ :
              ∃ s', (s₁.error context "Destination address can't be 0").free (some c) = .ok s' ∧
                Settled s s' context type session data sz (destination = 0) (-1) :=
            hheld.error.free hdata (Or.inl rfl)
          show Settles _ _ _ _ _ _ _ (Node.free _ (some c) >>= _)
          rw [hfree]
          exact hsettled.settles hdata
      · rw [if_neg hdest]
        cases hremote : skynetHarborMessageIsremote s₁ destination with
        | error stop =>
          unfold skynetHarborMessageIsremote at hremote
          split at hremote
          · cases hremote
            rfl
          · cases hremote
        | ok remote =>
          rw [ok_bind]
          cases remote with
          | true =>
            rw [if_pos rfl]
            exact settles_harborSend (p := p) hheld hdata rfl
          | false =>
            rw [if_neg Bool.false_ne_true]
            unfold skynetContextPush
            cases skynetHandleGrab s₁.handle s₁.store destination with
            | none =>
              obtain ⟨s', hfree, hsettled⟩ := hheld.free hdata (Or.inl rfl)
              dsimp only
              rw [hfree]
              exact hsettled.settles hdata
            | some ctx =>
              apply Settled.settles _ hdata
              exact hheld.push hdata rfl rfl rfl
  · rw [if_pos hsz]
    exact settles_drop held_of_unfiltered.error hdata (Or.inr rfl)

/-- The address stands for no handle. -/
def Nowhere (addr : List UInt8) : Prop :=
  ∃ digits, addr = 58 :: digits ∧ strtoul digits % 2 ^ 32 = 0

/-- `skynet_sendname` settles its payload. -/
theorem skynetSendname_settles {addr : List UInt8} (hdata : Promised s type data sz) :
    Settles s context type session data sz (Nowhere addr)
      (skynetSendname s context source addr type session data sz) := by
  unfold skynetSendname
  dsimp only
  split
  · rename_i digits
    apply (skynetSend_settles hdata).mono
    intro hzero
    exact ⟨digits, rfl, hzero⟩
  · split
    · exact settles_drop held_of_unfiltered hdata (Or.inl rfl)
    · rename_i hdes
      apply (skynetSend_settles hdata).mono
      intro hzero
      exact absurd hzero hdes
  · by_cases hsz : sz &&& messageTypeMask = sz
    · rw [if_neg (not_not_intro hsz)]
      have hcases : filterArgs s context type session data sz = .error .abort ∨ _ :=
        filterArgs_cases hdata hsz
      rcases hcases with habort | ⟨s₁, p, hfilter, hheld, -⟩
      · rw [habort]
        rfl
      · rw [hfilter, ok_bind]
        exact settles_harborSend (p := p) hheld hdata rfl
    · rw [if_pos hsz]
      exact settles_drop held_of_unfiltered.error hdata (Or.inr rfl)

/-- Both calls settle the payload, whatever they are given. -/
theorem payload_has_one_owner (s : Node) (context : Ctx) (source : ℕ) (type : BitVec 32)
    (session : ℤ) (data : Ptr) (sz : BitVec 64) (hdata : Promised s type data sz) :
    (∀ destination, Settles s context type session data sz (destination = 0)
      (skynetSend s context source destination type session data sz)) ∧
    ∀ addr, Settles s context type session data sz (Nowhere addr)
      (skynetSendname s context source addr type session data sz) :=
  ⟨fun _ => skynetSend_settles hdata, fun _ => skynetSendname_settles hdata⟩

/-- A node with nothing on it but one block of three bytes -/
def bareNode : Node where
  store := skynetHandleInit 1
  names := NameStorage.init fun _ => ⟨[], 0⟩
  harbor := some 0x01000000
  remote := none
  handle := fun _ => 0
  sessionId := fun _ => 0
  heap := fun b => if b = 0 then some [1, 2, 3] else none
  next := 1
  freed := []
  pushed := []
  errors := []

theorem payload_has_one_owner_bare : Promised bareNode 0 (some 0) 3 ∧
    (∀ destination, Settles bareNode 0 0 7 (some 0) 3 (destination = 0)
      (skynetSend bareNode 0 0 destination 0 7 (some 0) 3)) ∧
    ∀ addr, Settles bareNode 0 0 7 (some 0) 3 (Nowhere addr)
      (skynetSendname bareNode 0 0 addr 0 7 (some 0) 3) := by
  have hdata : Promised bareNode 0 (some 0) 3 := by
    intro b hb
    cases hb
    exact ⟨by decide, [1, 2, 3], rfl, fun _ _ => by decide⟩
  exact ⟨hdata, payload_has_one_owner bareNode 0 0 0 7 (some 0) 3 hdata⟩

/-- Without a payload, the session comes back from destination 0, and no message is pushed. -/
theorem session_without_message : ¬ ∀ s r, skynetSend bareNode 0 0 0 0 7 none 0 = .ok (s, r) →
    (r = 7 ↔ ∃ m, s.pushed = bareNode.pushed ++ [m]) := by
  intro hclaim
  obtain ⟨m, hm⟩ := (hclaim bareNode 7 rfl).mp rfl
  cases hm

end SkynetEureka.Server
