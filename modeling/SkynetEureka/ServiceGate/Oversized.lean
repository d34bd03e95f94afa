import SkynetEureka.ServiceGate.Contents

/-!
# Packages that are too long

A header of 4 bytes can give a length of 16 MiB and more. The gate closes such a connection when the
package is there; a length that does not fit an int is taken for a negative one, for which the gate
waits without an end.
-/

namespace SkynetEureka.ServiceGate

open Lib Function Relation

/-- The headers that are read in the bytes, each with the number of bytes behind it, of at most so
many. Behind a package that is too long, or that has not come, none is read. -/
def headersLoop (headerSize : ℕ) (served : Bool) : ℕ → List UInt8 → List (ℕ × ℕ)
  | 0, _ => []
  | n + 1, bytes =>
    let rest := bytes.drop headerSize
    let length := ofLeBytes (bytes.take headerSize).reverse
    if bytes.length < headerSize then []
    else
      (length, rest.length) ::
        if 0x1000000 ≤ length ∨ rest.length < length then []
        -- without a receiver the body is not read
        else headersLoop headerSize served n (if served then rest.drop length else rest)

/-- The headers that `dispatch_message` reads, when it does not wait for a package that is too
long -/
def Framed.headers (headerSize : ℕ) (served : Bool) (f : Framed) : List (ℕ × ℕ) :=
  if f.header = 0 then headersLoop headerSize served f.bytes.length f.bytes
  else if (f.bytes.length : ℤ) < f.header then []
  else
    headersLoop headerSize served f.bytes.length
      (if served then f.bytes.drop f.header.toNat else f.bytes)

/-- The headers that are read when a block comes -/
def Gate.headers (g : Gate) (id : ℕ) (c : Connection) (data : List UInt8) : List (ℕ × ℕ) :=
  ((c.framed (c.buffer.contents g.mp)).receive data).headers g.headerSize
    (g.receiver id c).isSome

/-- The sizes fit an int, and a package that is too long is there with the last byte of its
header. -/
def Gate.Fits (g : Gate) : Action → Prop
  | .data id data => ∀ c ∈ g.connection id,
      (c.buffer.contents g.mp).length + data.length < 2 ^ 31 ∧
        ∀ p ∈ g.headers id c data, 0x1000000 ≤ p.1 → p.1 < 2 ^ 31 ∧ p.1 ≤ p.2
  | _ => True

/-- A step refuses packages that are too long. -/
structure Gate.Refuses (g : Gate) (a : Action) : Prop where
  /-- No assertion fails. -/
  step : (g.step a).isSome
  /-- When such a header is read, the socket is closed, and the buffer is empty. -/
  closes : ∀ id data c g' c', a = .data id data → data ≠ [] → g.connection id = some c →
    g.step a = some g' → g'.connection id = some c' →
      (∃ p ∈ g.headers id c data, 0x1000000 ≤ p.1) →
        c'.closes = c.closes + 1 ∧ c'.buffer = .init
  /-- No such package is waited for or has been copied. -/
  waits : ∀ id g' c', g.step a = some g' → g'.connection id = some c' →
    0 ≤ c'.buffer.header ∧ c'.buffer.header < 0x1000000 ∧
      ∀ sent ∈ c'.sent, sent.body.length < 0x1000000

section

variable {headerSize n : ℕ} {served : Bool} {bytes : List UInt8} {f f' f₁ : Framed}
  {receiver : Option (ℕ × ℕ × List UInt8)}

theorem headersLoop_succ : headersLoop headerSize served (n + 1) bytes =
    if bytes.length < headerSize then []
    else
      (ofLeBytes (bytes.take headerSize).reverse, (bytes.drop headerSize).length) ::
        if 0x1000000 ≤ ofLeBytes (bytes.take headerSize).reverse ∨
          (bytes.drop headerSize).length < ofLeBytes (bytes.take headerSize).reverse then []
        else
          headersLoop headerSize served n
            (if served then
              (bytes.drop headerSize).drop (ofLeBytes (bytes.take headerSize).reverse)
            else bytes.drop headerSize) := rfl

/-- There are enough rounds. -/
theorem headersLoop_rounds (hpos : 0 < headerSize) (hle : bytes.length ≤ n) :
    headersLoop headerSize served n bytes =
      headersLoop headerSize served bytes.length bytes := by
  induction n using Nat.strong_induction_on generalizing bytes with
  | _ n ih =>
    cases n with
    | zero => rw [Nat.le_zero.mp hle]
    | succ n =>
      by_cases hlt : bytes.length < headerSize
      · rw [headersLoop_succ, if_pos hlt]
        cases hlength : bytes.length with
        | zero => rfl
        | succ m => rw [headersLoop_succ, if_pos hlt]
      · obtain ⟨m, hm⟩ := Nat.exists_eq_add_of_lt (hpos.trans_le (not_lt.mp hlt))
        rw [Nat.zero_add] at hm
        rw [hm, headersLoop_succ, headersLoop_succ, if_neg hlt, if_neg hlt]
        set next := if served then
          (bytes.drop headerSize).drop (ofLeBytes (bytes.take headerSize).reverse)
          else bytes.drop headerSize
        have hnext : next.length ≤ m := by
          have hdrop : (bytes.drop headerSize).length ≤ m := by
            rw [List.length_drop]
            omega
          show (if served then _ else _ : List UInt8).length ≤ m
          split
          · rw [List.length_drop]
            omega
          · exact hdrop
        rw [ih n (Nat.lt_succ_self n) (by omega), ih m (by omega) hnext]

/-! ## One block -/

/-- No package that is too long is waited for. -/
def Framed.Short (f : Framed) : Prop := 0 ≤ f.header ∧ f.header < 0x1000000

/-- Each package that is too long is there with its header, and its length fits an int. -/
def Framed.Fits (headerSize : ℕ) (served : Bool) (f : Framed) : Prop :=
  ∀ p ∈ f.headers headerSize served, 0x1000000 ≤ p.1 → p.1 < 2 ^ 31 ∧ p.1 ≤ p.2

/-- What `dispatch_message` makes of such bytes -/
structure Framed.Refused (headerSize : ℕ) (served : Bool) (f f' : Framed) : Prop where
  short : f'.Short
  closes : (∃ p ∈ f.headers headerSize served, 0x1000000 ≤ p.1) →
    f'.closes = f.closes + 1 ∧ f'.header = 0 ∧ f'.bytes = []

/-- A connection that waits reads no header. -/
theorem Framed.headers_of_next (hshort : f.Short) (h : f.next headerSize receiver = none) :
    f.headers headerSize served = [] := by
  have hwaits := Framed.waits_of_next h hshort.1
  unfold Waits at hwaits
  unfold headers
  by_cases hzero : f.header = 0
  · rw [if_pos hzero] at hwaits ⊢
    cases f.bytes.length with
    | zero => rfl
    | succ n => rw [headersLoop_succ, if_pos hwaits]
  · rw [if_neg hzero] at hwaits ⊢
    rw [if_pos hwaits]

theorem Framed.refused_of_next (hshort : f.Short) (h : f.next headerSize receiver = none) :
    Refused headerSize served f f := by
  have hnil := @headers_of_next _ served _ _ hshort h
  refine ⟨hshort, ?_⟩
  rintro ⟨p, hp, -⟩
  rw [hnil] at hp
  cases hp

/-- The rest of the loop reads the same headers. -/
theorem Framed.Refused.of_headers (h : f₁.Refused headerSize served f')
    (hheaders : f.headers headerSize served = f₁.headers headerSize served)
    (hcloses : f₁.closes = f.closes) : f.Refused headerSize served f' := by
  refine ⟨h.short, ?_⟩
  rw [hheaders, ← hcloses]
  exact h.closes

/-- The first header, and those behind it -/
theorem Framed.headers_cons (hpos : 0 < headerSize) (hzero : f.header = 0)
    (hle : headerSize ≤ f.bytes.length)
    (hlt : ofLeBytes (f.bytes.take headerSize).reverse < 0x1000000)
    (hf₁ : f₁ = { f with
      header := ofLeBytes (f.bytes.take headerSize).reverse
      bytes := f.bytes.drop headerSize }) :
    f.headers headerSize served =
      (ofLeBytes (f.bytes.take headerSize).reverse, (f.bytes.drop headerSize).length) ::
        f₁.headers headerSize served := by
  subst hf₁
  obtain ⟨m, hm⟩ := Nat.exists_eq_add_of_lt (hpos.trans_le hle)
  rw [Nat.zero_add] at hm
  have hrest : (f.bytes.drop headerSize).length ≤ m := by
    rw [List.length_drop]
    omega
  unfold headers
  dsimp only
  rw [if_pos hzero, hm, headersLoop_succ, if_neg (by omega)]
  congr 1
  set length := ofLeBytes (f.bytes.take headerSize).reverse
  set rest := f.bytes.drop headerSize
  by_cases hempty : length = 0
  · -- the next header is behind this one
    rw [if_neg (show ¬(0x1000000 ≤ length ∨ rest.length < length) by omega),
      if_pos (show (length : ℤ) = 0 by omega), hempty, List.drop_zero, ite_self]
    exact headersLoop_rounds hpos hrest
  · rw [if_neg (show ¬(length : ℤ) = 0 by omega)]
    by_cases hcut : rest.length < length
    · rw [if_pos (.inr hcut), if_pos (show (rest.length : ℤ) < length by omega)]
    · rw [if_neg (show ¬(0x1000000 ≤ length ∨ rest.length < length) by omega),
        if_neg (show ¬(rest.length : ℤ) < length by omega), Int.toNat_natCast]
      have hnext : (if served then rest.drop length else rest).length ≤ rest.length := by
        split
        · rw [List.length_drop]
          omega
        · exact le_rfl
      rw [headersLoop_rounds hpos hnext, headersLoop_rounds hpos (hnext.trans hrest)]

theorem readLength_eq {plen : List UInt8} (hlt : ofLeBytes plen.reverse < 2 ^ 31) :
    Databuffer.readLength headerSize plen = ofLeBytes plen.reverse := if_pos (.inr hlt)

/-- The headers behind a package that has come -/
theorem Framed.headers_forward (hpos : 0 < headerSize) (hheader : 0 < f.header)
    (hle : f.header ≤ f.bytes.length) :
    f.headers headerSize receiver.isSome =
      (f.forward receiver).headers headerSize receiver.isSome := by
  cases receiver with
  | none =>
    unfold headers forward
    dsimp only
    rw [if_neg hheader.ne', if_neg (by omega), if_pos rfl]
    rfl
  | some r =>
    obtain ⟨dest, source, text⟩ := r
    unfold headers forward
    dsimp only
    rw [if_neg hheader.ne', if_neg (by omega), if_pos rfl]
    refine headersLoop_rounds hpos ?_
    show (f.bytes.drop f.header.toNat).length ≤ _
    rw [List.length_drop]
    exact Nat.sub_le _ _

theorem Framed.closes_forward : (f.forward receiver).closes = f.closes := by
  unfold forward
  split <;> rfl

theorem Framed.header_forward : (f.forward receiver).header = 0 := by
  unfold forward
  split <;> rfl

/-- A package that is too long has come: the connection is closed. -/
theorem Framed.Drains.closed (hpos : 0 < headerSize) (h : f.Drains headerSize receiver f')
    (hbig : 0x1000000 ≤ f.header) (hle : f.header ≤ f.bytes.length) :
    f' = { f with header := 0, bytes := [], closes := f.closes + 1 } := by
  have hnext : f.Next headerSize receiver
      { f with header := 0, bytes := [], closes := f.closes + 1 } := by
    unfold Next next
    rw [if_neg (by omega), if_neg (by omega), if_pos hbig]
  have hdrains := hnext.drains_iff.mp h
  have hwaits : next headerSize receiver
      { f with header := 0, bytes := [], closes := f.closes + 1 } = none := by
    unfold next
    exact (if_pos rfl).trans (if_pos hpos)
  exact (StateTransition.eval_maximal (StateTransition.mem_eval.mpr ⟨.refl, hwaits⟩)).mp
    hdrains.steps

/-- **One block.** Each round reads a header, or the body behind it. -/
theorem Framed.Drains.refused (hpos : 0 < headerSize) (h : f.Drains headerSize receiver f')
    (hshort : f.Short) (hfits : f.Fits headerSize receiver.isSome) :
    f.Refused headerSize receiver.isSome f' := by
  induction h.steps using ReflTransGen.head_induction_on with
  | refl => exact refused_of_next hshort h.waits
  | @head f f₁ hnext _ ih =>
    have h₁ := hnext.drains_iff.mp h
    rcases next_cases hnext with ⟨hzero, hle, hf₁⟩ | ⟨hbig, -, -⟩ | ⟨hheader, -, hle, hf₁⟩
    · -- a header
      obtain ⟨m, hm⟩ := Nat.exists_eq_add_of_lt (hpos.trans_le hle)
      rw [Nat.zero_add] at hm
      by_cases hlt : ofLeBytes (f.bytes.take headerSize).reverse < 0x1000000
      · rw [readLength_eq (by omega)] at hf₁
        have hheaders := @headers_cons _ receiver.isSome _ _ hpos hzero hle hlt hf₁
        have hshort₁ : f₁.Short := by
          rw [hf₁]
          refine ⟨Int.natCast_nonneg _, ?_⟩
          show ((ofLeBytes (f.bytes.take headerSize).reverse : ℕ) : ℤ) < 0x1000000
          exact_mod_cast hlt
        have hfits₁ : f₁.Fits headerSize receiver.isSome := by
          intro p hp
          refine hfits p ?_
          rw [hheaders]
          exact List.mem_cons_of_mem _ hp
        have hrefused := ih h₁ hshort₁ hfits₁
        have hcloses : f₁.closes = f.closes := by rw [hf₁]
        refine ⟨hrefused.short, ?_⟩
        rintro ⟨p, hp, hbig⟩
        rw [hheaders] at hp
        rcases List.mem_cons.mp hp with rfl | hp
        · exact absurd hlt (not_lt.mpr hbig)
        · rw [← hcloses]
          exact hrefused.closes ⟨p, hp, hbig⟩
      · -- a package that is too long, and that has come
        have hmem : (ofLeBytes (f.bytes.take headerSize).reverse,
            (f.bytes.drop headerSize).length) ∈ f.headers headerSize receiver.isSome := by
          unfold headers
          rw [if_pos hzero, hm, headersLoop_succ, if_neg (by omega)]
          exact List.mem_cons_self
        have hbig := not_lt.mp hlt
        obtain ⟨hint, hcome⟩ := hfits _ hmem hbig
        rw [readLength_eq hint] at hf₁
        have hheader : f₁.header = (ofLeBytes (f.bytes.take headerSize).reverse : ℕ) := by rw [hf₁]
        have hbytes : f₁.bytes = f.bytes.drop headerSize := by rw [hf₁]
        have hclosed := h₁.closed hpos (by rw [hheader]; exact_mod_cast hbig)
          (by rw [hheader, hbytes]; exact_mod_cast hcome)
        rw [hclosed, hf₁]
        exact ⟨⟨le_rfl, by norm_num⟩, fun _ => ⟨rfl, rfl, rfl⟩⟩
    · exact absurd hshort.2 (not_lt.mpr hbig)
    · -- the body behind it
      have hheaders := @headers_forward _ _ receiver hpos hheader hle
      rw [← hf₁] at hheaders
      have hshort₁ : f₁.Short := by
        rw [hf₁]
        exact ⟨header_forward.ge, header_forward.trans_lt (by norm_num)⟩
      have hfits₁ : f₁.Fits headerSize receiver.isSome := by
        unfold Fits
        rw [← hheaders]
        exact hfits
      exact (ih h₁ hshort₁ hfits₁).of_headers hheaders (by rw [hf₁, closes_forward])

end

/-! ## Every run -/

/-- No package that is too long is waited for, and none has been forwarded. -/
structure Framed.Bounded (f : Framed) : Prop where
  short : f.Short
  sent : ∀ sent ∈ f.sent, sent.body.length < 0x1000000

section

variable {headerSize id : ℕ} {f f' : Framed} {receiver : Option (ℕ × ℕ × List UInt8)} {g g' : Gate}
  {c c' : Connection} {data : List UInt8}

theorem Framed.sent_bounded (h : ∀ sent ∈ f.sent, sent.body.length < 0x1000000)
    (hsteps : ReflTransGen (Next headerSize receiver) f f') :
    ∀ sent ∈ f'.sent, sent.body.length < 0x1000000 := by
  induction hsteps with
  | refl => exact h
  | tail _ hnext ih =>
    rcases next_cases hnext with ⟨-, -, rfl⟩ | ⟨-, -, rfl⟩ | ⟨hheader, hlt, -, rfl⟩
    · exact ih
    · exact ih
    · unfold forward
      split
      · exact ih
      · intro sent hsent
        rcases List.mem_append.mp hsent with hold | hnew
        · exact ih sent hold
        · rw [List.mem_singleton.mp hnew]
          show (List.take _ _).length < _
          rw [List.length_take]
          omega

theorem Framed.Bounded.drains (hpos : 0 < headerSize) (h : f.Bounded)
    (hfits : (f.receive data).Fits headerSize receiver.isSome)
    (hdrains : (f.receive data).Drains headerSize receiver f') : f'.Bounded := by
  have hsent : ∀ sent ∈ (f.receive data).sent, sent.body.length < 0x1000000 := h.sent
  exact ⟨(hdrains.refused hpos h.short hfits).short, sent_bounded hsent hdrains.steps⟩

theorem bounded_init : Framed.Bounded ⟨0, 0, 0, [], [], [], 0⟩ :=
  ⟨⟨le_rfl, by norm_num⟩, fun _ h => by cases h⟩

/-- A buffer without bytes and without a header is as it was at first. -/
theorem Inv.buffer_eq_init {free : List ℕ} {nodes : ℕ → List ℕ} (h : Inv g free nodes)
    (hget : g.connection id = some c) (hheader : c.buffer.header = 0)
    (hnil : c.buffer.contents g.mp = []) : c.buffer = .init := by
  obtain ⟨bytes, hholds, -⟩ := h.holds hget
  obtain rfl : bytes = [] := hholds.contents.symm.trans hnil
  obtain ⟨free', l, hw, hs, hsize⟩ := hholds
  have hl : l = [] := by
    have hs' : Stores g.mp c.buffer (update nodes id l id) [] := by
      rw [update_self]
      exact hs
    have hle := hs'.length_le hw
    rw [update_self] at hle
    exact List.eq_nil_of_length_eq_zero (Nat.le_zero.mp hle)
  subst hl
  have hhead : c.buffer.head = none := hs.linked
  have htail : c.buffer.tail = none := hs.tail
  have hoffset := hs.start rfl
  calc c.buffer = ⟨c.buffer.header, c.buffer.offset, c.buffer.size, c.buffer.head, c.buffer.tail⟩ :=
        rfl
    _ = .init := by
        rw [hheader, hoffset, hsize, hhead, htail]
        rfl

theorem Gate.Keeps.refuses (hsize : headerSize = 2 ∨ headerSize = 4)
    (h : g.Keeps headerSize Framed.Bounded) {a : Action} (hfits : g.Fits a) : g.Refuses a := by
  obtain ⟨rfl, ⟨free, nodes, hinv⟩, hbounded⟩ := h
  obtain ⟨g₁, hstep₁, -, free₁, nodes₁, hinv₁⟩ := hinv.step hsize a
  have hpos : 0 < g.headerSize := by omega
  refine ⟨by rw [hstep₁]; rfl, ?_, ?_⟩
  · rintro id data c g' c' rfl hne hget hstep hget' hbig
    obtain rfl := Option.some.inj (hstep.symm.trans hstep₁)
    have hmoves := hinv.moves hpos hstep (framed_of_get hget')
    cases hmoves with
    | same _ hold hnil => exact absurd (hnil data rfl) hne
    | data data c₀ hget₀ hdrains =>
      obtain rfl := Option.some.inj (hget.symm.trans hget₀)
      have hshort := (hbounded id _ (framed_of_get hget)).short
      obtain ⟨hcloses, hheader, hnil⟩ :=
        (hdrains.refused hpos hshort (hfits c hget).2).closes hbig
      exact ⟨hcloses, hinv₁.buffer_eq_init hget' hheader hnil⟩
  · intro id g' c' hstep hget'
    obtain rfl := Option.some.inj (hstep.symm.trans hstep₁)
    have hmoves := hinv.moves hpos hstep (framed_of_get hget')
    have hafter : (c'.framed (c'.buffer.contents g'.mp)).Bounded := by
      cases hmoves with
      | same _ hold _ => exact hbounded id _ hold
      | accept hnew => exact hnew ▸ bounded_init
      | data data c hget hdrains =>
        exact (hbounded id _ (framed_of_get hget)).drains hpos (hfits c hget).2 hdrains
      | forward agent client f hold hset =>
        have hf := hbounded id f hold
        rw [hset]
        exact ⟨hf.short, hf.sent⟩
    exact ⟨hafter.short.1, hafter.short.2, hafter.sent⟩

end

/-- **Packages that are too long are refused**, and no assertion fails, in every step of a run in
which they are there with their headers, and the sizes fit an int. -/
theorem oversized_refused {headerSize : ℕ} (hsize : headerSize = 2 ∨ headerSize = 4)
    (watchdog : ℕ) (actions : List Action) (a : Action) (g : Gate)
    (h : run Gate.step (.init headerSize watchdog) actions = some g)
    (hfits : Guarded Gate.step Gate.Fits (.init headerSize watchdog) (actions ++ [a])) :
    g.Refuses a := by
  obtain ⟨hbefore, hlast⟩ := guarded_append.mp hfits
  have hkeeps : g.Keeps headerSize Framed.Bounded := by
    refine run_framed hsize bounded_init (fun f _ _ hf => ⟨hf.short, hf.sent⟩) ?_ hbefore h
    intro g id c data f' hheader hget hok hbounded hdrains
    subst hheader
    exact hbounded.drains (by omega) (hok c hget).2 hdrains
  exact hkeeps.refuses hsize (hlast g h).1

/-- The header of a package of 16 MiB, and so many bytes behind it -/
def longPackage (n : ℕ) : List UInt8 := [1, 0, 0, 0] ++ List.replicate n 0

theorem headers_longPackage {served : Bool} {n : ℕ} :
    headersLoop 4 served (longPackage n).length (longPackage n) = [(0x1000000, n)] := by
  have hlength : (longPackage n).length = n + 3 + 1 := by
    unfold longPackage
    rw [List.length_append, List.length_replicate, Nat.add_comm]
    rfl
  have htake : (longPackage n).take 4 = [1, 0, 0, 0] := List.take_left' rfl
  have hdrop : (longPackage n).drop 4 = List.replicate n 0 := List.drop_left' rfl
  have hvalue : ofLeBytes [(1 : UInt8), 0, 0, 0].reverse = 0x1000000 := by decide
  rw [hlength, headersLoop_succ, hlength, if_neg (by omega), htake, hdrop, hvalue,
    List.length_replicate, if_pos (.inl le_rfl)]

/-- The first block of a new connection -/
theorem fits_first {data : List UInt8} (hlt : data.length < 2 ^ 31)
    (hheaders : ∀ p ∈ headersLoop 4 true data.length data,
      0x1000000 ≤ p.1 → p.1 < 2 ^ 31 ∧ p.1 ≤ p.2) :
    Guarded Gate.step Gate.Fits (.init 4 9) [.accept 1, .data 1 data] := by
  refine ⟨trivial, fun g hg => ⟨fun c hc => ⟨?_, ?_⟩, fun _ _ => trivial⟩⟩
  · obtain rfl := Option.some.inj hg
    obtain rfl := Option.some.inj hc
    show 0 + data.length < 2 ^ 31
    rw [Nat.zero_add]
    exact hlt
  · obtain rfl := Option.some.inj hg
    obtain rfl := Option.some.inj hc
    exact hheaders

theorem oversized_refused_long : ∃ g, run Gate.step (.init 4 9) [.accept 1] = some g ∧
    g.Refuses (.data 1 (longPackage 0x1000000)) := by
  refine ⟨_, rfl, oversized_refused (.inr rfl) 9 [.accept 1] (.data 1 (longPackage 0x1000000)) _ rfl
    (fits_first ?_ ?_)⟩
  · unfold longPackage
    rw [List.length_append, List.length_replicate]
    norm_num
  · rw [headers_longPackage]
    intro p hp
    rw [List.mem_singleton.mp hp]
    norm_num

/-- A length of 2 GiB is a negative int, and the gate goes on to wait. -/
theorem oversized_waits : ¬∀ (actions : List Action) (a : Action) (g : Gate),
    run Gate.step (.init 4 9) actions = some g → g.Refuses a := by
  intro hclaim
  have hwaits := (hclaim [.accept 1] (.data 1 [128, 0, 0, 0]) _ rfl).waits 1 _ _ rfl rfl
  exact absurd hwaits.1 (by decide)

end SkynetEureka.ServiceGate
