import SkynetEureka.NetPack.QueueTheorems

/-!
# What a chunk can do

Whatever its bytes are, a chunk of a socket changes the record of this socket only, and pushes
or hands out packages of this socket only, and these hold no more bytes than the record and the
chunk did (`feed_adds`). When the record is dropped there are fewer (`filterResumed_adds`).
-/

namespace SkynetEureka.NetPack

open Lib Function

/-! ## Bytes and blocks -/

@[simp] theorem length_setbufferSession (buffer : List UInt8) (fd : ℕ) :
    (setbufferSession buffer fd).length = buffer.length := by
  simp [setbufferSession]

/-- `setbuffer_session` touches the head only. -/
theorem setbufferSession_append {head : List UInt8} (h : head.length = headSize)
    (rest : List UInt8) (fd : ℕ) :
    setbufferSession (head ++ rest) fd = setbufferSession head fd ++ rest := by
  have h' : head.length = 22 := h
  unfold setbufferSession
  rw [List.set_append_left _ _ (by omega), List.set_append_left _ _ (by simp; omega),
    List.set_append_left _ _ (by simp; omega), List.set_append_left _ _ (by simp; omega)]

theorem setbufferSession_idem (head : List UInt8) (fd : ℕ) :
    setbufferSession (setbufferSession head fd) fd = setbufferSession head fd := by
  apply List.ext_getElem?
  intro i
  simp only [setbufferSession, List.getElem?_set, List.length_set]
  grind

/-- The length of the body does not depend on the session. -/
theorem lengthBytes_setbufferSession (buffer : List UInt8) (fd : ℕ) :
    ((setbufferSession buffer fd).drop 2).take 4 = (buffer.drop 2).take 4 := by
  unfold setbufferSession
  rw [List.take_drop, List.take_drop, List.take_set_of_le (by decide),
    List.take_set_of_le (by decide), List.take_set_of_le (by decide),
    List.take_set_of_le (by decide)]

@[simp] theorem headLength_setbufferSession (buffer : List UInt8) (fd : ℕ) :
    headLength (setbufferSession buffer fd) = headLength buffer := by
  rw [headLength, headLength, lengthBytes_setbufferSession]

@[simp] theorem nativeLength_setbufferSession (buffer : List UInt8) (fd : ℕ) :
    nativeLength (setbufferSession buffer fd) = nativeLength buffer := by
  rw [nativeLength, nativeLength, lengthBytes_setbufferSession]

theorem lengthBytes_append {head : List UInt8} (h : head.length = headSize) (rest : List UInt8) :
    ((head ++ rest).drop 2).take 4 = (head.drop 2).take 4 := by
  have h' : head.length = 22 := h
  rw [List.take_drop, List.take_drop, List.take_append_of_le_length (by omega)]

/-- The length of the body is read from the head. -/
theorem headLength_append {head : List UInt8} (h : head.length = headSize) (rest : List UInt8) :
    headLength (head ++ rest) = headLength head := by
  rw [headLength, headLength, lengthBytes_append h]

theorem nativeLength_append {head : List UInt8} (h : head.length = headSize)
    (rest : List UInt8) : nativeLength (head ++ rest) = nativeLength head := by
  rw [nativeLength, nativeLength, lengthBytes_append h]

theorem store_ok {α : Type} {block bytes block' : List α} {offset : ℕ}
    (h : store block offset bytes = .ok block') :
    offset + bytes.length ≤ block.length ∧
      block' = block.take offset ++ bytes ++ block.drop (offset + bytes.length) ∧
        block'.length = block.length := by
  rw [store] at h
  split at h
  · have := Except.ok.inj h
    subst this
    refine ⟨‹_›, rfl, ?_⟩
    simp only [List.length_append, List.length_take, List.length_drop]
    omega
  · cases h

theorem load_ok {α : Type} {buffer bytes : List α} {size : ℤ} (h : load buffer size = .ok bytes) :
    0 ≤ size ∧ size ≤ buffer.length ∧ bytes = buffer.take size.toNat := by
  rw [load] at h
  split at h
  · cases h
  · split at h
    · exact ⟨by omega, ‹_›, (Except.ok.inj h).symm⟩
    · cases h

theorem load_of_le {α : Type} {buffer : List α} {n : ℕ} (h : n ≤ buffer.length) :
    load buffer n = .ok (buffer.take n) := by
  rw [load, if_neg (by omega), if_pos (by omega), Int.toNat_natCast]

theorem loadBody_ok {protobuf : Option Block} {length : ℤ} {body : List UInt8}
    (h : loadBody protobuf length = .ok body) : (body.length : ℤ) = length := by
  unfold loadBody at h
  split at h
  · have := Except.ok.inj h
    subst this
    simp [*]
  · cases protobuf with
    | none => cases h
    | some block =>
      cases hload : load block length with
      | error e => simp [hload, Except.bind] at h
      | ok bytes =>
        obtain ⟨hpos, hle, rfl⟩ := load_ok hload
        simp only [hload, Except.bind] at h
        split at h
        · cases h
        · have := Except.ok.inj h
          subst this
          have hlen := (List.reduceOption_length_eq_iff (l := block.take length.toNat)).mpr
            fun o ho => Option.isSome_iff_ne_none.mpr fun hnone => by simp_all
          rw [hlen, List.length_take]
          omega

/-! ## What a chunk adds -/

/-- The number of bytes that a record has read. -/
def readOf (record : Option Uncomplete) : ℕ := record.elim 0 Uncomplete.read

/-- The number of bytes in packages. -/
def bytesIn (packages : List Netpackext) : ℕ :=
  (packages.map fun p => p.buffer.length).sum

/-- The package of a `TYPE_DATA` result. -/
def Result.packages : Result → List Netpackext
  | .data fd buffer => [⟨fd, buffer⟩]
  | _ => []

@[simp] theorem bytesIn_nil : bytesIn [] = 0 := rfl

@[simp] theorem bytesIn_cons (p : Netpackext) (packages : List Netpackext) :
    bytesIn (p :: packages) = p.buffer.length + bytesIn packages := rfl

@[simp] theorem bytesIn_append (l l' : List Netpackext) :
    bytesIn (l ++ l') = bytesIn l + bytesIn l' := by
  simp [bytesIn]

/-- A queue with this record for `fd` and some more packages of `fd`, all other records as
before; record, packages and result hold at most `n` bytes. -/
def Adds (q : Option Queue) (res : Result) (saved : ℕ → Option Uncomplete)
    (waiting : List Netpackext) (fd n : ℕ) : Prop :=
  ∃ record new, Shows q (update saved fd record) (waiting ++ new) ∧
    (∀ p ∈ new ++ res.packages, p.id = fd) ∧
      readOf record + bytesIn (new ++ res.packages) ≤ n

namespace Adds

variable {q : Option Queue} {res : Result} {saved : ℕ → Option Uncomplete}
  {waiting : List Netpackext} {fd n m : ℕ}

theorem mono (h : Adds q res saved waiting fd n) (hnm : n ≤ m) :
    Adds q res saved waiting fd m := by
  obtain ⟨record, new, hshows, hid, hle⟩ := h
  exact ⟨record, new, hshows, hid, hle.trans hnm⟩

/-- Nothing is left of the record, nothing is pushed. -/
theorem nothing (h : Shows q saved waiting) (hnone : saved fd = none)
    (hres : res.packages = []) : Adds q res saved waiting fd 0 := by
  refine ⟨none, [], ?_, by simp [hres], by simp [hres, readOf]⟩
  rw [List.append_nil, ← hnone, update_eq_self]
  exact h

/-- A package is handed out at once. -/
theorem data (h : Shows q saved waiting) (hnone : saved fd = none) (buffer : List UInt8) :
    Adds q (.data fd buffer) saved waiting fd buffer.length := by
  refine ⟨none, [], ?_, by simp [Result.packages], by simp [Result.packages, readOf]⟩
  rw [List.append_nil, ← hnone, update_eq_self]
  exact h

/-- A record is saved. -/
theorem save (h : Shows q saved waiting) {uc : Uncomplete} (hfd : uc.fd = fd)
    (hnone : saved fd = none) (hhead : uc.head.length = headSize) (hres : res.packages = []) :
    Adds (some (saveUncomplete q uc)) res saved waiting fd uc.read := by
  subst hfd
  refine ⟨some uc, [], ?_, by simp [hres], by simp [hres, readOf]⟩
  rw [List.append_nil]
  exact h.saveUncomplete hnone hhead

/-- A package is pushed before the rest. -/
theorem push {buffer : List UInt8} (h : Adds q res saved (waiting ++ [⟨fd, buffer⟩]) fd n) :
    Adds q res saved waiting fd (buffer.length + n) := by
  obtain ⟨record, new, hshows, hid, hle⟩ := h
  refine ⟨record, ⟨fd, buffer⟩ :: new, ?_, ?_, ?_⟩
  · rw [List.append_assoc] at hshows
    exact hshows
  · intro p hp
    rcases List.mem_cons.mp hp with rfl | hp
    · rfl
    · exact hid p hp
  · show readOf record + (buffer.length + bytesIn (new ++ res.packages)) ≤ buffer.length + n
    omega

end Adds

variable {q q' : Option Queue} {saved : ℕ → Option Uncomplete} {waiting : List Netpackext}
  {fd : ℕ} {buffer : List UInt8} {res : Result}

theorem length_partialHead (h : buffer.length < headSize) :
    (partialHead fd buffer).head.length = headSize := by
  simp only [partialHead, List.length_append, List.length_replicate]
  omega

theorem partialHead_adds (hres : res.packages = []) (hshows : Shows q saved waiting)
    (hnone : saved fd = none) (h : buffer.length < headSize) :
    Adds (some (saveUncomplete q (partialHead fd buffer))) res saved waiting fd buffer.length := by
  have hfd : (partialHead fd buffer).fd = fd := rfl
  exact Adds.save hshows hfd hnone (length_partialHead h) hres

theorem pushMore_adds {fuel : ℕ} {ret : ℤ} (hres : res.packages = [])
    (hshows : Shows q saved waiting) (hnone : saved fd = none)
    (h : pushMore fuel q fd buffer = .ok (q', ret)) :
    Adds q' res saved waiting fd buffer.length := by
  induction fuel generalizing q waiting buffer with
  | zero => cases h
  | succ fuel ih =>
    simp only [pushMore] at h
    split at h
    · cases h
      exact (Adds.nothing hshows hnone hres).mono (Nat.zero_le _)
    split at h
    · cases h
      exact partialHead_adds hres hshows hnone ‹_›
    split at h
    · cases h
      exact (Adds.nothing hshows hnone hres).mono (Nat.zero_le _)
    split at h
    · obtain ⟨block, -, h⟩ := except_bind_eq_ok.mp h
      obtain ⟨block', -, h⟩ := except_bind_eq_ok.mp h
      cases h
      refine (Adds.save hshows rfl hnone ?_ hres).mono (by simp)
      simp only [List.length_take, length_setbufferSession]
      omega
    · obtain ⟨package, hload, h⟩ := except_bind_eq_ok.mp h
      have hspec := load_ok hload
      generalize headLength (setbufferSession buffer fd) + headSize = size at h hspec
      obtain ⟨hpos, hle, rfl⟩ := hspec
      rw [length_setbufferSession] at hle
      split at h
      · refine (Adds.push (ih (hshows.pushData fd _) h)).mono ?_
        simp only [List.length_take, List.length_drop, length_setbufferSession]
        omega
      · cases h
        refine (Adds.push (Adds.nothing (hshows.pushData fd _) hnone hres)).mono ?_
        simp only [List.length_take, length_setbufferSession]
        omega

theorem morePackages_adds (hshows : Shows q saved waiting) (hnone : saved fd = none)
    (h : morePackages q fd buffer = .ok (q', res)) :
    Adds q' res saved waiting fd buffer.length := by
  obtain ⟨⟨q₁, ret⟩, hmore, h⟩ := except_bind_eq_ok.mp h
  cases h
  refine pushMore_adds ?_ hshows hnone hmore
  split <;> rfl

/-- A package is taken from the front of the chunk. -/
theorem pushData_adds {package : List UInt8} {size : ℤ} (hshows : Shows q saved waiting)
    (hnone : saved fd = none) (hload : load buffer size = .ok package)
    (h : morePackages (some (pushData q fd package)) fd (buffer.drop size.toNat) = .ok (q', res)) :
    Adds q' res saved waiting fd buffer.length := by
  obtain ⟨hpos, hle, rfl⟩ := load_ok hload
  refine (morePackages_adds (hshows.pushData fd _) hnone h).push.mono ?_
  simp only [List.length_take, List.length_drop]
  omega

theorem filterFresh_adds (hshows : Shows q saved waiting) (hnone : saved fd = none)
    (h : filterFresh q fd buffer = .ok (q', res)) :
    Adds q' res saved waiting fd buffer.length := by
  simp only [filterFresh] at h
  split at h
  · cases h
    exact partialHead_adds rfl hshows hnone ‹_›
  split at h
  · cases h
    exact (Adds.nothing hshows hnone rfl).mono (Nat.zero_le _)
  split at h
  · cases h
    exact (Adds.data hshows hnone _).mono (by simp)
  split at h
  · obtain ⟨block, -, h⟩ := except_bind_eq_ok.mp h
    split at h
    · cases h
    · cases h
      refine (Adds.save hshows rfl hnone ?_ rfl).mono (by simp)
      simp only [List.length_take, length_setbufferSession]
      omega
  · obtain ⟨package, hload, h⟩ := except_bind_eq_ok.mp h
    simpa using pushData_adds hshows hnone hload h

/-- The chunk completes exactly the frame that the record has begun. -/
def Completes (uc : Uncomplete) (buffer : List UInt8) : Prop :=
  headSize ≤ uc.read + buffer.length ∧ ∃ uc' rest, completeHead uc buffer = .ok (uc', rest) ∧
    (uc.read + buffer.length : ℕ) = headLength uc'.head + headSize

theorem completeHead_ok {uc uc' : Uncomplete} {rest : List UInt8}
    (hread : headSize ≤ uc.read + buffer.length)
    (h : completeHead uc buffer = .ok (uc', rest)) :
    uc'.read + rest.length = uc.read + buffer.length ∧ rest.length ≤ buffer.length ∧
      uc'.head.length = uc.head.length := by
  unfold completeHead at h
  split at h
  · obtain ⟨head, hstore, h⟩ := except_bind_eq_ok.mp h
    cases h
    refine ⟨?_, ?_, (store_ok hstore).2.2⟩
    · simp only [List.length_drop]
      omega
    · simp only [List.length_drop]
      omega
  · cases h
    exact ⟨rfl, le_rfl, rfl⟩

/-- A chunk that does not exactly complete a frame costs the bytes of the record. -/
theorem filterBody_adds {uc : Uncomplete} (hshows : Shows q saved waiting)
    (hnone : saved fd = none) (hhead : uc.head.length = headSize)
    (h : filterBody q uc fd buffer = .ok (q', res)) :
    Adds q' res saved waiting fd (uc.read + buffer.length) ∧
      ((uc.read + buffer.length : ℕ) ≠ headLength uc.head + headSize →
        Adds q' res saved waiting fd buffer.length) := by
  simp only [filterBody, headLength_setbufferSession] at h
  split at h
  · cases h
    have hzero : Adds q (.error fd) saved waiting fd 0 := Adds.nothing hshows hnone rfl
    exact ⟨hzero.mono (Nat.zero_le _), fun _ => hzero.mono (Nat.zero_le _)⟩
  obtain ⟨protobuf, -, h⟩ := except_bind_eq_ok.mp h
  split at h
  · obtain ⟨protobuf', -, h⟩ := except_bind_eq_ok.mp h
    cases h
    have hzero : Adds q .nothing saved waiting fd 0 := Adds.nothing hshows hnone rfl
    exact ⟨hzero.mono (Nat.zero_le _), fun _ => hzero.mono (Nat.zero_le _)⟩
  split at h
  · obtain ⟨protobuf', -, h⟩ := except_bind_eq_ok.mp h
    obtain ⟨body, hbody, h⟩ := except_bind_eq_ok.mp h
    cases h
    have hbody := loadBody_ok hbody
    refine ⟨(Adds.data hshows hnone _).mono ?_, fun hnot => absurd (by omega) hnot⟩
    rw [List.length_append, length_setbufferSession, hhead]
    omega
  · obtain ⟨package, hload, h⟩ := except_bind_eq_ok.mp h
    have hadds := pushData_adds hshows hnone hload h
    exact ⟨hadds.mono (Nat.le_add_left ..), fun _ => hadds⟩

theorem filterResumed_adds {uc : Uncomplete} (hshows : Shows q saved waiting)
    (hnone : saved fd = none) (hhead : uc.head.length = headSize)
    (h : filterResumed q uc fd buffer = .ok (q', res)) :
    Adds q' res saved waiting fd (uc.read + buffer.length) ∧
      (¬ Completes uc buffer → Adds q' res saved waiting fd buffer.length) := by
  unfold filterResumed at h
  split at h
  · cases h
  split at h
  · obtain ⟨head, -, h⟩ := except_bind_eq_ok.mp h
    cases h
    have hzero : Adds q .nothing saved waiting fd 0 := Adds.nothing hshows hnone rfl
    exact ⟨hzero.mono (Nat.zero_le _), fun _ => hzero.mono (Nat.zero_le _)⟩
  obtain ⟨⟨uc', rest⟩, hcomplete, h⟩ := except_bind_eq_ok.mp h
  obtain ⟨hsum, hrest, hlen⟩ := completeHead_ok (by omega) hcomplete
  obtain ⟨hadds, hexact⟩ := filterBody_adds hshows hnone (hlen.trans hhead) h
  refine ⟨hadds.mono hsum.le, fun hnot => (hexact fun heq => hnot ?_).mono hrest⟩
  exact ⟨by omega, uc', rest, hcomplete, by rw [← hsum, heq]⟩

theorem filterData_adds (hshows : Shows q saved waiting)
    (h : filterData q fd buffer = .ok (q', res)) :
    Adds q' res (update saved fd none) waiting fd (readOf (saved fd) + buffer.length) := by
  obtain ⟨q₁, hfind, hshows₁⟩ := hshows.findUncomplete fd
  rw [filterData, hfind] at h
  cases hrecord : saved fd with
  | none =>
    rw [hrecord] at h
    have := filterFresh_adds hshows₁ (update_self ..) h
    exact this.mono (Nat.le_add_left ..)
  | some uc =>
    rw [hrecord] at h
    exact (filterResumed_adds hshows₁ (update_self ..) (hshows.head fd uc hrecord) h).1

/-! ## Over the whole run -/

/-- The packages that were handed out for a socket. -/
def packagesOf (fd : ℕ) (packages : List Netpackext) : List Netpackext :=
  packages.filter fun p => p.id = fd

/-- The chunks of a socket. -/
def chunksOf (fd : ℕ) (chunks : List (ℕ × List UInt8)) : List (List UInt8) :=
  (chunks.filter fun c => c.1 = fd).map Prod.snd

theorem packagesOf_append (fd : ℕ) (l l' : List Netpackext) :
    packagesOf fd (l ++ l') = packagesOf fd l ++ packagesOf fd l' :=
  List.filter_append ..

theorem packagesOf_self {l : List Netpackext} (h : ∀ p ∈ l, p.id = fd) : packagesOf fd l = l :=
  List.filter_eq_self.mpr fun p hp => decide_eq_true (h p hp)

theorem packagesOf_of_ne {l : List Netpackext} {d : ℕ} (h : ∀ p ∈ l, p.id = fd) (hd : d ≠ fd) :
    packagesOf d l = [] := by
  refine List.filter_eq_nil_iff.mpr fun p hp => ?_
  rw [decide_eq_true_iff, h p hp]
  exact hd.symm

theorem chunksOf_cons_self (chunks : List (ℕ × List UInt8)) :
    chunksOf fd ((fd, buffer) :: chunks) = buffer :: chunksOf fd chunks := by
  simp [chunksOf]

theorem chunksOf_cons_of_ne {d : ℕ} (hd : d ≠ fd) (chunks : List (ℕ × List UInt8)) :
    chunksOf d ((fd, buffer) :: chunks) = chunksOf d chunks := by
  simp [chunksOf, hd.symm]

/-- The dispatch moves packages from the queue to its caller. -/
theorem Adds.dispatch {n : ℕ} {packages : List Netpackext} (h : Adds q res saved waiting fd n)
    (hdispatch : NetPack.dispatch q res = (packages, q')) :
    ∃ record waiting', Shows q' (update saved fd record) waiting' ∧
      readOf record + bytesIn (packagesOf fd packages) + bytesIn (packagesOf fd waiting') ≤
        bytesIn (packagesOf fd waiting) + n ∧
      ∀ d ≠ fd, bytesIn (packagesOf d packages) + bytesIn (packagesOf d waiting') =
        bytesIn (packagesOf d waiting) := by
  obtain ⟨record, new, hshows, hid, hle⟩ := h
  have hnew : ∀ p ∈ new, p.id = fd := fun p hp => hid p (List.mem_append_left _ hp)
  have hres : ∀ p ∈ res.packages, p.id = fd := fun p hp => hid p (List.mem_append_right _ hp)
  rw [bytesIn_append] at hle
  have hwaiting : bytesIn (packagesOf fd (waiting ++ new)) =
      bytesIn (packagesOf fd waiting) + bytesIn new := by
    rw [packagesOf_append, bytesIn_append, packagesOf_self hnew]
  have hother : ∀ d ≠ fd, bytesIn (packagesOf d (waiting ++ new)) =
      bytesIn (packagesOf d waiting) := by
    intro d hd
    rw [packagesOf_append, packagesOf_of_ne hnew hd, List.append_nil]
  cases res with
  | data id buffer =>
    cases hdispatch
    rw [Result.packages] at hres hle
    refine ⟨record, _, hshows, ?_, fun d hd => ?_⟩
    · rw [hwaiting, packagesOf_self hres]
      omega
    · rw [hother d hd, packagesOf_of_ne hres hd, bytesIn_nil, Nat.zero_add]
  | more =>
    obtain ⟨q₁, hqueue, hshows₁⟩ := hshows.dispatchQueue
    rw [NetPack.dispatch, hqueue] at hdispatch
    cases hdispatch
    refine ⟨record, [], hshows₁, ?_, fun d hd => ?_⟩
    · rw [hwaiting]
      simp only [packagesOf, List.filter_nil, bytesIn_nil, Result.packages] at hle ⊢
      omega
    · rw [hother d hd]
      rfl
  | nothing | error =>
    cases hdispatch
    refine ⟨record, _, hshows, ?_, fun d hd => ?_⟩
    · rw [hwaiting]
      simp only [packagesOf, List.filter_nil, bytesIn_nil, Result.packages] at hle ⊢
      omega
    · rw [hother d hd]
      simp [packagesOf]

/-- The number of bytes of a socket that the queue holds. -/
def held (saved : ℕ → Option Uncomplete) (waiting : List Netpackext) (fd : ℕ) : ℕ :=
  readOf (saved fd) + bytesIn (packagesOf fd waiting)

/-- A chunk of a socket adds to what is held for this socket, and for no other. -/
theorem feed_adds {packages : List Netpackext} (hshows : Shows q saved waiting)
    (h : feed q fd buffer = .ok (packages, q')) :
    ∃ record waiting', Shows q' (update saved fd record) waiting' ∧
      ∀ d, bytesIn (packagesOf d packages) + held (update saved fd record) waiting' d ≤
        held saved waiting d + if d = fd then buffer.length else 0 := by
  rw [feed] at h
  cases hfilter : filterData q fd buffer with
  | error e =>
    rw [hfilter] at h
    cases h
  | ok r =>
    rw [hfilter] at h
    have hadds := filterData_adds hshows hfilter
    obtain ⟨record, waiting', hshows', hself, hother⟩ := hadds.dispatch (Except.ok.inj h)
    rw [update_idem] at hshows'
    refine ⟨record, waiting', hshows', fun d => ?_⟩
    unfold held
    by_cases hd : d = fd
    · rw [hd, if_pos rfl, update_self]
      omega
    · have := hother d hd
      rw [if_neg hd, update_of_ne hd]
      omega

/-- What is handed out for a socket was held or fed before. -/
theorem feedAll_adds {chunks : List (ℕ × List UInt8)} {packages : List Netpackext}
    (hshows : Shows q saved waiting) (h : feedAll q chunks = .ok packages) (fd : ℕ) :
    bytesIn (packagesOf fd packages) ≤
      held saved waiting fd + (chunksOf fd chunks).flatten.length := by
  induction chunks generalizing q saved waiting packages with
  | nil =>
    cases h
    exact Nat.zero_le _
  | cons c chunks ih =>
    obtain ⟨id, buffer⟩ := c
    obtain ⟨⟨first, q'⟩, hfeed, h⟩ := except_bind_eq_ok.mp h
    obtain ⟨later, hlater, h⟩ := except_bind_eq_ok.mp h
    cases h
    obtain ⟨record, waiting', hshows', hle⟩ := feed_adds hshows hfeed
    have hfirst := hle fd
    have hrest := ih hshows' hlater
    rw [packagesOf_append, bytesIn_append]
    by_cases hd : fd = id
    · subst hd
      rw [if_pos rfl] at hfirst
      rw [chunksOf_cons_self, List.flatten_cons, List.length_append]
      omega
    · rw [if_neg hd] at hfirst
      rw [chunksOf_cons_of_ne hd]
      omega

end SkynetEureka.NetPack
