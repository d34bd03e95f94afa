import SkynetEureka.NetPack.FrameTheorems

/-!
# Reassembly of the streams of many sockets

Chunks of many sockets arrive in any order. When the streams are cut well, each chunk hands out
the frames that it completes (`feed_stream`). The first chunk that is not cut well either leaves
the defined behaviour, or costs bytes that are never handed out, or leaves a record whose block
is too small for the body that comes next. Hence `frames_reassembled`.
-/

namespace SkynetEureka.NetPack

open Lib Function

/-- The streams of all sockets as they are cut into chunks. -/
structure Cuts (frames : ℕ → List Frame) (chunks : List (ℕ × List UInt8)) : Prop where
  ne_nil : ∀ c ∈ chunks, c.2 ≠ []
  flatten : ∀ fd, (chunksOf fd chunks).flatten = stream (frames fd)

/-- Every socket gets its frames, in order, each with its full head and body. -/
def HandsOut (frames : ℕ → List Frame) (chunks : List (ℕ × List UInt8)) : Prop :=
  ∃ packages, feedAll none chunks = .ok packages ∧
    ∀ fd, packagesOf fd packages = (frames fd).map (Frame.package fd)

variable {q q' : Option Queue} {saved : ℕ → Option Uncomplete} {waiting : List Netpackext}
  {fd : ℕ} {f : Frame} {frames : List Frame} {chunk later : List UInt8}
  {position : ℕ → List Frame × ℕ}

/-- The queue holds what belongs to the positions of the sockets. -/
def Tracks (q : Option Queue) (position : ℕ → List Frame × ℕ) : Prop :=
  ∃ saved, Shows q saved [] ∧ ∀ fd, Pending fd (position fd).1 (position fd).2 (saved fd)

/-- The bytes of a socket from a position on. -/
def ahead (position : List Frame × ℕ) : List UInt8 := (stream position.1).drop position.2

theorem ahead_advance (frames : List Frame) (n : ℕ) :
    ahead (advance frames n) = (stream frames).drop n := by
  induction frames generalizing n with
  | nil => rfl
  | cons f frames ih =>
    by_cases h : n < f.bytes.length
    · rw [advance_of_lt h, ahead]
    · obtain ⟨m, rfl⟩ := Nat.exists_eq_add_of_le (not_lt.mp h)
      rw [advance_add, ih, stream_cons, List.drop_append, Nat.add_sub_cancel_left,
        List.drop_of_length_le (Nat.le_add_right ..), List.nil_append]

theorem ahead_of_append {position : List Frame × ℕ} (h : chunk ++ later = ahead position) :
    later = ahead (advance position.1 (position.2 + chunk.length)) := by
  rw [ahead_advance, ← List.drop_drop, ← ahead, ← h, List.drop_left]

/-! ## Chunks that are cut well -/

theorem feed_of_delivers {r : Except Fault (Option Queue × Result)} {n : ℕ}
    (hfilter : filterData q fd chunk = r) (h : Delivers r saved fd frames n) :
    ∃ q' complete record, feed q fd chunk = .ok (complete.map (Frame.package fd), q') ∧
      Shows q' (update saved fd record) [] ∧ Splits fd frames n complete record := by
  obtain ⟨q₁, res, q', complete, record, rfl, hdispatch, hshows, hsplits⟩ := h
  refine ⟨q', complete, record, ?_, hshows, hsplits⟩
  rw [feed, hfilter]
  exact congrArg Except.ok hdispatch

/-- **A chunk that is cut well** hands out the frames that it completes. -/
theorem feed_stream (h : Tracks q position) (hchunk : chunk ++ later = ahead (position fd))
    (hpos : chunk ≠ []) (hcut : WellCutChunk (position fd).1 (position fd).2 chunk.length) :
    ∃ q' complete, feed q fd chunk = .ok (complete.map (Frame.package fd), q') ∧
      Tracks q' (update position fd
        (advance (position fd).1 ((position fd).2 + chunk.length))) ∧
      (position fd).1 =
        complete ++ (advance (position fd).1 ((position fd).2 + chunk.length)).1 := by
  obtain ⟨saved, hshows, hpending⟩ := h
  have hfd := hpending fd
  obtain ⟨q₁, hfind, hshows₁⟩ := hshows.findUncomplete fd
  have hnone : update saved fd none fd = none := update_self ..
  generalize hposition : position fd = p at *
  obtain ⟨frames, done⟩ := p
  have hdelivers : Delivers (filterData q fd chunk) (update saved fd none) fd frames
      (done + chunk.length) := by
    rw [filterData, hfind]
    by_cases hdone : done = 0
    · subst hdone
      rw [pending_zero.mp hfd, Nat.zero_add]
      rw [ahead, List.drop_zero] at hchunk
      exact filterFresh_stream hchunk hshows₁ hnone hpos hcut
    · cases frames with
      | nil =>
        rw [Pending, if_neg hdone] at hfd
        exact hfd.elim
      | cons f frames =>
        obtain ⟨hlt, uc, huc, hpart, hroom⟩ := (pending_cons (by omega)).mp hfd
        rw [huc]
        rw [ahead, stream_cons, List.drop_append_of_le_length hlt.le] at hchunk
        rw [WellCutChunk, if_neg hdone] at hcut
        exact filterResumed_stream hpart hroom hlt hshows₁ hnone hchunk hcut
  obtain ⟨q', complete, record, hfeed, hshows', hsplits, hpending'⟩ :=
    feed_of_delivers rfl hdelivers
  rw [update_idem] at hshows'
  refine ⟨q', complete, hfeed, ⟨_, hshows', fun d => ?_⟩, hsplits⟩
  by_cases hd : d = fd
  · subst hd
    rw [update_self, update_self]
    exact hpending'
  · rw [update_of_ne hd, update_of_ne hd]
    exact hpending d

theorem id_of_mem_package {complete : List Frame} {p : Netpackext}
    (h : p ∈ complete.map (Frame.package fd)) : p.id = fd := by
  obtain ⟨f, -, rfl⟩ := List.mem_map.mp h
  rfl

/-- Nothing is left of a stream when nothing is pending and no byte is to come. -/
theorem frames_eq_nil {record : Option Uncomplete} {p : List Frame × ℕ}
    (hpending : Pending fd p.1 p.2 record) (h : ahead p = []) : p.1 = [] := by
  obtain ⟨frames, done⟩ := p
  cases frames with
  | nil => rfl
  | cons f frames =>
    have hlt : done < f.bytes.length := by
      by_cases hdone : done = 0
      · rw [hdone]
        exact f.bytes_pos
      · exact ((pending_cons (by omega)).mp hpending).1
    rw [ahead, stream_cons, List.drop_append_of_le_length hlt.le] at h
    have := congrArg List.length (List.append_eq_nil_iff.mp h).1
    rw [List.length_drop, List.length_nil] at this
    omega

/-- The chunks behind one that is taken. -/
theorem ahead_tail {chunks : List (ℕ × List UInt8)}
    (h : ∀ d, (chunksOf d ((fd, chunk) :: chunks)).flatten = ahead (position d)) (d : ℕ) :
    (chunksOf d chunks).flatten = ahead (update position fd
      (advance (position fd).1 ((position fd).2 + chunk.length)) d) := by
  by_cases hd : d = fd
  · subst hd
    have hself := h d
    rw [chunksOf_cons_self, List.flatten_cons] at hself
    rw [update_self]
    exact ahead_of_append hself
  · rw [update_of_ne hd, ← h d, chunksOf_cons_of_ne hd]

/-- **A run that is cut well.** -/
theorem feedAll_stream {chunks : List (ℕ × List UInt8)} (h : Tracks q position)
    (hpos : ∀ c ∈ chunks, c.2 ≠ [])
    (hstream : ∀ fd, (chunksOf fd chunks).flatten = ahead (position fd))
    (hcut : ∀ fd, WellCut (position fd).1 (position fd).2 (chunksOf fd chunks)) :
    ∃ packages, feedAll q chunks = .ok packages ∧
      ∀ fd, packagesOf fd packages = (position fd).1.map (Frame.package fd) := by
  induction chunks generalizing q position with
  | nil =>
    obtain ⟨saved, -, hpending⟩ := h
    refine ⟨[], rfl, fun fd => ?_⟩
    rw [frames_eq_nil (hpending fd) (hstream fd).symm]
    rfl
  | cons c chunks ih =>
    obtain ⟨fd, chunk⟩ := c
    have hself := hstream fd
    have hcutself := hcut fd
    rw [chunksOf_cons_self, List.flatten_cons] at hself
    rw [chunksOf_cons_self, WellCut] at hcutself
    obtain ⟨q', complete, hfeed, htracks, hsplit⟩ :=
      feed_stream h hself (hpos _ (List.mem_cons_self ..)) hcutself.1
    have hcuttail : ∀ d, WellCut
        (update position fd (advance (position fd).1 ((position fd).2 + chunk.length)) d).1
        (update position fd (advance (position fd).1 ((position fd).2 + chunk.length)) d).2
        (chunksOf d chunks) := by
      intro d
      by_cases hd : d = fd
      · subst hd
        rw [update_self]
        exact hcutself.2
      · have := hcut d
        rw [chunksOf_cons_of_ne hd] at this
        rwa [update_of_ne hd]
    obtain ⟨packages, hall, hpackages⟩ := ih htracks
      (fun c hc => hpos c (List.mem_cons_of_mem _ hc)) (ahead_tail hstream) hcuttail
    refine ⟨complete.map (Frame.package fd) ++ packages, ?_, fun d => ?_⟩
    · rw [feedAll, hfeed, except_ok_bind]
      simp only [hall, except_ok_bind]
      rfl
    · rw [packagesOf_append, hpackages]
      by_cases hd : d = fd
      · subst hd
        rw [packagesOf_self fun p hp => id_of_mem_package hp, update_self, ← List.map_append,
          ← hsplit]
      · rw [packagesOf_of_ne (fun p hp => id_of_mem_package hp) hd, update_of_ne hd,
          List.nil_append]

/-! ## Chunks that are not cut well -/

/-- A chunk that does not end where its frame ends costs the bytes of the record, and so does
every chunk when the block of the record is too small. -/
theorem filterResumed_bad {uc : Uncomplete} {done : ℕ} {res : Result}
    (hpart : Partial fd f done uc) (hshows : Shows q saved waiting) (hnone : saved fd = none)
    (hhead : uc.head.length = headSize)
    (hchunk : chunk ++ later = f.bytes.drop done ++ stream frames)
    (hbad : done + chunk.length ≠ f.bytes.length ∨ done = headSize ∧ ¬ Room f uc)
    (h : filterResumed q uc fd chunk = .ok (q', res)) :
    Adds q' res saved waiting fd chunk.length := by
  refine (filterResumed_adds hshows hnone hhead h).2 fun hcompletes => ?_
  obtain ⟨hle, uc', rest, hcomplete, hsum⟩ := hcompletes
  have hbytes := f.length_bytes
  rw [hpart.read_eq] at hle hsum
  obtain ⟨uc'', rest', hcomplete', hrest, -, hlength, hread, hprotobuf⟩ :=
    completeHead_partial hpart hchunk hle
  obtain ⟨rfl, rfl⟩ : uc'' = uc' ∧ rest' = rest := by
    have := Except.ok.inj (hcomplete'.symm.trans hcomplete)
    exact Prod.mk.inj this
  rw [hlength] at hsum
  rcases hbad with hne | ⟨rfl, hroom⟩
  · omega
  -- the body is written beyond the end of the block
  obtain ⟨block, hblock, hsmall⟩ : ∃ block, uc.protobuf = some block ∧
      block.length < f.body.length := by
    simpa [Room] using hroom
  obtain ⟨hsum', -, -⟩ := completeHead_ok (by rw [hpart.read_eq]; exact hle) hcomplete
  rw [hpart.read_eq] at hsum'
  rw [max_self] at hread
  unfold filterResumed at h
  rw [hpart.read_eq] at h
  split at h
  · cases h
  rw [if_neg (by omega), hcomplete, except_ok_bind] at h
  simp only [filterBody, headLength_setbufferSession, hlength, hprotobuf, hblock, hread] at h
  rw [if_neg f.not_maxBody_lt, allocBody, if_neg (by simp), except_ok_bind, if_neg (by omega),
    if_pos (by omega), storeBody, store, if_neg (by rw [List.length_map]; omega)] at h
  cases h

/-- A fresh chunk with a complete head and a part of the body leaves a record with a pointer
that was overwritten, or with a block that is too small. -/
theorem filterFresh_bad {res : Result} (hchunk : chunk ++ later = stream (f :: frames))
    (hcut : ¬ WellCutChunk (f :: frames) 0 chunk.length)
    (h : filterFresh q fd chunk = .ok (q', res)) :
    chunk.length = headSize ∧ res = .nothing ∧ ∃ uc, q' = some (saveUncomplete q uc) ∧
      Partial fd f headSize uc ∧ ¬ Room f uc ∧ uc.head.length = headSize := by
  rw [WellCutChunk, if_pos rfl] at hcut
  obtain ⟨hle, hlt, hfits⟩ : headSize ≤ chunk.length ∧ chunk.length < f.bytes.length ∧
      (chunk.length = headSize → nativeLength f.head < f.body.length) := by
    push Not at hcut
    exact hcut
  rw [f.length_bytes] at hlt
  obtain ⟨rest, rfl, hrest⟩ := exists_head hchunk hle
  have hlen : (setbufferSession f.head fd ++ rest).length = headSize + rest.length := by
    rw [List.length_append, length_session]
  have hlen' : (f.head ++ rest).length = headSize + rest.length := by
    rw [List.length_append, f.head_length]
  unfold filterFresh at h
  simp only [setbufferSession_append f.head_length, f.headLength_session,
    f.nativeLength_session] at h
  rw [if_neg (by omega), if_neg f.not_maxBody_lt, if_neg (by omega), if_pos (by omega)] at h
  obtain ⟨block, hmalloc, h⟩ := except_bind_eq_ok.mp h
  split at h
  · cases h
  cases h
  have hsize : (f.head ++ rest).length = headSize := by omega
  refine ⟨hsize, rfl, _, rfl, ⟨rfl, by rw [hlen, ← hlen', hsize], fun hlt => by omega, fun _ =>
    ⟨?_, block, rfl, by rw [Nat.sub_self, List.take_zero, List.take_zero, List.map_nil]⟩⟩, ?_, ?_⟩
  · rw [← length_session fd f, List.take_left]
  · intro hroom
    have hblock := hroom block rfl
    have hnative := hfits hsize
    rw [malloc] at hmalloc
    split at hmalloc
    · cases hmalloc
    · rw [← Except.ok.inj hmalloc, List.length_replicate] at hblock
      omega
  · rw [List.length_take]
    omega

/-- The packages of a run whose first chunk adds at most `n` bytes. -/
theorem feedAll_le {chunks : List (ℕ × List UInt8)} {packages : List Netpackext} {n : ℕ}
    (hfilter : ∀ q' res, filterData q fd chunk = .ok (q', res) →
      Adds q' res saved waiting fd n)
    (h : feedAll q ((fd, chunk) :: chunks) = .ok packages) :
    bytesIn (packagesOf fd packages) ≤
      bytesIn (packagesOf fd waiting) + n + (chunksOf fd chunks).flatten.length := by
  obtain ⟨⟨first, q'⟩, hfeed, h⟩ := except_bind_eq_ok.mp h
  obtain ⟨rest, hrest, h⟩ := except_bind_eq_ok.mp h
  cases h
  rw [feed] at hfeed
  cases hr : filterData q fd chunk with
  | error e =>
    rw [hr] at hfeed
    cases hfeed
  | ok r =>
    rw [hr] at hfeed
    obtain ⟨record, waiting', hshows, hle, -⟩ := (hfilter _ _ hr).dispatch (Except.ok.inj hfeed)
    have := feedAll_adds hshows hrest fd
    rw [held, update_self] at this
    rw [packagesOf_append, bytesIn_append]
    omega

/-- A block that is too small is never made up for. -/
theorem feedAll_stuck {chunks : List (ℕ × List UInt8)} {packages : List Netpackext}
    {uc : Uncomplete} (hshows : Shows q saved waiting) (hrecord : saved fd = some uc)
    (hpart : Partial fd f headSize uc) (hroom : ¬ Room f uc)
    (hwaiting : bytesIn (packagesOf fd waiting) = 0)
    (hstream : (chunksOf fd chunks).flatten = f.body ++ stream frames)
    (h : feedAll q chunks = .ok packages) :
    bytesIn (packagesOf fd packages) < headSize + (chunksOf fd chunks).flatten.length := by
  induction chunks generalizing q saved waiting packages with
  | nil =>
    cases h
    exact Nat.add_pos_left (by decide) _
  | cons c chunks ih =>
    obtain ⟨id, chunk⟩ := c
    by_cases hid : fd = id
    · subst hid
      rw [chunksOf_cons_self, List.flatten_cons] at hstream ⊢
      have hchunk : chunk ++ (chunksOf fd chunks).flatten =
          f.bytes.drop headSize ++ stream frames := by
        rw [hstream, Frame.bytes, ← f.head_length, List.drop_left]
      obtain ⟨q₁, hfind, hshows₁⟩ := hshows.findUncomplete fd
      have hadds : ∀ q' res, filterData q fd chunk = .ok (q', res) →
          Adds q' res (update saved fd none) waiting fd chunk.length := by
        intro q' res hfilter
        rw [filterData, hfind, hrecord] at hfilter
        exact filterResumed_bad hpart hshows₁ (update_self ..) (hshows.head fd uc hrecord) hchunk
          (Or.inr ⟨rfl, hroom⟩) hfilter
      have hle := feedAll_le hadds h
      have hpos : 0 < headSize := by decide
      rw [List.length_append]
      omega
    · rw [chunksOf_cons_of_ne hid] at hstream ⊢
      obtain ⟨⟨first, q'⟩, hfeed, h⟩ := except_bind_eq_ok.mp h
      obtain ⟨rest, hrest, h⟩ := except_bind_eq_ok.mp h
      cases h
      obtain ⟨record, waiting', hshows', hle⟩ := feed_adds hshows hfeed
      have hfirst := hle fd
      rw [held, held, if_neg hid, update_of_ne hid, hwaiting] at hfirst
      have hrecord' : update saved id record fd = some uc := by rw [update_of_ne hid, hrecord]
      have := ih hshows' hrecord' (by omega) hstream hrest
      rw [packagesOf_append, bytesIn_append]
      omega

theorem bytesIn_packages (fd : ℕ) (frames : List Frame) :
    bytesIn (frames.map (Frame.package fd)) = (stream frames).length := by
  induction frames with
  | nil => rfl
  | cons f frames ih =>
    rw [List.map_cons, bytesIn_cons, ih, stream_cons, List.length_append, f.length_bytes,
      Frame.package, List.length_append, length_session]

/-- **A chunk that is not cut well** costs bytes, whatever comes later. -/
theorem feedAll_bad {chunks : List (ℕ × List UInt8)} {packages : List Netpackext}
    (h : Tracks q position)
    (hstream : (chunksOf fd ((fd, chunk) :: chunks)).flatten = ahead (position fd))
    (hcut : ¬ WellCutChunk (position fd).1 (position fd).2 chunk.length)
    (hall : feedAll q ((fd, chunk) :: chunks) = .ok packages) :
    bytesIn (packagesOf fd packages) < (stream (position fd).1).length := by
  obtain ⟨saved, hshows, hpending⟩ := h
  have hfd := hpending fd
  obtain ⟨q₁, hfind, hshows₁⟩ := hshows.findUncomplete fd
  rw [chunksOf_cons_self, List.flatten_cons] at hstream
  generalize position fd = p at *
  obtain ⟨frames, done⟩ := p
  cases frames with
  | nil => exact absurd trivial hcut
  | cons f frames =>
    have hlength := congrArg List.length hstream
    rw [ahead, List.length_append, List.length_drop, stream_cons, List.length_append] at hlength
    rw [stream_cons, List.length_append]
    have hbytes := f.length_bytes
    by_cases hdone : done = 0
    · -- a fresh chunk
      subst hdone
      rw [ahead, List.drop_zero] at hstream
      rw [pending_zero.mp hfd] at hfind
      obtain ⟨⟨first, q'⟩, hfeed, hall⟩ := except_bind_eq_ok.mp hall
      obtain ⟨rest, hrest, hall⟩ := except_bind_eq_ok.mp hall
      cases hall
      rw [feed, filterData, hfind] at hfeed
      cases hr : filterFresh q₁ fd chunk with
      | error e =>
        simp only [hr] at hfeed
        cases hfeed
      | ok r =>
        simp only [hr] at hfeed
        obtain ⟨q₂, res⟩ := r
        obtain ⟨hsize, rfl, uc, rfl, hpart, hroom, hhead⟩ := filterFresh_bad hstream hcut hr
        cases hfeed
        have hfdeq := hpart.fd_eq
        have hshows₂ := @Shows.saveUncomplete _ _ _ hshows₁ uc
          (by rw [hfdeq, update_self]) hhead
        have hbody : (chunksOf fd chunks).flatten = f.body ++ stream frames := by
          rw [stream_cons, Frame.bytes, List.append_assoc] at hstream
          have hheadlen := f.head_length
          obtain ⟨-, hlater⟩ := (append_cut hstream).1 (by omega)
          rw [hlater, hsize, ← hheadlen, List.drop_length, List.nil_append]
        have := feedAll_stuck hshows₂ (by rw [← hfdeq, update_self]) hpart hroom rfl hbody hrest
        rw [List.nil_append]
        omega
    · -- a record is dropped
      obtain ⟨hlt, uc, huc, hpart, hroom⟩ := (pending_cons (by omega)).mp hfd
      rw [ahead, stream_cons, List.drop_append_of_le_length hlt.le] at hstream
      rw [WellCutChunk, if_neg hdone] at hcut
      have hadds : ∀ q' res, filterData q fd chunk = .ok (q', res) →
          Adds q' res (update saved fd none) [] fd chunk.length := by
        intro q' res hfilter
        rw [filterData, hfind, huc] at hfilter
        exact filterResumed_bad hpart hshows₁ (update_self ..) (hshows.head fd uc huc) hstream
          (Or.inl hcut) hfilter
      have hle := feedAll_le hadds hall
      have hnil : bytesIn (packagesOf fd []) = 0 := rfl
      simp only at hlength
      omega

/-- A run that hands out the frames is cut well. -/
theorem wellCut_of_feedAll {chunks : List (ℕ × List UInt8)} {packages : List Netpackext}
    (h : Tracks q position) (hpos : ∀ c ∈ chunks, c.2 ≠ [])
    (hstream : ∀ fd, (chunksOf fd chunks).flatten = ahead (position fd))
    (hall : feedAll q chunks = .ok packages)
    (hpackages : ∀ fd, packagesOf fd packages = (position fd).1.map (Frame.package fd)) (fd : ℕ) :
    WellCut (position fd).1 (position fd).2 (chunksOf fd chunks) := by
  induction chunks generalizing q position packages with
  | nil => exact trivial
  | cons c chunks ih =>
    obtain ⟨id, chunk⟩ := c
    by_cases hcut : WellCutChunk (position id).1 (position id).2 chunk.length
    · have hself := hstream id
      rw [chunksOf_cons_self, List.flatten_cons] at hself
      obtain ⟨q', complete, hfeed, htracks, hsplit⟩ :=
        feed_stream h hself (hpos _ (List.mem_cons_self ..)) hcut
      rw [feedAll, hfeed, except_ok_bind] at hall
      obtain ⟨rest, hrest, hall⟩ := except_bind_eq_ok.mp hall
      cases hall
      have htail : ∀ d, packagesOf d rest = (update position id
          (advance (position id).1 ((position id).2 + chunk.length)) d).1.map
            (Frame.package d) := by
        intro d
        have hd' := hpackages d
        rw [packagesOf_append] at hd'
        by_cases hd : d = id
        · subst hd
          rw [packagesOf_self fun p hp => id_of_mem_package hp, hsplit, List.map_append] at hd'
          rw [update_self]
          exact List.append_cancel_left hd'
        · rw [packagesOf_of_ne (fun p hp => id_of_mem_package hp) hd, List.nil_append] at hd'
          rwa [update_of_ne hd]
      have := ih htracks (fun c hc => hpos c (List.mem_cons_of_mem _ hc)) (ahead_tail hstream)
        hrest htail
      by_cases hd : fd = id
      · subst hd
        rw [update_self] at this
        rw [chunksOf_cons_self]
        exact ⟨hcut, this⟩
      · rw [update_of_ne hd] at this
        rwa [chunksOf_cons_of_ne hd]
    · have hlt := feedAll_bad h (hstream id) hcut hall
      rw [hpackages id, bytesIn_packages] at hlt
      omega

theorem tracks_nil (frames : ℕ → List Frame) : Tracks none fun fd => (frames fd, 0) :=
  ⟨_, shows_nil, fun _ => pending_zero.mpr rfl⟩

/-! ## The theorem -/

/-- **Reassembly.** All sockets get their frames exactly when the chunks of every socket are cut
well: none ends inside of a body whose head it begins with (or just behind the head, unless the
block for the byte-swapped length has room for the body), and every chunk that begins inside of
a frame ends where this frame ends. -/
theorem frames_reassembled {frames : ℕ → List Frame} {chunks : List (ℕ × List UInt8)}
    (h : Cuts frames chunks) :
    HandsOut frames chunks ↔ ∀ fd, WellCut (frames fd) 0 (chunksOf fd chunks) := by
  have hstream : ∀ fd, (chunksOf fd chunks).flatten = ahead (frames fd, 0) := h.flatten
  constructor
  · rintro ⟨packages, hall, hpackages⟩ fd
    exact wellCut_of_feedAll (tracks_nil frames) h.ne_nil hstream hall hpackages fd
  · intro hcut
    exact feedAll_stream (tracks_nil frames) h.ne_nil hstream hcut

/-- A frame with a body of three bytes. -/
def sampleFrame : Frame where
  head := [1, 1, 0, 0, 0, 3, 0, 0, 0, 0, 0, 0, 0, 0, 9, 9, 9, 9, 9, 9, 9, 9]
  body := [7, 8, 9]
  head_length := by decide
  body_length := by decide
  body_le := by decide

/-- Two frames for socket 5, one for socket 6. -/
def sampleFrames (fd : ℕ) : List Frame :=
  if fd = 5 then [sampleFrame, sampleFrame] else if fd = 6 then [sampleFrame] else []

/-- The second frame of socket 5 is cut inside of its body, that of socket 6 inside of its head. -/
def sampleChunks : List (ℕ × List UInt8) :=
  [(5, sampleFrame.bytes ++ sampleFrame.bytes.take 23), (6, sampleFrame.bytes.take 10),
    (5, sampleFrame.bytes.drop 23), (6, sampleFrame.bytes.drop 10)]

theorem frames_reassembled_interleaved :
    Cuts sampleFrames sampleChunks ∧ HandsOut sampleFrames sampleChunks := by
  have hother : ∀ fd, fd ≠ 5 → fd ≠ 6 → sampleFrames fd = [] ∧ chunksOf fd sampleChunks = [] := by
    intro fd h5 h6
    exact ⟨by rw [sampleFrames, if_neg h5, if_neg h6],
      by simp [chunksOf, sampleChunks, Ne.symm h5, Ne.symm h6]⟩
  have hcuts : Cuts sampleFrames sampleChunks := by
    refine ⟨by decide, fun fd => ?_⟩
    by_cases h5 : fd = 5
    · rw [h5]
      rfl
    by_cases h6 : fd = 6
    · rw [h6]
      rfl
    · rw [(hother fd h5 h6).1, (hother fd h5 h6).2]
      rfl
  refine ⟨hcuts, (frames_reassembled hcuts).mpr fun fd => ?_⟩
  by_cases h5 : fd = 5
  · rw [h5]
    decide
  by_cases h6 : fd = 6
  · rw [h6]
    decide
  · rw [(hother fd h5 h6).2]
    exact trivial

/-- One frame for socket 5. -/
def singleFrame (fd : ℕ) : List Frame := if fd = 5 then [sampleFrame] else []

/-- The second chunk ends inside of the head that the first one has begun. -/
def headInThreeChunks : List (ℕ × List UInt8) :=
  [(5, sampleFrame.bytes.take 10), (5, (sampleFrame.bytes.drop 10).take 5),
    (5, sampleFrame.bytes.drop 15)]

/-- The frame is lost: nothing is handed out. -/
theorem head_in_three_chunks_lost :
    Cuts singleFrame headInThreeChunks ∧ ¬ HandsOut singleFrame headInThreeChunks := by
  constructor
  · refine ⟨by decide, fun fd => ?_⟩
    by_cases h : fd = 5
    · rw [h]
      rfl
    · have hnil : chunksOf fd headInThreeChunks = [] := by
        simp [chunksOf, headInThreeChunks, Ne.symm h]
      rw [hnil, singleFrame, if_neg h]
      rfl
  · rintro ⟨packages, hall, hpackages⟩
    have hnil : feedAll none headInThreeChunks = .ok [] := by rfl
    obtain rfl := Except.ok.inj (hnil.symm.trans hall)
    exact absurd (hpackages 5) (by decide)

end SkynetEureka.NetPack
