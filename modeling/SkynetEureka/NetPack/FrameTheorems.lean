import SkynetEureka.NetPack.Frame

/-!
# Chunks of frames

The branches of `filter_data_` on chunks of a stream of frames: `push_more` gets all of them
right (`pushMore_stream`), the fresh branch and the branch of a saved record those that are
`WellCutChunk`.
-/

namespace SkynetEureka.NetPack

open Lib Function

variable {q : Option Queue} {saved : ℕ → Option Uncomplete} {waiting : List Netpackext}
  {fd : ℕ} {f : Frame} {frames : List Frame} {chunk later : List UInt8}

/-- What a chunk of a stream leaves behind: complete frames, and the record of the next one. -/
def Splits (fd : ℕ) (frames : List Frame) (n : ℕ) (complete : List Frame)
    (record : Option Uncomplete) : Prop :=
  frames = complete ++ (advance frames n).1 ∧
    Pending fd (advance frames n).1 (advance frames n).2 record

theorem Splits.none (hn : n = 0) : Splits fd frames n [] none := by
  subst hn
  rw [Splits, advance_zero]
  exact ⟨rfl, pending_zero.mpr rfl⟩

/-- A chunk that ends inside of the first frame. -/
theorem Splits.part {n : ℕ} (hpos : 0 < n) (hlt : n < f.bytes.length) {uc : Uncomplete}
    (hpart : Partial fd f n uc) (hroom : Room f uc) : Splits fd (f :: frames) n [] (some uc) := by
  rw [Splits, advance_of_lt hlt]
  exact ⟨rfl, (pending_cons hpos).mpr ⟨hlt, uc, rfl, hpart, hroom⟩⟩

/-- A chunk that goes beyond the first frame. -/
theorem Splits.cons {n : ℕ} {complete : List Frame} {record : Option Uncomplete}
    (h : Splits fd frames n complete record) :
    Splits fd (f :: frames) (f.bytes.length + n) (f :: complete) record := by
  rw [Splits, advance_add]
  exact ⟨by rw [List.cons_append, ← h.1], h.2⟩

/-! ## Heads -/

/-- A chunk that holds the first head. -/
theorem exists_head (h : chunk ++ later = stream (f :: frames)) (hle : headSize ≤ chunk.length) :
    ∃ rest, chunk = f.head ++ rest ∧ rest ++ later = f.body ++ stream frames := by
  rw [stream_cons, Frame.bytes, List.append_assoc] at h
  exact (append_cut h).2 (by rw [f.head_length]; exact hle)

/-- A chunk that ends inside of the first head. -/
theorem eq_take_head (h : chunk ++ later = stream (f :: frames)) (hlt : chunk.length < headSize) :
    chunk = f.head.take chunk.length := by
  rw [stream_cons, Frame.bytes, List.append_assoc] at h
  exact ((append_cut h).1 (by rw [f.head_length]; exact hlt.le)).1

theorem length_session (fd : ℕ) (f : Frame) : (setbufferSession f.head fd).length = headSize := by
  rw [length_setbufferSession, f.head_length]

theorem Frame.headLength_session (f : Frame) (fd : ℕ) (rest : List UInt8) :
    headLength (setbufferSession f.head fd ++ rest) = f.body.length := by
  rw [headLength_append (length_session fd f), headLength_setbufferSession, f.body_length]

theorem Frame.nativeLength_session (f : Frame) (fd : ℕ) (rest : List UInt8) :
    nativeLength (setbufferSession f.head fd ++ rest) = nativeLength f.head := by
  rw [nativeLength_append (length_session fd f), nativeLength_setbufferSession]

theorem Frame.not_maxBody_lt (f : Frame) : ¬ maxBody < (f.body.length : ℤ) :=
  not_lt.mpr f.body_le

/-- The first package of a chunk that holds the first frame. -/
theorem load_package {rest : List UInt8} :
    load (setbufferSession f.head fd ++ (f.body ++ rest)) (f.body.length + headSize) =
        .ok (f.package fd).buffer ∧
      (setbufferSession f.head fd ++ (f.body ++ rest)).drop
        ((f.body.length : ℤ) + headSize).toNat = rest := by
  have hsize : ((f.body.length : ℤ) + headSize) =
      ((setbufferSession f.head fd ++ f.body).length : ℕ) := by
    rw [List.length_append, length_session]
    omega
  rw [hsize, Int.toNat_natCast, ← List.append_assoc]
  exact ⟨by rw [load_of_le (by simp), List.take_left]; rfl, List.drop_left⟩

/-! ## `push_more` -/

/-- **`push_more` on a chunk of a stream.** It pushes the complete frames and saves the rest. -/
theorem pushMore_stream {fuel : ℕ} (h : chunk ++ later = stream frames)
    (hshows : Shows q saved waiting) (hnone : saved fd = none) (hfuel : chunk.length < fuel) :
    ∃ q' ret complete record, pushMore fuel q fd chunk = .ok (q', ret) ∧ ret ≤ 1 ∧
      Shows q' (update saved fd record) (waiting ++ complete.map (Frame.package fd)) ∧
        Splits fd frames chunk.length complete record := by
  induction fuel generalizing q waiting chunk frames with
  | zero => omega
  | succ fuel ih =>
    have hself : update saved fd none = saved := by rw [← hnone, update_eq_self]
    by_cases hzero : chunk.length = 0
    · refine ⟨q, 0, [], none, ?_, by decide, ?_, Splits.none hzero⟩
      · rw [pushMore, if_pos hzero]
      · rw [hself, List.map_nil, List.append_nil]
        exact hshows
    cases frames with
    | nil =>
      have : chunk = [] := (List.append_eq_nil_iff.mp h).1
      exact absurd (congrArg List.length this) hzero
    | cons f frames =>
      rw [pushMore, if_neg hzero]
      by_cases hshort : chunk.length < headSize
      · -- the chunk ends inside of the head
        have htake := eq_take_head h hshort
        obtain ⟨hpart, hroom⟩ := @partial_partialHead fd _ _ hshort htake
        refine ⟨_, 1, [], some (partialHead fd chunk), by rw [if_pos hshort], le_rfl, ?_,
          .part (by omega) (by rw [f.length_bytes]; omega) hpart hroom⟩
        rw [List.map_nil, List.append_nil]
        exact hshows.saveUncomplete hnone (length_partialHead hshort)
      rw [if_neg hshort]
      obtain ⟨rest, rfl, hrest⟩ := exists_head h (by omega)
      simp only [setbufferSession_append f.head_length, f.headLength_session,
        if_neg f.not_maxBody_lt]
      obtain ⟨hinside, hbeyond⟩ := append_cut hrest
      have hlen : (setbufferSession f.head fd ++ rest).length = headSize + rest.length := by
        rw [List.length_append, length_session]
      have hlen' : (f.head ++ rest).length = headSize + rest.length := by
        rw [List.length_append, f.head_length]
      by_cases hbody : rest.length < f.body.length
      · -- the chunk ends inside of the body
        have hdrop : (setbufferSession f.head fd ++ rest).drop headSize = rest := by
          rw [← length_session fd f, List.drop_left]
        have htake : (setbufferSession f.head fd ++ rest).take headSize =
            setbufferSession f.head fd := by
          rw [← length_session fd f, List.take_left]
        have hstore : store (List.replicate f.body.length (none : Option UInt8)) 0
            (rest.map some) = .ok (rest.map some ++
              List.replicate (f.body.length - rest.length) none) := by
          rw [store, if_pos (by simp; omega)]
          simp
        refine ⟨some (saveUncomplete q ⟨setbufferSession f.head fd, some (rest.map some ++
            List.replicate (f.body.length - rest.length) none), headSize + rest.length, fd⟩), 1, [],
          some ⟨setbufferSession f.head fd, some (rest.map some ++
            List.replicate (f.body.length - rest.length) none), headSize + rest.length, fd⟩,
          ?_, le_rfl, ?_, ?_⟩
        · rw [if_pos (by omega), hdrop, htake, hlen]
          simp only [malloc, if_neg (show ¬ (f.body.length : ℤ) < 0 by omega), Int.toNat_natCast,
            bind, Except.bind, hstore]
          rfl
        · rw [List.map_nil, List.append_nil]
          exact hshows.saveUncomplete hnone (length_session fd f)
        · rw [hlen']
          refine .part (by omega) (by rw [f.length_bytes]; omega)
            ⟨rfl, rfl, fun hlt => absurd hlt (by omega), fun _ => ⟨rfl, _, rfl, ?_⟩⟩ ?_
          · rw [Nat.add_sub_cancel_left, ← (hinside hbody.le).1]
            simp
          · rintro block ⟨⟩
            simp
            omega
      · -- the chunk holds the whole frame
        obtain ⟨rest, rfl, hstream⟩ := hbeyond (by omega)
        have happ : (f.body ++ rest).length = f.body.length + rest.length := List.length_append
        rw [happ] at hlen hlen'
        obtain ⟨hload, hdrop⟩ := @load_package fd f rest
        rw [if_neg (by omega)]
        simp only [hload, hdrop, bind, Except.bind]
        have hpushed := hshows.pushData fd (f.package fd).buffer
        have hpos := f.bytes_pos
        have hcount : (f.head ++ (f.body ++ rest)).length = f.bytes.length + rest.length := by
          rw [f.length_bytes]
          omega
        obtain ⟨q', ret, complete, record, hmore, hret, hshows', hsplits⟩ :=
          ih hstream hpushed (by omega)
        refine ⟨q', ret, f :: complete, record, ?_, hret, ?_, by rw [hcount]; exact hsplits.cons⟩
        · by_cases hrestzero : 0 < rest.length
          · rw [if_pos hrestzero]
            exact hmore
          · rw [if_neg hrestzero]
            cases fuel with
            | zero => omega
            | succ fuel =>
              rw [pushMore, if_pos (by omega)] at hmore
              exact hmore
        · rw [List.map_cons]
          rw [List.append_assoc] at hshows'
          exact hshows'

/-! ## The fresh branch -/

/-- The chunk of a stream is handled: the frames that it completes are handed out, and the next
one is in the record. -/
def Delivers (r : Except Fault (Option Queue × Result)) (saved : ℕ → Option Uncomplete) (fd : ℕ)
    (frames : List Frame) (n : ℕ) : Prop :=
  ∃ q₁ res q' complete record, r = .ok (q₁, res) ∧
    dispatch q₁ res = (complete.map (Frame.package fd), q') ∧
      Shows q' (update saved fd record) [] ∧ Splits fd frames n complete record

theorem Delivers.nothing {n : ℕ} {record : Option Uncomplete}
    (hshows : Shows q (update saved fd record) []) (hsplits : Splits fd frames n [] record) :
    Delivers (.ok (q, .nothing)) saved fd frames n :=
  ⟨q, .nothing, q, [], record, rfl, rfl, hshows, hsplits⟩

theorem Delivers.data (hshows : Shows q saved []) (hnone : saved fd = none) :
    Delivers (.ok (q, .data fd (f.package fd).buffer)) saved fd (f :: frames) f.bytes.length := by
  refine ⟨q, _, q, [f], none, rfl, rfl, ?_, Splits.cons (n := 0) (Splits.none rfl)⟩
  rw [← hnone, update_eq_self]
  exact hshows

/-- The first frame is pushed, and `push_more` gets the rest. -/
theorem morePackages_stream (h : chunk ++ later = stream frames) (hshows : Shows q saved [])
    (hnone : saved fd = none) :
    Delivers (morePackages (some (pushData q fd (f.package fd).buffer)) fd chunk) saved fd
      (f :: frames) (f.bytes.length + chunk.length) := by
  obtain ⟨q₁, ret, complete, record, hmore, hret, hshows₁, hsplits⟩ :=
    pushMore_stream h (hshows.pushData fd (f.package fd).buffer) hnone (Nat.lt_succ_self _)
  obtain ⟨q', hdispatch, hshows'⟩ := hshows₁.dispatchQueue
  refine ⟨q₁, .more, q', f :: complete, record, ?_, ?_, hshows', hsplits.cons⟩
  · simp only [morePackages, hmore, bind, Except.bind, if_neg (not_lt.mpr hret)]
    rfl
  · rw [dispatch, hdispatch]
    rfl

theorem filterFresh_stream (h : chunk ++ later = stream frames) (hshows : Shows q saved [])
    (hnone : saved fd = none) (hpos : chunk ≠ []) (hcut : WellCutChunk frames 0 chunk.length) :
    Delivers (filterFresh q fd chunk) saved fd frames chunk.length := by
  cases frames with
  | nil => exact absurd (List.append_eq_nil_iff.mp h).1 hpos
  | cons f frames =>
    rw [filterFresh]
    by_cases hshort : chunk.length < headSize
    · obtain ⟨hpart, hroom⟩ := @partial_partialHead fd _ _ hshort (eq_take_head h hshort)
      rw [if_pos hshort]
      exact .nothing (hshows.saveUncomplete hnone (length_partialHead hshort))
        (.part (List.length_pos_of_ne_nil hpos) (by rw [f.length_bytes]; omega) hpart hroom)
    rw [if_neg hshort]
    obtain ⟨rest, rfl, hrest⟩ := exists_head h (by omega)
    obtain ⟨-, hbeyond⟩ := append_cut hrest
    have hlen : (setbufferSession f.head fd ++ rest).length = headSize + rest.length := by
      rw [List.length_append, length_session]
    have hlen' : (f.head ++ rest).length = headSize + rest.length := by
      rw [List.length_append, f.head_length]
    simp only [setbufferSession_append f.head_length, f.headLength_session,
      f.nativeLength_session, if_neg f.not_maxBody_lt]
    by_cases hbody : rest.length < f.body.length
    · -- the chunk ends just behind the head
      obtain ⟨hnil, hfits⟩ : rest = [] ∧ (f.body.length : ℤ) ≤ nativeLength f.head := by
        have hcut : (f.head ++ rest).length < headSize ∨ f.bytes.length ≤ (f.head ++ rest).length ∨
          (f.head ++ rest).length = headSize ∧ (f.body.length : ℤ) ≤ nativeLength f.head := hcut
        rw [f.length_bytes, hlen'] at hcut
        exact ⟨List.length_eq_zero_iff.mp (by omega), by omega⟩
      subst hnil
      rw [List.append_nil] at hlen hlen' ⊢
      rw [List.append_nil, List.length_nil, Nat.add_zero] at *
      rw [if_neg (by rw [hlen]; omega), if_pos (by rw [hlen]; omega), malloc,
        if_neg (by omega)]
      simp only [bind, Except.bind]
      rw [if_neg (by omega), List.take_of_length_le hlen.le, hlen, hlen']
      refine .nothing (hshows.saveUncomplete hnone (length_session fd f))
        (.part (by decide) (by rw [f.length_bytes]; omega)
          ⟨rfl, rfl, fun hlt => absurd hlt (Nat.lt_irrefl _), fun _ => ⟨rfl, _, rfl, ?_⟩⟩ ?_)
      · rw [Nat.sub_self, List.take_zero, List.take_zero, List.map_nil]
      · intro block hblock
        rw [← Option.some.inj hblock, List.length_replicate]
        omega
    · obtain ⟨rest, rfl, hstream⟩ := hbeyond (by omega)
      have happ : (f.body ++ rest).length = f.body.length + rest.length := List.length_append
      rw [happ] at hlen hlen'
      have hcount : (f.head ++ (f.body ++ rest)).length = f.bytes.length + rest.length := by
        rw [f.length_bytes]
        omega
      rw [hcount]
      by_cases hexact : rest = []
      · -- the chunk is the frame
        subst hexact
        rw [List.append_nil, List.length_nil, Nat.add_zero] at hlen ⊢
        rw [if_pos (by rw [hlen]; omega)]
        exact .data hshows hnone
      · have hmore : 0 < rest.length := List.length_pos_of_ne_nil hexact
        obtain ⟨hload, hdrop⟩ := @load_package fd f rest
        rw [if_neg (by omega), if_neg (by omega)]
        simp only [hload, hdrop, bind, Except.bind]
        exact morePackages_stream hstream hshows hnone

/-! ## The branch of a saved record -/

/-- The head is complete afterwards, wherever the last chunk ended. -/
theorem completeHead_partial {uc : Uncomplete} {done : ℕ} (hpart : Partial fd f done uc)
    (h : chunk ++ later = f.bytes.drop done ++ stream frames)
    (hle : headSize ≤ done + chunk.length) :
    ∃ uc' rest, completeHead uc chunk = .ok (uc', rest) ∧
      rest ++ later = f.body.drop (done - headSize) ++ stream frames ∧
        setbufferSession uc'.head fd = setbufferSession f.head fd ∧
          headLength uc'.head = f.body.length ∧ uc'.read = max done headSize ∧
            uc'.protobuf = uc.protobuf := by
  have hhead := f.head_length
  rw [Frame.bytes, List.drop_append, hhead] at h
  rw [completeHead, hpart.read_eq]
  by_cases hlt : done < headSize
  · obtain ⟨huc, -⟩ := hpart.short hlt
    have hrest : (f.head.drop done).length = headSize - done := by
      rw [List.length_drop, hhead]
    rw [Nat.sub_eq_zero_of_le hlt.le, List.drop_zero, List.append_assoc] at h
    obtain ⟨rest, rfl, hlater⟩ := (append_cut h).2 (by omega)
    have hstore : store uc.head done (f.head.drop done) = .ok f.head := by
      have hlen : uc.head.length = headSize := by
        rw [huc, List.length_append, List.length_take, List.length_replicate, hhead]
        omega
      have hfront : uc.head.take done = f.head.take done := by
        rw [huc, List.take_append_of_le_length (by rw [List.length_take]; omega), List.take_take,
          Nat.min_self]
      have hback : uc.head.drop (done + (headSize - done)) = [] :=
        List.drop_of_length_le (by omega)
      rw [store, if_pos (by omega), hrest, hfront, hback, List.append_nil, List.take_append_drop]
    have htake : (f.head.drop done ++ rest).take (headSize - done) = f.head.drop done := by
      rw [← hrest, List.take_left]
    have hdrop : (f.head.drop done ++ rest).drop (headSize - done) = rest := by
      rw [← hrest, List.drop_left]
    refine ⟨{ uc with head := f.head, read := done + (headSize - done) }, rest, ?_, ?_, rfl,
      f.body_length, ?_, rfl⟩
    · rw [if_pos hlt]
      simp only [htake, hdrop, hstore, bind, Except.bind]
      rfl
    · rw [Nat.sub_eq_zero_of_le hlt.le, List.drop_zero]
      exact hlater
    · rw [max_eq_right hlt.le, Nat.add_sub_cancel' hlt.le]
  · obtain ⟨huc, -⟩ := hpart.long (by omega)
    rw [List.drop_of_length_le (by omega), List.nil_append] at h
    refine ⟨uc, chunk, by rw [if_neg hlt]; rfl, h, ?_, ?_, ?_, rfl⟩
    · rw [huc, setbufferSession_idem]
    · rw [huc, headLength_setbufferSession, f.body_length]
    · rw [hpart.read_eq, max_eq_left (by omega)]

/-- The rest of a body is written behind its first `i` bytes, and the whole is handed out. -/
theorem exists_body {body : List UInt8} {block : Block} {i : ℕ} (hi : i ≤ body.length)
    (hblock : block.take i = (body.take i).map some) (hroom : body.length ≤ block.length) :
    ∃ block', storeBody (some block) i (body.drop i) = .ok (some block') ∧
      loadBody (some block') body.length = .ok body := by
  have hlen : i + ((body.drop i).map some).length = body.length := by
    rw [List.length_map, List.length_drop]
    omega
  refine ⟨body.map some ++ block.drop body.length, ?_, ?_⟩
  · rw [storeBody, store, if_pos (by omega), hlen, hblock, ← List.map_append,
      List.take_append_drop]
    rfl
  · unfold loadBody
    by_cases hzero : (body.length : ℤ) = 0
    · have hnil : body = [] := List.length_eq_zero_iff.mp (by omega)
      rw [if_pos hzero, hnil]
    · have hload : load (body.map some ++ block.drop body.length) body.length =
          .ok (body.map some) := by
        rw [load_of_le (by simp), List.take_append_of_le_length (by simp),
          List.take_of_length_le (by simp)]
      rw [if_neg hzero]
      simp only [hload, Except.bind]
      rw [if_neg (by simp), List.reduceOption, List.filterMap_map]
      simp

/-- The block of the body: it is allocated when the head has come in parts. -/
theorem exists_block {uc : Uncomplete} {done : ℕ} (hpart : Partial fd f done uc)
    (hroom : Room f uc) (hlt : done < f.bytes.length) :
    ∃ protobuf protobuf', allocBody uc.protobuf f.body.length = .ok protobuf ∧
      storeBody protobuf (max done headSize - headSize) (f.body.drop (done - headSize)) =
        .ok protobuf' ∧ loadBody protobuf' f.body.length = .ok f.body := by
  by_cases hshort : done < headSize
  · rw [max_eq_right hshort.le, Nat.sub_self, Nat.sub_eq_zero_of_le hshort.le, List.drop_zero,
      (hpart.short hshort).2]
    by_cases hzero : f.body.length = 0
    · have hnil := List.length_eq_zero_iff.mp hzero
      refine ⟨none, none, ?_, ?_, ?_⟩
      · rw [allocBody, if_neg (by simp [hzero])]
      · rw [hnil]
        rfl
      · rw [hnil]
        rfl
    · obtain ⟨block', hstore, hload⟩ := @exists_body f.body
        (List.replicate f.body.length none) 0 (Nat.zero_le _) rfl (by simp)
      rw [List.drop_zero] at hstore
      refine ⟨some (List.replicate f.body.length none), some block', ?_, hstore, hload⟩
      rw [allocBody, if_pos ⟨by omega, rfl⟩, malloc, if_neg (by omega), Int.toNat_natCast]
      rfl
  · obtain ⟨-, block, hblock, htake⟩ := hpart.long (by omega)
    rw [f.length_bytes] at hlt
    obtain ⟨block', hstore, hload⟩ := exists_body (by omega) htake (hroom block hblock)
    refine ⟨some block, some block', ?_, ?_, hload⟩
    · rw [allocBody, hblock, if_neg (by simp)]
    · rw [max_eq_left (by omega)]
      exact hstore

theorem filterResumed_stream {uc : Uncomplete} {done : ℕ} (hpart : Partial fd f done uc)
    (hroom : Room f uc) (hlt : done < f.bytes.length) (hshows : Shows q saved [])
    (hnone : saved fd = none) (h : chunk ++ later = f.bytes.drop done ++ stream frames)
    (hcut : done + chunk.length = f.bytes.length) :
    Delivers (filterResumed q uc fd chunk) saved fd (f :: frames) (done + chunk.length) := by
  have hbytes := f.length_bytes
  have hbody := f.body_le
  have hmax : maxBody = 0x100000 := rfl
  have hsize : headSize = 22 := rfl
  have hint : intMax = 0x7FFFFFFF := rfl
  obtain ⟨uc', rest, hcomplete, hrest, hsession, hlength, hread, hprotobuf⟩ :=
    completeHead_partial hpart h (by omega)
  obtain ⟨protobuf, protobuf', halloc, hstore, hload⟩ := exists_block hpart hroom hlt
  obtain ⟨hsum, -, -⟩ := completeHead_ok (by rw [hpart.read_eq]; omega) hcomplete
  rw [hpart.read_eq] at hsum
  -- the rest of the chunk is the rest of the body
  have hrestlen : rest.length = (f.body.drop (done - headSize)).length := by
    rw [List.length_drop]
    omega
  have hresteq : rest = f.body.drop (done - headSize) := by
    rw [((append_cut hrest).1 hrestlen.le).1, hrestlen, List.take_length]
  have hfilter : filterResumed q uc fd chunk = filterBody q uc' fd rest := by
    unfold filterResumed
    rw [hpart.read_eq, if_neg (by omega), if_neg (by omega), hcomplete, except_ok_bind]
  have hbodyeq : filterBody q uc' fd rest = .ok (q, .data fd (f.package fd).buffer) := by
    unfold filterBody
    simp only [hsession, headLength_setbufferSession, f.body_length, hprotobuf]
    rw [if_neg f.not_maxBody_lt, halloc, except_ok_bind, if_neg (by omega), if_pos (by omega),
      hread, hresteq, hstore, except_ok_bind, hload, except_ok_bind]
    rfl
  rw [hfilter, hbodyeq, hcut]
  exact .data hshows hnone

end SkynetEureka.NetPack
