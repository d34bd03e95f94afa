import SkynetEureka.Lib.Run
import SkynetEureka.Gate.NetpackTheorems

/-!
# Delivery

The packages of a socket are its frames, whatever comes from other sockets and whenever the queue
is popped. They come in order unless a package is handed out at once while an older one of the
same socket waits in the queue.
-/

namespace SkynetEureka.Gate

open Lib Function

/-- The packages of a socket. -/
def packagesOf (fd : ℕ) (packages : List Netpack) : List Netpack :=
  packages.filter fun np => np.id = fd

/-- No package of the socket waits while one is handed out. -/
def InTurn (r : Receiver) : Event → Prop
  | .chunk fd buffer =>
    (filterData r.queue fd buffer).2.packages ≠ [] → packagesOf fd r.waiting = []
  | .pop => True

theorem packagesOf_append (fd : ℕ) (l l' : List Netpack) :
    packagesOf fd (l ++ l') = packagesOf fd l ++ packagesOf fd l' := List.filter_append ..

theorem packagesOf_package (fd : ℕ) (frames : List Frame) :
    packagesOf fd (frames.map (Frame.package fd)) = frames.map (Frame.package fd) := by
  apply List.filter_eq_self.mpr
  intro np hnp
  obtain ⟨f, -, rfl⟩ := List.mem_map.mp hnp
  exact decide_eq_true rfl

theorem packagesOf_package_ne {fd fd' : ℕ} (h : fd' ≠ fd) (frames : List Frame) :
    packagesOf fd' (frames.map (Frame.package fd)) = [] := by
  apply List.filter_eq_nil_iff.mpr
  intro np hnp
  obtain ⟨f, -, rfl⟩ := List.mem_map.mp hnp
  show ¬decide (fd = fd') = true
  simpa using h.symm

/-- The new frames of one socket among the packages of any. -/
theorem map_package_update (frames : ℕ → List Frame) (fd fd' : ℕ) (fs : List Frame) :
    (update frames fd (frames fd ++ fs) fd').map (Frame.package fd') =
      (frames fd').map (Frame.package fd') ++ packagesOf fd' (fs.map (Frame.package fd)) := by
  by_cases hfd : fd' = fd
  · subst hfd
    rw [update_self, packagesOf_package, List.map_append]
  · rw [update_of_ne hfd, packagesOf_package_ne hfd, List.append_nil]

/-- The frames that become complete join the packages that wait, or come before them. -/
theorem HandsOut.perm {fd : ℕ} {fs : List Frame} {waiting waiting' : List Netpack}
    {result : Filtered} (h : HandsOut fd fs waiting waiting' result) (delivered : List Netpack) :
    (delivered ++ result.packages ++ waiting').Perm
      (delivered ++ waiting ++ fs.map (Frame.package fd)) := by
  cases result with
  | nothing =>
    obtain ⟨rfl, rfl⟩ := h
    simp [Filtered.packages]
  | data fd' buffer size =>
    obtain ⟨f, rfl, hf, rfl⟩ := h
    rw [Filtered.packages, hf, List.append_assoc, List.append_assoc]
    exact List.perm_append_comm.append_left delivered
  | more =>
    obtain rfl := h
    simp [Filtered.packages]

/-- When no package of the socket waits, they follow in order. -/
theorem HandsOut.packagesOf_eq {fd : ℕ} {fs : List Frame} {waiting waiting' : List Netpack}
    {result : Filtered} (h : HandsOut fd fs waiting waiting' result)
    (hturn : result.packages ≠ [] → packagesOf fd waiting = []) (delivered : List Netpack)
    (fd' : ℕ) :
    packagesOf fd' (delivered ++ result.packages ++ waiting') =
      packagesOf fd' (delivered ++ waiting ++ fs.map (Frame.package fd)) := by
  cases result with
  | nothing =>
    obtain ⟨rfl, rfl⟩ := h
    simp [Filtered.packages]
  | data fd'' buffer size =>
    obtain ⟨f, rfl, hf, rfl⟩ := h
    rw [Filtered.packages, hf]
    simp only [packagesOf_append]
    by_cases hfd : fd' = fd
    · subst hfd
      rw [hturn (by simp [Filtered.packages]), List.append_nil, List.append_nil]
      rfl
    · have hone : packagesOf fd' [f.package fd] = [] := packagesOf_package_ne hfd [f]
      rw [hone, List.map_singleton, hone, List.append_nil, List.append_nil]
  | more =>
    obtain rfl := h
    simp [Filtered.packages]

/-- What each socket has sent: frames, which are delivered or wait in the queue, and the beginning
of the next one, which is saved. -/
structure Receiver.Holds (r : Receiver) (saved : ℕ → Option Uncomplete) (waiting : List Netpack)
    (frames : ℕ → List Frame) (rest : ℕ → List UInt8) : Prop where
  shows : Shows r.queue saved waiting
  pending : ∀ fd, Pending fd (rest fd) (saved fd)
  received : ∀ fd, r.received fd = stream (frames fd) ++ rest fd
  complete : ∀ fd,
    (packagesOf fd (r.delivered ++ waiting)).Perm ((frames fd).map (Frame.package fd))

/-- The packages of each socket are in order. -/
def Ordered (r : Receiver) (waiting : List Netpack) (frames : ℕ → List Frame) : Prop :=
  ∀ fd, packagesOf fd (r.delivered ++ waiting) = (frames fd).map (Frame.package fd)

namespace Receiver

variable {r r' : Receiver} {saved : ℕ → Option Uncomplete} {waiting : List Netpack}
  {frames : ℕ → List Frame} {rest : ℕ → List UInt8}

theorem init_holds : init.Holds (fun _ => none) [] (fun _ => []) fun _ => [] where
  shows := shows_nil
  pending := fun _ => rfl
  received := fun _ => rfl
  complete := fun _ => .nil

theorem waiting_eq (h : Shows r.queue saved waiting) : r.waiting = waiting :=
  (h.ring.drain h.ring.length_eq.ge).1

/-- A chunk, with the frames that it completes. -/
theorem chunk_holds {fd : ℕ} {buffer : List UInt8} (h : r.Holds saved waiting frames rest)
    (hstep : r.step (.chunk fd buffer) = some r') :
    ∃ fs rest' uc waiting', r'.Holds (update saved fd uc) waiting'
        (update frames fd (frames fd ++ fs)) (update rest fd rest') ∧
      (InTurn r (.chunk fd buffer) → Ordered r waiting frames →
        Ordered r' waiting' (update frames fd (frames fd ++ fs))) := by
  simp only [step] at hstep
  split_ifs at hstep with hne
  obtain rfl := Option.some.inj hstep
  obtain ⟨fs, rest', uc, waiting', hbytes, hpending, hshows, hout⟩ :=
    filterData_spec h.shows (h.pending fd) hne
  refine ⟨fs, rest', uc, waiting', ⟨hshows, ?_, ?_, ?_⟩, ?_⟩
  · intro fd'
    by_cases hfd : fd' = fd
    · subst hfd
      rwa [update_self, update_self]
    · rw [update_of_ne hfd, update_of_ne hfd]
      exact h.pending fd'
  · intro fd'
    by_cases hfd : fd' = fd
    · subst hfd
      simp only [update_self]
      rw [h.received, List.append_assoc, hbytes, stream_append, List.append_assoc]
    · simp only [update_of_ne hfd]
      exact h.received fd'
  · intro fd'
    have hperm := (hout.perm r.delivered).filter fun np => np.id = fd'
    rw [map_package_update]
    refine hperm.trans ?_
    rw [List.filter_append]
    exact (h.complete fd').append_right _
  · intro hturn hordered fd'
    have hturn : (filterData r.queue fd buffer).2.packages ≠ [] → packagesOf fd waiting = [] := by
      rw [← waiting_eq h.shows]
      exact hturn
    rw [map_package_update, hout.packagesOf_eq hturn, packagesOf_append, hordered fd']

/-- The package that waits first is popped. -/
theorem pop_holds (h : r.Holds saved waiting frames rest) (hstep : r.step .pop = some r') :
    ∃ waiting', r'.Holds saved waiting' frames rest ∧
      (Ordered r waiting frames → Ordered r' waiting' frames) := by
  simp only [step] at hstep
  cases waiting with
  | nil =>
    rw [h.shows.lpop_nil] at hstep
    obtain rfl := Option.some.inj hstep
    exact ⟨[], h, id⟩
  | cons np waiting =>
    obtain ⟨q, hpop, hshows⟩ := h.shows.lpop_cons
    rw [hpop] at hstep
    obtain rfl := Option.some.inj hstep
    have hsame : r.delivered ++ [np] ++ waiting = r.delivered ++ np :: waiting := by
      rw [List.append_assoc, List.singleton_append]
    refine ⟨waiting, ⟨hshows, h.pending, h.received, ?_⟩, ?_⟩
    · intro fd
      show (packagesOf fd (r.delivered ++ [np] ++ waiting)).Perm _
      rw [hsame]
      exact h.complete fd
    · intro hordered fd
      show packagesOf fd (r.delivered ++ [np] ++ waiting) = _
      rw [hsame]
      exact hordered fd

/-- The receiver holds what the sockets have sent, in order if `ordered` says so. -/
def Inv (ordered : Prop) (r : Receiver) : Prop :=
  ∃ saved waiting frames rest, r.Holds saved waiting frames rest ∧
    (ordered → Ordered r waiting frames)

theorem step_inv {ordered : Prop} {e : Event} (h : r.Inv ordered) (hturn : ordered → InTurn r e)
    (hstep : r.step e = some r') : r'.Inv ordered := by
  obtain ⟨saved, waiting, frames, rest, h, hordered⟩ := h
  cases e with
  | chunk fd buffer =>
    obtain ⟨fs, rest', uc, waiting', hholds, horder⟩ := chunk_holds h hstep
    exact ⟨_, _, _, _, hholds, fun ho => horder (hturn ho) (hordered ho)⟩
  | pop =>
    obtain ⟨waiting', hholds, horder⟩ := pop_holds h hstep
    exact ⟨_, _, _, _, hholds, fun ho => horder (hordered ho)⟩

theorem init_inv (ordered : Prop) : init.Inv ordered :=
  ⟨_, _, _, _, init_holds, fun _ _ => rfl⟩

/-- **Delivery.** In every run, the packages of each socket that are delivered or wait in the queue
are its frames, each of them once and none of another socket; they are in order if no package is
handed out at once while another one of its socket waits; and a package that waits is popped. -/
theorem frames_delivered {events : List Event} (hrun : run step init events = some r) :
    (∀ fd frames rest, r.received fd = stream frames ++ rest → Incomplete rest →
      (packagesOf fd (r.delivered ++ r.waiting)).Perm (frames.map (Frame.package fd))) ∧
    (Guarded step InTurn init events →
      ∀ fd frames rest, r.received fd = stream frames ++ rest → Incomplete rest →
        packagesOf fd (r.delivered ++ r.waiting) = frames.map (Frame.package fd)) ∧
    (∀ np waiting, r.waiting = np :: waiting →
      ∃ r', r.step .pop = some r' ∧ r'.delivered = r.delivered ++ [np] ∧ r'.waiting = waiting) := by
  refine ⟨?_, ?_, ?_⟩
  · have h : r.Inv False := run_invariant_of_step
      (fun _ _ _ h hstep => step_inv h False.elim hstep) (init_inv False) hrun
    intro fd frames rest hreceived hrest
    obtain ⟨saved, waiting, frames', rest', h, -⟩ := h
    obtain ⟨rfl, -⟩ := stream_inj hrest (h.pending fd).incomplete
      (hreceived.symm.trans (h.received fd))
    rw [waiting_eq h.shows]
    exact h.complete fd
  · intro hguard fd frames rest hreceived hrest
    have h : r.Inv True := run_invariant
      (fun _ _ _ h hturn hstep => step_inv h (fun _ => hturn) hstep) (init_inv True) hguard hrun
    obtain ⟨saved, waiting, frames', rest', h, hordered⟩ := h
    obtain ⟨rfl, -⟩ := stream_inj hrest (h.pending fd).incomplete
      (hreceived.symm.trans (h.received fd))
    rw [waiting_eq h.shows]
    exact hordered trivial fd
  · intro np waiting' hwaiting
    have h : r.Inv False := run_invariant_of_step
      (fun _ _ _ h hstep => step_inv h False.elim hstep) (init_inv False) hrun
    obtain ⟨saved, waiting, frames', rest', h, -⟩ := h
    obtain rfl : waiting = np :: waiting' := (waiting_eq h.shows).symm.trans hwaiting
    obtain ⟨q, hpop, hshows⟩ := h.shows.lpop_cons
    refine ⟨{ r with queue := q, delivered := r.delivered ++ [np] }, ?_, rfl, waiting_eq hshows⟩
    simp only [step, hpop]

/-- A frame with one byte. -/
def sampleFrame (b : UInt8) : Frame := ⟨[b], (by decide : 1 < 0x10000)⟩

/-- Sockets 6 and 4101 have one hash value; their frames are cut everywhere. -/
theorem frames_delivered_collision :
    hashFd 6 = hashFd 4101 ∧
    ∃ r, run step init [.chunk 6 [0], .chunk 4101 [0, 1], .chunk 6 [1], .chunk 4101 [9, 0, 1, 8],
        .chunk 6 [7], .pop, .pop] = some r ∧
      (packagesOf 6 (r.delivered ++ r.waiting)).Perm ([sampleFrame 7].map (Frame.package 6)) ∧
      (packagesOf 4101 (r.delivered ++ r.waiting)).Perm
        ([sampleFrame 9, sampleFrame 8].map (Frame.package 4101)) := by
  have hrun : ∃ r, run step init [.chunk 6 [0], .chunk 4101 [0, 1], .chunk 6 [1],
      .chunk 4101 [9, 0, 1, 8], .chunk 6 [7], .pop, .pop] = some r ∧
      r.received 6 = stream [sampleFrame 7] ∧
      r.received 4101 = stream [sampleFrame 9, sampleFrame 8] := by
    simp [run_cons, step, init, filterData, findUncomplete, filterFresh, filterResumed, fillSize,
      fillBody, readSize, pushMore, pushData, getQueue, lpop, RingBuffer.push, RingBuffer.pop,
      RingBuffer.empty, queueSize, Chains.unlink, Chains.take, Chains.link, saveUncomplete,
      oneByte, Uncomplete.fd, hashFd, hashSize, sampleFrame, stream, Frame.bytes]
  obtain ⟨r, hrun, h6, h4101⟩ := hrun
  refine ⟨rfl, r, hrun, ?_, ?_⟩
  · exact (frames_delivered hrun).1 6 [sampleFrame 7] [] (by rw [h6, List.append_nil]) trivial
  · exact (frames_delivered hrun).1 4101 [sampleFrame 9, sampleFrame 8] []
      (by rw [h4101, List.append_nil]) trivial

/-- The third frame of a socket overtakes the first two, which wait in the queue. -/
theorem data_overtakes_queue :
    ∃ r, run step init [.chunk 5 [0, 1, 1, 0, 1, 2], .chunk 5 [0, 1, 3], .pop, .pop] = some r ∧
      r.received 5 = stream [sampleFrame 1, sampleFrame 2, sampleFrame 3] ∧
      packagesOf 5 r.delivered =
        [sampleFrame 3, sampleFrame 1, sampleFrame 2].map (Frame.package 5) ∧
      packagesOf 5 r.delivered ≠
        [sampleFrame 1, sampleFrame 2, sampleFrame 3].map (Frame.package 5) := by
  simp [run_cons, step, init, filterData, findUncomplete, filterFresh, readSize, pushMore, pushData,
    getQueue, lpop, RingBuffer.push, RingBuffer.pop, RingBuffer.empty, queueSize, Chains.unlink,
    Chains.take, Filtered.packages, packagesOf, sampleFrame, Frame.package, stream, Frame.bytes]

end Receiver

end SkynetEureka.Gate
