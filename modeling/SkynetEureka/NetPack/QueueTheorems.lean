import SkynetEureka.NetPack.Netpackext

/-!
# The queue of `lua-netpackext.c`

A queue is a map from socket ids to records (the hash table of chains) and a list of packages
that wait for `netpackext.pop` (the ring). `Shows` connects the two views; the operations on the
queue are the operations on the map and the list.
-/

namespace SkynetEureka.NetPack

open Lib Function

/-- The record of a socket id in a chain. -/
def recordIn (chain : List Uncomplete) (fd : ℕ) : Option Uncomplete :=
  chain.find? fun uc => uc.fd = fd

/-- The queue holds these records and these packages. -/
structure Shows (q : Option Queue) (saved : ℕ → Option Uncomplete)
    (waiting : List Netpackext) : Prop where
  record : ∀ fd, recordIn ((getQueue q).hash (hashFd fd)) fd = saved fd
  head : ∀ fd, ∀ uc ∈ saved fd, uc.head.length = headSize
  nodup : ∀ h, (((getQueue q).hash h).map Uncomplete.fd).Nodup
  ring : (getQueue q).ring.Holds waiting

theorem shows_nil : Shows none (fun _ => none) [] where
  record := fun _ => rfl
  head := by simp
  nodup := fun _ => List.nodup_nil
  ring := RingBuffer.holds_empty (by decide)

/-! ## Chains -/

theorem recordIn_cons (uc : Uncomplete) (chain : List Uncomplete) (fd : ℕ) :
    recordIn (uc :: chain) fd = if uc.fd = fd then some uc else recordIn chain fd := by
  unfold recordIn
  rw [List.find?_cons]
  by_cases h : uc.fd = fd
  · simp [h]
  · simp [h]

theorem recordIn_eq_none {chain : List Uncomplete} {fd : ℕ} :
    recordIn chain fd = none ↔ fd ∉ chain.map Uncomplete.fd := by
  simp [recordIn]

/-- `find_uncomplete` takes the record of the socket out of its chain, and no other. -/
theorem unlink_eq {fd : ℕ} {chain : List Uncomplete} (h : (chain.map Uncomplete.fd).Nodup) :
    (unlink fd chain = none ∧ recordIn chain fd = none) ∨
      ∃ uc rest, unlink fd chain = some (uc, rest) ∧ recordIn chain fd = some uc ∧
        (rest.map Uncomplete.fd).Sublist (chain.map Uncomplete.fd) ∧
          ∀ d, recordIn rest d = if d = fd then none else recordIn chain d := by
  induction chain with
  | nil => exact Or.inl ⟨rfl, rfl⟩
  | cons uc chain ih =>
    rw [List.map_cons, List.nodup_cons] at h
    by_cases hfd : uc.fd = fd
    · subst hfd
      refine Or.inr ⟨uc, chain, ?_, ?_, ?_, fun d => ?_⟩
      · rw [unlink, if_pos rfl]
      · rw [recordIn_cons, if_pos rfl]
      · exact List.sublist_cons_self ..
      · by_cases hd : d = uc.fd
        · rw [if_pos hd, hd, recordIn_eq_none]
          exact h.1
        · rw [if_neg hd, recordIn_cons, if_neg (Ne.symm hd)]
    · rw [unlink, if_neg hfd, recordIn_cons, if_neg hfd]
      rcases ih h.2 with ⟨hnone, hrec⟩ | ⟨found, rest, hsome, hrec, hsub, hrest⟩
      · exact Or.inl ⟨by rw [hnone, Option.map_none], hrec⟩
      · refine Or.inr ⟨found, uc :: rest, by rw [hsome, Option.map_some], hrec, ?_, fun d => ?_⟩
        · exact hsub.cons_cons _
        · rw [recordIn_cons, recordIn_cons, hrest]
          by_cases hd : uc.fd = d
          · rw [if_pos hd, if_pos hd, if_neg (by rw [← hd]; exact hfd)]
          · rw [if_neg hd, if_neg hd]

namespace Shows

variable {q : Option Queue} {saved : ℕ → Option Uncomplete} {waiting : List Netpackext}

/-! ## The operations -/

theorem head_update (h : Shows q saved waiting) (fd : ℕ) {o : Option Uncomplete}
    (ho : ∀ uc ∈ o, uc.head.length = headSize) :
    ∀ d, ∀ uc ∈ update saved fd o d, uc.head.length = headSize := by
  intro d
  by_cases hd : d = fd
  · rw [hd, update_self]
    exact ho
  · rw [update_of_ne hd]
    exact h.head d

theorem findUncomplete (h : Shows q saved waiting) (fd : ℕ) :
    ∃ q', NetPack.findUncomplete q fd = (saved fd, q') ∧
      Shows q' (update saved fd none) waiting := by
  cases q with
  | none =>
    have hnone : saved fd = none := (h.record fd).symm
    refine ⟨none, by rw [hnone]; rfl, ?_⟩
    rw [← hnone, update_eq_self]
    exact h
  | some q =>
    have hrecord := h.record fd
    rw [NetPack.findUncomplete]
    rcases @unlink_eq fd _ (h.nodup (hashFd fd)) with
      ⟨hunlink, hnone⟩ | ⟨uc, rest, hunlink, hsome, hsub, hrest⟩
    · rw [hnone] at hrecord
      refine ⟨some q, ?_, ?_⟩
      · simp only [getQueue, Option.getD_some] at hunlink
        rw [hunlink, ← hrecord]
      · rw [hrecord, update_eq_self]
        exact h
    · rw [hsome] at hrecord
      simp only [getQueue, Option.getD_some] at hunlink
      refine ⟨some { q with hash := update q.hash (hashFd fd) rest }, ?_, ?_,
        h.head_update fd (by simp), ?_, h.ring⟩
      · rw [hunlink, ← hrecord]
      · intro d
        show recordIn (update q.hash (hashFd fd) rest (hashFd d)) d = _
        have hd := h.record d
        by_cases hh : hashFd d = hashFd fd
        · rw [hh, update_self, hrest, update_apply]
          split
          · rfl
          · rw [← hd, hh]
        · have hne : d ≠ fd := fun heq => hh (by rw [heq])
          rw [update_of_ne hh, update_of_ne hne]
          exact hd
      · intro i
        show ((update q.hash (hashFd fd) rest i).map Uncomplete.fd).Nodup
        by_cases hi : i = hashFd fd
        · rw [hi, update_self]
          exact hsub.nodup (h.nodup _)
        · rw [update_of_ne hi]
          exact h.nodup i

theorem saveUncomplete (h : Shows q saved waiting) {uc : Uncomplete} (hnone : saved uc.fd = none)
    (hhead : uc.head.length = headSize) :
    Shows (some (NetPack.saveUncomplete q uc)) (update saved uc.fd (some uc)) waiting := by
  refine ⟨fun d => ?_, h.head_update uc.fd (by simpa using hhead), fun i => ?_, h.ring⟩
  · show recordIn (update (getQueue q).hash (hashFd uc.fd)
      (uc :: (getQueue q).hash (hashFd uc.fd)) (hashFd d)) d = _
    by_cases hh : hashFd d = hashFd uc.fd
    · rw [hh, update_self, recordIn_cons]
      by_cases hd : uc.fd = d
      · rw [if_pos hd, hd, update_self]
      · rw [if_neg hd, update_of_ne (Ne.symm hd), ← hh, h.record]
    · have hne : d ≠ uc.fd := fun heq => hh (by rw [heq])
      rw [update_of_ne hh, update_of_ne hne, h.record]
  · show ((update (getQueue q).hash (hashFd uc.fd)
      (uc :: (getQueue q).hash (hashFd uc.fd)) i).map Uncomplete.fd).Nodup
    by_cases hi : i = hashFd uc.fd
    · rw [hi, update_self, List.map_cons, List.nodup_cons, ← recordIn_eq_none, h.record]
      exact ⟨hnone, h.nodup _⟩
    · rw [update_of_ne hi]
      exact h.nodup i

theorem pushData (h : Shows q saved waiting) (fd : ℕ) (buffer : List UInt8) :
    Shows (some (NetPack.pushData q fd buffer)) saved (waiting ++ [⟨fd, buffer⟩]) := by
  have hgrow : (getQueue q).ring.cap < (getQueue q).ring.cap + queueSize :=
    Nat.lt_add_of_pos_right (by decide)
  exact ⟨h.record, h.head, h.nodup, h.ring.push hgrow ⟨fd, buffer⟩⟩

theorem dispatchQueue (h : Shows q saved waiting) :
    ∃ q', NetPack.dispatchQueue q = (waiting, q') ∧ Shows q' saved [] := by
  cases q with
  | none =>
    have hnil : waiting = [] :=
      ((RingBuffer.Holds.head_eq_tail_iff h.ring).mp rfl)
    subst hnil
    exact ⟨none, rfl, h⟩
  | some q =>
    obtain ⟨hl, hring⟩ := h.ring.drain (n := q.ring.length) h.ring.length_eq.ge
    refine ⟨some { q with ring := (q.ring.drain q.ring.length).2 }, ?_, h.record, h.head, h.nodup,
      hring⟩
    exact Prod.ext hl rfl

end Shows

end SkynetEureka.NetPack
