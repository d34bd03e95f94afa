import SkynetEureka.SocketChannel.Invariants

/-!
# Callers are queued, served and woken

Each lemma is about one part of a step: what it does to the queues, and to the callers in them.
-/

namespace SkynetEureka.SocketChannel

open Lib Function

variable {D : Type} {s : State D} {k : ℕ} {q : List (Option (Caller D))}
  {cur A B P : List (Caller D)} {phase : Option (Phase D)} {x : Caller D}

/-! ## The callers -/

theorem callers_append (q q' : List (Option (Caller D))) :
    callers (q ++ q') = callers q ++ callers q' := List.filterMap_append

/-- The rest of the channel is no matter to the callers. -/
theorem Core.congr {s' : State D} (h : Core s k P) (hresult : s'.result = s.result)
    (hdata : s'.resultData = s.resultData) (hwaits : s'.waits = s.waits)
    (hserved : s'.served = s.served) : Core s' k P := by
  refine ⟨?_, h.nodup, ?_, ?_, ?_⟩
  · rw [hwaits]
    exact h.pending
  · rw [hwaits]
    exact h.waiting
  · rw [hwaits, hresult, hdata]
    exact h.idle
  · intro co w hw
    rw [hwaits] at hw
    refine ⟨(h.ok co w hw).own, ?_, ?_⟩
    · rw [hresult, hdata]
      exact (h.ok co w hw).asleep
    · rw [hresult, hdata, hserved]
      exact (h.ok co w hw).awake

/-- A caller is woken. -/
theorem Core.wakeup {result : Result} {data : Option (Value D)} (h : Core s k (A ++ x :: B))
    (hok : Outcome.Ok ⟨k, result, data⟩ ⟨k, x, 0, none⟩ (s.served k)) :
    Core (s.wakeup x.co k result data) k (A ++ B) := by
  have hx : s.waits x.co = some ⟨k, x, 0, none⟩ := h.pending x (by simp)
  have hperm : ((A ++ x :: B).map Caller.co).Perm (x.co :: (A ++ B).map Caller.co) :=
    (List.perm_middle.map Caller.co)
  obtain ⟨hnot, hnodup⟩ := List.nodup_cons.mp (hperm.nodup_iff.mp h.nodup)
  have hne : ∀ y ∈ A ++ B, y.co ≠ x.co := fun y hy heq => hnot (heq ▸ List.mem_map_of_mem hy)
  have hself : (s.wakeup x.co k result data).waits x.co =
      some ⟨k, x, 1, some ⟨k, result, data⟩⟩ := by
    unfold State.wakeup
    dsimp only
    rw [update_self, hx]
    rfl
  have hother : ∀ co ≠ x.co, (s.wakeup x.co k result data).waits co = s.waits co ∧
      (s.wakeup x.co k result data).result co = s.result co ∧
        (s.wakeup x.co k result data).resultData co = s.resultData co :=
    fun co hco => ⟨update_of_ne hco _ _, update_of_ne hco _ _, update_of_ne hco _ _⟩
  refine ⟨?_, hnodup, ?_, ?_, ?_⟩
  · intro y hy
    rw [(hother y.co (hne y hy)).1]
    refine h.pending y ?_
    rcases List.mem_append.mp hy with hA | hB
    · exact List.mem_append_left _ hA
    · exact List.mem_append_right _ (List.mem_cons_of_mem _ hB)
  · intro co w hw hnone
    by_cases hco : co = x.co
    · subst hco
      rw [hself] at hw
      cases hw
      cases hnone
    · rw [(hother co hco).1] at hw
      have hmem := h.waiting co w hw hnone
      rw [List.mem_append, List.mem_cons] at hmem
      rcases hmem with hA | heq | hB
      · exact List.mem_append_left _ hA
      · exact (hco ((h.ok co w hw).own.symm.trans (congrArg Caller.co heq))).elim
      · exact List.mem_append_right _ hB
  · intro co hnone
    by_cases hco : co = x.co
    · subst hco
      rw [hself] at hnone
      cases hnone
    · obtain ⟨hwaits, hresult, hdata⟩ := hother co hco
      rw [hresult, hdata]
      exact h.idle co (hwaits ▸ hnone)
  · intro co w hw
    by_cases hco : co = x.co
    · subst hco
      rw [hself] at hw
      cases hw
      refine ⟨rfl, fun hnone => (Option.some_ne_none _ hnone).elim, fun o ho => ?_⟩
      cases ho
      exact ⟨rfl, update_self _ _ _, update_self _ _ _, hok⟩
    · obtain ⟨hwaits, hresult, hdata⟩ := hother co hco
      have hold := h.ok co w (hwaits ▸ hw)
      refine ⟨hold.own, fun hnone => ?_, fun o ho => ?_⟩
      · rw [hresult, hdata]
        exact hold.asleep hnone
      · rw [hresult, hdata]
        exact hold.awake o ho

/-- What `wakeup_all` writes -/
theorem wakeupThread_eq (conn : ℕ) (errmsg : Option String) (thread : List (Option ℕ))
    (s : State D) : ∃ result resultData waits, State.wakeupThread conn errmsg thread s =
      { s with result := result, resultData := resultData, waits := waits } := by
  induction thread generalizing s with
  | nil => exact ⟨s.result, s.resultData, s.waits, rfl⟩
  | cons co thread ih =>
    cases co with
    | none => exact ih s
    | some co => exact ih _

theorem Core.wakeupThread {errmsg : Option String} (h : Core s k (A ++ callers q)) :
    Core (State.wakeupThread k errmsg (q.map (Option.map Caller.co)) s) k A := by
  induction q generalizing s with
  | nil =>
    rw [callers, List.filterMap_nil, List.append_nil] at h
    exact h
  | cons y q ih =>
    cases y with
    | none => exact ih h
    | some x => exact ih (Core.wakeup h ⟨rfl, .inl rfl⟩)

/-- The callers in the queues are woken, and the queues are empty. -/
theorem Core.wakeupAll {errmsg : Option String} (h : Core s k (A ++ callers q))
    (hthread : s.thread = q.map (Option.map Caller.co)) :
    (∃ result resultData waits, s.wakeupAll k errmsg =
      { s with
        request := [], thread := [], result := result, resultData := resultData
        waits := waits }) ∧
    Core (s.wakeupAll k errmsg) k A := by
  constructor
  · obtain ⟨result, resultData, waits, heq⟩ :=
      wakeupThread_eq k errmsg s.thread { s with request := [], thread := [] }
    exact ⟨result, resultData, waits, heq⟩
  · unfold State.wakeupAll
    rw [hthread]
    exact Core.wakeupThread (h.congr rfl rfl rfl rfl)

/-- A coroutine waits for its response. -/
theorem Core.join {co : ℕ} {response : Response D} {conn : ℕ} (h : Core s k P)
    (hidle : s.waits co = none) (hconn : conn = k) :
    Core (s.waitForResponse conn co response) k
      (P ++ [⟨co, (s.joined conn).length, response⟩]) := by
  subst hconn
  have hself : (s.waitForResponse conn co response).waits co =
      some ⟨conn, ⟨co, (s.joined conn).length, response⟩, 0, none⟩ := update_self _ _ _
  have hother : ∀ co' ≠ co, (s.waitForResponse conn co response).waits co' = s.waits co' :=
    fun co' hne => update_of_ne hne _ _
  have hne : ∀ y ∈ P, y.co ≠ co := by
    rintro y hy rfl
    rw [h.pending y hy] at hidle
    cases hidle
  refine ⟨?_, ?_, ?_, ?_, ?_⟩
  · intro y hy
    rcases List.mem_append.mp hy with hold | hnew
    · rw [hother y.co (hne y hold)]
      exact h.pending y hold
    · rw [List.mem_singleton.mp hnew]
      exact hself
  · rw [List.map_append]
    refine h.nodup.append (List.nodup_singleton _) (List.disjoint_singleton.mpr fun hmem => ?_)
    obtain ⟨y, hy, heq⟩ := List.mem_map.mp hmem
    exact hne y hy heq
  · intro co' w hw hnone
    by_cases hco : co' = co
    · subst hco
      rw [hself] at hw
      cases hw
      exact List.mem_append_right _ (List.mem_singleton_self _)
    · rw [hother co' hco] at hw
      exact List.mem_append_left _ (h.waiting co' w hw hnone)
  · intro co' hnone
    by_cases hco : co' = co
    · subst hco
      rw [hself] at hnone
      cases hnone
    · rw [hother co' hco] at hnone
      exact h.idle co' hnone
  · intro co' w hw
    by_cases hco : co' = co
    · subst hco
      rw [hself] at hw
      cases hw
      refine ⟨rfl, fun _ => ⟨rfl, h.idle co' hidle⟩, fun o ho => ?_⟩
      cases ho
    · rw [hother co' hco] at hw
      exact ⟨(h.ok co' w hw).own, (h.ok co' w hw).asleep, (h.ok co' w hw).awake⟩

/-- A caller that has been woken takes its result. -/
theorem Core.leave {co : ℕ} {w : Wait D} (h : Core s k P) (hw : s.waits co = some w)
    (hwoken : w.woken ≠ 0) :
    Core { s with
      result := update s.result co none
      resultData := update s.resultData co none
      waits := update s.waits co none } k P := by
  have hne : ∀ y ∈ P, y.co ≠ co := by
    rintro y hy rfl
    rw [h.pending y hy] at hw
    cases hw
    exact hwoken rfl
  refine ⟨?_, h.nodup, ?_, ?_, ?_⟩
  · intro y hy
    dsimp only
    rw [update_of_ne (hne y hy)]
    exact h.pending y hy
  · intro co' w' hw' hnone
    dsimp only at hw'
    by_cases hco : co' = co
    · subst hco
      rw [update_self] at hw'
      cases hw'
    · rw [update_of_ne hco] at hw'
      exact h.waiting co' w' hw' hnone
  · intro co' hnone
    dsimp only at hnone ⊢
    by_cases hco : co' = co
    · subst hco
      rw [update_self, update_self]
      exact ⟨rfl, rfl⟩
    · rw [update_of_ne hco] at hnone
      rw [update_of_ne hco, update_of_ne hco]
      exact h.idle co' hnone
  · intro co' w' hw'
    dsimp only at hw'
    by_cases hco : co' = co
    · subst hco
      rw [update_self] at hw'
      cases hw'
    · rw [update_of_ne hco] at hw'
      have hold := h.ok co' w' hw'
      refine ⟨hold.own, fun hnone => ?_, fun o ho => ?_⟩
      · dsimp only
        rw [update_of_ne hco, update_of_ne hco]
        exact hold.asleep hnone
      · dsimp only
        rw [update_of_ne hco, update_of_ne hco]
        exact hold.awake o ho

/-- More callers have been served. -/
theorem Core.serve {entry : Served D} (h : Core s k P) :
    Core { s with served := update s.served k (s.served k ++ [entry]) } k P := by
  refine ⟨h.pending, h.nodup, h.waiting, h.idle, fun co w hw => ?_⟩
  refine ⟨(h.ok co w hw).own, (h.ok co w hw).asleep, ?_⟩
  intro o ho
  obtain ⟨hwoken, hresult, hdata, hconn, hserved⟩ := (h.ok co w hw).awake o ho
  refine ⟨hwoken, hresult, hdata, hconn, hserved.imp_right ?_⟩
  rintro ⟨entry', hmem, hrest⟩
  refine ⟨entry', ?_, hrest⟩
  dsimp only
  by_cases hk : w.conn = k
  · rw [hk, update_self]
    exact List.mem_append_left _ (hk ▸ hmem)
  · rw [update_of_ne hk]
    exact hmem

end SkynetEureka.SocketChannel
