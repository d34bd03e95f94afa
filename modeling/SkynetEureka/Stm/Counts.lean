import SkynetEureka.Lib.Lists
import SkynetEureka.Stm.Object

/-!
# Reference counts

`Res` are the things that a thread can have: a reference of the object, a side of its lock, a
reference of a copy, or the duty to free one of them. The counters in memory are the totals over all
threads (`ObjOk`, `CopiesOk`).
-/

namespace SkynetEureka.Stm

open Lib

variable {Msg : Type} {m : Mem Msg} {copies : List (Copy Msg)} {copy : Copy Msg}
  {ref rd wr fr c : ℕ} {hold drop hold' drop' : ℕ → ℕ}

/-! ## The object -/

/-- The object, when the threads have `ref` references of it, `rd` and `wr` sides of its lock, and
`fr` of them are about to free it. Who frees it still has its side of the lock, and is alone. -/
structure ObjOk (m : Mem Msg) (ref rd wr fr : ℕ) : Prop where
  reference : m.reference = ref
  alive : 0 < ref → m.freed = 0 ∧ fr = 0
  dead : ref = 0 → fr + m.freed = 1 ∧ rd + wr = fr
  read : m.freed = 0 → m.read = rd
  write : m.freed = 0 → (m.write = true ↔ wr = 1)
  one : wr ≤ 1
  excl : wr = 1 → rd = 0

/-- Whoever has something of the object can touch it. -/
theorem ObjOk.not_freed (h : ObjOk m ref rd wr fr) (hpos : 0 < ref + rd + wr) : m.freed = 0 := by
  by_cases href : ref = 0
  · obtain ⟨hfreed, hlocked⟩ := h.dead href
    omega
  · exact (h.alive (by omega)).1

theorem ObjOk.rlock (h : ObjOk m ref rd wr fr) (hwrite : m.write = false) (href : 0 < ref) :
    ObjOk m.rlock ref (rd + 1) wr fr := by
  obtain ⟨hfreed, hfr⟩ := h.alive href
  have hwr : wr ≠ 1 := by
    intro hwr
    rw [(h.write hfreed).mpr hwr] at hwrite
    cases hwrite
  refine ⟨h.reference, h.alive, ?_, ?_, h.write, h.one, ?_⟩
  · intro hzero
    omega
  · intro _
    show m.read + 1 = rd + 1
    rw [h.read hfreed]
  · intro hwr'
    exact (hwr hwr').elim

theorem ObjOk.runlock (h : ObjOk m ref (rd + 1) wr fr) (href : 0 < ref) :
    ObjOk m.runlock ref rd wr fr := by
  obtain ⟨hfreed, hfr⟩ := h.alive href
  refine ⟨h.reference, h.alive, ?_, ?_, h.write, h.one, ?_⟩
  · intro hzero
    omega
  · intro _
    show m.read - 1 = rd
    rw [h.read hfreed]
    omega
  · intro hwr
    have hrd := h.excl hwr
    omega

theorem ObjOk.wlock (h : ObjOk m ref rd wr fr) (hfree : m.write = false ∧ m.read = 0)
    (href : 0 < ref) : ObjOk { m with write := true } ref rd (wr + 1) fr := by
  obtain ⟨hfreed, hfr⟩ := h.alive href
  have hrd : rd = 0 := by
    rw [← h.read hfreed]
    exact hfree.2
  have hwr : wr = 0 := by
    have hone := h.one
    by_contra hwr
    have hwrite := (h.write hfreed).mpr (by omega)
    rw [hfree.1] at hwrite
    cases hwrite
  refine ⟨h.reference, h.alive, ?_, h.read, ?_, ?_, fun _ => hrd⟩
  · intro hzero
    omega
  · intro _
    constructor
    · intro _
      omega
    · intro _
      rfl
  · omega

theorem ObjOk.wunlock (h : ObjOk m ref rd (wr + 1) fr) (href : 0 < ref) :
    ObjOk { m with write := false } ref rd wr fr := by
  have hone := h.one
  refine ⟨h.reference, h.alive, ?_, h.read, ?_, ?_, ?_⟩
  · intro hzero
    omega
  · intro _
    constructor
    · intro hfalse
      cases hfalse
    · intro hwr
      omega
  · omega
  · intro hwr
    omega

theorem ObjOk.grab (h : ObjOk m ref rd wr fr) (href : 0 < ref) :
    ObjOk { m with reference := m.reference + 1 } (ref + 1) rd wr fr := by
  refine ⟨?_, fun _ => h.alive href, ?_, h.read, h.write, h.one, h.excl⟩
  · show m.reference + 1 = ((ref + 1 : ℕ) : ℤ)
    rw [h.reference]
    exact (Nat.cast_succ ref).symm
  · intro hzero
    omega

/-- A reference goes that is not the last one. -/
theorem ObjOk.release (h : ObjOk m (ref + 1) rd wr fr) (href : 0 < ref) :
    ObjOk { m with reference := m.reference - 1 } ref rd wr fr := by
  refine ⟨?_, fun _ => h.alive (by omega), ?_, h.read, h.write, h.one, h.excl⟩
  · show m.reference - 1 = ref
    rw [h.reference, Nat.cast_succ]
    omega
  · intro hzero
    omega

/-- The last reference goes, and no other thread is in the lock. -/
theorem ObjOk.last (h : ObjOk m 1 rd wr fr) (halone : rd + wr = 1) :
    ObjOk { m with reference := m.reference - 1 } 0 rd wr (fr + 1) := by
  obtain ⟨hfreed, hfr⟩ := h.alive (by omega)
  refine ⟨?_, ?_, ?_, h.read, h.write, h.one, h.excl⟩
  · show m.reference - 1 = ((0 : ℕ) : ℤ)
    rw [h.reference]
    rfl
  · intro hpos
    omega
  · intro _
    have hfreed' : ({ m with reference := m.reference - 1 } : Mem Msg).freed = 0 := hfreed
    omega

/-- The object is freed, by a thread that leaves its lock locked. -/
theorem ObjOk.free {rd' wr' : ℕ} (h : ObjOk m ref rd wr (fr + 1))
    (hleft : rd' + wr' + 1 = rd + wr) (hwr : wr' ≤ wr) :
    ObjOk { m with freed := m.freed + 1 } ref rd' wr' fr := by
  have href : ref = 0 := by
    by_contra hne
    have hfr := (h.alive (by omega)).2
    omega
  obtain ⟨hfreed, hlocked⟩ := h.dead href
  have hone := h.one
  refine ⟨h.reference, ?_, ?_, ?_, ?_, ?_, ?_⟩
  · intro hpos
    omega
  · intro _
    show fr + (m.freed + 1) = 1 ∧ rd' + wr' = fr
    omega
  · intro hzero
    cases hzero
  · intro hzero
    cases hzero
  · omega
  · intro hwr'
    omega

/-! ## The copies -/

/-- A copy, when there are `hold` references of it and `drop` threads are about to free it -/
structure Copy.Ok (copy : Copy Msg) (hold drop : ℕ) : Prop where
  reference : copy.reference = hold
  alive : 0 < hold → copy.freed = 0 ∧ drop = 0
  dead : hold = 0 → copy.freed + drop = 1

structure CopiesOk (copies : List (Copy Msg)) (hold drop : ℕ → ℕ) : Prop where
  ok : ∀ (c : ℕ) (copy : Copy Msg), copies[c]? = some copy → copy.Ok (hold c) (drop c)
  bound : ∀ c : ℕ, c ≥ copies.length → hold c = 0 ∧ drop c = 0

/-- One copy changes, and what the threads have of it. -/
theorem CopiesOk.set {copy' : Copy Msg} (h : CopiesOk copies hold drop)
    (hget : copies[c]? = some copy) (hok : copy'.Ok (hold' c) (drop' c))
    (hrest : ∀ c' ≠ c, hold' c' = hold c' ∧ drop' c' = drop c') :
    CopiesOk (copies.set c copy') hold' drop' := by
  obtain ⟨hlt, -⟩ := List.getElem?_eq_some_iff.mp hget
  refine ⟨?_, ?_⟩
  · intro c' copy₁ hget'
    rcases getElem?_set_cases hget' with ⟨rfl, rfl⟩ | ⟨hne, hget'⟩
    · exact hok
    · obtain ⟨hhold, hdrop⟩ := hrest c' hne
      rw [hhold, hdrop]
      exact h.ok c' copy₁ hget'
  · intro c' hc'
    rw [List.length_set] at hc'
    obtain ⟨hhold, hdrop⟩ := hrest c' (by omega)
    rw [hhold, hdrop]
    exact h.bound c' hc'

theorem CopiesOk.congr (h : CopiesOk copies hold drop) (hhold : ∀ c, hold' c = hold c)
    (hdrop : ∀ c, drop' c = drop c) : CopiesOk copies hold' drop' := by
  rw [funext hhold, funext hdrop]
  exact h

/-- A thread that has something of a copy finds it. -/
theorem CopiesOk.exists (h : CopiesOk copies hold drop) (hpos : 0 < hold c + drop c) :
    ∃ copy, copies[c]? = some copy ∧ copy.freed = 0 ∧ copy.Ok (hold c) (drop c) := by
  have hlt : c < copies.length := by
    by_contra hge
    have hbound := h.bound c (by omega)
    omega
  have hget := List.getElem?_eq_getElem hlt
  have hok := h.ok c _ hget
  refine ⟨_, hget, ?_, hok⟩
  by_cases hhold : hold c = 0
  · have hdead := hok.dead hhold
    omega
  · exact (hok.alive (by omega)).1

/-- At `c` there is one more, and as many elsewhere. -/
def Succ (f f' : ℕ → ℕ) (c : ℕ) : Prop := f' c = f c + 1 ∧ ∀ c' ≠ c, f' c' = f c'

theorem put_msgs {copy' : Copy Msg} (hget : m.copies[c]? = some copy) (hmsg : copy'.msg = copy.msg) :
    (m.put c copy').copies.map Copy.msg = m.copies.map Copy.msg := by
  obtain ⟨hlt, heq⟩ := List.getElem?_eq_some_iff.mp hget
  show (m.copies.set c copy').map Copy.msg = _
  rw [List.map_set, hmsg, ← heq]
  refine List.ext_getElem? fun i => ?_
  rw [List.getElem?_set, List.length_map]
  split
  · rename_i hi
    rw [← hi, List.getElem?_map, List.getElem?_eq_getElem hlt]
    rfl
  · rfl

/-- `ATOM_FINC` of a copy that somebody holds -/
theorem CopiesOk.inc (h : CopiesOk m.copies hold drop) (hpos : 0 < hold c)
    (hhold : Succ hold hold' c) :
    ∃ copy', m.incCopy c = some (m.put c copy') ∧ CopiesOk (m.put c copy').copies hold' drop ∧
      (m.put c copy').copies.map Copy.msg = m.copies.map Copy.msg := by
  obtain ⟨copy, hget, hfreed, hok⟩ := h.exists (Nat.add_pos_left hpos _)
  have hreference : 0 < copy.reference := by
    rw [hok.reference]
    exact Int.natCast_pos.mpr hpos
  refine ⟨{ copy with reference := copy.reference + 1 }, ?_, ?_, put_msgs hget rfl⟩
  · unfold Mem.incCopy Mem.touchCopy
    rw [hget]
    show (if copy.freed = 0 then _ else none) = _
    rw [if_pos hfreed, if_pos hreference]
  · refine h.set hget ⟨?_, ?_, ?_⟩ fun c' hne => ⟨hhold.2 c' hne, rfl⟩
    · show copy.reference + 1 = (hold' c : ℤ)
      rw [hok.reference, hhold.1, Nat.cast_succ]
    · exact fun _ => hok.alive hpos
    · intro hzero
      rw [hhold.1] at hzero
      cases hzero

/-- `ATOM_DEC` of a copy: who gives the last reference back is going to free it. -/
theorem CopiesOk.dec (h : CopiesOk m.copies hold drop) (hhold : Succ hold' hold c) :
    ∃ copy' reference, m.decCopy c = some (m.put c copy', reference) ∧
      (m.put c copy').copies.map Copy.msg = m.copies.map Copy.msg ∧
      (reference = 0 → ∀ drop', Succ drop drop' c → CopiesOk (m.put c copy').copies hold' drop') ∧
      (reference ≠ 0 → CopiesOk (m.put c copy').copies hold' drop) := by
  have hpos : 0 < hold c := by
    rw [hhold.1]
    exact Nat.succ_pos _
  obtain ⟨copy, hget, hfreed, hok⟩ := h.exists (Nat.add_pos_left hpos _)
  have hreference : copy.reference - 1 = hold' c := by
    rw [hok.reference, hhold.1, Nat.cast_succ]
    omega
  obtain ⟨-, hdrop⟩ := hok.alive hpos
  refine ⟨{ copy with reference := copy.reference - 1 }, copy.reference - 1, ?_, put_msgs hget rfl,
    ?_, ?_⟩
  · unfold Mem.decCopy Mem.touchCopy
    rw [hget]
    show (if copy.freed = 0 then _ else none) = _
    rw [if_pos hfreed]
  · intro hzero drop' hsucc
    refine h.set hget ⟨hreference, ?_, ?_⟩ fun c' hne => ⟨(hhold.2 c' hne).symm, hsucc.2 c' hne⟩
    · intro hpos'
      omega
    · intro _
      show copy.freed + drop' c = 1
      rw [hsucc.1, hfreed, hdrop]
  · intro hne
    refine h.set hget ⟨hreference, ?_, ?_⟩ fun c' hne => ⟨(hhold.2 c' hne).symm, rfl⟩
    · exact fun _ => ⟨hfreed, hdrop⟩
    · intro hzero
      rw [hzero] at hreference
      exact (hne hreference).elim

/-- A copy is freed, by the one who has to. -/
theorem CopiesOk.free (h : CopiesOk m.copies hold drop) (hdrop : Succ drop' drop c) :
    ∃ copy', m.freeCopy c = some (m.put c copy') ∧ CopiesOk (m.put c copy').copies hold drop' ∧
      (m.put c copy').copies.map Copy.msg = m.copies.map Copy.msg := by
  have hpos : 0 < drop c := by
    rw [hdrop.1]
    exact Nat.succ_pos _
  obtain ⟨copy, hget, hfreed, hok⟩ := h.exists (Nat.add_pos_right _ hpos)
  have hzero : hold c = 0 := by
    by_contra hne
    have hdead := (hok.alive (Nat.pos_of_ne_zero hne)).2
    omega
  refine ⟨{ copy with freed := copy.freed + 1 }, ?_, ?_, put_msgs hget rfl⟩
  · unfold Mem.freeCopy Mem.touchCopy
    rw [hget]
    show (if copy.freed = 0 then _ else none) = _
    rw [if_pos hfreed]
  · refine h.set hget ⟨hok.reference, ?_, ?_⟩ fun c' hne => ⟨rfl, (hdrop.2 c' hne).symm⟩
    · intro hpos'
      omega
    · intro _
      have hdead := hok.dead hzero
      have hsucc := hdrop.1
      show copy.freed + 1 + drop' c = 1
      omega

/-- `stm_newcopy` -/
theorem CopiesOk.new {msg : Msg} (h : CopiesOk copies hold drop)
    (hhold : Succ hold hold' copies.length) :
    CopiesOk (copies ++ [⟨1, msg, 0⟩]) hold' drop := by
  refine ⟨?_, ?_⟩
  · intro c copy hget
    rcases getElem?_concat_cases hget with hget | ⟨rfl, rfl⟩
    · obtain ⟨hlt, -⟩ := List.getElem?_eq_some_iff.mp hget
      rw [hhold.2 c (by omega)]
      exact h.ok c copy hget
    · obtain ⟨hnone, hdrop⟩ := h.bound copies.length (Nat.le_refl _)
      refine ⟨?_, fun _ => ⟨rfl, hdrop⟩, ?_⟩
      · rw [hhold.1, hnone]
        rfl
      · intro hzero
        rw [hhold.1] at hzero
        cases hzero
  · intro c hc
    rw [List.length_append, List.length_singleton] at hc
    rw [hhold.2 c (by omega)]
    exact h.bound c (by omega)

end SkynetEureka.Stm
