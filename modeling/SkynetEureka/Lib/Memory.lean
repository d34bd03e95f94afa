import Mathlib

/-!
# Checked memory

A C function that works on buffers of its caller may read and write only inside of them, and its
signed results have to fit an int. `Checked` is a computation that stops at the first step that
breaks this (`Fault`), or that returns -1.

* `readAt`, `readSlice`: reads of a byte, and of the source of a memcpy;
* `Cells`: a buffer that is written, where `none` is a byte that has not been written yet;
* `writeAt`, `writeSlice`: writes of a byte, and of the bytes of a memcpy;
* `int`: the result of an operation on ints;
* `times`: a loop with a counter;
* `Ensures`: what holds of a regular result.
-/

namespace SkynetEureka.Lib

/-- What a C function must not do. -/
inductive Fault where
  /-- a read outside of the buffer -/
  | read
  /-- a write outside of the buffer -/
  | write
  /-- a signed result that does not fit an int -/
  | overflow
  /-- a loop that is still running when its bound is reached -/
  | endless
deriving DecidableEq, Repr

/-- How a function ends without its regular result. -/
inductive Exit where
  | fault (f : Fault)
  /-- it returns -1 -/
  | fail
deriving DecidableEq, Repr

/-- A computation on checked memory. -/
abbrev Checked := Except Exit

@[simp] theorem checked_bind_ok {α β : Type} (a : α) (f : α → Checked β) :
    (Except.ok a >>= f) = f a := rfl

@[simp] theorem checked_bind_error {α β : Type} (e : Exit) (f : α → Checked β) :
    ((Except.error e : Checked α) >>= f) = .error e := rfl

@[simp] theorem checked_pure {α : Type} (a : α) : (pure a : Checked α) = .ok a := rfl

/-! ## Loops -/

/-- `for (; n > 0; n--, i++) body`. -/
def times {σ : Type} (body : ℕ → σ → Checked σ) : ℕ → ℕ → σ → Checked σ
  | 0, _, s => .ok s
  | n + 1, i, s => body i s >>= times body n (i + 1)

theorem times_succ {σ : Type} (body : ℕ → σ → Checked σ) (n i : ℕ) (s : σ) :
    times body (n + 1) i s = (body i s >>= times body n (i + 1)) := rfl

theorem times_add {σ : Type} (body : ℕ → σ → Checked σ) (m n i : ℕ) (s : σ) :
    times body (m + n) i s = (times body m i s >>= times body n (i + m)) := by
  induction m generalizing i s with
  | zero => rw [Nat.zero_add]; rfl
  | succ m ih =>
    rw [Nat.add_right_comm, times_succ, times_succ, bind_assoc]
    congr 1
    ext s'
    rw [ih, Nat.add_right_comm, Nat.add_assoc]

/-! ## Regular results -/

/-- Every regular result satisfies `P`. -/
def Ensures {α : Type} (P : α → Prop) (x : Checked α) : Prop := ∀ a, x = .ok a → P a

section Ensures

variable {α β : Type} {P : α → Prop} {Q : β → Prop} {x : Checked α}

@[simp] theorem ensures_ok {a : α} : Ensures P (.ok a) ↔ P a := by
  simp [Ensures]

@[simp] theorem ensures_error {e : Exit} : Ensures P (.error e) := by
  simp [Ensures]

theorem Ensures.true : Ensures (fun _ => True) x := fun _ _ => trivial

theorem Ensures.mono {P' : α → Prop} (h : Ensures P x) (hP : ∀ a, P a → P' a) : Ensures P' x :=
  fun a ha => hP a (h a ha)

/-- Two computations one after the other. -/
theorem Ensures.bind {f : α → Checked β} (h : Ensures P x) (hf : ∀ a, P a → Ensures Q (f a)) :
    Ensures Q (x >>= f) := by
  cases x with
  | error e => simp
  | ok a => exact hf a (h a rfl)

/-- A loop keeps what its body keeps. -/
theorem Ensures.times {body : ℕ → α → Checked α} {I : ℕ → α → Prop}
    (hbody : ∀ i a, I i a → Ensures (I (i + 1)) (body i a)) (n : ℕ) :
    ∀ {i : ℕ} {a : α}, I i a → Ensures (I (i + n)) (times body n i a) := by
  induction n with
  | zero => simp [Lib.times]
  | succ n ih =>
    intro i a ha
    rw [times_succ]
    refine (hbody i a ha).bind fun a' ha' => ?_
    have := ih ha'
    rwa [Nat.add_right_comm] at this

end Ensures

/-! ## Ints -/

/-- The result of a signed operation. -/
def int (x : ℤ) : Checked ℤ :=
  if -2 ^ 31 ≤ x ∧ x < 2 ^ 31 then .ok x else .error (.fault .overflow)

theorem int_eq_ok {x : ℤ} (h : -2 ^ 31 ≤ x) (h' : x < 2 ^ 31) : int x = .ok x :=
  if_pos ⟨h, h'⟩

theorem int_eq_overflow {x : ℤ} (h : 2 ^ 31 ≤ x) : int x = .error (.fault .overflow) :=
  if_neg fun h' => absurd h'.2 (by omega)

theorem int_ok_or (x : ℤ) : int x = .ok x ∨ int x = .error (.fault .overflow) := by
  unfold int
  split
  · exact Or.inl rfl
  · exact Or.inr rfl

/-! ## Reads -/

/-- The byte at offset `i`. -/
def readAt (bytes : List UInt8) (i : ℕ) : Checked UInt8 :=
  match bytes[i]? with
  | some b => .ok b
  | none => .error (.fault .read)

/-- The `n` bytes from offset `i` on. -/
def readSlice (bytes : List UInt8) (i n : ℕ) : Checked (List UInt8) :=
  if i + n ≤ bytes.length then .ok ((bytes.drop i).take n) else .error (.fault .read)

theorem readAt_of_getElem? {bytes : List UInt8} {i : ℕ} {b : UInt8} (h : bytes[i]? = some b) :
    readAt bytes i = .ok b := by
  unfold readAt
  rw [h]

theorem readAt_eq_ok {bytes : List UInt8} {i : ℕ} (h : i < bytes.length) :
    readAt bytes i = .ok bytes[i] :=
  readAt_of_getElem? (List.getElem?_eq_getElem h)

/-- The first of the bytes that are left. -/
theorem readAt_of_drop {bytes rest : List UInt8} {i : ℕ} {b : UInt8}
    (h : bytes.drop i = b :: rest) : readAt bytes i = .ok b := by
  apply readAt_of_getElem?
  rw [← List.head?_drop, h, List.head?_cons]

theorem readAt_eq_fault {bytes : List UInt8} {i : ℕ} (h : bytes.length ≤ i) :
    readAt bytes i = .error (.fault .read) := by
  unfold readAt
  rw [List.getElem?_eq_none h]

theorem readSlice_eq_ok {bytes : List UInt8} {i n : ℕ} (h : i + n ≤ bytes.length) :
    readSlice bytes i n = .ok ((bytes.drop i).take n) :=
  if_pos h

theorem readSlice_eq_fault {bytes : List UInt8} {i n : ℕ} (h : bytes.length < i + n) :
    readSlice bytes i n = .error (.fault .read) :=
  if_neg (by omega)

/-! ## Writes -/

/-- A buffer that is written; `none` is a byte that has not been written. -/
abbrev Cells := List (Option UInt8)

/-- A buffer of `n` bytes before the first write. -/
def blank (n : ℕ) : Cells := List.replicate n none

/-- Write the byte `b` at offset `i`. -/
def writeAt (cells : Cells) (i : ℕ) (b : UInt8) : Checked Cells :=
  if i < cells.length then .ok (cells.set i (some b)) else .error (.fault .write)

/-- The buffer with the bytes `l` from offset `i` on. -/
def overwrite (cells : Cells) (i : ℕ) (l : List UInt8) : Cells :=
  cells.take i ++ l.map some ++ cells.drop (i + l.length)

/-- Write the bytes `l` from offset `i` on. -/
def writeSlice (cells : Cells) (i : ℕ) (l : List UInt8) : Checked Cells :=
  if i + l.length ≤ cells.length then .ok (overwrite cells i l) else .error (.fault .write)

@[simp] theorem length_blank (n : ℕ) : (blank n).length = n := List.length_replicate ..

theorem writeAt_eq_ok {cells : Cells} {i : ℕ} (b : UInt8) (h : i < cells.length) :
    writeAt cells i b = .ok (cells.set i (some b)) :=
  if_pos h

theorem writeSlice_eq_ok {cells : Cells} {i : ℕ} {l : List UInt8}
    (h : i + l.length ≤ cells.length) : writeSlice cells i l = .ok (overwrite cells i l) :=
  if_pos h

/-- A write behind what has been written. -/
theorem writeAt_append {p q : Cells} {i : ℕ} (b : UInt8) (hp : p.length = i) (hq : 0 < q.length) :
    writeAt (p ++ q) i b = .ok (p ++ (some b :: q.drop 1)) := by
  rw [writeAt_eq_ok b (by rw [List.length_append]; omega), List.set_append_right _ _ (by omega)]
  obtain ⟨c, q', rfl⟩ := List.exists_cons_of_length_pos hq
  rw [hp, Nat.sub_self, List.set_cons_zero, List.drop_one, List.tail_cons]

theorem writeSlice_append {p q : Cells} {i : ℕ} {l : List UInt8} (hp : p.length = i)
    (hq : l.length ≤ q.length) :
    writeSlice (p ++ q) i l = .ok (p ++ (l.map some ++ q.drop l.length)) := by
  rw [writeSlice_eq_ok (by rw [List.length_append]; omega), overwrite]
  subst hp
  rw [List.take_left, List.append_assoc, List.drop_append, List.drop_eq_nil_of_le (by omega),
    List.nil_append, Nat.add_sub_cancel_left]

/-! ## What a write leaves alone -/

section Overwrite

variable {cells : Cells} {i j n : ℕ} {l l' : List UInt8}

theorem getElem?_overwrite (h : i + l.length ≤ cells.length) (j : ℕ) :
    (overwrite cells i l)[j]? =
      if j < i then cells[j]? else if j < i + l.length then l[j - i]?.map some else cells[j]? := by
  have htake : (cells.take i).length = i := by
    rw [List.length_take]
    omega
  unfold overwrite
  rw [List.append_assoc]
  by_cases hlow : j < i
  · rw [if_pos hlow, List.getElem?_append_left (by omega), List.getElem?_take_of_lt hlow]
  · rw [if_neg hlow, List.getElem?_append_right (by omega), htake]
    by_cases hmid : j < i + l.length
    · rw [if_pos hmid, List.getElem?_append_left (by rw [List.length_map]; omega),
        List.getElem?_map]
    · rw [if_neg hmid, List.getElem?_append_right (by rw [List.length_map]; omega),
        List.getElem?_drop, List.length_map]
      congr 1
      omega

@[simp] theorem overwrite_nil (cells : Cells) (i : ℕ) : overwrite cells i [] = cells := by
  rw [overwrite, List.map_nil, List.append_nil, List.length_nil, Nat.add_zero,
    List.take_append_drop]

theorem length_overwrite (h : i + l.length ≤ cells.length) :
    (overwrite cells i l).length = cells.length := by
  rw [overwrite, List.length_append, List.length_append, List.length_take, List.length_map,
    List.length_drop]
  omega

theorem writeAt_eq_overwrite (b : UInt8) (h : i < cells.length) :
    writeAt cells i b = .ok (overwrite cells i [b]) := by
  rw [writeAt_eq_ok b h]
  congr 1
  apply List.ext_getElem?
  intro j
  rw [getElem?_overwrite (by rw [List.length_singleton]; omega), List.getElem?_set,
    List.length_singleton]
  by_cases hij : i = j
  · subst hij
    rw [if_pos rfl, if_neg (lt_irrefl i), if_pos (Nat.lt_succ_self i), Nat.sub_self, if_pos h]
    rfl
  · rw [if_neg hij]
    by_cases hlow : j < i
    · rw [if_pos hlow]
    · rw [if_neg hlow, if_neg (by omega)]

/-- A write right behind another one. -/
theorem overwrite_append (h : i + l.length + l'.length ≤ cells.length) :
    overwrite (overwrite cells i l) (i + l.length) l' = overwrite cells i (l ++ l') := by
  have hfirst : i + l.length ≤ cells.length := by omega
  have hboth : i + (l ++ l').length ≤ cells.length := by
    rw [List.length_append]
    omega
  apply List.ext_getElem?
  intro j
  rw [getElem?_overwrite (by rw [length_overwrite hfirst]; exact h),
    getElem?_overwrite hfirst, getElem?_overwrite hboth, List.length_append]
  by_cases hlow : j < i
  · rw [if_pos hlow, if_pos hlow, if_pos (by omega)]
  · by_cases hmid : j < i + l.length
    · rw [if_pos hmid, if_neg hlow, if_pos hmid, if_neg hlow, if_pos (by omega),
        List.getElem?_append_left (by omega)]
    · rw [if_neg hmid, if_neg hlow]
      by_cases hhigh : j < i + l.length + l'.length
      · rw [if_pos hhigh, if_neg hlow, if_pos (by omega), List.getElem?_append_right (by omega)]
        congr 2
        omega
      · rw [if_neg hhigh, if_neg hlow, if_neg hmid, if_neg (by omega)]

/-- A byte in front of what has been written. -/
theorem overwrite_front (b : UInt8) (h : i + 1 + l.length ≤ cells.length) :
    overwrite (overwrite cells (i + 1) l) i [b] = overwrite cells i (b :: l) := by
  have hboth : i + (b :: l).length ≤ cells.length := by
    rw [List.length_cons]
    omega
  apply List.ext_getElem?
  intro j
  rw [getElem?_overwrite (by rw [length_overwrite h, List.length_singleton]; omega),
    getElem?_overwrite h, getElem?_overwrite hboth, List.length_singleton, List.length_cons]
  by_cases hlow : j < i
  · rw [if_pos hlow, if_pos hlow, if_pos (by omega)]
  · rw [if_neg hlow, if_neg hlow]
    by_cases hij : j = i
    · subst hij
      rw [if_pos (by omega), if_pos (by omega), Nat.sub_self]
      rfl
    · rw [if_neg (by omega : ¬ j < i + 1), if_neg (by omega : ¬ j < i + 1)]
      have hsub : j - i = j - (i + 1) + 1 := by omega
      rw [hsub, List.getElem?_cons_succ]
      by_cases hmid : j < i + 1 + l.length
      · rw [if_pos hmid, if_pos (by omega)]
      · rw [if_neg hmid, if_neg (by omega)]

theorem take_overwrite (h : i + l.length ≤ cells.length) (hn : n ≤ i) :
    (overwrite cells i l).take n = cells.take n := by
  rw [overwrite, List.append_assoc, List.take_append_of_le_length
    (by rw [List.length_take]; omega), List.take_take, Nat.min_eq_left hn]

theorem drop_overwrite (h : i + l.length ≤ cells.length) (hn : i + l.length ≤ n) :
    (overwrite cells i l).drop n = cells.drop n := by
  have hlen : (cells.take i ++ l.map some).length = i + l.length := by
    rw [List.length_append, List.length_take, List.length_map]
    omega
  rw [overwrite, List.drop_append, List.drop_eq_nil_of_le (by omega), List.nil_append,
    List.drop_drop, hlen]
  congr 1
  omega

/-- What is written is there. -/
theorem take_overwrite_end (h : i + l.length ≤ cells.length) :
    (overwrite cells i l).take (i + l.length) = cells.take i ++ l.map some := by
  have hlen : (cells.take i ++ l.map some).length = i + l.length := by
    rw [List.length_append, List.length_take, List.length_map]
    omega
  rw [overwrite, ← hlen, List.take_left]

end Overwrite

end SkynetEureka.Lib
