import SkynetEureka.Sproto.Bundle
import SkynetEureka.Sproto.Encode
import SkynetEureka.Sproto.Tags

/-!
# What sproto_encode writes

`logged` writes down the answers of a callback, and `heard` is what the callback of `sproto_decode` has to
get for them. For each part of `sproto_encode`, the bytes that it writes are those of the answers.
-/

namespace SkynetEureka.Sproto

open Lib

/-! ## Answers -/

/-- What a callback of `sproto_decode` gets as the value: nothing for an empty array, a number, or bytes. -/
inductive Content where
  | empty
  | number (v : UInt64)
  | bytes (l : List UInt8)
deriving DecidableEq, Repr

/-- The arguments of a call, apart from the pointer to the value, and the value. -/
abbrev Heard := SprotoArg × Content

/-- The call for the element `index` of a field. -/
def SprotoArg.heardAt (args : SprotoArg) (index : ℤ) (c : Content) : Heard :=
  ({ args with value := .null, length := 0, index := index }, c)

/-- The value of bytes that the callback of `sproto_encode` has written. -/
def Content.of (type : FieldType) (l : List UInt8) : Content :=
  match type with
  | .tinteger => .number (if l.length = 4 then expand64 (ofLeBytes l) else UInt64.ofNat (ofLeBytes l))
  | .tboolean => .number (if ofLeBytes l ≠ 0 then 1 else 0)
  | _ => .bytes l

/-- An answer, with the arguments of the call. -/
abbrev Answer := SprotoArg × Reply

/-- The calls of `sproto_decode` for an answer; an array that ends with its first element is empty. -/
def Answer.heard (a : Answer) : List Heard :=
  match a.2 with
  | .value l => [a.1.heardAt a.1.index (.of a.1.type l)]
  | .nil => if a.1.index = 1 then [a.1.heardAt (-1) .empty] else []
  | _ => []

/-- The calls of `sproto_decode` for all the answers. -/
def heard (log : List Answer) : List Heard := log.flatMap Answer.heard

/-- The answer is of the kind that the field asks for: a boolean is an int that is 0 or 1, and an array
is there or not from its first element on. -/
def Answer.Proper (a : Answer) : Prop :=
  match a.2 with
  | .value l => a.1.type = .tboolean → l.length = 4 ∧ ofLeBytes l ≤ 1
  | .noarray => a.1.index ≤ 1
  | _ => True

def Proper (log : List Answer) : Prop := ∀ a ∈ log, a.Proper

instance : DecidablePred Answer.Proper
  | (args, .value l) =>
    inferInstanceAs (Decidable (args.type = .tboolean → l.length = 4 ∧ ofLeBytes l ≤ 1))
  | (args, .noarray) => inferInstanceAs (Decidable (args.index ≤ 1))
  | (_, .nil) => .isTrue trivial
  | (_, .error) => .isTrue trivial

instance : DecidablePred Proper := fun log => inferInstanceAs (Decidable (∀ a ∈ log, a.Proper))

/-- The callback writes no more than it may. -/
def Respects {σ : Type} (cb : EncodeCallback σ) : Prop :=
  ∀ args s l, (cb args s).1 = .value l → l.length ≤ args.length

/-- The callback, with a log of its answers. -/
def logged {σ : Type} (cb : EncodeCallback σ) : EncodeCallback (σ × List Answer) := fun args s =>
  ((cb args s.1).1, (cb args s.1).2, s.2 ++ [(args, (cb args s.1).1)])

@[simp] theorem heard_nil : heard [] = [] := rfl

@[simp] theorem heard_cons (a : Answer) (log : List Answer) : heard (a :: log) = a.heard ++ heard log := rfl

@[simp] theorem heard_append (log log' : List Answer) : heard (log ++ log') = heard log ++ heard log' :=
  List.flatMap_append

@[simp] theorem proper_cons {a : Answer} {log : List Answer} : Proper (a :: log) ↔ a.Proper ∧ Proper log :=
  List.forall_mem_cons

@[simp] theorem proper_append {log log' : List Answer} : Proper (log ++ log') ↔ Proper log ∧ Proper log' :=
  List.forall_mem_append

@[simp] theorem proper_nil : Proper [] := List.forall_mem_nil _

section

variable {σ : Type} {cb : EncodeCallback σ} {args : SprotoArg} {length index size : ℤ} {s : σ}
  {log : List Answer} {l : List UInt8} {ls : List (List UInt8)} {f : Field}

theorem ask_logged (hcb : Respects cb) (args : SprotoArg) (length index : ℤ) (s : σ) (log : List Answer) :
    ∃ r s', ask (logged cb) args length index (s, log) =
        .ok (r, s', log ++ [({ args with length := length, index := index }, r)]) ∧
      ∀ l, r = .value l → l.length ≤ length := by
  have hle := hcb { args with length := length, index := index } s
  refine ⟨(cb { args with length := length, index := index } s).1,
    (cb { args with length := length, index := index } s).2, ?_, hle⟩
  unfold ask logged
  cases hr : (cb { args with length := length, index := index } s).1 with
  | value l => simp [hle l hr]
  | _ => simp

/-! ## Lengths -/

@[simp] theorem length_fillSize (l : List UInt8) : (fillSize l).length = l.length + 4 := by
  simp [fillSize, Nat.add_comm]

theorem fillSize_ne_nil (l : List UInt8) : fillSize l ≠ [] := by
  apply List.ne_nil_of_length_pos
  simp

/-! ## Objects -/

/-- What `encode_object` writes, and the calls for it. -/
def ObjectWritten (args : SprotoArg) (d : List UInt8) (calls : List Heard) : Prop :=
  (d = [] ∧ calls = []) ∨ ∃ l, d = fillSize l ∧ calls = [args.heardAt 0 (.of args.type l)]

theorem encodeObject_yields (hcb : Respects cb) (args : SprotoArg) (hpos : 0 ≤ size) (s : σ)
    (log : List Answer) :
    Yields (fun r => r.1.length ≤ size ∧ ∃ new, r.2.2 = log ++ new ∧ ObjectWritten args r.1 (heard new))
      (encodeObject (logged cb) args size (s, log)) := by
  unfold encodeObject
  split_ifs with hsize
  · exact .fail
  · obtain ⟨r, s', hask, hle⟩ := ask_logged hcb args (size - 4) 0 s log
    rw [hask, checked_bind_ok]
    cases r with
    | value l =>
      have := hle l rfl
      refine .ok ⟨?_, _, rfl, Or.inr ⟨l, rfl, rfl⟩⟩
      simp only [length_fillSize]
      omega
    | nil => exact .ok ⟨hpos, _, rfl, Or.inl ⟨rfl, rfl⟩⟩
    | noarray => exact .fail
    | error => exact .fail

/-! ## Arrays -/

/-- The calls of `sproto_decode` for the elements from `index` on. -/
def SprotoArg.elements (args : SprotoArg) : ℕ → List (List UInt8) → List Heard
  | _, [] => []
  | index, l :: ls => args.heardAt index (.of args.type l) :: args.elements (index + 1) ls

/-- The calls for an array whose elements from `index` on are `ls`. -/
def SprotoArg.heardArray (args : SprotoArg) (index : ℕ) (ls : List (List UInt8)) : List Heard :=
  if index = 1 ∧ ls = [] then [args.heardAt (-1) .empty] else args.elements index ls

/-- The answers to an array from the element `index` on, and what came of them: with `P ls c` the bytes
`c` hold the elements `ls`. -/
def ArrayAnswers (args : SprotoArg) (index : ℕ) (P : List (List UInt8) → List UInt8 → Prop)
    (log : List Answer) (r : Option (List UInt8) × σ × List Answer) : Prop :=
  ∃ new, r.2.2 = log ++ new ∧
    match r.1 with
    | some c => ∃ ls, P ls c ∧ heard new = args.heardArray index ls
    | none => Proper new → index ≤ 1 ∧ heard new = []

section

variable {P Q : List (List UInt8) → List UInt8 → Prop} {index : ℕ} {c : List UInt8}

theorem ArrayAnswers.nil (h : P [] c) :
    ArrayAnswers args index P log
      (some c, s, log ++ [({ args with length := length, index := index }, .nil)]) := by
  refine ⟨_, rfl, [], h, ?_⟩
  by_cases hone : index = 1 <;> simp [Answer.heard, SprotoArg.heardArray, SprotoArg.elements,
    SprotoArg.heardAt, hone]

theorem ArrayAnswers.noarray :
    ArrayAnswers args index P log
      (none, s, log ++ [({ args with length := length, index := index }, .noarray)]) := by
  refine ⟨_, rfl, ?_⟩
  simp [Answer.heard, Answer.Proper]

/-- One more element in front. -/
theorem ArrayAnswers.cons (hindex : 1 ≤ index) (hQ : ∀ ls c, Q ls c → P (l :: ls) c)
    {r : Option (List UInt8) × σ × List Answer}
    (h : ArrayAnswers args (index + 1) Q
      (log ++ [({ args with length := length, index := index }, .value l)]) r) :
    ArrayAnswers args index P log r := by
  obtain ⟨new, hnew, h⟩ := h
  refine ⟨_ :: new, by rw [hnew, List.append_assoc, List.singleton_append], ?_⟩
  cases hr : r.1 with
  | none =>
    intro hproper
    rw [hr] at h
    have := (h (proper_cons.mp hproper).2).1
    omega
  | some c =>
    rw [hr] at h
    obtain ⟨ls, hq, hheard⟩ := h
    refine ⟨l :: ls, hQ ls c hq, ?_⟩
    have hnot : ¬ (index + 1 = 1 ∧ ls = []) := by omega
    rw [heard_cons, hheard, SprotoArg.heardArray, if_neg hnot, SprotoArg.heardArray, if_neg (by simp),
      SprotoArg.elements]
    rfl

end

/-- The byte of a boolean. -/
def boolByte (l : List UInt8) : List UInt8 := [if ofLeBytes l ≠ 0 then 1 else 0]

theorem encodeBooleans_yields (hcb : Respects cb) {fuel : ℕ} {buffer : List UInt8} {index : ℕ}
    (hpos : 0 ≤ size) (hfuel : size < fuel) (hindex : 1 ≤ index) (s : σ) (log : List Answer) :
    Yields (ArrayAnswers args index
        (fun ls c => c = buffer ++ ls.flatMap boolByte ∧ c.length ≤ buffer.length + size) log)
      (encodeBooleans (logged cb) args fuel buffer size index (s, log)) := by
  induction fuel generalizing buffer size index s log with
  | zero => omega
  | succ fuel ih =>
    rw [encodeBooleans]
    obtain ⟨r, s', hask, -⟩ := ask_logged hcb args 4 index s log
    rw [hask, checked_bind_ok]
    cases r with
    | nil => exact .ok (.nil ⟨by simp, by omega⟩)
    | noarray => exact .ok .noarray
    | error => exact .fail
    | value l =>
      show Yields _ (if _ then _ else _)
      by_cases hsize : size < 1
      · rw [if_pos hsize]
        exact .fail
      · rw [if_neg hsize]
        refine (ih (by omega) (by omega) (by omega) s' _).mono fun r hr => hr.cons hindex ?_
        rintro ls c ⟨rfl, hlen⟩
        refine ⟨by simp [boolByte], ?_⟩
        simp only [List.length_append, List.length_singleton] at hlen ⊢
        omega

theorem encodeObjects_yields (hcb : Respects cb) {fuel : ℕ} {buffer : List UInt8} {index : ℕ}
    (hpos : 0 ≤ size) (hfuel : size < fuel) (hindex : 1 ≤ index) (s : σ) (log : List Answer) :
    Yields (ArrayAnswers args index
        (fun ls c => c = buffer ++ ls.flatMap fillSize ∧ c.length ≤ buffer.length + size) log)
      (encodeObjects (logged cb) args fuel buffer size index (s, log)) := by
  induction fuel generalizing buffer size index s log with
  | zero => omega
  | succ fuel ih =>
    rw [encodeObjects]
    by_cases hsize : size < 4
    · rw [if_pos hsize]
      exact .fail
    · obtain ⟨r, s', hask, hle⟩ := ask_logged hcb args (size - 4) index s log
      rw [if_neg hsize, hask, checked_bind_ok]
      cases r with
      | nil => exact .ok (.nil ⟨by simp, by omega⟩)
      | noarray => exact .ok .noarray
      | error => exact .fail
      | value l =>
        have := hle l rfl
        refine (ih (by omega) (by omega) (by omega) s' _).mono fun r hr => hr.cons hindex ?_
        rintro ls c ⟨rfl, hlen⟩
        refine ⟨by simp, ?_⟩
        simp only [List.length_append, length_fillSize] at hlen ⊢
        omega

/-! ## Arrays of integers -/

/-- An integer in an array of 32 bit integers. -/
def narrow (l : List UInt8) : List UInt8 := leBytes 4 (ofLeBytes l)

/-- An integer in an array of 64 bit integers. -/
def wide (l : List UInt8) : List UInt8 :=
  if l.length = 4 then narrow l ++ signBytes (ofLeBytes l) else leBytes 8 (ofLeBytes l)

@[simp] theorem length_narrow (l : List UInt8) : (narrow l).length = 4 := length_leBytes ..

@[simp] theorem length_wide (l : List UInt8) : (wide l).length = 8 := by
  unfold wide
  split_ifs <;> simp [signBytes]

theorem length_flatMap_of_length {enc : List UInt8 → List UInt8} {w : ℕ} (h : ∀ l, (enc l).length = w)
    (ls : List (List UInt8)) : (ls.flatMap enc).length = ls.length * w := by
  induction ls with
  | nil => simp
  | cons l ls ih => rw [List.flatMap_cons, List.length_append, h, ih, List.length_cons]; ring

theorem take_put {buffer : List UInt8} {i n : ℕ} (hn : n ≤ i) (hi : i ≤ buffer.length) :
    (put buffer i l).take n = buffer.take n := by
  rw [put, List.append_assoc, List.take_append_of_le_length (by simp; omega), List.take_take,
    Nat.min_eq_left hn]

theorem drop_put {buffer : List UInt8} {i : ℕ} (hi : i ≤ buffer.length) :
    (put buffer i l).drop i = l ++ buffer.drop (i + l.length) := by
  rw [put, List.append_assoc, List.drop_append, List.drop_eq_nil_of_le (by simp), List.nil_append]
  have hzero : i - (buffer.take i).length = 0 := by simp; omega
  rw [hzero, List.drop_zero]

theorem length_put {buffer : List UInt8} {i : ℕ} (h : i + l.length ≤ buffer.length) :
    (put buffer i l).length = buffer.length := by
  simp [put]
  omega

/-- Four bytes are the bytes of their number. -/
theorem ofLeBytes_narrow (h : l.length = 4) : ofLeBytes (narrow l) = ofLeBytes l := by
  apply ofLeBytes_leBytes_of_lt
  have := ofLeBytes_lt l
  rwa [h] at this

/-- The integers are rearranged from the last one on: the eight bytes of each are behind the four bytes of
those in front of it, so that none is lost. -/
theorem rearrange_eq {buffer : List UInt8} (hfour : ∀ l ∈ ls, l.length = 4)
    (hbuffer : buffer.take (ls.length * 4) = ls.flatMap narrow) (hlen : ls.length * 8 ≤ buffer.length) :
    rearrange ls.length buffer = ls.flatMap wide ++ buffer.drop (ls.length * 8) := by
  induction ls using List.reverseRecOn generalizing buffer with
  | nil => simp [rearrange]
  | append_singleton ls l ih =>
    simp only [List.length_append, List.length_singleton, List.flatMap_append, List.flatMap_singleton]
      at hbuffer hlen ⊢
    have hl : l.length = 4 := hfour l (by simp)
    have hnarrow : (ls.flatMap narrow).length = ls.length * 4 := length_flatMap_of_length length_narrow ls
    have hfront : buffer.take (ls.length * 4) = ls.flatMap narrow := by
      have := congrArg (List.take (ls.length * 4)) hbuffer
      rwa [List.take_take, Nat.min_eq_left (by omega), ← hnarrow, List.take_left, hnarrow] at this
    have hv : (buffer.drop (ls.length * 4)).take 4 = narrow l := by
      have := congrArg (List.drop (ls.length * 4)) hbuffer
      rw [List.drop_take, ← hnarrow, List.drop_left, hnarrow] at this
      rw [← this]
      congr 1
      omega
    have hwide : narrow l ++ signBytes (ofLeBytes (narrow l)) = wide l := by
      rw [ofLeBytes_narrow hl, wide, if_pos hl]
    rw [rearrange, hv]
    show rearrange ls.length (put buffer (ls.length * 8) (narrow l ++ _)) = _
    rw [hwide, ih (fun l' hl' => hfour l' (by simp [hl'])), drop_put (by omega), length_wide, List.append_assoc]
    · congr 3
      omega
    · rw [take_put (by omega) (by omega), hfront]
    · rw [length_put (by rw [length_wide]; omega)]
      omega

/-- The variables of `encode_integer_array` after the integers `ls`, when `total` bytes were free. -/
structure IntegerArray.Holds (a : IntegerArray) (total : ℤ) (ls : List (List UInt8)) : Prop where
  index : a.index = ls.length + 1
  size : a.size + a.buffer.length = total
  lengths : ∀ l ∈ ls, l.length = 4 ∨ l.length = 8
  buffer : (a.intlen = 4 ∧ a.buffer = ls.flatMap narrow ∧ ∀ l ∈ ls, l.length = 4) ∨
    (a.intlen = 8 ∧ a.buffer = ls.flatMap wide)

/-- The bytes of an array of integers. -/
def IntegerBytes (ls : List (List UInt8)) (c : List UInt8) : Prop :=
  (ls = [] ∧ c = []) ∨ (ls ≠ [] ∧ (c = 4 :: ls.flatMap narrow ∧ (∀ l ∈ ls, l.length = 4) ∨
    c = 8 :: ls.flatMap wide ∧ ∀ l ∈ ls, l.length = 4 ∨ l.length = 8))

section

variable {a : IntegerArray} {total : ℤ}

theorem IntegerArray.Holds.addInt32 (h : a.Holds total ls) (hl : l.length = 4) :
    (a.addInt32 (ofLeBytes l)).Holds total (ls ++ [l]) := by
  have hindex := h.index
  have hsize := h.size
  have hlengths := h.lengths
  rcases h.buffer with ⟨hintlen, hbuffer, hfour⟩ | ⟨hintlen, hbuffer⟩
  · refine ⟨by simp [IntegerArray.addInt32, hindex], ?_, ?_, Or.inl ⟨hintlen, ?_, ?_⟩⟩
    · simp [IntegerArray.addInt32, hintlen]
      omega
    · simpa [or_imp, forall_and, hl] using hlengths
    · simp [IntegerArray.addInt32, hintlen, hbuffer, narrow]
    · simpa [or_imp, forall_and, hl] using hfour
  · refine ⟨by simp [IntegerArray.addInt32, hindex], ?_, ?_, Or.inr ⟨hintlen, ?_⟩⟩
    · simp [IntegerArray.addInt32, hintlen, signBytes]
      omega
    · simpa [or_imp, forall_and, hl] using hlengths
    · simp [IntegerArray.addInt32, hintlen, hbuffer, wide, narrow, hl]

theorem IntegerArray.Holds.widen (h : a.Holds total ls) :
    a.widen.Holds total ls ∧ a.widen.intlen = 8 := by
  rcases h.buffer with ⟨hintlen, hbuffer, hfour⟩ | ⟨hintlen, hbuffer⟩
  · have hindex := h.index
    have hsize := h.size
    have hnarrow : (ls.flatMap narrow).length = ls.length * 4 := length_flatMap_of_length length_narrow ls
    have hwide : (ls.flatMap wide).length = ls.length * 8 := length_flatMap_of_length length_wide ls
    have hn : a.index - 1 = ls.length := by omega
    have hre : rearrange (a.index - 1) (a.buffer ++ List.replicate ((a.index - 1) * 4) 0) =
        ls.flatMap wide := by
      rw [hn, hbuffer, rearrange_eq hfour, List.drop_eq_nil_of_le, List.append_nil]
      · simp [hnarrow]
        omega
      · rw [← hnarrow, List.take_left]
      · simp [hnarrow]
        omega
    rw [hbuffer, hnarrow] at hsize
    rw [IntegerArray.widen, if_pos hintlen]
    refine ⟨⟨hindex, ?_, h.lengths, Or.inr ⟨rfl, hre⟩⟩, rfl⟩
    show a.size - ((a.index - 1 : ℕ) : ℤ) * 4 + (rearrange _ _).length = total
    rw [hre, hwide, hn]
    omega
  · rw [IntegerArray.widen, if_neg (by omega)]
    exact ⟨h, hintlen⟩

theorem IntegerArray.Holds.addInt64 (h : a.Holds total ls) (hintlen : a.intlen = 8) (hl : l.length = 8) :
    (a.addInt64 (ofLeBytes l)).Holds total (ls ++ [l]) := by
  have hindex := h.index
  have hsize := h.size
  have hlengths := h.lengths
  have hbuffer : a.buffer = ls.flatMap wide := by
    rcases h.buffer with ⟨hfour, -⟩ | ⟨-, hbuffer⟩
    · omega
    · exact hbuffer
  refine ⟨by simp [IntegerArray.addInt64, hindex], ?_, ?_, Or.inr ⟨hintlen, ?_⟩⟩
  · simp [IntegerArray.addInt64, hintlen]
    omega
  · simpa [or_imp, forall_and, hl] using hlengths
  · simp [IntegerArray.addInt64, hbuffer, wide, hl]

theorem IntegerArray.Holds.content (h : a.Holds total ls) : IntegerBytes ls a.content := by
  unfold IntegerArray.content
  cases ls with
  | nil =>
    have hnil : a.buffer = [] := by rcases h.buffer with ⟨-, hbuffer, -⟩ | ⟨-, hbuffer⟩ <;> simp [hbuffer]
    rw [if_pos hnil]
    exact Or.inl ⟨rfl, rfl⟩
  | cons l ls =>
    refine Or.inr ⟨by simp, ?_⟩
    rcases h.buffer with ⟨hintlen, hbuffer, hfour⟩ | ⟨hintlen, hbuffer⟩
    · have hne : a.buffer ≠ [] := by
        apply List.ne_nil_of_length_pos
        simp [hbuffer]
      rw [if_neg hne, hbuffer, hintlen]
      exact Or.inl ⟨rfl, hfour⟩
    · have hne : a.buffer ≠ [] := by
        apply List.ne_nil_of_length_pos
        simp [hbuffer]
      rw [if_neg hne, hbuffer, hintlen]
      exact Or.inr ⟨rfl, h.lengths⟩

theorem IntegerArray.Holds.length_content (h : a.Holds total ls) (hpos : 0 ≤ a.size) :
    a.content.length ≤ total + 1 := by
  have := h.size
  unfold IntegerArray.content
  split
  · simp
    omega
  · simp only [List.length_cons]
    omega

/-- The bytes are those of the integers so far and of the rest. -/
theorem encodeIntegers_yields (hcb : Respects cb) {fuel : ℕ} (h : a.Holds total ls) (hpos : 0 ≤ a.size)
    (hfuel : a.size < fuel) (s : σ) (log : List Answer) :
    Yields (ArrayAnswers args a.index
        (fun ls' c => IntegerBytes (ls ++ ls') c ∧ c.length ≤ total + 1) log)
      (encodeIntegers (logged cb) args fuel a (s, log)) := by
  induction fuel generalizing a ls s log with
  | zero => omega
  | succ fuel ih =>
    have hindex : 1 ≤ a.index := by rw [h.index]; omega
    rw [encodeIntegers]
    obtain ⟨r, s', hask, -⟩ := ask_logged hcb args 8 a.index s log
    rw [hask, checked_bind_ok]
    cases r with
    | nil => exact .ok (.nil ⟨by simpa using h.content, h.length_content hpos⟩)
    | noarray => exact .ok .noarray
    | error => exact .fail
    | value l =>
      show Yields _ (if _ then _ else _)
      by_cases hsize : a.size < 8
      · rw [if_pos hsize]
        exact .fail
      · rw [if_neg hsize]
        by_cases hfour : l.length = 4
        · have hlen : a.intlen ≤ 8 ∧ 4 ≤ a.intlen := by rcases h.buffer with ⟨hintlen, -⟩ | ⟨hintlen, -⟩ <;> omega
          have hnext : (a.addInt32 (ofLeBytes l)).size = a.size - a.intlen := rfl
          rw [if_pos hfour]
          refine (ih (h.addInt32 hfour) (by omega) (by omega) s' _).mono fun r hr => hr.cons hindex ?_
          rintro ls' c ⟨hbytes, hc⟩
          exact ⟨by simpa using hbytes, hc⟩
        · rw [if_neg hfour]
          by_cases height : l.length ≠ 8
          · rw [if_pos height]
            exact .fail
          · obtain ⟨hwiden, hintlen⟩ := h.widen
            have hle : a.widen.size ≤ a.size := by
              unfold IntegerArray.widen
              split
              · show a.size - ((a.index - 1 : ℕ) : ℤ) * 4 ≤ a.size
                omega
              · exact le_rfl
            have hnext : (a.widen.addInt64 (ofLeBytes l)).size = a.widen.size - a.widen.intlen := rfl
            rw [if_neg height]
            by_cases hsize' : a.widen.size < 8
            · rw [if_pos hsize']
              exact .fail
            · rw [if_neg hsize']
              have hwindex : (a.widen.addInt64 (ofLeBytes l)).index = a.index + 1 := by
                show a.widen.index + 1 = a.index + 1
                rw [hwiden.index, h.index]
              have := ih (hwiden.addInt64 hintlen (l := l) (by omega)) (by omega) (by omega) s'
                (log ++ [({ args with length := 8, index := a.index }, .value l)])
              rw [hwindex] at this
              refine this.mono fun r hr => hr.cons hindex ?_
              rintro ls' c ⟨hbytes, hc⟩
              exact ⟨by simpa using hbytes, hc⟩

/-! ## encode_array -/

/-- The bytes of an array, behind their length. -/
def ArrayBytes (type : FieldType) (ls : List (List UInt8)) (c : List UInt8) : Prop :=
  match type with
  | .tinteger => IntegerBytes ls c
  | .tboolean => c = ls.flatMap boolByte
  | _ => c = ls.flatMap fillSize

/-- What `encode_array` writes, and the calls for it. -/
def ArrayWritten (args : SprotoArg) (d : List UInt8) (calls : List Heard) : Prop :=
  (d = [] ∧ calls = []) ∨
    ∃ ls c, d = fillSize c ∧ ArrayBytes args.type ls c ∧ calls = args.heardArray 1 ls

theorem ArrayAnswers.mono {P Q : List (List UInt8) → List UInt8 → Prop} {index : ℕ}
    {r : Option (List UInt8) × σ × List Answer} (h : ArrayAnswers args index P log r)
    (hPQ : ∀ ls c, P ls c → Q ls c) : ArrayAnswers args index Q log r := by
  obtain ⟨new, hnew, h⟩ := h
  refine ⟨new, hnew, ?_⟩
  split at h
  · obtain ⟨ls, hP, hheard⟩ := h
    exact ⟨ls, hPQ ls _ hP, hheard⟩
  · exact h

theorem encodeElements_yields (hcb : Respects cb) (args : SprotoArg) (hpos : 0 ≤ size) (s : σ)
    (log : List Answer) :
    Yields (ArrayAnswers args 1 (fun ls c => ArrayBytes args.type ls c ∧ c.length ≤ size) log)
      (encodeElements (logged cb) args size (s, log)) := by
  unfold encodeElements
  have hbooleans : Yields (ArrayAnswers args 1
      (fun ls c => c = [] ++ ls.flatMap boolByte ∧ c.length ≤ ([] : List UInt8).length + size) log)
      (encodeBooleans (logged cb) args (size.toNat + 1) [] size 1 (s, log)) :=
    encodeBooleans_yields hcb hpos (by omega) (le_refl 1) s log
  have hobjects : Yields (ArrayAnswers args 1
      (fun ls c => c = [] ++ ls.flatMap fillSize ∧ c.length ≤ ([] : List UInt8).length + size) log)
      (encodeObjects (logged cb) args (size.toNat + 1) [] size 1 (s, log)) :=
    encodeObjects_yields hcb hpos (by omega) (le_refl 1) s log
  cases args.type with
  | tinteger =>
    show Yields _ (encodeIntegerArray _ _ _ _)
    unfold encodeIntegerArray
    by_cases hone : size < 1
    · rw [if_pos hone]
      exact .fail
    · rw [if_neg hone]
      have hstart : IntegerArray.Holds { buffer := [], size := size - 1, intlen := 4, index := 1 } (size - 1) [] :=
        ⟨rfl, by simp, by simp, Or.inl ⟨rfl, rfl, by simp⟩⟩
      have hleft : 0 ≤ size - 1 := by omega
      have hfuel : size - 1 < (size.toNat + 1 : ℕ) := by omega
      refine (encodeIntegers_yields hcb hstart hleft hfuel s log).mono fun r hr => hr.mono ?_
      rintro ls c ⟨hbytes, hc⟩
      exact ⟨hbytes, by omega⟩
  | tboolean =>
    refine hbooleans.mono fun r hr => hr.mono ?_
    rintro ls c ⟨hc, hlen⟩
    exact ⟨hc, by simpa using hlen⟩
  | _ =>
    refine hobjects.mono fun r hr => hr.mono ?_
    rintro ls c ⟨hc, hlen⟩
    exact ⟨hc, by simpa using hlen⟩

theorem encodeArray_yields (hcb : Respects cb) (args : SprotoArg) (hpos : 0 ≤ size) (s : σ)
    (log : List Answer) :
    Yields (fun r => r.1.length ≤ size ∧ ∃ new, r.2.2 = log ++ new ∧
        (Proper new → ArrayWritten args r.1 (heard new)))
      (encodeArray (logged cb) args size (s, log)) := by
  unfold encodeArray
  by_cases hsize : size < 4
  · rw [if_pos hsize]
    exact .fail
  · rw [if_neg hsize]
    refine (encodeElements_yields hcb args (by omega) s log).bind fun r _ hr => ?_
    obtain ⟨c, s', log'⟩ := r
    obtain ⟨new, hnew, hr⟩ := hr
    cases c with
    | none => exact .ok ⟨hpos, new, hnew, fun hproper => Or.inl ⟨rfl, (hr hproper).2⟩⟩
    | some c =>
      obtain ⟨ls, ⟨hbytes, hlen⟩, hheard⟩ := hr
      refine .ok ⟨?_, new, hnew, fun _ => Or.inr ⟨ls, c, rfl, hbytes, hheard⟩⟩
      simp only [length_fillSize]
      omega

end

/-! ## Numbers -/

/-- What is written for a number, and the calls for it: a small one has room in the record. -/
def NumberWritten (args : SprotoArg) (v : FieldBytes) (calls : List Heard) : Prop :=
  (v = (0, []) ∧ calls = []) ∨
    ∃ l, calls = [args.heardAt 0 (.of args.type l)] ∧ (args.type = .tboolean → ofLeBytes l ≤ 1) ∧
      (l.length = 4 ∧ ofLeBytes l < 0x7fff ∧ v = ((ofLeBytes l + 1) * 2, []) ∨
        args.type ≠ .tboolean ∧ (l.length = 4 ∨ l.length = 8) ∧ v = (0, fillSize (leBytes l.length (ofLeBytes l))))

theorem encodeNumber_yields (hcb : Respects cb) (args : SprotoArg) (hpos : 0 ≤ size) (s : σ)
    (log : List Answer) :
    Yields (fun r => ∃ new, r.2.2 = log ++ new ∧ ∀ v, r.1 = some v → v.2.length ≤ size ∧
        (Proper new → NumberWritten args v (heard new)))
      (encodeNumber (logged cb) args size (s, log)) := by
  unfold encodeNumber
  obtain ⟨r, s', hask, -⟩ := ask_logged hcb args 8 0 s log
  rw [hask, checked_bind_ok]
  cases r with
  | nil =>
    refine .ok ⟨_, rfl, ?_⟩
    rintro v ⟨⟩
    exact ⟨hpos, fun _ => Or.inl ⟨rfl, rfl⟩⟩
  | noarray =>
    refine .ok ⟨_, rfl, ?_⟩
    rintro v ⟨⟩
  | error => exact .fail
  | value l =>
    show Yields _ (if _ then _ else _)
    have hbool : ∀ {a : Answer}, a.2 = .value l → a.1.type = args.type → Proper [a] →
        args.type = .tboolean → l.length = 4 ∧ ofLeBytes l ≤ 1 := by
      rintro ⟨_, _⟩ rfl htype hproper
      rw [← htype]
      exact (proper_cons.mp hproper).1
    by_cases hfour : l.length = 4
    · rw [if_pos hfour]
      by_cases hsmall : ofLeBytes l < 0x7fff
      · rw [if_pos hsmall]
        refine .ok ⟨_, rfl, ?_⟩
        rintro v ⟨⟩
        refine ⟨hpos, fun hproper => Or.inr ⟨l, rfl, fun htype => ?_, Or.inl ⟨hfour, hsmall, rfl⟩⟩⟩
        exact (hbool rfl rfl hproper htype).2
      · rw [if_neg hsmall]
        unfold encodeInteger
        by_cases hsize : size < 8
        · rw [if_pos hsize]
          exact .fail
        · rw [if_neg hsize, checked_bind_ok]
          refine .ok ⟨_, rfl, ?_⟩
          rintro v ⟨⟩
          refine ⟨by simp; omega, fun hproper => Or.inr ⟨l, rfl, ?_⟩⟩
          have hnot : args.type ≠ .tboolean := by
            intro htype
            have := hbool rfl rfl hproper htype
            omega
          exact ⟨fun h => absurd h hnot, Or.inr ⟨hnot, Or.inl hfour, by rw [hfour]⟩⟩
    · rw [if_neg hfour]
      by_cases height : l.length = 8
      · rw [if_pos height]
        unfold encodeUint64
        by_cases hsize : size < 12
        · rw [if_pos hsize]
          exact .fail
        · rw [if_neg hsize, checked_bind_ok]
          refine .ok ⟨_, rfl, ?_⟩
          rintro v ⟨⟩
          refine ⟨by simp; omega, fun hproper => Or.inr ⟨l, rfl, ?_⟩⟩
          have hnot : args.type ≠ .tboolean := fun htype => hfour (hbool rfl rfl hproper htype).1
          exact ⟨fun h => absurd h hnot, Or.inr ⟨hnot, Or.inr height, by rw [height]⟩⟩
      · rw [if_neg height]
        exact .fail

/-! ## sproto_encode -/

/-- What is written for a field, and the calls for it. -/
def FieldWritten (f : Field) (v : FieldBytes) (calls : List Heard) : Prop :=
  if f.array then v.1 = 0 ∧ ArrayWritten f.args v.2 calls
  else
    match f.type with
    | .tinteger | .tboolean => NumberWritten f.args v calls
    | _ => v.1 = 0 ∧ ObjectWritten f.args v.2 calls

theorem encodeValue_yields (hcb : Respects cb) (f : Field) (hpos : 0 ≤ size) (s : σ) (log : List Answer) :
    Yields (fun r => ∃ new, r.2.2 = log ++ new ∧ ∀ v, r.1 = some v → v.2.length ≤ size ∧
        (Proper new → FieldWritten f v (heard new)))
      (encodeValue (logged cb) f size (s, log)) := by
  unfold encodeValue FieldWritten
  by_cases harray : f.array
  · simp only [if_pos harray]
    refine (encodeArray_yields hcb f.args hpos s log).bind fun r _ hr => .ok ?_
    obtain ⟨hlen, new, hnew, hwritten⟩ := hr
    refine ⟨new, hnew, ?_⟩
    rintro v ⟨⟩
    exact ⟨hlen, fun hproper => ⟨rfl, hwritten hproper⟩⟩
  · simp only [if_neg harray]
    have hobject := encodeObject_yields hcb f.args hpos s log
    cases f.type with
    | tinteger | tboolean => exact encodeNumber_yields hcb f.args hpos s log
    | _ =>
      refine hobject.bind fun r _ hr => .ok ?_
      obtain ⟨hlen, new, hnew, hwritten⟩ := hr
      refine ⟨new, hnew, ?_⟩
      rintro v ⟨⟩
      exact ⟨hlen, fun _ => ⟨rfl, hwritten⟩⟩

/-- The records and the data of fields, when `last` is the last tag in front of them. -/
inductive FieldsWritten : List Field → ℤ → List ℕ → List UInt8 → List Heard → Prop
  | nil {last : ℤ} : FieldsWritten [] last [] [] []
  | absent {f : Field} {fs : List Field} {last : ℤ} {rs : List ℕ} {ds : List UInt8} {calls : List Heard} :
    FieldsWritten fs last rs ds calls → FieldsWritten (f :: fs) last rs ds calls
  | field {f : Field} {fs : List Field} {last : ℤ} {v : FieldBytes} {rs : List ℕ} {ds : List UInt8}
    {calls calls' : List Heard} : v ≠ (0, []) → (f.tag - last - 2) * 2 + 1 ≤ 0xffff →
    FieldWritten f v calls → FieldsWritten fs f.tag rs ds calls' →
    FieldsWritten (f :: fs) last (skipWord (f.tag - last - 1) ++ v.1 :: rs) (v.2 ++ ds) (calls ++ calls')

/-- No call is made for a field that is not written. -/
theorem FieldWritten.absent {calls : List Heard} (h : FieldWritten f (0, []) calls) : calls = [] := by
  have hne : ∀ c : List UInt8, [] ≠ fillSize c := fun c => (fillSize_ne_nil c).symm
  unfold FieldWritten at h
  by_cases harray : f.array
  · rw [if_pos harray] at h
    rcases h.2 with ⟨-, hcalls⟩ | ⟨ls, c, hc, -⟩
    · exact hcalls
    · exact absurd hc (hne c)
  · rw [if_neg harray] at h
    have hobject : ObjectWritten f.args [] calls → calls = [] := by
      rintro (⟨-, hcalls⟩ | ⟨l, hl, -⟩)
      · exact hcalls
      · exact absurd hl (hne l)
    have hnumber : NumberWritten f.args (0, []) calls → calls = [] := by
      rintro (⟨-, hcalls⟩ | ⟨l, -, -, ⟨-, -, hv⟩ | ⟨-, -, hv⟩⟩)
      · exact hcalls
      · simp at hv
      · exact absurd (Prod.mk.inj hv).2 (hne _)
    cases htype : f.type with
    | tinteger | tboolean =>
      rw [htype] at h
      exact hnumber h
    | _ =>
      rw [htype] at h
      exact hobject h.2

/-- The variables in front of the fields `fs` leave room for their records. -/
def EncodeState.Room (e : EncodeState) (maxn : ℕ) (fs : List Field) : Prop :=
  0 ≤ e.size ∧ e.records.length + (fs.length + gaps e.lasttag fs) ≤ maxn

theorem length_skipWord (tag : ℤ) : (skipWord tag).length = if tag > 0 then 1 else 0 := by
  unfold skipWord
  split_ifs <;> rfl

theorem EncodeState.Room.absent {e : EncodeState} {maxn : ℕ} {fs : List Field}
    (h : e.Room maxn (f :: fs)) : e.Room maxn fs := by
  obtain ⟨hsize, hroom⟩ := h
  have := gaps_le_add_one e.lasttag f.tag fs
  simp only [List.length_cons, gaps] at hroom
  exact ⟨hsize, by omega⟩

theorem addRecord_yields {maxn : ℕ} {fs : List Field} {v : FieldBytes} {e : EncodeState}
    (hroom : e.Room maxn (f :: fs)) (hv : v ≠ (0, [])) (hlen : v.2.length ≤ e.size) :
    Yields (fun e' => ((f.tag : ℤ) - e.lasttag - 2) * 2 + 1 ≤ 0xffff ∧ e'.Room maxn fs ∧
        e' = { lasttag := f.tag, size := e.size - v.2.length,
               records := e.records ++ skipWord (f.tag - e.lasttag - 1) ++ [v.1], data := e.data ++ v.2 })
      (addRecord maxn f v e) := by
  obtain ⟨hsize, hroom⟩ := hroom
  simp only [List.length_cons, gaps] at hroom
  unfold addRecord
  rw [if_neg hv]
  by_cases hskip : f.tag - e.lasttag - 1 > 0 ∧ (f.tag - e.lasttag - 2) * 2 + 1 > 0xffff
  · rw [if_pos hskip]
    exact .fail
  · rw [if_neg hskip]
    have hrecords : (e.records ++ skipWord (f.tag - e.lasttag - 1) ++ [v.1]).length =
        e.records.length + (if (f.tag : ℤ) > e.lasttag + 1 then 1 else 0) + 1 := by
      rw [List.length_append, List.length_append, length_skipWord, List.length_singleton]
      congr 3
      simp only [gt_iff_lt, eq_iff_iff]
      omega
    have hfits : ¬ (e.records ++ skipWord (f.tag - e.lasttag - 1) ++ [v.1]).length > maxn := by
      rw [hrecords]
      omega
    simp only [if_neg hfits]
    refine .ok ⟨by omega, ⟨?_, ?_⟩, rfl⟩
    · show 0 ≤ e.size - v.2.length
      omega
    · show (e.records ++ skipWord (f.tag - e.lasttag - 1) ++ [v.1]).length +
        (fs.length + gaps f.tag fs) ≤ maxn
      rw [hrecords]
      omega

/-- What the loop adds to its variables. -/
def FieldsAdded (fs : List Field) (e e' : EncodeState) (maxn : ℕ) (new : List Answer) : Prop :=
  0 ≤ e'.size ∧ e'.records.length ≤ maxn ∧ e'.size + e'.data.length = e.size + e.data.length ∧
    (Proper new → ∃ rs ds, e'.records = e.records ++ rs ∧ e'.data = e.data ++ ds ∧
      FieldsWritten fs e.lasttag rs ds (heard new))

theorem encodeFields_yields (hcb : Respects cb) {maxn : ℕ} {fs : List Field} {e : EncodeState}
    (hroom : e.Room maxn fs) (s : σ) (log : List Answer) :
    Yields (fun r => ∃ new, r.2.2 = log ++ new ∧ ∀ e', r.1 = some e' → FieldsAdded fs e e' maxn new)
      (encodeFields maxn (logged cb) fs e (s, log)) := by
  induction fs generalizing e s log with
  | nil =>
    refine .ok ⟨[], by simp, ?_⟩
    rintro e' ⟨⟩
    have hrecords := hroom.2
    refine ⟨hroom.1, by omega, rfl, fun _ => ⟨[], [], by simp, by simp, .nil⟩⟩
  | cons f fs ih =>
    rw [encodeFields]
    refine (encodeValue_yields hcb f hroom.1 s log).bind fun r _ hr => ?_
    obtain ⟨v, s', log'⟩ := r
    obtain ⟨new, hnew, hr⟩ := hr
    obtain rfl : log' = log ++ new := hnew
    cases v with
    | none =>
      refine .ok ⟨new, rfl, ?_⟩
      rintro e' ⟨⟩
    | some v =>
      obtain ⟨hlen, hwritten⟩ := hr v rfl
      show Yields _ (addRecord maxn f v e >>= fun e => encodeFields maxn (logged cb) fs e (s', log ++ new))
      by_cases hv : v = (0, [])
      · subst hv
        rw [addRecord, if_pos rfl, checked_bind_ok]
        refine (ih hroom.absent s' _).mono fun r hr => ?_
        obtain ⟨new', hnew', hr⟩ := hr
        refine ⟨new ++ new', by rw [hnew', List.append_assoc], fun e' he' => ?_⟩
        obtain ⟨hpos, hrecords, hsum, hadded⟩ := hr e' he'
        refine ⟨hpos, hrecords, hsum, fun hproper => ?_⟩
        obtain ⟨hproper, hproper'⟩ := proper_append.mp hproper
        obtain ⟨rs, ds, hrs, hds, hfields⟩ := hadded hproper'
        refine ⟨rs, ds, hrs, hds, ?_⟩
        rw [heard_append, (hwritten hproper).absent, List.nil_append]
        exact .absent hfields
      · refine (addRecord_yields hroom hv hlen).bind fun e₁ _ he₁ => ?_
        obtain ⟨hskip, hroom₁, rfl⟩ := he₁
        refine (ih hroom₁ s' _).mono fun r hr => ?_
        obtain ⟨new', hnew', hr⟩ := hr
        refine ⟨new ++ new', by rw [hnew', List.append_assoc], fun e' he' => ?_⟩
        obtain ⟨hpos, hrecords, hsum, hadded⟩ := hr e' he'
        refine ⟨hpos, hrecords, ?_, fun hproper => ?_⟩
        · rw [hsum]
          simp only [List.length_append]
          omega
        · obtain ⟨hproper, hproper'⟩ := proper_append.mp hproper
          obtain ⟨rs, ds, hrs, hds, hfields⟩ := hadded hproper'
          refine ⟨skipWord (f.tag - e.lasttag - 1) ++ v.1 :: rs, v.2 ++ ds, by simp [hrs], by simp [hds], ?_⟩
          rw [heard_append]
          exact .field hv hskip (hwritten hproper) hfields

theorem length_words (ws : List ℕ) : (ws.flatMap (leBytes 2)).length = ws.length * 2 := by
  induction ws with
  | nil => rfl
  | cons w ws ih =>
    rw [List.flatMap_cons, List.length_append, ih, length_leBytes, List.length_cons]
    ring

/-- `sproto_encode` stays inside of its buffer, and writes the records and the data of the fields. -/
theorem sprotoEncode_yields {st : SprotoType} (hst : st.Indexed) (hcb : Respects cb) (size : ℕ) (s : σ) :
    Yields (fun r => r.1.length ≤ size ∧ (r.1 ≠ [] → Proper r.2.2 → ∃ rs ds, rs.length < 2 ^ 16 ∧
        r.1 = leBytes 2 rs.length ++ rs.flatMap (leBytes 2) ++ ds ∧
        FieldsWritten st.f (-1) rs ds (heard r.2.2)))
      (sprotoEncode st size (logged cb) (s, [])) := by
  unfold sprotoEncode
  by_cases hsize : size < 2 + st.maxn * 2
  · rw [if_pos hsize]
    exact .fail
  · rw [if_neg hsize]
    have hroom : EncodeState.Room
        { lasttag := -1, size := size - (2 + st.maxn * 2 : ℕ), records := [], data := [] } st.maxn st.f := by
      have hmaxn := hst.maxn
      refine ⟨?_, ?_⟩
      · show (0 : ℤ) ≤ size - (2 + st.maxn * 2 : ℕ)
        omega
      · show 0 + (st.f.length + gaps (-1) st.f) ≤ st.maxn
        omega
    refine (encodeFields_yields hcb hroom s []).bind fun r _ hr => ?_
    obtain ⟨e, s', log'⟩ := r
    obtain ⟨new, hnew, hr⟩ := hr
    obtain rfl : log' = new := hnew
    cases e with
    | none => exact .ok ⟨Nat.zero_le size, fun hne => absurd rfl hne⟩
    | some e =>
      obtain ⟨hpos, hrecords, hsum, hadded⟩ := hr e rfl
      have hsmall := hst.small
      refine .ok ⟨?_, fun _ hproper => ?_⟩
      · show e.message.length ≤ size
        unfold EncodeState.message
        simp only [List.length_append, length_leBytes, length_words, List.length_nil] at hsum ⊢
        omega
      · obtain ⟨rs, ds, hrs, hds, hfields⟩ := hadded hproper
        simp only [List.nil_append] at hrs hds
        refine ⟨rs, ds, ?_, by simp [EncodeState.message, hrs, hds], hfields⟩
        rw [← hrs]
        omega

end

end SkynetEureka.Sproto
