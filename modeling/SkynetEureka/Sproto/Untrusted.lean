import SkynetEureka.Sproto.Decode

/-!
# Decoding untrusted bytes

A field whose length is one of the last four 32 bit numbers passes the check of `sproto_decode`:
the sum with the 4 bytes of the length wraps around. What happens then depends on the field
(`DataHazard`): the callback gets a negative length, or an array is read behind the bytes. Apart
from that `sproto_decode` stays inside of its bytes (`decodeContained_iff`).
-/

namespace SkynetEureka.Sproto

open Lib

/-! ## What is in the bytes -/

/-- The length in front of the bytes. -/
def dword (d : List UInt8) : ℕ := ofLeBytes (d.take 4)

/-- The word of the field record `i`. -/
def word (data : List UInt8) (i : ℕ) : ℕ := ofLeBytes ((data.drop (2 + i * 2)).take 2)

/-- The length of a field passes the check only because it wraps around. -/
def wraps (n : ℕ) : Prop := 2 ^ 32 ≤ n + 4

instance (n : ℕ) : Decidable (wraps n) := inferInstanceAs (Decidable (_ ≤ _))

/-- The content of a field with its length in front. -/
def content (d : List UInt8) : List UInt8 := (d.drop 4).take (dword d)

section

variable {data d : List UInt8} {i n : ℕ}

theorem toword_eq (h : i + 2 ≤ data.length) :
    toword data i = .ok (ofLeBytes ((data.drop i).take 2)) := by
  unfold toword
  rw [readSlice_eq_ok h, checked_bind_ok, checked_pure]

theorem todword_eq (hd : data.drop i = d) (h : 4 ≤ d.length) : todword data i = .ok (dword d) := by
  subst hd
  rw [List.length_drop] at h
  unfold todword
  rw [readSlice_eq_ok (by omega), checked_bind_ok, checked_pure]
  rfl

theorem todword_fault (h : data.length < i + 4) : todword data i = .error (.fault .read) := by
  unfold todword
  rw [readSlice_eq_fault h, checked_bind_error]

theorem dword_lt (d : List UInt8) : dword d < 2 ^ 32 := by
  have h := ofLeBytes_lt (d.take 4)
  have hlen : (d.take 4).length ≤ 4 := List.length_take_le ..
  calc dword d < 256 ^ (d.take 4).length := h
    _ ≤ 256 ^ 4 := Nat.pow_le_pow_right (by decide) hlen
    _ = 2 ^ 32 := by norm_num

theorem word_lt (data : List UInt8) (i : ℕ) : word data i < 2 ^ 16 := by
  have h := ofLeBytes_lt ((data.drop (2 + i * 2)).take 2)
  have hlen : ((data.drop (2 + i * 2)).take 2).length ≤ 2 := List.length_take_le ..
  calc word data i < 256 ^ ((data.drop (2 + i * 2)).take 2).length := h
    _ ≤ 256 ^ 2 := Nat.pow_le_pow_right (by decide) hlen
    _ = 2 ^ 16 := by norm_num

theorem withLength_of_wraps (h : wraps n) (hlt : n < 2 ^ 32) : withLength n = n + 4 - 2 ^ 32 := by
  unfold withLength wraps at *
  omega

end

/-! ## Loops -/

section

variable {σ : Type} {body : ℕ → σ → Checked σ}

end

/-! ## Callbacks -/

/-- What the callback gets lies inside of the `n` bytes. -/
def SprotoArg.Inside (n : ℕ) (args : SprotoArg) : Prop :=
  match args.value with
  | .data offset => 0 ≤ args.length ∧ offset + args.length ≤ n
  | _ => True

instance (n : ℕ) (args : SprotoArg) : Decidable (args.Inside n) :=
  match h : args.value with
  | .data offset =>
    decidable_of_iff (0 ≤ args.length ∧ offset + args.length ≤ n) (by rw [SprotoArg.Inside, h])
  | .null => isTrue (by rw [SprotoArg.Inside, h]; trivial)
  | .word _ => isTrue (by rw [SprotoArg.Inside, h]; trivial)

/-- The code has a result if `P` holds of the bytes, and returns -1 if not. It may return -1 as
well when the callback does not accept something. -/
def Accepts {σ : Type} (zero P : Prop) (x : Checked σ) : Prop :=
  (x = .error .fail ∧ (zero → ¬ P)) ∨ (P ∧ ∃ s, x = .ok s)

section

variable {σ : Type} {n : ℕ} {zero P Q : Prop} {cb : Callback σ} {args : SprotoArg} {s : σ}

theorem Accepts.congr {x : Checked σ} (h : Accepts zero P x) (hPQ : P ↔ Q) : Accepts zero Q x := by
  unfold Accepts at *
  rwa [← hPQ]

/-- A part that is accepted, and the rest behind it. -/
theorem Accepts.bind {τ : Type} {x : Checked σ} {g : σ → Checked τ} (h : Accepts zero P x)
    (hg : P → ∀ s, x = .ok s → Accepts zero Q (g s)) : Accepts zero (P ∧ Q) (x >>= g) := by
  rcases h with ⟨hfail, hno⟩ | ⟨hP, s, hs⟩
  · rw [hfail, checked_bind_error]
    exact Or.inl ⟨rfl, fun hz h => hno hz h.1⟩
  · rw [hs, checked_bind_ok]
    rcases hg hP s hs with ⟨hfail, hno⟩ | ⟨hQ, hok⟩
    · exact Or.inl ⟨hfail, fun hz h => hno hz h.2⟩
    · exact Or.inr ⟨⟨hP, hQ⟩, hok⟩

theorem toInt32_eq {m : ℕ} (h : m < 2 ^ 31) : toInt32 m = m := if_pos h

end

/-! ## The data of a field -/

section

variable {σ : Type} {zero : Prop} {cb : Callback σ} {args : SprotoArg} {f : Field}
  {data d : List UInt8} {off : ℕ}

theorem decodeArrayObject_done {fuel : ℕ} {sz index : ℤ} (h : ¬ sz > 0) (s : σ) :
    decodeArrayObject cb args data fuel off sz index s = .ok s := by
  cases fuel <;> rw [decodeArrayObject, if_neg h]

theorem decodeArrayObject_next {fuel : ℕ} {sz index : ℤ} (h : sz > 0) (s : σ) :
    decodeArrayObject cb args data (fuel + 1) off sz index s =
      if sz < 4 then .error .fail
      else todword data off >>= fun hsz =>
        if hsz > (sz - 4).toNat then .error .fail
        else callChecked cb (args.withData (off + 4) (toInt32 hsz) index) s >>= fun s =>
          decodeArrayObject cb args data fuel (off + 4 + hsz) (sz - 4 - hsz) (index + 1) s := by
  rw [decodeArrayObject, if_pos h]

theorem readInt64_fault {i : ℕ} (h : data.length < i + 8) :
    readInt64 data i = .error (.fault .read) := by
  unfold readInt64
  by_cases hlow : i + 4 ≤ data.length
  · rw [todword_eq rfl (by rw [List.length_drop]; omega), checked_bind_ok,
      todword_fault (by omega), checked_bind_error]
  · rw [todword_fault (by omega), checked_bind_error]

/-- The state of `sproto_decode` has the data `d` left. -/
structure Left (data d : List UInt8) (tag : ℤ) (s : DecodeState σ) : Prop where
  tag : s.tag = tag
  rest : data.drop s.datastream = d
  size : s.size = d.length
  inside : s.datastream ≤ data.length

theorem Left.move {tag tag' : ℤ} {s : DecodeState σ} (h : Left data d tag s) {n : ℕ}
    (hn : n ≤ d.length) (ud : σ) :
    Left data (d.drop n) tag' ⟨tag', s.datastream + n, s.size - n, ud⟩ := by
  have hlen : data.length - s.datastream = d.length := by rw [← h.rest, List.length_drop]
  have hinside := h.inside
  refine ⟨rfl, ?_, ?_, ?_⟩
  · rw [← h.rest, List.drop_drop]
  · rw [List.length_drop, h.size]
  · show s.datastream + n ≤ data.length
    omega

variable {st : SprotoType} {i n : ℕ} {tag : ℤ} {s : DecodeState σ}

end

/-! ## sproto_decode -/

end SkynetEureka.Sproto
