import SkynetEureka.Lib.Blocks
import SkynetEureka.Crypt.DesTheorems
import SkynetEureka.Crypt.Text

/-!
# Texts that are encrypted and decrypted

The loops run over the blocks of the text as long as the `int` does not overflow. The padding is
found again from the end.
-/

namespace SkynetEureka.Crypt

open Lib

variable {sks : List (Word × Word)} {key text buffer out : List UInt8} {bound : ℤ}
  {fresh : ℕ → UInt8} {i k n low padding : ℕ}

/-! ## The loop over the blocks -/

theorem toInt_of_lt (h : n < 2 ^ 31) : toInt n = n := by
  unfold toInt
  exact Int.bmod_eq_of_le (by omega) (by omega)

theorem cryptLoop_short (h : text.length < 8) :
    cryptLoop sks bound i text = if (i : ℤ) < bound then .error .fault else .ok [] := by
  unfold cryptLoop
  split
  · simp at h
    omega
  · rfl

theorem cryptLoop_append {s : List UInt8} (hs : s.length = 8) :
    cryptLoop sks bound i (s ++ text) =
      if (i : ℤ) < bound then
        if 2 ^ 31 ≤ i + 8 then .error .fault
        else do
          let written ← cryptLoop sks bound (i + 8) text
          .ok (desCrypt sks s ++ written)
      else .ok [] := by
  obtain ⟨b₀, b₁, b₂, b₃, b₄, b₅, b₆, b₇, rfl⟩ := eight hs
  rfl

/-- The loop writes the blocks when its end is in the last whole one of them. -/
theorem cryptLoop_eq (hlow : i + text.length / 8 * 8 < bound + 8)
    (hhigh : bound ≤ i + text.length / 8 * 8) (hlt : i + text.length < 2 ^ 31) :
    cryptLoop sks bound i text = .ok (mapBlocks 8 (desCrypt sks) text) := by
  induction text using block_induction (show 0 < 8 by decide) generalizing i with
  | short text hshort =>
    rw [cryptLoop_short hshort, mapBlocks_short hshort, if_neg (by omega)]
  | more s text hs ih =>
    rw [List.length_append, hs] at hlow hhigh hlt
    rw [cryptLoop_append hs, if_pos (by omega), if_neg (by omega),
      ih (by push_cast; omega) (by push_cast; omega) (by omega),
      mapBlocks_append (by decide) hs]
    rfl

/-- The `int` overflows when the text is longer. -/
theorem cryptLoop_fault (hdvd : 8 ∣ text.length) (hi : 8 ∣ i) (hlt : i < 2 ^ 31)
    (hge : 2 ^ 31 ≤ i + text.length) (hbound : bound = i + text.length) :
    cryptLoop sks bound i text = .error .fault := by
  induction text using block_induction (show 0 < 8 by decide) generalizing i with
  | short text hshort => omega
  | more s text hs ih =>
    rw [List.length_append, hs] at hdvd hge hbound
    rw [cryptLoop_append hs, if_pos (by omega)]
    rcases Nat.lt_or_ge (i + 8) (2 ^ 31) with hnext | hover
    · rw [if_neg (by omega), ih (by omega) (by omega) hnext (by omega) (by push_cast; omega)]
      rfl
    · rw [if_pos hover]

/-! ## Padding -/

/-- What is left behind the whole blocks, with the padding -/
def lastBlock (text : List UInt8) : List UInt8 :=
  text.drop (text.length / 8 * 8) ++ 0x80 :: List.replicate (7 - text.length % 8) 0

theorem length_rest : (text.drop (text.length / 8 * 8)).length = text.length % 8 := by
  rw [List.length_drop]
  omega

theorem length_lastBlock : (lastBlock text).length = 8 := by
  unfold lastBlock
  rw [List.length_append, List.length_cons, List.length_replicate, length_rest]
  omega

/-- The part of `ldesdecode` after the loop -/
def unpad (buffer : List UInt8) : Except Stop (List UInt8) := do
  let padding ← scan buffer (buffer.length - 8) buffer.length 1
  if 8 < padding then .error (.error "Invalid des crypt text")
  .ok (buffer.take (buffer.length - padding))

theorem scan_succ : scan buffer low (i + 1) padding =
    if low ≤ i then
      match buffer[i]? with
      | none => .error .fault
      | some b =>
        if b = 0 then scan buffer low i (padding + 1)
        else if b = 0x80 then .ok padding
        else .error (.error "Invalid des crypt text")
    else .ok padding := rfl

/-- The scan goes over zeros. -/
theorem scan_zeros (hlow : low ≤ i) (hzero : ∀ j < k, buffer[i + j]? = some 0) :
    scan buffer low (i + k) padding = scan buffer low i (padding + k) := by
  induction k generalizing padding with
  | zero => rfl
  | succ k ih =>
    show scan buffer low (i + k + 1) padding = _
    rw [scan_succ, if_pos (by omega), hzero k (by omega)]
    dsimp only
    rw [if_pos rfl, ih (fun j hj => hzero j (by omega)), Nat.add_right_comm, Nat.add_assoc]

/-- From the end, a list is zeros or it has a last byte before the zeros. -/
theorem zeros_or (l : List UInt8) :
    l = List.replicate l.length 0 ∨ ∃ out b k, b ≠ 0 ∧ l = out ++ b :: List.replicate k 0 := by
  induction l using List.reverseRecOn with
  | nil => exact Or.inl rfl
  | append_singleton l c ih =>
    by_cases hc : c = 0
    · subst hc
      rcases ih with hzeros | ⟨out, b, k, hb, hl⟩
      · left
        rw [List.length_append, hzeros, List.length_replicate]
        exact (List.replicate_succ' ..).symm
      · right
        refine ⟨out, b, k + 1, hb, ?_⟩
        rw [hl, List.append_assoc, List.cons_append, ← List.replicate_succ']
    · exact Or.inr ⟨l, c, 0, hc, rfl⟩

/-- The last byte before few zeros decides. -/
theorem unpad_few {b : UInt8} (hb : b ≠ 0) (hk : k < 8) :
    unpad (out ++ b :: List.replicate k 0) =
      if b = 0x80 then .ok out else .error (.error "Invalid des crypt text") := by
  have hlen : (out ++ b :: List.replicate k 0).length = out.length + 1 + k := by
    rw [List.length_append, List.length_cons, List.length_replicate]
    omega
  have hscan : scan (out ++ b :: List.replicate k 0) (out.length + 1 + k - 8)
      (out.length + 1 + k) 1 =
        if b = 0x80 then .ok (1 + k) else .error (.error "Invalid des crypt text") := by
    rw [scan_zeros (by omega)]
    · rw [scan_succ, if_pos (by omega), List.getElem?_append_right (by omega), Nat.sub_self]
      dsimp only [List.getElem?_cons_zero]
      rw [if_neg hb]
    · intro j hj
      rw [List.getElem?_append_right (by omega)]
      have hsub : out.length + 1 + j - out.length = j + 1 := by omega
      rw [hsub, List.getElem?_cons_succ, List.getElem?_replicate, if_pos hj]
  unfold unpad
  rw [hlen, hscan]
  by_cases h80 : b = 0x80
  · rw [if_pos h80, if_pos h80]
    show (if 8 < 1 + k then _ else _) = _
    rw [if_neg (by omega)]
    show Except.ok _ = _
    have hsub : out.length + 1 + k - (1 + k) = out.length := by omega
    rw [hsub, List.take_left]
  · rw [if_neg h80, if_neg h80]
    rfl

/-- Eight zeros at the end are refused behind other bytes. -/
theorem unpad_many (hn : 0 < out.length) :
    unpad (out ++ List.replicate 8 0) = .error (.error "Invalid des crypt text") := by
  have hlen : (out ++ List.replicate 8 (0 : UInt8)).length = out.length + 8 := by
    rw [List.length_append, List.length_replicate]
  have hscan : scan (out ++ List.replicate 8 0) out.length (out.length + 8) 1 = .ok 9 := by
    rw [scan_zeros (Nat.le_refl _)]
    · obtain ⟨m, hm⟩ : ∃ m, out.length = m + 1 := ⟨out.length - 1, by omega⟩
      rw [hm, scan_succ, if_neg (by omega)]
    · intro j hj
      rw [List.getElem?_append_right (by omega), Nat.add_sub_cancel_left, List.getElem?_replicate,
        if_pos hj]
  unfold unpad
  rw [hlen, Nat.add_sub_cancel, hscan]
  rfl

/-- One block of zeros: the scan does not stop at its first byte. -/
theorem unpad_zeros : unpad (List.replicate 8 0) = .error .fault := rfl

theorem replicate_split (h : 8 ≤ k) :
    List.replicate k (0 : UInt8) = List.replicate (k - 8) 0 ++ List.replicate 8 0 := by
  rw [List.replicate_append_replicate, Nat.sub_add_cancel h]

/-- What `unpad` gives, of whole blocks that are not one block of zeros -/
theorem unpad_cases (hdvd : 8 ∣ buffer.length) (hpos : 0 < buffer.length)
    (hne : buffer ≠ List.replicate 8 0) :
    (∃ out, ∃ k < 8, buffer = out ++ 0x80 :: List.replicate k 0 ∧ unpad buffer = .ok out) ∨
      unpad buffer = .error (.error "Invalid des crypt text") := by
  rcases zeros_or buffer with hzeros | ⟨out, b, k, hb, rfl⟩
  · have hlen : buffer.length ≠ 8 := by
      intro h8
      rw [h8] at hzeros
      exact hne hzeros
    right
    rw [hzeros, replicate_split (Nat.le_of_dvd hpos hdvd)]
    apply unpad_many
    rw [List.length_replicate]
    omega
  · rcases Nat.lt_or_ge k 8 with hk | hk
    · by_cases h80 : b = 0x80
      · subst h80
        exact Or.inl ⟨out, k, hk, rfl, by rw [unpad_few hb hk, if_pos rfl]⟩
      · right
        rw [unpad_few hb hk, if_neg h80]
    · right
      have hsplit : out ++ b :: List.replicate k 0 =
          (out ++ b :: List.replicate (k - 8) 0) ++ List.replicate 8 0 := by
        rw [replicate_split hk, List.append_assoc, List.cons_append]
      rw [hsplit]
      apply unpad_many
      rw [List.length_append, List.length_cons]
      omega

/-! ## Encryption -/

theorem ok_bind {α β : Type} (a : α) (f : α → Except Stop β) : (.ok a >>= f) = f a := rfl


theorem mapM_range {f : ℕ → Except Stop UInt8} {l : List UInt8} (hlen : l.length = n)
    (h : ∀ j b, l[j]? = some b → f j = .ok b) : (List.range n).mapM f = .ok l := by
  subst hlen
  induction l using List.reverseRecOn with
  | nil => rfl
  | append_singleton l c ih =>
    have hfront : (List.range l.length).mapM f = .ok l := by
      apply ih
      intro j b hj
      apply h
      rw [List.getElem?_append_left (List.getElem?_eq_some_iff.mp hj).1]
      exact hj
    have hlast : f l.length = .ok c := by
      apply h
      rw [List.getElem?_append_right (Nat.le_refl _), Nat.sub_self]
      rfl
    rw [List.length_append, List.length_singleton, List.range_succ, List.mapM_append, hfront,
      List.mapM_cons, hlast]
    rfl

/-- The tail of the text and its padding are one block. -/
theorem tail_eq :
    (List.range 8).mapM (tailByte text (text.length / 8 * 8)
        (toInt (text.length - text.length / 8 * 8))) = .ok (lastBlock text) := by
  have hrest : (text.drop (text.length / 8 * 8)).length = text.length % 8 := length_rest
  apply mapM_range length_lastBlock
  intro j b hj
  unfold lastBlock at hj
  unfold tailByte
  rw [toInt_of_lt (by omega)]
  rcases Nat.lt_or_ge j (text.length % 8) with hin | hout
  · rw [List.getElem?_append_left (by omega), List.getElem?_drop] at hj
    rw [if_pos (by omega), hj]
  · rw [List.getElem?_append_right (by omega), hrest] at hj
    rw [if_neg (by omega)]
    rcases Nat.eq_or_lt_of_le hout with heq | hgt
    · rw [← heq, Nat.sub_self, List.getElem?_cons_zero, Option.some.injEq] at hj
      rw [if_pos (by omega), hj]
    · obtain ⟨m, hm⟩ : ∃ m, j - text.length % 8 = m + 1 := ⟨j - text.length % 8 - 1, by omega⟩
      rw [hm, List.getElem?_cons_succ, List.getElem?_replicate] at hj
      split at hj
      · rw [Option.some.injEq] at hj
        rw [if_neg (by omega), hj]
      · simp at hj

/-- The blocks of the text, each one decrypted -/
def decrypted (key text : List UInt8) : List UInt8 :=
  mapBlocks 8 (desCrypt (desMainKs key).reverse) text

theorem length_decrypted (hdvd : 8 ∣ text.length) :
    (decrypted key text).length = text.length := by
  unfold decrypted
  rw [length_mapBlocks (by decide) (fun _ hs => length_desCrypt hs)]
  omega

theorem even_desMainKs (hkey : key.length = 8) : Even (desMainKs key).length := by
  rw [length_desMainKs hkey]
  decide

theorem decrypted_encrypted (hkey : key.length = 8) (hdvd : 8 ∣ text.length) :
    decrypted key (mapBlocks 8 (desCrypt (desMainKs key)) text) = text :=
  mapBlocks_mapBlocks (by decide) (fun _ hs => length_desCrypt hs)
    (fun _ hs => desCrypt_reverse (even_desMainKs hkey) hs) hdvd

/-- What is decrypted is encrypted again, too. -/
theorem encrypted_decrypted (hkey : key.length = 8) (hdvd : 8 ∣ text.length) :
    mapBlocks 8 (desCrypt (desMainKs key)) (decrypted key text) = text := by
  apply mapBlocks_mapBlocks (by decide) (fun _ hs => length_desCrypt hs) _ hdvd
  intro s hs
  have heven : Even (desMainKs key).reverse.length := by
    rw [List.length_reverse]
    exact even_desMainKs hkey
  have hback := desCrypt_reverse heven hs
  rw [List.reverse_reverse] at hback
  exact hback

theorem ldesdecode_eq (hkey : key.length = 8) (hdvd : 8 ∣ text.length) (hpos : 0 < text.length)
    (hlt : text.length < 2 ^ 31) : ldesdecode key text = unpad (decrypted key text) := by
  unfold ldesdecode desKey
  rw [if_neg (by omega)]
  show (if text.length % 8 ≠ 0 ∨ text.length = 0 then _ else _) = _
  rw [if_neg (by omega)]
  show (cryptLoop _ _ 0 text >>= _) = _
  rw [cryptLoop_eq (by push_cast; omega) (by push_cast; omega) (by omega)]
  unfold unpad
  rw [length_decrypted hdvd]
  rfl

theorem ldesdecode_fault (hkey : key.length = 8) (hdvd : 8 ∣ text.length)
    (hge : 2 ^ 31 ≤ text.length) : ldesdecode key text = .error .fault := by
  unfold ldesdecode desKey
  rw [if_neg (by omega)]
  show (if text.length % 8 ≠ 0 ∨ text.length = 0 then _ else _) = _
  rw [if_neg (by omega)]
  show (cryptLoop _ _ 0 text >>= _) = _
  rw [cryptLoop_fault hdvd (by decide) (by decide) (by omega) (by push_cast; omega)]
  rfl

/-- Nothing outside the buffer is read, and a text is returned just if the last block ends in the
padding. -/
def DecodesSafely (key text : List UInt8) : Prop :=
  ldesdecode key text ≠ .error .fault ∧
    ∀ out, ldesdecode key text = .ok out ↔
      key.length = 8 ∧ ∃ k < 8, decrypted key text = out ++ 0x80 :: List.replicate k 0

/-- A key of another length is refused. -/
theorem decodesSafely_of_key (hkey : key.length ≠ 8) : DecodesSafely key text := by
  have hraises : ∃ message, ldesdecode key text = .error (.error message) := by
    unfold ldesdecode desKey
    rw [if_pos hkey]
    exact ⟨_, rfl⟩
  obtain ⟨message, hmessage⟩ := hraises
  unfold DecodesSafely
  rw [hmessage]
  constructor
  · intro h
    cases h
  · intro out
    constructor
    · intro h
      cases h
    · rintro ⟨h, -⟩
      exact absurd h hkey

theorem decodesSafely_of_ne (hkey : key.length = 8) (hdvd : 8 ∣ text.length)
    (hpos : 0 < text.length) (hlt : text.length < 2 ^ 31)
    (hne : decrypted key text ≠ List.replicate 8 0) : DecodesSafely key text := by
  have hlen : (decrypted key text).length = text.length := length_decrypted hdvd
  have hcases := unpad_cases (by omega) (by omega) hne
  unfold DecodesSafely
  rw [ldesdecode_eq hkey hdvd hpos hlt]
  constructor
  · rcases hcases with ⟨out, k, hk, hbuffer, hunpad⟩ | hunpad
    · rw [hunpad]
      intro h
      cases h
    · rw [hunpad]
      intro h
      cases h
  · intro out
    constructor
    · intro hout
      rcases hcases with ⟨out', k, hk, hbuffer, hunpad⟩ | hunpad
      · rw [hunpad, Except.ok.injEq] at hout
        rw [← hout]
        exact ⟨hkey, k, hk, hbuffer⟩
      · rw [hunpad] at hout
        cases hout
    · rintro ⟨-, k, hk, hbuffer⟩
      rw [hbuffer, unpad_few (by decide) hk, if_pos rfl]

/-- The ciphertext of one block of zeros -/
theorem not_decodesSafely_zeros (hkey : key.length = 8)
    (htext : text = desCrypt (desMainKs key) (List.replicate 8 0)) :
    ¬ DecodesSafely key text := by
  have hlen : text.length = 8 := by
    rw [htext]
    exact length_desCrypt rfl
  have hplain : decrypted key text = List.replicate 8 0 := by
    have hblock : mapBlocks 8 (desCrypt (desMainKs key)) (List.replicate 8 0) = text := by
      rw [htext]
      exact mapBlocks_block (by decide) rfl
    rw [← hblock]
    exact decrypted_encrypted hkey (by decide)
  rintro ⟨hfault, -⟩
  apply hfault
  rw [ldesdecode_eq hkey (by omega) (by omega) (by omega), hplain]
  exact unpad_zeros

/-- Decryption is safe but for the ciphertext of one block of zeros and for texts that are not
counted with an `int`. -/
theorem decodesSafely_iff (key text : List UInt8) (hdvd : 8 ∣ text.length)
    (hpos : 0 < text.length) :
    DecodesSafely key text ↔
      (key.length = 8 →
        text.length < 2 ^ 31 ∧ text ≠ desCrypt (desMainKs key) (List.replicate 8 0)) := by
  constructor
  · intro h hkey
    constructor
    · by_contra hge
      exact h.1 (ldesdecode_fault hkey hdvd (by omega))
    · intro htext
      exact not_decodesSafely_zeros hkey htext h
  · intro h
    by_cases hkey : key.length = 8
    · obtain ⟨hlt, hne⟩ := h hkey
      apply decodesSafely_of_ne hkey hdvd hpos hlt
      intro hzeros
      apply hne
      have hback := encrypted_decrypted hkey hdvd
      rw [hzeros, mapBlocks_block (by decide) (List.length_replicate ..)] at hback
      exact hback.symm
    · exact decodesSafely_of_key hkey

theorem decodesSafely_iff_block :
    (8 ∣ ([0, 0, 0, 0, 0, 0, 0, 0] : List UInt8).length ∧
        0 < ([0, 0, 0, 0, 0, 0, 0, 0] : List UInt8).length) ∧
      (DecodesSafely [1, 2, 3, 4, 5, 6, 7, 8] [0, 0, 0, 0, 0, 0, 0, 0] ↔
        (([1, 2, 3, 4, 5, 6, 7, 8] : List UInt8).length = 8 →
          ([0, 0, 0, 0, 0, 0, 0, 0] : List UInt8).length < 2 ^ 31 ∧
            [0, 0, 0, 0, 0, 0, 0, 0] ≠
              desCrypt (desMainKs [1, 2, 3, 4, 5, 6, 7, 8]) (List.replicate 8 0))) :=
  ⟨by decide, decodesSafely_iff [1, 2, 3, 4, 5, 6, 7, 8] [0, 0, 0, 0, 0, 0, 0, 0] (by decide)
    (by decide)⟩

/-- With a key of zeros, this block decrypts to zeros, and the scan reads `buffer[-1]`. -/
theorem not_decodesSafely_block :
    ¬ DecodesSafely [0, 0, 0, 0, 0, 0, 0, 0] [140, 166, 77, 233, 193, 177, 35, 167] :=
  not_decodesSafely_zeros rfl (by decide +kernel)

end SkynetEureka.Crypt
