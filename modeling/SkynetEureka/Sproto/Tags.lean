import SkynetEureka.Sproto.Schema

/-!
# The tags of a type (sproto.c)

`import_type` accepts a type only with its tags in ascending order. `maxn` is then enough for all the
records of a message: one for each field, and one for each gap. And `findtag` finds each field by its
tag, with or without gaps.
-/

namespace SkynetEureka.Sproto

open Lib

/-- The number of gaps between the tags, when `last` is the tag in front of the fields. -/
def gaps : ℤ → List Field → ℕ
  | _, [] => 0
  | last, f :: fs => (if (f.tag : ℤ) > last + 1 then 1 else 0) + gaps f.tag fs

/-- What `import_type` makes of a type. -/
structure SprotoType.Indexed (st : SprotoType) : Prop where
  ascending : st.f.Pairwise fun f g => f.tag < g.tag
  base : st.base ≥ 0 → ∀ (i : ℕ) (f : Field), st.f[i]? = some f → (f.tag : ℤ) = st.base + i
  maxn : st.maxn = st.f.length + gaps (-1) st.f
  /-- the number of records fits 16 bits -/
  small : st.maxn < 2 ^ 16

section

variable {f : Field} {fs : List Field} {last : ℤ} {tag : ℕ} {st : SprotoType} {i : ℕ}

/-! ## Gaps -/

theorem gaps_le_length (last : ℤ) (fs : List Field) : gaps last fs ≤ fs.length := by
  induction fs generalizing last with
  | nil => simp [gaps]
  | cons f fs ih =>
    have := ih f.tag
    rw [gaps, List.length_cons]
    split <;> omega

/-- Only the first gap depends on the tag in front. -/
theorem gaps_le_add_one (last last' : ℤ) (fs : List Field) : gaps last fs ≤ gaps last' fs + 1 := by
  cases fs with
  | nil => simp [gaps]
  | cons f fs =>
    simp only [gaps]
    split <;> split <;> omega

theorem gaps_append (last : ℤ) (fs gs : List Field) :
    gaps last (fs ++ gs) = gaps last fs + gaps ((fs.getLast?.map fun f => (f.tag : ℤ)).getD last) gs := by
  induction fs generalizing last with
  | nil => simp [gaps]
  | cons f fs ih =>
    rw [List.cons_append, gaps, ih, gaps, Nat.add_assoc]
    congr 2
    cases fs with
    | nil => rfl
    | cons g fs => simp [List.getLast?_cons]

/-! ## Ascending tags -/

theorem ascending_lt (h : fs.Pairwise fun f g => f.tag < g.tag) {j : ℕ} (hij : i < j)
    (hj : j < fs.length) : fs[i].tag + (j - i) ≤ fs[j].tag := by
  obtain ⟨k, rfl⟩ : ∃ k, j = i + 1 + k := ⟨j - i - 1, by omega⟩
  induction k with
  | zero =>
    have := List.pairwise_iff_getElem.mp h i (i + 1) (by omega) hj (by omega)
    simp only [Nat.add_zero]
    omega
  | succ k ih =>
    have hle := ih (by omega) (by omega)
    have := List.pairwise_iff_getElem.mp h (i + 1 + k) (i + 1 + (k + 1)) (by omega) hj (by omega)
    omega

/-! ## findtag -/

/-- The binary search finds the field that is in its range. -/
theorem searchTag_eq (h : fs.Pairwise fun f g => f.tag < g.tag) (hi : i < fs.length) {fuel begin last : ℕ}
    (hbegin : begin ≤ i) (hlast : i < last) (hlen : last ≤ fs.length) (hfuel : last - begin < fuel) :
    searchTag fs fs[i].tag fuel begin last = some fs[i] := by
  induction fuel generalizing begin last with
  | zero => omega
  | succ fuel ih =>
    have hmid : fs[(begin + last) / 2]? = some fs[(begin + last) / 2] := List.getElem?_eq_getElem (by omega)
    rw [searchTag, if_pos (by omega), hmid]
    show (if _ then _ else _) = _
    rcases Nat.lt_trichotomy i ((begin + last) / 2) with hlt | heq | hgt
    · have := ascending_lt h hlt (by omega)
      rw [if_neg (by omega), if_neg (by omega)]
      exact ih hbegin hlt (by omega) (by omega)
    · subst heq
      rw [if_pos rfl]
    · have := ascending_lt h hgt hi
      rw [if_neg (by omega), if_pos (by omega)]
      exact ih (by omega) hlast hlen (by omega)

/-- Each field is found by its tag. -/
theorem SprotoType.Indexed.findtag (hst : st.Indexed) (hf : f ∈ st.f) : findtag st f.tag = some f := by
  obtain ⟨i, hi, rfl⟩ := List.mem_iff_getElem.mp hf
  unfold Sproto.findtag
  by_cases hbase : st.base ≥ 0
  · have htag := hst.base hbase i _ (List.getElem?_eq_getElem hi)
    have hsub : ((st.f[i].tag : ℤ) - st.base).toNat = i := by omega
    rw [if_pos hbase, if_neg (by omega), hsub, List.getElem?_eq_getElem hi]
  · rw [if_neg hbase]
    exact searchTag_eq hst.ascending hi (Nat.zero_le i) hi le_rfl (by omega)

/-! ## import_type -/

theorem toword_ensures (p : List UInt8) (i : ℕ) : Ensures (fun v => v < 2 ^ 16) (toword p i) := by
  unfold toword readSlice
  split
  · simp only [checked_bind_ok, checked_pure, ensures_ok]
    have h := ofLeBytes_lt ((p.drop i).take 2)
    have hlen : ((p.drop i).take 2).length ≤ 2 := List.length_take_le ..
    calc ofLeBytes ((p.drop i).take 2) < 256 ^ ((p.drop i).take 2).length := h
      _ ≤ 256 ^ 2 := Nat.pow_le_pow_right (by decide) hlen
      _ = 2 ^ 16 := by norm_num
  · simp

/-- The tag of a field, once there is one, is one less than half of a word. -/
def FieldImport.Tagged (f : FieldImport) : Prop := ∀ tag ∈ f.tag, tag < 2 ^ 15 - 1

theorem importFieldValue_ensures {typeN value : ℕ} {f : FieldImport} {tag : ℤ} (hf : f.Tagged)
    (hvalue : value < 2 ^ 15 - 1) : Ensures FieldImport.Tagged (importFieldValue typeN f tag value) := by
  unfold importFieldValue FieldImport.Tagged at *
  split_ifs
  · split
    · simp
    · exact ensures_ok.mpr hf
  all_goals simp_all

theorem importFieldRecord_ensures {typeN stream fn i : ℕ} {p : List UInt8} {f : FieldImport}
    (hf : f.Tagged) : Ensures FieldImport.Tagged (importFieldRecord typeN p stream fn i f) := by
  unfold importFieldRecord
  refine (toword_ensures p _).bind fun value hvalue => ?_
  split_ifs
  · exact ensures_ok.mpr hf
  · simp
  · exact Ensures.true.bind fun name _ => ensures_ok.mpr hf
  · simp
  · exact importFieldValue_ensures hf (by omega)

theorem importField_ensures (typeN : ℕ) (p : List UInt8) (stream : ℕ) :
    Ensures (fun r => r.1.tag < 2 ^ 15 - 1) (importField typeN p stream) := by
  unfold importField
  refine Ensures.true.bind fun sz _ => Ensures.true.bind fun fn _ => ?_
  refine (Ensures.times (I := fun _ => FieldImport.Tagged) (fun i f => importFieldRecord_ensures) fn ?_).bind
    fun f hf => ?_
  · simp [FieldImport.Tagged]
  · unfold importFieldDone
    split
    · next tag _ _ htag _ _ => simpa using hf tag (by rw [htag]; rfl)
    · simp

/-- The tag of the last field, or -1. -/
def lastTag (fs : List Field) : ℤ := (fs.getLast?.map fun f => (f.tag : ℤ)).getD (-1)

/-- What holds of the first `i` of `n` fields. -/
structure FieldsImport.Ascending (n i : ℕ) (s : FieldsImport) : Prop where
  length : s.f.length = i
  ascending : s.f.Pairwise fun f g => f.tag < g.tag
  last : s.last = lastTag s.f
  maxn : s.maxn = n + gaps (-1) s.f
  small : ∀ f ∈ s.f, f.tag < 2 ^ 15 - 1

theorem le_lastTag (h : fs.Pairwise fun f g => f.tag < g.tag) (hf : f ∈ fs) : (f.tag : ℤ) ≤ lastTag fs := by
  obtain ⟨i, hi, rfl⟩ := List.mem_iff_getElem.mp hf
  have hlast : fs.getLast? = some fs[fs.length - 1] := by
    rw [List.getLast?_eq_getElem?, List.getElem?_eq_getElem]
  rw [lastTag, hlast, Option.map_some, Option.getD_some]
  by_cases heq : i = fs.length - 1
  · simp [heq]
  · have := ascending_lt h (i := i) (j := fs.length - 1) (by omega) (by omega)
    omega

theorem importTypeField_ensures {typeN n i : ℕ} {p : List UInt8} {s : FieldsImport}
    (hs : s.Ascending n i) : Ensures (FieldsImport.Ascending n (i + 1)) (importTypeField typeN p s) := by
  unfold importTypeField
  refine (importField_ensures typeN p s.stream).bind fun r hr => ?_
  obtain ⟨f, stream⟩ := r
  show Ensures _ (if (f.tag : ℤ) ≤ s.last then _ else _)
  by_cases hle : (f.tag : ℤ) ≤ s.last
  · simp [hle]
  · rw [if_neg hle]
    rw [hs.last] at hle
    refine ensures_ok.mpr ⟨by simp [hs.length], ?_, by simp [lastTag], ?_, ?_⟩
    · apply List.pairwise_append.mpr
      refine ⟨hs.ascending, List.pairwise_singleton _ _, ?_⟩
      intro g hg f' hf'
      have := le_lastTag hs.ascending hg
      obtain rfl := List.mem_singleton.mp hf'
      omega
    · have hmaxn := hs.maxn
      show (if (f.tag : ℤ) > s.last + 1 then s.maxn + 1 else s.maxn) = n + gaps (-1) (s.f ++ [f])
      have hgap : gaps (-1) (s.f ++ [f]) = gaps (-1) s.f + gaps s.last [f] := by
        rw [gaps_append, hs.last, lastTag]
      rw [hgap]
      simp only [gaps]
      split_ifs <;> omega
    · intro g hg
      rcases List.mem_append.mp hg with hg | hg
      · exact hs.small g hg
      · obtain rfl := List.mem_singleton.mp hg
        exact hr

theorem length_le_of_ascending {n : ℕ} (h : fs.Pairwise fun f g => f.tag < g.tag)
    (hsmall : ∀ f ∈ fs, f.tag < n) : fs.length ≤ n := by
  cases hlen : fs.length with
  | zero => omega
  | succ k =>
    have hlt := hsmall fs[k] (List.getElem_mem _)
    by_cases hk : k = 0
    · omega
    · have := ascending_lt h (i := 0) (j := k) (by omega) (by omega)
      omega

/-- Tags from the first to the last one with no room for a gap. -/
theorem tag_eq_of_span {first last' : Field} (h : fs.Pairwise fun f g => f.tag < g.tag)
    (hfirst : fs.head? = some first) (hlast : fs.getLast? = some last')
    (hspan : (last'.tag : ℤ) - first.tag + 1 = fs.length) (hi : i < fs.length) :
    (fs[i].tag : ℤ) = first.tag + i := by
  rw [List.head?_eq_getElem?, List.getElem?_eq_getElem (by omega)] at hfirst
  rw [List.getLast?_eq_getElem?, List.getElem?_eq_getElem (by omega)] at hlast
  have hlow : fs[0].tag + i ≤ fs[i].tag := by
    rcases Nat.eq_zero_or_pos i with rfl | hpos
    · simp
    · simpa using ascending_lt h hpos hi
  have hhigh : fs[i].tag + (fs.length - 1 - i) ≤ fs[fs.length - 1].tag := by
    by_cases heq : i = fs.length - 1
    · simp [← heq]
    · exact ascending_lt h (by omega) (by omega)
  rw [Option.some.inj hfirst] at hlow
  rw [Option.some.inj hlast] at hhigh
  omega

theorem importTypeBase_ensures {n : ℕ} {s : FieldsImport} (name : List UInt8) (hs : s.Ascending n n) :
    Ensures SprotoType.Indexed (importTypeBase name s) := by
  have hlen := length_le_of_ascending hs.ascending hs.small
  have hgaps := gaps_le_length (-1) s.f
  have hmaxn := hs.maxn
  rw [← hs.length] at hmaxn
  unfold importTypeBase
  split
  · next first last hfirst hlast =>
    refine ensures_ok.mpr ⟨hs.ascending, ?_, hmaxn, by show s.maxn < _; omega⟩
    intro hbase i f hi
    obtain ⟨hlt, rfl⟩ := List.getElem?_eq_some_iff.mp hi
    by_cases hspan : (last.tag : ℤ) - first.tag + 1 = s.f.length
    · simp only [if_pos hspan]
      exact tag_eq_of_span hs.ascending hfirst hlast hspan hlt
    · simp only [if_neg hspan] at hbase
      omega
  · simp

theorem importType_ensures (typeN : ℕ) (p : List UInt8) (stream : ℕ) :
    Ensures (fun r => r.1.Indexed) (importType typeN p stream) := by
  unfold importType
  refine Ensures.true.bind fun sz _ => Ensures.true.bind fun fn _ => ?_
  split_ifs
  · simp
  · refine Ensures.true.bind fun _ _ => Ensures.true.bind fun name _ => ?_
    exact ensures_ok.mpr ⟨List.Pairwise.nil, by simp, rfl, by simp⟩
  · refine Ensures.true.bind fun _ _ => Ensures.true.bind fun name _ => Ensures.true.bind fun _ _ =>
      Ensures.true.bind fun n _ => ?_
    refine (Ensures.times (I := FieldsImport.Ascending n) (fun i s => importTypeField_ensures) n ?_).bind
      fun s hs => ?_
    · exact ⟨rfl, List.Pairwise.nil, rfl, rfl, by simp⟩
    · rw [Nat.zero_add] at hs
      exact (importTypeBase_ensures name hs).bind fun t ht => ensures_ok.mpr ht

/-- Every type that `sproto_create` makes can be searched and has room for its records. -/
theorem sprotoCreate_ensures (p : List UInt8) :
    Ensures (fun o => ∀ st ∈ o.type, st.Indexed) (sprotoCreate p) := by
  unfold sprotoCreate createFromBundle
  refine Ensures.true.bind fun fn _ => ?_
  split_ifs
  · simp
  · simp
  all_goals
    refine Ensures.true.bind fun a _ => Ensures.true.bind fun b _ => ?_
    refine (Ensures.times (I := fun _ s => ∀ st ∈ s.1, st.Indexed) ?_ a.1 (by simp)).bind fun s hs =>
      Ensures.true.bind fun _ _ => ensures_ok.mpr hs
    intro i s hs
    unfold importItem
    refine (importType_ensures a.1 p s.2).bind fun r hr => ensures_ok.mpr ?_
    intro st hst
    rcases List.mem_append.mp hst with hst | hst
    · exact hs st hst
    · obtain rfl := List.mem_singleton.mp hst
      exact hr

end

end SkynetEureka.Sproto
