import SkynetEureka.Http.Chunks

/-!
# The header of a response is read as it was written

The lines of a header become a table from names in lower case to values. A name that has come once has a string
and one that has come more often the table of its strings, in the order of the lines (`header_read`).
-/

namespace SkynetEureka.Http

open Lib

variable {header : Header} {name value n : List UInt8}

/-- A line of a header, without its end -/
def fieldLine (f : List UInt8 × List UInt8) : List UInt8 := f.1 ++ [58, 32] ++ f.2

/-- A name that `parseheader` finds again -/
def IsName (name : List UInt8) : Prop := 58 ∉ name ∧ name.head? ≠ some 9

/-- The values of a name, without the spaces in front -/
def valuesOf (n : List UInt8) (fields : List (List UInt8 × List UInt8)) : List (List UInt8) :=
  (fields.filter fun f => lower f.1 = n).map fun f => f.2.dropWhile isSpace

/-- What the table has for the values that have come -/
def gathered : List (List UInt8) → Option HeaderValue
  | [] => none
  | [v] => some (.one v)
  | vs => some (.many vs)

/-- The value of a name when another line brings `v` -/
def added (v : List UInt8) : Option HeaderValue → HeaderValue
  | none => .one v
  | some (.one w) => .many [w, v]
  | some (.many vs) => .many (vs ++ [v])

theorem gathered_append (vs : List (List UInt8)) (v : List UInt8) :
    gathered (vs ++ [v]) = some (added v (gathered vs)) := by
  match vs with
  | [] | [_] | _ :: _ :: _ => rfl

theorem valuesOf_append (n : List UInt8) (fields : List (List UInt8 × List UInt8)) (f : List UInt8 × List UInt8) :
    valuesOf n (fields ++ [f]) =
      if lower f.1 = n then valuesOf n fields ++ [f.2.dropWhile isSpace] else valuesOf n fields := by
  unfold valuesOf
  rw [List.filter_append, List.map_append]
  by_cases h : lower f.1 = n
  · rw [if_pos h, List.filter_cons_of_pos (by simpa using h)]
    rfl
  · rw [if_neg h, List.filter_cons_of_neg (by simpa using h), List.filter_nil, List.map_nil, List.append_nil]

theorem lookup_filter_ne (h : n ≠ name) : List.lookup n (header.filter fun e => e.1 ≠ name) = header.lookup n := by
  induction header with
  | nil => rfl
  | cons e header ih =>
    by_cases he : e.1 = name
    · have hne : (n == e.1) = false := beq_eq_false_iff_ne.mpr (he ▸ h)
      rw [List.filter_cons_of_neg (by simpa using he), ih, List.lookup, hne]
    · rw [List.filter_cons_of_pos (by simpa using he), List.lookup, List.lookup, ih]

theorem lookup_set (v : HeaderValue) :
    (header.set name v).lookup n = if n = name then some v else header.lookup n := by
  unfold Header.set
  split_ifs with h
  · rw [List.lookup, beq_iff_eq.mpr h]
  · rw [List.lookup, beq_eq_false_iff_ne.mpr h]
    exact lookup_filter_ne h

theorem matchHeader_field (h : 58 ∉ name) :
    matchHeader (fieldLine (name, value)) = some (name, value.dropWhile isSpace) := by
  have hindex : indexOf [58] (name ++ 58 :: 32 :: value) = some name.length := by
    rw [indexOf_append_of_not_mem h]
    simp [indexOf]
  have hline : fieldLine (name, value) = name ++ 58 :: 32 :: value := by simp [fieldLine]
  have hdrop : (name ++ 58 :: 32 :: value).drop (name.length + 1) = 32 :: value := by
    rw [← List.drop_drop, List.drop_left]
    rfl
  unfold matchHeader
  rw [hline, hindex]
  dsimp only
  rw [List.take_left, hdrop, List.dropWhile_cons_of_pos (by decide)]

/-- A line adds its value to those of its name. -/
theorem parseLines_field {lines : List (List UInt8)} (last : Option (List UInt8)) (hname : IsName name) :
    parseLines (fieldLine (name, value) :: lines) last header =
      parseLines lines (some (lower name))
        (header.set (lower name) (added (value.dropWhile isSpace) (header.lookup (lower name)))) := by
  have htab : (fieldLine (name, value)).head? ≠ some 9 := by
    cases name with
    | nil => exact fun h => absurd (Option.some_inj.mp h) (by decide)
    | cons c name => exact hname.2
  rw [parseLines.eq_def]
  dsimp only
  rw [if_neg htab, matchHeader_field hname.1]
  dsimp only
  rcases header.lookup (lower name) with _ | v | vs
  · rfl
  · rfl
  · rfl

theorem parseLines_fields (fields seen : List (List UInt8 × List UInt8)) (last : Option (List UInt8))
    (hnames : ∀ f ∈ fields, IsName f.1) (hseen : ∀ n, header.lookup n = gathered (valuesOf n seen)) :
    ∃ h, parseLines (fields.map fieldLine) last header = .ok (some h) ∧
      ∀ n, h.lookup n = gathered (valuesOf n (seen ++ fields)) := by
  induction fields generalizing seen last header with
  | nil => exact ⟨header, rfl, by rwa [List.append_nil]⟩
  | cons f fields ih =>
    -- the table is right for the lines so far, with this one among them
    rw [List.map_cons, parseLines_field last (hnames f List.mem_cons_self), List.append_cons]
    refine ih (seen ++ [f]) _ (fun g hg => hnames g (List.mem_cons_of_mem f hg)) fun n => ?_
    rw [lookup_set, valuesOf_append, hseen]
    by_cases hn : n = lower f.1
    · rw [if_pos hn, if_pos hn.symm, gathered_append, hn]
    · rw [if_neg hn, if_neg fun h => hn h.symm]
      exact hseen n

/-- The fields of an entry of the header -/
def entryFields : List UInt8 × HeaderValue → List (List UInt8 × List UInt8)
  | (name, .one v) => [(name, v)]
  | (name, .many vs) => vs.map fun v => (name, v)

/-- The fields that are written in front of a body in chunks -/
def responseFields (header : Header) : List (List UInt8 × List UInt8) :=
  header.flatMap entryFields ++ [("transfer-encoding".toUTF8.toList, "chunked".toUTF8.toList)]

theorem responseLines_eq (statusline : List UInt8) (header : Header) :
    responseLines statusline header = statusline :: (responseFields header).map fieldLine := by
  have hentry : entryLines = fun e => (entryFields e).map fieldLine := by
    funext ⟨name, v⟩
    cases v
    · rfl
    · simp [entryLines, entryFields, fieldLine]
  have hchunked : "transfer-encoding: chunked".toUTF8.toList =
      fieldLine ("transfer-encoding".toUTF8.toList, "chunked".toUTF8.toList) := by decide +kernel
  unfold responseLines responseFields
  rw [List.map_append, List.map_flatMap, List.map_singleton, ← hchunked, hentry]

/-- The lines behind the first one of a response, in which no name has a colon or begins with a tab, are parsed;
and each name has in the table all values that have been written for it in any case, in their order. -/
theorem header_read (statusline : List UInt8) (hnames : ∀ f ∈ responseFields header, IsName f.1) :
    ∃ h, parseheader (responseLines statusline header).tail [] = .ok (some h) ∧
      ∀ n, h.lookup n = gathered (valuesOf n (responseFields header)) := by
  rw [responseLines_eq, List.tail_cons]
  exact parseLines_fields (responseFields header) [] none hnames fun n => rfl

/-- A name that comes in two cases -/
theorem header_read_cases : ∃ h,
    parseheader (responseLines [79, 75] [([65], .many [[49], [50]]), ([97], .one [32, 51])]).tail [] = .ok (some h) ∧
      h.lookup [97] = some (.many [[49], [50], [51]]) := by
  have hnames : ∀ f ∈ responseFields [([65], .many [[49], [50]]), ([97], .one [32, 51])],
      58 ∉ f.1 ∧ f.1.head? ≠ some 9 := by
    decide +kernel
  obtain ⟨h, hparse, hlookup⟩ := header_read [79, 75] hnames
  exact ⟨h, hparse, (hlookup [97]).trans (by decide +kernel)⟩

end SkynetEureka.Http
