import SkynetEureka.Http.Internal

/-!
# Header blocks

`body ++ s.rest` are the bytes that a reader has still in front of it, a part of which it has read already.
`recvheader` searches the end of a block with each piece that comes, and what it returns depends on the bytes
alone (`recvheader_determined`), if they do not begin with an empty line.
-/

namespace SkynetEureka.Http

open Lib

variable {s : Stream} {rest line data : List UInt8} {fuel : ℕ}

theorem crlf_ne_nil : crlf ≠ [] := List.cons_ne_nil _ _

theorem blankLine_ne_nil : blankLine ≠ [] := List.cons_ne_nil _ _

/-! ## The connection -/

theorem readbytes_eq (h : s.rest ≠ []) :
    ∃ bytes s', readbytes s = .ok (bytes, s') ∧ bytes ≠ [] ∧ s.rest = bytes ++ s'.rest := by
  unfold readbytes
  rw [if_neg h]
  refine ⟨_, _, rfl, ?_, (List.take_append_drop _ _).symm⟩
  rw [ne_eq, List.take_eq_nil_iff, not_or]
  exact ⟨by omega, h⟩

theorem readbytesN_eq (h : s.rest = data ++ rest) :
    ∃ s', readbytesN data.length s = .ok (data, s') ∧ s'.rest = rest := by
  unfold readbytesN
  rw [if_neg (by rw [h, List.length_append]; omega), h, List.take_left, List.drop_left]
  exact ⟨_, rfl, rfl⟩

/-! ## Header blocks -/

/-- The lines of a header block and the empty one. -/
def blockText (lines : List (List UInt8)) : List UInt8 := lines.flatMap (· ++ crlf) ++ crlf

/-- A line of a header block -/
def IsLine (line : List UInt8) : Prop := line ≠ [] ∧ 13 ∉ line

variable {lines : List (List UInt8)} {header : List UInt8}

theorem blockText_cons : blockText (line :: lines) ++ rest = line ++ (crlf ++ (blockText lines ++ rest)) := by
  simp [blockText]

theorem length_blockText : (blockText (line :: lines)).length = line.length + 2 + (blockText lines).length := by
  simp [blockText, crlf]
  omega

theorem two_le_blockText (lines : List (List UInt8)) : 2 ≤ (blockText lines).length := by
  simp [blockText, crlf]

theorem splitLines_line (line : List UInt8) {behind : List UInt8} (h : 13 ∉ behind) (hne : line ++ behind ≠ []) :
    splitLines line (behind ++ (crlf ++ rest)) = (line ++ behind) :: splitLines [] rest := by
  induction behind generalizing line with
  | nil =>
    rw [List.append_nil] at hne ⊢
    simp [crlf, splitLines, hne]
  | cons c behind ih =>
    rw [List.mem_cons, not_or] at h
    rw [List.cons_append, splitLines]
    · rw [ih (line ++ [c]) h.2 (by simp), List.append_assoc, List.singleton_append]
    · intro s hc
      exact absurd hc.symm h.1

theorem splitLines_block (hlines : ∀ l ∈ lines, IsLine l) : splitLines [] (blockText lines ++ rest) = lines := by
  induction lines with
  | nil => simp [blockText, crlf, splitLines]
  | cons line lines ih =>
    obtain ⟨hne, hcr⟩ := hlines line List.mem_cons_self
    rw [blockText_cons, splitLines_line [] hcr (by simpa using hne), List.nil_append,
      ih fun l hl => hlines l (List.mem_cons_of_mem line hl)]

/-- Two bytes of a line end before another line, with which the blank line does not begin -/
theorem indexOf_crlf {l : List UInt8} (h : ¬ crlf <+: l) :
    indexOf blankLine (crlf ++ l) = (indexOf blankLine l).map (· + 2) := by
  have hcr : ¬ blankLine <+: 13 :: 10 :: l := by
    intro hp
    exact h ((List.prefix_append_right_inj crlf).mp hp)
  have hlf : ¬ blankLine <+: 10 :: l := by
    intro hp
    exact absurd (List.cons_prefix_cons.mp hp).1 (by decide)
  show indexOf blankLine (13 :: 10 :: l) = _
  rw [indexOf, if_neg hcr, indexOf, if_neg hlf, Option.map_map]
  rfl

theorem not_crlf_prefix (h : IsLine line) : ¬ crlf <+: line ++ rest := by
  obtain ⟨hne, hcr⟩ := h
  cases line with
  | nil => exact absurd rfl hne
  | cons c line =>
    intro hp
    exact hcr (by rw [(List.cons_prefix_cons.mp hp).1]; exact List.mem_cons_self)

/-- The first blank line is the end of the block. -/
theorem indexOf_block (hlines : ∀ l ∈ lines, IsLine l) (hne : lines ≠ []) :
    indexOf blankLine (blockText lines ++ rest) = some ((blockText lines).length - 4) := by
  induction lines with
  | nil => exact absurd rfl hne
  | cons line lines ih =>
    have hline := hlines line List.mem_cons_self
    rw [blockText_cons, blankLine, indexOf_append_of_not_mem hline.2, ← blankLine, length_blockText]
    cases lines with
    | nil =>
      have hend : indexOf blankLine (crlf ++ (blockText [] ++ rest)) = some 0 := by
        simp [blockText, crlf, blankLine, indexOf]
      rw [hend, Option.map_some, Option.some_inj, show (blockText []).length = 2 from rfl]
      omega
    | cons line' lines =>
      have hbehind : ∀ l ∈ line' :: lines, IsLine l := fun l hl => hlines l (List.mem_cons_of_mem line hl)
      have hno : ¬ crlf <+: blockText (line' :: lines) ++ rest := by
        rw [blockText_cons]
        exact not_crlf_prefix (hbehind line' List.mem_cons_self)
      rw [indexOf_crlf hno, ih hbehind (List.cons_ne_nil _ _), Option.map_some, Option.map_some, Option.some_inj,
        length_blockText]
      have := two_le_blockText lines
      have : 0 < line'.length := List.length_pos_of_ne_nil (hbehind line' List.mem_cons_self).1
      omega

/-- After the next bytes, the loop of `recvheader` searches where a blank line may end in them. -/
theorem indexFrom_blankLine {bytes : List UInt8} (hno : indexOf blankLine header = none) :
    indexFrom blankLine (header ++ bytes) ((header ++ bytes).length - (bytes.length + 3)) =
      indexOf blankLine (header ++ bytes) := by
  -- in front of the place where the search begins there are only the bytes that were searched before
  refine indexFrom_eq blankLine_ne_nil fun j hj => ?_
  rw [List.length_append] at hj
  have hfit : j + blankLine.length ≤ header.length := by
    rw [show blankLine.length = 4 from rfl]
    omega
  rw [prefix_drop_append hfit]
  exact (indexOf_eq_none blankLine_ne_nil).mp hno j

theorem recvheaderLoop_read {bytes : List UInt8} {s' : Stream} (hread : readbytes s = .ok (bytes, s')) :
    recvheaderLoop (fuel + 1) header s =
      match indexFrom blankLine (header ++ bytes) ((header ++ bytes).length - (bytes.length + 3)) with
      | some e => .ok (some (splitLines [] (header ++ bytes), (header ++ bytes).drop (e + 4)), s')
      | none =>
        if crlf <+: header ++ bytes then .ok (some ([], (header ++ bytes).drop 2), s')
        else if (header ++ bytes).length > limit then .ok (none, s')
        else recvheaderLoop fuel (header ++ bytes) s' := by
  rw [recvheaderLoop, hread]
  rfl

theorem splitLines_crlf : splitLines [] (crlf ++ rest) = [] := by
  simp [crlf, splitLines]

theorem recvheaderLoop_crlf (hrest : header ++ s.rest = crlf ++ rest) (hshort : header.length < 2)
    (hfuel : s.rest.length < fuel) :
    ∃ left s', recvheaderLoop fuel header s = .ok (some ([], left), s') := by
  induction fuel generalizing header s with
  | zero => omega
  | succ fuel ih =>
    have hlength := congrArg List.length hrest
    rw [List.length_append, List.length_append, show crlf.length = 2 from rfl] at hlength
    obtain ⟨bytes, s', hread, hbytes, hsplit⟩ := readbytes_eq (s := s) (by
      intro hnil
      rw [hnil, List.length_nil] at hlength
      omega)
    have hpos := List.length_pos_of_ne_nil hbytes
    have hsize := congrArg List.length hsplit
    rw [List.length_append] at hsize
    have hrest' : (header ++ bytes) ++ s'.rest = crlf ++ rest := by rw [List.append_assoc, ← hsplit, hrest]
    rw [recvheaderLoop_read hread]
    rcases List.append_eq_append_iff.mp hrest' with ⟨x, hcrlf, hs⟩ | ⟨x, hheader, -⟩
    · by_cases hx : x = []
      · subst hx
        rw [List.append_nil] at hcrlf
        rw [← hcrlf]
        cases indexFrom blankLine crlf (crlf.length - (bytes.length + 3)) with
        | some e => exact ⟨_, s', rfl⟩
        | none => exact ⟨_, s', rfl⟩
      · -- only the first byte has come
        have hxpos := List.length_pos_of_ne_nil hx
        have hsum := congrArg List.length hcrlf
        rw [List.length_append, List.length_append, show crlf.length = 2 from rfl] at hsum
        have hnil : header = [] := List.eq_nil_of_length_eq_zero (by omega)
        subst hnil
        have hone : bytes.length = 1 := by
          rw [List.length_nil] at hsum
          omega
        obtain ⟨b, rfl⟩ := List.length_eq_one_iff.mp hone
        have hb : b = 13 := (List.cons_eq_cons.mp hcrlf).1.symm
        subst hb
        exact ih hrest' (by decide) (by omega)
    · rw [hheader]
      cases indexFrom blankLine (crlf ++ x) ((crlf ++ x).length - (bytes.length + 3)) with
      | some e => exact ⟨_, s', by dsimp only; rw [splitLines_crlf]⟩
      | none => exact ⟨_, s', by dsimp only; rw [if_pos (List.prefix_append _ _)]⟩

/-- `recvheader` of a block without lines, of which a part may have come -/
theorem recvheader_crlf (hrest : header ++ s.rest = crlf ++ rest) :
    ∃ left s', recvheader header s = .ok (some ([], left), s') := by
  unfold recvheader
  by_cases hcome : header.length ≥ 2 ∧ crlf <+: header
  · rw [if_pos hcome]
    exact ⟨_, _, rfl⟩
  · rw [if_neg hcome]
    have hshort : header.length < 2 := by
      by_contra hle
      have hp : crlf <+: header ++ s.rest := by
        rw [hrest]
        exact List.prefix_append _ _
      exact hcome ⟨by omega, List.prefix_of_prefix_length_le hp (List.prefix_append _ _)
        (by rw [show crlf.length = 2 from rfl]; omega)⟩
    have hnone : indexOf blankLine header = none := by
      rw [Option.eq_none_iff_forall_ne_some]
      intro i hi
      have := indexOf_le blankLine_ne_nil hi
      rw [show blankLine.length = 4 from rfl] at this
      omega
    rw [hnone]
    exact recvheaderLoop_crlf hrest hshort (Nat.lt_succ_self _)

/-! ## Any bytes -/

/-- Behind a blank line, `splitLines` reads nothing. -/
theorem splitLines_append {l x : List UInt8} (line : List UInt8)
    (h : (∃ i, blankLine <+: l.drop i) ∨ line = [] ∧ crlf <+: l) : splitLines line (l ++ x) = splitLines line l := by
  fun_induction splitLines line l with
  | case1 l => simp [splitLines]
  | case2 line l hline ih =>
    rw [List.cons_append, List.cons_append, splitLines, if_neg hline, ih]
    rcases h with ⟨i, hi⟩ | ⟨hnil, -⟩
    -- a blank line here leaves an empty line behind the end of this one
    · match i with
      | 0 => exact .inr ⟨rfl, (List.prefix_append_right_inj crlf).mp hi⟩
      | 1 => exact absurd (List.cons_prefix_cons.mp hi).1 (by decide)
      | i + 2 => exact .inl ⟨i, hi⟩
    · exact absurd hnil hline
  | case3 line c l hno ih =>
    have hlater : ∃ i, blankLine <+: l.drop i := by
      rcases h with ⟨i, hi⟩ | ⟨-, hi⟩
      · cases i with
        | zero =>
          obtain ⟨hc, k, hk⟩ := List.cons_prefix_cons.mp hi
          exact (hno _ hc.symm hk.symm).elim
        | succ i => exact ⟨i, hi⟩
      · obtain ⟨hc, k, hk⟩ := List.cons_prefix_cons.mp hi
        exact (hno _ hc.symm hk.symm).elim
    rw [List.cons_append, splitLines, ih (.inl hlater)]
    intro k hc hk
    -- a carriage return at the end of `l` is no line end with what is behind it, since `l` goes on
    cases l with
    | nil =>
      obtain ⟨i, hi⟩ := hlater
      rw [List.drop_nil] at hi
      exact blankLine_ne_nil (List.prefix_nil.mp hi)
    | cons b l => exact hno l hc (by rw [(List.cons_eq_cons.mp hk).1])
  | case4 line =>
    rcases h with ⟨i, hi⟩ | ⟨-, hi⟩
    · rw [List.drop_nil] at hi
      exact absurd (List.prefix_nil.mp hi) blankLine_ne_nil
    · exact absurd (List.prefix_nil.mp hi) crlf_ne_nil

/-- What `recvheader` makes of the bytes `t` in front of it. A block of more than 8193 bytes may be too long. -/
def HeaderSpec (t : List UInt8) : Except Stop (Option (List (List UInt8) × List UInt8) × Stream) → Prop
  | .ok (some (lines, left), s) =>
    ∃ e, indexOf blankLine t = some e ∧ lines = splitLines [] t ∧ left ++ s.rest = t.drop (e + 4)
  | .ok (none, _) => limit < t.length ∧ ∀ e, indexOf blankLine t = some e → limit + 1 < e + 4
  | .error stop => stop = .socket ∧ indexOf blankLine t = none

theorem recvheaderLoop_closed (h : s.rest = []) : recvheaderLoop (fuel + 1) header s = .error .socket := by
  have hread : readbytes s = .error .socket := if_pos h
  rw [recvheaderLoop, hread]
  rfl

theorem recvheaderLoop_spec (hcrlf : ¬ crlf <+: header ++ s.rest) (hno : indexOf blankLine header = none)
    (hfuel : s.rest.length < fuel) : HeaderSpec (header ++ s.rest) (recvheaderLoop fuel header s) := by
  induction fuel generalizing header s with
  | zero => omega
  | succ fuel ih =>
    by_cases hclosed : s.rest = []
    · rw [recvheaderLoop_closed hclosed, hclosed, List.append_nil]
      exact ⟨rfl, hno⟩
    · obtain ⟨bytes, s', hread, hbytes, hsplit⟩ := readbytes_eq hclosed
      have hpos := List.length_pos_of_ne_nil hbytes
      have hsize := congrArg List.length hsplit
      rw [List.length_append] at hsize
      rw [recvheaderLoop_read hread, indexFrom_blankLine hno, hsplit, ← List.append_assoc]
      rw [hsplit, ← List.append_assoc] at hcrlf
      cases hfind : indexOf blankLine (header ++ bytes) with
      | some e =>
        have hle := indexOf_le blankLine_ne_nil hfind
        have hat := ((indexOf_eq_some blankLine_ne_nil).mp hfind).1
        refine ⟨e, indexOf_append_of_some blankLine_ne_nil hfind, (splitLines_append [] (.inl ⟨e, hat⟩)).symm, ?_⟩
        exact (List.drop_append_of_le_length hle).symm
      | none =>
        have hpart : ¬ crlf <+: header ++ bytes := fun hp => hcrlf (hp.trans (List.prefix_append _ _))
        dsimp only
        rw [if_neg hpart]
        split_ifs with hlong
        · refine ⟨by rw [List.length_append]; omega, fun e he => ?_⟩
          have hlate := indexOf_none_of_append blankLine_ne_nil hfind he
          rw [show blankLine.length = 4 from rfl] at hlate
          omega
        · exact ih hcrlf hfind (by omega)

/-- `recvheader` reads the lines of a block of at most 8193 bytes, in whatever pieces they come. -/
theorem recvheader_block (hlines : ∀ l ∈ lines, IsLine l) (hne : lines ≠ [])
    (hlimit : (blockText lines).length ≤ limit + 1) (hrest : s.rest = blockText lines ++ rest) :
    ∃ left s', recvheader [] s = .ok (some (lines, left), s') ∧ left ++ s'.rest = rest := by
  have hend : indexOf blankLine s.rest = some ((blockText lines).length - 4) := by
    rw [hrest]
    exact indexOf_block hlines hne
  obtain ⟨line, lines', rfl⟩ := List.exists_cons_of_ne_nil hne
  have hfour : 4 ≤ (blockText (line :: lines')).length := by
    have := two_le_blockText lines'
    rw [length_blockText]
    omega
  have hcrlf : ¬ crlf <+: s.rest := by
    rw [hrest, blockText_cons]
    exact not_crlf_prefix (hlines line List.mem_cons_self)
  have hspec : HeaderSpec s.rest (recvheader [] s) := recvheaderLoop_spec hcrlf rfl (Nat.lt_succ_self _)
  match hresult : recvheader [] s with
  | .ok (some (found, left), s') =>
    rw [hresult] at hspec
    obtain ⟨e, he, hfound, hleft⟩ := hspec
    rw [hend, Option.some_inj] at he
    rw [hrest, splitLines_block hlines] at hfound
    rw [← he, Nat.sub_add_cancel hfour, hrest, List.drop_left] at hleft
    exact ⟨left, s', by rw [hfound], hleft⟩
  | .ok (none, s') =>
    rw [hresult] at hspec
    have := hspec.2 _ hend
    omega
  | .error stop =>
    rw [hresult] at hspec
    have hnone := hspec.2
    rw [hend] at hnone
    cases hnone

end SkynetEureka.Http
