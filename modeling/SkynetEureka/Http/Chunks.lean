import SkynetEureka.Http.Headers

/-!
# A response in chunks is read as it was written

A reader has a part of the bytes already, and `body ++ s.rest` is what is still in front of it, however the
bytes come. Each function of `internal.lua` takes its piece from the front of that list. What `writeall`
writes for a body in chunks is a block of lines, a line and the content for each chunk, and a chunk of no
bytes; `recvheader` and `recvchunkedbody` give it back (`response_read`).
-/

namespace SkynetEureka.Http

open Lib

variable {s : Stream} {body rest data line : List UInt8} {fuel n : ℕ}

/-! ## Numbers in hexadecimal digits -/

theorem hexDigit_eq {d : ℕ} (h : d < 16) : alnum? (hexDigit d) = some d ∧ isSpace (hexDigit d) = false ∧
    hexDigit d ≠ 45 ∧ hexDigit d ≠ 43 ∧ hexDigit d ≠ 13 := by
  revert d
  decide

theorem hexValue_append (a b : List UInt8) (n : ℕ) :
    hexValue (a ++ b) n = (hexValue a n).bind (hexValue b) := by
  induction a generalizing n with
  | nil => rfl
  | cons c a ih =>
    rw [List.cons_append, hexValue, hexValue]
    cases alnum? c with
    | none => rfl
    | some d =>
      dsimp only
      split_ifs
      · exact ih _
      · rfl

/-- The digits from the last one on -/
theorem hexValue_reverse {l : List ℕ} (h : ∀ d ∈ l, d < 16) :
    hexValue (l.reverse.map hexDigit) 0 = some (Nat.ofDigits 16 l) := by
  induction l with
  | nil => rfl
  | cons d l ih =>
    have hd : d < 16 := h d List.mem_cons_self
    rw [List.reverse_cons, List.map_append, hexValue_append, ih fun x hx => h x (List.mem_cons_of_mem d hx)]
    simp only [Option.bind_some, List.map_cons, List.map_nil, hexValue, (hexDigit_eq hd).1, if_pos hd,
      Nat.ofDigits_cons]
    congr 1
    omega

theorem hex_digits (n : ℕ) : ∃ ds : List ℕ, hex n = ds.map hexDigit ∧ ds ≠ [] ∧ (∀ d ∈ ds, d < 16) ∧
    hexValue (hex n) 0 = some n := by
  unfold hex
  split_ifs with hzero
  · subst hzero
    exact ⟨[0], by decide, List.cons_ne_nil _ _, by decide, by decide⟩
  · have hlt : ∀ d ∈ Nat.digits 16 n, d < 16 := fun d hd => Nat.digits_lt_base (by decide) hd
    refine ⟨(Nat.digits 16 n).reverse, rfl, ?_, ?_, ?_⟩
    · rwa [ne_eq, List.reverse_eq_nil_iff, Nat.digits_eq_nil_iff_eq_zero]
    · intro d hd
      exact hlt d (List.mem_reverse.mp hd)
    · rw [hexValue_reverse hlt, Nat.ofDigits_digits]

theorem cr_notMem_hex (n : ℕ) : 13 ∉ hex n := by
  obtain ⟨ds, hds, -, hlt, -⟩ := hex_digits n
  rw [hds, List.mem_map]
  rintro ⟨d, hd, h13⟩
  exact (hexDigit_eq (hlt d hd)).2.2.2.2 h13

theorem length_hex (h : n < 2 ^ 63) : (hex n).length ≤ 16 := by
  unfold hex
  split_ifs
  · decide
  · rw [List.length_map, List.length_reverse]
    exact (Nat.digits_length_le_iff (by decide) n).mpr (h.trans (by norm_num))

theorem wrap_eq {z : ℤ} (hz : 0 ≤ z) (h : z < 2 ^ 63) : wrap z = z := by
  rw [wrap, Int.bmod_eq_of_le]
  all_goals omega

theorem tonumber16_hex (h : n < 2 ^ 63) : tonumber16 (hex n) = some (n : ℤ) := by
  obtain ⟨ds, hds, hne, hlt, hvalue⟩ := hex_digits n
  have halnum : ∀ c ∈ hex n, (alnum? c).isSome = true := by
    rw [hds]
    rintro c hc
    obtain ⟨d, hd, rfl⟩ := List.mem_map.mp hc
    rw [(hexDigit_eq (hlt d hd)).1]
    rfl
  -- the first digit is no space and no sign
  have hstart : signed ((hex n).dropWhile isSpace) = (false, hex n) := by
    rw [hds]
    cases ds with
    | nil => exact absurd rfl hne
    | cons d ds =>
      obtain ⟨-, hspace, hminus, hplus, -⟩ := hexDigit_eq (hlt d List.mem_cons_self)
      rw [List.map_cons, List.dropWhile_cons_of_neg (by rw [hspace]; exact Bool.false_ne_true), signed.eq_3]
      · intro s hs
        exact hminus (List.cons_eq_cons.mp hs).1
      · intro s hs
        exact hplus (List.cons_eq_cons.mp hs).1
  have hdigits : (hex n).takeWhile (fun c => (alnum? c).isSome) = hex n := List.takeWhile_eq_self_iff.mpr halnum
  have hbehind : (hex n).dropWhile (fun c => (alnum? c).isSome) = [] := List.dropWhile_eq_nil_iff.mpr halnum
  have hnil : hex n ≠ [] := by
    rwa [hds, ne_eq, List.map_eq_nil_iff]
  unfold tonumber16
  simp only [hstart, hdigits, hbehind, hvalue]
  rw [if_neg (by simp [hnil]), Option.map_some, if_neg Bool.false_ne_true,
    wrap_eq (by omega) (by exact_mod_cast h)]

/-! ## The pieces of a chunk -/

theorem indexOf_line (h : 13 ∉ line) : indexOf crlf (line ++ (crlf ++ rest)) = some line.length := by
  rw [crlf, indexOf_append_of_not_mem h]
  simp [indexOf]

/-- `chunksize` reads a line, when it has not more than 127 bytes. -/
theorem chunksize_eq {sz : ℤ} (hline : 13 ∉ line) (hlen : line.length ≤ 127) (hsz : tonumber16 line = some sz)
    (hrest : body ++ s.rest = line ++ (crlf ++ rest)) (hfuel : s.rest.length < fuel) :
    ∃ body' s', chunksize fuel body s = .ok (some (sz, body'), s') ∧ body' ++ s'.rest = rest := by
  have hwhole : indexOf crlf (body ++ s.rest) = some line.length := by
    rw [hrest]
    exact indexOf_line hline
  induction fuel generalizing body s with
  | zero => omega
  | succ fuel ih =>
    rw [chunksize]
    cases hfind : indexOf crlf body with
    | some f =>
      have hf : f = line.length := by
        rw [indexOf_append_of_some crlf_ne_nil hfind] at hwhole
        exact Option.some_inj.mp hwhole
      have hle : f + 2 ≤ body.length := indexOf_le crlf_ne_nil hfind
      obtain ⟨x, rfl⟩ : ∃ x, body = line ++ (crlf ++ x) := by
        have htake : body.take (line.length + 2) = line ++ crlf := by
          have hfront : (body ++ s.rest).take (line.length + 2) = body.take (line.length + 2) :=
            List.take_append_of_le_length (by omega)
          rw [← hfront, hrest, ← List.append_assoc]
          exact List.take_left' (by simp [crlf])
        exact ⟨body.drop (line.length + 2), by rw [← List.append_assoc, ← htake, List.take_append_drop]⟩
      subst hf
      refine ⟨x, s, ?_, ?_⟩
      · simp [hsz, crlf]
      · simpa using hrest
    | none =>
      -- the line end has not come, hence there are few bytes and more to come
      have hshort := indexOf_none_of_append crlf_ne_nil hfind hwhole
      have hlength := congrArg List.length hrest
      simp only [List.length_append, crlf, List.length_cons, List.length_nil] at hlength hshort
      obtain ⟨bytes, s', hread, hne, hsplit⟩ := readbytes_eq (s := s) (by
        intro hnil
        rw [hnil, List.length_nil] at hlength
        omega)
      have hpos := List.length_pos_of_ne_nil hne
      have hsize := congrArg List.length hsplit
      rw [List.length_append] at hsize
      have happend : (body ++ bytes) ++ s'.rest = body ++ s.rest := by rw [List.append_assoc, ← hsplit]
      dsimp only
      rw [if_neg (by omega), hread]
      change ∃ body' s'', chunksize fuel (body ++ bytes) s' = .ok (some (sz, body'), s'') ∧ body' ++ s''.rest = rest
      exact ih (by rw [happend, hrest]) (by omega) (by rw [happend, hwhole])

theorem sub_left (data rest : List UInt8) : sub (data ++ rest) 1 data.length = data := by
  have hlast : ¬ (data.length : ℤ) < 0 := by omega
  simp [sub, hlast]

theorem sub_right (data rest : List UInt8) : sub (data ++ rest) (data.length + 1) (-1) = rest := by
  have hfirst : (data.length : ℤ) + 1 > 0 := by omega
  have hlast : ((data.length : ℤ) + rest.length).toNat = data.length + rest.length := by omega
  have htake : (data ++ rest).take (data.length + rest.length) = data ++ rest :=
    List.take_of_length_le (by rw [List.length_append])
  simp [sub, hfirst, hlast, htake]

theorem chunkdata_eq (hrest : body ++ s.rest = data ++ rest) :
    ∃ body' s', chunkdata data.length body s = .ok ((data, body'), s') ∧ body' ++ s'.rest = rest := by
  unfold chunkdata
  -- the content ends in the bytes to come, or in those that are there
  rcases List.append_eq_append_iff.mp hrest with ⟨x, rfl, hs⟩ | ⟨x, rfl, rfl⟩
  · by_cases hx : x = []
    · subst hx
      refine ⟨[], s, ?_, by simpa using hs⟩
      rw [if_pos (by simp), List.append_nil]
      have hleft := sub_left body []
      have hright := sub_right body []
      rw [List.append_nil] at hleft hright
      rw [hleft, hright]
    · have hpos := List.length_pos_of_ne_nil hx
      obtain ⟨s', hread, hrest'⟩ := readbytesN_eq hs
      have hsz : (((body ++ x).length : ℤ) - body.length).toNat = x.length := by
        rw [List.length_append]
        omega
      rw [if_neg (by rw [List.length_append]; omega), hsz, hread]
      exact ⟨[], s', rfl, hrest'⟩
  · rw [if_pos (by simp), sub_left, sub_right]
    exact ⟨x, s, rfl, rfl⟩

theorem readcrln_eq (hrest : body ++ s.rest = crlf ++ rest) :
    ∃ body' s', readcrln body s = .ok (some body', s') ∧ body' ++ s'.rest = rest := by
  unfold readcrln
  rcases List.append_eq_append_iff.mp hrest with ⟨x, hcrlf, hs⟩ | ⟨x, rfl, rfl⟩
  · by_cases hx : x = []
    · subst hx
      rw [List.append_nil] at hcrlf
      subst hcrlf
      exact ⟨[], s, rfl, by simpa using hs⟩
    · have hpos := List.length_pos_of_ne_nil hx
      have hlength := congrArg List.length hcrlf
      rw [List.length_append, show crlf.length = 2 from rfl] at hlength
      obtain ⟨s', hread, hrest'⟩ := readbytesN_eq hs
      rw [if_neg (by omega), show 2 - body.length = x.length by omega, hread]
      refine ⟨[], s', ?_, hrest'⟩
      show (if body ++ x ≠ crlf then _ else _) = _
      rw [if_neg (not_not.mpr hcrlf.symm)]
  · refine ⟨x, s, ?_, rfl⟩
    rw [if_pos (by simp [crlf])]
    simp [crlf]

/-! ## The loop over the chunks -/

/-- The chunks, which are not empty, and the last one without the empty line behind it. -/
def chunkText : List (List UInt8) → List UInt8
  | [] => [48] ++ crlf
  | c :: cs => hex c.length ++ (crlf ++ (c ++ (crlf ++ chunkText cs)))

variable {c : Chunks} {cs : List (List UInt8)} {bodylimit : Option ℤ}

theorem length_chunkText (cs : List (List UInt8)) : cs.length < (chunkText cs).length := by
  induction cs with
  | nil => decide
  | cons c cs ih =>
    simp only [chunkText, List.length_cons, List.length_append, crlf]
    omega

/-- A chunk that is too much ends the loop. -/
theorem recvchunks_refuses (hne : data ≠ []) (hlt : data.length < 2 ^ 63)
    (hrest : c.body ++ s.rest = hex data.length ++ (crlf ++ rest))
    (hover : ∃ l ∈ bodylimit, l < wrap (c.size + data.length)) :
    ∃ s', recvchunks bodylimit (fuel + 1) c s = .ok (none, s') := by
  have hpos := List.length_pos_of_ne_nil hne
  have hline := length_hex hlt
  obtain ⟨body, s', hsize, -⟩ := chunksize_eq (cr_notMem_hex _) (by omega) (tonumber16_hex hlt) hrest
    (Nat.lt_succ_self _)
  refine ⟨s', ?_⟩
  rw [recvchunks, hsize]
  show (if (data.length : ℤ) = 0 then _ else _) = _
  rw [if_neg (by omega)]
  exact if_pos hover

/-- A round of the loop -/
theorem recvchunks_step (fuel : ℕ) (hne : data ≠ []) (hlt : data.length < 2 ^ 63)
    (hrest : c.body ++ s.rest = hex data.length ++ (crlf ++ (data ++ (crlf ++ rest))))
    (hunder : ¬ ∃ l ∈ bodylimit, l < wrap (c.size + data.length)) :
    ∃ body s', recvchunks bodylimit (fuel + 1) c s =
        recvchunks bodylimit fuel ⟨c.result ++ data, wrap (c.size + data.length), body⟩ s' ∧
      body ++ s'.rest = rest := by
  have hpos := List.length_pos_of_ne_nil hne
  have hline := length_hex hlt
  obtain ⟨body₁, s₁, hsize, hrest₁⟩ := chunksize_eq (cr_notMem_hex _) (by omega) (tonumber16_hex hlt) hrest
    (Nat.lt_succ_self _)
  obtain ⟨body₂, s₂, hdata, hrest₂⟩ := chunkdata_eq hrest₁
  obtain ⟨body₃, s₃, hcrln, hrest₃⟩ := readcrln_eq hrest₂
  refine ⟨body₃, s₃, ?_, hrest₃⟩
  rw [recvchunks, hsize]
  show (if (data.length : ℤ) = 0 then _ else if _ then _ else _) = _
  rw [if_neg (by omega), if_neg hunder, hdata]
  show (readcrln body₂ s₂ >>= _) = _
  rw [hcrln]
  rfl

/-- The loop returns all chunks when they respect the limit together, and nothing when they do not. -/
theorem recvchunks_eq (bodylimit : Option ℤ) (fuel : ℕ) (c : Chunks) (hne : ∀ d ∈ cs, d ≠ [])
    (hsize : 0 ≤ c.size)
    (hlt : c.size + cs.flatten.length < 2 ^ 63) (hrest : c.body ++ s.rest = chunkText cs ++ rest)
    (hfuel : cs.length < fuel) :
    (cs = [] ∨ (∀ l ∈ bodylimit, c.size + cs.flatten.length ≤ l) →
      ∃ body s', recvchunks bodylimit fuel c s =
          .ok (some ⟨c.result ++ cs.flatten, c.size + cs.flatten.length, body⟩, s') ∧
        body ++ s'.rest = rest) ∧
    (¬ (cs = [] ∨ ∀ l ∈ bodylimit, c.size + cs.flatten.length ≤ l) →
      ∃ s', recvchunks bodylimit fuel c s = .ok (none, s')) := by
  induction cs generalizing c s fuel with
  | nil =>
    refine ⟨fun _ => ?_, fun hno => absurd (.inl rfl) hno⟩
    obtain ⟨fuel, rfl⟩ : ∃ k, fuel = k + 1 := ⟨fuel - 1, by simp only [List.length_nil] at hfuel; omega⟩
    have hzero : tonumber16 [48] = some 0 := by decide
    obtain ⟨body, s', hchunk, hrest'⟩ := chunksize_eq (by decide) (by decide) hzero
      (by rw [hrest, chunkText, List.append_assoc]) (Nat.lt_succ_self _)
    refine ⟨body, s', ?_, hrest'⟩
    rw [recvchunks, hchunk]
    simp
    rfl
  | cons d cs ih =>
    obtain ⟨fuel, rfl⟩ : ∃ k, fuel = k + 1 := ⟨fuel - 1, by omega⟩
    have hlen : (((d :: cs).flatten.length : ℕ) : ℤ) = d.length + cs.flatten.length := by
      rw [List.flatten_cons, List.length_append, Nat.cast_add]
    rw [hlen] at hlt ⊢
    rw [List.flatten_cons]
    have hd : d ≠ [] := hne d List.mem_cons_self
    have hwrap : wrap (c.size + d.length) = c.size + d.length := wrap_eq (by omega) (by omega)
    simp only [chunkText, List.append_assoc] at hrest
    by_cases hover : ∃ l ∈ bodylimit, l < wrap (c.size + d.length)
    · refine ⟨fun hfits => ?_, fun _ => recvchunks_refuses hd (by omega) hrest hover⟩
      -- the sum is above the limit with this chunk already
      obtain ⟨l, hl, hlarge⟩ := hover
      rw [hwrap] at hlarge
      rcases hfits with hnil | hfits
      · cases hnil
      · have := hfits l hl
        omega
    · obtain ⟨body, s', hstep, hrest'⟩ := recvchunks_step fuel hd (by omega) hrest hover
      rw [hwrap] at hstep hover
      rw [hstep]
      have hsum : c.size + (d.length + cs.flatten.length) = c.size + d.length + cs.flatten.length := by ring
      -- the limit for all chunks is the limit for those behind this one, which is under it itself
      have hfits : (d :: cs = [] ∨ ∀ l ∈ bodylimit, c.size + (d.length + cs.flatten.length) ≤ l) ↔
          (cs = [] ∨ ∀ l ∈ bodylimit, c.size + d.length + cs.flatten.length ≤ l) := by
        rw [hsum]
        constructor
        · rintro (hnil | hall)
          · cases hnil
          · exact .inr hall
        · rintro (rfl | hall)
          · refine .inr fun l hl => ?_
            rw [List.flatten_nil, List.length_nil]
            have := not_lt.mp fun hlt => hover ⟨l, hl, hlt⟩
            omega
          · exact .inr hall
      obtain ⟨hsome, hnone⟩ := ih fuel ⟨c.result ++ d, c.size + d.length, body⟩
        (fun x hx => hne x (List.mem_cons_of_mem d hx)) (by dsimp only; omega) (by dsimp only; omega) hrest'
        (by simp only [List.length_cons] at hfuel; omega)
      rw [hfits]
      dsimp only at hsome hnone
      rw [hsum, ← List.append_assoc]
      exact ⟨hsome, hnone⟩

/-! ## The response -/

/-- `recvchunkedbody` on chunks that are not empty -/
theorem recvchunkedbody_eq (bodylimit : Option ℤ) (h : Header) (hne : ∀ d ∈ cs, d ≠ [])
    (hlt : cs.flatten.length < 2 ^ 63) (hrest : body ++ s.rest = chunkText cs ++ (crlf ++ rest)) :
    ∃ s', recvchunkedbody bodylimit h body s = .ok
      (if cs = [] ∨ ∀ l ∈ bodylimit, (cs.flatten.length : ℤ) ≤ l then some (cs.flatten, some h) else none, s') := by
  have hlength := congrArg List.length hrest
  rw [List.length_append, List.length_append] at hlength
  have hchunks := length_chunkText cs
  obtain ⟨hsome, hnone⟩ := recvchunks_eq bodylimit (body.length + s.rest.length + 1) ⟨[], 0, body⟩ hne le_rfl
    (by dsimp only; omega) hrest (by omega)
  simp only [zero_add, List.nil_append] at hsome hnone
  unfold recvchunkedbody
  split_ifs with hfits
  · obtain ⟨left, s₁, hloop, hleft⟩ := hsome hfits
    obtain ⟨left', s₂, htrailer⟩ := recvheader_crlf hleft
    refine ⟨s₂, ?_⟩
    rw [hloop]
    show (recvheader left s₁ >>= _) = _
    rw [htrailer]
    rfl
  · obtain ⟨s₁, hloop⟩ := hnone hfits
    refine ⟨s₁, ?_⟩
    rw [hloop]
    rfl

/-- The lines for one entry of the header, without their ends -/
def entryLines : List UInt8 × HeaderValue → List (List UInt8)
  | (name, .one v) => [name ++ [58, 32] ++ v]
  | (name, .many vs) => vs.map fun v => name ++ [58, 32] ++ v

/-- The lines in front of a body in chunks -/
def responseLines (statusline : List UInt8) (header : Header) : List (List UInt8) :=
  statusline :: (header.flatMap entryLines ++ ["transfer-encoding: chunked".toUTF8.toList])

/-- What is in front of an empty line is written in front of each chunk. -/
theorem chunks_text (cs : List (List UInt8)) :
    cs.flatMap (fun d => if d ≠ [] then crlf ++ hex d.length ++ crlf ++ d else []) ++ crlf ++ [48] ++ blankLine =
      crlf ++ (chunkText (cs.filter (· ≠ [])) ++ crlf) := by
  induction cs with
  | nil => rfl
  | cons d cs ih =>
    rw [List.flatMap_cons]
    by_cases hd : d = []
    · rw [if_neg (not_not.mpr hd), List.nil_append, ih, List.filter_cons_of_neg (by simpa using hd)]
    · rw [if_pos hd, List.filter_cons_of_pos (by simpa using hd), chunkText]
      simp only [List.append_assoc] at ih ⊢
      rw [ih]

theorem headerLines_eq (e : List UInt8 × HeaderValue) : headerLines e = (entryLines e).flatMap (· ++ crlf) := by
  obtain ⟨name, v | vs⟩ := e
  · simp [headerLines, entryLines, headerLine]
  · simp [headerLines, entryLines, headerLine, List.flatMap_map]

theorem writeall_chunks (statusline : List UInt8) (header : Header) (cs : List (List UInt8)) :
    writeall statusline (.chunks cs) header =
      blockText (responseLines statusline header) ++ (chunkText (cs.filter (· ≠ [])) ++ crlf) := by
  have htext := chunks_text cs
  have hentries : header.flatMap headerLines = (header.flatMap entryLines).flatMap (· ++ crlf) := by
    rw [List.flatMap_assoc]
    exact List.flatMap_congr fun e _ => headerLines_eq e
  simp only [List.append_assoc] at htext
  simp only [writeall, writeBody, blockText, responseLines, List.flatMap_cons, List.flatMap_append, List.flatMap_nil,
    List.append_assoc, List.nil_append, hentries, htext]

theorem flatten_filter (cs : List (List UInt8)) : (cs.filter (· ≠ [])).flatten = cs.flatten := by
  induction cs with
  | nil => rfl
  | cons d cs ih =>
    by_cases hd : d = []
    · rw [List.filter_cons_of_neg (by simpa using hd), ih, hd, List.flatten_cons, List.nil_append]
    · rw [List.filter_cons_of_pos (by simpa using hd), List.flatten_cons, ih, List.flatten_cons]

/-- A response with a body in chunks, in whatever pieces its bytes come and whatever comes behind it, is read as
the lines and the body that have been written; and the body is refused exactly when it is not empty and above
the limit. -/
theorem response_read {statusline : List UInt8} {header : Header} (bodylimit : Option ℤ) (h : Header)
    (hlines : ∀ l ∈ responseLines statusline header, l ≠ [] ∧ 13 ∉ l)
    (hblock : (blockText (responseLines statusline header)).length ≤ limit + 1)
    (hlt : cs.flatten.length < 2 ^ 63) (hrest : s.rest = writeall statusline (.chunks cs) header ++ rest) :
    ∃ left s₁, recvheader [] s = .ok (some (responseLines statusline header, left), s₁) ∧
      ∃ s₂, recvchunkedbody bodylimit h left s₁ = .ok
        (if cs.flatten = [] ∨ ∀ l ∈ bodylimit, (cs.flatten.length : ℤ) ≤ l then some (cs.flatten, some h)
          else none, s₂) := by
  -- the empty chunks are not written
  rw [writeall_chunks, List.append_assoc] at hrest
  obtain ⟨left, s₁, hheader, hleft⟩ := recvheader_block hlines (List.cons_ne_nil _ _) hblock hrest
  have hne : ∀ d ∈ cs.filter (· ≠ []), d ≠ [] := fun d hd => by simpa using (List.mem_filter.mp hd).2
  have hempty : cs.filter (· ≠ []) = [] ↔ cs.flatten = [] := by
    rw [List.flatten_eq_nil_iff, List.filter_eq_nil_iff]
    simp
  obtain ⟨s₂, hbody⟩ := recvchunkedbody_eq bodylimit h hne
    (by rwa [flatten_filter]) (by rw [hleft, List.append_assoc])
  rw [flatten_filter] at hbody
  simp only [hempty] at hbody
  exact ⟨left, s₁, hheader, s₂, hbody⟩

/-- A response in pieces, with an empty chunk and the bytes of another response behind it -/
theorem response_read_pieces : ∃ left s₁,
    recvheader [] ⟨writeall [79, 75] (.chunks [[104, 105], [], [33]]) [] ++ [79], [1, 40, 9]⟩ =
      .ok (some (responseLines [79, 75] [], left), s₁) ∧
    ∃ s₂, recvchunkedbody (some 3) [] left s₁ = .ok (some ([104, 105, 33], some []), s₂) := by
  have hlines : ∀ l ∈ responseLines [79, 75] [], l ≠ [] ∧ 13 ∉ l := by decide +kernel
  have hblock : (blockText (responseLines [79, 75] [])).length ≤ limit + 1 := by decide +kernel
  have hlt : (List.flatten [[104, 105], [], [33]] : List UInt8).length < 2 ^ 63 := by decide
  obtain ⟨left, s₁, hheader, s₂, hbody⟩ :=
    response_read (s := ⟨_, [1, 40, 9]⟩) (some 3) [] hlines hblock hlt rfl
  exact ⟨left, s₁, hheader, s₂, hbody.trans (by rw [if_pos (.inr (by simp))]; rfl)⟩

end SkynetEureka.Http
