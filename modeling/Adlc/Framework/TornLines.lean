import Adlc.Framework.Lines

namespace Adlc.Framework

/-! Files of lines to which a crash may add part of a line. -/

/-- The lines that have their line feed. -/
def completeLines (text : JsString) : List JsString := (splitLines text).dropLast

/-- What comes after the last line feed. -/
def lastPart (text : JsString) : JsString := (splitLines text).getLastD []

theorem splitLines_of_no_break {s : JsString} (h : 10 ∉ s) : splitLines s = [s] := by
  induction s with
  | nil => rfl
  | cons c s ih =>
    rw [List.mem_cons, not_or] at h
    rw [splitLines, if_neg (Ne.symm h.1), ih h.2]

theorem completeLines_of_no_break {s : JsString} (h : 10 ∉ s) : completeLines s = [] := by
  rw [completeLines, splitLines_of_no_break h]
  rfl

theorem lastPart_eq_nil_iff {s : JsString} : lastPart s = [] ↔ ∀ c ∈ s.getLast?, c = 10 := by
  obtain ⟨init, last, hs, hlast, -⟩ := splitLines_continue s
  rw [lastPart, hs, ← hlast]
  simp

/-- What follows whole lines does not change them. -/
theorem completeLines_append {s : JsString} (h : lastPart s = []) (t : JsString) :
    completeLines (s ++ t) = completeLines s ++ completeLines t := by
  obtain ⟨init, last, hs, -, ht⟩ := splitLines_continue s
  obtain rfl : last = [] := by simpa [lastPart, hs] using h
  have hne := splitLines_ne_nil t
  have hid : (splitLines t).modifyHead (fun x => [] ++ x) = splitLines t := by
    cases splitLines t <;> rfl
  rw [completeLines, completeLines, completeLines, ht, hid, hs, List.dropLast_append_of_ne_nil hne,
    List.dropLast_concat]

theorem lastPart_append {s : JsString} (h : lastPart s = []) (t : JsString) :
    lastPart (s ++ t) = lastPart t := by
  obtain ⟨init, last, hs, -, ht⟩ := splitLines_continue s
  obtain rfl : last = [] := by simpa [lastPart, hs] using h
  have hid : (splitLines t).modifyHead (fun x => [] ++ x) = splitLines t := by
    cases splitLines t <;> rfl
  obtain ⟨init', last', ht', -⟩ := splitLines_continue t
  rw [lastPart, lastPart, ht, hid, ht', ← List.append_assoc, List.getLastD_concat,
    List.getLastD_concat]

theorem completeLines_line {line : JsString} (h : ∀ c ∈ line, c ≠ 10) (s : JsString) :
    completeLines (line ++ 10 :: s) = line :: completeLines s := by
  rw [completeLines, splitLines_append h, List.dropLast_cons_of_ne_nil (splitLines_ne_nil s)]
  rfl

theorem unlines_cons (line : JsString) (lines : List JsString) :
    unlines (line :: lines) = line ++ 10 :: unlines lines := by
  simp [unlines]

theorem completeLines_unlines {lines : List JsString} (h : ∀ line ∈ lines, 10 ∉ line) :
    completeLines (unlines lines) = lines := by
  induction lines with
  | nil => rfl
  | cons line lines ih =>
    have hline : ∀ c ∈ line, c ≠ 10 := by
      rintro c hc rfl
      exact h line List.mem_cons_self hc
    rw [unlines_cons, completeLines_line hline, ih fun l hl => h l (List.mem_cons_of_mem line hl)]

theorem lastPart_unlines (lines : List JsString) : lastPart (unlines lines) = [] := by
  rw [lastPart_eq_nil_iff]
  intro c hc
  rcases List.eq_nil_or_concat lines with rfl | ⟨init, line, rfl⟩
  · cases hc
  · rw [List.concat_eq_append, unlines_append] at hc
    have hone : unlines [line] = line ++ [10] := by simp [unlines]
    rw [hone, ← List.append_assoc, List.getLast?_concat, Option.mem_some] at hc
    exact hc.symm

theorem not_mem_splitLines (s : JsString) : ∀ line ∈ splitLines s, 10 ∉ line := by
  induction s with
  | nil => simp [splitLines]
  | cons c s ih =>
    rw [splitLines]
    split_ifs with hc
    · simpa using ih
    · cases hs : splitLines s with
      | nil => simpa using Ne.symm hc
      | cons l ls =>
        rw [hs] at ih
        simp only [List.forall_mem_cons] at ih ⊢
        refine ⟨?_, ih.2⟩
        rw [List.mem_cons, not_or]
        exact ⟨Ne.symm hc, ih.1⟩

theorem not_mem_completeLines {s line : JsString} (h : line ∈ completeLines s) : 10 ∉ line :=
  not_mem_splitLines s line (List.dropLast_subset _ h)

/-! ## Bytes -/

theorem lineFeed_mem_utf8Decode_iff {bytes : Bytes} : 10 ∈ utf8Decode bytes ↔ 10 ∈ bytes := by
  constructor
  · intro h
    by_contra hn
    exact lineFeed_mem_utf8Decode hn h
  · intro h
    obtain ⟨pre, post, e, -⟩ := List.eq_append_cons_of_mem h
    have hascii : (10 : UInt8).toNat < 0x80 := by decide
    rw [e, utf8Decode_append_ascii _ hascii, utf8Decode_one _ hascii]
    exact List.mem_append_right _ List.mem_cons_self

theorem lineFeed_mem_utf8Encode {s : JsString} (hw : wellFormed s = true) (h : 10 ∉ s) :
    10 ∉ utf8Encode s := by
  intro hm
  rw [← lineFeed_mem_utf8Decode_iff, utf8Decode_encode_of_wellFormed s hw] at hm
  exact h hm

theorem wellFormed_scalarUnits {c : Nat} (h : IsScalar c) (r : JsString) :
    wellFormed (scalarUnits c ++ r) = wellFormed r := by
  unfold IsScalar at h
  rw [scalarUnits]
  split_ifs with hc
  · have hn : (UInt16.ofNat c).toNat = c := UInt16.toNat_ofNat_of_lt' (by omega)
    have hhigh : ¬isHigh (UInt16.ofNat c) = true := by
      simp [isHigh, hn]
      omega
    have hlow : isLow (UInt16.ofNat c) = false := by
      simp [isLow, hn]
      omega
    rw [List.cons_append, List.nil_append, wellFormed_plain r hhigh, hlow]
    rfl
  · have b1 : 0xD800 + (c - 0x10000) / 0x400 < 0x10000 := by omega
    have b2 : 0xDC00 + c % 0x400 < 0x10000 := by omega
    have h1 := UInt16.toNat_ofNat_of_lt' b1
    have h2 := UInt16.toNat_ofNat_of_lt' b2
    have hhigh : isHigh (UInt16.ofNat (0xD800 + (c - 0x10000) / 0x400)) = true := by
      simp only [isHigh, h1, Bool.and_eq_true, decide_eq_true_eq]
      omega
    have hlow : isLow (UInt16.ofNat (0xDC00 + c % 0x400)) = true := by
      simp only [isLow, h2, Bool.and_eq_true, decide_eq_true_eq]
      omega
    simp only [List.cons_append, List.nil_append]
    rw [wellFormed_pair r hhigh, hlow]
    rfl

/-- What is read as UTF-8 has no lone surrogate. -/
theorem wellFormed_utf8Decode (xs : Bytes) : wellFormed (utf8Decode xs) = true := by
  have htail : ∀ b, tail6 b < 0x40 := fun b => Nat.mod_lt _ (by decide)
  fun_induction utf8Decode xs with
  | case1 => rfl
  | case2 b r hb ih =>
    have hscalar : scalarUnits b.toNat = [UInt16.ofNat b.toNat] := by
      rw [scalarUnits, if_pos (by omega)]
    have h := wellFormed_scalarUnits (c := b.toNat) (Or.inl (by omega)) (utf8Decode r)
    rw [hscalar] at h
    rw [← ih]
    exact h
  | case4 b ha h2 b1 r1 h1 ih =>
    rw [inRange_iff] at h2
    have t1 := htail b1
    rw [wellFormed_scalarUnits (Or.inl (by omega)), ih]
  | case8 b ha h2 h3 b1 h1 b2 r2 hb ih =>
    rw [inRange_iff] at h1 h3
    have t2 := htail b2
    -- after the byte ED no second byte reaches the surrogates
    have hhigh : secondHigh b ≤ 0xBF ∧ (b.toNat = 0xED → secondHigh b ≤ 0x9F) := by
      unfold secondHigh
      split_ifs <;> omega
    have hlow : 0x80 ≤ b1.toNat := by
      have h1 := h1.1
      unfold secondLow at h1
      split_ifs at h1 <;> omega
    have hscalar : IsScalar (b.toNat % 16 * 4096 + tail6 b1 * 64 + tail6 b2) := by
      unfold IsScalar
      unfold tail6 at t2 ⊢
      omega
    rw [wellFormed_scalarUnits hscalar, ih]
  | case14 b ha h2 h3 h4 b1 h1 b2 hb b3 r3 hc ih =>
    rw [inRange_iff] at h1 h4
    have t2 := htail b2
    have t3 := htail b3
    have hhigh : secondHigh b ≤ 0xBF ∧ (b.toNat = 0xF4 → secondHigh b ≤ 0x8F) := by
      unfold secondHigh
      split_ifs <;> omega
    have hlow : b.toNat = 0xF0 → 0x90 ≤ b1.toNat := by
      intro e
      rw [secondLow, if_neg (by omega), if_pos e] at h1
      exact h1.1
    have hlow' : 0x80 ≤ b1.toNat := by
      have h1 := h1.1
      unfold secondLow at h1
      split_ifs at h1 <;> omega
    have hscalar : IsScalar (b.toNat % 8 * 262144 + tail6 b1 * 4096 + tail6 b2 * 64 + tail6 b3) := by
      unfold IsScalar
      unfold tail6 at t2 t3 ⊢
      omega
    rw [wellFormed_scalarUnits hscalar, ih]
  | _ => simp_all [wellFormed_replacement, show wellFormed [0xFFFD] = true by decide]

theorem wellFormed_of_break {a b : JsString} (h : wellFormed (a ++ 10 :: b) = true) :
    wellFormed a = true ∧ wellFormed b = true := by
  fun_induction wellFormed a with
  | case1 =>
    rw [List.nil_append, wellFormed_plain _ (by decide), Bool.and_eq_true] at h
    exact ⟨rfl, h.2⟩
  | case2 c hc =>
    rw [List.cons_append, List.nil_append, wellFormed_pair _ hc, Bool.and_eq_true] at h
    cases h.1
  | case3 c hc d r ih =>
    rw [List.cons_append, List.cons_append, wellFormed_pair _ hc, Bool.and_eq_true] at h
    rw [h.1]
    exact ih h.2
  | case4 c r hc ih =>
    rw [List.cons_append, wellFormed_plain _ hc, Bool.and_eq_true] at h
    rw [h.1]
    exact ih h.2

theorem wellFormed_splitLines {s : JsString} (h : wellFormed s = true) :
    ∀ line ∈ splitLines s, wellFormed line = true := by
  induction hn : s.length using Nat.strong_induction_on generalizing s with
  | _ n ih =>
    by_cases hm : 10 ∈ s
    · obtain ⟨a, b, rfl, ha⟩ := List.eq_append_cons_of_mem hm
      have hline : ∀ c ∈ a, c ≠ 10 := by
        rintro c hc rfl
        exact ha hc
      obtain ⟨h1, h2⟩ := wellFormed_of_break h
      rw [splitLines_append hline, List.forall_mem_cons]
      refine ⟨h1, ih b.length ?_ h2 rfl⟩
      rw [List.length_append, List.length_cons] at hn
      omega
    · rw [splitLines_of_no_break hm]
      simpa using h

theorem wellFormed_unlines {lines : List JsString} (h : ∀ line ∈ lines, wellFormed line = true) :
    wellFormed (unlines lines) = true := by
  induction lines with
  | nil => rfl
  | cons line lines ih =>
    have hrest := ih fun l hl => h l (List.mem_cons_of_mem line hl)
    have hfeed : wellFormed (10 :: unlines lines) = true := by
      rw [wellFormed_plain _ (by decide), hrest]
      rfl
    rw [unlines_cons]
    exact wellFormed_join (h line List.mem_cons_self) hfeed

/-- Some of a file's lines, written to a file of their own, are read back. -/
theorem utf8Decode_unlines_of_subset {bytes : Bytes} {lines : List JsString}
    (h : ∀ line ∈ lines, line ∈ completeLines (utf8Decode bytes)) :
    utf8Decode (utf8Encode (unlines lines)) = unlines lines := by
  apply utf8Decode_encode_of_wellFormed
  apply wellFormed_unlines
  intro line hl
  exact wellFormed_splitLines (wellFormed_utf8Decode bytes) line (List.dropLast_subset _ (h line hl))

/-- Of lines that are written, a crash leaves the first few whole. -/
theorem completeLines_cut {lines : List JsString} (h : ∀ line ∈ lines, LineOk line) (k : Nat) :
    ∃ j, completeLines (utf8Decode ((utf8Encode (unlines lines)).take k)) = lines.take j := by
  induction lines generalizing k with
  | nil => exact ⟨0, by simp [unlines, utf8Encode, utf8Decode, completeLines, splitLines]⟩
  | cons line lines ih =>
    have hl := h line List.mem_cons_self
    have hascii : (10 : UInt8).toNat < 0x80 := by decide
    have hbreak : 10 ∉ line := fun hm => hl.noBreak 10 hm rfl
    have hfeed : ∀ s : JsString, utf8Encode (10 :: s) = 10 :: utf8Encode s := fun s =>
      utf8Encode_plain s (by decide) (by decide)
    rw [unlines_cons, utf8Encode_append hl.wellFormed, hfeed]
    by_cases hk : k ≤ (utf8Encode line).length
    · refine ⟨0, ?_⟩
      rw [List.take_append_of_le_length hk, List.take_zero]
      apply completeLines_of_no_break
      rw [lineFeed_mem_utf8Decode_iff]
      intro hm
      exact lineFeed_mem_utf8Encode hl.wellFormed hbreak (List.mem_of_mem_take hm)
    · obtain ⟨j, hj⟩ := ih (fun l hm => h l (List.mem_cons_of_mem line hm))
        (k - (utf8Encode line).length - 1)
      refine ⟨j + 1, ?_⟩
      have htake : (utf8Encode line ++ 10 :: utf8Encode (unlines lines)).take k = utf8Encode line ++
          10 :: (utf8Encode (unlines lines)).take (k - (utf8Encode line).length - 1) := by
        rw [List.take_append, List.take_of_length_le (by omega)]
        obtain ⟨n, hn⟩ : ∃ n, k - (utf8Encode line).length = n + 1 :=
          ⟨k - (utf8Encode line).length - 1, by omega⟩
        rw [hn, List.take_succ_cons, Nat.add_sub_cancel]
      rw [htake, utf8Decode_append_ascii _ hascii, utf8Decode_one _ hascii,
        utf8Decode_encode_of_wellFormed line hl.wellFormed, List.take_succ_cons, ← hj]
      exact completeLines_line hl.noBreak _

end Adlc.Framework
