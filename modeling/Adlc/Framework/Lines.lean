import Adlc.Framework.JsonText
import Mathlib.Data.List.DropRight

namespace Adlc.Framework

/-! Files of one JSON value a line. -/

/-- `text.split('\n')` -/
def splitLines : JsString → List JsString
  | [] => [[]]
  | c :: s =>
    if c = 10 then [] :: splitLines s
    else
      match splitLines s with
      | [] => [[c]]
      | line :: lines => (c :: line) :: lines

/-- The white space and line ends of `String.prototype.trim`. -/
def isTrimmed (c : UInt16) : Bool :=
  let n := c.toNat
  (9 ≤ n && n ≤ 13) || n = 32 || n = 0xA0 || n = 0x1680 || (0x2000 ≤ n && n ≤ 0x200A) ||
    n = 0x2028 || n = 0x2029 || n = 0x202F || n = 0x205F || n = 0x3000 || n = 0xFEFF

def trim (text : JsString) : JsString := (text.dropWhile isTrimmed).rdropWhile isTrimmed

/-- Nothing but what `trim` takes off. -/
def Blank (w : JsString) : Prop := ∀ c ∈ w, isTrimmed c = true

theorem dropWhile_blank {w : JsString} (hw : Blank w) {c : UInt16} (hc : isTrimmed c = false)
    (s : JsString) : (w ++ c :: s).dropWhile isTrimmed = c :: s := by
  rw [List.dropWhile_append_of_pos hw, List.dropWhile_cons_of_neg (by simp [hc])]

theorem blank_takeWhile (s : JsString) : Blank (s.takeWhile isTrimmed) := fun _ hc =>
  List.mem_takeWhile_imp hc

/-- `line.trim() !== ''` -/
def notBlank (line : JsString) : Bool := line.any fun c => !isTrimmed c

/-- `text.split('\n').filter((line) => line.trim() !== '')` -/
def rawLines (text : JsString) : List JsString := (splitLines text).filter notBlank

/-- The lines `rawLines` keeps, with their numbers. -/
def numberedLines (text : JsString) : List (JsString × Nat) :=
  ((splitLines text).zipIdx 1).filter fun p => notBlank p.1

/-- The text of a file of whole lines. -/
def unlines (lines : List JsString) : JsString := lines.flatMap fun line => line ++ [10]

/-- `appendFileSync(path, line + '\n')` -/
def appendLine (file : Option Bytes) (line : JsString) : Bytes :=
  file.getD [] ++ utf8Encode (line ++ [10])

/-- A line that is kept as it stands: it holds no line end, no lone surrogate, and more than
white space. -/
structure LineOk (line : JsString) : Prop where
  noBreak : ∀ c ∈ line, c ≠ 10
  wellFormed : wellFormed line = true
  notBlank : notBlank line = true

theorem splitLines_append {line : JsString} (h : ∀ c ∈ line, c ≠ 10) (s : JsString) :
    splitLines (line ++ 10 :: s) = line :: splitLines s := by
  induction line with
  | nil => rw [List.nil_append, splitLines, if_pos rfl]
  | cons c line ih =>
    have hc := h c (by simp)
    rw [List.cons_append, splitLines, if_neg hc, ih fun d hd => h d (List.mem_cons_of_mem _ hd)]

theorem rawLines_unlines {lines : List JsString} (h : ∀ line ∈ lines, LineOk line) :
    rawLines (unlines lines) = lines := by
  induction lines with
  | nil => rfl
  | cons line lines ih =>
    have hl := h line (by simp)
    have ih := ih fun l hl => h l (List.mem_cons_of_mem _ hl)
    have e : unlines (line :: lines) = line ++ 10 :: unlines lines := by
      simp [unlines]
    rw [e, rawLines, splitLines_append hl.noBreak, List.filter_cons_of_pos hl.notBlank]
    rw [rawLines] at ih
    rw [ih]

theorem map_fst_numberedLines (text : JsString) :
    (numberedLines text).map Prod.fst = rawLines text := by
  have h := List.zipIdx_map_fst 1 (splitLines text)
  rw [rawLines, ← h, List.filter_map]
  rfl

theorem unlines_wellFormed {lines : List JsString} (h : ∀ line ∈ lines, LineOk line) :
    wellFormed (unlines lines) = true := by
  induction lines with
  | nil => rfl
  | cons line lines ih =>
    have hl := h line (by simp)
    have ih := ih fun l hl => h l (List.mem_cons_of_mem _ hl)
    have e : unlines (line :: lines) = line ++ ([10] ++ unlines lines) := by
      simp [unlines]
    rw [e]
    exact wellFormed_join hl.wellFormed (wellFormed_join (by decide) ih)

theorem unlines_append (xs ys : List JsString) : unlines (xs ++ ys) = unlines xs ++ unlines ys := by
  simp [unlines]

theorem utf8Encode_append {s : JsString} (h : wellFormed s = true) (t : JsString) :
    utf8Encode (s ++ t) = utf8Encode s ++ utf8Encode t := by
  fun_induction wellFormed s with
  | case1 => rfl
  | case2 => cases h
  | case3 c hc d r ih =>
    rw [Bool.and_eq_true] at h
    have e : ∀ u : JsString, utf8Encode (c :: d :: u) = utf8Scalar (pairScalar c d) ++ utf8Encode u := by
      intro u
      rw [utf8Encode.eq_def]
      simp [hc, h.1]
    rw [List.cons_append, List.cons_append, e, e, ih h.2, List.append_assoc]
  | case4 c r hc ih =>
    rw [Bool.and_eq_true, Bool.not_eq_true'] at h
    have hl : ¬isLow c = true := by simp [h.1]
    rw [List.cons_append, utf8Encode_plain _ hc hl, utf8Encode_plain _ hc hl, ih h.2,
      List.append_assoc]

variable {ν : Type} [JsNumber ν]

/-- The text of a value is a line. -/
theorem lineOk_stringify (v : Json ν) : LineOk (stringify v) := by
  have hp := printable_stringify v
  refine ⟨?_, hp.1, ?_⟩
  · intro c hc
    have h := hp.2 c hc
    rintro rfl
    revert h
    decide
  · obtain ⟨c, s, e, h1, h2⟩ := stringify_head v
    rw [e, notBlank, List.any_cons, Bool.or_eq_true]
    left
    simp [isTrimmed]
    omega

/-! ## Appending to a file of any content -/

/-- The file's text is empty or ends in a line feed. -/
def Terminated (file : Option Bytes) : Prop :=
  ∀ c ∈ (utf8Decode (file.getD [])).getLast?, c = 10

theorem splitLines_ne_nil (s : JsString) : splitLines s ≠ [] := by
  cases s with
  | nil => simp [splitLines]
  | cons c s =>
    rw [splitLines]
    split_ifs
    · simp
    · split <;> simp

theorem splitLines_eq_nil_line {s : JsString} (h : splitLines s = [[]]) : s = [] := by
  cases s with
  | nil => rfl
  | cons c s =>
    rw [splitLines] at h
    split_ifs at h
    · exact absurd (List.cons.inj h).2 (splitLines_ne_nil s)
    · split at h <;> simp at h

/-- What comes after a text continues its last line. -/
theorem splitLines_continue (s : JsString) : ∃ init last, splitLines s = init ++ [last] ∧
    (last = [] ↔ ∀ c ∈ s.getLast?, c = 10) ∧
    ∀ t, splitLines (s ++ t) = init ++ (splitLines t).modifyHead (last ++ ·) := by
  induction s with
  | nil =>
    refine ⟨[], [], rfl, by simp, ?_⟩
    intro t
    cases h : splitLines t <;> simp [h]
  | cons c s ih =>
    obtain ⟨init, last, hs, hlast, ht⟩ := ih
    by_cases hc : c = 10
    · subst hc
      refine ⟨[] :: init, last, ?_, ?_, ?_⟩
      · rw [splitLines, if_pos rfl, hs]
        rfl
      · cases s with
        | nil => simpa using hlast
        | cons d s => simpa using hlast
      · intro t
        rw [List.cons_append, splitLines, if_pos rfl, ht]
        rfl
    · cases init with
      | nil =>
        refine ⟨[], c :: last, ?_, ?_, ?_⟩
        · rw [splitLines, if_neg hc, hs]
          rfl
        · cases s with
          | nil => simp [hc]
          | cons d s =>
            have hne : last ≠ [] := by
              rintro rfl
              cases splitLines_eq_nil_line hs
            have hnot := mt hlast.mpr hne
            simpa using hnot
        · intro t
          rw [List.cons_append, splitLines, if_neg hc, ht]
          cases h : splitLines t with
          | nil => exact absurd h (splitLines_ne_nil t)
          | cons line lines => rfl
      | cons line init =>
        refine ⟨(c :: line) :: init, last, ?_, ?_, ?_⟩
        · rw [splitLines, if_neg hc, hs]
          rfl
        · cases s with
          | nil => cases init <;> cases hs
          | cons d s => simpa using hlast
        · intro t
          rw [List.cons_append, splitLines, if_neg hc, ht]
          rfl

/-- One more line: it is a line of its own exactly when the text before it was empty or ended in a
line feed. -/
theorem rawLines_append_iff {s line : JsString} (h : LineOk line) :
    rawLines (s ++ (line ++ [10])) = rawLines s ++ [line] ↔ ∀ c ∈ s.getLast?, c = 10 := by
  obtain ⟨init, last, hs, hlast, ht⟩ := splitLines_continue s
  have hline : splitLines (line ++ [10]) = [line, []] := splitLines_append h.noBreak []
  have hblank : notBlank [] = false := rfl
  have hcont : notBlank (last ++ line) = true := by
    rw [notBlank, List.any_append, Bool.or_eq_true]
    exact Or.inr h.notBlank
  have hnew : rawLines (s ++ (line ++ [10])) = init.filter notBlank ++ [last ++ line] := by
    rw [rawLines, ht, hline, List.modifyHead_cons, List.filter_append, List.filter_cons_of_pos hcont,
      List.filter_cons_of_neg (by simp [hblank]), List.filter_nil]
  have hold : rawLines s = init.filter notBlank ++ [last].filter notBlank := by
    rw [rawLines, hs, List.filter_append]
  rw [hnew, hold, ← hlast, List.append_assoc, List.append_cancel_left_eq]
  constructor
  · intro e
    cases hb : notBlank last
    · rw [List.filter_cons_of_neg (by simp [hb]), List.filter_nil, List.nil_append] at e
      simpa using e
    · rw [List.filter_cons_of_pos hb, List.filter_nil] at e
      have hl := congrArg List.length e
      simp at hl
  · intro e
    rw [e]
    rfl

/-- A value's text appended to a file follows the file's own text. -/
theorem utf8Decode_appendLine (file : Option Bytes) (v : Json ν) :
    utf8Decode (appendLine file (stringify v)) =
      utf8Decode (file.getD []) ++ (stringify v ++ [10]) := by
  obtain ⟨c, s, e, -, hc⟩ := stringify_head v
  have hw : wellFormed (stringify v ++ [10]) = true := by
    have h : wellFormed (unlines [stringify v]) = true :=
      unlines_wellFormed (by simp [lineOk_stringify])
    simpa [unlines] using h
  have hhead : ∃ b bytes, utf8Encode (stringify v ++ [10]) = b :: bytes ∧ b.toNat < 0x80 := by
    rw [e, List.cons_append, utf8Encode_plain _ (by simp [isHigh]; omega) (by simp [isLow]; omega),
      utf8Scalar, if_pos hc]
    refine ⟨_, _, rfl, ?_⟩
    rw [byte_toNat (by omega)]
    exact hc
  obtain ⟨b, bytes, hb, hlt⟩ := hhead
  rw [appendLine, hb, utf8Decode_append_ascii _ hlt, ← hb, utf8Decode_encode_of_wellFormed _ hw]

end Adlc.Framework
