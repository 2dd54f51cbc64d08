import Adlc.Framework.LineReader
import Adlc.Framework.Lines
import Adlc.Framework.TornLines

namespace Adlc.Framework

/-! Unified diffs as git renders them, and what they say about the new side. -/

/-! ## Diffs -/

inductive LineKind where
  | context | removed | added
  deriving DecidableEq

def LineKind.mark : LineKind → UInt16
  | .context => 32
  | .removed => 45
  | .added => 43

/-- A line of a hunk; `bare` says that its file ends there without a line end. -/
structure DiffLine where
  kind : LineKind
  text : JsString
  bare : Bool
  noBreak : 10 ∉ text

structure Hunk where
  oldStart : Nat
  newStart : Nat
  heading : JsString
  lines : List DiffLine
  noBreak : 10 ∉ heading

/-- What the lines between `diff --git` and the file names begin with. -/
def extendedKeywords : List JsString :=
  [js "old mode ", js "new mode ", js "deleted file mode ", js "new file mode ", js "copy from ",
    js "copy to ", js "rename from ", js "rename to ", js "similarity index ",
    js "dissimilarity index ", js "index ", js "Binary files "]

structure ExtendedLine where
  keyword : JsString
  rest : JsString
  known : keyword ∈ extendedKeywords
  noBreak : 10 ∉ rest

/-- The change of one file; a side that does not exist has no path, and a deleted file has removed
lines only. -/
structure FileDiff where
  oldPath : Option JsString
  newPath : Option JsString
  extended : List ExtendedLine
  hunks : List Hunk
  filled : ∀ path ∈ newPath, path ≠ []
  deleted : newPath = none → ∀ h ∈ hunks, ∀ l ∈ h.lines, l.kind = .removed

/-! ## The names of files -/

/-- The bytes that make git quote a name. -/
def needsQuote (b : UInt8) : Bool := b < 32 || 127 ≤ b || b = 34 || b = 92

/-- The letters of the bytes that have an escape of their own. -/
def escapeLetters : List (UInt8 × UInt16) :=
  [(7, 97), (8, 98), (9, 116), (10, 110), (11, 118), (12, 102), (13, 114), (34, 34), (92, 92)]

def quoteByte (b : UInt8) : JsString :=
  if needsQuote b then
    match escapeLetters.lookup b with
    | some c => [92, c]
    | none => [92, digitUnit (b.toNat / 64), digitUnit (b.toNat / 8 % 8), digitUnit (b.toNat % 8)]
  else [UInt16.ofNat b.toNat]

/-- A name with what stands before it, as git writes it: quoted when a byte of the name asks for it. -/
def pathLabel (start path : JsString) : JsString :=
  let bytes := utf8Encode path
  if bytes.any needsQuote then [34] ++ start ++ bytes.flatMap quoteByte ++ [34] else start ++ path

/-- What follows `--- ` or `+++ `: a name with a space is ended by a TAB. -/
def fileLabel (start : JsString) : Option JsString → JsString
  | none => js "/dev/null"
  | some path =>
    let label := pathLabel start path
    if 32 ∈ label then label ++ [9] else label

/-! ## Rendering -/

/-- A start with a count that is left out when it is 1. -/
def rangeText (start count : Nat) : JsString :=
  if count = 1 then natText start else natText start ++ [44] ++ natText count

def oldCount (lines : List DiffLine) : Nat := lines.countP fun l => decide (l.kind ≠ .added)

def newCount (lines : List DiffLine) : Nat := lines.countP fun l => decide (l.kind ≠ .removed)

theorem oldCount_cons (l : DiffLine) (lines : List DiffLine) :
    oldCount (l :: lines) = oldCount lines + if l.kind = .added then 0 else 1 := by
  rw [oldCount, List.countP_cons]
  cases l.kind <;> rfl

theorem newCount_cons (l : DiffLine) (lines : List DiffLine) :
    newCount (l :: lines) = newCount lines + if l.kind = .removed then 0 else 1 := by
  rw [newCount, List.countP_cons]
  cases l.kind <;> rfl

def Hunk.header (h : Hunk) : JsString :=
  js "@@ -" ++ rangeText h.oldStart (oldCount h.lines) ++ js " +" ++
    rangeText h.newStart (newCount h.lines) ++ js " @@" ++
      if h.heading = [] then [] else 32 :: h.heading

def bareMark : JsString := js "\\ No newline at end of file"

def DiffLine.render (l : DiffLine) : List JsString :=
  (l.kind.mark :: l.text) :: if l.bare then [bareMark] else []

def Hunk.render (h : Hunk) : List JsString := h.header :: h.lines.flatMap DiffLine.render

def ExtendedLine.render (l : ExtendedLine) : JsString := l.keyword ++ l.rest

def FileDiff.separator (f : FileDiff) : JsString :=
  js "diff --git " ++ pathLabel (js "a/") ((f.oldPath.orElse fun _ => f.newPath).getD []) ++ [32] ++
    pathLabel (js "b/") ((f.newPath.orElse fun _ => f.oldPath).getD [])

/-- The lines of one file, with or without the `diff --git` line and the extended header. -/
def FileDiff.render (separators : Bool) (f : FileDiff) : List JsString :=
  (if separators then f.separator :: f.extended.map ExtendedLine.render else []) ++
    if f.hunks = [] then []
    else
      [js "--- " ++ fileLabel (js "a/") f.oldPath, js "+++ " ++ fileLabel (js "b/") f.newPath] ++
        f.hunks.flatMap Hunk.render

def renderDiff (separators : Bool) (files : List FileDiff) : JsString :=
  unlines (files.flatMap (FileDiff.render separators))

/-! ## The new side -/

/-- The added lines with their numbers, when the next line of the new side has number `n`. -/
def addedFrom (n : Nat) : List DiffLine → List (Nat × JsString)
  | [] => []
  | l :: lines =>
    match l.kind with
    | .context => addedFrom (n + 1) lines
    | .removed => addedFrom n lines
    | .added => (n, l.text) :: addedFrom (n + 1) lines

def Hunk.added (h : Hunk) : List (Nat × JsString) := addedFrom h.newStart h.lines

def FileDiff.added (f : FileDiff) : List (Nat × JsString) := f.hunks.flatMap Hunk.added

theorem addedFrom_removed {lines : List DiffLine} (h : ∀ l ∈ lines, l.kind = .removed) (n : Nat) :
    addedFrom n lines = [] := by
  induction lines with
  | nil => rfl
  | cons l lines ih =>
    obtain ⟨hl, hlines⟩ := List.forall_mem_cons.mp h
    rw [addedFrom, hl]
    exact ih hlines

theorem FileDiff.added_deleted {f : FileDiff} (h : f.newPath = none) : f.added = [] := by
  refine List.flatMap_eq_nil_iff.mpr fun hunk hhunk => ?_
  exact addedFrom_removed (f.deleted h hunk hhunk) hunk.newStart

/-- A name that git writes as it stands. -/
def PlainPath (path : JsString) : Prop :=
  ∀ c ∈ path, 32 < c.toNat ∧ c.toNat < 127 ∧ c ≠ 34 ∧ c ≠ 92

instance (path : JsString) : Decidable (PlainPath path) := List.decidableBAll _ _

/-! ## Reading a hunk header -/

structure HunkRange where
  oldCount : Option Nat
  newStart : Nat
  newCount : Option Nat
  deriving DecidableEq

/-- `(?:,(\d+))?` -/
def readCount (s : JsString) : Option Nat × JsString :=
  if s.head? = some 44 then
    match readDigits s.tail with
    | some (n, rest) => (some n, rest)
    | none => (none, s)
  else (none, s)

/-- `/^@@ -\d+(?:,(\d+))? \+(\d+)(?:,(\d+))? @@/` -/
def readHunkHeader (s : JsString) : Option HunkRange := do
  let s ← expect (js "@@ -") s
  let (_, s) ← readDigits s
  let old := readCount s
  let s ← expect (js " +") old.2
  let (newStart, s) ← readDigits s
  let new := readCount s
  let _ ← expect (js " @@") new.2
  return { oldCount := old.1, newStart, newCount := new.1 }

/-- The count of a range that leaves out a count of 1. -/
def shownCount (n : Nat) : Option Nat := if n = 1 then none else some n

@[simp] theorem shownCount_getD (n : Nat) : (shownCount n).getD 1 = n := by
  unfold shownCount
  split_ifs with h
  · exact h.symm
  · rfl

/-- A range is read back, up to what follows it. -/
theorem read_rangeText (start count : Nat) {rest : JsString}
    (h : ∀ c ∈ rest.head?, isDigit c = false ∧ c ≠ 44) :
    ∃ s, readDigits (rangeText start count ++ rest) = some (start, s) ∧
      readCount s = (shownCount count, rest) := by
  have hdigit : ∀ c ∈ rest.head?, isDigit c = false := fun c hc => (h c hc).1
  unfold rangeText shownCount
  split_ifs with hcount
  · refine ⟨rest, readDigits_natText start hdigit, ?_⟩
    rw [readCount, if_neg]
    intro e
    exact (h 44 e).2 rfl
  · refine ⟨44 :: (natText count ++ rest), ?_, ?_⟩
    · rw [List.append_assoc, List.append_assoc]
      refine readDigits_natText start ?_
      intro c hc
      rw [← Option.some.inj hc]
      decide
    · rw [readCount, List.head?_cons, if_pos rfl, List.tail_cons, readDigits_natText count hdigit]

theorem readHunkHeader_header (h : Hunk) :
    readHunkHeader h.header =
      some ⟨shownCount (oldCount h.lines), h.newStart, shownCount (newCount h.lines)⟩ := by
  let heading := if h.heading = [] then [] else 32 :: h.heading
  let new := js " +" ++ (rangeText h.newStart (newCount h.lines) ++ (js " @@" ++ heading))
  have hheader : h.header = js "@@ -" ++ (rangeText h.oldStart (oldCount h.lines) ++ new) := by
    simp only [Hunk.header, List.append_assoc, heading, new]
  have hstop : ∀ c ∈ new.head?, isDigit c = false ∧ c ≠ 44 := by
    intro c hc
    rw [← Option.some.inj hc]
    decide
  have hstop' : ∀ c ∈ (js " @@" ++ heading).head?, isDigit c = false ∧ c ≠ 44 := by
    intro c hc
    rw [← Option.some.inj hc]
    decide
  obtain ⟨s, hs, hcount⟩ := read_rangeText h.oldStart (oldCount h.lines) hstop
  obtain ⟨s', hs', hcount'⟩ := read_rangeText h.newStart (newCount h.lines) hstop'
  rw [readHunkHeader, hheader, expect_append]
  simp only [Option.bind_eq_bind, Option.bind_some, hs, hcount, new, expect_append, hs', hcount', Option.pure_def]

/-! ## How names are written -/

theorem utf8Scalar_high {n : Nat} (h : 0x80 ≤ n) (hn : n < 0x110000) :
    (utf8Scalar n).any needsQuote = true := by
  have hquote : ∀ m, 0x80 ≤ m → m < 256 → needsQuote (byte m) = true := by
    intro m h1 h2
    have hb := byte_toNat h2
    simp only [needsQuote, Bool.or_eq_true, decide_eq_true_eq]
    left
    left
    right
    rw [UInt8.le_iff_toNat_le, hb]
    exact le_trans (by decide) h1
  rw [utf8Scalar, if_neg (by omega)]
  split_ifs <;> rw [List.any_cons, hquote _ (by omega) (by omega), Bool.true_or]

theorem utf8Encode_high {path : JsString} (h : ∃ c ∈ path, 0x80 ≤ c.toNat) :
    (utf8Encode path).any needsQuote = true := by
  induction path with
  | nil =>
    obtain ⟨c, hc, -⟩ := h
    cases hc
  | cons c path ih =>
    have hreplacement := utf8Scalar_high (n := 0xFFFD) (by decide) (by decide)
    rw [utf8Encode.eq_def]
    dsimp only
    split_ifs with hhigh hlow
    · split
      · exact hreplacement
      · split_ifs
        · rename_i d r hd
          have hscalar := pairScalar_scalar c d hhigh hd
          have hlarge : 0x80 ≤ pairScalar c d := by
            unfold pairScalar
            omega
          have hbound : pairScalar c d < 0x110000 := by
            unfold IsScalar at hscalar
            omega
          rw [List.any_append, utf8Scalar_high hlarge hbound, Bool.true_or]
        · rw [List.any_append, hreplacement, Bool.true_or]
    · rw [List.any_append, hreplacement, Bool.true_or]
    · rw [List.any_append]
      by_cases hc : 0x80 ≤ c.toNat
      · rw [utf8Scalar_high hc (by have := c.toNat_lt; omega), Bool.true_or]
      · obtain ⟨d, hd, hle⟩ := h
        obtain rfl | hd := List.mem_cons.mp hd
        · exact absurd hle hc
        · rw [ih ⟨d, hd, hle⟩, Bool.or_true]

theorem utf8Encode_ascii {path : JsString} (h : ∀ c ∈ path, c.toNat < 0x80) :
    utf8Encode path = path.map fun c => byte c.toNat := by
  induction path with
  | nil => rfl
  | cons c path ih =>
    obtain ⟨hc, hrest⟩ := List.forall_mem_cons.mp h
    have hhigh : ¬isHigh c = true := by
      simp only [isHigh, Bool.and_eq_true, decide_eq_true_eq]
      omega
    have hlow : ¬isLow c = true := by
      simp only [isLow, Bool.and_eq_true, decide_eq_true_eq]
      omega
    rw [utf8Encode_plain path hhigh hlow, ih hrest, utf8Scalar, if_pos hc]
    rfl

/-- The units that need no quotes. -/
def Printed (path : JsString) : Prop := ∀ c ∈ path, 32 ≤ c.toNat ∧ c.toNat < 127 ∧ c ≠ 34 ∧ c ≠ 92

instance (path : JsString) : Decidable (Printed path) := List.decidableBAll _ _

theorem needsQuote_byte {c : UInt16} (h : c.toNat < 0x80) :
    needsQuote (byte c.toNat) = false ↔ 32 ≤ c.toNat ∧ c.toNat < 127 ∧ c ≠ 34 ∧ c ≠ 92 := by
  have hb := byte_toNat (n := c.toNat) (by omega)
  have h34 : byte c.toNat = 34 ↔ c = 34 := by
    rw [← UInt8.toNat_inj, hb, ← UInt16.toNat_inj]
    exact Iff.rfl
  have h92 : byte c.toNat = 92 ↔ c = 92 := by
    rw [← UInt8.toNat_inj, hb, ← UInt16.toNat_inj]
    exact Iff.rfl
  have hlow : byte c.toNat < 32 ↔ c.toNat < 32 := by
    rw [UInt8.lt_iff_toNat_lt, hb]
    exact Iff.rfl
  have hhigh : 127 ≤ byte c.toNat ↔ 127 ≤ c.toNat := by
    rw [UInt8.le_iff_toNat_le, hb]
    exact Iff.rfl
  simp only [needsQuote, Bool.or_eq_false_iff, decide_eq_false_iff_not, h34, h92, hlow, hhigh, not_lt, not_le,
    and_assoc]

theorem needsQuote_iff (path : JsString) :
    (utf8Encode path).any needsQuote = false ↔ Printed path := by
  by_cases hhigh : ∃ c ∈ path, 0x80 ≤ c.toNat
  · rw [utf8Encode_high hhigh]
    obtain ⟨c, hc, hle⟩ := hhigh
    constructor
    · exact fun h => by cases h
    · intro h
      have hlt := (h c hc).2.1
      omega
  · push Not at hhigh
    rw [utf8Encode_ascii hhigh, List.any_map, List.any_eq_false]
    refine forall₂_congr fun c hc => ?_
    rw [Function.comp_apply, Bool.not_eq_true, needsQuote_byte (hhigh c hc)]

theorem length_utf8Encode (path : JsString) : path.length ≤ (utf8Encode path).length := by
  have hscalar : ∀ n, 1 ≤ (utf8Scalar n).length := by
    intro n
    rw [utf8Scalar]
    split_ifs <;> simp
  have hpair : ∀ c d, 2 ≤ (utf8Scalar (pairScalar c d)).length := by
    intro c d
    have hlarge : 0x10000 ≤ pairScalar c d := by
      unfold pairScalar
      omega
    rw [utf8Scalar, if_neg (by omega), if_neg (by omega), if_neg (by omega)]
    simp
  fun_induction utf8Encode path with
  | case1 => exact le_rfl
  | case2 c hc => simp [utf8Scalar]
  | case3 c hc d r hd ih =>
    have h := hpair c d
    simp only [List.length_cons, List.length_append]
    omega
  | case4 c hc d r hd ih =>
    have h := hscalar 0xFFFD
    simp only [List.length_cons, List.length_append] at ih ⊢
    omega
  | case5 c r hc hl ih =>
    have h := hscalar 0xFFFD
    simp only [List.length_cons, List.length_append]
    omega
  | case6 c r hc hl ih =>
    have h := hscalar c.toNat
    simp only [List.length_cons, List.length_append]
    omega

/-- The units that a name is written with. -/
def Shown (s : JsString) : Prop := ∀ c ∈ s, c = 9 ∨ (32 ≤ c.toNat ∧ c.toNat < 127)

theorem Shown.append {s t : JsString} (hs : Shown s) (ht : Shown t) : Shown (s ++ t) := by
  intro c hc
  obtain hc | hc := List.mem_append.mp hc
  · exact hs c hc
  · exact ht c hc

theorem Shown.noBreak {s : JsString} (h : Shown s) : 10 ∉ s := by
  intro hc
  obtain e | ⟨hle, -⟩ := h 10 hc
  · exact absurd e (by decide)
  · exact absurd hle (by decide)

theorem Printed.shown {s : JsString} (h : Printed s) : Shown s := fun c hc =>
  Or.inr ⟨(h c hc).1, (h c hc).2.1⟩

theorem quoteByte_shown (b : UInt8) : Shown (quoteByte b) := by
  have hb := b.toNat_lt
  have hdigit : ∀ d, d < 10 → 32 ≤ (digitUnit d).toNat ∧ (digitUnit d).toNat < 127 := by
    intro d hd
    rw [digitUnit_toNat hd]
    omega
  unfold quoteByte
  split_ifs with hq
  · split
    · rename_i c hc
      have hletters : (escapeLetters.all fun p => decide (32 ≤ p.2.toNat ∧ p.2.toNat < 127)) = true := by
        decide
      obtain ⟨before, after, hmem, -⟩ := List.lookup_eq_some_iff.mp hc
      have hletter := of_decide_eq_true (List.all_eq_true.mp hletters (b, c) (by rw [hmem]; simp))
      intro d hd
      obtain rfl | hd := List.mem_cons.mp hd
      · decide
      · rw [List.mem_singleton.mp hd]
        exact Or.inr hletter
    · intro d hd
      simp only [List.mem_cons, List.not_mem_nil, or_false] at hd
      obtain rfl | rfl | rfl | rfl := hd
      · decide
      · exact Or.inr (hdigit _ (by omega))
      · exact Or.inr (hdigit _ (by omega))
      · exact Or.inr (hdigit _ (by omega))
  · intro d hd
    rw [List.mem_singleton.mp hd]
    rw [Bool.not_eq_true] at hq
    simp only [needsQuote, Bool.or_eq_false_iff, decide_eq_false_iff_not, not_lt, not_le,
      UInt8.le_iff_toNat_le, UInt8.lt_iff_toNat_lt] at hq
    obtain ⟨⟨⟨h1, h2⟩, -⟩, -⟩ := hq
    have hunit : (UInt16.ofNat b.toNat).toNat = b.toNat := Nat.mod_eq_of_lt (by omega)
    rw [hunit]
    exact Or.inr ⟨h1, h2⟩

theorem quoteByte_ne_nil (b : UInt8) : 1 ≤ (quoteByte b).length := by
  unfold quoteByte
  split_ifs
  · split <;> exact Nat.succ_pos _
  · exact le_rfl

theorem PlainPath.printed {path : JsString} (h : PlainPath path) : Printed path := fun c hc =>
  ⟨Nat.le_of_lt (h c hc).1, (h c hc).2⟩

theorem Printed.plain {path : JsString} (h : Printed path) (hs : 32 ∉ path) : PlainPath path := by
  intro c hc
  obtain ⟨h1, h2⟩ := h c hc
  have hne : c ≠ 32 := fun e => hs (e ▸ hc)
  refine ⟨lt_of_le_of_ne h1 ?_, h2⟩
  exact fun e => hne (UInt16.toNat_inj.mp e.symm)

theorem PlainPath.noSpace {path : JsString} (h : PlainPath path) : 32 ∉ path := fun hc =>
  absurd (h 32 hc).1 (by decide)

theorem PlainPath.noTab {path : JsString} (h : PlainPath path) : 9 ∉ path := fun hc =>
  absurd (h 9 hc).1 (by decide)

/-- A name stands as it is, is ended by a TAB, or is quoted. -/
inductive LabelCase (path : JsString) : JsString → Prop where
  | plain (h : PlainPath path) : LabelCase path (js "b/" ++ path)
  | spaced (h : Printed path) (hs : 32 ∈ path) : LabelCase path (js "b/" ++ path ++ [9])
  | quoted (h : ¬Printed path) (s : JsString) (hs : path.length ≤ s.length) : LabelCase path (34 :: s)

theorem fileLabel_cases (path : JsString) : LabelCase path (fileLabel (js "b/") (some path)) := by
  by_cases hq : Printed path
  · have hlabel : pathLabel (js "b/") path = js "b/" ++ path := by
      rw [pathLabel, if_neg]
      rw [(needsQuote_iff path).mpr hq]
      exact Bool.false_ne_true
    have hspace : 32 ∈ js "b/" ++ path ↔ 32 ∈ path := by
      rw [List.mem_append, or_iff_right (by decide)]
    rw [fileLabel, hlabel]
    split_ifs with hs
    · exact .spaced hq (hspace.mp hs)
    · exact .plain (hq.plain fun h => hs (hspace.mpr h))
  · have hany : (utf8Encode path).any needsQuote = true := by
      rw [← Bool.not_eq_false]
      exact fun h => hq ((needsQuote_iff path).mp h)
    have hlength : path.length ≤ ((utf8Encode path).flatMap quoteByte).length := by
      have hbytes : ∀ bytes : Bytes, bytes.length ≤ (bytes.flatMap quoteByte).length := by
        intro bytes
        induction bytes with
        | nil => exact Nat.zero_le _
        | cons b bytes ih =>
          have hb := quoteByte_ne_nil b
          rw [List.flatMap_cons, List.length_append, List.length_cons]
          omega
      exact le_trans (length_utf8Encode path) (hbytes _)
    rw [fileLabel, pathLabel, if_pos hany]
    split_ifs
    · refine .quoted hq (js "b/" ++ (utf8Encode path).flatMap quoteByte ++ [34] ++ [9]) ?_
      simp only [List.length_append]
      omega
    · refine .quoted hq (js "b/" ++ (utf8Encode path).flatMap quoteByte ++ [34]) ?_
      simp only [List.length_append]
      omega

theorem pathLabel_shown {start : JsString} (hstart : Shown start) (path : JsString) :
    Shown (pathLabel start path) := by
  have hquote : Shown [34] := by
    intro c hc
    rw [List.mem_singleton.mp hc]
    decide
  unfold pathLabel
  dsimp only
  split_ifs with hq
  · refine ((hquote.append hstart).append ?_).append hquote
    intro c hc
    obtain ⟨b, -, hc⟩ := List.mem_flatMap.mp hc
    exact quoteByte_shown b c hc
  · rw [Bool.not_eq_true] at hq
    exact hstart.append ((needsQuote_iff path).mp hq).shown

theorem fileLabel_shown {start : JsString} (hstart : Shown start) (path : Option JsString) :
    Shown (fileLabel start path) := by
  cases path with
  | none =>
    have hnull : Shown (js "/dev/null") := forall_mem_of_all (by decide)
    exact hnull
  | some path =>
    unfold fileLabel
    dsimp only
    split_ifs
    · refine (pathLabel_shown hstart path).append ?_
      intro c hc
      exact Or.inl (List.mem_singleton.mp hc)
    · exact pathLabel_shown hstart path

/-! ## Lines of a rendering -/

theorem noBreak_of_digits {s : JsString} (h : s.all isDigit = true) : 10 ∉ s := fun hc =>
  absurd (List.all_eq_true.mp h 10 hc) (by decide)

theorem rangeText_noBreak (start count : Nat) : 10 ∉ rangeText start count := by
  have hstart := noBreak_of_digits (natText_digits start).2
  have hcount := noBreak_of_digits (natText_digits count).2
  unfold rangeText
  split_ifs
  · exact hstart
  · simp only [List.mem_append, not_or]
    exact ⟨⟨hstart, by decide⟩, hcount⟩

theorem Hunk.header_noBreak (h : Hunk) : 10 ∉ h.header := by
  have hheading : 10 ∉ if h.heading = [] then [] else 32 :: h.heading := by
    split_ifs
    · exact List.not_mem_nil
    · exact List.not_mem_cons_of_ne_of_not_mem (by decide) h.noBreak
  unfold Hunk.header
  simp only [List.mem_append, not_or]
  exact ⟨⟨⟨⟨⟨by decide, rangeText_noBreak _ _⟩, by decide⟩, rangeText_noBreak _ _⟩, by decide⟩, hheading⟩

theorem DiffLine.render_noBreak (l : DiffLine) : ∀ line ∈ l.render, 10 ∉ line := by
  have hmark : (10 : UInt16) ≠ l.kind.mark := by cases l.kind <;> decide
  intro line hline
  obtain rfl | hline := List.mem_cons.mp hline
  · exact List.not_mem_cons_of_ne_of_not_mem hmark l.noBreak
  · split_ifs at hline
    · rw [List.mem_singleton.mp hline]
      decide
    · cases hline

theorem Hunk.render_noBreak (h : Hunk) : ∀ line ∈ h.render, 10 ∉ line := by
  intro line hline
  obtain rfl | hline := List.mem_cons.mp hline
  · exact h.header_noBreak
  · obtain ⟨l, -, hline⟩ := List.mem_flatMap.mp hline
    exact l.render_noBreak line hline

theorem ExtendedLine.render_noBreak (l : ExtendedLine) : 10 ∉ l.render := by
  have hkeyword : ∀ k ∈ extendedKeywords, 10 ∉ k := by decide
  exact fun h => (List.mem_append.mp h).elim (hkeyword _ l.known) l.noBreak

theorem shown_side (c : UInt16) (h : c = 97 ∨ c = 98) : Shown [c, 47] := by
  obtain rfl | rfl := h
  · exact forall_mem_of_all (by decide)
  · exact forall_mem_of_all (by decide)

theorem FileDiff.separator_noBreak (f : FileDiff) : 10 ∉ f.separator := by
  have ha := (pathLabel_shown (shown_side 97 (Or.inl rfl))
    ((f.oldPath.orElse fun _ => f.newPath).getD [])).noBreak
  have hb := (pathLabel_shown (shown_side 98 (Or.inr rfl))
    ((f.newPath.orElse fun _ => f.oldPath).getD [])).noBreak
  unfold FileDiff.separator
  simp only [List.mem_append, not_or]
  exact ⟨⟨⟨by decide, ha⟩, by decide⟩, hb⟩

theorem FileDiff.render_noBreak (separators : Bool) (f : FileDiff) :
    ∀ line ∈ f.render separators, 10 ∉ line := by
  have ha := (fileLabel_shown (shown_side 97 (Or.inl rfl)) f.oldPath).noBreak
  have hb := (fileLabel_shown (shown_side 98 (Or.inr rfl)) f.newPath).noBreak
  intro line hline
  obtain hline | hline := List.mem_append.mp hline
  · split_ifs at hline
    · obtain rfl | hline := List.mem_cons.mp hline
      · exact f.separator_noBreak
      · obtain ⟨l, -, rfl⟩ := List.mem_map.mp hline
        exact l.render_noBreak
    · cases hline
  · split_ifs at hline
    · cases hline
    · obtain hline | hline := List.mem_append.mp hline
      · obtain rfl | hline := List.mem_cons.mp hline
        · exact fun h => (List.mem_append.mp h).elim (by decide) ha
        · rw [List.mem_singleton.mp hline]
          exact fun h => (List.mem_append.mp h).elim (by decide) hb
      · obtain ⟨h, -, hline⟩ := List.mem_flatMap.mp hline
        exact h.render_noBreak line hline

theorem splitLines_unlines {lines : List JsString} (h : ∀ line ∈ lines, 10 ∉ line) :
    splitLines (unlines lines) = lines ++ [[]] := by
  induction lines with
  | nil => rfl
  | cons line lines ih =>
    obtain ⟨hline, hlines⟩ := List.forall_mem_cons.mp h
    have hne : ∀ c ∈ line, c ≠ 10 := fun c hc e => hline (e ▸ hc)
    rw [unlines_cons, splitLines_append hne, ih hlines, List.cons_append]

/-- Splitting a rendering gives its lines, and the empty text after the last. -/
theorem splitLines_renderDiff (separators : Bool) (files : List FileDiff) :
    splitLines (renderDiff separators files) = files.flatMap (FileDiff.render separators) ++ [[]] := by
  refine splitLines_unlines ?_
  intro line hline
  obtain ⟨f, -, hline⟩ := List.mem_flatMap.mp hline
  exact f.render_noBreak separators line hline

/-! ## Lines between the hunks -/

/-- A line that no file name, hunk or separator begins with. -/
def Quiet (line : JsString) : Prop := ∀ t ∈ [js "diff --git ", js "+++ ", js "@@"], ¬t.isPrefixOf line = true

instance (line : JsString) : Decidable (Quiet line) := by unfold Quiet; infer_instance

theorem ExtendedLine.quiet (l : ExtendedLine) : Quiet l.render := by
  have hkeyword : ∀ k ∈ extendedKeywords, ∀ t ∈ [js "diff --git ", js "+++ ", js "@@"],
      ¬t <+: k ∧ ¬k <+: t := by decide
  intro t ht h
  obtain ⟨htk, hkt⟩ := hkeyword _ l.known t ht
  obtain hp | hp := List.prefix_or_prefix_of_prefix (List.isPrefixOf_iff_prefix.mp h)
    (List.prefix_append l.keyword l.rest)
  · exact htk hp
  · exact hkt hp

end Adlc.Framework
