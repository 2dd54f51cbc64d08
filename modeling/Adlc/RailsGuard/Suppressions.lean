import Adlc.Framework.Regex
import Adlc.Framework.UnifiedDiff

namespace Adlc.RailsGuard

open Framework

/-! The added lines of a diff. -/

structure AddedLine where
  file : JsString
  lineNo : Int
  content : JsString
  deriving DecidableEq

/-- The variables of the loop; a counter that was never set is `none`. -/
structure ScanState where
  currentFile : Option JsString
  newLineNo : Int
  inHunk : Bool
  oldRemaining : Option Int
  newRemaining : Option Int
  results : List AddedLine

def ScanState.start : ScanState := ⟨none, 0, false, none, none, []⟩

/-- `/^\+\+\+ (?:b\/)?(.+)$/`, on what follows `+++ ` -/
def readFileName (s : JsString) : Option JsString :=
  if s = [] ∨ s.any endsLine then none
  else
    match expect (js "b/") s with
    | some name => if name = [] then some s else some name
    | none => some s

/-- The first place of a line that reads as a hunk header. -/
def findHunkHeader (line : JsString) : Option HunkRange := line.tails.findSome? readHunkHeader

/-- A hunk whose counts are used up is over. -/
def ScanState.close (s : ScanState) : ScanState :=
  if s.inHunk ∧ s.oldRemaining = some 0 ∧ s.newRemaining = some 0 then { s with inHunk := false } else s

/-- A line of the body of a hunk. -/
def ScanState.body (s : ScanState) (raw : JsString) : ScanState :=
  if (js " ").isPrefixOf raw then
    { s with newLineNo := s.newLineNo + 1, oldRemaining := s.oldRemaining.map (· - 1),
             newRemaining := s.newRemaining.map (· - 1) }
  else if (js "-").isPrefixOf raw then { s with oldRemaining := s.oldRemaining.map (· - 1) }
  else if (js "+").isPrefixOf raw then
    { s with newLineNo := s.newLineNo + 1, newRemaining := s.newRemaining.map (· - 1),
             results := s.results ++
               match s.currentFile with
               | some file => [⟨file, s.newLineNo + 1, raw.drop 1⟩]
               | none => [] }
  else s

/-- One round of the loop. -/
def scanLine (s : ScanState) (raw : JsString) : ScanState :=
  if (js "diff --git ").isPrefixOf raw then { s with inHunk := false }
  else
    let s := s.close
    if ¬s.inHunk ∧ (js "+++ ").isPrefixOf raw then
      { s with currentFile := readFileName (raw.drop 4), newLineNo := 0 }
    else if (js "@@").isPrefixOf raw then
      match findHunkHeader raw with
      | some m =>
        { s with oldRemaining := some (m.oldCount.getD 1), newLineNo := (m.newStart : Int) - 1,
                 newRemaining := some (m.newCount.getD 1), inHunk := true }
      | none => { s with inHunk := true }
    else if ¬s.inHunk then s
    else s.body raw

def parseAddedLines (diffText : JsString) : List AddedLine :=
  ((splitLines diffText).foldl scanLine .start).results

/-- What the diff really adds. -/
def realAddedLines (files : List FileDiff) : List AddedLine :=
  files.flatMap fun f =>
    match f.newPath with
    | some path => f.added.map fun p => ⟨path, p.1, p.2⟩
    | none => []

/-! ## One hunk -/

/-- Between two hunks. -/
def ScanState.Closed (s : ScanState) : Prop :=
  s.inHunk = false ∨ (s.oldRemaining = some 0 ∧ s.newRemaining = some 0)

/-- In a hunk of which `lines` are left, the next line of the new side having number `n`. -/
structure ScanState.Reading (s : ScanState) (lines : List DiffLine) (n : Nat) : Prop where
  inHunk : s.inHunk = true ∨ lines = []
  oldRemaining : s.oldRemaining = some (oldCount lines : Int)
  newRemaining : s.newRemaining = some (newCount lines : Int)
  newLineNo : s.newLineNo = (n : Int) - 1

/-- The lines of a hunk under the name the scan has at hand. -/
def underName (file : Option JsString) (added : List (Nat × JsString)) : List AddedLine :=
  match file with
  | some file => added.map fun p => ⟨file, p.1, p.2⟩
  | none => []

theorem ScanState.Closed.close {s : ScanState} (h : s.Closed) : s.close = { s with inHunk := false } := by
  unfold ScanState.close
  split_ifs with hzero
  · rfl
  · cases e : s.inHunk with
    | false => rw [← e]
    | true =>
      obtain h | h := h
      · rw [e] at h
        cases h
      · exact absurd ⟨e, h⟩ hzero

theorem scan_quiet {s : ScanState} (h : s.Closed) {raw : JsString} (hq : Quiet raw) :
    scanLine s raw = { s with inHunk := false } := by
  have hgit := hq (js "diff --git ") (by simp)
  have hname := hq (js "+++ ") (by simp)
  have hat := hq (js "@@") (by simp)
  rw [scanLine, if_neg hgit, h.close]
  dsimp only
  rw [if_neg (fun e => hname e.2), if_neg hat, if_pos Bool.false_ne_true]

theorem scan_name {s : ScanState} (h : s.Closed) (label : JsString) :
    scanLine s (js "+++ " ++ label) =
      { s with inHunk := false, currentFile := readFileName label, newLineNo := 0 } := by
  rw [scanLine, if_neg (by exact Bool.false_ne_true), h.close]
  dsimp only
  rw [if_pos ⟨Bool.false_ne_true, by exact rfl⟩]
  rfl

theorem scan_header {s : ScanState} (h : s.Closed) (hunk : Hunk) :
    (scanLine s hunk.header).Reading hunk.lines hunk.newStart ∧
      (scanLine s hunk.header).currentFile = s.currentFile ∧
      (scanLine s hunk.header).results = s.results := by
  have hfind : findHunkHeader hunk.header = readHunkHeader hunk.header := by
    have htails : hunk.header.tails = hunk.header :: hunk.header.tail.tails := by
      rfl
    rw [findHunkHeader, htails, List.findSome?_cons, readHunkHeader_header]
  have hscan : scanLine s hunk.header =
      { s with oldRemaining := some (oldCount hunk.lines), newLineNo := (hunk.newStart : Int) - 1,
               newRemaining := some (newCount hunk.lines), inHunk := true } := by
    have hgit : ¬(js "diff --git ").isPrefixOf hunk.header = true := by exact Bool.false_ne_true
    have hname : ¬(js "+++ ").isPrefixOf hunk.header = true := by exact Bool.false_ne_true
    have hat : (js "@@").isPrefixOf hunk.header = true := by rfl
    rw [scanLine, if_neg hgit, h.close]
    dsimp only
    rw [if_neg (fun e => hname e.2), if_pos hat, hfind, readHunkHeader_header]
    simp only [shownCount_getD]
  rw [hscan]
  exact ⟨⟨Or.inl rfl, rfl, rfl, rfl⟩, rfl, rfl⟩

/-- What a step leaves as it was, but for the lines it adds. -/
structure Extends (s s' : ScanState) (added : List (Nat × JsString)) : Prop where
  currentFile : s'.currentFile = s.currentFile
  results : s'.results = s.results ++ underName s.currentFile added

theorem Extends.trans {s s' s'' : ScanState} {added added' : List (Nat × JsString)}
    (h : Extends s s' added) (h' : Extends s' s'' added') : Extends s s'' (added ++ added') := by
  refine ⟨h'.currentFile.trans h.currentFile, ?_⟩
  rw [h'.results, h.results, h.currentFile, List.append_assoc]
  unfold underName
  split
  · rw [List.map_append]
  · rfl

theorem Extends.none (s : ScanState) (b : Bool) : Extends s { s with inHunk := b } [] := by
  refine ⟨rfl, ?_⟩
  unfold underName
  split <;> exact (List.append_nil _).symm

def nextNumber (n : Nat) (l : DiffLine) : Nat := if l.kind = .removed then n else n + 1

theorem addedFrom_cons (n : Nat) (l : DiffLine) (lines : List DiffLine) :
    addedFrom n (l :: lines) = addedFrom n [l] ++ addedFrom (nextNumber n l) lines := by
  obtain ⟨kind, text, bare, hbreak⟩ := l
  cases kind <;> rfl

theorem counts_pos (l : DiffLine) (lines : List DiffLine) :
    ¬(oldCount (l :: lines) = 0 ∧ newCount (l :: lines) = 0) := by
  rintro ⟨hold, hnew⟩
  have hold := List.countP_eq_zero.mp hold l List.mem_cons_self
  have hnew := List.countP_eq_zero.mp hnew l List.mem_cons_self
  simp only [decide_eq_true_eq, ne_eq, not_not] at hold hnew
  rw [hold] at hnew
  cases hnew

theorem scan_line {s : ScanState} {l : DiffLine} {lines : List DiffLine} {n : Nat}
    (h : s.Reading (l :: lines) n) :
    (scanLine s (l.kind.mark :: l.text)).Reading lines (nextNumber n l) ∧
      Extends s (scanLine s (l.kind.mark :: l.text)) (addedFrom n [l]) := by
  have hin : s.inHunk = true := h.inHunk.resolve_right (List.cons_ne_nil _ _)
  have hclose : s.close = s := by
    rw [ScanState.close, if_neg]
    rintro ⟨-, hold, hnew⟩
    rw [h.oldRemaining] at hold
    rw [h.newRemaining] at hnew
    exact counts_pos l lines ⟨Int.ofNat.inj (Option.some.inj hold), Int.ofNat.inj (Option.some.inj hnew)⟩
  have hscan : scanLine s (l.kind.mark :: l.text) = s.body (l.kind.mark :: l.text) := by
    have hgit : ¬(js "diff --git ").isPrefixOf (l.kind.mark :: l.text) = true := by
      cases l.kind <;> exact Bool.false_ne_true
    have hat : ¬(js "@@").isPrefixOf (l.kind.mark :: l.text) = true := by
      cases l.kind <;> exact Bool.false_ne_true
    rw [scanLine, if_neg hgit, hclose]
    dsimp only
    rw [if_neg (fun e => e.1 hin), if_neg hat, if_neg (fun e => e hin)]
  rw [hscan]
  obtain ⟨kind, text, bare, hbreak⟩ := l
  obtain ⟨-, hold, hnew, hno⟩ := h
  rw [oldCount_cons] at hold
  rw [newCount_cons] at hnew
  have hdown : ∀ k : Nat, (some ((k + 1 : Nat) : Int)).map (· - 1) = some (k : Int) := by
    intro k
    rw [Option.map_some, Nat.cast_succ, add_sub_cancel_right]
  cases kind with
  | context =>
    refine ⟨⟨Or.inl hin, ?_, ?_, ?_⟩, rfl, ?_⟩
    · change s.oldRemaining.map (· - 1) = _
      rw [hold]
      exact hdown _
    · change s.newRemaining.map (· - 1) = _
      rw [hnew]
      exact hdown _
    · change s.newLineNo + 1 = ((n + 1 : Nat) : Int) - 1
      omega
    · change s.results = s.results ++ underName s.currentFile []
      exact (Extends.none s true).results
  | removed =>
    refine ⟨⟨Or.inl hin, ?_, ?_, hno⟩, rfl, ?_⟩
    · change s.oldRemaining.map (· - 1) = _
      rw [hold]
      exact hdown _
    · exact hnew
    · change s.results = s.results ++ underName s.currentFile []
      exact (Extends.none s true).results
  | added =>
    refine ⟨⟨Or.inl hin, ?_, ?_, ?_⟩, rfl, ?_⟩
    · exact hold
    · change s.newRemaining.map (· - 1) = _
      rw [hnew]
      exact hdown _
    · change s.newLineNo + 1 = ((n + 1 : Nat) : Int) - 1
      omega
    · have hnumber : s.newLineNo + 1 = n := by omega
      have hresults : ((s.body (LineKind.added.mark :: text)).results : List AddedLine) = s.results ++
          match s.currentFile with
          | some file => [⟨file, s.newLineNo + 1, text⟩]
          | none => [] := rfl
      change (s.body (LineKind.added.mark :: text)).results = _
      rw [hresults, hnumber]
      rfl

/-- The mark of a file without a line end ends a hunk at most. -/
theorem scan_bareMark {s : ScanState} {lines : List DiffLine} {n : Nat} (h : s.Reading lines n) :
    (scanLine s bareMark).Reading lines n ∧ Extends s (scanLine s bareMark) [] := by
  have hname : ¬(js "+++ ").isPrefixOf bareMark = true := by decide
  have hscan : scanLine s bareMark = s.close := by
    rw [scanLine, if_neg (by decide)]
    dsimp only
    rw [if_neg (fun e => hname e.2), if_neg (by decide)]
    split_ifs
    · rfl
    · rfl
  rw [hscan]
  obtain ⟨hin, hold, hnew, hno⟩ := h
  unfold ScanState.close
  split_ifs with hzero
  · have hlines : lines = [] := by
      cases lines with
      | nil => rfl
      | cons l lines =>
        obtain ⟨-, hold', hnew'⟩ := hzero
        rw [hold] at hold'
        rw [hnew] at hnew'
        exact absurd ⟨Int.ofNat.inj (Option.some.inj hold'), Int.ofNat.inj (Option.some.inj hnew')⟩
          (counts_pos l lines)
    exact ⟨⟨Or.inr hlines, hold, hnew, hno⟩, Extends.none s false⟩
  · exact ⟨⟨hin, hold, hnew, hno⟩, Extends.none s s.inHunk⟩

theorem scan_lines (lines : List DiffLine) {s : ScanState} {n : Nat} (h : s.Reading lines n) :
    ((lines.flatMap DiffLine.render).foldl scanLine s).Closed ∧
      Extends s ((lines.flatMap DiffLine.render).foldl scanLine s) (addedFrom n lines) := by
  induction lines generalizing s n with
  | nil => exact ⟨Or.inr ⟨h.oldRemaining, h.newRemaining⟩, Extends.none s s.inHunk⟩
  | cons l lines ih =>
    obtain ⟨hline, hext⟩ := scan_line h
    have hrender : ∃ s', l.render.foldl scanLine s = s' ∧ s'.Reading lines (nextNumber n l) ∧
        Extends s s' (addedFrom n [l]) := by
      unfold DiffLine.render
      split_ifs
      · obtain ⟨hmark, hsame⟩ := scan_bareMark hline
        refine ⟨_, rfl, hmark, ?_⟩
        have hboth := hext.trans hsame
        rwa [List.append_nil] at hboth
      · exact ⟨_, rfl, hline, hext⟩
    obtain ⟨s', hs', hread, hext'⟩ := hrender
    obtain ⟨hclosed, hrest⟩ := ih hread
    rw [List.flatMap_cons, List.foldl_append, hs', addedFrom_cons]
    exact ⟨hclosed, hext'.trans hrest⟩

theorem scan_hunk (hunk : Hunk) {s : ScanState} (h : s.Closed) :
    (hunk.render.foldl scanLine s).Closed ∧ Extends s (hunk.render.foldl scanLine s) hunk.added := by
  obtain ⟨hread, hfile, hresults⟩ := scan_header h hunk
  obtain ⟨hclosed, hext⟩ := scan_lines hunk.lines hread
  refine ⟨hclosed, hext.currentFile.trans hfile, ?_⟩
  rw [← hfile, ← hresults]
  exact hext.results

theorem scan_hunks (hunks : List Hunk) {s : ScanState} (h : s.Closed) :
    ((hunks.flatMap Hunk.render).foldl scanLine s).Closed ∧
      Extends s ((hunks.flatMap Hunk.render).foldl scanLine s) (hunks.flatMap Hunk.added) := by
  induction hunks generalizing s with
  | nil => exact ⟨h, Extends.none s s.inHunk⟩
  | cons hunk hunks ih =>
    obtain ⟨hclosed, hext⟩ := scan_hunk hunk h
    obtain ⟨hclosed', hext'⟩ := ih hclosed
    rw [List.flatMap_cons, List.foldl_append, List.flatMap_cons]
    exact ⟨hclosed', hext.trans hext'⟩

/-! ## One file -/

theorem scan_quiets (lines : List JsString) (hq : ∀ line ∈ lines, Quiet line) {s : ScanState}
    (h : s.Closed) :
    (lines.foldl scanLine s).Closed ∧ (lines.foldl scanLine s).results = s.results := by
  induction lines generalizing s with
  | nil => exact ⟨h, rfl⟩
  | cons line lines ih =>
    obtain ⟨hline, hlines⟩ := List.forall_mem_cons.mp hq
    obtain ⟨hclosed, hresults⟩ := ih hlines (s := { s with inHunk := false }) (Or.inl rfl)
    rw [List.foldl_cons, scan_quiet h hline]
    exact ⟨hclosed, hresults⟩

/-- The name that the scan reads for a file. -/
def scannedName (f : FileDiff) : Option JsString := readFileName (fileLabel (js "b/") f.newPath)

theorem scan_start (separators : Bool) (f : FileDiff) {s : ScanState} (h : s.Closed) :
    ∃ s', (if separators then f.separator :: f.extended.map ExtendedLine.render else []).foldl scanLine s = s' ∧
      s'.Closed ∧ s'.results = s.results := by
  split_ifs
  · have hgit : (js "diff --git ").isPrefixOf f.separator = true := by rfl
    have hquiet : ∀ line ∈ f.extended.map ExtendedLine.render, Quiet line := by
      intro line hline
      obtain ⟨l, -, rfl⟩ := List.mem_map.mp hline
      exact l.quiet
    refine ⟨_, rfl, ?_⟩
    rw [List.foldl_cons, scanLine, if_pos hgit]
    exact scan_quiets _ hquiet (Or.inl rfl)
  · exact ⟨s, rfl, h, rfl⟩

theorem scan_file (separators : Bool) (f : FileDiff) {s : ScanState} (h : s.Closed) :
    ((f.render separators).foldl scanLine s).Closed ∧
      ((f.render separators).foldl scanLine s).results =
        s.results ++ underName (scannedName f) f.added := by
  obtain ⟨s', hs', hclosed, hresults⟩ := scan_start separators f h
  rw [FileDiff.render, List.foldl_append, hs', ← hresults]
  split_ifs with hhunks
  · have hadded : f.added = [] := by
      rw [FileDiff.added, hhunks]
      rfl
    refine ⟨hclosed, ?_⟩
    rw [hadded]
    exact (Extends.none s' s'.inHunk).results.trans (by unfold underName; split <;> split <;> rfl)
  · have hold : Quiet (js "--- " ++ fileLabel (js "a/") f.oldPath) := by
      intro t ht
      simp only [List.mem_cons, List.not_mem_nil, or_false] at ht
      obtain rfl | rfl | rfl := ht
      · exact Bool.false_ne_true
      · exact Bool.false_ne_true
      · exact Bool.false_ne_true
    have hmid : Quiet (js "--- " ++ fileLabel (js "a/") f.oldPath) ∧
        ({ s' with inHunk := false } : ScanState).Closed := ⟨hold, Or.inl rfl⟩
    rw [List.foldl_append, List.foldl_cons, List.foldl_cons, List.foldl_nil, scan_quiet hclosed hold,
      scan_name hmid.2]
    obtain ⟨hdone, hext⟩ := scan_hunks f.hunks
      (s := { s' with inHunk := false, currentFile := scannedName f, newLineNo := 0 }) (Or.inl rfl)
    exact ⟨hdone, hext.results⟩

theorem scan_files (separators : Bool) (files : List FileDiff) {s : ScanState} (h : s.Closed) :
    ((files.flatMap (FileDiff.render separators)).foldl scanLine s).Closed ∧
      ((files.flatMap (FileDiff.render separators)).foldl scanLine s).results =
        s.results ++ files.flatMap fun f => underName (scannedName f) f.added := by
  induction files generalizing s with
  | nil => exact ⟨h, (List.append_nil _).symm⟩
  | cons f files ih =>
    obtain ⟨hclosed, hresults⟩ := scan_file separators f h
    obtain ⟨hdone, hrest⟩ := ih hclosed
    rw [List.flatMap_cons, List.foldl_append, List.flatMap_cons]
    refine ⟨hdone, ?_⟩
    rw [hrest, hresults, List.append_assoc]

/-- The scan finds every added line under its number, and the name of its file as the scan reads it. -/
theorem parseAddedLines_renderDiff (separators : Bool) (files : List FileDiff) :
    parseAddedLines (renderDiff separators files) =
      files.flatMap fun f => underName (scannedName f) f.added := by
  obtain ⟨hclosed, hresults⟩ := scan_files separators files (s := .start) (Or.inl rfl)
  have hempty : Quiet [] := by decide
  rw [parseAddedLines, splitLines_renderDiff, List.foldl_append, List.foldl_cons, List.foldl_nil,
    scan_quiet hclosed hempty]
  exact hresults

/-! ## The names -/

theorem shown_readFileName {label : JsString} (h : Shown label) (hne : label ≠ []) :
    readFileName label =
      match expect (js "b/") label with
      | some name => if name = [] then some label else some name
      | none => some label := by
  rw [readFileName, if_neg]
  rintro (he | hends)
  · exact hne he
  · obtain ⟨c, hc, hend⟩ := List.any_eq_true.mp hends
    obtain rfl | ⟨hlow, hhigh⟩ := h c hc
    · exact absurd hend (by decide)
    · simp only [endsLine, Bool.or_eq_true, decide_eq_true_eq] at hend
      obtain ((rfl | rfl) | rfl) | rfl := hend
      · exact absurd hlow (by decide)
      · exact absurd hlow (by decide)
      · exact absurd hhigh (by decide)
      · exact absurd hhigh (by decide)

/-- A name with a space keeps the TAB that ends it. -/
theorem scannedName_spaced {f : FileDiff} {path : JsString} (h : f.newPath = some path) (hp : Printed path)
    (hs : 32 ∈ path) : scannedName f = some (path ++ [9]) := by
  have hshown : Shown (fileLabel (js "b/") f.newPath) := fileLabel_shown (shown_side 98 (Or.inr rfl)) f.newPath
  have hcase := fileLabel_cases path
  unfold scannedName
  rw [h] at hshown ⊢
  generalize fileLabel (js "b/") (some path) = label at hcase hshown
  cases hcase with
  | plain hplain => exact absurd hs hplain.noSpace
  | spaced _ _ =>
    rw [shown_readFileName hshown (by exact List.cons_ne_nil _ _), List.append_assoc, expect_append]
    dsimp only
    rw [if_neg (by simp)]
  | quoted hquoted _ _ => exact absurd hp hquoted

/-- The name is read right exactly when git writes it as it stands. -/
theorem scannedName_eq_iff {f : FileDiff} {path : JsString} (h : f.newPath = some path) :
    scannedName f = some path ↔ PlainPath path := by
  have hshown : Shown (fileLabel (js "b/") f.newPath) := fileLabel_shown (shown_side 98 (Or.inr rfl)) f.newPath
  have hcase := fileLabel_cases path
  have hfilled := f.filled path h
  have hspaced := scannedName_spaced h
  unfold scannedName at hspaced ⊢
  rw [h] at hshown hspaced ⊢
  generalize fileLabel (js "b/") (some path) = label at hcase hshown hspaced
  cases hcase with
  | plain hplain =>
    rw [shown_readFileName hshown (by exact List.cons_ne_nil _ _), expect_append]
    dsimp only
    rw [if_neg hfilled]
    exact iff_of_true rfl hplain
  | spaced hprinted hs =>
    have hne : path ++ [9] ≠ path := by
      intro e
      exact absurd (congrArg List.length e) (by simp)
    rw [hspaced hprinted hs]
    refine iff_of_false (fun e => hne (Option.some.inj e)) ?_
    exact fun hplain => hplain.noSpace hs
  | quoted hquoted s hlength =>
    have hexpect : expect (js "b/") (34 :: s) = none := rfl
    rw [shown_readFileName hshown (List.cons_ne_nil _ _), hexpect]
    refine iff_of_false ?_ fun hplain => hquoted hplain.printed
    intro e
    have hlen := congrArg List.length (Option.some.inj e)
    rw [List.length_cons] at hlen
    omega

theorem scannedName_isSome {f : FileDiff} {path : JsString} (h : f.newPath = some path) :
    ∃ name, scannedName f = some name := by
  have hshown : Shown (fileLabel (js "b/") f.newPath) := fileLabel_shown (shown_side 98 (Or.inr rfl)) f.newPath
  have hne : fileLabel (js "b/") f.newPath ≠ [] := by
    have hcase := fileLabel_cases path
    rw [h]
    generalize fileLabel (js "b/") (some path) = label at hcase
    cases hcase <;> exact List.cons_ne_nil _ _
  rw [scannedName, shown_readFileName hshown hne]
  split
  · split_ifs
    · exact ⟨_, rfl⟩
    · exact ⟨_, rfl⟩
  · exact ⟨_, rfl⟩

theorem flatMap_eq_iff {α β : Type} {l : List α} {f g : α → List β}
    (h : ∀ x ∈ l, (f x).length = (g x).length) :
    l.flatMap f = l.flatMap g ↔ ∀ x ∈ l, f x = g x := by
  induction l with
  | nil => exact iff_of_true rfl (fun _ hx => absurd hx List.not_mem_nil)
  | cons x l ih =>
    obtain ⟨hx, hl⟩ := List.forall_mem_cons.mp h
    rw [List.flatMap_cons, List.flatMap_cons, List.forall_mem_cons, ← ih hl]
    constructor
    · exact fun e => List.append_inj e hx
    · rintro ⟨ex, el⟩
      rw [ex, el]

theorem underName_eq_iff {added : List (Nat × JsString)} {name path : JsString} :
    underName (some name) added = underName (some path) added ↔ (added ≠ [] → name = path) := by
  constructor
  · intro h hne
    obtain ⟨p, hp⟩ := List.exists_mem_of_ne_nil _ hne
    exact (AddedLine.mk.inj (List.map_inj_left.mp h p hp)).1
  · intro h
    cases added with
    | nil => rfl
    | cons p added => rw [h (List.cons_ne_nil _ _)]

/-- The diff is read exactly when git writes the name of every file that gains lines as it stands. -/
theorem parseAddedLines_exact_iff (separators : Bool) (files : List FileDiff) :
    parseAddedLines (renderDiff separators files) = realAddedLines files ↔
      ∀ f ∈ files, f.added ≠ [] → ∀ path ∈ f.newPath, PlainPath path := by
  have hlength : ∀ f ∈ files, (underName (scannedName f) f.added).length =
      (underName f.newPath f.added).length := by
    intro f _
    cases e : f.newPath with
    | none =>
      rw [FileDiff.added_deleted e]
      unfold underName
      split <;> rfl
    | some path =>
      obtain ⟨name, hname⟩ := scannedName_isSome e
      rw [hname]
      exact (List.length_map _).trans (List.length_map _).symm
  rw [parseAddedLines_renderDiff]
  refine (flatMap_eq_iff hlength).trans (forall₂_congr fun f _ => ?_)
  cases e : f.newPath with
  | none =>
    rw [FileDiff.added_deleted e]
    refine iff_of_true ?_ (fun h => absurd rfl h)
    unfold underName
    split <;> rfl
  | some path =>
    obtain ⟨name, hname⟩ := scannedName_isSome e
    rw [hname]
    have hplain : name = path ↔ PlainPath path := by
      rw [← scannedName_eq_iff e, hname, Option.some_inj]
    refine underName_eq_iff.trans (imp_congr_right fun _ => hplain.trans ?_)
    simp only [Option.mem_def, Option.some_inj, forall_eq']

/-- A file with a space in its name that gains a line. -/
def spacedFile : FileDiff where
  oldPath := some (js "my file.js")
  newPath := some (js "my file.js")
  extended := []
  hunks := [⟨0, 1, [], [⟨.added, js "x", false, by decide⟩], by decide⟩]
  filled := by
    intro path hpath
    rw [← Option.some.inj hpath]
    decide
  deleted := fun h => by cases h

/-- The name of a file with a space is read with the TAB that ends it. -/
theorem spaced_name_misread :
    parseAddedLines (renderDiff true [spacedFile]) = [⟨js "my file.js" ++ [9], 1, js "x"⟩] ∧
      realAddedLines [spacedFile] = [⟨js "my file.js", 1, js "x"⟩] ∧
      parseAddedLines (renderDiff true [spacedFile]) ≠ realAddedLines [spacedFile] := by
  have hname : scannedName spacedFile = some (js "my file.js" ++ [9]) :=
    scannedName_spaced rfl (forall_mem_of_all (by decide)) (by decide)
  have hparse : parseAddedLines (renderDiff true [spacedFile]) = [⟨js "my file.js" ++ [9], 1, js "x"⟩] := by
    rw [parseAddedLines_renderDiff, List.flatMap_cons, hname]
    rfl
  have hreal : realAddedLines [spacedFile] = [⟨js "my file.js", 1, js "x"⟩] := rfl
  refine ⟨hparse, hreal, ?_⟩
  rw [hparse, hreal]
  decide

end Adlc.RailsGuard
