import Adlc.Fleet.Plan
import Adlc.Framework.UnifiedDiff

namespace Adlc.Core

open Framework

open Fleet (inheritedNames)

/-! The changed lines of a diff, by file. -/

/-- What a property of the result holds: the lines of a file, or what every object inherits under that name. -/
inductive Tracked where
  | lines (numbers : Finset Nat)
  | inherited
  deriving DecidableEq

/-- The result's own properties. -/
abbrev ChangedFiles := JsString → Option Tracked

structure DiffScan where
  result : ChangedFiles
  currentFile : Option JsString
  newLine : Nat
  newLeft : Nat

inductive BodyLine where
  | add | delete | marker | context

def classifyDiffBodyLine (line : JsString) : BodyLine :=
  match line.head? with
  | some c => if c = 43 then .add else if c = 45 then .delete else if c = 92 then .marker else .context
  | none => .context

/-- `/^\+\+\+ (?:b\/(.+)|\/dev\/null)$/`, with the name where there is one. -/
def readNewSide (line : JsString) : Option (Option JsString) :=
  match expect (js "+++ ") line with
  | none => none
  | some label =>
    if label = js "/dev/null" then some none
    else
      match expect (js "b/") label with
      | none => none
      | some path => if path = [] ∨ path.any endsLine = true then none else some (some path)

/-- `result[file] = result[file] ?? new Set()` -/
def noteFile (result : ChangedFiles) (file : JsString) : ChangedFiles :=
  if file = js "__proto__" then result
  else
    match result file with
    | some _ => result
    | none => Function.update result file (some (if file ∈ inheritedNames then .inherited else .lines ∅))

/-- `result[file].add(number)` -/
def addLine (file : Option JsString) (result : ChangedFiles) (number : Nat) : Except JsString ChangedFiles :=
  match file with
  | none => .ok result
  | some file =>
    match result file with
    | some (.lines numbers) => .ok (Function.update result file (some (.lines (insert number numbers))))
    | _ => .error (js "result[currentFile].add is not a function")

def scanDiffLine (s : DiffScan) (line : JsString) : Except JsString DiffScan :=
  if 0 < s.newLeft then
    match classifyDiffBodyLine line with
    | .marker => .ok s
    | .add =>
      (addLine s.currentFile s.result s.newLine).map fun result =>
        { s with result := result, newLine := s.newLine + 1, newLeft := s.newLeft - 1 }
    | .context => .ok { s with newLine := s.newLine + 1, newLeft := s.newLeft - 1 }
    | .delete => .ok s
  else
    match readNewSide line with
    | some file => .ok { s with result := file.elim s.result (noteFile s.result), currentFile := file }
    | none =>
      match readHunkHeader line with
      | some range => .ok { s with newLine := range.newStart, newLeft := range.newCount.getD 1 }
      | none => .ok s

def changedLinesFromDiff (diffText : JsString) : Except JsString ChangedFiles :=
  ((splitLines diffText).foldlM scanDiffLine ⟨fun _ => none, none, 0, 0⟩).map DiffScan.result

/-- The lines that the files with hunks gain, under the names of their new sides. -/
def realChangedLines (files : List FileDiff) (path : JsString) : Option (Finset Nat) :=
  let own := files.filter fun f => f.hunks ≠ [] ∧ f.newPath = some path
  if own = [] then none else some ((own.flatMap FileDiff.added).map Prod.fst).toFinset

/-! ## One hunk -/

def addLines (file : Option JsString) (result : ChangedFiles) (numbers : List Nat) :
    Except JsString ChangedFiles :=
  numbers.foldlM (addLine file) result

theorem addLines_append (file : Option JsString) (result : ChangedFiles) (ms ns : List Nat) :
    addLines file result (ms ++ ns) = (addLines file result ms).bind fun r => addLines file r ns :=
  List.foldlM_append

/-- The state of the scan betweenHunks two hunks. -/
def betweenHunks (file : Option JsString) (newLine : Nat) (result : ChangedFiles) : DiffScan :=
  ⟨result, file, newLine, 0⟩

theorem scan_bareMark (s : DiffScan) : scanDiffLine s bareMark = .ok s := by
  have hname : readNewSide bareMark = none := by decide +kernel
  have hheader : readHunkHeader bareMark = none := by decide +kernel
  rw [scanDiffLine]
  split
  · rfl
  · rw [hname, hheader]

def nextNumber (n : Nat) (l : DiffLine) : Nat := if l.kind = .removed then n else n + 1

theorem addedFrom_cons (n : Nat) (l : DiffLine) (lines : List DiffLine) :
    addedFrom n (l :: lines) = addedFrom n [l] ++ addedFrom (nextNumber n l) lines := by
  obtain ⟨kind, text, bare, hbreak⟩ := l
  cases kind <;> rfl

theorem scan_removed (s : DiffScan) (text : JsString) : scanDiffLine s (45 :: text) = .ok s := by
  have hname : readNewSide (45 :: text) = none := rfl
  have hheader : readHunkHeader (45 :: text) = none := rfl
  rw [scanDiffLine]
  split
  · rfl
  · rw [hname, hheader]

/-- A line of a hunk, with the mark of a missing line end. -/
theorem scan_body {l : DiffLine} {lines : List DiffLine} {file : Option JsString}
    {result : ChangedFiles} {n : Nat} :
    l.render.foldlM scanDiffLine ⟨result, file, n, newCount (l :: lines)⟩ =
      (addLines file result ((addedFrom n [l]).map Prod.fst)).map fun result =>
        ⟨result, file, nextNumber n l, newCount lines⟩ := by
  have hmark : ∀ r : Except JsString DiffScan,
      (r >>= fun s => (if l.bare then [bareMark] else []).foldlM scanDiffLine s) = r := by
    intro r
    cases r with
    | error e => rfl
    | ok s =>
      show (if l.bare then [bareMark] else []).foldlM scanDiffLine s = .ok s
      split
      · rw [List.foldlM_cons, scan_bareMark]
        rfl
      · rfl
  rw [DiffLine.render, List.foldlM_cons, hmark]
  obtain ⟨kind, text, bare, hbreak⟩ := l
  rw [newCount_cons]
  cases kind with
  | removed => 
    show scanDiffLine _ (45 :: text) = _
    rw [scan_removed]
    rfl
  | context =>
    exact if_pos (Nat.succ_pos (newCount lines))
  | added =>
    have hadded : addLines file result ((addedFrom n [⟨.added, text, bare, hbreak⟩]).map Prod.fst) =
        addLine file result n := by
      show (addLine file result n >>= fun r => pure r) = _
      cases addLine file result n <;> rfl
    rw [hadded]
    exact if_pos (Nat.succ_pos (newCount lines))

theorem scan_lines (lines : List DiffLine) (file : Option JsString) (result : ChangedFiles) (n : Nat) :
    ∃ m, (lines.flatMap DiffLine.render).foldlM scanDiffLine ⟨result, file, n, newCount lines⟩ =
      (addLines file result ((addedFrom n lines).map Prod.fst)).map (betweenHunks file m) := by
  induction lines generalizing result n with
  | nil => exact ⟨n, rfl⟩
  | cons l lines ih =>
    rw [addedFrom_cons n l lines, List.flatMap_cons, List.foldlM_append, scan_body, List.map_append,
      addLines_append]
    cases addLines file result ((addedFrom n [l]).map Prod.fst) with
    | error e => exact ⟨n, rfl⟩
    | ok r => exact ih r _

theorem scan_header (file : Option JsString) (result : ChangedFiles) (m : Nat) (h : Hunk) :
    scanDiffLine (betweenHunks file m result) h.header =
      .ok ⟨result, file, h.newStart, newCount h.lines⟩ := by
  have hname : readNewSide h.header = none := rfl
  have hstep : scanDiffLine (betweenHunks file m result) h.header =
      match readHunkHeader h.header with
      | some range => .ok ⟨result, file, range.newStart, range.newCount.getD 1⟩
      | none => .ok (betweenHunks file m result) := by
    rw [scanDiffLine, if_neg (by exact Nat.lt_irrefl 0), hname]
    rfl
  rw [hstep, readHunkHeader_header]
  simp only [shownCount_getD]

theorem scan_hunks (hunks : List Hunk) (file : Option JsString) (result : ChangedFiles) (m : Nat) :
    ∃ m', (hunks.flatMap Hunk.render).foldlM scanDiffLine (betweenHunks file m result) =
      (addLines file result ((hunks.flatMap Hunk.added).map Prod.fst)).map (betweenHunks file m') := by
  induction hunks generalizing result m with
  | nil => exact ⟨m, rfl⟩
  | cons h hunks ih =>
    obtain ⟨k, hk⟩ := scan_lines h.lines file result h.newStart
    have hhunk : h.render.foldlM scanDiffLine (betweenHunks file m result) =
        (addLines file result (h.added.map Prod.fst)).map (betweenHunks file k) := by
      rw [Hunk.render, List.foldlM_cons, scan_header]
      exact hk
    rw [List.flatMap_cons, List.foldlM_append, hhunk, List.flatMap_cons, List.map_append, addLines_append]
    cases addLines file result (h.added.map Prod.fst) with
    | error e => exact ⟨m, rfl⟩
    | ok r => exact ih r k

/-! ## Files -/

/-- What the scan takes for the new side of a file; none where its name is not recognised. -/
def readName (f : FileDiff) : Option (Option JsString) := readNewSide (js "+++ " ++ fileLabel (js "b/") f.newPath)

/-- The name is noted, where one is recognised. -/
def noted (result : ChangedFiles) (name : Option (Option JsString)) : ChangedFiles :=
  match name with
  | some (some path) => noteFile result path
  | _ => result

/-- One file, from what the scan has to what it has after it. -/
def scanFile (st : ChangedFiles × Option JsString) (f : FileDiff) :
    Except JsString (ChangedFiles × Option JsString) :=
  if f.hunks = [] then .ok st
  else
    let file := (readName f).getD st.2
    (addLines file (noted st.1 (readName f)) (f.added.map Prod.fst)).map fun result => (result, file)

theorem scan_quiet {line : JsString} (h : Quiet line) (file : Option JsString) (m : Nat) (result : ChangedFiles) :
    scanDiffLine (betweenHunks file m result) line = .ok (betweenHunks file m result) := by
  have hname : readNewSide line = none := by
    have hstart := h (js "+++ ") (by simp)
    rw [readNewSide, expect, if_neg hstart]
  have hheader : readHunkHeader line = none := by
    have hstart : ¬(js "@@ -").isPrefixOf line = true := by
      intro hp
      refine h (js "@@") (by simp) ?_
      rw [List.isPrefixOf_iff_prefix] at hp ⊢
      exact (by decide : js "@@" <+: js "@@ -").trans hp
    rw [readHunkHeader, expect, if_neg hstart]
    rfl
  rw [scanDiffLine, if_neg (by exact Nat.lt_irrefl 0), hname, hheader]

theorem scan_quiets {lines : List JsString} (h : ∀ line ∈ lines, Quiet line) (file : Option JsString) (m : Nat)
    (result : ChangedFiles) :
    lines.foldlM scanDiffLine (betweenHunks file m result) = .ok (betweenHunks file m result) := by
  induction lines with
  | nil => rfl
  | cons line lines ih =>
    obtain ⟨hline, hlines⟩ := List.forall_mem_cons.mp h
    rw [List.foldlM_cons, scan_quiet hline]
    exact ih hlines

theorem scan_start (separators : Bool) (f : FileDiff) (file : Option JsString) (m : Nat) (result : ChangedFiles) :
    (if separators then f.separator :: f.extended.map ExtendedLine.render else []).foldlM scanDiffLine
      (betweenHunks file m result) = .ok (betweenHunks file m result) := by
  split
  · have hquiet : ∀ line ∈ f.extended.map ExtendedLine.render, Quiet line := by
      intro line hline
      obtain ⟨l, -, rfl⟩ := List.mem_map.mp hline
      exact l.quiet
    have hseparator : scanDiffLine (betweenHunks file m result) f.separator = .ok (betweenHunks file m result) := rfl
    rw [List.foldlM_cons, hseparator]
    exact scan_quiets hquiet file m result
  · rfl

theorem scan_file (separators : Bool) (f : FileDiff) (st : ChangedFiles × Option JsString) (m : Nat) :
    ∃ m', (f.render separators).foldlM scanDiffLine (betweenHunks st.2 m st.1) =
      (scanFile st f).map fun st' => betweenHunks st'.2 m' st'.1 := by
  rw [FileDiff.render, List.foldlM_append, scan_start, scanFile]
  by_cases hhunks : f.hunks = []
  · rw [if_pos hhunks, if_pos hhunks]
    exact ⟨m, rfl⟩
  · have hold : scanDiffLine (betweenHunks st.2 m st.1) (js "--- " ++ fileLabel (js "a/") f.oldPath) =
        .ok (betweenHunks st.2 m st.1) := scan_removed _ _
    have hnew : scanDiffLine (betweenHunks st.2 m st.1) (js "+++ " ++ fileLabel (js "b/") f.newPath) =
        .ok (betweenHunks ((readName f).getD st.2) m (noted st.1 (readName f))) := by
      have hheader : readHunkHeader (js "+++ " ++ fileLabel (js "b/") f.newPath) = none := rfl
      rw [scanDiffLine, if_neg (by exact Nat.lt_irrefl 0), hheader, ← readName]
      cases readName f with
      | none => rfl
      | some file => cases file <;> rfl
    obtain ⟨m', hm'⟩ := scan_hunks f.hunks ((readName f).getD st.2) (noted st.1 (readName f)) m
    refine ⟨m', ?_⟩
    rw [if_neg hhunks, if_neg hhunks, List.cons_append, List.cons_append, List.nil_append]
    show (List.foldlM scanDiffLine (betweenHunks st.2 m st.1) _ : Except JsString DiffScan) = _
    rw [List.foldlM_cons, hold]
    show (List.foldlM scanDiffLine (betweenHunks st.2 m st.1) _ : Except JsString DiffScan) = _
    rw [List.foldlM_cons, hnew]
    have hmap : ∀ (file : Option JsString) (r : Except JsString ChangedFiles), r.map (betweenHunks file m') =
        (r.map fun result => (result, file)).map fun st' => betweenHunks st'.2 m' st'.1 := by
      intro file r
      cases r <;> rfl
    exact hm'.trans (hmap _ _)

theorem scan_files (separators : Bool) (files : List FileDiff) (st : ChangedFiles × Option JsString) (m : Nat) :
    ∃ m', (files.flatMap (FileDiff.render separators)).foldlM scanDiffLine (betweenHunks st.2 m st.1) =
      (files.foldlM scanFile st).map fun st' => betweenHunks st'.2 m' st'.1 := by
  induction files generalizing st m with
  | nil => exact ⟨m, rfl⟩
  | cons f files ih =>
    obtain ⟨k, hk⟩ := scan_file separators f st m
    rw [List.flatMap_cons, List.foldlM_append, hk, List.foldlM_cons]
    cases scanFile st f with
    | error e => exact ⟨m, rfl⟩
    | ok st' => exact ih st' k

/-- The scan of a rendering, file by file. -/
theorem changedLinesFromDiff_renderDiff (separators : Bool) (files : List FileDiff) :
    changedLinesFromDiff (renderDiff separators files) =
      (files.foldlM scanFile (fun _ => none, none)).map Prod.fst := by
  obtain ⟨m, hm⟩ := scan_files separators files (fun _ => none, none) 0
  have hempty : Quiet [] := by decide
  rw [changedLinesFromDiff, splitLines_renderDiff, List.foldlM_append]
  have hstart : (⟨fun _ => none, none, 0, 0⟩ : DiffScan) = betweenHunks none 0 (fun _ => none) := rfl
  rw [hstart, hm]
  cases files.foldlM scanFile (fun _ => none, none) with
  | error e => rfl
  | ok st =>
    show ((scanDiffLine (betweenHunks st.2 m st.1) [] >>= fun s => pure s).map DiffScan.result) = _
    rw [scan_quiet hempty]
    rfl

/-! ## Names -/

theorem readName_none {f : FileDiff} (h : f.newPath = none) : readName f = some none := by
  rw [readName, h]
  rfl

/-- How the scan reads a name: as it stands, with the TAB of a name with spaces, or not at all. -/
theorem readName_cases {f : FileDiff} {path : JsString} (h : f.newPath = some path) :
    (PlainPath path ∧ readName f = some (some path)) ∨
      (Printed path ∧ 32 ∈ path ∧ readName f = some (some (path ++ [9]))) ∨
        (¬PlainPath path ∧ readName f = none) := by
  have hread : ∀ name : JsString, name ≠ [] → (∀ c ∈ name, endsLine c = false) →
      readNewSide (js "+++ " ++ (js "b/" ++ name)) = some (some name) := by
    intro name hne hends
    have hdev : js "b/" ++ name ≠ js "/dev/null" := by
      intro e
      have hb : js "b/" ++ name = 98 :: (47 :: name) := rfl
      have hd : js "/dev/null" = 47 :: js "dev/null" := by decide
      rw [hb, hd] at e
      exact absurd (List.cons.inj e).1 (by decide)
    have hany : ¬(name = [] ∨ name.any endsLine = true) := by
      rintro (e | e)
      · exact hne e
      · obtain ⟨c, hc, htrue⟩ := List.any_eq_true.mp e
        rw [hends c hc] at htrue
        cases htrue
    rw [readNewSide, expect_append]
    dsimp only
    rw [if_neg hdev, expect_append]
    exact if_neg hany
  have hprinted : ∀ c : UInt16, 9 ≤ c.toNat → c.toNat < 127 → c ≠ 10 → c ≠ 13 → endsLine c = false := by
    intro c _ hhigh h10 h13
    have h28 : c ≠ 0x2028 := by
      rintro rfl
      exact absurd hhigh (by decide)
    have h29 : c ≠ 0x2029 := by
      rintro rfl
      exact absurd hhigh (by decide)
    simp only [endsLine, h10, h13, h28, h29, decide_false, Bool.or_self]
  have hfilled := f.filled path h
  have hcase := fileLabel_cases path
  unfold readName
  rw [h]
  generalize fileLabel (js "b/") (some path) = label at hcase
  cases hcase with
  | plain hplain =>
    refine .inl ⟨hplain, hread path hfilled ?_⟩
    intro c hc
    obtain ⟨hlow, hhigh, -, -⟩ := hplain c hc
    refine hprinted c (by omega) hhigh ?_ ?_ <;> rintro rfl <;> exact absurd hlow (by decide)
  | spaced hp hs =>
    refine .inr (.inl ⟨hp, hs, ?_⟩)
    rw [List.append_assoc]
    refine hread (path ++ [9]) (by simp) ?_
    intro c hc
    obtain hc | hc := List.mem_append.mp hc
    · obtain ⟨hlow, hhigh, -, -⟩ := hp c hc
      refine hprinted c (by omega) hhigh ?_ ?_ <;> rintro rfl <;> exact absurd hlow (by decide)
    · obtain rfl := List.mem_singleton.mp hc
      decide
  | quoted hquoted s _ =>
    refine .inr (.inr ⟨fun hplain => hquoted hplain.printed, ?_⟩)
    rw [readNewSide, expect_append]
    dsimp only
    rw [if_neg (by rintro ⟨⟩)]
    rfl

/-! ## Exactness -/

theorem addLines_none (result : ChangedFiles) (numbers : List Nat) :
    addLines none result numbers = .ok result := by
  induction numbers with
  | nil => rfl
  | cons n numbers ih => exact ih

theorem addLines_lines {path : JsString} {result : ChangedFiles} {s : Finset Nat}
    (h : result path = some (.lines s)) (numbers : List Nat) :
    addLines (some path) result numbers =
      .ok (Function.update result path (some (.lines (s ∪ numbers.toFinset)))) := by
  induction numbers generalizing result s with
  | nil =>
    have hsame : Function.update result path (some (.lines s)) = result := by
      rw [← h]
      exact Function.update_eq_self path result
    rw [List.toFinset_nil, Finset.union_empty, hsame]
    rfl
  | cons n numbers ih =>
    have hstep : addLine (some path) result n =
        .ok (Function.update result path (some (.lines (insert n s)))) := by
      rw [addLine]
      simp only [h]
    have hrest := @ih (Function.update result path (some (.lines (insert n s)))) (insert n s)
      (Function.update_self ..)
    rw [addLines, List.foldlM_cons, hstep]
    refine hrest.trans ?_
    rw [Function.update_idem, List.toFinset_cons, Finset.insert_union, Finset.union_insert]

theorem realChangedLines_append (files : List FileDiff) (f : FileDiff) (path : JsString) :
    realChangedLines (files ++ [f]) path =
      if f.hunks ≠ [] ∧ f.newPath = some path then
        some (((realChangedLines files path).getD ∅) ∪ (f.added.map Prod.fst).toFinset)
      else realChangedLines files path := by
  unfold realChangedLines
  rw [List.filter_append]
  split
  · rename_i hown
    have hkeep : [f].filter (fun f => decide (f.hunks ≠ [] ∧ f.newPath = some path)) = [f] :=
      List.filter_cons_of_pos (decide_eq_true hown)
    rw [hkeep]
    simp only
    rw [if_neg (by simp), List.flatMap_append, List.map_append, List.toFinset_append]
    split
    · rename_i hnil
      rw [hnil]
      simp
    · simp
  · rename_i hown
    have hdrop : [f].filter (fun f => decide (f.hunks ≠ [] ∧ f.newPath = some path)) = [] :=
      List.filter_cons_of_neg (by simpa using hown)
    rw [hdrop, List.append_nil]

/-- The name of the new side is written as it stands, and no object inherits a property of that name. -/
def ReadsName (f : FileDiff) : Prop :=
  f.hunks ≠ [] → ∀ path ∈ f.newPath, PlainPath path ∧ path ∉ inheritedNames

/-- The result of some files, as it should be. -/
def exactly (files : List FileDiff) : ChangedFiles := fun path => (realChangedLines files path).map .lines

theorem exactly_append_other {files : List FileDiff} {f : FileDiff}
    (h : ∀ path, ¬(f.hunks ≠ [] ∧ f.newPath = some path)) : exactly (files ++ [f]) = exactly files := by
  funext path
  rw [exactly, realChangedLines_append, if_neg (h path), ← exactly]

theorem scanFile_exactly {files : List FileDiff} {f : FileDiff} (hf : ReadsName f) (file : Option JsString) :
    ∃ file', scanFile (exactly files, file) f = .ok (exactly (files ++ [f]), file') := by
  rw [scanFile]
  by_cases hhunks : f.hunks = []
  · rw [if_pos hhunks, exactly_append_other fun _ h => h.1 hhunks]
    exact ⟨file, rfl⟩
  rw [if_neg hhunks]
  cases hpath : f.newPath with
  | none =>
    rw [readName_none hpath, exactly_append_other fun path h => by simp [hpath] at h]
    exact ⟨none, by simp only [noted, Option.getD_some, addLines_none, Except.map]⟩
  | some path =>
    obtain ⟨hplain, howner⟩ := hf hhunks path hpath
    have hname : readName f = some (some path) := by
      obtain ⟨-, h⟩ | ⟨-, hs, -⟩ | ⟨hnot, -⟩ := readName_cases hpath
      · exact h
      · exact absurd hs hplain.noSpace
      · exact absurd hplain hnot
    -- The name has an entry from here on, with the lines of the earlier files under it.
    have hnoted : noteFile (exactly files) path =
        Function.update (exactly files) path (some (.lines ((realChangedLines files path).getD ∅))) := by
      have hproto : path ≠ js "__proto__" := by
        rintro rfl
        exact howner List.mem_cons_self
      rw [noteFile, if_neg hproto]
      cases hreal : realChangedLines files path with
      | none =>
        have hentry : exactly files path = none := by rw [exactly, hreal]; rfl
        rw [hentry]
        simp only [if_neg howner, Option.getD_none]
      | some s =>
        have hentry : exactly files path = some (.lines s) := by rw [exactly, hreal]; rfl
        rw [hentry]
        simp only [Option.getD_some]
        rw [← hentry]
        exact (Function.update_eq_self path _).symm
    have hentry : noteFile (exactly files) path path =
        some (.lines ((realChangedLines files path).getD ∅)) := by
      rw [hnoted]
      exact Function.update_self ..
    have hlines := addLines_lines hentry (f.added.map Prod.fst)
    refine ⟨some path, ?_⟩
    simp only [hname, noted, Option.getD_some, hlines, Except.map]
    refine congrArg _ (congrArg (·, some path) ?_)
    rw [hnoted, Function.update_idem]
    funext q
    by_cases hq : q = path
    · rw [hq, Function.update_self, exactly, realChangedLines_append, if_pos ⟨hhunks, hpath⟩]
      rfl
    · rw [Function.update_of_ne hq, exactly, exactly, realChangedLines_append,
        if_neg fun h => hq (Option.some.inj (h.2.symm.trans hpath))]

theorem scanFiles_exactly {files : List FileDiff} (h : ∀ f ∈ files, ReadsName f) :
    ∃ file, files.foldlM scanFile (fun _ => none, none) = .ok (exactly files, file) := by
  induction files using List.reverseRecOn with
  | nil => exact ⟨none, rfl⟩
  | append_singleton files f ih =>
    obtain ⟨file, hfile⟩ := ih fun g hg => h g (List.mem_append_left _ hg)
    obtain ⟨file', hfile'⟩ := @scanFile_exactly files f (h f (by simp)) file
    refine ⟨file', ?_⟩
    rw [List.foldlM_append, hfile]
    show (List.foldlM scanFile (exactly files, file) [f] : Except JsString _) = _
    rw [List.foldlM_cons, hfile']
    rfl

/-- Entries come from names that were read, and none under an inherited name holds lines. -/
structure Entered (files : List FileDiff) (result : ChangedFiles) : Prop where
  read : ∀ path, result path ≠ none → ∃ f ∈ files, f.hunks ≠ [] ∧ readName f = some (some path)
  inherited : ∀ path ∈ inheritedNames, ∀ s, result path ≠ some (.lines s)

theorem Entered.addLines {files : List FileDiff} {file : Option JsString} {result result' : ChangedFiles}
    {numbers : List Nat} (h : Entered files result) (hok : addLines file result numbers = .ok result') :
    Entered files result' := by
  induction numbers generalizing result with
  | nil =>
    obtain rfl := Except.ok.inj hok
    exact h
  | cons n numbers ih =>
    rw [Core.addLines, List.foldlM_cons] at hok
    cases hstep : addLine file result n with
    | error e =>
      rw [hstep] at hok
      cases hok
    | ok r =>
      rw [hstep] at hok
      refine ih ?_ hok
      cases file with
      | none =>
        obtain rfl := Except.ok.inj hstep
        exact h
      | some file =>
        rw [addLine] at hstep
        split at hstep
        · rename_i s hentry
          obtain rfl := Except.ok.inj hstep
          constructor
          · intro path hne
            by_cases hpath : path = file
            · rw [hpath]
              exact h.read file (by rw [hentry]; exact Option.some_ne_none _)
            · rw [Function.update_of_ne hpath] at hne
              exact h.read path hne
          · intro path hpath t
            by_cases hfile : path = file
            · rw [hfile] at hpath
              exact absurd hentry (h.inherited file hpath s)
            · rw [Function.update_of_ne hfile]
              exact h.inherited path hpath t
        · cases hstep

theorem Entered.scanFile {files : List FileDiff} {f : FileDiff} {st st' : ChangedFiles × Option JsString}
    (h : Entered files st.1) (hok : scanFile st f = .ok st') : Entered (files ++ [f]) st'.1 := by
  have hmore : ∀ {r : ChangedFiles}, Entered files r → Entered (files ++ [f]) r := fun hr =>
    ⟨fun path hne => by
      obtain ⟨g, hg, hread⟩ := hr.read path hne
      exact ⟨g, List.mem_append_left _ hg, hread⟩, hr.inherited⟩
  rw [Core.scanFile] at hok
  split at hok
  · obtain rfl := Except.ok.inj hok
    exact hmore h
  rename_i hhunks
  have hnoted : Entered (files ++ [f]) (noted st.1 (readName f)) := by
    unfold noted
    split
    · rename_i path hname
      unfold noteFile
      split
      · exact hmore h
      split
      · exact hmore h
      rename_i hentry
      constructor
      · intro q hne
        by_cases hq : q = path
        · exact ⟨f, by simp, hhunks, by rw [hq, hname]⟩
        · rw [Function.update_of_ne hq] at hne
          exact (hmore h).read q hne
      · intro q hq s
        by_cases hpath : q = path
        · rw [hpath, Function.update_self, if_pos (hpath ▸ hq)]
          exact fun e => by cases e
        · rw [Function.update_of_ne hpath]
          exact h.inherited q hq s
    · exact hmore h
  cases hlines : Core.addLines ((readName f).getD st.2) (noted st.1 (readName f)) (f.added.map Prod.fst) with
  | error e =>
    simp only [hlines] at hok
    cases hok
  | ok r =>
    simp only [hlines] at hok
    obtain rfl := Except.ok.inj hok
    exact hnoted.addLines hlines

theorem entered_scanFiles {files : List FileDiff} {st : ChangedFiles × Option JsString}
    (hok : files.foldlM scanFile (fun _ => none, none) = .ok st) : Entered files st.1 := by
  induction files using List.reverseRecOn generalizing st with
  | nil =>
    obtain rfl := Except.ok.inj hok
    exact ⟨fun _ hne => absurd rfl hne, fun _ _ _ e => by cases e⟩
  | append_singleton files f ih =>
    rw [List.foldlM_append] at hok
    cases hfirst : files.foldlM scanFile (fun _ => none, none) with
    | error e =>
      rw [hfirst] at hok
      cases hok
    | ok mid =>
      rw [hfirst] at hok
      refine (ih hfirst).scanFile (f := f) ?_
      have hone : List.foldlM scanFile mid [f] = .ok st := hok
      rw [List.foldlM_cons] at hone
      cases hlast : scanFile mid f with
      | error e =>
        rw [hlast] at hone
        cases hone
      | ok last =>
        rw [hlast] at hone
        exact congrArg _ (Except.ok.inj hone)

/-- The diff is read exactly when every file with hunks has a new side that git names as it stands and that no
object inherits. -/
theorem changedLinesFromDiff_exact_iff (separators : Bool) (files : List FileDiff) :
    changedLinesFromDiff (renderDiff separators files) =
      .ok (fun path => (realChangedLines files path).map .lines) ↔ ∀ f ∈ files, ReadsName f := by
  rw [changedLinesFromDiff_renderDiff]
  constructor
  · intro h
    cases hrun : files.foldlM scanFile (fun _ => none, none) with
    | error e =>
      rw [hrun] at h
      cases h
    | ok st =>
      rw [hrun] at h
      have hentered := entered_scanFiles hrun
      have hresult : st.1 = exactly files := Except.ok.inj h
      rw [hresult] at hentered
      have hreal : ∀ f ∈ files, f.hunks ≠ [] → ∀ path, f.newPath = some path →
          ∃ s, exactly files path = some (.lines s) := by
        intro f hf hhunks path hpath
        have hown : f ∈ files.filter fun f => f.hunks ≠ [] ∧ f.newPath = some path :=
          List.mem_filter.mpr ⟨hf, decide_eq_true ⟨hhunks, hpath⟩⟩
        have hreal : realChangedLines files path =
            some (((files.filter fun f => f.hunks ≠ [] ∧ f.newPath = some path).flatMap
              FileDiff.added).map Prod.fst).toFinset := if_neg (List.ne_nil_of_mem hown)
        rw [exactly, hreal]
        exact ⟨_, rfl⟩
      have hread : ∀ f ∈ files, f.hunks ≠ [] → ∀ path, f.newPath = some path →
          ∃ g ∈ files, g.hunks ≠ [] ∧ readName g = some (some path) := by
        intro f hf hhunks path hpath
        obtain ⟨s, hs⟩ := hreal f hf hhunks path hpath
        exact hentered.read path (by rw [hs]; exact Option.some_ne_none _)
      -- A name that is read is plain, or ends with the TAB of a name with spaces.
      have hcases : ∀ g ∈ files, ∀ name, readName g = some (some name) → PlainPath name ∨
          ∃ path, g.newPath = some path ∧ Printed path ∧ 32 ∈ path ∧ name = path ++ [9] := by
        intro g _ name hname
        cases hpath : g.newPath with
        | none => cases (readName_none hpath).symm.trans hname
        | some path =>
          obtain ⟨hplain, h⟩ | ⟨hp, hs, h⟩ | ⟨-, h⟩ := readName_cases hpath
          · obtain rfl := Option.some.inj (Option.some.inj (h.symm.trans hname))
            exact .inl hplain
          · exact .inr ⟨path, rfl, hp, hs, (Option.some.inj (Option.some.inj (h.symm.trans hname))).symm⟩
          · cases h.symm.trans hname
      intro f hf hhunks path hpath
      obtain ⟨s, hs⟩ := hreal f hf hhunks path hpath
      refine ⟨?_, fun hinherited => hentered.inherited path hinherited s hs⟩
      obtain ⟨g, hg, hghunks, hname⟩ := hread f hf hhunks path hpath
      obtain hplain | ⟨spaced, hspaced, hp, hspace, rfl⟩ := hcases g hg path hname
      · exact hplain
      · obtain ⟨k, hk, -, hkname⟩ := hread g hg hghunks spaced hspaced
        obtain hplain | ⟨q, -, -, -, rfl⟩ := hcases k hk spaced hkname
        · exact absurd hspace hplain.noSpace
        · exact absurd (hp 9 (by simp)).1 (by decide)
  · intro h
    obtain ⟨file, hfile⟩ := scanFiles_exactly h
    rw [hfile]
    rfl

end Adlc.Core
