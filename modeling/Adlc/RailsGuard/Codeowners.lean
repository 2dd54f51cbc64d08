import Adlc.Framework.Regex
import Adlc.Framework.Paths
import Adlc.Core.Revision

namespace Adlc.RailsGuard

open Adlc.Framework Adlc.Core

/-! ## Patterns -/

def star : UInt16 := 42
def question : UInt16 := 63
def twoStars : JsString := [star, star]

/-- `.replace(/[.+^${}()|[\]\\]/g, '\\$&')`, for one unit. -/
def escapeUnit (c : UInt16) : JsString :=
  if c ∈ js ".+^$\x7b\x7d()|[]\\" then [92, c] else [c]

/-- `.replace(/\*+|\?/g, …)`; `run` says that the unit before was a star. -/
def replaceWild (run : Bool) : JsString → JsString
  | [] => []
  | c :: s =>
    if c = star then
      if run then replaceWild true s else js "[^/]*" ++ replaceWild true s
    else if c = question then js "[^/]" ++ replaceWild false s
    else c :: replaceWild false s

def segmentToRegex (segment : JsString) : JsString := replaceWild false (segment.flatMap escapeUnit)

/-- What `segments.forEach` builds in `rx`. -/
def segmentsToRegex : List JsString → JsString
  | [] => []
  | [segment] => if segment = twoStars then js ".*" else segmentToRegex segment
  | segment :: segments =>
    if segment = twoStars then js "(?:[^/]+/)*" ++ segmentsToRegex segments
    else segmentToRegex segment ++ [slash] ++ segmentsToRegex segments

def anchored (pattern : JsString) : Bool := decide (pattern.head? = some slash)

/-- The pattern without its leading slash. -/
def rooted (pattern : JsString) : JsString := if anchored pattern then pattern.tail else pattern

def isDirPattern (pattern : JsString) : Bool := decide ((rooted pattern).getLast? = some slash)

def segmentsOf (pattern : JsString) : List JsString :=
  (if isDirPattern pattern then (rooted pattern).dropLast else rooted pattern).splitOn slash

def patternSource (pattern : JsString) : JsString :=
  js "^" ++ segmentsToRegex (segmentsOf pattern) ++
    if isDirPattern pattern then js "/.*$" else js "$"

def lastComponent (path : JsString) : JsString := (path.splitOn slash).getLastD []

def codeownersMatch (pattern path : JsString) : Bool :=
  anchoredTest (patternSource pattern) path ||
    (!anchored pattern && anchoredTest (patternSource pattern) (lastComponent path))

/-! ## Files -/

/-- `text.split(/\r?\n/)` -/
def splitBreaks (text : JsString) : List JsString :=
  let lines := splitLines text
  lines.dropLast.map (fun line => if line.getLast? = some 13 then line.dropLast else line) ++
    [lines.getLastD []]

/-- `raw.replace(/\s+#.*$/, '')` -/
def stripComment : JsString → JsString
  | [] => []
  | c :: s =>
    let rest := (c :: s).dropWhile isTrimmed
    if isTrimmed c ∧ rest.head? = some 35 ∧ rest.all (fun d => !endsLine d) = true then []
    else c :: stripComment s

structure Row where
  pattern : JsString
  negated : Bool
  owners : List JsString
  deriving DecidableEq

def parseRow (raw : JsString) : Option Row :=
  let line := trim (stripComment raw)
  if line = [] ∨ line.head? = some 35 then none
  else
    match splitSpaces false line with
    | [] => none
    | rawPattern :: owners =>
      if rawPattern = [] then none
      else
        let negated := decide (rawPattern.head? = some 33)
        some {
          pattern := if negated then rawPattern.tail else rawPattern
          negated
          owners := owners.map fun owner => if owner.head? = some 64 then owner.tail else owner }

def parseCodeowners (text : JsString) : List Row := (splitBreaks text).filterMap parseRow

def CODEOWNERS_FILES : List JsString :=
  [js ".github/CODEOWNERS", js "CODEOWNERS", js "docs/CODEOWNERS"]

/-- The rows of the first file that exists at the base; `git` answers `git show` of a file there. -/
def effectiveRows (git : JsString → Option JsString) (baseRef : JsString) :
    List JsString → Option (List Row)
  | [] => none
  | file :: files =>
    match git (baseRef ++ js ":" ++ file) with
    | none => effectiveRows git baseRef files
    | some text => some (parseCodeowners text)

def pathHasCodeowner (git : JsString → Option JsString) (baseRef path : JsString) : Bool :=
  match effectiveRows git baseRef CODEOWNERS_FILES with
  | none => false
  | some rows =>
    rows.foldl (fun owned row =>
      if codeownersMatch row.pattern path then !row.negated && decide (row.owners ≠ []) else owned) false

/-- The last row that matches. -/
def winner (rows : List Row) (path : JsString) : Option Row :=
  rows.foldl (fun won row => if codeownersMatch row.pattern path then some row else won) none

def addOwners (owners added : List JsString) : List JsString :=
  added.foldl (fun owners owner => if owner ∈ owners then owners else owners ++ [owner]) owners

def ownersForPaths (git : JsString → Option JsString) (baseRef : JsString) (paths : List JsString) :
    List JsString :=
  match effectiveRows git baseRef CODEOWNERS_FILES with
  | none => []
  | some rows =>
    paths.foldl (fun owners path =>
      match winner rows path with
      | none => owners
      | some row => if row.negated then owners else addOwners owners row.owners) []

/-! ## The declared rules -/

/-- One segment of a pattern against one component of a path. -/
inductive SegmentMatches : JsString → JsString → Prop
  | done : SegmentMatches [] []
  | literal {c : UInt16} {p s : JsString} (hc : c ≠ star ∧ c ≠ question) (h : SegmentMatches p s) :
      SegmentMatches (c :: p) (c :: s)
  | one {d : UInt16} {p s : JsString} (hd : d ≠ slash) (h : SegmentMatches p s) :
      SegmentMatches (question :: p) (d :: s)
  | run {n : Nat} {u p s : JsString} (hu : slash ∉ u) (h : SegmentMatches p s) :
      SegmentMatches (List.replicate (n + 1) star ++ p) (u ++ s)

/-- The segments of a pattern against the components of a path; with `under` the path lies strictly
under what the segments name. -/
inductive SegmentsMatch (under : Bool) : List JsString → List JsString → Prop
  | last {segment component : JsString} {below : List JsString} (hs : segment ≠ twoStars)
      (h : SegmentMatches segment component) (hb : below = [] ↔ under = false) :
      SegmentsMatch under [segment] (component :: below)
  | everything {components : List JsString} (h : (if under then 2 else 1) ≤ components.length) :
      SegmentsMatch under [twoStars] components
  | next {segment component : JsString} {segments components : List JsString} (hs : segment ≠ twoStars)
      (h : SegmentMatches segment component) (hrest : SegmentsMatch under segments components) :
      SegmentsMatch under (segment :: segments) (component :: components)
  | directories {segments dirs components : List JsString}
      (hrest : SegmentsMatch under segments components) :
      SegmentsMatch under (twoStars :: segments) (dirs ++ components)

/-- The rules that the comment on `codeownersMatch` declares. -/
def RuleMatches (pattern path : JsString) : Prop :=
  SegmentsMatch (isDirPattern pattern) (segmentsOf pattern) (path.splitOn slash) ∨
    slash ∉ pattern ∧ SegmentsMatch false [pattern] [lastComponent path]

/-! ## The text of a pattern's regular expression -/

/-- The terms of a segment, before the terms `k`. -/
def segmentTerms (k : Regex UInt16) (run : Bool) : JsString → Regex UInt16
  | [] => k
  | c :: s =>
    if c = star then
      if run then segmentTerms k true s else .seq (.star notSlash) (segmentTerms k true s)
    else if c = question then .seq notSlash (segmentTerms k false s)
    else .seq (.one (· == c)) (segmentTerms k false s)

/-- One directory: `[^/]+/`. -/
def directoryTerm : Regex UInt16 := .seq (.plus notSlash) (.seq (.one (· == slash)) .empty)

def segmentsTerms (k : Regex UInt16) : List JsString → Regex UInt16
  | [] => k
  | [segment] =>
    if segment = twoStars then .seq (.star inLine) k else segmentTerms k false segment
  | segment :: segments =>
    if segment = twoStars then .seq (.star directoryTerm) (segmentsTerms k segments)
    else segmentTerms (.seq (.one (· == slash)) (segmentsTerms k segments)) false segment

/-- What follows the segments. -/
def endTerms (under : Bool) : Regex UInt16 :=
  if under then .seq (.one (· == slash)) (.seq (.star inLine) .empty) else .empty

theorem replaceWild_escape {c : UInt16} (hc : c ≠ star) (hq : c ≠ question) (run : Bool) (s : JsString) :
    replaceWild run (escapeUnit c ++ s) = escapeUnit c ++ replaceWild false s := by
  unfold escapeUnit
  split_ifs with he
  · have h92 : (92 : UInt16) ≠ star ∧ (92 : UInt16) ≠ question := by decide
    simp only [List.cons_append, List.nil_append, replaceWild, if_neg h92.1, if_neg h92.2, if_neg hc,
      if_neg hq]
  · simp only [List.cons_append, List.nil_append, replaceWild, if_neg hc, if_neg hq]

theorem segment_reads {t rest : JsString} {k : Regex UInt16} (h : Reads t k rest) (segment : JsString) :
    ∀ run, Reads (replaceWild run (segment.flatMap escapeUnit) ++ t) (segmentTerms k run segment) rest := by
  induction segment with
  | nil => exact fun _ => h
  | cons c s ih =>
    intro run
    rw [List.flatMap_cons, segmentTerms]
    by_cases hc : c = star
    · subst hc
      have he : escapeUnit star = [star] := by decide
      rw [he, List.cons_append, List.nil_append, replaceWild, if_pos rfl, if_pos rfl]
      split_ifs
      · exact ih true
      · rw [List.append_assoc]
        exact (ih true).notSlashStar
    · by_cases hq : c = question
      · subst hq
        have he : escapeUnit question = [question] := by decide
        rw [he, List.cons_append, List.nil_append, replaceWild, if_neg hc, if_pos rfl, if_neg hc, if_pos rfl,
          List.append_assoc]
        exact (ih false).notSlash
      · rw [replaceWild_escape hc hq, if_neg hc, if_neg hq, List.append_assoc]
        unfold escapeUnit
        split_ifs with he
        · have hsub : ∀ d ∈ js ".+^$\x7b\x7d()|[]\\", isSyntaxUnit d = true :=
            forall_mem_of_all (by decide)
          exact (ih false).escaped (hsub c he)
        · have hsub : ∀ d ∈ js "^$\\.*+?()[]\x7b\x7d|",
              d = star ∨ d = question ∨ d ∈ js ".+^$\x7b\x7d()|[]\\" :=
            forall_mem_of_all (by decide)
          refine (ih false).unit (decide_eq_false ?_)
          intro hmem
          obtain h1 | h1 | h1 := hsub c hmem
          · exact hc h1
          · exact hq h1
          · exact he h1

theorem segments_reads {t rest : JsString} {k : Regex UInt16} (h : Reads t k rest)
    (segments : List JsString) : Reads (segmentsToRegex segments ++ t) (segmentsTerms k segments) rest := by
  induction segments with
  | nil => exact h
  | cons segment segments ih =>
    cases segments with
    | nil =>
      rw [segmentsToRegex, segmentsTerms]
      split_ifs
      · exact h.inLineStar
      · exact segment_reads h segment false
    | cons segment' segments =>
      rw [segmentsToRegex, segmentsTerms]
      · split_ifs
        · have hbody : Reads (js "[^/]+/" ++ js ")*" ++ (segmentsToRegex (segment' :: segments) ++ t))
              directoryTerm (js ")*" ++ (segmentsToRegex (segment' :: segments) ++ t)) :=
            ((Reads.stop (Or.inl rfl) _).unit (by decide)).notSlashPlus
          rw [List.append_assoc]
          exact Reads.groupStar hbody ih
        · rw [List.append_assoc, List.append_assoc]
          exact segment_reads (ih.unit (by decide)) segment false
      all_goals exact fun e => List.cons_ne_nil _ _ e

theorem endTerms_reads (under : Bool) :
    Reads (if under then js "/.*$" else js "$") (endTerms under) (js "$") := by
  have hend : Reads (js "$") .empty (js "$") := Reads.stop (Or.inr rfl) []
  cases under with
  | false => exact hend
  | true => exact hend.inLineStar.unit (by decide)

/-- The test of a pattern is membership in the language of its terms. -/
theorem patternTest_iff (pattern text : JsString) :
    anchoredTest (patternSource pattern) text = true ↔
      text ∈ (segmentsTerms (endTerms (isDirPattern pattern)) (segmentsOf pattern)).language := by
  rw [patternSource, List.append_assoc]
  exact anchoredTest_iff (segments_reads (endTerms_reads _) _) text

/-! ## What the test finds -/

/-- The part of a segment that is still to be read after a star. -/
def afterRun (run : Bool) (segment : JsString) : JsString :=
  if run then segment.dropWhile (· == star) else segment

theorem mem_notSlash {w : JsString} (h : w ∈ notSlash.language) : ∃ d, d ≠ slash ∧ w = [d] := by
  obtain ⟨d, hd, rfl⟩ := Regex.mem_one.mp h
  exact ⟨d, by simpa [slash] using hd, rfl⟩

theorem mem_notSlash_star {w : JsString} (h : w ∈ (Regex.star notSlash).language) : slash ∉ w := by
  obtain ⟨L, rfl, hL⟩ := Regex.mem_star.mp h
  intro hmem
  obtain ⟨y, hy, hs⟩ := List.mem_flatten.mp hmem
  obtain ⟨d, hd, rfl⟩ := mem_notSlash (hL y hy)
  exact hd (List.mem_singleton.mp hs).symm

theorem mem_unit {c : UInt16} {w : JsString} (h : w ∈ (Regex.one (· == c)).language) : w = [c] := by
  obtain ⟨d, hd, rfl⟩ := Regex.mem_one.mp h
  rw [eq_of_beq hd]

/-- The stars that open the rest of a segment, with the one before them, are one run. -/
theorem run_of_stars {segment u v : JsString} (hu : slash ∉ u)
    (h : SegmentMatches (segment.dropWhile (· == star)) v) : SegmentMatches (star :: segment) (u ++ v) := by
  have hstars : segment.takeWhile (· == star) =
      List.replicate (segment.takeWhile (· == star)).length star := by
    refine List.eq_replicate_iff.mpr ⟨rfl, ?_⟩
    exact fun d hd => eq_of_beq (List.mem_takeWhile_imp (p := (· == star)) hd)
  have hsegment : star :: segment = List.replicate ((segment.takeWhile (· == star)).length + 1) star ++
      segment.dropWhile (· == star) := by
    rw [List.replicate_succ, List.cons_append, ← hstars, List.takeWhile_append_dropWhile]
  rw [hsegment]
  exact SegmentMatches.run hu h

/-- The terms of a segment match it and no slash. -/
theorem segment_sound {k : Regex UInt16} (segment : JsString) (hs : slash ∉ segment) :
    ∀ (run : Bool) (w : JsString), w ∈ (segmentTerms k run segment).language →
      ∃ u v, w = u ++ v ∧ slash ∉ u ∧ SegmentMatches (afterRun run segment) u ∧
        v ∈ k.language := by
  induction segment with
  | nil =>
    intro run w hw
    refine ⟨[], w, rfl, List.not_mem_nil, ?_, hw⟩
    have hnil : afterRun run [] = [] := by
      cases run <;> rfl
    rw [hnil]
    exact SegmentMatches.done
  | cons c s ih =>
    have hcs : slash ≠ c ∧ slash ∉ s := by
      simpa using hs
    intro run w hw
    rw [segmentTerms] at hw
    by_cases hc : c = star
    · subst hc
      rw [if_pos rfl] at hw
      cases run with
      | true =>
        rw [if_pos rfl] at hw
        have hafter : afterRun true (star :: s) = afterRun true s := rfl
        rw [hafter]
        exact ih hcs.2 true w hw
      | false =>
        rw [if_neg Bool.false_ne_true] at hw
        obtain ⟨u, hu, w', hw', rfl⟩ := Regex.mem_seq.mp hw
        obtain ⟨u', v, rfl, hu', hmatch, hv⟩ := ih hcs.2 true w' hw'
        have hfree := mem_notSlash_star hu
        refine ⟨u ++ u', v, (List.append_assoc u u' v).symm, ?_, run_of_stars hfree hmatch, hv⟩
        simpa using ⟨hfree, hu'⟩
    · have hafter : afterRun run (c :: s) = c :: s := by
        cases run with
        | true => exact List.dropWhile_cons_of_neg (p := (· == star)) fun e => hc (eq_of_beq e)
        | false => rfl
      rw [if_neg hc] at hw
      rw [hafter]
      by_cases hq : c = question
      · subst hq
        rw [if_pos rfl] at hw
        obtain ⟨x, hx, w', hw', rfl⟩ := Regex.mem_seq.mp hw
        obtain ⟨d, hd, rfl⟩ := mem_notSlash hx
        obtain ⟨u, v, rfl, hu, hmatch, hv⟩ := ih hcs.2 false w' hw'
        refine ⟨d :: u, v, rfl, ?_, SegmentMatches.one hd hmatch, hv⟩
        simpa using ⟨hd.symm, hu⟩
      · rw [if_neg hq] at hw
        obtain ⟨x, hx, w', hw', rfl⟩ := Regex.mem_seq.mp hw
        obtain rfl := mem_unit hx
        obtain ⟨u, v, rfl, hu, hmatch, hv⟩ := ih hcs.2 false w' hw'
        refine ⟨c :: u, v, rfl, ?_, SegmentMatches.literal ⟨hc, hq⟩ hmatch, hv⟩
        simpa using ⟨hcs.1, hu⟩

theorem components_length (w : JsString) : 1 ≤ (w.splitOn slash).length :=
  List.length_pos_iff.mpr (List.splitOn_ne_nil slash w)

theorem mem_endTerms {under : Bool} {w : JsString} (h : w ∈ (endTerms under).language) :
    if under then ∃ v, w = slash :: v else w = [] := by
  cases under with
  | false => exact (Language.mem_one w).mp h
  | true =>
    obtain ⟨x, hx, v, _, rfl⟩ := Regex.mem_seq.mp h
    obtain rfl := mem_unit hx
    exact ⟨v, rfl⟩

/-- Directories that a `**` takes are components of the path. -/
theorem directories_sound {w v : JsString} (h : w ∈ (Regex.star directoryTerm).language) :
    ∃ dirs, (w ++ v).splitOn slash = dirs ++ v.splitOn slash := by
  obtain ⟨L, rfl, hL⟩ := Regex.mem_star.mp h
  induction L with
  | nil => exact ⟨[], rfl⟩
  | cons y L ih =>
    obtain ⟨hy, hrest⟩ := List.forall_mem_cons.mp hL
    obtain ⟨dirs, hdirs⟩ := ih hrest (Regex.mem_star.mpr ⟨L, rfl, hrest⟩)
    obtain ⟨u, _, x, hx, rfl⟩ := Regex.mem_seq.mp hy
    obtain ⟨z, hz, e, he, rfl⟩ := Regex.mem_seq.mp hx
    obtain rfl := mem_unit hz
    obtain rfl := (Language.mem_one e).mp he
    refine ⟨u.splitOn slash ++ dirs, ?_⟩
    rw [List.flatten_cons, List.append_nil, List.append_assoc, List.append_assoc, List.singleton_append,
      List.splitOn_append_cons_self, hdirs, List.append_assoc]

/-- A text that the terms of the segments match has components that the segments match. -/
theorem segments_sound {under : Bool} (segments : List JsString) (hne : segments ≠ [])
    (hs : ∀ segment ∈ segments, slash ∉ segment) :
    ∀ w : JsString, w ∈ (segmentsTerms (endTerms under) segments).language →
      SegmentsMatch under segments (w.splitOn slash) := by
  induction segments with
  | nil => exact absurd rfl hne
  | cons segment segments ih =>
    obtain ⟨hsegment, hrest⟩ := List.forall_mem_cons.mp hs
    intro w hw
    cases segments with
    | nil =>
      rw [segmentsTerms] at hw
      split_ifs at hw with htwo
      · obtain ⟨u, _, v, hv, rfl⟩ := Regex.mem_seq.mp hw
        rw [htwo]
        refine SegmentsMatch.everything ?_
        have hend := mem_endTerms hv
        cases under with
        | false => exact components_length _
        | true =>
          obtain ⟨v', rfl⟩ := hend
          rw [List.splitOn_append_cons_self, List.length_append]
          have h1 := components_length u
          have h2 := components_length v'
          rw [if_pos rfl]
          omega
      · obtain ⟨u, v, rfl, hu, hmatch, hv⟩ := segment_sound segment hsegment false w hw
        have hend := mem_endTerms hv
        cases under with
        | false =>
          rw [if_neg Bool.false_ne_true] at hend
          rw [hend, List.append_nil, List.splitOn_eq_singleton hu]
          exact SegmentsMatch.last htwo hmatch (by simp)
        | true =>
          obtain ⟨v', rfl⟩ := hend
          rw [List.splitOn_append_cons_self_of_not_mem hu]
          have hlen := components_length v'
          exact SegmentsMatch.last htwo hmatch (by simp [List.ne_nil_of_length_pos hlen])
    | cons segment' segments =>
      have ih := ih (List.cons_ne_nil _ _) hrest
      rw [segmentsTerms] at hw
      · split_ifs at hw with htwo
        · obtain ⟨u, hu, v, hv, rfl⟩ := Regex.mem_seq.mp hw
          obtain ⟨dirs, hdirs⟩ := directories_sound (v := v) hu
          rw [htwo, hdirs]
          exact SegmentsMatch.directories (ih v hv)
        · obtain ⟨u, v, rfl, hu, hmatch, hv⟩ := segment_sound segment hsegment false w hw
          obtain ⟨x, hx, v', hv', rfl⟩ := Regex.mem_seq.mp hv
          obtain rfl := mem_unit hx
          rw [List.singleton_append, List.splitOn_append_cons_self_of_not_mem hu]
          exact SegmentsMatch.next htwo hmatch (ih v' hv')
      all_goals exact fun e => List.cons_ne_nil _ _ e

theorem slash_notMem_component {w : JsString} : ∀ x ∈ w.splitOn slash, slash ∉ x := by
  induction w with
  | nil => simp
  | cons c w ih =>
    rw [List.splitOn_cons_eq_if_modifyHead]
    split_ifs with hc
    · exact List.forall_mem_cons.mpr ⟨List.not_mem_nil, ih⟩
    · cases hsplit : w.splitOn slash with
      | nil => exact absurd hsplit (List.splitOn_ne_nil slash w)
      | cons x xs =>
        rw [hsplit] at ih
        obtain ⟨hx, hxs⟩ := List.forall_mem_cons.mp ih
        have hne : slash ≠ c := fun e => hc (beq_iff_eq.mpr e.symm)
        exact List.forall_mem_cons.mpr ⟨by simpa using ⟨hne, hx⟩, hxs⟩

/-- A text that the test of a pattern accepts has components that its segments match. -/
theorem pattern_sound {pattern text : JsString} (h : anchoredTest (patternSource pattern) text = true) :
    SegmentsMatch (isDirPattern pattern) (segmentsOf pattern) (text.splitOn slash) :=
  segments_sound (segmentsOf pattern) (List.splitOn_ne_nil slash _) slash_notMem_component text
    ((patternTest_iff pattern text).mp h)

theorem SegmentsMatch.ne_nil {under : Bool} {segments components : List JsString}
    (h : SegmentsMatch under segments components) : components ≠ [] := by
  induction h with
  | last hs h hb => exact List.cons_ne_nil _ _
  | everything h =>
    refine List.ne_nil_of_length_pos ?_
    split_ifs at h <;> omega
  | next hs h hrest ih => exact List.cons_ne_nil _ _
  | directories hrest ih => exact List.append_ne_nil_of_right_ne_nil _ ih

/-- Several segments that match one component begin with a `**`, which takes any directories. -/
theorem SegmentsMatch.deepen {under : Bool} {segments : List JsString} {component : JsString}
    (h : SegmentsMatch under segments [component]) (hlong : under = true ∨ 2 ≤ segments.length)
    (dirs : List JsString) : SegmentsMatch under segments (dirs ++ [component]) := by
  generalize hone : [component] = components at h
  cases h with
  | last hs h hb =>
    obtain ⟨rfl, rfl⟩ := List.cons.inj hone
    rw [hb.mp rfl] at hlong
    simp at hlong
  | everything h =>
    rw [← hone] at h
    cases under with
    | true => simp at h
    | false => simp at hlong
  | next hs h hrest => exact absurd (List.cons.inj hone).2.symm hrest.ne_nil
  | @directories segments dirs' rest hrest =>
    rw [← List.append_assoc]
    exact SegmentsMatch.directories hrest

theorem segmentsOf_long {pattern : JsString} (ha : anchored pattern = false) (hmem : slash ∈ pattern) :
    isDirPattern pattern = true ∨ 2 ≤ (segmentsOf pattern).length := by
  cases hdir : isDirPattern pattern with
  | true => exact Or.inl rfl
  | false =>
    have hrooted : rooted pattern = pattern := by
      rw [rooted, ha, if_neg Bool.false_ne_true]
    obtain ⟨u, v, huv⟩ := List.append_of_mem hmem
    rw [segmentsOf, hdir, if_neg Bool.false_ne_true, hrooted, huv, List.splitOn_append_cons_self,
      List.length_append]
    have h1 := components_length u
    have h2 := components_length v
    right
    omega

theorem segmentsOf_plain {pattern : JsString} (hmem : slash ∉ pattern) :
    isDirPattern pattern = false ∧ segmentsOf pattern = [pattern] := by
  have ha : anchored pattern = false := decide_eq_false fun e => hmem (List.mem_of_mem_head? e)
  have hrooted : rooted pattern = pattern := by
    rw [rooted, ha, if_neg Bool.false_ne_true]
  have hdir : isDirPattern pattern = false := by
    refine decide_eq_false ?_
    rw [hrooted]
    exact fun e => hmem (List.mem_of_mem_getLast? e)
  refine ⟨hdir, ?_⟩
  rw [segmentsOf, hdir, if_neg Bool.false_ne_true, hrooted, List.splitOn_eq_singleton hmem]

theorem lastComponent_spec (path : JsString) :
    slash ∉ lastComponent path ∧ ∃ dirs, path.splitOn slash = dirs ++ [lastComponent path] := by
  have hne := List.splitOn_ne_nil slash path
  have hlast : lastComponent path = (path.splitOn slash).getLast hne := by
    rw [lastComponent, List.getLastD_eq_getLast?, List.getLast?_eq_some_getLast hne, Option.getD_some]
  refine ⟨?_, (path.splitOn slash).dropLast, ?_⟩
  · rw [hlast]
    exact slash_notMem_component _ (List.getLast_mem hne)
  · rw [hlast, List.dropLast_append_getLast hne]

/-- A match that is reported is one of the declared rules. -/
theorem codeownersMatch_declared {pattern path : JsString} (h : codeownersMatch pattern path = true) :
    RuleMatches pattern path := by
  rw [codeownersMatch, Bool.or_eq_true, Bool.and_eq_true, Bool.not_eq_true'] at h
  obtain h | ⟨ha, h⟩ := h
  · exact Or.inl (pattern_sound h)
  · obtain ⟨hfree, dirs, hdirs⟩ := lastComponent_spec path
    have hbase := pattern_sound h
    rw [List.splitOn_eq_singleton hfree] at hbase
    by_cases hmem : slash ∈ pattern
    · rw [RuleMatches, hdirs]
      exact Or.inl (hbase.deepen (segmentsOf_long ha hmem) dirs)
    · obtain ⟨hdir, hsegments⟩ := segmentsOf_plain hmem
      rw [hdir, hsegments] at hbase
      exact Or.inr ⟨hmem, hbase⟩

/-! ## What is reported as owned -/

/-- The row is one of a CODEOWNERS file at the base. -/
def DeclaredRow (git : JsString → Option JsString) (baseRef : JsString) (row : Row) : Prop :=
  ∃ file ∈ CODEOWNERS_FILES, ∃ text, git (baseRef ++ js ":" ++ file) = some text ∧
    row ∈ parseCodeowners text

theorem effectiveRows_declared {git : JsString → Option JsString} {baseRef : JsString} {rows : List Row} :
    ∀ {files : List JsString}, effectiveRows git baseRef files = some rows →
      ∃ file ∈ files, ∃ text, git (baseRef ++ js ":" ++ file) = some text ∧
        rows = parseCodeowners text := by
  intro files
  induction files with
  | nil => exact fun h => by cases h
  | cons file files ih =>
    intro h
    rw [effectiveRows] at h
    cases hgit : git (baseRef ++ js ":" ++ file) with
    | some text =>
      rw [hgit] at h
      exact ⟨file, List.mem_cons_self, text, hgit, (Option.some.inj h).symm⟩
    | none =>
      rw [hgit] at h
      obtain ⟨file', hmem, hfile⟩ := ih h
      exact ⟨file', List.mem_cons_of_mem _ hmem, hfile⟩

/-- A path that is owned is so by a row whose rule matches. -/
theorem covered_row {rows : List Row} {path : JsString} : ∀ {owned : Bool},
    rows.foldl (fun owned row => if codeownersMatch row.pattern path then
      !row.negated && decide (row.owners ≠ []) else owned) owned = true →
    owned = true ∨ ∃ row ∈ rows, codeownersMatch row.pattern path = true ∧ row.negated = false ∧
      row.owners ≠ [] := by
  induction rows with
  | nil => exact fun h => Or.inl h
  | cons row rows ih =>
    intro owned h
    rw [List.foldl_cons] at h
    obtain hrow | ⟨row', hmem, hrow⟩ := ih h
    · split_ifs at hrow with hmatch
      · rw [Bool.and_eq_true, Bool.not_eq_true', decide_eq_true_eq] at hrow
        exact Or.inr ⟨row, List.mem_cons_self, hmatch, hrow⟩
      · exact Or.inl hrow
    · exact Or.inr ⟨row', List.mem_cons_of_mem _ hmem, hrow⟩

theorem winner_matches {rows : List Row} {path : JsString} {row : Row} (h : winner rows path = some row) :
    row ∈ rows ∧ codeownersMatch row.pattern path = true := by
  have key : ∀ (rs : List Row) (won : Option Row),
      rs.foldl (fun won row => if codeownersMatch row.pattern path then some row else won) won = some row →
      won = some row ∨ row ∈ rs ∧ codeownersMatch row.pattern path = true := by
    intro rs
    induction rs with
    | nil => exact fun won h => Or.inl h
    | cons r rs ih =>
      intro won h
      rw [List.foldl_cons] at h
      obtain hr | ⟨hmem, hmatch⟩ := ih _ h
      · split_ifs at hr with hmatch
        · obtain rfl := Option.some.inj hr
          exact Or.inr ⟨List.mem_cons_self, hmatch⟩
        · exact Or.inl hr
      · exact Or.inr ⟨List.mem_cons_of_mem _ hmem, hmatch⟩
  obtain hnone | hrow := key rows none h
  · cases hnone
  · exact hrow

theorem mem_addOwners {owner : JsString} {added : List JsString} : ∀ {owners : List JsString},
    owner ∈ addOwners owners added → owner ∈ owners ∨ owner ∈ added := by
  induction added with
  | nil => exact fun h => Or.inl h
  | cons o added ih =>
    intro owners h
    rw [addOwners, List.foldl_cons] at h
    obtain hmem | hmem := ih h
    · split_ifs at hmem
      · exact Or.inl hmem
      · obtain hmem | hmem := List.mem_append.mp hmem
        · exact Or.inl hmem
        · exact Or.inr (List.mem_cons.mpr (Or.inl (List.mem_singleton.mp hmem)))
    · exact Or.inr (List.mem_cons_of_mem _ hmem)

theorem mem_owners {rows : List Row} {owner : JsString} {paths : List JsString} :
    ∀ {owners : List JsString}, owner ∈ paths.foldl (fun owners path =>
      match winner rows path with
      | none => owners
      | some row => if row.negated then owners else addOwners owners row.owners) owners →
    owner ∈ owners ∨ ∃ path ∈ paths, ∃ row ∈ rows, codeownersMatch row.pattern path = true ∧
      row.negated = false ∧ owner ∈ row.owners := by
  induction paths with
  | nil => exact fun h => Or.inl h
  | cons path paths ih =>
    intro owners h
    rw [List.foldl_cons] at h
    obtain hmem | ⟨path', hpath, hrow⟩ := ih h
    · cases hwon : winner rows path with
      | none =>
        rw [hwon] at hmem
        exact Or.inl hmem
      | some row =>
        rw [hwon] at hmem
        dsimp only at hmem
        split_ifs at hmem with hneg
        · exact Or.inl hmem
        · obtain ⟨hrow, hmatch⟩ := winner_matches hwon
          obtain hmem | hmem := mem_addOwners hmem
          · exact Or.inl hmem
          · exact Or.inr ⟨path, List.mem_cons_self, row, hrow, hmatch, Bool.eq_false_iff.mpr hneg, hmem⟩
    · exact Or.inr ⟨path', List.mem_cons_of_mem _ hpath, hrow⟩

/-- Matching never goes beyond the declared rules, and what is reported as owned is owned by a row
whose rule matches: the coverage of a path, and each owner of a list of paths. -/
theorem codeowners_never_overmatch :
    (∀ pattern path, codeownersMatch pattern path = true → RuleMatches pattern path) ∧
    (∀ git baseRef path, pathHasCodeowner git baseRef path = true →
      ∃ row, DeclaredRow git baseRef row ∧ RuleMatches row.pattern path ∧ row.negated = false ∧
        row.owners ≠ []) ∧
    ∀ git baseRef paths owner, owner ∈ ownersForPaths git baseRef paths →
      ∃ path ∈ paths, ∃ row, DeclaredRow git baseRef row ∧ RuleMatches row.pattern path ∧
        row.negated = false ∧ owner ∈ row.owners := by
  refine ⟨fun _ _ h => codeownersMatch_declared h, ?_, ?_⟩
  · intro git baseRef path h
    rw [pathHasCodeowner] at h
    cases hrows : effectiveRows git baseRef CODEOWNERS_FILES with
    | none =>
      rw [hrows] at h
      cases h
    | some rows =>
      rw [hrows] at h
      obtain ⟨file, hfile, text, htext, rfl⟩ := effectiveRows_declared hrows
      obtain hfalse | ⟨row, hrow, hmatch, hneg, howners⟩ := covered_row h
      · cases hfalse
      · exact ⟨row, ⟨file, hfile, text, htext, hrow⟩, codeownersMatch_declared hmatch, hneg, howners⟩
  · intro git baseRef paths owner h
    rw [ownersForPaths] at h
    cases hrows : effectiveRows git baseRef CODEOWNERS_FILES with
    | none =>
      rw [hrows] at h
      cases h
    | some rows =>
      rw [hrows] at h
      obtain ⟨file, hfile, text, htext, rfl⟩ := effectiveRows_declared hrows
      obtain hfalse | ⟨path, hpath, row, hrow, hmatch, hneg, howner⟩ := mem_owners h
      · cases hfalse
      · exact ⟨path, hpath, row, ⟨file, hfile, text, htext, hrow⟩, codeownersMatch_declared hmatch, hneg,
          howner⟩

/-- One file, whose last row takes the documents from the owner of everything. -/
def sampleGit (revision : JsString) : Option JsString :=
  if revision = js "base:CODEOWNERS" then some (js "* @all\n/docs/**/*.md @writer # documents\n") else none

theorem codeowners_never_overmatch_sample :
    codeownersMatch (js "/docs/**/*.md") (js "docs/a/b.md") = true ∧
      RuleMatches (js "/docs/**/*.md") (js "docs/a/b.md") ∧
      js "writer" ∈ ownersForPaths sampleGit (js "base") [js "docs/a/b.md"] ∧
      ∃ path ∈ [js "docs/a/b.md"], ∃ row, DeclaredRow sampleGit (js "base") row ∧
        RuleMatches row.pattern path ∧ row.negated = false ∧ js "writer" ∈ row.owners := by
  have hmatch : codeownersMatch (js "/docs/**/*.md") (js "docs/a/b.md") = true := by decide +kernel
  have howner : js "writer" ∈ ownersForPaths sampleGit (js "base") [js "docs/a/b.md"] := by decide +kernel
  exact ⟨hmatch, codeowners_never_overmatch.1 _ _ hmatch, howner,
    codeowners_never_overmatch.2.2 _ _ _ _ howner⟩

end Adlc.RailsGuard
