import Adlc.Framework.IntNumber
import Adlc.Framework.Lines
import Adlc.Framework.Subsequence

namespace Adlc.BacklogGroom

open Adlc.Framework

/-! Verification of cited excerpts against the files at one revision. -/

/-! ## Excerpts -/

/-- `replace(/\s+/g, ' ')`; `inRun` says that the unit before was white. -/
def collapse (inRun : Bool) : JsString → JsString
  | [] => []
  | c :: s =>
    if isTrimmed c then (if inRun then collapse true s else 32 :: collapse true s)
    else c :: collapse false s

def normaliseLines (text : JsString) : List JsString :=
  ((splitLines text).map fun l => collapse false (trim l)).filter (· ≠ [])

def lineIndexOf (content : JsString) : List Nat :=
  (((splitLines content).zipIdx 1).filter fun l => trim l.1 ≠ []).map (·.2)

structure Prepared where
  hay : List JsString
  originalLineOf : List Nat

def prepareContent (content : JsString) : Prepared := ⟨normaliseLines content, lineIndexOf content⟩

/-- `originalLineOf[i] ?? -1` -/
def Prepared.lineAt (p : Prepared) (i : Nat) : Int :=
  match p.originalLineOf[i]? with
  | some n => n
  | none => -1

inductive MatchKind where
  | all | none | partially
  deriving DecidableEq

structure Match where
  kind : MatchKind
  firstLine : Int
  matched : Nat
  total : Nat

structure Walk where
  hi : Nat
  matched : Nat
  firstLine : Int

/-- `while (hi < hay.length && hay[hi] !== want) hi += 1` -/
def skipTo (hay : List JsString) (want : JsString) (hi : Nat) : Nat :=
  hi + (hay.drop hi).findIdx (· = want)

/-- The walk through the file, line of the excerpt by line. -/
def Prepared.walk (p : Prepared) : List JsString → Walk → Walk
  | [], w => w
  | want :: needle, w =>
    let hi := skipTo p.hay want w.hi
    if p.hay.length ≤ hi then { w with hi }
    else p.walk needle ⟨hi + 1, w.matched + 1, if w.firstLine = -1 then p.lineAt hi else w.firstLine⟩

def matchSnippet (p : Prepared) (snippet : JsString) : Match :=
  let needle := normaliseLines snippet
  if needle = [] then ⟨.none, -1, 0, 0⟩
  else
    let w := p.walk needle ⟨0, 0, -1⟩
    let anywhere := countAvailable (fun l => p.hay.count l) needle
    let found : Nat × Int :=
      if w.matched < needle.length then
        (if w.matched < anywhere then anywhere else w.matched,
          if w.firstLine = -1 ∧ 0 < anywhere then p.lineAt (p.hay.findIdx (· ∈ needle)) else w.firstLine)
      else (w.matched, w.firstLine)
    let kind : MatchKind :=
      if found.1 = needle.length then .all else if found.1 = 0 then .none else .partially
    ⟨kind, found.2, found.1, needle.length⟩

/-! ## Citations -/

structure Reference where
  path : JsString
  line : Option Nat
  snippets : Option (List JsString)
  snippet : Option JsString

/-- What git answers at the revision of the run. -/
structure RevisionIO where
  revision : JsString
  readFile : JsString → Except JsString JsString
  pathKind : JsString → Option JsString
  lastCommitFor : JsString → Option JsString
  everExisted : JsString → Bool

inductive CitationVerdict where
  | moved | valid | unverifiable | fixed | notAReference | unverified
  deriving DecidableEq

inductive CitationEvidence where
  | missing (path : JsString) (citedLine : Option Nat) (reason : JsString)
  | gone (path : JsString) (citedLine : Option Nat) (revision : JsString)
      (lastCommitTouchingPath : Option JsString) (reason : JsString)
  | found (path : JsString) (citedLine : Option Nat) (foundAtLine : Int) (movedWithinFile : Bool)

structure CitationOutcome where
  verdict : CitationVerdict
  evidence : Option CitationEvidence
  reason : Option JsString

def CitationOutcome.unverifiable (reason : JsString) : CitationOutcome := ⟨.unverifiable, none, some reason⟩

/-- `snippets ?? (snippet ? [snippet] : [])` -/
def Reference.declared (ref : Reference) : List JsString :=
  match ref.snippets with
  | some snippets => snippets
  | none => (ref.snippet.filter (· ≠ [])).toList

/-- The excerpts with more than white space. -/
def Reference.excerpts (ref : Reference) : List JsString := ref.declared.filter fun sn => trim sn ≠ []

def judgeExcerpts (io : RevisionIO) (ref : Reference) (content : JsString) (snippets : List JsString) :
    CitationOutcome :=
  let found := snippets.map (matchSnippet (prepareContent content))
  let best := ((found.find? fun m => m.kind = .all).or (found.find? fun m => m.kind = .partially)).or found.head?
  match best with
  | none => .unverifiable []
  | some m =>
    match m.kind with
    | .none =>
      ⟨.fixed, some (.gone ref.path ref.line io.revision (io.lastCommitFor ref.path)
        (if 1 < snippets.length then
          js "no line of any of the " ++ natText snippets.length ++
            js " cited excerpts survives anywhere in the file"
        else js "no line of the cited snippet survives anywhere in the file")), none⟩
    | .partially =>
      .unverifiable (js "only " ++ natText m.matched ++ js " of " ++ natText m.total ++
        js " cited line(s) survive in " ++ ref.path ++ js " — changed, but not demonstrably fixed")
    | .all =>
      ⟨.valid, some (.found ref.path ref.line m.firstLine
        (ref.line.any fun (line : Nat) => decide (m.firstLine ≠ line))), none⟩

def verifyCitation (io : RevisionIO) (ref : Reference) : CitationOutcome :=
  match (io.pathKind ref.path).filter (· ≠ []) with
  | none =>
    if ¬io.everExisted ref.path then
      ⟨.notAReference, none, some (ref.path ++ js " has never existed in this repository")⟩
    else ⟨.moved, some (.missing ref.path ref.line (js "the cited path existed and no longer does")), none⟩
  | some kind =>
    if kind ≠ js "blob" then
      .unverifiable (ref.path ++ js " is a " ++ kind ++
        js " at this revision, not a file — there is nothing to compare an excerpt against")
    else if ref.excerpts = [] then
      .unverifiable (if ref.declared ≠ [] then
          ref.path ++ js " is cited with an empty excerpt — nothing to compare"
        else js "no snippet to compare for " ++ ref.path)
    else
      match io.readFile ref.path with
      | .error message => .unverifiable (ref.path ++ js " is unreadable: " ++ message)
      | .ok content => judgeExcerpts io ref content ref.excerpts

/-! ## Issues -/

structure ClassifiedIssue where
  number : Nat
  route : JsString
  references : List Reference
  referencesTruncated : Bool

structure VerifiedIssue where
  number : Nat
  route : JsString
  outcome : CitationOutcome
  verifiedPaths : List JsString

def aggregate (outcomes : List CitationOutcome) (referencesTruncated : Bool) : CitationOutcome :=
  let order : List CitationVerdict :=
    if referencesTruncated then [.moved, .valid, .unverifiable] else [.moved, .valid, .unverifiable, .fixed]
  match order.findSome? fun want => outcomes.find? fun o => o.verdict = want with
  | some hit =>
    if hit.verdict = .unverifiable then
      .unverifiable (hit.reason.getD (js "a citation could not be checked"))
    else ⟨hit.verdict, hit.evidence, none⟩
  | none =>
    .unverifiable (if referencesTruncated then
        js "the issue cites more locations than one sweep will read; its evidence is incomplete"
      else (outcomes.findSome? (·.reason)).getD (js "no citation could be checked"))

/-- The paths whose own check said where the code is, or was. -/
def verifiedPathsOf (outcomes : List (JsString × CitationOutcome)) : List JsString :=
  ((outcomes.filter fun o => o.2.verdict = .valid ∨ o.2.verdict = .fixed).map (·.1)).reverse.dedup.reverse

def verifyIssue (io : RevisionIO) (classified : ClassifiedIssue) : VerifiedIssue :=
  if classified.route = js "model" then
    ⟨classified.number, classified.route, ⟨.unverified, none, none⟩, []⟩
  else if classified.route = js "unverifiable" then
    ⟨classified.number, classified.route, ⟨.unverifiable, none, none⟩, []⟩
  else
    let outcomes := classified.references.map fun ref => (ref.path, verifyCitation io ref)
    ⟨classified.number, classified.route, aggregate (outcomes.map (·.2)) classified.referencesTruncated,
      verifiedPathsOf outcomes⟩

/-! ## What a match says -/

theorem skipTo_lt_iff (hay : List JsString) (want : JsString) (hi : Nat) :
    skipTo hay want hi < hay.length ↔ (hay.drop hi).findIdx (· = want) < (hay.drop hi).length := by
  rw [skipTo, List.length_drop]
  omega

theorem walk_sublist_iff (p : Prepared) (needle : List JsString) (w : Walk) :
    (p.walk needle w).matched ≤ w.matched + needle.length ∧
      ((p.walk needle w).matched = w.matched + needle.length ↔ needle.Sublist (p.hay.drop w.hi)) := by
  induction needle generalizing w with
  | nil =>
    rw [Prepared.walk]
    exact ⟨Nat.le_refl _, iff_of_true rfl (List.nil_sublist _)⟩
  | cons want needle ih =>
    rw [Prepared.walk, cons_sublist_iff_drop, ← skipTo_lt_iff, List.drop_drop]
    by_cases hend : p.hay.length ≤ skipTo p.hay want w.hi
    · rw [if_pos hend, List.length_cons]
      refine ⟨Nat.le_add_right _ _, iff_of_false ?_ fun h => absurd h.1 (Nat.not_lt.mpr hend)⟩
      dsimp only
      omega
    · rw [if_neg hend]
      obtain ⟨hle, hiff⟩ := ih ⟨skipTo p.hay want w.hi + 1, w.matched + 1,
        if w.firstLine = -1 then p.lineAt (skipTo p.hay want w.hi) else w.firstLine⟩
      rw [List.length_cons, ← Nat.add_assoc, Nat.add_right_comm]
      refine ⟨hle, hiff.trans ?_⟩
      rw [and_iff_right (Nat.not_le.mp hend)]
      exact Iff.rfl

/-- The walk counts a line only where the file has the first. -/
theorem walk_mem {p : Prepared} {needle : List JsString} {w : Walk}
    (h : w.matched < (p.walk needle w).matched) : ∃ l ∈ needle, l ∈ p.hay := by
  cases needle with
  | nil => exact absurd h (Nat.lt_irrefl _)
  | cons want needle =>
    refine ⟨want, List.mem_cons_self, ?_⟩
    rw [Prepared.walk] at h
    by_cases hend : p.hay.length ≤ skipTo p.hay want w.hi
    · rw [if_pos hend] at h
      exact absurd h (Nat.lt_irrefl _)
    · have hlt := (skipTo_lt_iff _ _ _).mp (Nat.not_le.mp hend)
      have hfound := List.findIdx_getElem (w := hlt)
      rw [decide_eq_true_eq] at hfound
      rw [← hfound]
      exact List.mem_of_mem_drop (List.getElem_mem hlt)

theorem matchKind_iff (matched : Nat) {total : Nat} (h : total ≠ 0) :
    let kind : MatchKind := if matched = total then .all else if matched = 0 then .none else .partially
    (kind = .all ↔ matched = total) ∧ (kind = .none ↔ matched = 0) := by
  dsimp only
  split_ifs with hall hnone
  · exact ⟨iff_of_true rfl hall, iff_of_false (by decide) (by omega)⟩
  · exact ⟨iff_of_false (by decide) hall, iff_of_true rfl hnone⟩
  · exact ⟨iff_of_false (by decide) hall, iff_of_false (by decide) hnone⟩

/-- An excerpt is found whole when its lines occur in any order, and not at all when none does. -/
theorem matchSnippet_kind (p : Prepared) {snippet : JsString} (h : normaliseLines snippet ≠ []) :
    ((matchSnippet p snippet).kind = .all ↔ (normaliseLines snippet).Subperm p.hay) ∧
      ((matchSnippet p snippet).kind = .none ↔ ∀ l ∈ normaliseLines snippet, l ∉ p.hay) := by
  obtain ⟨hle, hsub⟩ := walk_sublist_iff p (normaliseLines snippet) ⟨0, 0, -1⟩
  have hmem := @walk_mem p (normaliseLines snippet) ⟨0, 0, -1⟩
  have hperm := countAvailable_count_eq_length_iff p.hay (normaliseLines snippet)
  have hcount := countAvailable_le (fun l => p.hay.count l) (normaliseLines snippet)
  have hzero : countAvailable (fun l => p.hay.count l) (normaliseLines snippet) = 0 ↔
      ∀ l ∈ normaliseLines snippet, l ∉ p.hay := by
    rw [countAvailable_eq_zero_iff]
    exact forall₂_congr fun l _ => List.count_eq_zero
  have hne : (normaliseLines snippet).length ≠ 0 := fun e => h (List.length_eq_zero_iff.mp e)
  rw [matchSnippet, if_neg h]
  dsimp only at hle hsub hmem ⊢
  rw [Nat.zero_add] at hle hsub
  rw [List.drop_zero] at hsub
  generalize (p.walk (normaliseLines snippet) ⟨0, 0, -1⟩).matched = greedy at hle hsub hmem ⊢
  generalize countAvailable (fun l => p.hay.count l) (normaliseLines snippet) = anywhere at hperm hcount hzero ⊢
  by_cases hlt : greedy < (normaliseLines snippet).length
  · rw [if_pos hlt]
    obtain ⟨hall, hnone⟩ := matchKind_iff (if greedy < anywhere then anywhere else greedy) hne
    refine ⟨hall.trans ?_, hnone.trans ?_⟩
    · rw [← hperm]
      split_ifs
      · exact Iff.rfl
      · omega
    · rw [← hzero]
      split_ifs with hmore
      · exact Iff.rfl
      · refine ⟨fun e => by omega, fun e => ?_⟩
        by_contra hpos
        obtain ⟨l, hl, hin⟩ := hmem (Nat.pos_of_ne_zero hpos)
        exact hzero.mp e l hl hin
  · rw [if_neg hlt]
    have heq : greedy = (normaliseLines snippet).length := Nat.le_antisymm hle (Nat.not_lt.mp hlt)
    have hin := hsub.mp heq
    obtain ⟨hall, hnone⟩ := matchKind_iff greedy hne
    refine ⟨hall.trans (iff_of_true heq hin.subperm), hnone.trans (iff_of_false (by omega) fun hall => ?_)⟩
    obtain ⟨l, hl⟩ := List.exists_mem_of_ne_nil _ h
    exact hall l hl (hin.subset hl)

/-- What a match should say of an excerpt. -/
structure MatchExact (p : Prepared) (snippet : JsString) : Prop where
  all : (matchSnippet p snippet).kind = .all ↔ (normaliseLines snippet).Sublist p.hay
  none : (matchSnippet p snippet).kind = .none ↔ ∀ l ∈ normaliseLines snippet, l ∉ p.hay
  partially : (matchSnippet p snippet).kind = .partially ↔
    ¬(normaliseLines snippet).Sublist p.hay ∧ ∃ l ∈ normaliseLines snippet, l ∈ p.hay

/-- A match is exact unless the lines of the excerpt all occur, but not in its order. -/
theorem matchExact_iff (p : Prepared) {snippet : JsString} (h : normaliseLines snippet ≠ []) :
    MatchExact p snippet ↔
      ((normaliseLines snippet).Subperm p.hay → (normaliseLines snippet).Sublist p.hay) := by
  obtain ⟨hall, hnone⟩ := matchSnippet_kind p h
  constructor
  · exact fun hexact hperm => hexact.all.mp (hall.mpr hperm)
  · intro himp
    have hall' := hall.trans ⟨himp, List.Sublist.subperm⟩
    refine ⟨hall', hnone, ?_⟩
    rw [← hall']
    have hsome : (∃ l ∈ normaliseLines snippet, l ∈ p.hay) ↔ (matchSnippet p snippet).kind ≠ .none := by
      rw [Ne, hnone]
      push Not
      exact Iff.rfl
    rw [hsome]
    cases (matchSnippet p snippet).kind <;> decide

/-! ## What a fixed verdict means -/

/-- A path that the repository has, or once had. -/
def RevisionIO.Had (io : RevisionIO) (path : JsString) : Prop :=
  (io.pathKind path).getD [] ≠ [] ∨ io.everExisted path = true

/-- The file is there and no line of any of its excerpts is. -/
def RevisionIO.Gone (io : RevisionIO) (ref : Reference) : Prop :=
  io.pathKind ref.path = some (js "blob") ∧ ref.excerpts ≠ [] ∧
    ∃ content, io.readFile ref.path = .ok content ∧
      ∀ snippet ∈ ref.excerpts, ∀ l ∈ normaliseLines snippet, l ∉ normaliseLines content

theorem mem_splitLines {s : JsString} {c : UInt16} (hc : c ∈ s) (hne : c ≠ 10) :
    ∃ line ∈ splitLines s, c ∈ line := by
  induction s with
  | nil => cases hc
  | cons d s ih =>
    rw [splitLines]
    obtain rfl | hc := List.mem_cons.mp hc
    · rw [if_neg hne]
      cases splitLines s with
      | nil => exact ⟨_, List.mem_cons_self, List.mem_cons_self⟩
      | cons line lines => exact ⟨_, List.mem_cons_self, List.mem_cons_self⟩
    · obtain ⟨line, hline, hin⟩ := ih hc
      split_ifs
      · exact ⟨line, List.mem_cons_of_mem _ hline, hin⟩
      · cases e : splitLines s with
        | nil =>
          rw [e] at hline
          cases hline
        | cons first lines =>
          rw [e] at hline
          obtain rfl | hline := List.mem_cons.mp hline
          · exact ⟨_, List.mem_cons_self, List.mem_cons_of_mem _ hin⟩
          · exact ⟨line, List.mem_cons_of_mem _ hline, hin⟩

theorem trim_ne_nil_iff (s : JsString) : trim s ≠ [] ↔ ∃ c ∈ s, isTrimmed c = false := by
  have hblank : trim s = [] ↔ ∀ c ∈ s, isTrimmed c = true := by
    rw [trim, List.rdropWhile_eq_nil_iff]
    constructor
    · intro hall
      refine List.dropWhile_eq_nil_iff.mp ?_
      by_contra hne
      have hhead := List.head_dropWhile_not isTrimmed hne
      rw [hall _ (List.head_mem hne)] at hhead
      exact Bool.noConfusion hhead
    · intro hall
      rw [List.dropWhile_eq_nil_iff.mpr hall]
      exact fun c hc => absurd hc List.not_mem_nil
  rw [Ne, hblank]
  push Not
  exact exists_congr fun c => and_congr_right fun _ => Bool.not_eq_true _ ▸ Iff.rfl

theorem collapse_ne_nil {s : JsString} (h : s ≠ []) : collapse false s ≠ [] := by
  cases s with
  | nil => exact absurd rfl h
  | cons c s =>
    rw [collapse, if_neg Bool.false_ne_true]
    split_ifs
    · exact List.cons_ne_nil _ _
    · exact List.cons_ne_nil _ _

theorem normaliseLines_ne_nil {snippet : JsString} (h : trim snippet ≠ []) : normaliseLines snippet ≠ [] := by
  obtain ⟨c, hc, hvisible⟩ := (trim_ne_nil_iff snippet).mp h
  have hne : c ≠ 10 := by
    rintro rfl
    exact absurd hvisible (by decide)
  obtain ⟨line, hline, hin⟩ := mem_splitLines hc hne
  have hcollapse := collapse_ne_nil ((trim_ne_nil_iff line).mpr ⟨c, hin, hvisible⟩)
  refine List.ne_nil_of_mem (a := collapse false (trim line)) ?_
  rw [normaliseLines, List.mem_filter]
  exact ⟨List.mem_map_of_mem hline, decide_eq_true hcollapse⟩

theorem judgeExcerpts_fixed {io : RevisionIO} {ref : Reference} {content : JsString}
    (h : (judgeExcerpts io ref content ref.excerpts).verdict = .fixed) :
    ∀ snippet ∈ ref.excerpts, ∀ l ∈ normaliseLines snippet, l ∉ normaliseLines content := by
  have hnone : ∀ m ∈ ref.excerpts.map (matchSnippet (prepareContent content)), m.kind = .none := by
    unfold judgeExcerpts at h
    dsimp only at h
    generalize ref.excerpts.map (matchSnippet (prepareContent content)) = found at h ⊢
    intro m hm
    cases hall : found.find? (fun m => m.kind = .all) with
    | some best =>
      have hkind := List.find?_some hall
      rw [decide_eq_true_eq] at hkind
      simp only [hall, Option.some_or, hkind] at h
      cases h
    | none =>
      cases hpart : found.find? (fun m => m.kind = .partially) with
      | some best =>
        have hkind := List.find?_some hpart
        rw [decide_eq_true_eq] at hkind
        simp only [hall, hpart, Option.none_or, Option.some_or, hkind] at h
        cases h
      | none =>
        have h1 := List.find?_eq_none.mp hall m hm
        have h2 := List.find?_eq_none.mp hpart m hm
        rw [decide_eq_true_eq] at h1 h2
        cases e : m.kind with
        | all => exact absurd e h1
        | none => rfl
        | partially => exact absurd e h2
  intro snippet hsnippet
  have htrim : trim snippet ≠ [] := of_decide_eq_true (List.mem_filter.mp hsnippet).2
  exact (matchSnippet_kind _ (normaliseLines_ne_nil htrim)).2.mp (hnone _ (List.mem_map_of_mem hsnippet))

theorem verifyCitation_fixed {io : RevisionIO} {ref : Reference}
    (h : (verifyCitation io ref).verdict = .fixed) : io.Gone ref := by
  unfold verifyCitation at h
  split at h
  · split_ifs at h
  · rename_i kind hkind
    split_ifs at h with hblob hempty
    · cases h
    · cases h
    · cases h
    · rw [not_not] at hblob
      obtain ⟨hpath, -⟩ := Option.filter_eq_some_iff.mp hkind
      split at h
      · cases h
      · rename_i content hcontent
        exact ⟨hblob ▸ hpath, hempty, content, hcontent, judgeExcerpts_fixed h⟩

theorem judgeExcerpts_verdict (io : RevisionIO) (ref : Reference) (content : JsString)
    (snippets : List JsString) :
    (judgeExcerpts io ref content snippets).verdict ∈ [.valid, .unverifiable, .fixed] := by
  unfold judgeExcerpts
  dsimp only
  split
  · simp [CitationOutcome.unverifiable]
  · split <;> simp [CitationOutcome.unverifiable]

/-- A citation is not a reference only when the repository never had its path. -/
theorem verifyCitation_verdict (io : RevisionIO) (ref : Reference) :
    (verifyCitation io ref).verdict ∈ [.moved, .valid, .unverifiable, .fixed] ∨
      (verifyCitation io ref).verdict = .notAReference ∧ ¬io.Had ref.path := by
  unfold verifyCitation
  split
  · rename_i hkind
    split_ifs with hever
    · exact Or.inl (by simp)
    · refine Or.inr ⟨rfl, ?_⟩
      rintro (hpath | hpast)
      · cases e : io.pathKind ref.path with
        | none =>
          rw [e] at hpath
          exact hpath rfl
        | some kind =>
          rw [e] at hkind hpath
          have hkeep : (some kind).filter (fun k => decide (k ≠ [])) = some kind :=
            Option.filter_eq_some_iff.mpr ⟨rfl, decide_eq_true hpath⟩
          rw [hkeep] at hkind
          cases hkind
      · exact hever hpast
  · split_ifs
    · exact Or.inl (by simp [CitationOutcome.unverifiable])
    · exact Or.inl (by simp [CitationOutcome.unverifiable])
    · exact Or.inl (by simp [CitationOutcome.unverifiable])
    · split
      · exact Or.inl (by simp [CitationOutcome.unverifiable])
      · rename_i content _
        have h := judgeExcerpts_verdict io ref content ref.excerpts
        exact Or.inl (List.mem_cons_of_mem _ h)

theorem pick_verdict {order : List CitationVerdict} {outcomes : List CitationOutcome} {hit : CitationOutcome}
    (h : (order.findSome? fun want => outcomes.find? fun o => o.verdict = want) = some hit) :
    hit.verdict ∈ order ∧ hit ∈ outcomes := by
  obtain ⟨want, hwant, hfind⟩ := List.exists_of_findSome?_eq_some h
  have hverdict := List.find?_some hfind
  rw [decide_eq_true_eq] at hverdict
  exact ⟨hverdict ▸ hwant, List.mem_of_find?_eq_some hfind⟩

theorem aggregate_fixed {outcomes : List CitationOutcome} {truncated : Bool}
    (h : (aggregate outcomes truncated).verdict = .fixed) :
    truncated = false ∧ (∃ o ∈ outcomes, o.verdict = .fixed) ∧
      ∀ o ∈ outcomes, o.verdict ∉ [CitationVerdict.moved, .valid, .unverifiable] := by
  unfold aggregate at h
  dsimp only at h
  split at h
  · rename_i hit hfind
    split_ifs at h with hunverifiable
    · cases h
    · have hfixed : hit.verdict = .fixed := h
      obtain ⟨horder, hmem⟩ := pick_verdict hfind
      rw [hfixed] at horder
      cases truncated with
      | true => exact absurd horder (by decide)
      | false =>
        refine ⟨rfl, ⟨hit, hmem, hfixed⟩, ?_⟩
        have hsplit : (if false = true then [CitationVerdict.moved, .valid, .unverifiable]
            else [CitationVerdict.moved, .valid, .unverifiable, .fixed]) =
              [CitationVerdict.moved, .valid, .unverifiable] ++ [.fixed] := rfl
        rw [hsplit, List.findSome?_append] at hfind
        cases hearlier : [CitationVerdict.moved, .valid, .unverifiable].findSome?
            fun want => outcomes.find? fun o => o.verdict = want with
        | some o =>
          rw [hearlier, Option.some_or] at hfind
          have ho := (pick_verdict hearlier).1
          rw [Option.some.inj hfind, hfixed] at ho
          exact absurd ho (by decide)
        | none =>
          intro o ho hin
          have hnone := List.find?_eq_none.mp (List.findSome?_eq_none_iff.mp hearlier _ hin) o ho
          exact hnone (decide_eq_true rfl)
  · cases h

/-- A fixed issue was read to its end, has a citation that is gone, and every citation of a path the
repository ever had is gone. -/
theorem verifyIssue_fixed {io : RevisionIO} {classified : ClassifiedIssue}
    (h : (verifyIssue io classified).outcome.verdict = .fixed) :
    classified.referencesTruncated = false ∧ (∃ ref ∈ classified.references, io.Gone ref) ∧
      ∀ ref ∈ classified.references, io.Had ref.path → io.Gone ref := by
  unfold verifyIssue at h
  split_ifs at h
  · dsimp only at h
    rw [List.map_map] at h
    obtain ⟨htruncated, ⟨o, ho, hfixed⟩, hall⟩ := aggregate_fixed h
    obtain ⟨ref, href, rfl⟩ := List.mem_map.mp ho
    refine ⟨htruncated, ⟨ref, href, verifyCitation_fixed hfixed⟩, ?_⟩
    intro ref href hhad
    have hnot := hall _ (List.mem_map_of_mem href)
    obtain hverdict | ⟨-, hnever⟩ := verifyCitation_verdict io ref
    · refine verifyCitation_fixed ?_
      simp only [List.mem_cons, List.not_mem_nil, or_false, not_or, Function.comp_apply] at hverdict hnot
      tauto
    · exact absurd hhad hnever

/-- What a fixed verdict of the whole verification stands for. -/
def FixedIsGone : Prop :=
  ∀ (io : RevisionIO) (classified : ClassifiedIssue), (verifyIssue io classified).outcome.verdict = .fixed →
    classified.referencesTruncated = false ∧ (∃ ref ∈ classified.references, io.Gone ref) ∧
      ∀ ref ∈ classified.references, io.Had ref.path → io.Gone ref

/-- Matches and verdicts are exact, except for an excerpt whose lines all occur but not in its order. -/
theorem verification_exact_iff (content snippet : JsString) (h : normaliseLines snippet ≠ []) :
    MatchExact (prepareContent content) snippet ∧ FixedIsGone ↔
      ((normaliseLines snippet).Subperm (normaliseLines content) →
        (normaliseLines snippet).Sublist (normaliseLines content)) := by
  have hfixed : FixedIsGone := fun _ _ => verifyIssue_fixed
  rw [and_iff_left hfixed]
  exact matchExact_iff (prepareContent content) h

theorem verification_exact_inOrder :
    MatchExact (prepareContent (js "a\nx\nb")) (js "a\n b ") ∧ FixedIsGone :=
  (verification_exact_iff (js "a\nx\nb") (js "a\n b ") (by decide)).mpr fun _ => by decide

/-- Two lines that changed places are reported as found whole. -/
theorem reordering_found_whole :
    (matchSnippet (prepareContent (js "b\na")) (js "a\nb")).kind = .all ∧
      ¬MatchExact (prepareContent (js "b\na")) (js "a\nb") := by
  have hall : (matchSnippet (prepareContent (js "b\na")) (js "a\nb")).kind = .all := by decide
  have hnot : ¬(normaliseLines (js "a\nb")).Sublist (prepareContent (js "b\na")).hay := by decide
  exact ⟨hall, fun h => hnot (h.all.mp hall)⟩

end Adlc.BacklogGroom
