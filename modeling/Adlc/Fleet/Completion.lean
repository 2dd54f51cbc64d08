import Mathlib.Logic.Function.Basic
import Mathlib.Data.List.Basic
import Adlc.Framework.Text
import Adlc.Framework.Transition

namespace Adlc.Fleet

open Adlc.Framework

/-! ## The manifest files -/

/-- `.adlc/manifest.jsonl`, and the segments in `.adlc/manifest.d`. -/
inductive ManifestName where
  | root
  | segment (name : JsString)
  deriving DecidableEq

/-- A manifest file by its lines that are not blank, where there is one. -/
abbrev ManifestFile := Option (List JsString)

structure Manifests where
  files : ManifestName → ManifestFile
  /-- The segment of the branch, as `peekOpenSegment` finds it. -/
  openSegment : Option JsString

namespace Manifests

variable (m : Manifests) {f g : ManifestName} {line : JsString} {prior : ManifestFile}

def lines (f : ManifestName) : List JsString := (m.files f).getD []

/-- An entry is appended under the ledger lock. -/
def append (f : ManifestName) (line : JsString) : Manifests :=
  { m with files := Function.update m.files f (some (m.lines f ++ [line])) }

/-- `restoreFile`. A segment that is gone is not open. -/
def restore (f : ManifestName) (prior : ManifestFile) : Manifests where
  files := Function.update m.files f prior
  openSegment :=
    if prior = none then m.openSegment.filter fun n => decide (.segment n ≠ f) else m.openSegment

@[simp] theorem lines_append_self : (m.append f line).lines f = m.lines f ++ [line] := by
  simp [append, lines]

@[simp] theorem lines_append_of_ne (h : g ≠ f) : (m.append f line).lines g = m.lines g := by
  simp [append, lines, h]

@[simp] theorem append_openSegment : (m.append f line).openSegment = m.openSegment := rfl

@[simp] theorem lines_restore_self : (m.restore f prior).lines f = prior.getD [] := by
  simp [restore, lines]

@[simp] theorem lines_restore_of_ne (h : g ≠ f) : (m.restore f prior).lines g = m.lines g := by
  simp [restore, lines, h]

theorem mem_lines_append {l : JsString} (h : l ∈ m.lines g) : l ∈ (m.append f line).lines g := by
  by_cases hg : g = f
  · subst hg
    rw [lines_append_self]
    exact List.mem_append_left _ h
  · rwa [lines_append_of_ne m hg]

end Manifests

/-! ## Where `completeTicketOnIntegration` stands -/

inductive CompletionResult where
  | ticketNotFound | alreadyComplete | noManifestBaseline | completed
  deriving DecidableEq

/-- The effect that comes next. An artifact that is not known yet is pending, and a snapshot of the
manifest goes with the artifact from when it is read. -/
inductive CompletionPoint where
  | loading
  | resolving
  | readingPrior (artifact : Option ManifestName)
  | completing (artifact : Option ManifestName) (prior : ManifestFile)
  | resolvingAfter (artifact : Option ManifestName) (prior : ManifestFile)
  | counting (artifact : Option ManifestName) (target : ManifestName) (prior : ManifestFile)
  | readingAfter (target : ManifestName) (raced : Bool) (prior : ManifestFile)
  | committing (target : ManifestName) (raced : Bool) (prior after : ManifestFile)
  | rollingBack (target : ManifestName) (raced : Bool) (prior after : ManifestFile)
  | returned (result : CompletionResult)
  | threw (ledgerDirty branchContaminated : Bool)
  deriving DecidableEq

inductive StoredTicket where
  | absent | completed | incomplete

/-- What an effect of the function gives. -/
inductive CompletionAnswer where
  | ok
  | threw
  | ticket (stored : StoredTicket)
  /-- The evidence is appended, to the named segment if none is open, and then the transaction
  goes on or throws. -/
  | evidence (segment line : JsString) (throws : Bool)
  /-- The commit landed, and then the checkout was found to have moved. -/
  | moved

inductive CompletionEvent where
  | own (answer : CompletionAnswer)
  /-- Another process appends an entry. -/
  | other (file : ManifestName) (line : JsString)
  /-- Another process mints or recovers the branch's segment, and appends an entry to it. -/
  | otherOpens (segment line : JsString)

/-- A run of the function among other writers; the last two fields are its history. -/
structure CompletionRun where
  manifests : Manifests
  point : CompletionPoint
  /-- What other processes have appended. -/
  appended : List (ManifestName × JsString)
  /-- What they have appended between the two snapshots, where no check looks. -/
  unseen : List JsString

/-- Between the first snapshot of the root manifest, or the count of a segment's lines, and the
second snapshot. -/
def CompletionPoint.blindTo (file : ManifestName) : CompletionPoint → Bool
  | .completing (some .root) _ | .resolvingAfter (some .root) _ => decide (file = .root)
  | .readingAfter target raced _ => !raced && decide (file = target)
  | _ => false

namespace CompletionRun

def start (manifests : Manifests) : CompletionRun := ⟨manifests, .loading, [], []⟩

def goes (r : CompletionRun) (point : CompletionPoint) : Option CompletionRun :=
  some { r with point }

/-- An entry of another process; no manifest holds the same line twice. -/
def appendOther (r : CompletionRun) (file : ManifestName) (line : JsString) : CompletionRun :=
  { r with
    manifests := r.manifests.append file line
    appended := r.appended ++ [(file, line)]
    unseen := if r.point.blindTo file then r.unseen ++ [line] else r.unseen }

/-- Where the evidence goes: to the root, or to the open segment, or to one that is minted or
recovered. A segment that is there and empty is refused. -/
def evidenceFile (segmented : Bool) (m : Manifests) (segment : JsString) : Option JsString :=
  if segmented then
    match m.openSegment with
    | some n => if m.lines (.segment n) = [] then none else some n
    | none => if m.files (.segment segment) = some [] then none else some segment
  else none

/-- The transaction appends its evidence. -/
def writeEvidence (segmented : Bool) (r : CompletionRun) (segment line : JsString)
    (point : CompletionPoint) : Option CompletionRun :=
  if segmented then
    (evidenceFile segmented r.manifests segment).map fun n =>
      { r with
        manifests := { r.manifests.append (.segment n) line with openSegment := some n }
        point }
  else some { r with manifests := r.manifests.append .root line, point }

/-- `resolveManifestArtifactAfterWrite`, once it has read the segment -/
def racedAt (m : Manifests) (artifact : Option ManifestName) (target : ManifestName)
    (prior : ManifestFile) : Bool :=
  match artifact with
  | some guess =>
    decide (guess ≠ target) || decide ((m.lines target).length ≠ (prior.getD []).length + 1)
  | none => decide (1 < (m.lines target).length)

/-- The steps of `completeTicketOnIntegration`. -/
def ownStep (segmented : Bool) (r : CompletionRun) (answer : CompletionAnswer) :
    Option CompletionRun :=
  match r.point, answer with
  | .returned _, _ | .threw _ _, _ => none
  | .committing target raced prior after, .threw => r.goes (.rollingBack target raced prior after)
  | .committing .., .moved => r.goes (.threw false true)
  | _, .threw => r.goes (.threw false false)
  | .loading, .ticket .absent => r.goes (.returned .ticketNotFound)
  | .loading, .ticket .completed => r.goes (.returned .alreadyComplete)
  | .loading, .ticket .incomplete => r.goes .resolving
  | .resolving, .ok =>
    r.goes (.readingPrior
      (if segmented then r.manifests.openSegment.map .segment else some .root))
  | .readingPrior artifact, .ok =>
    let prior := artifact.bind r.manifests.files
    if artifact = some .root ∧ prior = none then r.goes (.returned .noManifestBaseline)
    else r.goes (.completing artifact prior)
  | .completing artifact prior, .evidence segment line throws =>
    r.writeEvidence segmented segment line
      (if throws then .threw false false else .resolvingAfter artifact prior)
  | .resolvingAfter artifact prior, .ok =>
    if segmented then
      match r.manifests.openSegment, artifact with
      | some n, _ => r.goes (.counting artifact (.segment n) prior)
      | none, some guess => r.goes (.readingAfter guess false prior)
      -- There is a segment once an entry has been appended.
      | none, none => none
    else r.goes (.readingAfter .root false prior)
  | .counting artifact target prior, .ok =>
    r.goes (.readingAfter target (racedAt r.manifests artifact target prior) prior)
  | .readingAfter target raced prior, .ok =>
    r.goes (.committing target raced prior (r.manifests.files target))
  | .committing .., .ok => r.goes (.returned .completed)
  | .rollingBack target raced prior after, .ok =>
    if raced then r.goes (.threw true false)
    else if (r.manifests.files target).isSome ∧ r.manifests.files target = after then
      some { r with manifests := r.manifests.restore target prior, point := .threw false false }
    else r.goes (.threw true false)
  | _, _ => none

def step (segmented : Bool) (r : CompletionRun) : CompletionEvent → Option CompletionRun
  | .own answer => r.ownStep segmented answer
  | .other file line => if line ∈ r.manifests.lines file then none else some (r.appendOther file line)
  | .otherOpens segment line =>
    if segmented = true ∧ r.manifests.openSegment = none ∧
        r.manifests.files (.segment segment) ≠ some [] ∧
        line ∉ r.manifests.lines (.segment segment) then
      let r := r.appendOther (.segment segment) line
      some { r with manifests := { r.manifests with openSegment := some segment } }
    else none

/-- Every entry that another process has appended is there. -/
def Kept (r : CompletionRun) : Prop := ∀ e ∈ r.appended, e.2 ∈ r.manifests.lines e.1

/-- The manifest is put back to the first snapshot. -/
def restores (r : CompletionRun) : CompletionEvent → Bool
  | .own .ok =>
    match r.point with
    | .rollingBack target false _ after => decide (r.manifests.files target = after)
    | _ => false
  | _ => false

/-- A manifest is put back only if nobody appended to it where no check looks. -/
def RestoresOwn (r : CompletionRun) (e : CompletionEvent) : Prop := r.restores e = true → r.unseen = []

instance (r : CompletionRun) (e : CompletionEvent) : Decidable (r.RestoresOwn e) :=
  inferInstanceAs (Decidable (_ → _))

/-! ## What is known of the manifest at every point -/

variable {segmented : Bool} {r : CompletionRun} {f g : ManifestName} {line : JsString}
  {prior after : ManifestFile} {artifact : Option ManifestName} {point : CompletionPoint}

/-- The other entries of a file are in the snapshot, or nobody has seen them. -/
structure Covered (r : CompletionRun) (f : ManifestName) (prior : ManifestFile) : Prop where
  entries : ∀ l, (f, l) ∈ r.appended → l ∈ prior.getD [] ∨ l ∈ r.unseen
  unseen : ∀ l ∈ r.unseen, (f, l) ∈ r.appended ∧ l ∉ prior.getD []
  grown : ∀ l ∈ prior.getD [], l ∈ r.manifests.lines f

/-- The segment since its snapshot, before the evidence is written. -/
def Since (r : CompletionRun) (f : ManifestName) (prior : ManifestFile) : Prop :=
  ∃ before, r.manifests.lines f = prior.getD [] ++ before ∧
    ∀ l, (f, l) ∈ r.appended → l ∈ prior.getD [] ∨ l ∈ before

/-- The segment since its snapshot, with the evidence in it. -/
def Wrote (r : CompletionRun) (f : ManifestName) (prior : ManifestFile) : Prop :=
  ∃ before own later, r.manifests.lines f = prior.getD [] ++ before ++ own :: later ∧
    ∀ l, (f, l) ∈ r.appended → l ∈ prior.getD [] ∨ l ∈ before ∨ l ∈ later

/-- The file against both snapshots. -/
structure Snapped (r : CompletionRun) (f : ManifestName) (prior after : ManifestFile) : Prop where
  grown : (after.getD []).length ≤ (r.manifests.lines f).length
  entries : r.manifests.files f = after →
    ∀ l, (f, l) ∈ r.appended → l ∈ prior.getD [] ∨ l ∈ r.unseen
  unseen : ∀ l ∈ r.unseen, (f, l) ∈ r.appended ∧ l ∉ prior.getD []

/-- The artifact is the root manifest, or the open segment, or pending. -/
def Chosen (segmented : Bool) (r : CompletionRun) : Option ManifestName → Prop
  | some .root => segmented = false
  | some (.segment n) => segmented = true ∧ r.manifests.openSegment = some n
  | none => segmented = true

def AtPoint (segmented : Bool) (r : CompletionRun) : CompletionPoint → Prop
  | .loading | .resolving => r.unseen = []
  | .readingPrior artifact => r.unseen = [] ∧ Chosen segmented r artifact
  | .completing artifact prior => Chosen segmented r artifact ∧
    match artifact with
    | some .root => Covered r .root prior
    | some (.segment n) => r.unseen = [] ∧ Since r (.segment n) prior
    | none => r.unseen = [] ∧ prior = none
  | .resolvingAfter artifact prior => Chosen segmented r artifact ∧
    match artifact with
    | some .root => Covered r .root prior
    | some (.segment n) => r.unseen = [] ∧ Wrote r (.segment n) prior
    | none => r.unseen = [] ∧ prior = none ∧
      ∃ n, r.manifests.openSegment = some n ∧ Wrote r (.segment n) prior
  | .counting artifact target prior =>
    r.unseen = [] ∧ Wrote r target prior ∧ (artifact = none → prior = none)
  | .readingAfter target raced prior => raced = false → Covered r target prior
  | .committing target raced prior after | .rollingBack target raced prior after =>
    raced = false → Snapped r target prior after
  | .returned _ | .threw _ _ => True

/-- The invariant of a run in which every restore is harmless. -/
structure Tracked (segmented : Bool) (r : CompletionRun) : Prop where
  kept : r.Kept
  known : AtPoint segmented r r.point

theorem Kept.appendOther (h : r.Kept) : (r.appendOther f line).Kept := by
  intro e he
  rcases List.mem_append.1 he with he | he
  · exact r.manifests.mem_lines_append (h e he)
  · rw [List.mem_singleton] at he
    subst he
    show line ∈ (r.manifests.append f line).lines f
    rw [Manifests.lines_append_self]
    exact List.mem_append_right _ (List.mem_singleton.2 rfl)

theorem mem_appendOther {l : JsString} : (g, l) ∈ (r.appendOther f line).appended ↔
    (g, l) ∈ r.appended ∨ (g = f ∧ l = line) := by
  simp [CompletionRun.appendOther]

theorem lines_appendOther : (r.appendOther f line).manifests.lines g =
    if g = f then r.manifests.lines g ++ [line] else r.manifests.lines g := by
  by_cases h : g = f
  · subst h
    simp [CompletionRun.appendOther]
  · simp [CompletionRun.appendOther, h]

theorem unseen_appendOther_of_not (h : r.point.blindTo f = false) :
    (r.appendOther f line).unseen = r.unseen := by
  simp [CompletionRun.appendOther, h]

theorem Covered.appendOther (h : Covered r g prior) (hnew : line ∉ r.manifests.lines f)
    (hblind : r.point.blindTo f = decide (f = g)) : Covered (r.appendOther f line) g prior := by
  have hunseen : (r.appendOther f line).unseen =
      if f = g then r.unseen ++ [line] else r.unseen := by
    simp [CompletionRun.appendOther, hblind]
  refine ⟨?_, ?_, ?_⟩
  · intro l hl
    rw [hunseen]
    rcases mem_appendOther.1 hl with hl | ⟨rfl, rfl⟩
    · rcases h.entries l hl with hprior | hsee
      · exact .inl hprior
      · right
        split_ifs
        · exact List.mem_append_left _ hsee
        · exact hsee
    · simp
  · intro l hl
    rw [hunseen] at hl
    split_ifs at hl with hfg
    · rcases List.mem_append.1 hl with hl | hl
      · exact ⟨mem_appendOther.2 (.inl (h.unseen l hl).1), (h.unseen l hl).2⟩
      · rw [List.mem_singleton] at hl
        subst hl hfg
        exact ⟨mem_appendOther.2 (.inr ⟨rfl, rfl⟩), fun hprior => hnew (h.grown _ hprior)⟩
    · exact ⟨mem_appendOther.2 (.inl (h.unseen l hl).1), (h.unseen l hl).2⟩
  · intro l hl
    exact r.manifests.mem_lines_append (h.grown l hl)

theorem Since.appendOther (h : Since r g prior) : Since (r.appendOther f line) g prior := by
  obtain ⟨before, hlines, hentries⟩ := h
  by_cases hgf : g = f
  · subst hgf
    refine ⟨before ++ [line], ?_, ?_⟩
    · rw [lines_appendOther, if_pos rfl, hlines, List.append_assoc]
    · intro l hl
      rcases mem_appendOther.1 hl with hl | ⟨-, rfl⟩
      · exact (hentries l hl).imp_right (List.mem_append_left _)
      · simp
  · refine ⟨before, ?_, ?_⟩
    · rw [lines_appendOther, if_neg hgf, hlines]
    · intro l hl
      rcases mem_appendOther.1 hl with hl | ⟨h, -⟩
      · exact hentries l hl
      · exact absurd h hgf

theorem Wrote.appendOther (h : Wrote r g prior) : Wrote (r.appendOther f line) g prior := by
  obtain ⟨before, own, later, hlines, hentries⟩ := h
  by_cases hgf : g = f
  · subst hgf
    refine ⟨before, own, later ++ [line], ?_, ?_⟩
    · rw [lines_appendOther, if_pos rfl, hlines]
      simp
    · intro l hl
      rcases mem_appendOther.1 hl with hl | ⟨-, rfl⟩
      · exact (hentries l hl).imp_right (Or.imp_right (List.mem_append_left _))
      · simp
  · refine ⟨before, own, later, ?_, ?_⟩
    · rw [lines_appendOther, if_neg hgf, hlines]
    · intro l hl
      rcases mem_appendOther.1 hl with hl | ⟨h, -⟩
      · exact hentries l hl
      · exact absurd h hgf

theorem Snapped.appendOther (h : Snapped r g prior after) (hblind : r.point.blindTo f = false) :
    Snapped (r.appendOther f line) g prior after := by
  have hunseen : (r.appendOther f line).unseen = r.unseen := unseen_appendOther_of_not hblind
  refine ⟨?_, ?_, ?_⟩
  · rw [lines_appendOther]
    have hgrown := h.grown
    split_ifs
    · rw [List.length_append]
      omega
    · exact hgrown
  · intro hsame l hl
    rw [hunseen]
    by_cases hgf : g = f
    · -- The file has grown past the second snapshot.
      subst hgf
      have hlines : after.getD [] = r.manifests.lines g ++ [line] := by
        rw [← hsame]
        exact lines_appendOther.trans (if_pos rfl)
      have hgrown := h.grown
      rw [hlines, List.length_append, List.length_singleton] at hgrown
      omega
    · rcases mem_appendOther.1 hl with hl | ⟨h, -⟩
      · apply h.entries _ l hl
        rw [← hsame]
        simp [CompletionRun.appendOther, Manifests.append, hgf]
      · exact absurd h hgf
  · intro l hl
    rw [hunseen] at hl
    exact ⟨mem_appendOther.2 (.inl (h.unseen l hl).1), (h.unseen l hl).2⟩

/-! ## One step -/

theorem Tracked.appendOther (h : Tracked segmented r) (hnew : line ∉ r.manifests.lines f) :
    Tracked segmented (r.appendOther f line) := by
  refine ⟨Kept.appendOther h.kept, ?_⟩
  have hknown := h.known
  show AtPoint segmented (r.appendOther f line) r.point
  cases hpoint : r.point with
  | loading | resolving =>
    rw [hpoint] at hknown
    exact (unseen_appendOther_of_not (by rw [hpoint]; rfl)).trans hknown
  | readingPrior artifact =>
    rw [hpoint] at hknown
    exact ⟨(unseen_appendOther_of_not (by rw [hpoint]; rfl)).trans hknown.1, hknown.2⟩
  | completing artifact prior =>
    rw [hpoint] at hknown
    refine ⟨hknown.1, ?_⟩
    match artifact with
    | some .root => exact Covered.appendOther hknown.2 hnew (by rw [hpoint]; rfl)
    | some (.segment n) =>
      exact ⟨(unseen_appendOther_of_not (by rw [hpoint]; rfl)).trans hknown.2.1,
        Since.appendOther hknown.2.2⟩
    | none =>
      exact ⟨(unseen_appendOther_of_not (by rw [hpoint]; rfl)).trans hknown.2.1, hknown.2.2⟩
  | resolvingAfter artifact prior =>
    rw [hpoint] at hknown
    refine ⟨hknown.1, ?_⟩
    match artifact with
    | some .root => exact Covered.appendOther hknown.2 hnew (by rw [hpoint]; rfl)
    | some (.segment n) =>
      exact ⟨(unseen_appendOther_of_not (by rw [hpoint]; rfl)).trans hknown.2.1,
        Wrote.appendOther hknown.2.2⟩
    | none =>
      obtain ⟨hunseen, hprior, n, hopen, hwrote⟩ := hknown.2
      exact ⟨(unseen_appendOther_of_not (by rw [hpoint]; rfl)).trans hunseen, hprior, n, hopen,
        Wrote.appendOther hwrote⟩
  | counting artifact target prior =>
    rw [hpoint] at hknown
    exact ⟨(unseen_appendOther_of_not (by rw [hpoint]; rfl)).trans hknown.1,
      Wrote.appendOther hknown.2.1, hknown.2.2⟩
  | readingAfter target raced prior =>
    rw [hpoint] at hknown
    intro hraced
    exact Covered.appendOther (hknown hraced) hnew (by simp [hpoint, CompletionPoint.blindTo, hraced])
  | committing target raced prior after | rollingBack target raced prior after =>
    rw [hpoint] at hknown
    intro hraced
    exact Snapped.appendOther (hknown hraced) (by rw [hpoint]; rfl)
  | returned _ | threw _ _ => trivial

/-- Another process has opened the branch's segment. -/
theorem Tracked.opened (h : Tracked segmented r) (segment : JsString)
    (hopen : r.manifests.openSegment = none) :
    Tracked segmented
      { r with manifests := { r.manifests with openSegment := some segment } } := by
  have hknown := h.known
  refine ⟨h.kept, ?_⟩
  show AtPoint segmented _ r.point
  have hchosen : ∀ artifact, Chosen segmented r artifact → Chosen segmented
      { r with manifests := { r.manifests with openSegment := some segment } } artifact := by
    intro artifact ha
    match artifact with
    | some .root => exact ha
    | some (.segment n) =>
      rw [Chosen, hopen] at ha
      cases ha.2
    | none => exact ha
  cases hpoint : r.point <;> rw [hpoint] at hknown
  case loading | resolving => exact hknown
  case readingPrior artifact => exact ⟨hknown.1, hchosen _ hknown.2⟩
  case completing artifact prior =>
    refine ⟨hchosen _ hknown.1, ?_⟩
    match artifact with
    | some .root => exact ⟨hknown.2.entries, hknown.2.unseen, hknown.2.grown⟩
    | some (.segment n) => exact hknown.2
    | none => exact hknown.2
  case resolvingAfter artifact prior =>
    refine ⟨hchosen _ hknown.1, ?_⟩
    match artifact with
    | some .root => exact ⟨hknown.2.entries, hknown.2.unseen, hknown.2.grown⟩
    | some (.segment n) => exact hknown.2
    | none =>
      obtain ⟨-, -, n, hn, -⟩ := hknown.2
      rw [hopen] at hn
      cases hn
  case counting artifact target prior => exact hknown
  case readingAfter target raced prior =>
    exact fun hraced => ⟨(hknown hraced).entries, (hknown hraced).unseen, (hknown hraced).grown⟩
  case committing target raced prior after =>
    exact fun hraced => ⟨(hknown hraced).grown, (hknown hraced).entries, (hknown hraced).unseen⟩
  case rollingBack target raced prior after =>
    exact fun hraced => ⟨(hknown hraced).grown, (hknown hraced).entries, (hknown hraced).unseen⟩
  case returned | threw => trivial

theorem Covered.goes (h : Covered r f prior) : Covered { r with point } f prior :=
  ⟨h.entries, h.unseen, h.grown⟩

theorem Snapped.goes (h : Snapped r f prior after) : Snapped { r with point } f prior after :=
  ⟨h.grown, h.entries, h.unseen⟩

theorem Tracked.goes {r' : CompletionRun} (h : Tracked segmented r) (hgoes : r.goes point = some r')
    (hknown : AtPoint segmented { r with point } point) : Tracked segmented r' := by
  cases hgoes
  exact ⟨h.kept, hknown⟩

/-- A segment in which one line was added to the snapshot has no entry of another process since. -/
theorem Wrote.covered (h : Wrote r f prior) (hunseen : r.unseen = [])
    (hlen : (r.manifests.lines f).length ≤ (prior.getD []).length + 1) : Covered r f prior := by
  obtain ⟨before, own, later, hlines, hentries⟩ := h
  have hcount := congrArg List.length hlines
  simp only [List.length_append, List.length_cons] at hcount
  have hbefore : before = [] := List.length_eq_zero_iff.1 (by omega)
  have hlater : later = [] := List.length_eq_zero_iff.1 (by omega)
  refine ⟨?_, ?_, ?_⟩
  · intro l hl
    rcases hentries l hl with hprior | hin | hin
    · exact .inl hprior
    · rw [hbefore] at hin
      cases hin
    · rw [hlater] at hin
      cases hin
  · intro l hl
    rw [hunseen] at hl
    cases hl
  · intro l hl
    rw [hlines]
    exact List.mem_append_left _ (List.mem_append_left _ hl)

theorem Covered.snapped (h : Covered r f prior) :
    Snapped r f prior (r.manifests.files f) :=
  ⟨le_refl _, fun _ => h.entries, h.unseen⟩

/-- What is read first. -/
theorem Tracked.completing (h : Tracked segmented r) (hunseen : r.unseen = [])
    (hchosen : Chosen segmented r artifact) :
    AtPoint segmented { r with point := .completing artifact (artifact.bind r.manifests.files) }
      (.completing artifact (artifact.bind r.manifests.files)) := by
  refine ⟨hchosen, ?_⟩
  match artifact with
  | some .root =>
    refine ⟨fun l hl => .inl (h.kept _ hl), fun l hl => ?_, fun l hl => hl⟩
    have hnone : l ∈ r.unseen := hl
    rw [hunseen] at hnone
    cases hnone
  | some (.segment n) => exact ⟨hunseen, [], (List.append_nil _).symm, fun l hl => .inl (h.kept _ hl)⟩
  | none => exact ⟨hunseen, rfl⟩

/-- The run once the evidence is in a file. -/
def wrote (r : CompletionRun) (f : ManifestName) (line : JsString) (openSegment : Option JsString)
    (point : CompletionPoint) : CompletionRun :=
  { r with manifests := { r.manifests.append f line with openSegment }, point }

theorem Kept.wrote {openSegment : Option JsString} (h : r.Kept) :
    (r.wrote f line openSegment point).Kept :=
  fun e he => r.manifests.mem_lines_append (h e he)

theorem Covered.wrote {openSegment : Option JsString} (h : Covered r g prior) :
    Covered (r.wrote f line openSegment point) g prior :=
  ⟨h.entries, h.unseen, fun l hl => r.manifests.mem_lines_append (h.grown l hl)⟩

theorem Since.wrote {openSegment : Option JsString} (h : Since r f prior) :
    Wrote (r.wrote f line openSegment point) f prior := by
  obtain ⟨before, hlines, hentries⟩ := h
  refine ⟨before, line, [], ?_, fun l hl => (hentries l hl).imp_right .inl⟩
  show (r.manifests.append f line).lines f = _
  rw [Manifests.lines_append_self, hlines]

theorem writeEvidence_eq {segment : JsString} {r' : CompletionRun}
    (h : r.writeEvidence segmented segment line point = some r') :
    (segmented = false ∧ r' = r.wrote .root line r.manifests.openSegment point) ∨
      (segmented = true ∧ ∃ n, r' = r.wrote (.segment n) line (some n) point ∧
        ∀ m, r.manifests.openSegment = some m → n = m) := by
  unfold CompletionRun.writeEvidence at h
  split_ifs at h with hseg
  · obtain ⟨n, hn, rfl⟩ := Option.map_eq_some_iff.1 h
    refine .inr ⟨hseg, n, rfl, ?_⟩
    intro m hm
    simp only [CompletionRun.evidenceFile, hseg, if_true, hm] at hn
    split_ifs at hn
    exact (Option.some.inj hn).symm
  · cases h
    exact .inl ⟨by simpa using hseg, rfl⟩

theorem Tracked.writeEvidence {segment : JsString} {throws : Bool} {r' : CompletionRun}
    (h : Tracked segmented r) (hknown : AtPoint segmented r (.completing artifact prior))
    (hwrite : r.writeEvidence segmented segment line
      (if throws then .threw false false else .resolvingAfter artifact prior) = some r') :
    Tracked segmented r' := by
  obtain ⟨hchosen, hknown⟩ := hknown
  cases throws with
  | true =>
    obtain ⟨-, rfl⟩ | ⟨-, n, rfl, -⟩ := writeEvidence_eq hwrite <;>
      exact ⟨Kept.wrote h.kept, trivial⟩
  | false =>
    obtain ⟨hseg, rfl⟩ | ⟨hseg, n, rfl, hopen⟩ := writeEvidence_eq hwrite
    · refine ⟨Kept.wrote h.kept, ?_⟩
      match artifact with
      | some .root => exact ⟨hchosen, Covered.wrote hknown⟩
      | some (.segment n) =>
        have htrue : segmented = true := hchosen.1
        rw [hseg] at htrue
        cases htrue
      | none =>
        have htrue : segmented = true := hchosen
        rw [hseg] at htrue
        cases htrue
    · refine ⟨Kept.wrote h.kept, ?_⟩
      match artifact with
      | some .root =>
        have hfalse : segmented = false := hchosen
        rw [hseg] at hfalse
        cases hfalse
      | some (.segment m) =>
        obtain rfl := hopen m hchosen.2
        exact ⟨⟨hseg, rfl⟩, hknown.1, Since.wrote hknown.2⟩
      | none =>
        obtain ⟨hunseen, rfl⟩ := hknown
        refine ⟨hseg, hunseen, rfl, n, rfl, Since.wrote ⟨_, rfl, ?_⟩⟩
        exact fun l hl => .inr (h.kept _ hl)

theorem Tracked.resolvedAfter {r' : CompletionRun} (h : Tracked segmented r)
    (hpoint : r.point = .resolvingAfter artifact prior) (hstep : r.ownStep segmented .ok = some r') :
    Tracked segmented r' := by
  have hknown := h.known
  rw [hpoint] at hknown
  obtain ⟨hchosen, hknown⟩ := hknown
  simp only [CompletionRun.ownStep, hpoint] at hstep
  match artifact with
  | some .root =>
    have hseg : segmented = false := hchosen
    subst hseg
    exact h.goes hstep fun _ => Covered.goes hknown
  | some (.segment n) =>
    obtain ⟨rfl, hopen⟩ := hchosen
    rw [hopen] at hstep
    exact h.goes hstep ⟨hknown.1, hknown.2, by simp⟩
  | none =>
    obtain ⟨hunseen, hprior, n, hopen, hwrote⟩ := hknown
    have hseg : segmented = true := hchosen
    subst hseg
    rw [hopen] at hstep
    exact h.goes hstep ⟨hunseen, hwrote, fun _ => hprior⟩

/-- The count of the segment's lines. -/
theorem Wrote.counted {target : ManifestName} (h : Wrote r target prior) (hunseen : r.unseen = [])
    (hpending : artifact = none → prior = none)
    (hraced : racedAt r.manifests artifact target prior = false) : Covered r target prior := by
  apply h.covered hunseen
  cases artifact with
  | none =>
    have hlen := of_decide_eq_false hraced
    rw [hpending rfl]
    simpa using hlen
  | some guess =>
    rw [racedAt, Bool.or_eq_false_iff] at hraced
    have hlen := of_decide_eq_false hraced.2
    omega

/-- The restore of a manifest. -/
theorem Snapped.restored {target : ManifestName} (h : Snapped r target prior after) (hkept : r.Kept)
    (hsame : r.manifests.files target = after) :
    ({ r with manifests := r.manifests.restore target prior,
              point := .threw false false } : CompletionRun).Kept ↔ r.unseen = [] := by
  constructor
  · intro hk
    rw [List.eq_nil_iff_forall_not_mem]
    intro l hl
    obtain ⟨happended, hprior⟩ := h.unseen l hl
    apply hprior
    have hlines : (r.manifests.restore target prior).lines target = prior.getD [] :=
      Manifests.lines_restore_self r.manifests
    rw [← hlines]
    exact hk _ happended
  · intro hunseen e he
    obtain ⟨g, l⟩ := e
    by_cases hg : g = target
    · subst hg
      show l ∈ (r.manifests.restore g prior).lines g
      rw [Manifests.lines_restore_self]
      rcases h.entries hsame l he with hprior | hin
      · exact hprior
      · rw [hunseen] at hin
        cases hin
    · show l ∈ (r.manifests.restore target prior).lines g
      rw [Manifests.lines_restore_of_ne _ hg]
      exact hkept _ he

theorem Tracked.rolledBack {target : ManifestName} {raced : Bool} {r' : CompletionRun}
    (h : Tracked segmented r) (hpoint : r.point = .rollingBack target raced prior after)
    (hstep : r.ownStep segmented .ok = some r') :
    (r'.Kept ↔ r.RestoresOwn (.own .ok)) ∧ AtPoint segmented r' r'.point := by
  have hknown := h.known
  rw [hpoint] at hknown
  simp only [CompletionRun.ownStep, hpoint] at hstep
  split_ifs at hstep with hraced hsame
  · cases hstep
    exact ⟨⟨fun _ => by simp [CompletionRun.RestoresOwn, CompletionRun.restores, hpoint, hraced],
      fun _ => h.kept⟩, trivial⟩
  · cases hstep
    have hfalse : raced = false := by simpa using hraced
    have hrestored := Snapped.restored (hknown hfalse) h.kept hsame.2
    refine ⟨hrestored.trans ?_, trivial⟩
    simp [CompletionRun.RestoresOwn, CompletionRun.restores, hpoint, hfalse, hsame.2]
  · cases hstep
    have hfalse : raced = false := by simpa using hraced
    refine ⟨⟨fun _ => ?_, fun _ => h.kept⟩, trivial⟩
    simp only [CompletionRun.RestoresOwn, CompletionRun.restores, hpoint, hfalse, decide_eq_true_eq]
    intro heq
    rw [List.eq_nil_iff_forall_not_mem]
    intro l hl
    -- An entry nobody has seen is in the file, so the file is there.
    have hin := h.kept _ ((hknown hfalse).unseen l hl).1
    apply hsame
    refine ⟨?_, heq⟩
    rw [Option.isSome_iff_ne_none]
    intro hnone
    simp [Manifests.lines, hnone] at hin

theorem Tracked.own {answer : CompletionAnswer} {r' : CompletionRun} (h : Tracked segmented r)
    (hstep : r.ownStep segmented answer = some r') :
    (r'.Kept ↔ r.RestoresOwn (.own answer)) ∧
      (r.RestoresOwn (.own answer) → Tracked segmented r') := by
  have hclose : r.RestoresOwn (.own answer) → Tracked segmented r' →
      (r'.Kept ↔ r.RestoresOwn (.own answer)) ∧
        (r.RestoresOwn (.own answer) → Tracked segmented r') :=
    fun hown htracked => ⟨⟨fun _ => hown, fun _ => htracked.kept⟩, fun _ => htracked⟩
  have hknown := h.known
  have hstep' := hstep
  cases hpoint : r.point <;> rw [hpoint] at hknown <;> cases answer <;>
    simp only [CompletionRun.ownStep, hpoint, reduceCtorEq] at hstep
  case rollingBack.ok target raced prior after =>
    obtain ⟨hkept, hat⟩ := h.rolledBack hpoint hstep'
    exact ⟨hkept, fun hown => ⟨hkept.2 hown, hat⟩⟩
  all_goals apply hclose (by simp [CompletionRun.RestoresOwn, CompletionRun.restores, hpoint])
  case loading.ticket stored =>
    cases stored
    · exact h.goes hstep trivial
    · exact h.goes hstep trivial
    · exact h.goes hstep hknown
  case resolving.ok =>
    apply h.goes hstep
    refine ⟨hknown, ?_⟩
    cases segmented with
    | false => rfl
    | true =>
      cases hopen : r.manifests.openSegment with
      | none => exact rfl
      | some n => exact ⟨rfl, hopen⟩
  case readingPrior.ok artifact =>
    split_ifs at hstep
    · exact h.goes hstep trivial
    · exact h.goes hstep (h.completing hknown.1 hknown.2)
  case completing.evidence artifact prior segment line throws => exact h.writeEvidence hknown hstep
  case resolvingAfter.ok artifact prior => exact h.resolvedAfter hpoint hstep'
  case counting.ok artifact target prior =>
    apply h.goes hstep
    intro hraced
    exact (hknown.2.1.counted hknown.1 hknown.2.2 hraced).goes
  case readingAfter.ok target raced prior =>
    apply h.goes hstep
    intro hraced
    exact ((hknown hraced).snapped).goes
  case committing.threw target raced prior after =>
    apply h.goes hstep
    intro hraced
    exact (hknown hraced).goes
  all_goals exact h.goes hstep trivial

theorem Tracked.step {e : CompletionEvent} {r' : CompletionRun} (h : Tracked segmented r)
    (hstep : r.step segmented e = some r') :
    (r'.Kept ↔ r.RestoresOwn e) ∧ (r.RestoresOwn e → Tracked segmented r') := by
  cases e with
  | own answer => exact h.own hstep
  | other file line =>
    rw [CompletionRun.step] at hstep
    split_ifs at hstep with hnew
    cases hstep
    have htracked := h.appendOther hnew
    exact ⟨⟨fun _ => by simp [CompletionRun.RestoresOwn, CompletionRun.restores], fun _ => htracked.kept⟩,
      fun _ => htracked⟩
  | otherOpens segment line =>
    rw [CompletionRun.step] at hstep
    split_ifs at hstep with hguard
    cases hstep
    have htracked := (h.appendOther hguard.2.2.2).opened segment hguard.2.1
    exact ⟨⟨fun _ => by simp [CompletionRun.RestoresOwn, CompletionRun.restores], fun _ => htracked.kept⟩,
      fun _ => htracked⟩

/-- A completion loses no entry of another process, exactly up to a restore of a manifest to which
another process appended between the snapshots where no check looks. -/
theorem completion_keeps_entries (segmented : Bool) (manifests : Manifests) {r : CompletionRun}
    (h : Reaches (CompletionRun.step segmented) CompletionRun.RestoresOwn (.start manifests) r) :
    r.Kept ∧ ∀ e r', r.step segmented e = some r' → (r'.Kept ↔ r.RestoresOwn e) := by
  have htracked : Tracked segmented r := by
    apply h.invariant (Tracked segmented)
    · exact ⟨fun e he => absurd he List.not_mem_nil, rfl⟩
    · intro t e u ht hown hstep
      exact (ht.step hstep).2 hown
  exact ⟨htracked.kept, fun e r' hstep => (htracked.step hstep).1⟩

end CompletionRun

/-- One entry in the root manifest. -/
def oneEntry : Manifests := ⟨fun f => if f = .root then some [js "{1}"] else none, none⟩

/-- The commit fails, with what happens before the evidence is written and after it. -/
def failedCommit (before after : List CompletionEvent) : List CompletionEvent :=
  [.own (.ticket .incomplete), .own .ok, .own .ok] ++ before ++
    [.own (.evidence [] (js "{2}") false), .own .ok, .own .ok] ++ after ++
    [.own .threw, .own .ok]

theorem completion_keeps_entries_failed : ∃ r : CompletionRun,
    r.point = .threw true false ∧ r.appended = [(.root, js "{3}")] ∧ r.Kept := by
  have hplay : (play (CompletionRun.step false) CompletionRun.RestoresOwn (.start oneEntry)
      (failedCommit [] [.other .root (js "{3}")])).any (fun r =>
        decide (r.point = .threw true false ∧ r.appended = [(.root, js "{3}")])) = true := by
    decide +kernel
  obtain ⟨r, hrun, hr⟩ := exists_reaches_of_play hplay
  have hboth := of_decide_eq_true hr
  exact ⟨r, hboth.1, hboth.2, (CompletionRun.completion_keeps_entries false oneEntry hrun).1⟩

/-- Another process appends between the first snapshot and the evidence, and the commit fails. -/
theorem other_entry_rolled_back : ∃ r : CompletionRun,
    Reaches (CompletionRun.step false) (fun _ _ => True) (.start oneEntry) r ∧
      r.point = .threw false false ∧ r.appended = [(.root, js "{3}")] ∧
      r.manifests.lines .root = [js "{1}"] ∧ ¬r.Kept := by
  have hplay : (play (CompletionRun.step false) (fun _ _ => True) (.start oneEntry)
      (failedCommit [.other .root (js "{3}")] [])).any (fun r =>
        decide (r.point = .threw false false ∧ r.appended = [(.root, js "{3}")] ∧
          r.manifests.lines .root = [js "{1}"])) = true := by decide +kernel
  obtain ⟨r, hrun, hr⟩ := exists_reaches_of_play hplay
  obtain ⟨hpoint, happended, hlines⟩ := of_decide_eq_true hr
  refine ⟨r, hrun, hpoint, happended, hlines, ?_⟩
  intro hkept
  have hin : js "{3}" ∈ r.manifests.lines .root :=
    hkept (.root, js "{3}") (by rw [happended]; exact List.mem_singleton.2 rfl)
  rw [hlines] at hin
  exact absurd hin (by decide +kernel)

end Adlc.Fleet
