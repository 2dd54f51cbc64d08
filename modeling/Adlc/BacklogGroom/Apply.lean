import Adlc.BacklogGroom.Gate
import Adlc.Framework.Fences

namespace Adlc.BacklogGroom

open Adlc.Framework

/-! ## The groomed set -/

/-- A row of `set.issues`. -/
structure GroomedIssue where
  number : Nat
  verdict : JsString
  contentHash : Option JsString
  frozen : Bool
  evidence : Evidence
  updatedAt : Option JsString

/-- A row of `set.proposals`. -/
structure Proposal where
  number : Nat
  action : JsString
  evidence : Evidence
  field : Option JsString
  fromLabel : Option JsString
  toLabel : Option JsString

structure GroomedSet where
  generatedFor : Option JsString
  issues : List GroomedIssue
  proposals : List Proposal

/-- A close carries its evidence as a text. -/
def Evidence.closing : Evidence → Evidence
  | .text s => .text s
  | .null => .text (js "null")
  | .other compact _ _ => .text compact

def closeOf (issue : GroomedIssue) : Option Action :=
  if issue.verdict = js "fixed" ∧ issue.contentHash.getD [] ≠ [] ∧ issue.frozen = false then
    some { number := issue.number, action := .close, contentHash := issue.contentHash.getD []
           evidence := issue.evidence.closing, field := none, fromLabel := none, toLabel := none
           updatedAt := issue.updatedAt, verdict := some issue.verdict
           title := [], labels := [], body := [], verifiedPaths := [] }
  else none

/-- The row of an issue; of two with one number the later. -/
def GroomedSet.row (set : GroomedSet) (number : Nat) : Option GroomedIssue :=
  set.issues.reverse.find? fun issue => issue.number = number

/-- Only a relabel may be proposed (`PROPOSABLE_ACTIONS`). -/
def relabelOf (set : GroomedSet) (p : Proposal) : Option Action :=
  (set.row p.number).bind fun issue =>
    if issue.contentHash.getD [] ≠ [] ∧ issue.frozen = false ∧ p.action = js "relabel" then
      some { number := p.number, action := .relabel, contentHash := issue.contentHash.getD []
             evidence := p.evidence, field := p.field, fromLabel := p.fromLabel, toLabel := p.toLabel
             updatedAt := issue.updatedAt, verdict := some issue.verdict
             title := [], labels := [], body := [], verifiedPaths := [] }
    else none

/-- `actionsFromSet(set)` -/
def actionsFromSet (set : GroomedSet) : List Action :=
  set.issues.filterMap closeOf ++ set.proposals.filterMap (relabelOf set)

/-! ## Revalidation -/

structure Verified where
  verdict : JsString
  verifiedPaths : List JsString

/-- What the repository says of an issue at the pinned commit: the paths it cites, their hash, the
verdict of verification, the units its locations are in, and whether a glob takes a path. A hash is in
hexadecimal digits. -/
structure Facts where
  references : Issue → List JsString
  contentHash : List JsString → Option JsString
  verifyIssue : Issue → Verified
  unitsForIssue : Issue → List JsString
  globMatch : JsString → JsString → Bool
  hex : ∀ paths hash, contentHash paths = some hash → ∀ c ∈ hash, c ≠ 58

structure Profile where
  providers : Providers
  autonomyFloor : List JsString
  frozenPaths : List JsString
  priorityLabels : List JsString
  areaPrefix : Option JsString
  unitNames : List JsString
  /-- `canonicalJson` of each of `POLICY_KEYS`. -/
  policy : List JsString

inductive Stale where
  | unread | hashMoved | frozen
  | unknownField | noFromLabel | sameLabel | targetForeign | sourceForeign | sourceAbsent
  | notOneUnit | otherUnit
  | noUpdatedAt | changed | otherVerdict | notFixed
  deriving DecidableEq

/-- What of the issue the action is given. -/
structure Revalidated where
  title : JsString
  body : JsString
  labels : List JsString
  verifiedPaths : List JsString

def Profile.areaLabel (profile : Profile) (unit : JsString) : JsString :=
  profile.areaPrefix.getD (js "area:") ++ unit

/-- `revalidateRelabel(action, …)`: the reason to refuse it, if there is one. -/
def revalidateRelabel (facts : Facts) (profile : Profile) (action : Action) (issue : Issue) :
    Option Stale :=
  let field := action.field.getD []
  let classLabels :=
    if field = js "priority" then profile.priorityLabels else profile.unitNames.map profile.areaLabel
  let source := action.fromLabel.getD []
  if field ≠ js "priority" ∧ field ≠ js "area" then some .unknownField
  else if source = [] then some .noFromLabel
  else if action.fromLabel = action.toLabel then some .sameLabel
  else if ¬action.toLabel.any (classLabels.contains ·) then some .targetForeign
  else if ¬classLabels.contains source then some .sourceForeign
  else if ¬issue.labels.contains source then some .sourceAbsent
  else if field = js "area" then
    match facts.unitsForIssue issue with
    | [unit] => if action.toLabel = some (profile.areaLabel unit) then none else some .otherUnit
    | _ => some .notOneUnit
  else none

/-- `revalidateAction(action, …)` on the issue as it was fetched. -/
def revalidate (facts : Facts) (profile : Profile) (action : Action) (issue : Issue) :
    Except Stale Revalidated :=
  let paths := facts.references issue
  let recomputed := facts.verifyIssue issue
  if facts.contentHash paths ≠ some action.contentHash then .error .hashMoved
  else if paths.any fun path => profile.frozenPaths.any fun g => facts.globMatch g path then
    .error .frozen
  else
    match if action.action = .relabel then revalidateRelabel facts profile action issue else none with
    | some stale => .error stale
    | none =>
      if action.updatedAt.getD [] = [] then .error .noUpdatedAt
      else if issue.updatedAt.getD [] ≠ [] ∧ issue.updatedAt ≠ action.updatedAt then .error .changed
      else if action.verdict.getD [] ≠ [] ∧ action.verdict ≠ some recomputed.verdict then
        .error .otherVerdict
      else if action.action = .close ∧ recomputed.verdict ≠ js "fixed" then .error .notFixed
      else .ok ⟨issue.title, issue.body, issue.labels.filter (· ≠ []), recomputed.verifiedPaths⟩

/-- `revalidateAction(action, …)`: an issue that cannot be read is stale. -/
def revalidateAction (facts : Facts) (profile : Profile) (action : Action) :
    Groom (Except Stale Revalidated) :=
  .ask (.fetchIssue action.number) fun
    | .ok (some issue) => pure (revalidate facts profile action issue)
    | _ => pure (.error .unread)

def Action.withCheck (action : Action) (check : Revalidated) : Action :=
  { action with title := check.title, labels := check.labels, body := check.body,
                verifiedPaths := check.verifiedPaths }

/-! ## Execution -/

/-- `marker(number, contentHash, action)` -/
def marker (action : Action) : JsString :=
  js "<!-- backlog-groom:" ++ natText action.number ++ js ":" ++ action.action.text ++ js ":" ++
    action.contentHash ++ js " -->"

def Evidence.said : Evidence → JsString
  | .null => js "(no evidence recorded)"
  | .text s => s
  | .other _ _ plain => plain

/-- `renderComment(action)`; no gate verdict carries the reviewer that the third line is about. -/
def renderComment (action : Action) : JsString :=
  join [10] ([js "**backlog-groom — " ++ action.action.text ++ js "**",
    replaceAll (js "<!--") (js "&lt;!--") action.evidence.said, marker action].filter (· ≠ []))

/-- `ACTION_CLASSES` -/
def actionClasses : List JsString :=
  [js "close", js "relabel", js "duplicate-link", js "comment"]

/-- `blockedByFloor(action, floor)` -/
def blockedByFloor (action : ActionName) (floor : List JsString) : Bool := floor.contains action.text

/-- What becomes of an action. -/
inductive Outcome where
  | alreadyApplied
  | executed (resumed : Bool)
  | demotedByFloor
  | demotedByGate
  | changed (stale : Stale)
  | failed (resumable : Bool)
  deriving DecidableEq

/-- What an `applyRun` is given. -/
structure ApplyRun where
  set : GroomedSet
  profile : Profile
  baseFloor : Option (List JsString)
  baseFrozenPaths : Option (List JsString)
  basePolicy : Option (List JsString)
  revision : Option JsString
  self : Option JsString
  key : Option JsString
  facts : Facts

/-- A comment of the tool's own identity that carries the action's marker. -/
def alreadyCommented (self : Option JsString) (action : Action) (existing : List Comment) : Bool :=
  existing.any fun c =>
    decide (marker action <:+: c.body) && decide (self.getD [] ≠ []) && decide (c.author = self)

variable (hashes : Hashes)

/-- The entry of an action that was performed is sealed again, as applied. -/
def markApplied (key : Option JsString) (action : Action) (ledger : Ledger) : Ledger :=
  match ledger (gateKey action), key with
  | some (.entry entry), some key =>
    ledger.set (gateKey action) (.entry (sealLedgerEntry hashes key { entry.content with applied := true }))
  | _, _ => ledger

/-- The mutation, and the checkpoint after it. -/
def perform (run : ApplyRun) (action : Action) (resumed : Bool) (ledger : Ledger) :
    Groom (Outcome × Ledger) :=
  .ask (.apply action) fun
    | .error _ => pure (.failed true, ledger)
    | .ok _ =>
      let applied := markApplied hashes run.key action ledger
      .ask (.persist applied) fun
        | .error _ => .fail (.refused .notRecorded)
        | .ok _ => pure (.executed resumed, applied)

/-- The comment, unless it is there, and the mutation. -/
def commentAndPerform (run : ApplyRun) (action : Action) (ledger : Ledger) : Groom (Outcome × Ledger) :=
  .ask (.comments action.number) fun
    | .error _ => pure (.failed false, ledger)
    | .ok existing =>
      if alreadyCommented run.self action existing then perform hashes run action true ledger
      else
        .ask (.comment action.number action (renderComment action)) fun
          | .error _ => pure (.failed false, ledger)
          | .ok _ => perform hashes run action false ledger

/-- The body of the loop of `executeActions`, with `planAction`. -/
def executeAction (run : ApplyRun) (action : Action) (ledger : Ledger) : Groom (Outcome × Ledger) :=
  if (ledgerEntryFor hashes ledger action run.key).any (·.applied) then pure (.alreadyApplied, ledger)
  else if blockedByFloor action.action run.profile.autonomyFloor then pure (.demotedByFloor, ledger)
  else if !ledgerApproves hashes ledger action run.key then pure (.demotedByGate, ledger)
  else do
    match ← revalidateAction run.facts run.profile action with
    | .error stale => pure (.changed stale, ledger)
    | .ok _ => commentAndPerform hashes run action ledger

/-- `executeActions({ actions, … })`, past the checks of the floor. -/
def executeActions (run : ApplyRun) : List Action → Ledger → Groom (List (Action × Outcome) × Ledger)
  | [], ledger => pure ([], ledger)
  | action :: rest, ledger => do
    let (outcome, ledger) ← executeAction hashes run action ledger
    let (outcomes, ledger) ← executeActions run rest ledger
    pure ((action, outcome) :: outcomes, ledger)

/-! ## The run -/

/-- `assertFloor(floor)` and `assertFloorNotWidened({ base, head })` -/
def floorRefusal (base : Option (List JsString)) (floor : List JsString) : Option Refusal :=
  if floor.any (fun cls => !actionClasses.contains cls) ∨ ¬floor.Nodup then some .badFloor
  else
    match base with
    | none => some .unknownBaseFloor
    | some base => if base.any fun cls => !floor.contains cls then some .widenedFloor else none

/-- `COMMIT_ID` -/
def isCommitId (revision : JsString) : Bool :=
  (revision.length = 40 || revision.length = 64) &&
    revision.all fun c => isDigit c || (97 ≤ c.toNat && c.toNat ≤ 102)

/-- What `applyRun` checks before it asks for anything. -/
def ApplyRun.refusal (run : ApplyRun) : Option Refusal :=
  if ¬run.revision.any isCommitId then some .noCommit
  else if run.set.generatedFor.getD [] = [] then some .noGeneratedFor
  else if run.set.generatedFor ≠ run.revision then some .otherRevision
  else
    match floorRefusal run.baseFloor run.profile.autonomyFloor with
    | some refusal => some refusal
    | none =>
      if run.baseFrozenPaths.any (·.any fun g => !run.profile.frozenPaths.contains g) then
        some .narrowedFrozenPaths
      else
        match run.basePolicy with
        | none => some .unknownBasePolicy
        | some base => if base ≠ run.profile.policy then some .changedPolicy else none

/-- The first loop: what of the set still holds. -/
def revalidateAll (run : ApplyRun) : List Action → Groom (List Action × List (Action × Stale))
  | [] => pure ([], [])
  | action :: rest => do
    let check ← revalidateAction run.facts run.profile action
    let (valid, stale) ← revalidateAll run rest
    match check with
    | .ok check => pure (action.withCheck check :: valid, stale)
    | .error reason => pure (valid, (action, reason) :: stale)

/-- What was found of an action, put before what was found of the rest. -/
def putChecked (action : Action) (check : Except Stale Revalidated)
    (found : List Action × List (Action × Stale)) : Groom (List Action × List (Action × Stale)) :=
  match check with
  | .ok check => pure (action.withCheck check :: found.1, found.2)
  | .error reason => pure (found.1, (action, reason) :: found.2)

/-- The second loop: each action is gated, and the ledger persisted after it. -/
def gateAll (run : ApplyRun) : List Action → Ledger → Groom (List (Action × Verdict) × Ledger)
  | [], ledger => pure ([], ledger)
  | action :: rest, ledger => do
    let (verdict, ledger) ← gateAction hashes run.profile.providers run.key action ledger
    let _ ← Dialogue.make (GroomCall.persist ledger)
    let (gated, ledger) ← gateAll run rest ledger
    pure ((action, verdict) :: gated, ledger)

structure ApplyReport where
  proposed : Nat
  stale : List (Action × Stale)
  gated : List (Action × Verdict)
  outcomes : List (Action × Outcome)

/-- `applyRun({ set, profile, … })` on the ledger that was loaded. -/
def applyRun (run : ApplyRun) (ledger : Ledger) : Groom ApplyReport :=
  match run.refusal with
  | some refusal => .fail (.refused refusal)
  | none => do
    let proposed := actionsFromSet run.set
    let (revalidated, stale) ← revalidateAll run proposed
    let (gated, ledger) ← gateAll hashes run revalidated ledger
    let (outcomes, _) ← executeActions hashes run revalidated ledger
    pure ⟨proposed.length, stale, gated, outcomes⟩

end Adlc.BacklogGroom
