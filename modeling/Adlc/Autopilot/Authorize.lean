import Adlc.Autopilot.Select

namespace Adlc.Autopilot

open Framework

/-! `eligibleAuthor`: who may drive the worker with an issue. -/

inductive EventId where
  | number (x : Rat)
  /-- Anything else, as a text. -/
  | text (s : JsString)
  deriving DecidableEq

structure TimelineEvent where
  event : Option JsString
  label : Option JsString
  actor : Option JsString
  created_at : Option JsString
  createdAt : Option JsString
  id : EventId
  deriving DecidableEq

structure Editor where
  login : Option JsString
  editedAt : Option JsString

/-- The edit history of the body. -/
structure BodyEdits where
  ok : Option Bool
  lastEditedAt : Option JsString
  editors : List Editor

inductive IssueLabel where
  | text (name : JsString)
  | object (name : Option JsString)

structure AuthoredIssue where
  title : Option JsString
  body : Option JsString
  author : Option JsString
  user : Option JsString
  authorAssociation : Option JsString
  author_association : Option JsString
  labels : List IssueLabel

structure IssueRevision where
  titleSha256 : JsString
  bodySha256 : JsString
  lastEditedAt : Option JsString
  editors : List Editor
  editsReadable : Bool

inductive AuthorizingClause where
  | author
  | label
  deriving DecidableEq

structure Eligibility where
  ok : Bool
  rule : Option DenyRule
  clause : Option AuthorizingClause
  reason : Option JsString
  issueRevision : IssueRevision

/-- What is asked of the language and of the repository. -/
structure AuthorizeContext where
  dateParse : JsString → Option Int
  localeCompare : JsString → JsString → Int
  sha256 : JsString → JsString
  permissionOf : JsString → Option JsString

/-- `Array.prototype.sort`, where it is used. -/
structure SortEngine where
  events : ComparatorSort TimelineEvent
  editors : ComparatorSort Editor

/-- The arguments of one call; an unreadable timeline or history is `none`. -/
structure AuthorRequest where
  issue : AuthoredIssue
  timeline : Option (List TimelineEvent)
  edits : Option BodyEdits
  mode : Option JsString

def trustedClass : List JsString := [js "OWNER", js "MEMBER", js "COLLABORATOR"]

def authorOf (issue : AuthoredIssue) : Option JsString := issue.author.or issue.user

def associationOf (issue : AuthoredIssue) : Option JsString :=
  issue.authorAssociation.or issue.author_association

def labelNames (issue : AuthoredIssue) : List JsString :=
  issue.labels.filterMap fun l =>
    match l with
    | .text name => some name
    | .object name => name

def isMaintainerPerm (perm : Option JsString) : Bool :=
  perm = some (js "admin") || perm = some (js "maintain")

def dispatchApprovalModes : List JsString := [js "owner-or-label", js "label-only", js "trusted-authors"]

def resolveMode (mode : Option JsString) : Except JsString JsString :=
  let m := mode.getD (js "owner-or-label")
  if m ∈ dispatchApprovalModes then .ok m
  else .error (js "autopilot.dispatchApproval must be one of owner-or-label|label-only|trusted-authors (got " ++
    quote m ++ js ")")

def authorClassAdmitted (mode : JsString) (association : Option JsString) : Bool :=
  if mode = js "label-only" then false
  else if mode = js "trusted-authors" then association.any fun a => a ∈ trustedClass
  else association = some (js "OWNER")

/-! ## The revision -/

variable (w : AuthorizeContext)

/-- `String(a.editedAt)` and then `String(a.login)`, by locale. -/
def compareEditors (a b : Editor) : Int :=
  let text := fun s : Option JsString => s.getD (js "null")
  let byDate := w.localeCompare (text a.editedAt) (text b.editedAt)
  if byDate ≠ 0 then byDate else w.localeCompare (text a.login) (text b.login)

def normalizeEditors (engine : SortEngine) (editors : List Editor) : List Editor :=
  engine.editors.sort (fun a b => compareEditors w a b ≤ 0) editors

def editsReadable (edits : Option BodyEdits) : Bool := edits.any fun e => e.ok ≠ some false

def revisionOf (engine : SortEngine) (issue : AuthoredIssue) (edits : Option BodyEdits) : IssueRevision :=
  let readable := edits.filter fun e => e.ok ≠ some false
  { titleSha256 := w.sha256 (issue.title.getD [])
    bodySha256 := w.sha256 (issue.body.getD [])
    lastEditedAt := readable.bind BodyEdits.lastEditedAt
    editors := readable.elim [] fun e => normalizeEditors w engine e.editors
    editsReadable := readable.isSome }

/-! ## The timeline -/

def eventTime (e : TimelineEvent) : Option Int := w.dateParse ((e.created_at.or e.createdAt).getD [])

/-- `Number.parseInt(text, 10)` -/
def parseInt (text : JsString) : Option Int :=
  let text := text.dropWhile isTrimmed
  let sign : Int := if text.head? = some 45 then -1 else 1
  let text := if text.head? = some 45 ∨ text.head? = some 43 then text.tail else text
  let digits := text.takeWhile isDigit
  if digits = [] then none else some (sign * readNat digits)

def eventId (e : TimelineEvent) : Rat :=
  match e.id with
  | .number x => x
  | .text s => (parseInt s).getD 0

/-- By time where both have one and they differ, else by id. -/
def byTime (a b : TimelineEvent) : Rat :=
  match eventTime w a, eventTime w b with
  | some s, some t => if s - t ≠ 0 then s - t else eventId a - eventId b
  | _, _ => eventId a - eventId b

def notAfter (a b : TimelineEvent) : Bool := byTime w a b ≤ 0

def renames (events : List TimelineEvent) : List TimelineEvent :=
  events.filter fun e => e.event = some (js "renamed")

def revisionByAuthor (author : Option JsString) (revision : IssueRevision) (events : List TimelineEvent) :
    Bool :=
  if author = none ∨ author = some [] then false
  else (revision.editors.all fun e => e.login = author) && (renames events).all fun e => e.actor = author

/-! ## The labeled clause -/

inductive LabelVerdict where
  | ok
  | refused (reason : JsString) (attempted : Bool)

/-- `perm`: nobody has the permission of nobody. -/
def permissionFor (login : Option JsString) : Option JsString :=
  match login with
  | none => none
  | some [] => none
  | some (c :: s) => w.permissionOf (c :: s)

def isMaintainer (login : Option JsString) : Bool := isMaintainerPerm (permissionFor w login)

def labelEvents (events : List TimelineEvent) : List TimelineEvent :=
  events.filter fun e =>
    (e.event = some (js "labeled") || e.event = some (js "unlabeled")) && e.label = some autopilotLabel

/-- Whether the text names a time before this one. -/
def isBefore (text : JsString) (t : Int) : Bool := (w.dateParse text).any fun s => s < t

def labelClause (engine : SortEngine) (issue : AuthoredIssue) (events : List TimelineEvent)
    (revision : IssueRevision) : LabelVerdict :=
  if autopilotLabel ∉ labelNames issue then .refused (js "label-absent") false
  else
    match (engine.events.sort (notAfter w) (labelEvents events)).getLast? with
    | none => .refused (js "no-label-event") true
    | some latest =>
      if latest.event ≠ some (js "labeled") then .refused (js "label-revoked") true
      else if !isMaintainer w latest.actor then .refused (js "label-actor-not-maintainer") true
      else
        match eventTime w latest with
        | none => .refused (js "label-event-undated") true
        | some t =>
          if revision.lastEditedAt.any fun text => !isBefore w text t then
            .refused (js "label-precedes-edit") true
          else if (renames events).any fun r =>
              !isMaintainer w r.actor && !(eventTime w r).any fun s => s < t then
            .refused (js "label-precedes-rename") true
          else .ok

/-! ## The predicate -/

def eligibleAuthor (engine : SortEngine) (req : AuthorRequest) : Except JsString Eligibility :=
  match resolveMode req.mode with
  | .error e => .error e
  | .ok mode =>
    let revision := revisionOf w engine req.issue req.edits
    let deny := fun rule reason => Eligibility.mk false (some rule) none (some reason) revision
    match req.timeline with
    | none => .ok (deny .notAuthorized (js "timeline-unreadable"))
    | some events =>
      if !revision.editsReadable then .ok (deny .notAuthorized (js "edits-unreadable"))
      else
        let association := associationOf req.issue
        let classOk := authorClassAdmitted mode association
        let intact := revisionByAuthor (authorOf req.issue) revision events
        if classOk && intact then .ok ⟨true, none, some .author, none, revision⟩
        else
          match labelClause w engine req.issue events revision with
          | .ok => .ok ⟨true, none, some .label, none, revision⟩
          | .refused reason attempted =>
            if classOk && !intact then .ok (deny .notAuthorized (js "revision-not-by-author"))
            else if attempted then .ok (deny .notAuthorized reason)
            else if (association.any fun a => a ∈ trustedClass) && intact then
              .ok (deny .dispatchApproval reason)
            else .ok (deny .notAuthorized (if intact then reason else js "revision-not-by-author"))

/-! ## What an authorization binds -/

/-- The last edit is the latest of a history in which every edit has a time. -/
structure CompleteHistory (edits : BodyEdits) : Prop where
  dated : ∀ e ∈ edits.editors, ∃ t, e.editedAt.bind w.dateParse = some t
  latest : ∀ e ∈ edits.editors, ∀ t, e.editedAt.bind w.dateParse = some t →
    ∃ last, edits.lastEditedAt.bind w.dateParse = some last ∧ t ≤ last
  attained : ∀ text, edits.lastEditedAt = some text →
    ∃ e ∈ edits.editors, ∃ t, e.editedAt.bind w.dateParse = some t ∧ w.dateParse text = some t

/-- No event of the list is later by time and id, and no unlabeling could be. -/
structure IsLatest (events : List TimelineEvent) (e : TimelineEvent) (t : Int) : Prop where
  dated : eventTime w e = some t
  latest : ∀ d ∈ events, ∀ s, eventTime w d = some s → s < t ∨ s = t ∧ eventId d ≤ eventId e
  unlabelings : ∀ d ∈ events, d.event = some (js "unlabeled") →
    ∃ s, eventTime w d = some s ∧ (s < t ∨ s = t ∧ eventId d < eventId e)

/-- The label is there by a maintainer, on the revision as it stands. -/
structure BoundByLabel (req : AuthorRequest) (events : List TimelineEvent) (edits : BodyEdits) : Prop where
  present : autopilotLabel ∈ labelNames req.issue
  labeling : ∃ e ∈ labelEvents events, ∃ t, e.event = some (js "labeled") ∧ isMaintainer w e.actor = true ∧
    IsLatest w (labelEvents events) e t ∧
    (∀ edit ∈ edits.editors, ∃ s, edit.editedAt.bind w.dateParse = some s ∧ s < t) ∧
    ∀ r ∈ renames events, isMaintainer w r.actor = true ∨ ∃ s, eventTime w r = some s ∧ s < t

/-- The author is of a class that the mode admits, and made every edit and rename. -/
structure BoundByAuthor (req : AuthorRequest) (mode : JsString) (events : List TimelineEvent)
    (edits : BodyEdits) : Prop where
  admitted : authorClassAdmitted mode (associationOf req.issue) = true
  known : authorOf req.issue ≠ none ∧ authorOf req.issue ≠ some []
  edits : ∀ edit ∈ edits.editors, edit.login = authorOf req.issue
  renames : ∀ r ∈ renames events, r.actor = authorOf req.issue

/-- Not before any of these, as far as the times tell. -/
def AtOrAfter (events : List TimelineEvent) (time : Option Int) : Prop :=
  ∀ e ∈ events, ∀ s t, eventTime w e = some s → time = some t → s ≤ t

/-- Neither the author nor a maintainer. -/
def Outsider (req : AuthorRequest) (login : Option JsString) : Prop :=
  login ≠ authorOf req.issue ∧ isMaintainer w login = false

/-- The call does not authorize. -/
def Refused (engine : SortEngine) (req : AuthorRequest) : Prop :=
  ∀ r, eligibleAuthor w engine req = .ok r → r.ok = false

/-- One more event in the timeline. -/
def Renamed (req req' : AuthorRequest) (r : TimelineEvent) : Prop :=
  ∃ front back, req.timeline = some (front ++ back) ∧
    req' = { req with timeline := some (front ++ r :: back) }

/-- One more edit in the history. -/
def Edited (req req' : AuthorRequest) (edit : Editor) : Prop :=
  ∃ edits front back lastEditedAt, req.edits = some edits ∧ edits.editors = front ++ back ∧
    req' = { req with edits := some ⟨edits.ok, lastEditedAt, front ++ edit :: back⟩ }

/-- What an authorization promises of the revision, whatever sort the engine has. -/
structure BindsRevision (req : AuthorRequest) : Prop where
  label : ∀ engine r, eligibleAuthor w engine req = .ok r → r.clause = some .label →
    ∃ events edits, req.timeline = some events ∧ req.edits = some edits ∧ BoundByLabel w req events edits
  author : ∀ engine r, eligibleAuthor w engine req = .ok r → r.clause = some .author →
    ∃ mode events edits, resolveMode req.mode = .ok mode ∧ req.timeline = some events ∧
      req.edits = some edits ∧ BoundByAuthor req mode events edits
  renamed : ∀ req' r events, Renamed req req' r → r.event = some (js "renamed") →
    req.timeline = some events → Outsider w req r.actor →
    AtOrAfter w (labelEvents events) (eventTime w r) →
      ∀ engine engine', Refused w engine req → Refused w engine' req'
  edited : ∀ req' edit events edits', Edited req req' edit → req'.edits = some edits' →
    CompleteHistory w edits' → req.timeline = some events → Outsider w req edit.login →
    AtOrAfter w (labelEvents events) (edit.editedAt.bind w.dateParse) →
      ∀ engine engine', Refused w engine req → Refused w engine' req'

/-! ## When it is kept -/

/-- All that the predicate needs can be read. -/
structure Readable (req : AuthorRequest) (mode : JsString) (events : List TimelineEvent) (edits : BodyEdits) :
    Prop where
  mode : resolveMode req.mode = .ok mode
  timeline : req.timeline = some events
  history : req.edits = some edits
  ok : edits.ok ≠ some false

/-- The event passes as the latest of its label. -/
structure Approves (events : List TimelineEvent) (lastEditedAt : Option JsString) (e : TimelineEvent) (t : Int) :
    Prop where
  labeled : e.event = some (js "labeled")
  maintainer : isMaintainer w e.actor = true
  dated : eventTime w e = some t
  edited : ∀ text ∈ lastEditedAt, isBefore w text t = true
  renamed : ∀ r ∈ renames events, isMaintainer w r.actor = true ∨ ∃ s, eventTime w r = some s ∧ s < t

/-- A maintainer's labeling is the latest event, and no unlabeling could be later. -/
def Settled (events : List TimelineEvent) : Prop :=
  ∃ e ∈ labelEvents events, ∃ t, e.event = some (js "labeled") ∧ isMaintainer w e.actor = true ∧
    IsLatest w (labelEvents events) e t

/-- The label does not decide, or it is settled, or nothing that may be sorted last would pass. -/
def Determined (req : AuthorRequest) : Prop :=
  ∀ mode events edits, Readable req mode events edits → BoundByAuthor req mode events edits ∨
    autopilotLabel ∉ labelNames req.issue ∨ Settled w events ∨
      ∀ e t, MayComeLast (notAfter w) (labelEvents events) e → ¬Approves w events edits.lastEditedAt e t

end Adlc.Autopilot
