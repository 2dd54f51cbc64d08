import Mathlib.Data.List.Infix
import Adlc.Autopilot.Records
import Adlc.Framework.Fences
import Adlc.Framework.Transition

namespace Adlc.Autopilot

open Adlc.Framework

/-! ## Records -/

/-- `TERMINAL_OUTCOMES` -/
inductive TerminalOutcome where
  | clarify | blocked | stale | ciRed | oidMismatch | prClosed
  deriving DecidableEq

/-- The outcome of a state's name. -/
def RunState.outcome : RunState → Option TerminalOutcome
  | .clarify => some .clarify
  | .blocked => some .blocked
  | .stale => some .stale
  | .ciRed => some .ciRed
  | .oidMismatch => some .oidMismatch
  | _ => none

/-- `QUARANTINE_LABEL` -/
def quarantineLabel : RunState → Option JsString
  | .clarify => some (js "adlc:needs-clarification")
  | .blocked => some (js "adlc:autopilot-blocked")
  | .stale => some (js "adlc:autopilot-stale")
  | .ciRed => some (js "adlc:autopilot-ci-red")
  | .oidMismatch => some (js "adlc:autopilot-blocked")
  | _ => none

def TerminalOutcome.state : TerminalOutcome → Option RunState
  | .clarify => some .clarify
  | .blocked => some .blocked
  | .stale => some .stale
  | .ciRed => some .ciRed
  | .oidMismatch => some .oidMismatch
  | .prClosed => none

/-- The label each outcome is given. -/
def TerminalOutcome.label (outcome : TerminalOutcome) : JsString :=
  (outcome.state.bind quarantineLabel).getD (js "adlc:autopilot-skip")

structure EffectIntent where
  commentSentinel : JsString
  commentPosted : Bool
  labelApplied : Bool
  target : Nat
  label : JsString
  body : JsString

abbrev Effects := List (TerminalOutcome × EffectIntent)

/-- `{ ...effects, [outcome]: intent }` -/
def Effects.set : Effects → TerminalOutcome → EffectIntent → Effects
  | [], o, i => [(o, i)]
  | p :: ps, o, i => if p.1 = o then (o, i) :: ps else p :: Effects.set ps o i

structure RunRecord where
  state : RunState
  effects : Effects
  unlabeledEventId : Option Nat

/-- `newRecord(…)` -/
def newRecord : RunRecord := ⟨.creating, [], none⟩

/-- `pendingEffects(record)`, by outcome. -/
def pendingEffects (record : RunRecord) : List TerminalOutcome :=
  (record.effects.filter fun p => !p.2.commentPosted || !p.2.labelApplied).map Prod.fst

/-! ## What the callers of `applyTerminalEffects` ask for -/

structure TerminalCall where
  outcome : TerminalOutcome
  target : Nat
  sentinel : JsString
  body : JsString
  label : JsString
  labelled : label = outcome.label

def block (issue : Nat) (reason body : JsString) : TerminalCall :=
  ⟨.blocked, issue, js "<!-- adlc-autopilot:blocked " ++ reason ++ js " -->",
    js "Autopilot blocked (" ++ reason ++ js ").\n\n" ++ body, js "adlc:autopilot-blocked", rfl⟩

/-- `mismatch(detail, prNumber)`: on the pull request, if there is one. -/
def mismatch (issue : Nat) (detail : JsString) (prNumber recordPr : Option Nat) : TerminalCall :=
  ⟨.oidMismatch, (prNumber.or recordPr).getD issue, js "<!-- adlc-autopilot:oid-mismatch -->",
    js "Autopilot quarantined this run: oid-mismatch. " ++ detail, js "adlc:autopilot-blocked", rfl⟩

def settleCi (prNumber : Nat) (outcome comment : JsString) : TerminalCall :=
  ⟨.ciRed, prNumber, js "<!-- adlc-autopilot:ci-red " ++ outcome ++ js " -->", comment,
    js "adlc:autopilot-ci-red", rfl⟩

def clarifyEffects (issue : Nat) (sentinel body : JsString) : TerminalCall :=
  ⟨.clarify, issue, sentinel, body, js "adlc:needs-clarification", rfl⟩

def lifecycleClosed (issue : Nat) (prNumber body : JsString) : TerminalCall :=
  ⟨.prClosed, issue, js "<!-- adlc-autopilot:pr-closed " ++ prNumber ++ js " -->", body,
    js "adlc:autopilot-skip", rfl⟩

/-- When a caller writes the record's state: before it applies the effects, with the intent, or not
at all. -/
inductive StateWrite where
  | before | withIntent | never
  deriving DecidableEq

def TerminalOutcome.writes : TerminalOutcome → StateWrite
  | .clarify => .withIntent
  | .prClosed => .never
  | _ => .before

/-- The intent there is, if it has the sentinel, or else a new one. -/
def intentOf (record : RunRecord) (call : TerminalCall) : EffectIntent :=
  match record.effects.lookup call.outcome with
  | some existing =>
    if existing.commentSentinel = call.sentinel then existing
    else ⟨call.sentinel, false, false, call.target, call.label, call.body⟩
  | none => ⟨call.sentinel, false, false, call.target, call.label, call.body⟩

/-! ## GitHub -/

structure Comment where
  number : Nat
  author : JsString
  body : JsString

/-- An `unlabeled` event. -/
structure Removal where
  number : Nat
  label : JsString
  byMaintainer : Bool

/-- Issues and pull requests share their numbers. The newest removal is the first. -/
structure Github where
  labels : List (Nat × JsString)
  removals : List Removal
  comments : List Comment

/-- The latest removal of the label there: its id, and whether a maintainer did it. -/
def latestRemoval : List Removal → Nat → JsString → Option (Nat × Bool)
  | [], _, _ => none
  | e :: es, n, label =>
    if e.number = n ∧ e.label = label then some (es.length, e.byMaintainer)
    else latestRemoval es n label

def commentBody (sentinel body : JsString) : JsString :=
  sentinel ++ js "\n" ++ replaceAll (js "<!--") (js "&lt;!--") body

/-- `hasComment(gh, n, sentinel, { author })` -/
def hasComment (principal : JsString) (github : Github) (n : Nat) (sentinel : JsString) : Bool :=
  github.comments.any fun c =>
    decide (c.number = n) && decide (sentinel <:+: c.body) && decide (c.author = principal)

/-- How a call to GitHub ends: it may fail before its effect, or after it. -/
inductive GhAnswer where
  | ok | failed | lost
  deriving DecidableEq

/-! ## The world of one issue -/

/-- What the process is about to do; the outcomes after it are still to be replayed. -/
inductive Phase where
  | idle
  /-- To persist the intent. -/
  | begun (call : TerminalCall)
  | comment (outcome : TerminalOutcome) (todo : List TerminalOutcome)
  /-- To persist `commentPosted`. -/
  | commented (outcome : TerminalOutcome) (todo : List TerminalOutcome)
  | label (outcome : TerminalOutcome) (todo : List TerminalOutcome)
  /-- To persist `labelApplied`. -/
  | labelled (outcome : TerminalOutcome) (todo : List TerminalOutcome)
  /-- To persist the event as acted on. -/
  | acted (event : Nat)

/-- The record, GitHub and the process; then the labels put since the record's state was last
entered, the number of removals at that entry, and the comments posted. -/
structure IssueWorld where
  record : Option RunRecord
  github : Github
  phase : Phase
  put : List (Nat × JsString)
  entryAt : Nat
  posts : List (Nat × JsString)

def IssueWorld.start (github : Github) : IssueWorld := ⟨none, github, .idle, [], 0, []⟩

def IssueWorld.postComment (principal : JsString) (w : IssueWorld) (i : EffectIntent) : IssueWorld :=
  { w with
    github := { w.github with
      comments := ⟨i.target, principal, commentBody i.commentSentinel i.body⟩ :: w.github.comments }
    posts := (i.target, i.commentSentinel) :: w.posts }

def IssueWorld.putLabel (w : IssueWorld) (n : Nat) (label : JsString) : IssueWorld :=
  { w with
    github := { w.github with labels := (n, label) :: w.github.labels }
    put := (n, label) :: w.put }

/-- The record's state is entered. -/
def IssueWorld.enter (w : IssueWorld) (record : RunRecord) : IssueWorld :=
  { w with record := some record, put := [], entryAt := w.github.removals.length }

/-- `commentOn(…)`, and whether it is confirmed. -/
def commentOn (principal : JsString) (w : IssueWorld) (i : EffectIntent) : GhAnswer → IssueWorld × Bool
  | .failed => (w, false)
  | .ok => (if hasComment principal w.github i.target i.commentSentinel then w
      else w.postComment principal i, true)
  | .lost => (if hasComment principal w.github i.target i.commentSentinel then w
      else w.postComment principal i, false)

/-- `labelOn(…)`, and whether it is confirmed. -/
instance instLawfulBEqLabel : LawfulBEq (Nat × JsString) := Prod.instLawfulBEq

def labelOn (w : IssueWorld) (n : Nat) (label : JsString) : GhAnswer → IssueWorld × Bool
  | .failed => (w, false)
  | .ok => (if (n, label) ∈ w.github.labels then w else w.putLabel n label, true)
  | .lost => (if (n, label) ∈ w.github.labels then w else w.putLabel n label, false)

def replayNext : List TerminalOutcome → Phase
  | [] => .idle
  | outcome :: todo => .comment outcome todo

def RunRecord.withEffect (record : RunRecord) (outcome : TerminalOutcome) (i : EffectIntent) : RunRecord :=
  { record with effects := record.effects.set outcome i }

/-- The intent is persisted, in a record whose state is written with it or stands already. -/
def persistIntent (w : IssueWorld) (call : TerminalCall) : Option IssueWorld :=
  match call.outcome.writes, w.record with
  | .withIntent, record =>
    let existing := record.getD newRecord
    let entered := { existing with state := .clarify }
    some { w.enter (entered.withEffect call.outcome (intentOf existing call)) with
      phase := .comment call.outcome [] }
  | _, some record => some { w with
      record := some (record.withEffect call.outcome (intentOf record call))
      phase := .comment call.outcome [] }
  | _, none => none

/-- The next step of the process, with GitHub's answer if it asks. -/
def IssueWorld.settle (principal : JsString) (w : IssueWorld) (answer : GhAnswer) : Option IssueWorld :=
  match w.phase with
  | .idle => none
  | .begun call => persistIntent w call
  | .comment outcome todo =>
    match w.record.bind fun r => r.effects.lookup outcome with
    | none => none
    | some i =>
      if i.commentPosted then some { w with phase := .label outcome todo }
      else
        let done := commentOn principal w i answer
        some { done.1 with phase := if done.2 then .commented outcome todo else .label outcome todo }
  | .commented outcome todo =>
    w.record.bind fun r => (r.effects.lookup outcome).map fun i =>
      { w with
        record := some (r.withEffect outcome { i with commentPosted := true })
        phase := .label outcome todo }
  | .label outcome todo =>
    match w.record.bind fun r => r.effects.lookup outcome with
    | none => none
    | some i =>
      if i.labelApplied then some { w with phase := replayNext todo }
      else
        let done := labelOn w i.target i.label answer
        some { done.1 with phase := if done.2 then .labelled outcome todo else replayNext todo }
  | .labelled outcome todo =>
    w.record.bind fun r => (r.effects.lookup outcome).map fun i =>
      { w with
        record := some (r.withEffect outcome { i with labelApplied := true })
        phase := replayNext todo }
  | .acted event => some { w with
      record := w.record.map fun r => { r with unlabeledEventId := some event }
      phase := .idle }

/-! ## Recovery -/

inductive RecoverDecision where
  | quarantined
  | alreadyActed
  | reapply
  | act (event : Nat)
  deriving DecidableEq

/-- `record.effects?.[record.state]?.target?.number ?? issue` -/
def recoverTarget (issue : Nat) (record : RunRecord) : Nat :=
  ((record.state.outcome.bind fun o => record.effects.lookup o).map EffectIntent.target).getD issue

/-- Which of GitHub's answers can be read. -/
structure RecoverReads where
  labels : Bool
  timeline : Bool
  permission : Bool

/-- What `recoverQuarantined` decides, with `unlabelAuthorization`. -/
def recoverDecision (issue : Nat) (github : Github) (record : RunRecord) (label : JsString)
    (reads : RecoverReads) : RecoverDecision :=
  if (recoverTarget issue record, label) ∈ github.labels then .quarantined
  else if !reads.timeline then .reapply
  else
    match latestRemoval github.removals (recoverTarget issue record) label with
    | none => .reapply
    | some (event, byMaintainer) =>
      if record.unlabeledEventId = some event then .alreadyActed
      else if reads.permission && byMaintainer then .act event
      else .reapply

/-- `rearmRun(…)` -/
def rearmRun (record : RunRecord) (event : Nat) : RunRecord :=
  { record with state := .prOpen, unlabeledEventId := some event }

/-- What retiring the run leaves of its record; a state it writes is none of the quarantined. -/
inductive Retired where
  | removed
  | moved (state : RunState) (released : quarantineLabel state = none)
  | left

def Retired.record (record : RunRecord) : Retired → Option RunRecord
  | .removed => none
  | .moved state _ => some { record with state := state }
  | .left => some record

/-- `recoverQuarantined(ctx, record)` -/
def recoverQuarantined (issue : Nat) (w : IssueWorld) (reads : RecoverReads) (answer : GhAnswer)
    (hasPr : Bool) (retired : Retired) : Option IssueWorld :=
  match w.record with
  | none => none
  | some record =>
    match quarantineLabel record.state with
    | none => none
    | some label =>
      if !reads.labels then some w
      else
        match recoverDecision issue w.github record label reads with
        | .quarantined | .alreadyActed => some w
        | .reapply => some (labelOn w (recoverTarget issue record) label answer).1
        | .act event =>
          if record.state ≠ .clarify ∧ hasPr then some { w with record := some (rearmRun record event) }
          else some { w with record := retired.record record, phase := .acted event }

/-! ## Runs -/

inductive IssueEvent where
  | begins (call : TerminalCall)
  | reconciles
  | recovers (reads : RecoverReads) (answer : GhAnswer) (hasPr : Bool) (retired : Retired)
  | settles (answer : GhAnswer)
  | crash
  | unlabel (number : Nat) (label : JsString) (byMaintainer : Bool)
  | comments (c : Comment)
  | advances (state : RunState)
  | creates

/-- The caller writes the state, if it does so before. -/
def beginCall (w : IssueWorld) (call : TerminalCall) : Option IssueWorld :=
  match call.outcome.writes, call.outcome.state, w.record with
  | .before, some state, some record =>
    some { w.enter { record with state := state } with phase := .begun call }
  | .withIntent, _, _ => some { w with phase := .begun call }
  | .never, _, some _ => some { w with phase := .begun call }
  | _, _, _ => none

def IssueWorld.step (principal : JsString) (issue : Nat) (w : IssueWorld) : IssueEvent → Option IssueWorld
  | .begins call => match w.phase with
    | .idle => beginCall w call
    | _ => none
  | .reconciles => match w.phase, w.record with
    | .idle, some record => some { w with phase := replayNext (pendingEffects record) }
    | _, _ => none
  | .recovers reads answer hasPr retired => match w.phase with
    | .idle => recoverQuarantined issue w reads answer hasPr retired
    | _ => none
  | .settles answer => w.settle principal answer
  | .crash => some { w with phase := .idle }
  | .unlabel number label byMaintainer =>
    if (number, label) ∈ w.github.labels then
      some { w with github := { w.github with
        labels := w.github.labels.filter fun p => p ≠ (number, label)
        removals := ⟨number, label, byMaintainer⟩ :: w.github.removals } }
    else none
  | .comments c =>
    if c.author ≠ principal then
      some { w with github := { w.github with comments := c :: w.github.comments } }
    else none
  | .advances state => match w.phase, w.record with
    | .idle, some record =>
      if (quarantineLabel state).isNone then some { w with record := some { record with state := state } }
      else none
    | _, _ => none
  | .creates => match w.phase, w.record with
    | .idle, none => some { w with record := some newRecord }
    | _, _ => none

end Adlc.Autopilot
