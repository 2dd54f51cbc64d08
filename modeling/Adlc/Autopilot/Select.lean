import Adlc.Autopilot.Block
import Adlc.Autopilot.Denylist
import Adlc.Fleet.Plan
import Adlc.Framework.ComparatorSort

namespace Adlc.Autopilot

open Framework

/-! The score of an issue, the rules that exclude it, and the pick. -/

/-- An open issue, as the rules read it. -/
structure Candidate where
  number : Nat
  labels : List JsString
  milestone : Option JsString
  body : JsString
  createdAt : Option JsString
  updatedAt : Option JsString
  deriving DecidableEq

structure PullRequest where
  number : Nat
  headRefName : Option JsString
  body : JsString

structure IssueRecord where
  state : JsString
  branch : Option JsString

inductive DenyRule where
  | notAuthorized
  | dispatchApproval

def DenyRule.text : DenyRule → JsString
  | .notAuthorized => js "not-authorized"
  | .dispatchApproval => js "dispatch-approval"

/-- What `eligibleAuthor` answers. -/
structure Authorization (ρ : Type) where
  ok : Bool
  rule : Option DenyRule
  reason : Option JsString
  issueRevision : Option ρ

structure Exclusion where
  rule : JsString
  detail : Option JsString
  deriving DecidableEq

/-! ## The score -/

def autopilotLabel : JsString := js "adlc:autopilot"

def priorityPoints : List (JsString × Nat) :=
  [(js "P0-critical", 400), (js "P1-high", 300), (js "P2-medium", 200), (js "P3-low", 100)]

def kindPoints : List (JsString × Nat) :=
  [(js "bug", 30), (js "documentation", 20), (js "enhancement", 10)]

/-- `POINTS[n] ?? 0`; a name that every object inherits finds what is no number. -/
def pointsOf (points : List (JsString × Nat)) (n : JsString) : Option Nat :=
  if n ∈ Fleet.inheritedNames then none else some ((points.lookup n).getD 0)

def weekMs : Int := 7 * 24 * 60 * 60 * 1000

/-- Whole weeks since the issue was created, at most twenty. -/
def agePoints (dateParse : JsString → Option Int) (issue : Candidate) (nowMs : Int) : Nat :=
  match dateParse (issue.createdAt.getD []) with
  | none => 0
  | some created => if nowMs ≤ created then 0 else min 20 ((nowMs - created) / weekMs).toNat

/-- The score, `none` where the sum is no number. -/
def scoreIssue (dateParse : JsString → Option Int) (issue : Candidate) (nowMs : Int) : Option Nat := do
  let names := issue.labels
  let priorities ← names.mapM (pointsOf priorityPoints)
  let kinds ← names.mapM (pointsOf kindPoints)
  let areas := (names.filter fun n => (js "area:").isPrefixOf n).length
  pure ((if autopilotLabel ∈ names then 1000 else 0) + priorities.foldl max 0 + kinds.sum +
    (if js "security" ∈ names then 15 else 0) + (if areas = 1 then 10 else 0) + agePoints dateParse issue nowMs)

/-! ## The rules -/

def stopLabels : List JsString :=
  [js "adlc:autopilot-blocked", js "adlc:autopilot-stale", js "adlc:autopilot-ci-red",
    js "adlc:needs-clarification", js "adlc:autopilot-skip"]

def excludingLabels : List JsString :=
  [js "trust-root-change", js "question", js "wontfix", js "duplicate", js "invalid",
    js "adlc:autopilot-skip", js "adlc:autopilot-blocked", js "adlc:autopilot-stale",
    js "adlc:autopilot-ci-red", js "adlc:needs-clarification", js "adlc:needs-human",
    js "adlc:autopilot-log"]

def quarantineStates : List JsString :=
  [js "oid-mismatch", js "blocked", js "stale", js "ci-red", js "clarify"]

def branchFor (n : Nat) : JsString := js "adlc/autopilot/issue-" ++ natText n

/-- A word in any case, at the head of a text. -/
def wordAt (word text : JsString) : Option JsString :=
  if (text.take word.length).map Tickets.lowerUnit = word then some (text.drop word.length) else none

/-- `/\b(?:Closes|Fixes|Resolves)\s+#n\b/i`, from the word on. -/
def closesAt (n : Nat) (text : JsString) : Option JsString := do
  let rest ← (wordAt (js "closes") text <|> wordAt (js "fixes") text <|> wordAt (js "resolves") text)
  let number := rest.dropWhile isTrimmed
  if number = rest then none
  let rest ← (js "#" ++ natText n).isPrefixOf? number
  if TicketSync.boundaryBefore rest then some rest else none

def closesIssue (n : Nat) (text : JsString) : Bool := (TicketSync.firstAtWord (closesAt n) false text).isSome

/-- The first pull request that is on the branch of the issue or closes it. -/
def openPrExclusion (n : Nat) (pr : PullRequest) : Option Exclusion :=
  if pr.headRefName = some (branchFor n) then
    some ⟨js "open-pr", some (js "#" ++ natText pr.number ++ js " head " ++ branchFor n)⟩
  else if closesIssue n pr.body then
    some ⟨js "open-pr", some (js "#" ++ natText pr.number ++ js " closes #" ++ natText n)⟩
  else none

def recordExclusions (n : Nat) (record : IssueRecord) : List Exclusion :=
  (if record.state = js "remote-pending" then [⟨js "remote-ref-pending", some (branchFor n)⟩] else []) ++
  (if record.state = js "orphan" then [⟨js "orphan", some (record.branch.getD (branchFor n))⟩] else []) ++
  (if record.state ∈ quarantineStates then [⟨js "quarantined", some record.state⟩] else [])

/-- Failed shaping attempts; `none` is without bound. -/
def attemptsExclusion (attempts : Option Nat) : List Exclusion :=
  match attempts with
  | some failed =>
    if 3 ≤ failed then [⟨js "shaping-failed", some (natText failed ++ js " failed shaping attempts in 24 h")⟩]
    else []
  | none => [⟨js "shaping-failed", some (js "Infinity failed shaping attempts in 24 h")⟩]

section Rules

variable {ρ : Type}

def authorizationExclusion (authorization : Authorization ρ) : List Exclusion :=
  if authorization.ok then []
  else [⟨(authorization.rule.getD .notAuthorized).text,
    some (authorization.reason.getD (js "no authorization result"))⟩]

def labelExclusions (issue : Candidate) : List Exclusion :=
  (excludingLabels.filter fun label => label ∈ issue.labels).map fun label => ⟨js "label:" ++ label, none⟩

/-- The rules on the issue itself, the open pull requests, the local branches and the scope. -/
def localExclusions (issue : Candidate) (openPrs : List PullRequest) (localBranches : List JsString)
    (scopeBlock : Option (List ScopeEntry)) (denylist : List JsString) : List Exclusion :=
  (match issue.milestone with
  | some milestone =>
    if (js "Programs").isPrefixOf milestone then [⟨js "programs-milestone", some milestone⟩] else []
  | none => []) ++
  (openPrs.findSome? (openPrExclusion issue.number)).toList ++
  (if branchFor issue.number ∈ localBranches then [⟨js "local-branch", some (branchFor issue.number)⟩] else []) ++
  (match scopeBlock with
  | some scope =>
    if scope.isEmpty || (scopeIntersects scope denylist).isEmpty then []
    else [⟨js "protected-path", some ((js ",").intercalate (scopeIntersects scope denylist))⟩]
  | none => [])

def remoteExclusion (n : Nat) (remoteRefExists : Option Bool) : List Exclusion :=
  match remoteRefExists with
  | some true => [⟨js "remote-ref-exists", some (branchFor n)⟩]
  | some false => []
  | none => [⟨js "remote-ref-unverified", some (js "selection-time ls-remote did not answer")⟩]

def hardExclusions (issue : Candidate) (authorization : Authorization ρ) (openPrs : List PullRequest)
    (localBranches : List JsString) (remoteRefExists : Option Bool) (record : Option IssueRecord)
    (scopeBlock : Option (List ScopeEntry)) (denylist : List JsString) (attempts : Option Nat) :
    List Exclusion :=
  authorizationExclusion authorization ++ labelExclusions issue ++
  localExclusions issue openPrs localBranches scopeBlock denylist ++
  remoteExclusion issue.number remoteRefExists ++
  (match record with
  | some record => recordExclusions issue.number record
  | none => []) ++
  attemptsExclusion attempts

end Rules

def forceLiftableRules : List JsString := stopLabels.map (js "label:" ++ ·)

def forceLifts (rule : JsString) : Bool := decide (rule ∈ forceLiftableRules)

/-! ## The pick -/

structure RankedIssue where
  number : Nat
  score : Option Nat
  excluded : List Exclusion
  lifted : List Exclusion

/-- `(b.score - a.score) || (a.number - b.number)` is not positive. -/
def rankLe (a b : RankedIssue) : Bool :=
  match a.score, b.score with
  | some x, some y => if x = y then decide (a.number ≤ b.number) else decide (y < x)
  | _, _ => decide (a.number ≤ b.number)

structure Pick where
  picked : Option Candidate
  ranked : List RankedIssue
  reason : Option JsString
  rules : List JsString

/-- The candidates among which the pick is. -/
def poolOf (candidates : List Candidate) (pinned : Option Nat) : List Candidate :=
  match pinned with
  | none => candidates
  | some pin => candidates.filter fun c => c.number = pin

def rankIssue (evaluate : Candidate → List Exclusion × Option Nat) (force : Bool) (issue : Candidate) :
    RankedIssue :=
  let exclusions := (evaluate issue).1
  let lifts := fun x : Exclusion => force && forceLifts x.rule
  ⟨issue.number, (evaluate issue).2, exclusions.filter fun x => !lifts x, exclusions.filter lifts⟩

def selectIssue (s : ComparatorSort RankedIssue) (candidates : List Candidate)
    (evaluate : Candidate → List Exclusion × Option Nat) (pinned : Option Nat) (force : Bool) :
    Except JsString Pick :=
  if force ∧ pinned = none then .error (js "--force requires --issue")
  else
    let pool := poolOf candidates pinned
    if pinned ≠ none ∧ pool.isEmpty then .ok ⟨none, [], some (js "issue-not-found"), []⟩
    else
      let ranked := s.sort rankLe (pool.map (rankIssue evaluate force))
      let picked := (ranked.find? fun r => r.excluded.isEmpty).bind fun first =>
        pool.find? fun c => c.number = first.number
      match picked with
      | some issue => .ok ⟨some issue, ranked, none, []⟩
      | none =>
        let rules := if pinned ≠ none then (ranked.head?.map fun r => r.excluded.map Exclusion.rule).getD [] else []
        .ok ⟨none, ranked, some (if pinned ≠ none then js "excluded" else js "no-eligible-candidate"), rules⟩

end Adlc.Autopilot
