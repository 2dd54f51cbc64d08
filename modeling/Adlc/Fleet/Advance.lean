import Adlc.Fleet.Plan

namespace Adlc.Fleet

open Adlc.Framework

/-! ## One ticket through the pipeline -/

/-- The options of `advanceTicket` that it reads itself. -/
structure Policy where
  maxStrikes : Nat
  deadline : Option Int
  hasPreStrike : Bool

/-- The readings of the clock up to the next awaited effect, in order. -/
abbrev Clock := Nat → Int

def Policy.expired (policy : Policy) (now : Int) : Bool := policy.deadline.any fun d => decide (d ≤ now)

structure Build where
  exitCode : Option Int
  timedOut : Bool
  blocked : Bool
  mirrorFetchFailed : Bool
  policyMismatch : Bool
  deadlineTruncated : Bool

structure GateResult where
  ok : Bool
  timedOut : Bool

structure Prosecution where
  verdict : JsString
  timedOut : Bool

structure MergeResult where
  ok : Bool
  expired : Bool
  expiredAfterMerge : Bool
  deriving DecidableEq

/-- The variables of `advanceTicket`. -/
structure Progress where
  strikes : Nat
  gatePassed : Bool
  prosecution : Option JsString
  reviewRounds : Nat

/-- The effect that is awaited. -/
inductive Await where
  | preStrike | dispatch | flail | gate | prosecute | merge
  deriving DecidableEq

inductive OutcomeState where
  | merged | failed | blocked | paused
  deriving DecidableEq

def OutcomeState.recorded : OutcomeState → TicketState
  | .merged => .merged
  | .failed => .failed
  | .blocked => .blocked
  | .paused => .paused

structure Outcome where
  state : OutcomeState
  strikes : Nat
  reasonCode : Option ReasonCode
  policyMismatch : Bool
  pipelineError : Bool

/-- The pipeline calls an effect and waits for it, or it returns. -/
inductive Next where
  | awaits (effect : Await) (p : Progress)
  | returns (outcome : Outcome)

def Progress.start (startStrikes : Nat) : Progress := ⟨startStrikes, false, none, 0⟩

def fail (p : Progress) (code : ReasonCode) : Next :=
  .returns ⟨.failed, p.strikes, some code, false, false⟩

def paused (p : Progress) (code : ReasonCode) : Next :=
  .returns ⟨.paused, p.strikes, some code, false, false⟩

/-- The strike is handed back. -/
def pausedUnconsumed (p : Progress) : Next :=
  .returns ⟨.paused, p.strikes - 1, some .wallClock, false, false⟩

namespace Policy

variable (policy : Policy)

def canRetry (p : Progress) : Bool := decide (p.strikes < policy.maxStrikes)

/-- `strikes += 1` and the dispatch. -/
def beginStrike (p : Progress) : Next := .awaits .dispatch { p with strikes := p.strikes + 1 }

/-- The head of the loop. -/
def nextStrike (now : Int) (p : Progress) : Next :=
  if policy.canRetry p then
    if policy.expired now then paused p .wallClock
    else if policy.hasPreStrike then .awaits .preStrike p
    else beginStrike p
  else fail p .strikesExhausted

def afterPreStrike (ok : Bool) (now : Int) (p : Progress) : Next :=
  if policy.expired now then paused p .wallClock
  else if ok then beginStrike p
  else paused p .quotaPaused

/-- A failed build or gate: the flail detector is asked only where a strike is left. -/
def afterFailure (now : Int) (p : Progress) : Next :=
  if policy.canRetry p then .awaits .flail p else policy.nextStrike now p

def afterDispatch (build : Build) (clock : Clock) (p : Progress) : Next :=
  if build.policyMismatch then .returns ⟨.paused, p.strikes - 1, none, true, false⟩
  else if build.blocked then .returns ⟨.blocked, p.strikes, some .ticketBlocked, false, false⟩
  else if build.mirrorFetchFailed then fail p .mirrorFetchFailed
  else if build.timedOut && policy.expired (clock 0) then
    if build.deadlineTruncated then pausedUnconsumed p else paused p .wallClock
  else if build.exitCode != some 0 || build.timedOut then
    if policy.expired (clock 1) then paused p .wallClock else policy.afterFailure (clock 2) p
  else if policy.expired (clock 1) then pausedUnconsumed p
  else .awaits .gate p

def afterFlail (flail : Bool) (clock : Clock) (p : Progress) : Next :=
  if policy.expired (clock 0) then paused p .wallClock
  else if flail then fail p .flail
  else policy.nextStrike (clock 1) p

def afterGate (gate : GateResult) (clock : Clock) (p : Progress) : Next :=
  if gate.ok then
    let passed := { p with gatePassed := true }
    if policy.expired (clock 0) then pausedUnconsumed passed else .awaits .prosecute passed
  else if gate.timedOut && policy.expired (clock 0) then pausedUnconsumed p
  else if policy.expired (clock 1) then paused p .wallClock
  else policy.afterFailure (clock 2) p

def afterProsecute (pros : Prosecution) (clock : Clock) (p : Progress) : Next :=
  let p := { p with prosecution := some pros.verdict, reviewRounds := p.reviewRounds + 1 }
  if pros.verdict = js "unavailable" then
    if pros.timedOut && policy.expired (clock 0) then pausedUnconsumed p
    else fail p .reviewUnavailable
  else if pros.verdict = js "block" then
    if policy.canRetry p then policy.nextStrike (clock 0) p else fail p .strikesExhausted
  else if policy.expired (clock 0) then pausedUnconsumed p
  else .awaits .merge p

def afterMerge (merge : MergeResult) (clock : Clock) (p : Progress) : Next :=
  if merge.expired then pausedUnconsumed p
  else if !merge.ok then
    if policy.canRetry p then policy.nextStrike (clock 0) p else fail p .strikesExhausted
  else
    .returns ⟨.merged, p.strikes, if merge.expiredAfterMerge then some .wallClock else none, false,
      false⟩

end Policy

/-- An effect threw: the strike that was entered is kept. -/
def pipelineError (p : Progress) : Next := .returns ⟨.failed, p.strikes, none, false, true⟩

theorem OutcomeState.recorded_ne_pending (s : OutcomeState) : s.recorded ≠ .pending := by
  cases s <;> simp [recorded]

theorem OutcomeState.recorded_ne_building (s : OutcomeState) : s.recorded ≠ .building := by
  cases s <;> simp [recorded]

end Adlc.Fleet
