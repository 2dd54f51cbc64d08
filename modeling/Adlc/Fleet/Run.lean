import Adlc.Fleet.Advance

namespace Adlc.Fleet

open Adlc.Framework Adlc.Tickets

variable {ν : Type} [JsNumber ν]

/-! ## The integration branch -/

/-- A commit on the integration branch: the ticket it merges, if it is the merge of one, and whether
it passed the post-merge gate. -/
structure Commit where
  sha : Nat
  ticket : Option JsString
  gated : Bool
  deriving DecidableEq

/-- How git answers `revertMerge`. -/
inductive GitAnswer where
  | works
  /-- `git rev-parse` fails. -/
  | headUnreadable
  /-- `git reset` fails, with whether the branch was reset. -/
  | resetFails (done : Bool)
  /-- `git revert` fails. -/
  | revertFails

/-! ## A ticket of the run -/

/-- Why a merge is withdrawn. -/
inductive GateFailure where
  | threw
  | red (timedOut : Bool)

/-- Where the merge effect stands, before the effect that is named. -/
inductive MergePoint where
  /-- It waits for the merge mutex. -/
  | queued
  | merging
  | postGate (mergeSha : Nat)
  | reverting (mergeSha : Nat) (why : GateFailure)
  | completing
  | reGate (completionSha : Nat)
  /-- `revertCompletion`, with whether the wall clock was the reason. -/
  | withdrawing (completionSha : Nat) (late : Bool)

/-- Where `startTicket` stands, before the effect that is named. -/
inductive TaskPoint where
  | createWorktree
  | provision
  /-- `cleanup` of a ticket whose setup was refused -/
  | refusedCleanup
  | awaiting (effect : Await) (p : Progress)
  | inMerge (point : MergePoint) (p : Progress)
  /-- The merge effect has returned, or thrown. -/
  | merged (result : Option MergeResult) (p : Progress)
  /-- `advanceTicket` has returned. -/
  | settling (outcome : Outcome)
  | cleanup

structure Task where
  startStrikes : Nat
  point : TaskPoint

/-- What an awaited effect gives. -/
inductive Reply where
  | ok
  | threw
  | preStrike (ok : Bool)
  | build (build : Build)
  | flail (flail : Bool)
  | gate (result : GateResult)
  | prosecution (result : Prosecution)
  /-- `mergeToIntegration` throws after the merge commit is made. -/
  | threwAfterMerge
  | git (answer : GitAnswer)
  /-- `completeTicket`, with whether it made a completion commit -/
  | completion (completed : Bool)
  /-- `completeTicket` throws, with whether the ledger or the branch is left dirty. -/
  | completionThrew (dirty : Bool)

/-- An effect's reply, the clock until the next effect, and whether the status can be saved. -/
structure EffectAnswer where
  reply : Reply
  clock : Clock
  saves : Bool

/-! ## The state of a run -/

structure RunConfig where
  cap : Nat
  onlyIds : Option (List JsString)
  policy : Policy
  noPr : Bool
  noComplete : Bool
  hasCompleteTicket : Bool
  hasRevertCompletion : Bool
  hasOpenPR : Bool

/-- What the tickets of a run share. -/
structure Shared where
  records : TicketRecords
  contaminated : Bool
  refused : List JsString
  wallClockExpired : Bool
  dispatchRefused : Bool
  pipelineError : Bool
  strikesConsumed : Nat
  /-- The merge mutex: the tickets that hold it or wait for it, in order. -/
  queue : List JsString
  branch : List Commit
  nextSha : Nat
  /-- What `fleet-status.json` holds. -/
  saved : Option (TicketRecords × Bool)

/-- `withTicket(status, id, patch)` -/
def withTicket (records : TicketRecords) (id : JsString) (patch : TicketRecord → TicketRecord) :
    TicketRecords :=
  records.insert id (patch ((records.lookup id).getD ⟨.pending, 0, none⟩))

/-- `status.tickets[id]?.strikes ?? 0` -/
def strikesOf (records : TicketRecords) (id : JsString) : Nat :=
  ((records.lookup id).map TicketRecord.strikes).getD 0

/-- The patch that reserves a slot. -/
def building (strikes : Nat) (record : TicketRecord) : TicketRecord :=
  { record with state := .building, strikes }

/-- `persist()`; whether it returned. -/
def Shared.persist (s : Shared) (saves : Bool) : Shared × Bool :=
  if saves then ({ s with saved := some (s.records, s.contaminated) }, true) else (s, false)

/-- `markContaminated(reason)`; whether it returned. -/
def Shared.markContaminated (s : Shared) (saves : Bool) : Shared × Bool :=
  { s with contaminated := true }.persist saves

/-- How a ticket goes on: with the next effect, or `startTicket` is over. -/
inductive TaskNext where
  | goes (point : TaskPoint)
  | finished (rejected : Bool)

abbrev Outcomes := Option (Shared × TaskNext)

def Shared.goes (s : Shared) (point : TaskPoint) : Outcomes := some (s, .goes point)

/-- `advanceTicket` goes on; a merge effect asks for the mutex. -/
def Shared.next (s : Shared) (id : JsString) : Next → Outcomes
  | .awaits .merge p => { s with queue := s.queue ++ [id] }.goes (.inMerge .queued p)
  | .awaits effect p => s.goes (.awaiting effect p)
  | .returns outcome => s.goes (.settling outcome)

/-- The merge effect is over and leaves the mutex. -/
def Shared.leaveMerge (s : Shared) (id : JsString) (result : Option MergeResult) (p : Progress) :
    Outcomes :=
  { s with queue := s.queue.erase id }.goes (.merged result p)

def mergedOk : MergeResult := ⟨true, false, false⟩
def mergeFailed : MergeResult := ⟨false, false, false⟩
def mergeExpired : MergeResult := ⟨false, true, false⟩
def mergedLate : MergeResult := ⟨true, false, true⟩

def Shared.commit (s : Shared) (ticket : Option JsString) : Shared :=
  { s with branch := s.branch ++ [⟨s.nextSha, ticket, false⟩], nextSha := s.nextSha + 1 }

def Shared.headIs (s : Shared) (sha : Nat) : Bool :=
  s.branch.getLast?.any fun head => decide (head.sha = sha)

/-- `revertMerge`, with what is returned as `ok`; nothing is returned if it throws. -/
def Shared.revertMerge (s : Shared) (mergeSha : Nat) (git : GitAnswer) : Shared × Option Bool :=
  let withdrawn := { s with branch := s.branch.dropLast }
  if s.headIs mergeSha then
    match git with
    | .headUnreadable => (s, none)
    | .resetFails done => (if done then withdrawn else s, none)
    | .works | .revertFails => (withdrawn, some true)
  else
    match git with
    | .headUnreadable => (s, none)
    | .revertFails => (s, some false)
    -- The merge is reverted, and the commit above it stays.
    | .works | .resetFails _ => (s.commit none, some false)

/-- The post-merge gate passed over a merge. -/
def Shared.gatePassed (s : Shared) (mergeSha : Nat) : Shared :=
  { s with branch := s.branch.map fun c => if c.sha = mergeSha then { c with gated := true } else c }

/-- The branch is quarantined. Where even that cannot be saved, `thrown` is the result. -/
def Shared.quarantine (s : Shared) (id : JsString) (saves : Bool) (thrown : Option MergeResult)
    (p : Progress) : Outcomes :=
  match s.markContaminated saves with
  | (s, true) => s.leaveMerge id (some mergeFailed) p
  | (s, false) => s.leaveMerge id thrown p

/-- `withdrawCompletion`, up to its effect -/
def Shared.withdraw (s : Shared) (cfg : RunConfig) (id : JsString) (completionSha : Nat)
    (late saves : Bool) (p : Progress) : Outcomes :=
  if cfg.hasRevertCompletion then s.goes (.inMerge (.withdrawing completionSha late) p)
  else s.quarantine id saves (some mergedOk) p

/-- What follows a green post-merge gate. -/
def Shared.complete (s : Shared) (cfg : RunConfig) (id : JsString) (clock : Clock)
    (p : Progress) : Outcomes :=
  if cfg.noComplete then s.leaveMerge id (some mergedOk) p
  else if cfg.policy.expired (clock 0) then s.leaveMerge id (some mergedOk) p
  else if cfg.hasCompleteTicket then s.goes (.inMerge .completing p)
  else s.leaveMerge id (some mergedOk) p

/-- The steps of the merge effect. -/
def mergeStep (cfg : RunConfig) (id : JsString) (s : Shared) (point : MergePoint) (p : Progress)
    (answer : EffectAnswer) : Outcomes :=
  match point, answer.reply with
  | .queued, .ok =>
    if s.queue.head? ≠ some id then none
    else if cfg.policy.expired (answer.clock 0) then s.leaveMerge id (some mergeExpired) p
    else if s.contaminated then s.leaveMerge id (some mergeFailed) p
    else s.goes (.inMerge .merging p)
  | .merging, .ok => (s.commit (some id)).goes (.inMerge (.postGate s.nextSha) p)
  | .merging, .threw => s.leaveMerge id none p
  | .merging, .threwAfterMerge => (s.commit (some id)).leaveMerge id none p
  | .postGate mergeSha, .gate result =>
    if result.ok then (s.gatePassed mergeSha).complete cfg id answer.clock p
    else s.goes (.inMerge (.reverting mergeSha (.red result.timedOut)) p)
  -- A gate that threw is a gate with no verdict.
  | .postGate mergeSha, .threw => s.goes (.inMerge (.reverting mergeSha .threw) p)
  | .reverting mergeSha why, .git git =>
    match s.revertMerge mergeSha git with
    | (s, none) => s.leaveMerge id none p
    | (s, some false) => s.quarantine id answer.saves none p
    | (s, some true) =>
      match why with
      | .red true => s.leaveMerge id
          (some (if cfg.policy.expired (answer.clock 0) then mergeExpired else mergeFailed)) p
      | _ => s.leaveMerge id (some mergeFailed) p
  | .completing, .completion true =>
    let s' := s.commit none
    if cfg.policy.expired (answer.clock 0) then
      s'.withdraw cfg id s.nextSha true answer.saves p
    else s'.goes (.inMerge (.reGate s.nextSha) p)
  | .completing, .completion false => s.leaveMerge id (some mergedOk) p
  | .completing, .completionThrew dirty =>
    if dirty then s.quarantine id answer.saves none p else s.leaveMerge id (some mergedOk) p
  | .reGate completionSha, .gate result =>
    if result.ok then
      s.leaveMerge id (some (if cfg.policy.expired (answer.clock 0) then mergedLate else mergedOk)) p
    else s.withdraw cfg id completionSha false answer.saves p
  | .reGate completionSha, .threw => s.withdraw cfg id completionSha false answer.saves p
  | .withdrawing completionSha late, .ok =>
    { s with branch := s.branch.filter fun c => c.sha != completionSha || c.ticket.isSome }.leaveMerge
      id (some (if late || cfg.policy.expired (answer.clock 0) then mergedLate else mergedOk)) p
  | .withdrawing _ _, .threw => s.quarantine id answer.saves (some mergedOk) p
  | _, _ => none

/-- The ticket's setup is refused: it stays pending, and this run does not admit it again. -/
def Shared.refuse (s : Shared) (id : JsString) (startStrikes : Nat) : Shared :=
  { s with records := withTicket s.records id fun _ => ⟨.pending, startStrikes, none⟩
           refused := s.refused ++ [id], dispatchRefused := true }

/-- What `startTicket` does with the outcome of the pipeline. -/
def Shared.settle (s : Shared) (id : JsString) (startStrikes : Nat) (outcome : Outcome) : Shared :=
  { s with
    strikesConsumed := s.strikesConsumed + (outcome.strikes - startStrikes)
    wallClockExpired := s.wallClockExpired || decide (outcome.reasonCode = some .wallClock)
    dispatchRefused := s.dispatchRefused || outcome.policyMismatch
    pipelineError := s.pipelineError || outcome.pipelineError
    records := withTicket s.records id fun _ =>
      ⟨outcome.state.recorded, outcome.strikes, outcome.reasonCode⟩ }

/-- Save the status, and go on unless that throws. -/
def Shared.saveThen (s : Shared) (saves : Bool) (next : TaskNext) : Outcomes :=
  match s.persist saves with
  | (s, true) => some (s, next)
  | (s, false) => some (s, .finished true)

/-- The steps of `advanceTicket`. -/
def awaitStep (cfg : RunConfig) (id : JsString) (s : Shared) (effect : Await) (p : Progress)
    (answer : EffectAnswer) : Outcomes :=
  match effect, answer.reply with
  | .preStrike, .preStrike ok => s.next id (cfg.policy.afterPreStrike ok (answer.clock 0) p)
  | .dispatch, .build build => s.next id (cfg.policy.afterDispatch build answer.clock p)
  | .flail, .flail flail => s.next id (cfg.policy.afterFlail flail answer.clock p)
  | .gate, .gate result => s.next id (cfg.policy.afterGate result answer.clock p)
  | .prosecute, .prosecution result => s.next id (cfg.policy.afterProsecute result answer.clock p)
  | .merge, _ => none
  | _, .threw => s.next id (pipelineError p)
  | _, _ => none

/-- The steps of `startTicket`. -/
def taskStep (cfg : RunConfig) (id : JsString) (s : Shared) (task : Task) (answer : EffectAnswer) :
    Outcomes :=
  match task.point, answer.reply with
  | .createWorktree, .ok =>
    { s with records := withTicket s.records id (building task.startStrikes) }.saveThen
      answer.saves (.goes .provision)
  | .createWorktree, .threw => (s.refuse id task.startStrikes).saveThen answer.saves (.finished false)
  | .provision, .ok =>
    s.next id (cfg.policy.nextStrike (answer.clock 0) (.start task.startStrikes))
  | .provision, .threw =>
    (s.refuse id task.startStrikes).saveThen answer.saves (.goes .refusedCleanup)
  | .awaiting effect p, _ => awaitStep cfg id s effect p answer
  | .inMerge point p, _ => mergeStep cfg id s point p answer
  | .merged (some result) p, .ok => s.next id (cfg.policy.afterMerge result answer.clock p)
  | .merged none p, .ok => s.next id (pipelineError p)
  | .settling outcome, .ok =>
    (s.settle id task.startStrikes outcome).saveThen answer.saves (.goes .cleanup)
  | .cleanup, .ok | .refusedCleanup, .ok => some (s, .finished false)
  -- A cleanup failure is recorded and the status saved again.
  | .cleanup, .threw | .refusedCleanup, .threw => s.saveThen answer.saves (.finished false)
  | _, _ => none

/-! ## The main loop -/

inductive Loop where
  /-- A round of planning is due. -/
  | planning
  /-- `await Promise.race(inFlight.values())` -/
  | waiting
  /-- `await deps.openPR(…)` -/
  | openingPR
  | ended
  | threw
  deriving DecidableEq

/-- A run of `runFleet`: the tickets share a state, the loop has its own, and the last three fields
are the history of the run. -/
structure FleetRun where
  shared : Shared
  inFlight : AList fun _ : JsString => Task
  loop : Loop
  admitted : List JsString
  completions : Nat
  rounds : Nat

/-- A promise in `inFlight` is settled. The loop hears of it if it still waits. -/
def FleetRun.finish (r : FleetRun) (id : JsString) (s : Shared) (rejected : Bool) : FleetRun :=
  { r with
    shared := s
    inFlight := r.inFlight.erase id
    completions := r.completions + 1
    loop := if r.loop = .waiting then (if rejected then .threw else .planning) else r.loop }

def FleetRun.taskEvent (cfg : RunConfig) (r : FleetRun) (id : JsString) (answer : EffectAnswer) :
    Option FleetRun :=
  (r.inFlight.lookup id).bind fun task =>
    (taskStep cfg id r.shared task answer).map fun result =>
      match result with
      | (s, .goes point) =>
        { r with shared := s, inFlight := r.inFlight.insert id { task with point := point } }
      | (s, .finished rejected) => r.finish id s rejected

/-- The slot is reserved, and `startTicket` runs up to its first effect. -/
def FleetRun.startTicket (r : FleetRun) (ticket : Json ν) : FleetRun :=
  let id := idOf ticket
  let strikes := strikesOf r.shared.records id
  { r with
    shared := { r.shared with records := withTicket r.shared.records id (building strikes) }
    inFlight := r.inFlight.insert id ⟨strikes, .createWorktree⟩
    admitted := r.admitted ++ [id] }

def anyMerged (records : TicketRecords) : Bool :=
  records.entries.any fun e => decide (e.2.state = .merged)

/-- The end of the run: one PR, unless something forbids it. -/
def FleetRun.close (cfg : RunConfig) (r : FleetRun) : FleetRun :=
  let s := r.shared
  if s.contaminated || s.wallClockExpired || cfg.noPr || !(anyMerged s.records && cfg.hasOpenPR) then
    { r with loop := .ended }
  else { r with loop := .openingPR }

/-- The tickets a round plans for: those whose setup was refused are left out. -/
def plannedFor (all : List (Json ν)) (s : Shared) : List (Json ν) :=
  all.filter fun t => !s.refused.contains (idOf t)

/-- The head of the loop, where the clock is read. -/
def FleetRun.turn (cfg : RunConfig) (r : FleetRun) (clock : Clock) : FleetRun :=
  { r with
    rounds := r.rounds + 1
    shared := { r.shared with
      wallClockExpired := r.shared.wallClockExpired || cfg.policy.expired (clock 0) } }

/-- The tickets the planner admits. -/
def toAdmit (cfg : RunConfig) (all : List (Json ν)) (r : FleetRun) : List (Json ν) :=
  (planRound (plannedFor all r.shared) r.shared.records r.inFlight.keys cfg.cap cfg.onlyIds).admitted

/-- The foot of the loop: it is left when nothing is in flight. -/
def FleetRun.roundEnd (cfg : RunConfig) (r : FleetRun) : FleetRun :=
  if r.inFlight.keys = [] then r.close cfg else { r with loop := .waiting }

/-- One turn of the main loop. -/
def FleetRun.round (cfg : RunConfig) (all : List (Json ν)) (r : FleetRun) (clock : Clock) :
    Option FleetRun :=
  if r.loop ≠ .planning then none
  else if cfg.policy.expired (clock 0) && decide (r.inFlight.keys = []) then
    some ((r.turn cfg clock).close cfg)
  else if cfg.policy.expired (clock 1) then some ((r.turn cfg clock).roundEnd cfg)
  else some (((toAdmit cfg all r).foldl FleetRun.startTicket (r.turn cfg clock)).roundEnd cfg)

/-- The tickets of a subset that can never become ready are blocked up front. -/
def markBlocked (records : TicketRecords) (blocked : List JsString) : TicketRecords :=
  blocked.foldl (fun records id => withTicket records id fun record =>
    { record with state := .blocked, reasonCode := some .ticketBlocked }) records

/-- `runFleet` up to its first round, with the status it starts from. -/
def begin (cfg : RunConfig) (all : List (Json ν)) (records : TicketRecords) (contaminated : Bool)
    (branch : List Commit) (nextSha : Nat) (saved : Option (TicketRecords × Bool)) (saves : Bool) :
    FleetRun :=
  let s : Shared := ⟨records, contaminated, [], false, false, false, 0, [], branch, nextSha, saved⟩
  -- A quarantined branch is refused before anything is done.
  if contaminated then ⟨s, ∅, .ended, [], 0, 0⟩
  else
    let marked := { s with records := markBlocked records (unsatisfiableInSubset all records cfg.onlyIds) }
    match marked.persist saves with
    | (s, true) => ⟨s, ∅, .planning, [], 0, 0⟩
    | (s, false) => ⟨s, ∅, .threw, [], 0, 0⟩

/-- The record of a ticket after a resume: what is merged is told by ancestry to the integration
branch, and whatever was under way is pending again. -/
def reconcileRecord (isAncestor : Bool) (record : TicketRecord) : TicketRecord :=
  match record.state with
  | .merged | .failed | .blocked => record
  | _ => { record with state := if isAncestor then .merged else .pending }

def reconcileEntry (isAncestor : JsString → Bool) (e : Sigma fun _ : JsString => TicketRecord) :
    Sigma fun _ : JsString => TicketRecord :=
  ⟨e.1, reconcileRecord (isAncestor e.1) e.2⟩

theorem nodupKeys_reconcile (isAncestor : JsString → Bool) (records : TicketRecords) :
    (records.entries.map (reconcileEntry isAncestor)).NodupKeys := by
  have hkeys : (records.entries.map (reconcileEntry isAncestor)).keys = records.entries.keys := by
    simp [List.keys, reconcileEntry]
  rw [List.NodupKeys, hkeys]
  exact records.nodupKeys

def reconcileResume (isAncestor : JsString → Bool) (records : TicketRecords) : TicketRecords :=
  ⟨records.entries.map (reconcileEntry isAncestor), nodupKeys_reconcile isAncestor records⟩

/-- What happens to a run. -/
inductive Event where
  | round (clock : Clock)
  | task (id : JsString) (answer : EffectAnswer)
  /-- `openPR` returns or throws. -/
  | prDone
  /-- Somebody else commits on the integration branch. -/
  | foreignCommit
  /-- The process is killed, or has ended, and the run is resumed from the recorded status. -/
  | resume (isAncestor : JsString → Bool) (saves : Bool)

def FleetRun.step (cfg : RunConfig) (all : List (Json ν)) (r : FleetRun) : Event → Option FleetRun
  | .round clock => r.round cfg all clock
  | .task id answer => r.taskEvent cfg id answer
  | .prDone => if r.loop = .openingPR then some { r with loop := .ended } else none
  | .foreignCommit => some { r with shared := r.shared.commit none }
  | .resume isAncestor saves =>
    r.shared.saved.map fun saved =>
      begin cfg all (reconcileResume isAncestor saved.1) saved.2 r.shared.branch r.shared.nextSha
        (some saved) saves

end Adlc.Fleet
