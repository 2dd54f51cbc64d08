import Adlc.Autopilot.Records
import Adlc.Framework.Dialogue
import Adlc.Framework.Lines

namespace Adlc.Autopilot.Retire

open Adlc.Framework

/-! ## Calls -/

/-- Where a worktree of the run may be: at its own path, or renamed aside. -/
inductive Place where
  | issue
  | retiring (token : JsString)
  deriving DecidableEq

/-- The local git commands, on the branch of the issue or in one of its worktrees. -/
inductive GitCommand where
  | revParse
  | mergeBase (base : JsString)
  | status (place : Place)
  | checkoutFiles (place : Place)
  | clean (place : Place)
  | head (place : Place)
  | symbolicRef (place : Place)
  | move (source target : Place)
  | detach (place : Place) (head : JsString)
  | deleteRef (head : JsString)
  | remove (place : Place)
  | listWorktrees
  | unsetMarker

/-- What `runGit` returns, the output trimmed. -/
structure GitResult where
  ok : Bool
  out : JsString

/-- The record of the run that is retired. -/
structure RunRecord where
  token : Option JsString
  localHead : Option JsString
  baseOid : Option JsString
  fleetRunId : Option JsString
  lastPushedOid : Option JsString
  lastPushedAt : Option JsString

/-- What is written to the record. -/
inductive Patch where
  | orphan (reason : JsString)
  | remotePending (remoteOid lastPushedOid : JsString)
  | remoteDeleted (knownPrNumbers : List Nat)
  | prAfterDelete (number : Nat) (restored : Bool)

/-- What is appended to the status file. -/
inductive StatusEntry where
  | orphan (reason : JsString) (oid : Option JsString)
  | remoteRefLeft (oid lastPushedOid command : JsString)
  | quarantined (place : Place)

inductive RetireCall where
  /-- The ownership marker of the branch. -/
  | marker
  | observedUrl
  | openPrs
  | allPrs
  | git (command : GitCommand)
  | lsRemote
  /-- The remote branch is deleted, if it is still at that commit. -/
  | pushDelete (lease : JsString)
  /-- The remote branch is created, if there is none. -/
  | pushRestore (oid : JsString)
  | onDisk (place : Place)
  | load
  | update (patch : Patch)
  | append (entry : StatusEntry)
  | removeRecord (record : RunRecord)
  | labelNeedsHuman
  | sleep (delay : Nat)
  | now

/-- `ls-remote` answers with its status and its whole output. -/
abbrev RetireCall.Answer : RetireCall → Type
  | .marker => Option JsString
  | .observedUrl => Option JsString
  | .openPrs => List Nat
  | .allPrs => List Nat
  | .git _ => GitResult
  | .lsRemote => GitResult
  | .pushDelete _ => GitResult
  | .pushRestore _ => GitResult
  | .onDisk _ => Bool
  | .load => Option RunRecord
  | .update _ => Unit
  | .append _ => Unit
  | .removeRecord _ => Unit
  | .labelNeedsHuman => Unit
  | .sleep _ => Unit
  | .now => Int

structure Fault where
  code : Option JsString
  message : JsString

abbrev Retirement := Dialogue Fault RetireCall RetireCall.Answer

def call (c : RetireCall) : Retirement c.Answer := Dialogue.make c

def runGit (command : GitCommand) : Retirement GitResult := call (.git command)

structure Context where
  branch : JsString
  remoteFetchUrl : JsString
  remotePushUrl : JsString
  observedFetch : Option JsString
  /-- `Date.parse`, where it is a number. -/
  parseDate : JsString → Option Int

/-! ## Observations -/

def isHex (c : UInt16) : Bool := isDigit c || (97 ≤ c.toNat && c.toNat ≤ 102)

/-- `/^[0-9a-f]{40,64}$/` -/
def isOid (s : JsString) : Bool := 40 ≤ s.length && s.length ≤ 64 && s.all isHex

/-- `validateToken` -/
def isToken (s : JsString) : Bool := s.length = 64 && s.all isHex

/-- `validateOid` -/
def validateOid (s : JsString) : Retirement JsString :=
  if s.length = 40 ∧ s.all isHex then pure s
  else .fail ⟨some (js "bad-input:oid"), js "bad-input:oid (expected 40 lower-case hex characters)"⟩

/-- The tip that the answer of `rev-parse` tells. -/
def tipOf (r : GitResult) : Option JsString := if r.ok && isOid r.out then some r.out else none

/-- `localBranchTip(ctx, branch)` -/
def localBranchTip : Retirement (Option JsString) := do
  let r ← runGit .revParse
  pure (tipOf r)

/-- The commit that the output of `ls-remote` tells: the first field of its first line. -/
def remoteOf (out : JsString) : Option JsString :=
  ((splitLines out).find? fun line => trim line ≠ []).bind fun line =>
    let oid := line.takeWhile fun c => !isTrimmed c
    if isOid oid then some oid else none

/-- `remoteRefOid(ctx, branch)` -/
def remoteRefOid : Retirement (Option JsString) := do
  let r ← call .lsRemote
  if r.ok then pure (remoteOf r.out) else .fail ⟨some (js "ls-remote-failed"), js "ls-remote-failed"⟩

/-- The line that `git worktree list --porcelain` has for the worktree of the issue. -/
def listsIssue (path : JsString) (r : GitResult) : Bool :=
  r.ok && (splitLines r.out).contains (js "worktree " ++ path)

/-- `worktreePresent(ctx, path)`, for the worktree of the issue. -/
def worktreePresent (path : JsString) : Retirement Bool := do
  if ← call (.onDisk .issue) then pure true
  else
    let r ← runGit .listWorktrees
    pure (listsIssue path r)

/-! ## Local retirement -/

/-- What `stepL` comes to. -/
inductive StepL where
  | retired (quarantined : List Place)
  | nothingLocal
  | orphan (reason : JsString)

/-- `if (ctx.records.load(issue)) ctx.records.update(issue, patch)` -/
def updateIf (loaded : Option RunRecord) (patch : Patch) : Retirement Unit :=
  if loaded.isSome then call (.update patch) else pure ()

/-- `markOrphan(ctx, record, reason)` -/
def markOrphan (reason : JsString) : Retirement StepL := do
  let oid ← localBranchTip
  let loaded ← call .load
  updateIf loaded (.orphan reason)
  call (.append (.orphan reason oid))
  pure (.orphan reason)

/-- The worktree that was renamed aside goes back, if there is one. -/
def moveBack (retiring : Place) (moved : Bool) : Retirement Unit :=
  if moved then do
    let _ ← runGit (.move retiring .issue)
    pure ()
  else pure ()

/-- L3 and L4: the branch is deleted at `head`, then the worktree that was renamed aside. -/
def deleteLocal (token head : JsString) (moved : Bool) : Retirement StepL := do
  let del ← runGit (.deleteRef head)
  if !del.ok then
    moveBack (.retiring token) moved
    markOrphan (js "ref-moved")
  else if moved then
    let h ← runGit (.head (.retiring token))
    let s ← runGit (.symbolicRef (.retiring token))
    if !h.ok || h.out ≠ head || s.ok then markOrphan (js "quarantined-worktree-moved")
    else
      let rm ← runGit (.remove (.retiring token))
      if !rm.ok then
        call (.append (.quarantined (.retiring token)))
        let _ ← runGit .unsetMarker
        pure (.retired [.retiring token])
      else
        let _ ← runGit .unsetMarker
        pure (.retired [])
  else
    let _ ← runGit .unsetMarker
    pure (.retired [])

/-- L1 and L2: a clean worktree on the branch is renamed aside and detached. -/
def renameAside (ctx : Context) (token head : JsString) : Retirement StepL := do
  let wtHead ← runGit (.head .issue)
  let sym ← runGit (.symbolicRef .issue)
  if !wtHead.ok || wtHead.out ≠ head || !sym.ok || sym.out ≠ js "refs/heads/" ++ ctx.branch then
    markOrphan (js "worktree-head")
  else
    let mv ← runGit (.move .issue (.retiring token))
    if !mv.ok then markOrphan (js "move-failed")
    else
      let det ← runGit (.detach (.retiring token) head)
      if !det.ok then
        moveBack (.retiring token) true
        markOrphan (js "detach-failed")
      else deleteLocal token head true

/-- The tree has nothing uncommitted, or what it has are the run's own ticket files, which go. -/
def cleanTree (ctx : Context) (record : RunRecord) (discardOwnWrites : Bool) (token head : JsString) :
    Retirement StepL := do
  let st ← runGit (.status .issue)
  if !st.ok then markOrphan (js "status-failed")
  else if st.out ≠ [] ∧ discardOwnWrites ∧ record.fleetRunId.getD [] = [] then
    let reset ← runGit (.checkoutFiles .issue)
    let clean ← runGit (.clean .issue)
    if !reset.ok || !clean.ok then markOrphan (js "dirty")
    else
      let st ← runGit (.status .issue)
      if !st.ok then markOrphan (js "status-failed")
      else if st.out ≠ [] then markOrphan (js "dirty")
      else renameAside ctx token head
  else if st.out ≠ [] then markOrphan (js "dirty")
  else renameAside ctx token head

/-- What is asked of `retireRun`. -/
structure Options where
  expectedHead : Option JsString
  requireAncestry : Bool
  skipCanonical : Bool
  discardOwnWrites : Bool

/-- The head at which the branch is deleted. -/
def expected (record : RunRecord) (options : Options) : Option JsString :=
  (options.expectedHead.orElse fun _ => record.localHead).filter (· ≠ [])

/-- (d): the branch descends from the base of the record. -/
def ancestry (record : RunRecord) (requireAncestry : Bool) : Retirement (Option JsString) :=
  if requireAncestry then
    match record.baseOid with
    | none => pure (some (js "no-base-oid"))
    | some base =>
      if base = [] then pure (some (js "no-base-oid"))
      else do
        let mb ← runGit (.mergeBase base)
        if !mb.ok || mb.out ≠ base then pure (some (js "ancestry")) else pure none
  else pure none

/-- `stepL({ ctx, record, expectedHead, requireAncestry, discardOwnWrites })` -/
def stepL (ctx : Context) (record : RunRecord) (options : Options) : Retirement StepL :=
  match record.token with
  | none => markOrphan (js "no-token")
  | some token =>
    if !isToken token then markOrphan (js "no-token")
    else do
      let marker ← call .marker
      if (marker.map trim).getD [] ≠ token then markOrphan (js "marker-mismatch")
      else
        let prs ← call .openPrs
        if prs ≠ [] then markOrphan (js "open-pr")
        else
          let tip ← localBranchTip
          let wtExists ← call (.onDisk .issue)
          match tip with
          | none => if wtExists then markOrphan (js "worktree-without-branch") else pure .nothingLocal
          | some tip =>
            match ← ancestry record options.requireAncestry with
            | some reason => markOrphan reason
            | none =>
              match expected record options with
              | none => markOrphan (js "no-local-head")
              | some head =>
                if tip ≠ head then markOrphan (js "tip-moved")
                else if wtExists then cleanTree ctx record options.discardOwnWrites token head
                else deleteLocal token head false

/-! ## The record -/

inductive Canonical where
  | remotePending (remoteOid command : JsString)
  | localPresent (what : JsString)
  | deleted

/-- `deletionCommand(ctx, branch, oid)` -/
def deletionCommand (ctx : Context) (oid : JsString) : JsString :=
  js "git push --force-with-lease=refs/heads/" ++ ctx.branch ++ js ":" ++ oid ++ js " " ++
    ctx.remotePushUrl ++ js " :refs/heads/" ++ ctx.branch

/-- Whether the worktree that the token names is on disk; a record without a token names none. -/
def renamedAside (record : RunRecord) : Retirement Bool :=
  match record.token with
  | none => pure false
  | some token => if isToken token then call (.onDisk (.retiring token)) else pure false

/-- `canonicalDeletion({ ctx, record })`; `path` is that of the issue's worktree. -/
def canonicalDeletion (ctx : Context) (path : JsString) (record : RunRecord) : Retirement Canonical := do
  match ← remoteRefOid with
  | some remote =>
    let lastPushedOid := record.lastPushedOid.getD remote
    let command := deletionCommand ctx lastPushedOid
    let loaded ← call .load
    updateIf loaded (.remotePending remote lastPushedOid)
    call (.append (.remoteRefLeft remote lastPushedOid command))
    pure (.remotePending remote command)
  | none =>
    if (← localBranchTip).isSome then pure (.localPresent (js "branch"))
    else if ← worktreePresent path then pure (.localPresent (js "worktree"))
    else if ← renamedAside record then pure (.localPresent (js "quarantined"))
    else
      call (.removeRecord record)
      pure .deleted

/-- What `retireRun` returns. -/
structure Retired where
  step : StepL
  canonical : Option Canonical

/-- `retireRun({ ctx, record, … })` -/
def retireRun (ctx : Context) (path : JsString) (record : RunRecord) (options : Options) :
    Retirement Retired := do
  let l ← (stepL ctx record options).tryCatch fun e => markOrphan (js "error:" ++ e.code.getD e.message)
  match l with
  | .orphan reason => pure ⟨.orphan reason, none⟩
  | l =>
    if options.skipCanonical then pure ⟨l, none⟩
    else if (← call .load).isNone then pure ⟨l, none⟩
    else
      let loaded ← call .load
      let c ← canonicalDeletion ctx path (loaded.getD record)
      pure ⟨l, some c⟩

/-! ## Reset -/

/-- What `resetCommand` returns. -/
structure ResetResult where
  exitCode : Nat
  code : JsString
  printed : List JsString

def refuse (code : JsString) : ResetResult := ⟨2, code, []⟩

/-- `REF_FRESH_MS` -/
def refFreshMs : Int := 600000

/-- `GRACE_DELAYS_MS` -/
def graceDelaysMs : List Nat := [0, 30000, 120000]

/-- `restoreRef({ ctx, record, prNumber })` -/
def restoreRef (record : RunRecord) (prNumber : Nat) : Retirement ResetResult := do
  let oid ← validateOid (record.lastPushedOid.getD [])
  let r ← (call (.pushRestore oid)).tryCatch fun _ => pure ⟨false, []⟩
  let loaded ← call .load
  updateIf loaded (.prAfterDelete prNumber r.ok)
  (call .labelNeedsHuman).tryCatch fun _ => pure ()
  pure (refuse (if r.ok then js "pr-after-delete-restored" else js "pr-after-delete-unrestored"))

def pause (delay : Nat) : Retirement Unit := if delay = 0 then pure () else call (.sleep delay)

/-- The watch after the remote branch was deleted. -/
def watch (record : RunRecord) (known : List Nat) (lastPushedOid : JsString) :
    List Nat → Retirement ResetResult
  | [] => pure ⟨0, js "remote-deleted", []⟩
  | delay :: rest => do
    pause delay
    match (← call .allPrs).filter (!known.contains ·) with
    | seen :: _ =>
      let loaded ← call .load
      restoreRef (loaded.getD record) seen
    | [] => watch record known lastPushedOid rest

/-- The last push is too fresh for its branch to be deleted, or has no time. -/
def tooFresh (ctx : Context) (record : RunRecord) : Retirement Bool :=
  match ctx.parseDate (record.lastPushedAt.getD []) with
  | none => pure true
  | some pushed => do
    let now ← call .now
    pure (now - pushed < refFreshMs)

/-- The delete of the remote branch, from the moment its tip was compared. -/
def deleteRemote (record : RunRecord) (lastPushedOid : JsString) : Retirement ResetResult := do
  let known ← call .allPrs
  call (.update (.remoteDeleted known))
  let push ← ((call (.pushDelete lastPushedOid)).bind fun r => pure (Except.ok r)).tryCatch fun e =>
    pure (Except.error e)
  match push with
  | .error e =>
    let _ ← markOrphan (e.code.getD (js "push-failed"))
    pure (refuse (e.code.getD (js "push-failed")))
  | .ok push =>
    if !push.ok then
      let _ ← markOrphan (js "lease-failed")
      pure (refuse (js "lease-failed"))
    else watch record known lastPushedOid graceDelaysMs

/-- `stepR({ ctx, record, sleep })` -/
def stepR (ctx : Context) (record : RunRecord) : Retirement ResetResult :=
  if record.lastPushedOid.getD [] = [] then pure (refuse (js "reset-never-pushed"))
  else do
    let lastPushedOid ← validateOid (record.lastPushedOid.getD [])
    if ← tooFresh ctx record then pure (refuse (js "ref-too-fresh"))
    else
      let observed ← call .observedUrl
      if observed ≠ some (ctx.observedFetch.getD ctx.remoteFetchUrl) then
        let _ ← markOrphan (js "remote-url-changed")
        pure (refuse (js "remote-url-changed"))
      else
        let prs ← call .openPrs
        if prs ≠ [] then
          let _ ← markOrphan (js "open-pr")
          pure (refuse (js "orphan"))
        else
          let remote ← (remoteRefOid.bind fun r => pure (Except.ok r)).tryCatch fun e => pure (Except.error e)
          match remote with
          | .error e =>
            let _ ← markOrphan (e.code.getD (js "ls-remote-failed"))
            pure (refuse (e.code.getD (js "ls-remote-failed")))
          | .ok remote =>
            if remote ≠ some lastPushedOid then
              let _ ← markOrphan (js "remote-tip-differs")
              pure (refuse (js "orphan"))
            else deleteRemote record lastPushedOid

/-- `resetRecordless({ ctx, issue, oid, deleteRemote, record })` -/
def resetRecordless (ctx : Context) (path oid : JsString) (deleteRemote : Bool)
    (record : Option RunRecord) : Retirement ResetResult := do
  let marker ← call .marker
  let marker := (marker.map trim).getD []
  if marker = [] then pure (refuse (js "reset-not-owned"))
  else
    match ← localBranchTip with
    | none => pure (refuse (js "reset-nothing-to-delete"))
    | some tip =>
      if oid ≠ tip then pure (refuse (js "reset-oid-mismatch"))
      else
        let command := deletionCommand ctx tip
        let prs ← call .openPrs
        if prs ≠ [] then pure (refuse (js "reset-open-pr"))
        else
          let synthetic : RunRecord := ⟨some marker, some tip, record.bind (·.baseOid), none, none, none⟩
          let l ← retireRun ctx path synthetic ⟨some tip, false, true, false⟩
          match l.step with
          | .orphan _ => pure (refuse (js "orphan"))
          | _ =>
            match record with
            | some record =>
              let loaded ← call .load
              let _ ← canonicalDeletion ctx path (loaded.getD record)
              recordlessEnd command
            | none => recordlessEnd command
where
  recordlessEnd (command : JsString) : Retirement ResetResult := do
    let remote ← remoteRefOid
    if deleteRemote then pure ⟨2, js "reset-recordless-remote", [command]⟩
    else pure ⟨0, js "local-deleted", if remote.isSome then [command] else []⟩

/-- `tip != null || existsSync(wt)` -/
def anythingLocal (tip : Option JsString) : Retirement Bool :=
  if tip.isSome then pure true else call (.onDisk .issue)

/-- The reset of a branch that is the record's own, after the remote one if that was asked for. -/
def resetOwned (ctx : Context) (path : JsString) (record : RunRecord) (tip : Option JsString)
    (deleteRemote : Bool) : Retirement ResetResult := do
  let there ← anythingLocal tip
  if there then
    let loaded ← call .load
    let l ← retireRun ctx path (loaded.getD record) ⟨tip, true, true, false⟩
    match l.step with
    | .orphan _ => pure (refuse (js "orphan"))
    | _ => finish
  else finish
where
  finish : Retirement ResetResult :=
    if deleteRemote then pure ⟨0, js "remote-deleted", []⟩
    else do
      let loaded ← call .load
      match ← canonicalDeletion ctx path (loaded.getD record) with
      | .remotePending _ command => pure ⟨0, js "remote-pending", [command]⟩
      | .localPresent _ => pure ⟨0, js "local-present", []⟩
      | .deleted => pure ⟨0, js "deleted", []⟩

/-- `resetCommand({ ctx, issue, confirmDelete, deleteRemote, … })`, without `--attempts`. -/
def resetCommand (ctx : Context) (path : JsString) (confirmDelete : Option JsString)
    (deleteRemote : Bool) : Retirement ResetResult :=
  if confirmDelete.getD [] = [] then pure (refuse (js "reset-needs-oid"))
  else do
    let oid ← validateOid (confirmDelete.getD [])
    let record ← call .load
    let marker ← call .marker
    let tip ← localBranchTip
    let owned := record.filter fun record =>
      tip.isNone || decide ((marker.map trim).filter (· ≠ []) = record.token)
    match owned with
    | none => resetRecordless ctx path oid deleteRemote record
    | some record =>
      match tip.orElse fun _ => record.lastPushedOid.filter (· ≠ []) with
      | none => pure (refuse (js "reset-nothing-to-delete"))
      | some expected =>
        if oid ≠ expected then pure (refuse (js "reset-oid-mismatch"))
        else
          let prs ← call .openPrs
          if prs ≠ [] then pure (refuse (js "reset-open-pr"))
          else if deleteRemote then
            let remote ← stepR ctx record
            if remote.exitCode ≠ 0 then pure remote else resetOwned ctx path record tip true
          else resetOwned ctx path record tip false

end Adlc.Autopilot.Retire
