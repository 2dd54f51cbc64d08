import Adlc.Framework.SharedFiles
import Adlc.ContextHandoff.Brief
import Adlc.ContextHandoff.DenyMarker

namespace Adlc.ContextHandoff

open Adlc.Framework Adlc.Tickets

variable {ν : Type} [JsNumber ν]

/-! ## Files and calls -/

/-- The files of one session that a consumption reads and writes. -/
inductive HandoffFile where
  | capture (session : JsString)
  | final (session : JsString)
  | marker (session : JsString)
  | resumeAuth (session : JsString)
  deriving DecidableEq

abbrev HandoffDisk := Shared HandoffFile

/-- A place of a command that calls the file system. -/
inductive Call where
  /-- `readDenyMarker` and `readFinal` before anything is written -/
  | preflight | priorAuth | preflightFinal
  /-- the first `markerUnchanged` -/
  | claim
  | priorCapture | writeCapture | readBack
  | priorFinal | priorMarker | writeFinal
  /-- `ensureDenyMarker` -/
  | ensure | quarantine | freshMarker | freshCheck | sentinel
  | bindRead | casRead | rebindRead | rebind
  | boundRead
  | mint | mintRead | evidence | recheck | consume
  | undoCapture | undoFinal | undoMarker | undoAuth
  deriving DecidableEq

inductive Step where
  | looks | sizes | looksAgain | reads | writes | removes
  deriving DecidableEq

/-- What a command runs in. -/
structure ConsumeEnv (ν : Type) where
  /-- What happens at each call. -/
  turns : Call → Step → Turn HandoffFile
  /-- `acquireSessionLock` of the denied session -/
  locked : Bool
  /-- `ADLC_MANIFEST_KEY` -/
  key : Option JsString
  /-- `signResumeAuth` -/
  signResumeAuth : JsString → Json ν → JsString
  hashCaptureBody : JsString → JsString
  /-- A digest is 64 hexadecimal digits. -/
  hashCaptureBody_ne : ∀ body, hashCaptureBody body ≠ []
  hashFinalBody : Json ν → JsString
  now : Call → JsString
  writer : Json ν

inductive ConsumeFault where
  | missingRecord | notOpen | denierId | consumerId | sameSession | unbound | otherDeny | unverified
  deriving DecidableEq

/-- Why a command reports failure. -/
inductive HandoffFault where
  | sessionId
  | alreadyAuthorized
  | markerUnavailable (fault : MarkerFault)
  | finalUnavailable
  | finalUnbound
  | noTicket
  | otherTicket
  | notOpen
  | unsafePrompt
  | consume (fault : ConsumeFault)
  | noKey
  | locked
  | markerUnreadable (fault : MarkerFault)
  | markerChanged
  | captureWrite
  | captureMismatch
  | finalWrite
  | ensure
  | markerAfterEnsure (fault : MarkerFault)
  | rebind
  | boundUnreadable (fault : MarkerFault)
  | authWrite
  | authReadBack
  | evidence
  | persist
  deriving DecidableEq

/-! ## Undoing -/

/-- Nothing stands for a file that is missing or cannot be read. -/
def currentBytes (turn : Step → Turn HandoffFile) (f : HandoffFile) (disk : HandoffDisk) :
    Option JsString × HandoffDisk :=
  let found := existsSync (turn .looks) f disk
  if found.1 then readFileSync (turn .reads) f found.2 else (none, found.2)

/-- Whether the file was left as it was found, and the disk after it. -/
def restoreIfOurs (turn : Step → Turn HandoffFile) (f : HandoffFile) (wroteBytes priorBytes : Option JsString)
    (disk : HandoffDisk) : Bool × HandoffDisk :=
  let now := currentBytes turn f disk
  if now.1 ≠ wroteBytes then (true, now.2)
  else
    match priorBytes with
    | none =>
      if now.1 = none then (false, now.2)
      else
        let removed := unlinkSync (turn .removes) f now.2
        (!removed.1, removed.2)
    | some text =>
      let restored := writeFileSync (turn .writes) f text now.2
      (!restored.1, restored.2)

/-- `removeResumeAuth` -/
def removeResumeAuth (turn : Step → Turn HandoffFile) (session : JsString) (disk : HandoffDisk) :
    HandoffDisk :=
  let found := existsSync (turn .looks) (.resumeAuth session) disk
  if found.1 then (unlinkSync (turn .removes) (.resumeAuth session) found.2).2 else found.2

/-! ## Markers -/

def readDenyMarker (turn : Step → Turn HandoffFile) (session : JsString) (disk : HandoffDisk) :
    Except MarkerFault (Json ν) × HandoffDisk :=
  let found := existsSync (turn .looks) (.marker session) disk
  if found.1 then
    let raw := readFileSync (turn .reads) (.marker session) found.2
    ((match raw.1 with
      | none => .error .unreadableMarker
      | some text => readMarkerText session text), raw.2)
  else (.error .missingMarker, found.2)

def markerUnchanged (turn : Step → Turn HandoffFile) (session : JsString) (expected : Json ν)
    (disk : HandoffDisk) : Except HandoffFault (Json ν) × HandoffDisk :=
  let fresh := readDenyMarker turn session disk
  match fresh.1 with
  | .error fault => (.error (.markerUnreadable fault), fresh.2)
  | .ok r =>
    if strictEq (r.get? (js "status")) (expected.get? (js "status")) &&
        strictEq (r.get? (js "ticket_id")) (some (normalizeBindField (expected.get? (js "ticket_id")))) &&
        strictEq (r.get? (js "content_hash"))
          (some (normalizeBindField (expected.get? (js "content_hash")))) then
      (.ok r, fresh.2)
    else (.error .markerChanged, fresh.2)

/-- The members that `{ ...record }` copies; a deny record is an object. -/
def spread : Json ν → Members ν
  | .obj ms => ms
  | _ => []

/-- The pretty-printed text of a value, with its line end. -/
def jsonFile (value : Json ν) : JsString := stringify2 value ++ [10]

/-- The text that was written, or nothing. -/
def writeDenyRecord (turn : Turn HandoffFile) (record : Json ν) (disk : HandoffDisk) :
    Option JsString × HandoffDisk :=
  match safeSessionId? (record.get? (js "session_id")) with
  | none => (none, disk)
  | some session =>
    if strictEq (record.get? (js "status")) (some (.str (js "open"))) ||
        strictEq (record.get? (js "status")) (some (.str (js "consumed"))) then
      let normalized := Json.obj ((spread record).setAll
        [(js "ticket_id", normalizeBindField (record.get? (js "ticket_id"))),
          (js "content_hash", normalizeBindField (record.get? (js "content_hash"))),
          (js "schema", match orNull (record.get? (js "schema")) with
            | .null => .num (JsNumber.ofNat 1)
            | schema => schema)])
      let wrote := writeTextAtomic turn (.marker session) (jsonFile normalized) disk
      (if wrote.1 then some (jsonFile normalized) else none, wrote.2)
    else (none, disk)

def openRecord (record : Json ν) : Bool := strictEq (record.get? (js "status")) (some (.str (js "open")))

/-- What a deny is bound to. -/
structure Bind where
  ticketId : JsString
  contentHash : JsString
  contentKind : JsString
  host : JsString

/-- The record with the bind put in; the kind describes the hash and goes with it. -/
def boundRecord (record : Json ν) (bind : Bind) : Json ν :=
  let next := (spread record).setAll
    [(js "ticket_id", normalizeBindField (some (.str bind.ticketId))),
      (js "content_hash", normalizeBindField (some (.str bind.contentHash))),
      (js "status", .str (js "open"))]
  let kind : Json ν := normalizeBindField (some (.str bind.contentKind))
  let next := match kind with
    | .null => next.filter fun member => member.1 ≠ js "content_kind"
    | kind => Members.set next (js "content_kind") kind
  .obj (Members.set next (js "host") (.str bind.host))

/-- `repairDenyBinds`, with a kind and a host. -/
def repairDenyBinds (env : ConsumeEnv ν) (session : JsString) (bind : Bind) (disk : HandoffDisk) :
    Option JsString × HandoffDisk :=
  let existing := readDenyMarker (env.turns .rebindRead) session disk
  match (existing.1 : Except MarkerFault (Json ν)) with
  | .error _ => (none, existing.2)
  | .ok record =>
    if openRecord record && isBoundField (some (.str bind.ticketId) : Option (Json ν)) &&
        isBoundField (some (.str bind.contentHash) : Option (Json ν)) then
      writeDenyRecord (env.turns .rebind .writes) (boundRecord record bind) existing.2
    else (none, existing.2)

/-- The marker is written anew. -/
def freshMarker (env : ConsumeEnv ν) (opts : MarkerOpts ν) (disk : HandoffDisk) : Bool × HandoffDisk :=
  let wrote := writeTextAtomic (env.turns .freshMarker .writes) (.marker opts.sessionId)
    (jsonFile opts.record) disk
  if wrote.1 then
    let check := readDenyMarker (env.turns .freshCheck) opts.sessionId wrote.2
    match (check.1 : Except MarkerFault (Json ν)) with
    | .error _ => (false, check.2)
    | .ok _ => (decide ((env.turns .sentinel .writes).outcome = .done), check.2)
  else (false, wrote.2)

/-- `ensureDenyMarker`: whether it returned ok. -/
def ensureDenyMarker (env : ConsumeEnv ν) (opts : MarkerOpts ν) (disk : HandoffDisk) : Bool × HandoffDisk :=
  let existing := readDenyMarker (env.turns .ensure) opts.sessionId disk
  match (existing.1 : Except MarkerFault (Json ν)) with
  | .ok _ => (decide ((env.turns .sentinel .writes).outcome = .done), existing.2)
  | .error .missingMarker => freshMarker env opts existing.2
  | .error .corruptJson | .error .invalidShape =>
    -- the junk is renamed into `quarantine`
    let found := existsSync (env.turns .quarantine .looks) (.marker opts.sessionId) existing.2
    if !found.1 then freshMarker env opts found.2
    else
      let again := existsSync (env.turns .quarantine .looksAgain) (.marker opts.sessionId) found.2
      if !again.1 then freshMarker env opts again.2
      else
        let moved := unlinkSync (env.turns .quarantine .removes) (.marker opts.sessionId) again.2
        if moved.1 then freshMarker env opts moved.2 else (false, moved.2)
  | .error _ => (false, existing.2)

/-! ## The final checkpoint -/

def buildFinal (env : ConsumeEnv ν) (session : JsString) (bind : Bind) (now : JsString) : Json ν :=
  let draft : Members ν := [(js "schema", .num (JsNumber.ofNat 1)), (js "session_id", .str session),
    (js "ticket_id", normalizeBindField (some (.str bind.ticketId))), (js "written_at", .str now),
    (js "host", .str (if trim bind.host ≠ [] then trim bind.host else js "local"))]
  let hash : Json ν := match (normalizeBindField (some (.str bind.contentHash)) : Json ν) with
    | .null => .str (env.hashFinalBody (.obj draft))
    | provided => provided
  match (normalizeBindField (some (.str bind.contentKind)) : Json ν) with
  | .null => .obj (draft ++ [(js "content_hash", hash)])
  | kind => .obj (draft ++ [(js "content_hash", hash), (js "content_kind", kind)])

/-- `readFinal` -/
def readFinal (turn : Step → Turn HandoffFile) (session : JsString) (disk : HandoffDisk) :
    Option (Json ν) × HandoffDisk :=
  let text := currentBytes turn (.final session) disk
  let final : Option (Json ν) := match text.1.bind parseJson with
    | some (.obj ms) =>
      if strictEq ((Json.obj ms).get? (js "schema")) (some (.num (JsNumber.ofNat 1))) &&
          strictEq ((Json.obj ms).get? (js "session_id")) (some (.str session)) then
        some (.obj ms)
      else none
    | _ => none
  (final, text.2)

/-- What `writeCheckpoint` returns for its undoing. -/
structure Checkpoint where
  priorFinalBytes : Option JsString
  wroteFinalBytes : JsString
  /-- The text before and after, where the marker was rebound. -/
  rebound : Option (Option JsString × JsString)

/-- Whether the marker is bound to something else. -/
def isStale (record : Json ν) (bind : Bind) : Bool :=
  !(strictEq (record.get? (js "ticket_id")) (some (normalizeBindField (some (.str bind.ticketId)))) &&
    strictEq (record.get? (js "content_hash")) (some (normalizeBindField (some (.str bind.contentHash)))) &&
    strictEq (some (orNull (record.get? (js "content_kind"))))
      (some (normalizeBindField (some (.str bind.contentKind)))))

def undoFinal (env : ConsumeEnv ν) (session wrote : JsString) (prior : Option JsString)
    (disk : HandoffDisk) : HandoffDisk :=
  (restoreIfOurs (env.turns .undoFinal) (.final session) (some wrote) prior disk).2

/-- `writeCheckpoint`, after the final was written. -/
def bindCheckpoint (env : ConsumeEnv ν) (session : JsString) (bind : Bind) (expected : Json ν)
    (checkpoint : Checkpoint) (priorRecordBytes : Option JsString) (disk : HandoffDisk) :
    Except HandoffFault Checkpoint × HandoffDisk :=
  let undo := undoFinal env session checkpoint.wroteFinalBytes checkpoint.priorFinalBytes
  let deny := ensureDenyMarker env
    { sessionId := session
      ticketId := some (.str bind.ticketId)
      contentHash := some (.str bind.contentHash)
      host := bind.host
      since := env.now .ensure
      writer := env.writer } disk
  if deny.1 then
    let marker := readDenyMarker (env.turns .bindRead) session deny.2
    match (marker.1 : Except MarkerFault (Json ν)) with
    | .error fault => (.error (.markerAfterEnsure fault), undo marker.2)
    | .ok record =>
      if isStale record bind then
        let unchanged := markerUnchanged (env.turns .casRead) session expected marker.2
        match unchanged.1 with
        | .error fault => (.error fault, undo unchanged.2)
        | .ok _ =>
          let rebound := repairDenyBinds env session bind unchanged.2
          match rebound.1 with
          | none => (.error .rebind, undo rebound.2)
          | some text => (.ok { checkpoint with rebound := some (priorRecordBytes, text) }, rebound.2)
      else (.ok checkpoint, marker.2)
  else (.error .ensure, undo deny.2)

def writeCheckpoint (env : ConsumeEnv ν) (session : JsString) (bind : Bind) (expected : Json ν)
    (disk : HandoffDisk) : Except HandoffFault Checkpoint × HandoffDisk :=
  let priorFinal := currentBytes (env.turns .priorFinal) (.final session) disk
  let priorRecord := currentBytes (env.turns .priorMarker) (.marker session) priorFinal.2
  let text := jsonFile (buildFinal env session bind (env.now .writeFinal))
  let written := writeTextAtomic (env.turns .writeFinal .writes) (.final session) text priorRecord.2
  if written.1 then
    bindCheckpoint env session bind expected ⟨priorFinal.1, text, none⟩ priorRecord.1 written.2
  else (.error .finalWrite, written.2)

def rollbackCheckpoint (env : ConsumeEnv ν) (session : JsString) (checkpoint : Checkpoint)
    (disk : HandoffDisk) : HandoffDisk :=
  let disk := undoFinal env session checkpoint.wroteFinalBytes checkpoint.priorFinalBytes disk
  match checkpoint.rebound with
  | none => disk
  | some (prior, wrote) =>
    (restoreIfOurs (env.turns .undoMarker) (.marker session) (some wrote) prior disk).2

/-! ## Consuming -/

def consumeDenyRecord (record : Json ν) (consumer : JsString) (resumeAuth : Option (Json ν))
    (now : JsString) : Except ConsumeFault (Json ν) :=
  if !(truthy record && isObject record) then .error .missingRecord
  else if !openRecord record then .error .notOpen
  else if (safeSessionId? (record.get? (js "session_id"))).isNone then .error .denierId
  else if !isSafeSessionId consumer then .error .consumerId
  else if strictEq (some (.str consumer)) (record.get? (js "session_id")) then .error .sameSession
  else if !(isBoundField (record.get? (js "content_hash")) && isBoundField (record.get? (js "ticket_id"))) then
    .error .unbound
  else if !(isTruthy resumeAuth && strictEq (fieldOf resumeAuth "deny_session_id")
      (record.get? (js "session_id"))) then .error .otherDeny
  else if !authorized ⟨some record, resumeAuth, some (.bool false), false, none⟩ then .error .unverified
  else .ok (.obj ((spread record).setAll [(js "status", .str (js "consumed")),
    (js "consumed_by", .str consumer), (js "consumed_at", .str now)]))

/-- The binds of a resume-auth. -/
structure Authorization where
  ticketId : JsString
  contentHash : JsString
  denySessionId : JsString
  consumerSessionId : JsString

def Authorization.fields (auth : Authorization) : Members ν :=
  [(js "ticket_id", .str auth.ticketId), (js "content_hash", .str auth.contentHash),
    (js "deny_session_id", .str auth.denySessionId),
    (js "consumer_session_id", .str auth.consumerSessionId)]

def Authorization.result (auth : Authorization) (verified : Bool) : Json ν :=
  .obj (auth.fields ++ [(js "verified", .bool verified)])

def buildResumeAuthDoc (env : ConsumeEnv ν) (key : JsString) (auth : Authorization) : Json ν :=
  .obj ((js "schema", .num (JsNumber.ofNat 1)) :: auth.fields ++
    [(js "written_at", .str (env.now .mint)), (js "sig", .str (env.signResumeAuth key (.obj auth.fields)))])

def maxResumeAuthBytes : Nat := 4096

/-- The string in a member. -/
def str? (value : Json ν) (key : String) : Option JsString :=
  match value.get? (js key) with
  | some (.str s) => some s
  | _ => none

/-- `readResumeAuth` of a document -/
def readAuthDoc (env : ConsumeEnv ν) (session : JsString) (key : JsString) (doc : Json ν) :
    Option (Json ν) :=
  if !strictEq (doc.get? (js "schema")) (some (.num (JsNumber.ofNat 1))) then none
  else
    match str? doc "ticket_id", str? doc "content_hash", str? doc "deny_session_id",
        str? doc "consumer_session_id" with
    | some ticket, some hash, some deny, some consumer =>
      if consumer ≠ session then none
      else
        let auth : Authorization := ⟨ticket, hash, deny, consumer⟩
        let sig := (str? doc "sig").getD []
        let expected := env.signResumeAuth key (.obj auth.fields)
        some (auth.result (decide (sig ≠ [] ∧ key ≠ [] ∧ utf8Encode sig = utf8Encode expected)))
    | _, _, _, _ => none

def readResumeAuth (env : ConsumeEnv ν) (session key : JsString) (disk : HandoffDisk) :
    Option (Json ν) × HandoffDisk :=
  let text := readFileSync (env.turns .mintRead .reads) (.resumeAuth session) disk
  let small := ((text.2.bytes (.resumeAuth session)).getD []).length ≤ maxResumeAuthBytes
  let doc : Option (Json ν) := match (if small then text.1 else none).bind parseJson with
    | some (.obj ms) => readAuthDoc env session key (.obj ms)
    | _ => none
  (doc, text.2)

def evidenceOk (env : ConsumeEnv ν) (disk : HandoffDisk) : Bool × HandoffDisk :=
  (decide ((env.turns .evidence .writes).outcome = .done), (env.turns .evidence .writes).before disk)

/-! ## The commands -/

structure ResumeOpts where
  consumer : JsString
  denySession : JsString
  write : Bool

/-- What `resume --write` does once the deny is claimed. -/
def resumeClaimed (env : ConsumeEnv ν) (opts : ResumeOpts) (key : JsString) (auth : Authorization)
    (record : Json ν) (disk : HandoffDisk) : Except HandoffFault Unit × HandoffDisk :=
  let rollbackAuth := removeResumeAuth (env.turns .undoAuth) opts.consumer
  let wrote := writeTextAtomic (env.turns .mint .writes) (.resumeAuth opts.consumer)
    (jsonFile (buildResumeAuthDoc env key auth)) disk
  if wrote.1 then
    let verified := readResumeAuth env opts.consumer key wrote.2
    if strictEq (fieldOf verified.1 "verified") (some (.bool true)) then
      match consumeDenyRecord record opts.consumer verified.1 (env.now .consume) with
      | .error fault => (.error (.consume fault), rollbackAuth verified.2)
      | .ok consumed =>
        let recorded := evidenceOk env verified.2
        if recorded.1 then
          let stillOurs := markerUnchanged (env.turns .recheck) opts.denySession record recorded.2
          match stillOurs.1 with
          | .error fault => (.error fault, rollbackAuth stillOurs.2)
          | .ok _ =>
            let persisted := writeDenyRecord (env.turns .consume .writes) consumed stillOurs.2
            if persisted.1.isSome then (.ok (), persisted.2)
            else (.error .persist, rollbackAuth persisted.2)
        else (.error .evidence, rollbackAuth recorded.2)
    else (.error .authReadBack, rollbackAuth verified.2)
  else (.error .authWrite, wrote.2)

/-- What a string is bound to, or nothing. -/
def bound? (value : Option (Json ν)) : Option JsString := (nonBlank? value).map trim

/-- What `resume` or `continue` goes on with under the lock of the denied session. -/
structure Claim (ν : Type) where
  key : JsString
  ticketId : JsString
  contentHash : JsString
  record : Json ν

/-- `runResume`, up to the write of the resume-auth; nothing without `--write`. -/
def resumeClaim (env : ConsumeEnv ν) (opts : ResumeOpts) (disk : HandoffDisk) :
    Except HandoffFault (Option (Claim ν)) × HandoffDisk :=
  if !(isSafeSessionId opts.consumer && isSafeSessionId opts.denySession) then (.error .sessionId, disk)
  else
    let marker := readDenyMarker (env.turns .preflight) opts.denySession disk
    match (marker.1 : Except MarkerFault (Json ν)) with
    | .error fault => (.error (.markerUnavailable fault), marker.2)
    | .ok record =>
      let final := readFinal (env.turns .preflightFinal) opts.denySession marker.2
      match (final.1 : Option (Json ν)) with
      | none => (.error .finalUnavailable, final.2)
      | some document =>
        match bound? (document.get? (js "content_hash")), (bound? (document.get? (js "ticket_id"))).or
            (bound? (record.get? (js "ticket_id"))) with
        | none, _ => (.error .finalUnbound, final.2)
        | _, none => (.error .finalUnbound, final.2)
        | some contentHash, some ticketId =>
          let auth : Authorization := ⟨ticketId, contentHash, opts.denySession, opts.consumer⟩
          match consumeDenyRecord record opts.consumer (some (auth.result true)) (env.now .preflight) with
          | .error fault => (.error (.consume fault), final.2)
          | .ok _ =>
            if !opts.write then (.ok none, final.2)
            else
              match env.key with
              | none => (.error .noKey, final.2)
              | some key =>
                if !env.locked then (.error .locked, final.2)
                else
                  let claimed := markerUnchanged (env.turns .claim) opts.denySession record final.2
                  match claimed.1 with
                  | .error fault => (.error fault, claimed.2)
                  | .ok _ => (.ok (some ⟨key, ticketId, contentHash, record⟩), claimed.2)

/-- `runResume` -/
def resume (env : ConsumeEnv ν) (opts : ResumeOpts) (disk : HandoffDisk) :
    Except HandoffFault Unit × HandoffDisk :=
  let claim := resumeClaim env opts disk
  match claim.1 with
  | .error fault => (.error fault, claim.2)
  | .ok none => (.ok (), claim.2)
  | .ok (some claimed) => resumeClaimed env opts claimed.key
      ⟨claimed.ticketId, claimed.contentHash, opts.denySession, opts.consumer⟩ claimed.record claim.2

structure ContinueOpts where
  denySession : JsString
  successor : JsString
  host : JsString
  /-- The ticket that the flag or the pointer selects; `none` inside where it cannot be resolved. -/
  selected : Option (Option JsString)
  /-- What `composeBrief` returned. -/
  brief : JsString
  write : Bool

def authorizeSuccessor (env : ConsumeEnv ν) (key : JsString) (auth : Authorization) (expected : Json ν)
    (disk : HandoffDisk) : Except HandoffFault Unit × HandoffDisk :=
  let text := jsonFile (buildResumeAuthDoc env key auth)
  let wrote := writeTextExclusive (env.turns .mint .writes) (.resumeAuth auth.consumerSessionId) text disk
  let rollback := fun disk : HandoffDisk =>
    (restoreIfOurs (env.turns .undoAuth) (.resumeAuth auth.consumerSessionId) (some text) none disk).2
  match wrote.1 with
  | .alreadyThere => (.error .alreadyAuthorized, wrote.2)
  | .failed => (.error .authWrite, wrote.2)
  | .created =>
    let resumeAuth := readResumeAuth env auth.consumerSessionId key wrote.2
    if strictEq (fieldOf resumeAuth.1 "verified") (some (.bool true)) &&
        strictEq (fieldOf resumeAuth.1 "ticket_id") (some (.str auth.ticketId)) &&
        strictEq (fieldOf resumeAuth.1 "content_hash") (some (.str auth.contentHash)) &&
        strictEq (fieldOf resumeAuth.1 "deny_session_id") (some (.str auth.denySessionId)) &&
        strictEq (fieldOf resumeAuth.1 "consumer_session_id") (some (.str auth.consumerSessionId)) then
      match consumeDenyRecord expected auth.consumerSessionId resumeAuth.1 (env.now .consume) with
      | .error fault => (.error (.consume fault), rollback resumeAuth.2)
      | .ok consumed =>
        let recorded := evidenceOk env resumeAuth.2
        if recorded.1 then
          let stillOurs := markerUnchanged (env.turns .recheck) auth.denySessionId expected recorded.2
          match stillOurs.1 with
          | .error fault => (.error fault, rollback stillOurs.2)
          | .ok _ =>
            let persisted := writeDenyRecord (env.turns .consume .writes) consumed stillOurs.2
            if persisted.1.isSome then (.ok (), persisted.2)
            else (.error .persist, rollback persisted.2)
        else (.error .evidence, rollback recorded.2)
    else (.error .authReadBack, rollback resumeAuth.2)

/-- `readVerifiedCapture`: whether what is on disk has the hash. -/
def readVerifiedCapture (env : ConsumeEnv ν) (session expectedHash : JsString) (disk : HandoffDisk) :
    Bool × HandoffDisk :=
  let found := existsSync (env.turns .readBack .looks) (.capture session) disk
  let size := (((env.turns .readBack .sizes).before found.2).bytes (.capture session)).map List.length
  let sized := (env.turns .readBack .sizes).before found.2
  let again := existsSync (env.turns .readBack .looksAgain) (.capture session) sized
  let text := readFileSync (env.turns .readBack .reads) (.capture session) again.2
  if expectedHash = [] then (false, disk)
  else if !found.1 then (false, found.2)
  else if (env.turns .readBack .sizes).outcome ≠ .done ∨ !(size.any (· ≤ maxCaptureBytes)) then (false, sized)
  else if !again.1 then (false, again.2)
  else (text.1.any fun body => env.hashCaptureBody body = expectedHash, text.2)

/-- `writeVerifiedCapture`: what was stored, where it was. -/
def writeVerifiedCapture (env : ConsumeEnv ν) (session body : JsString) (disk : HandoffDisk) :
    Except HandoffFault JsString × HandoffDisk :=
  let stored := capCaptureBody body
  let wrote := writeTextAtomic (env.turns .writeCapture .writes) (.capture session) stored disk
  if wrote.1 then
    let verified := readVerifiedCapture env session (env.hashCaptureBody stored) wrote.2
    if verified.1 then (.ok stored, verified.2) else (.error .captureMismatch, verified.2)
  else (.error .captureWrite, wrote.2)

def rollbackCapture (env : ConsumeEnv ν) (session : JsString) (wrote prior : Option JsString)
    (disk : HandoffDisk) : HandoffDisk :=
  (restoreIfOurs (env.turns .undoCapture) (.capture session) wrote prior disk).2

/-- What `continue --write` does once the deny is claimed. -/
def continueClaimed (env : ConsumeEnv ν) (opts : ContinueOpts) (claim : Claim ν) (disk : HandoffDisk) :
    Except HandoffFault Unit × HandoffDisk :=
  let deny := opts.denySession
  let prior := currentBytes (env.turns .priorCapture) (.capture deny) disk
  let capture := writeVerifiedCapture env deny (capCaptureBody opts.brief) prior.2
  match capture.1 with
  | .error fault => (.error fault, rollbackCapture env deny none prior.1 capture.2)
  | .ok stored =>
    let rollback := rollbackCapture env deny (some stored) prior.1
    let bind : Bind := ⟨claim.ticketId, claim.contentHash, js "capture", opts.host⟩
    let checkpoint := writeCheckpoint env deny bind claim.record capture.2
    match checkpoint.1 with
    | .error fault => (.error fault, rollback checkpoint.2)
    | .ok made =>
      let undoFiles := fun disk => rollback (rollbackCheckpoint env deny made disk)
      let bound := readDenyMarker (env.turns .boundRead) deny checkpoint.2
      match (bound.1 : Except MarkerFault (Json ν)) with
      | .error fault => (.error (.boundUnreadable fault), undoFiles bound.2)
      | .ok expected =>
        let auth : Authorization := ⟨claim.ticketId, claim.contentHash, deny, opts.successor⟩
        let authorized := authorizeSuccessor env claim.key auth expected bound.2
        match authorized.1 with
        | .error fault => (.error fault, undoFiles authorized.2)
        | .ok _ => (.ok (), authorized.2)

/-- `resolveContinueTicket` -/
def resolveContinueTicket (record : Json ν) (selected : Option (Option JsString)) :
    Except HandoffFault JsString :=
  match bound? (record.get? (js "ticket_id")), selected with
  | none, _ => .error .noTicket
  | _, some none => .error .otherTicket
  | some bound, none => .ok bound
  | some bound, some (some ticket) => if ticket = bound then .ok bound else .error .otherTicket

/-- `runContinue`, up to the snapshot of the capture; nothing without `--write`. -/
def continueClaim (env : ConsumeEnv ν) (opts : ContinueOpts) (disk : HandoffDisk) :
    Except HandoffFault (Option (Claim ν)) × HandoffDisk :=
  if !(isSafeSessionId opts.denySession && isSafeSessionId opts.successor) then (.error .sessionId, disk)
  else if opts.successor = opts.denySession then (.error .alreadyAuthorized, disk)
  else
    let held := existsSync (env.turns .priorAuth .looks) (.resumeAuth opts.successor) disk
    if held.1 then (.error .alreadyAuthorized, held.2)
    else
      let marker := readDenyMarker (env.turns .preflight) opts.denySession held.2
      match (marker.1 : Except MarkerFault (Json ν)) with
      | .error fault => (.error (.markerUnavailable fault), marker.2)
      | .ok record =>
        if !openRecord record then (.error .notOpen, marker.2)
        else
          match resolveContinueTicket record opts.selected with
          | .error fault => (.error fault, marker.2)
          | .ok ticketId =>
            if !(isPromptSafeId opts.denySession && isPromptSafeId ticketId) then
              (.error .unsafePrompt, marker.2)
            else if !opts.write then (.ok none, marker.2)
            else
              match env.key with
              | none => (.error .noKey, marker.2)
              | some key =>
                if !env.locked then (.error .locked, marker.2)
                else
                  let claimed := markerUnchanged (env.turns .claim) opts.denySession record marker.2
                  match claimed.1 with
                  | .error fault => (.error fault, claimed.2)
                  | .ok _ => (.ok (some ⟨key, ticketId, env.hashCaptureBody (capCaptureBody opts.brief),
                      record⟩), claimed.2)

/-- `runContinue` -/
def continue_ (env : ConsumeEnv ν) (opts : ContinueOpts) (disk : HandoffDisk) :
    Except HandoffFault Unit × HandoffDisk :=
  let claim := continueClaim env opts disk
  match claim.1 with
  | .error fault => (.error fault, claim.2)
  | .ok none => (.ok (), claim.2)
  | .ok (some claimed) => continueClaimed env opts claimed claim.2

/-! ## Reading and undoing -/

section Calls

variable {turn : Step → Turn HandoffFile} {f : HandoffFile} {S : HandoffFile → Prop} {disk : HandoffDisk}
  {session : JsString}

theorem currentBytes_only : OnlyIn S disk (currentBytes turn f disk).2 := by
  rw [currentBytes]
  split_ifs
  · exact (OnlyIn.existsSync _ f disk).trans (OnlyIn.readFileSync _ f _)
  · exact OnlyIn.existsSync _ f disk

variable (f disk) in
theorem currentBytes_eq (hlooks : (turn .looks).outcome = .done) (hreads : (turn .reads).outcome = .done) :
    (currentBytes turn f disk).1 = ((currentBytes turn f disk).2.bytes f).map utf8Decode := by
  rw [currentBytes]
  split_ifs with hfound
  · exact readFileSync_eq hreads
  · rw [Bool.not_eq_true] at hfound
    rw [existsSync_false hlooks hfound]
    rfl

theorem currentBytes_some {text : JsString} (h : (currentBytes turn f disk).1 = some text) :
    ∃ b, (currentBytes turn f disk).2.bytes f = some b ∧ text = utf8Decode b := by
  rw [currentBytes] at h ⊢
  split_ifs at h ⊢
  exact readFileSync_some h

theorem restoreIfOurs_after {wrote prior : Option JsString} (hf : S f) :
    OnlyIn S (currentBytes turn f disk).2 (restoreIfOurs turn f wrote prior disk).2 := by
  rw [restoreIfOurs.eq_def]
  cases prior with
  | none =>
    dsimp only
    split_ifs
    · exact OnlyIn.refl _ _
    · exact OnlyIn.refl _ _
    · exact OnlyIn.unlinkSync _ hf _
  | some text =>
    dsimp only
    split_ifs
    · exact OnlyIn.refl _ _
    · exact OnlyIn.writeFileSync _ hf _ _

theorem restoreIfOurs_only {wrote prior : Option JsString} (hf : S f) :
    OnlyIn S disk (restoreIfOurs turn f wrote prior disk).2 :=
  currentBytes_only.trans (restoreIfOurs_after hf)

/-- No call of an undoing fails. -/
structure UndoDone (turn : Step → Turn HandoffFile) : Prop where
  looks : (turn .looks).outcome = .done
  reads : (turn .reads).outcome = .done
  writes : (turn .writes).outcome = .done
  removes : (turn .removes).outcome = .done

/-- What the command wrote is taken back. -/
theorem restoreIfOurs_restores {wrote : JsString} {prior : Option JsString} (hturn : UndoDone turn)
    (hwrote : wellFormed wrote = true) (hbytes : disk.touched f = false →
      disk.bytes f = some (utf8Encode wrote))
    (h : (restoreIfOurs turn f (some wrote) prior disk).2.touched f = false) :
    (restoreIfOurs turn f (some wrote) prior disk).2.bytes f = prior.map utf8Encode := by
  have hnow : OnlyIn (fun _ => False) disk (currentBytes turn f disk).2 := currentBytes_only
  have heq := currentBytes_eq f disk hturn.looks hturn.reads
  have hours : (currentBytes turn f disk).2.touched f = false → (currentBytes turn f disk).1 = some wrote := by
    intro htouched
    rw [heq, hnow.kept f id htouched, hbytes (hnow.touched f htouched), Option.map_some,
      utf8Decode_encode_of_wellFormed wrote hwrote]
  have hall : OnlyIn (fun _ => True) (currentBytes turn f disk).2
      (restoreIfOurs turn f (some wrote) prior disk).2 := restoreIfOurs_after trivial
  have hsame := hours (hall.touched f h)
  rw [restoreIfOurs.eq_def]
  dsimp only
  rw [if_neg (not_not_intro hsame)]
  cases prior with
  | none =>
    dsimp only
    rw [hsame, if_neg (by simp)]
    obtain ⟨hnone, -⟩ | ⟨hsame, hnone⟩ := unlinkSync_done (currentBytes turn f disk).2 f
      hturn.removes
    · exact hnone
    · rw [hsame]
      exact hnone
  | some text => exact writeFileSync_done hturn.writes

/-- A file that the command made and that is still its own is removed. -/
theorem restoreIfOurs_removes {wrote : JsString} (hturn : UndoDone turn) (hwrote : wellFormed wrote = true)
    (hours : disk.ours f = true → disk.bytes f = some (utf8Encode wrote)) :
    ¬((restoreIfOurs turn f (some wrote) none disk).2.ours f = true ∧
      ((restoreIfOurs turn f (some wrote) none disk).2.bytes f).isSome = true) := by
  have hnow : OnlyIn (fun _ => False) disk (currentBytes turn f disk).2 := currentBytes_only
  have heq := currentBytes_eq f disk hturn.looks hturn.reads
  rw [restoreIfOurs.eq_def]
  dsimp only
  split_ifs with hother hnone
  · rintro ⟨h, -⟩
    obtain ⟨hdisk, hbytes⟩ := hnow.ours f id h
    apply hother
    rw [heq, hbytes, hours hdisk, Option.map_some, utf8Decode_encode_of_wellFormed wrote hwrote]
  · rw [not_not, hnone] at hother
    cases hother
  · obtain ⟨hgone, -⟩ | ⟨hsame, hgone⟩ := unlinkSync_done (currentBytes turn f disk).2 f
      hturn.removes
    · rw [hgone]
      simp
    · rw [hsame, hgone]
      simp

theorem readDenyMarker_only :
    OnlyIn S disk (readDenyMarker turn session disk : Except MarkerFault (Json ν) × HandoffDisk).2 := by
  rw [readDenyMarker]
  split_ifs
  · have hread := (OnlyIn.existsSync (S := S) (turn .looks) (.marker session) disk).trans
      (OnlyIn.readFileSync (turn .reads) (.marker session) _)
    exact hread
  · exact OnlyIn.existsSync _ (.marker session) disk

theorem readDenyMarker_ok {record : Json ν} (h : (readDenyMarker turn session disk).1 = .ok record) :
    ∃ b, (readDenyMarker turn session disk : Except MarkerFault (Json ν) × HandoffDisk).2.bytes
        (.marker session) = some b ∧
      readMarkerText session (utf8Decode b) = .ok record := by
  rw [readDenyMarker] at h ⊢
  split_ifs at h ⊢
  dsimp only at h ⊢
  cases htext : (readFileSync (turn .reads) (.marker session)
      (existsSync (turn .looks) (.marker session) disk).2).1 with
  | none =>
    rw [htext] at h
    cases h
  | some text =>
    rw [htext] at h
    obtain ⟨b, hb, rfl⟩ := readFileSync_some htext
    exact ⟨b, by rw [hb], h⟩

variable (turn session) in
theorem markerUnchanged_only (expected : Json ν) :
    OnlyIn S disk (markerUnchanged turn session expected disk).2 := by
  have hread : OnlyIn S disk (readDenyMarker turn session disk :
    Except MarkerFault (Json ν) × HandoffDisk).2 := readDenyMarker_only
  rw [markerUnchanged]
  split
  · exact hread
  · split_ifs <;> exact hread

end Calls

/-! ## Writing markers -/

theorem strictEq_str {value : Option (Json ν)} {s : JsString} (h : strictEq value (some (.str s)) = true) :
    value = some (.str s) := by
  cases value with
  | none => cases h
  | some v =>
    cases v with
    | str t =>
      have hts : t = s := of_decide_eq_true h
      rw [hts]
    | null => cases h
    | bool => cases h
    | num => cases h
    | arr => cases h
    | obj => cases h

theorem readMarkerText_session {session raw : JsString} {record : Json ν}
    (h : readMarkerText session raw = .ok record) :
    record.get? (js "session_id") = some (.str session) := by
  rw [readMarkerText.eq_def] at h
  cases hparse : (parseJson raw : Option (Json ν)) with
  | none =>
    rw [hparse] at h
    cases h
  | some parsed =>
    rw [hparse] at h
    dsimp only at h
    split_ifs at h with h1 h2 h3
    obtain rfl := Except.ok.inj h
    rw [Bool.not_eq_true, Bool.not_eq_false'] at h2
    exact strictEq_str h2

omit [JsNumber ν] in
theorem lookup_setAll_other (ms : Members ν) {ps : Members ν} {k : JsString} (hk : k ∉ ps.keys) :
    (ms.setAll ps).lookup k = ms.lookup k := by
  induction ps generalizing ms with
  | nil => rfl
  | cons p ps ih =>
    rw [Members.keys, List.map_cons, List.mem_cons, not_or] at hk
    have hset : ms.setAll (p :: ps) = (ms.set p.1 p.2).setAll ps := rfl
    rw [hset, ih _ hk.2, Members.lookup_set, if_neg hk.1]

omit [JsNumber ν] in
theorem lookup_spread {record : Json ν} {k : JsString} {v : Json ν} (h : record.get? k = some v) :
    (spread record).lookup k = some v := by
  cases record with
  | obj ms => exact h
  | null => cases h
  | bool => cases h
  | num => cases h
  | str => cases h
  | arr => cases h

theorem jsonFile_wellFormed (value : Json ν) : wellFormed (jsonFile value) = true :=
  wellFormed_join (wellFormed_write spaces_two value [] Spaces.nil) (by decide)

section Markers

variable {S : HandoffFile → Prop} {disk : HandoffDisk} {session : JsString} {record : Json ν}

/-- A record is written to the marker of its session, or nothing changes. -/
theorem writeDenyRecord_cases (turn : Turn HandoffFile)
    (hsession : record.get? (js "session_id") = some (.str session)) :
    ((writeDenyRecord turn record disk).1 = none ∧ OnlyIn S disk (writeDenyRecord turn record disk).2) ∨
      ∃ text, wellFormed text = true ∧ writeDenyRecord turn record disk =
        (some text, (writeTextAtomic turn (.marker session) text disk).2) ∧
        (writeTextAtomic turn (.marker session) text disk).1 = true := by
  rw [writeDenyRecord.eq_def, hsession]
  by_cases hsafe : isSafeSessionId session = true
  · have hid : safeSessionId? (some (.str session) : Option (Json ν)) = some session := if_pos hsafe
    rw [hid]
    dsimp only
    split_ifs with hstatus hwrote
    · exact Or.inr ⟨_, jsonFile_wellFormed _, rfl, hwrote⟩
    · rw [Bool.not_eq_true] at hwrote
      exact Or.inl ⟨rfl, writeTextAtomic_failed hwrote⟩
    · exact Or.inl ⟨rfl, OnlyIn.refl S disk⟩
  · have hid : safeSessionId? (some (.str session) : Option (Json ν)) = none := if_neg hsafe
    rw [hid]
    exact Or.inl ⟨rfl, OnlyIn.refl S disk⟩

omit [JsNumber ν] in
theorem lookup_filter_other {ms : Members ν} {k k' : JsString} (hk : k' ≠ k) :
    (ms.filter fun member => decide (member.1 ≠ k)).lookup k' = ms.lookup k' := by
  induction ms with
  | nil => rfl
  | cons p ms ih =>
    obtain ⟨a, v⟩ := p
    by_cases ha : a = k
    · have hne : (k' == a) = false := beq_eq_false_iff_ne.mpr fun h => hk (h.trans ha)
      rw [List.filter_cons_of_neg (by simpa using ha), List.lookup_cons, hne, ih]
    · rw [List.filter_cons_of_pos (by simpa using ha), List.lookup_cons, List.lookup_cons, ih]

omit [JsNumber ν] in
theorem boundRecord_session (bind : Bind)
    (h : record.get? (js "session_id") = some (.str session)) :
    (boundRecord record bind).get? (js "session_id") = some (.str session) := by
  have hkeys : js "session_id" ∉ [js "ticket_id", js "content_hash", js "status"] := by decide +kernel
  have hkind : js "session_id" ≠ js "content_kind" := by decide +kernel
  have hhost : js "session_id" ≠ js "host" := by decide +kernel
  rw [boundRecord, Json.get?, Members.lookup_set, if_neg hhost]
  split
  · rw [lookup_filter_other hkind, lookup_setAll_other _ hkeys]
    exact lookup_spread h
  · rw [Members.lookup_set, if_neg hkind, lookup_setAll_other _ hkeys]
    exact lookup_spread h

variable (disk session) in
/-- The bound record is written, or nothing changes. -/
theorem repairDenyBinds_cases (env : ConsumeEnv ν) (bind : Bind) :
    ((repairDenyBinds env session bind disk).1 = none ∧
        OnlyIn S disk (repairDenyBinds env session bind disk).2) ∨
      ∃ text disk', OnlyIn S disk disk' ∧ wellFormed text = true ∧
        repairDenyBinds env session bind disk =
          (some text, (writeTextAtomic (env.turns .rebind .writes) (.marker session) text disk').2) ∧
        (writeTextAtomic (env.turns .rebind .writes) (.marker session) text disk').1 = true := by
  have hread : OnlyIn S disk (readDenyMarker (env.turns .rebindRead) session disk :
    Except MarkerFault (Json ν) × HandoffDisk).2 := readDenyMarker_only
  rw [repairDenyBinds.eq_def]
  dsimp only
  cases hok : (readDenyMarker (env.turns .rebindRead) session disk :
      Except MarkerFault (Json ν) × HandoffDisk).1 with
  | error fault => exact Or.inl ⟨rfl, hread⟩
  | ok record =>
    dsimp only
    split_ifs
    · obtain ⟨b, -, htext⟩ := readDenyMarker_ok hok
      have hsession := boundRecord_session bind (readMarkerText_session htext)
      obtain ⟨hnone, honly⟩ | ⟨text, hwf, heq, hwrote⟩ :=
        writeDenyRecord_cases (S := S) (env.turns .rebind .writes) hsession
      · exact Or.inl ⟨hnone, hread.trans honly⟩
      · exact Or.inr ⟨text, _, hread, hwf, heq, hwrote⟩
    · exact Or.inl ⟨rfl, hread⟩

variable {env : ConsumeEnv ν} {opts : MarkerOpts ν}

theorem freshMarker_only (hS : S (.marker opts.sessionId)) :
    OnlyIn S disk (freshMarker env opts disk).2 := by
  have hwrote : OnlyIn S disk (writeTextAtomic (env.turns .freshMarker .writes) (.marker opts.sessionId)
    (jsonFile opts.record) disk).2 := OnlyIn.writeTextAtomic _ hS _ _
  rw [freshMarker]
  dsimp only
  split_ifs
  · split
    · exact hwrote.trans readDenyMarker_only
    · exact hwrote.trans readDenyMarker_only
  · exact hwrote

theorem ensureDenyMarker_after (hS : S (.marker opts.sessionId)) :
    OnlyIn S (readDenyMarker (env.turns .ensure) opts.sessionId disk :
      Except MarkerFault (Json ν) × HandoffDisk).2 (ensureDenyMarker env opts disk).2 := by
  have hjunk : ∀ disk : HandoffDisk, OnlyIn S disk
      (let found := existsSync (env.turns .quarantine .looks) (.marker opts.sessionId) disk
      if !found.1 then freshMarker env opts found.2
      else
        let again := existsSync (env.turns .quarantine .looksAgain) (.marker opts.sessionId) found.2
        if !again.1 then freshMarker env opts again.2
        else
          let moved := unlinkSync (env.turns .quarantine .removes) (.marker opts.sessionId) again.2
          if moved.1 then freshMarker env opts moved.2 else (false, moved.2)).2 := by
    intro disk
    have hfound := OnlyIn.existsSync (S := S) (env.turns .quarantine .looks) (.marker opts.sessionId) disk
    dsimp only
    split_ifs
    · exact hfound.trans (freshMarker_only hS)
    · exact (hfound.trans (OnlyIn.existsSync _ _ _)).trans (freshMarker_only hS)
    · exact ((hfound.trans (OnlyIn.existsSync _ _ _)).trans (OnlyIn.unlinkSync _ hS _)).trans
        (freshMarker_only hS)
    · exact (hfound.trans (OnlyIn.existsSync _ _ _)).trans (OnlyIn.unlinkSync _ hS _)
  rw [ensureDenyMarker.eq_def]
  dsimp only
  cases (readDenyMarker (env.turns .ensure) opts.sessionId disk :
      Except MarkerFault (Json ν) × HandoffDisk).1 with
  | ok _ => exact OnlyIn.refl _ _
  | error fault =>
    cases fault with
    | missingMarker => exact freshMarker_only hS
    | unreadableMarker => exact OnlyIn.refl _ _
    | corruptJson => exact hjunk _
    | invalidShape => exact hjunk _
    | sessionIdMismatch => exact OnlyIn.refl _ _
    | invalidStatus => exact OnlyIn.refl _ _

theorem ensureDenyMarker_only (hS : S (.marker opts.sessionId)) :
    OnlyIn S disk (ensureDenyMarker env opts disk).2 :=
  OnlyIn.trans readDenyMarker_only (ensureDenyMarker_after hS)

/-- The marker is one that `readDenyMarker` takes, unless another process has changed it. -/
def ValidMarker (ν : Type) [JsNumber ν] (session : JsString) (disk : HandoffDisk) : Prop :=
  disk.touched (.marker session) = false → ∃ b record, disk.bytes (.marker session) = some b ∧
    readMarkerText session (utf8Decode b) = .ok (record : Json ν)

theorem readDenyMarker_of_valid {turn : Step → Turn HandoffFile} (hlooks : (turn .looks).outcome = .done)
    (hvalid : ValidMarker ν session disk)
    (htouched : (readDenyMarker turn session disk : Except MarkerFault (Json ν) × HandoffDisk).2.touched
      (.marker session) = false) :
    (∃ record, (readDenyMarker turn session disk : Except MarkerFault (Json ν) × HandoffDisk).1 = .ok record) ∨
      (readDenyMarker turn session disk : Except MarkerFault (Json ν) × HandoffDisk).1 =
        .error .unreadableMarker := by
  have hall : OnlyIn (fun _ => False) disk (readDenyMarker turn session disk :
    Except MarkerFault (Json ν) × HandoffDisk).2 := readDenyMarker_only
  obtain ⟨b, record, hb, htext⟩ := hvalid (hall.touched _ htouched)
  have hboth : OnlyIn (fun _ => False) disk (readFileSync (turn .reads) (.marker session)
      (existsSync (turn .looks) (.marker session) disk).2).2 :=
    (OnlyIn.existsSync _ _ _).trans (OnlyIn.readFileSync _ _ _)
  by_cases hfound : (existsSync (turn .looks) (.marker session) disk).1 = true
  · rw [readDenyMarker, if_pos hfound] at htouched ⊢
    dsimp only at htouched ⊢
    cases hread : (readFileSync (turn .reads) (.marker session)
        (existsSync (turn .looks) (.marker session) disk).2).1 with
    | none => exact Or.inr rfl
    | some text =>
      obtain ⟨b', hb', rfl⟩ := readFileSync_some hread
      rw [hboth.kept _ id htouched, hb] at hb'
      obtain rfl := Option.some.inj hb'
      exact Or.inl ⟨record, htext⟩
  · rw [readDenyMarker, if_neg hfound] at htouched
    rw [Bool.not_eq_true] at hfound
    have hnone := existsSync_false hlooks hfound
    rw [(OnlyIn.existsSync (S := fun _ => False) _ _ _).kept _ id htouched, hb] at hnone
    cases hnone

/-- A marker that is valid is left as it is. -/
theorem ensureDenyMarker_keeps (hlooks : (env.turns .ensure .looks).outcome = .done)
    (hvalid : ValidMarker ν opts.sessionId disk)
    (htouched : (ensureDenyMarker env opts disk).2.touched (.marker opts.sessionId) = false) :
    (ensureDenyMarker env opts disk).2.bytes (.marker opts.sessionId) =
      disk.bytes (.marker opts.sessionId) := by
  have hread : OnlyIn (fun _ => False) disk (readDenyMarker (env.turns .ensure) opts.sessionId disk :
    Except MarkerFault (Json ν) × HandoffDisk).2 := readDenyMarker_only
  have hkept := (ensureDenyMarker_after (S := fun _ => True) trivial).touched _ htouched
  have hvalue := readDenyMarker_of_valid hlooks hvalid hkept
  rw [ensureDenyMarker.eq_def]
  dsimp only
  obtain ⟨record, hok⟩ | hunreadable := hvalue
  · rw [hok]
    exact hread.kept _ id hkept
  · rw [hunreadable]
    exact hread.kept _ id hkept

end Markers

/-! ## The checkpoint -/

section Checkpoints

variable {env : ConsumeEnv ν} {session : JsString} {bind : Bind} {expected : Json ν} {disk disk' : HandoffDisk}
  {f : HandoffFile} {S : HandoffFile → Prop}

/-- From the first disk to the second one the file has its bytes, unless another process changed it. -/
def Intact (f : HandoffFile) (disk disk' : HandoffDisk) : Prop :=
  disk'.touched f = false → disk'.bytes f = disk.bytes f

theorem Intact.trans {disk'' : HandoffDisk} (h : Intact f disk disk') (h' : Intact f disk' disk'')
    (honly : OnlyIn S disk' disk'') : Intact f disk disk'' := by
  intro htouched
  rw [h' htouched, h (honly.touched f htouched)]

/-- A file that can be put back: it is text, and its snapshot does not fail. -/
structure Restorable (turn : Step → Turn HandoffFile) (f : HandoffFile) (disk : HandoffDisk) : Prop where
  text : disk.touched f = false → ∀ b ∈ disk.bytes f, utf8Encode (utf8Decode b) = b
  turn : disk.touched f = false → (disk.bytes f).isSome = true →
    (turn .looks).outcome = .done ∧ (turn .reads).outcome = .done

theorem Restorable.after {turn : Step → Turn HandoffFile} (h : Restorable turn f disk)
    (honly : OnlyIn S disk disk') (hf : ¬S f) : Restorable turn f disk' := by
  constructor
  · intro htouched
    rw [honly.kept f hf htouched]
    exact h.text (honly.touched f htouched)
  · intro htouched
    rw [honly.kept f hf htouched]
    exact h.turn (honly.touched f htouched)

/-- A snapshot is what was there. -/
theorem Restorable.snapshot {turn : Step → Turn HandoffFile} (h : Restorable turn f disk)
    (htouched : (currentBytes turn f disk).2.touched f = false) :
    (currentBytes turn f disk).1.map utf8Encode = disk.bytes f := by
  have honly : OnlyIn (fun _ => False) disk (currentBytes turn f disk).2 := currentBytes_only
  have hkept := honly.kept f id htouched
  have huntouched := honly.touched f htouched
  cases hbytes : disk.bytes f with
  | none =>
    cases htext : (currentBytes turn f disk).1 with
    | none => rfl
    | some text =>
      obtain ⟨b, hb, -⟩ := currentBytes_some htext
      rw [hkept, hbytes] at hb
      cases hb
  | some b =>
    obtain ⟨hlooks, hreads⟩ := h.turn huntouched (by rw [hbytes]; rfl)
    rw [currentBytes_eq f disk hlooks hreads, hkept, hbytes]
    exact congrArg some (h.text huntouched b hbytes)

theorem ValidMarker.after (h : ValidMarker ν session disk) (honly : OnlyIn S disk disk')
    (hf : ¬S (.marker session)) : ValidMarker ν session disk' := by
  intro htouched
  rw [honly.kept _ hf htouched]
  exact h (honly.touched _ htouched)

variable (bind expected) in
/-- Binding fails and the final is undone, or it leaves the marker as it is or rebound. -/
theorem bindCheckpoint_cases (checkpoint : Checkpoint) (prior : Option JsString)
    (hlooks : (env.turns .ensure .looks).outcome = .done) (hvalid : ValidMarker ν session disk) :
    (∃ fault disk', bindCheckpoint env session bind expected checkpoint prior disk =
        (.error fault, undoFinal env session checkpoint.wroteFinalBytes checkpoint.priorFinalBytes disk') ∧
      OnlyIn (· = .marker session) disk disk' ∧ Intact (.marker session) disk disk') ∨
    (∃ disk', bindCheckpoint env session bind expected checkpoint prior disk = (.ok checkpoint, disk') ∧
      OnlyIn (· = .marker session) disk disk' ∧ Intact (.marker session) disk disk') ∨
    (∃ text disk', bindCheckpoint env session bind expected checkpoint prior disk =
        (.ok { checkpoint with rebound := some (prior, text) }, disk') ∧ wellFormed text = true ∧
      OnlyIn (· = .marker session) disk disk' ∧
      disk'.bytes (.marker session) = some (utf8Encode text)) := by
  set opts : MarkerOpts ν :=
    { sessionId := session
      ticketId := some (.str bind.ticketId)
      contentHash := some (.str bind.contentHash)
      host := bind.host
      since := env.now .ensure
      writer := env.writer } with hopts
  have honly : OnlyIn (· = .marker session) disk (ensureDenyMarker env opts disk).2 :=
    ensureDenyMarker_only rfl
  have hkept : Intact (.marker session) disk (ensureDenyMarker env opts disk).2 :=
    fun htouched => ensureDenyMarker_keeps hlooks hvalid htouched
  -- what only reads leaves the marker as it was
  have hreads : ∀ disk', OnlyIn (fun _ => False) (ensureDenyMarker env opts disk).2 disk' →
      OnlyIn (· = .marker session) disk disk' ∧ Intact (.marker session) disk disk' := by
    intro disk' hread
    refine ⟨honly.trans (hread.mono fun _ h => h.elim), hkept.trans (fun ht => ?_) hread⟩
    exact hread.kept _ id ht
  rw [bindCheckpoint.eq_def]
  dsimp only
  rw [← hopts]
  split_ifs with hok
  · have hbind : OnlyIn (fun _ => False) (ensureDenyMarker env opts disk).2
        (readDenyMarker (env.turns .bindRead) session (ensureDenyMarker env opts disk).2 :
          Except MarkerFault (Json ν) × HandoffDisk).2 := readDenyMarker_only
    cases hmarker : (readDenyMarker (env.turns .bindRead) session (ensureDenyMarker env opts disk).2 :
        Except MarkerFault (Json ν) × HandoffDisk).1 with
    | error fault => exact Or.inl ⟨_, _, rfl, hreads _ hbind⟩
    | ok record =>
      dsimp only
      split_ifs with hstale
      · have hcas := hbind.trans (markerUnchanged_only (env.turns .casRead) session expected)
        cases hunchanged : (markerUnchanged (env.turns .casRead) session expected
            (readDenyMarker (env.turns .bindRead) session (ensureDenyMarker env opts disk).2 :
              Except MarkerFault (Json ν) × HandoffDisk).2).1 with
        | error fault => exact Or.inl ⟨_, _, rfl, hreads _ hcas⟩
        | ok _ =>
          dsimp only
          obtain ⟨hnone, hrebind⟩ | ⟨text, disk', hrebind, hwf, heq, hwrote⟩ :=
            repairDenyBinds_cases (S := fun _ => False) (markerUnchanged (env.turns .casRead) session expected
              (readDenyMarker (env.turns .bindRead) session (ensureDenyMarker env opts disk).2 :
                Except MarkerFault (Json ν) × HandoffDisk).2).2 session env bind
          · rw [hnone]
            exact Or.inl ⟨_, _, rfl, hreads _ (hcas.trans hrebind)⟩
          · have hwrite : OnlyIn (· = .marker session) disk'
                (writeTextAtomic (env.turns .rebind .writes) (.marker session) text disk').2 :=
              OnlyIn.writeTextAtomic_self _ _ _ _
            rw [heq]
            refine Or.inr (Or.inr ⟨text, _, rfl, hwf, ?_, writeTextAtomic_ok hwrote⟩)
            exact (hreads _ (hcas.trans hrebind)).1.trans hwrite
      · exact Or.inr (Or.inl ⟨_, rfl, hreads _ hbind⟩)
  · exact Or.inl ⟨_, _, rfl, honly, hkept⟩

/-- What a checkpoint says of the files before and after it. -/
structure Made (session : JsString) (before after : HandoffDisk) (checkpoint : Checkpoint) : Prop where
  finalText : wellFormed checkpoint.wroteFinalBytes = true
  final : after.touched (.final session) = false →
    after.bytes (.final session) = some (utf8Encode checkpoint.wroteFinalBytes)
  priorFinal : after.touched (.final session) = false →
    checkpoint.priorFinalBytes.map utf8Encode = before.bytes (.final session)
  unbound : checkpoint.rebound = none → Intact (.marker session) before after
  rebound : ∀ prior text, checkpoint.rebound = some (prior, text) → wellFormed text = true ∧
    (after.touched (.marker session) = false → after.bytes (.marker session) = some (utf8Encode text) ∧
      prior.map utf8Encode = before.bytes (.marker session))

/-- The final and the marker of a session. -/
def CheckpointFile (session : JsString) (f : HandoffFile) : Prop := f = .final session ∨ f = .marker session

/-- What a checkpoint needs, to be made or to leave no trace. -/
structure CheckpointReady (env : ConsumeEnv ν) (session : JsString) (disk : HandoffDisk) : Prop where
  final : Restorable (env.turns .priorFinal) (.final session) disk
  marker : Restorable (env.turns .priorMarker) (.marker session) disk
  ensure : (env.turns .ensure .looks).outcome = .done
  undo : UndoDone (env.turns .undoFinal)

variable (bind expected) in
theorem writeCheckpoint_spec (hready : CheckpointReady env session disk) (hvalid : ValidMarker ν session disk) :
    OnlyIn (CheckpointFile session) disk (writeCheckpoint env session bind expected disk).2 ∧
    (∀ fault, (writeCheckpoint env session bind expected disk).1 = .error fault →
      Intact (.final session) disk (writeCheckpoint env session bind expected disk).2 ∧
      Intact (.marker session) disk (writeCheckpoint env session bind expected disk).2) ∧
    ∀ checkpoint, (writeCheckpoint env session bind expected disk).1 = .ok checkpoint →
      Made session disk (writeCheckpoint env session bind expected disk).2 checkpoint := by
  have hfinalRead : ∀ S, OnlyIn S disk (currentBytes (env.turns .priorFinal) (.final session) disk).2 :=
    fun S => currentBytes_only
  have hmarkerRead : ∀ S, OnlyIn S (currentBytes (env.turns .priorFinal) (.final session) disk).2
      (currentBytes (env.turns .priorMarker) (.marker session)
        (currentBytes (env.turns .priorFinal) (.final session) disk).2).2 := fun S => currentBytes_only
  have hfinalFile : CheckpointFile session (.final session) := Or.inl rfl
  set text := jsonFile (buildFinal env session bind (env.now .writeFinal)) with htext
  set snapshots := (currentBytes (env.turns .priorMarker) (.marker session)
    (currentBytes (env.turns .priorFinal) (.final session) disk).2) with hsnapshots
  have hbefore : ∀ S, OnlyIn S disk snapshots.2 := fun S => (hfinalRead S).trans (hmarkerRead S)
  rw [writeCheckpoint, ← htext, ← hsnapshots]
  by_cases hwritten : (writeTextAtomic (env.turns .writeFinal .writes) (.final session) text snapshots.2).1 = true
  · rw [if_pos hwritten]
    set written := (writeTextAtomic (env.turns .writeFinal .writes) (.final session) text snapshots.2).2
    have hne : HandoffFile.marker session ≠ .final session := by simp
    have hwrite : OnlyIn (· = .final session) disk written :=
      (hbefore _).trans (OnlyIn.writeTextAtomic_self _ _ _ _)
    have hbytes : written.bytes (.final session) = some (utf8Encode text) := writeTextAtomic_ok hwritten
    have hmarkerKept : Intact (.marker session) disk written := hwrite.kept _ hne
    have hprior : written.touched (.final session) = false →
        (currentBytes (env.turns .priorFinal) (.final session) disk).1.map utf8Encode =
          disk.bytes (.final session) := by
      intro ht
      have hlater := (hmarkerRead fun _ => True).trans
        (OnlyIn.writeTextAtomic (f := .final session) (env.turns .writeFinal .writes) trivial text _)
      exact hready.final.snapshot (hlater.touched _ ht)
    have hpriorMarker : written.touched (.marker session) = false →
        snapshots.1.map utf8Encode = disk.bytes (.marker session) := by
      intro ht
      have hlater := OnlyIn.writeTextAtomic (S := fun _ => True) (f := .final session)
        (env.turns .writeFinal .writes) trivial text snapshots.2
      have hkept := hlater.touched _ ht
      have hready' := hready.marker.after (hfinalRead fun _ => False) id
      rw [hready'.snapshot hkept]
      exact (hfinalRead fun _ => False).kept _ id ((hmarkerRead fun _ => False).touched _ hkept)
    obtain ⟨fault, disk', heq, honly, hkept⟩ | ⟨disk', heq, honly, hkept⟩ | ⟨new, disk', heq, hwf, honly, hnew⟩ :=
      bindCheckpoint_cases bind expected
        ⟨(currentBytes (env.turns .priorFinal) (.final session) disk).1, text, none⟩ snapshots.1 hready.ensure (hvalid.after hwrite hne)
    · have hundo : OnlyIn (· = .final session) disk' (undoFinal env session text
          (currentBytes (env.turns .priorFinal) (.final session) disk).1 disk') := restoreIfOurs_only rfl
      rw [heq]
      refine ⟨?_, fun _ _ => ⟨fun ht => ?_, fun ht => ?_⟩, fun checkpoint h => by cases h⟩
      · exact ((hwrite.mono fun g hg => Or.inl hg).trans (honly.mono fun g hg => Or.inr hg)).trans
          (hundo.mono fun g hg => Or.inl hg)
      · have hours : disk'.touched (.final session) = false →
            disk'.bytes (.final session) = some (utf8Encode text) := by
          intro ht
          rw [honly.kept _ hne.symm ht, hbytes]
        rw [← hprior (honly.touched _ (hundo.touched _ ht))]
        exact restoreIfOurs_restores hready.undo (jsonFile_wellFormed _) hours ht
      · exact (hmarkerKept.trans hkept honly).trans (hundo.kept _ hne) hundo ht
    · rw [heq]
      refine ⟨(hwrite.mono fun g hg => Or.inl hg).trans (honly.mono fun g hg => Or.inr hg),
        fun fault h => (by cases h), fun checkpoint h => ?_⟩
      obtain rfl := Except.ok.inj h
      refine ⟨jsonFile_wellFormed _, fun ht => ?_, fun ht => hprior (honly.touched _ ht),
        fun _ => hmarkerKept.trans hkept honly, fun prior new h => by cases h⟩
      rw [honly.kept _ hne.symm ht, hbytes]
    · rw [heq]
      refine ⟨(hwrite.mono fun g hg => Or.inl hg).trans (honly.mono fun g hg => Or.inr hg),
        fun fault h => (by cases h), fun checkpoint h => ?_⟩
      obtain rfl := Except.ok.inj h
      refine ⟨jsonFile_wellFormed _, fun ht => ?_, fun ht => hprior (honly.touched _ ht),
        fun h => (by cases h), fun prior new' h => ?_⟩
      · rw [honly.kept _ hne.symm ht, hbytes]
      · obtain ⟨rfl, rfl⟩ := Prod.mk.inj (Option.some.inj h)
        exact ⟨hwf, fun ht => ⟨hnew, hpriorMarker (honly.touched _ ht)⟩⟩
  · rw [if_neg hwritten]
    rw [Bool.not_eq_true] at hwritten
    have honly : ∀ S, OnlyIn S disk (writeTextAtomic (env.turns .writeFinal .writes) (.final session) text
        snapshots.2).2 := fun S => (hbefore S).trans (writeTextAtomic_failed hwritten)
    refine ⟨honly _, fun fault _ => ⟨?_, ?_⟩, fun checkpoint h => by cases h⟩
    · exact fun ht => (honly fun _ => False).kept _ id ht
    · exact fun ht => (honly fun _ => False).kept _ id ht

omit [JsNumber ν] in
/-- A checkpoint that is rolled back leaves the final and the marker as they were. -/
theorem rollbackCheckpoint_spec {before : HandoffDisk} {checkpoint : Checkpoint}
    (hmade : Made session before disk checkpoint) (hfinal : UndoDone (env.turns .undoFinal))
    (hmarker : UndoDone (env.turns .undoMarker)) :
    OnlyIn (CheckpointFile session) disk (rollbackCheckpoint env session checkpoint disk) ∧
      Intact (.final session) before (rollbackCheckpoint env session checkpoint disk) ∧
      Intact (.marker session) before (rollbackCheckpoint env session checkpoint disk) := by
  have hne : HandoffFile.marker session ≠ .final session := by simp
  set undone := undoFinal env session checkpoint.wroteFinalBytes checkpoint.priorFinalBytes disk with hundone
  have hundo : OnlyIn (· = .final session) disk undone := restoreIfOurs_only rfl
  have hfinalKept : Intact (.final session) before undone := by
    intro ht
    rw [← hmade.priorFinal (hundo.touched _ ht)]
    exact restoreIfOurs_restores hfinal hmade.finalText hmade.final ht
  rw [rollbackCheckpoint.eq_def]
  dsimp only
  rw [← hundone]
  cases hrebound : checkpoint.rebound with
  | none =>
    refine ⟨hundo.mono fun g hg => Or.inl hg, hfinalKept, ?_⟩
    exact (hmade.unbound hrebound).trans (hundo.kept _ hne) hundo
  | some both =>
    obtain ⟨prior, text⟩ := both
    obtain ⟨hwf, hbytes⟩ := hmade.rebound prior text hrebound
    have hours : undone.touched (.marker session) = false →
        undone.bytes (.marker session) = some (utf8Encode text) := by
      intro ht
      rw [hundo.kept _ hne ht]
      exact (hbytes (hundo.touched _ ht)).1
    have honly : OnlyIn (· = .marker session) undone
        (restoreIfOurs (env.turns .undoMarker) (.marker session) (some text) prior undone).2 :=
      restoreIfOurs_only rfl
    refine ⟨(hundo.mono fun g hg => Or.inl hg).trans (honly.mono fun g hg => Or.inr hg), ?_, fun ht => ?_⟩
    · exact hfinalKept.trans (honly.kept _ hne.symm) honly
    · rw [← (hbytes (hundo.touched _ (honly.touched _ ht))).2]
      exact restoreIfOurs_restores hmarker hwf hours ht

end Checkpoints

end Adlc.ContextHandoff
