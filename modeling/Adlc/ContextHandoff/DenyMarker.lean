import Adlc.Framework.Interleaving
import Adlc.Framework.Latest
import Adlc.ContextHandoff.MutationGate

namespace Adlc.ContextHandoff

open Adlc.Framework Adlc.Tickets

variable {ν : Type} [JsNumber ν]

/-! ## The deny store -/

inductive Entry where
  | file (text : JsString)
  | unreadable
  | directory
  deriving DecidableEq

structure DenyStore where
  /-- The text of `.adlc/.deny-store`. -/
  sentinel : Option JsString
  /-- The text of `.adlc/handoffs/.deny-store`. -/
  legacy : Option JsString
  /-- The entries of `.adlc/handoffs/denies`, as they are listed. -/
  denies : Option (List (JsString × Entry))
  /-- The sessions for which `ensureDenyMarker` has returned ok so far. -/
  returned : List JsString
  deriving DecidableEq

def markerName (sessionId : JsString) : JsString := sessionId ++ js ".json"

def DenyStore.entry? (store : DenyStore) (name : JsString) : Option Entry :=
  store.denies.bind fun entries => entries.lookup name

/-- `renameSync(tmp, path)` of a marker. -/
def DenyStore.putMarker (store : DenyStore) (name text : JsString) : DenyStore :=
  { store with denies := store.denies.map fun entries =>
      entries.filter (fun e => e.1 ≠ name) ++ [(name, .file text)] }

/-- The marker is renamed into `denies/quarantine`. -/
def DenyStore.dropMarker (store : DenyStore) (name : JsString) : DenyStore :=
  { store with denies := store.denies.map fun entries => entries.filter fun e => e.1 ≠ name }

/-! ## Markers -/

inductive MarkerFault where
  | missingMarker | unreadableMarker | corruptJson | invalidShape | sessionIdMismatch | invalidStatus
  deriving DecidableEq

def MarkerFault.text : MarkerFault → JsString
  | .missingMarker => js "missing_marker"
  | .unreadableMarker => js "unreadable_marker"
  | .corruptJson => js "corrupt_json"
  | .invalidShape => js "invalid_shape"
  | .sessionIdMismatch => js "session_id_mismatch"
  | .invalidStatus => js "invalid_status"

def isObject : Json ν → Bool
  | .arr _ | .obj _ => true
  | _ => false

/-- What `readDenyMarker` makes of a marker's text. -/
def readMarkerText (sessionId raw : JsString) : Except MarkerFault (Json ν) :=
  match parseJson raw with
  | none => .error .corruptJson
  | some record =>
    if !(truthy record && isObject record) then .error .invalidShape
    else if !strictEq (record.get? (js "session_id")) (some (.str sessionId)) then
      .error .sessionIdMismatch
    else if !(strictEq (record.get? (js "status")) (some (.str (js "open"))) ||
        strictEq (record.get? (js "status")) (some (.str (js "consumed")))) then
      .error .invalidStatus
    else .ok record

/-- `readFileSync` of a marker, and what follows it. -/
def readMarker (sessionId : JsString) (entry : Option Entry) : Except MarkerFault (Json ν) :=
  match entry with
  | some (.file raw) => readMarkerText sessionId raw
  | _ => .error .unreadableMarker

structure MarkerOpts (ν : Type) where
  sessionId : JsString
  ticketId : Option (Json ν)
  contentHash : Option (Json ν)
  host : JsString
  since : JsString
  writer : Json ν

def normalizeBindField (value : Option (Json ν)) : Json ν :=
  match value with
  | some (.str s) => if trim s = [] then .null else .str (trim s)
  | _ => .null

def MarkerOpts.record (opts : MarkerOpts ν) : Json ν :=
  .obj [(js "session_id", .str opts.sessionId), (js "ticket_id", normalizeBindField opts.ticketId),
    (js "content_hash", normalizeBindField opts.contentHash), (js "status", .str (js "open")),
    (js "since", .str opts.since), (js "host", .str opts.host), (js "writer", opts.writer),
    (js "schema", .num (JsNumber.ofNat 1))]

structure EnsureReturn where
  ok : Bool
  processSticky : Bool
  reason : JsString
  deriving DecidableEq

/-! ## The sentinel -/

structure SentinelInfo where
  expected : Bool
  sessions : List JsString
  legacy : Bool
  deriving DecidableEq

/-- `parsed?.sessions`, where they are an array, and the safe ids in it. -/
def sessionsOf (parsed : Json ν) : List JsString :=
  match parsed.get? (js "sessions") with
  | some (.arr xs) => xs.filterMap fun x => safeSessionId? (some x)
  | _ => []

variable (ν) in
/-- What `readDenyStoreSentinel` makes of a sentinel's text. -/
def readSentinelText (raw : JsString) (fromLegacy : Bool) : SentinelInfo :=
  if trim raw = js "1" ∨ trim raw = [] then ⟨true, [], fromLegacy⟩
  else
    match (parseJson (trim raw) : Option (Json ν)) with
    | some parsed => ⟨true, sessionsOf parsed, fromLegacy⟩
    | none => ⟨true, [], false⟩

def nextSessions (cur : SentinelInfo) (sessionId : Option JsString) : List JsString :=
  (firstSeen (cur.sessions ++ sessionId.toList.filter isSafeSessionId)).mergeSort unitLe

/-- The members are unchanged and the sentinel is not the legacy one. -/
def SentinelInfo.keeps (cur : SentinelInfo) (next : List JsString) : Bool :=
  cur.expected && !cur.legacy && decide (next.length = cur.sessions.length) &&
    decide (next = cur.sessions.mergeSort unitLe)

variable (ν) in
def sentinelBody (next : List JsString) : JsString :=
  stringify (.obj [(js "schema", .num (JsNumber.ofNat 1)),
    (js "sessions", .arr (next.map Json.str))] : Json ν) ++ [10]

/-! ## Loads -/

structure LoadResult (ν : Type) where
  ok : Bool
  reason : Option JsString
  records : List (Json ν)
  invalidRecords : List (Json ν)
  registeredSessions : List JsString
  denyStoreUnavailable : Bool

/-- A call of `loadDenyRecords` under way. -/
structure Load (ν : Type) where
  /-- Nothing where the option is not given; a value that is no boolean counts as true. -/
  storeExpected : Option Bool
  expected : Bool
  registered : List JsString
  records : List (Json ν)
  invalidRecords : List (Json ν)
  /-- The sessions for which `ensureDenyMarker` had returned ok when the call began. -/
  before : List JsString

def invalidRecord (sessionId status : JsString) : Json ν :=
  .obj [(js "session_id", .str sessionId), (js "status", .str (js "invalid:" ++ status)),
    (js "ticket_id", .null), (js "content_hash", .null)]

def denyStoreId : JsString := js "__deny_store__"

def Load.unavailable (load : Load ν) (reason : JsString) (detail : JsString) : LoadResult ν where
  ok := false
  reason := some (reason ++ detail)
  records := load.records
  invalidRecords := load.invalidRecords ++ [invalidRecord denyStoreId reason]
  registeredSessions := load.registered
  denyStoreUnavailable := true

def Load.available (load : Load ν) (invalidRecords : List (Json ν)) : LoadResult ν where
  ok := true
  reason := none
  records := load.records
  invalidRecords := invalidRecords
  registeredSessions := load.registered
  denyStoreUnavailable := false

def namesSession (sessionId : JsString) (record : Json ν) : Bool :=
  strictEq (record.get? (js "session_id")) (some (.str sessionId))

/-- The registered sessions that have no record yet are added, one after another. -/
def addMissing (records : List (Json ν)) : List (Json ν) → List JsString → List (Json ν)
  | invalid, [] => invalid
  | invalid, sid :: rest =>
    if records.any (namesSession sid) || invalid.any (namesSession sid) then
      addMissing records invalid rest
    else addMissing records (invalid ++ [invalidRecord sid (js "missing_registered_marker")]) rest

/-- The end of `loadDenyRecords`, after the markers are read and the sentinel is healed. -/
def Load.conclude (load : Load ν) : LoadResult ν :=
  if load.expected && load.records.isEmpty && load.invalidRecords.isEmpty then
    load.unavailable (js "emptied_deny_store") []
  else load.available (addMissing load.records load.invalidRecords load.registered)

def endsWith (name suffix : JsString) : Bool := suffix.isSuffixOf name

/-- The session of a listed entry that is a marker. -/
def markerSession? (entry : JsString × Entry) : Option JsString :=
  if entry.1 = js "quarantine" ∨ entry.2 = .directory then none
  else if endsWith entry.1 (js ".tmp") then none
  else if !endsWith entry.1 (js ".json") then none
  else
    let sessionId := entry.1.take (entry.1.length - 5)
    if isSafeSessionId sessionId then some sessionId else none

def recordSession (record : Json ν) : JsString := (str? record (js "session_id")).getD []

/-! ## The calls, one file operation at a time -/

/-- What follows `ensureDenyStoreSentinel`. -/
inductive AfterEnsure (ν : Type) where
  | marker (sessionId reason : JsString)
  | migrate (load : Load ν)
  | heal (load : Load ν) (rest : List JsString)

/-- What follows `readDenyStoreSentinel`. -/
inductive AfterRead (ν : Type) where
  | ensure (sessionId : Option JsString) (k : AfterEnsure ν)
  | first (load : Load ν)
  | registered (load : Load ν)
  | healed (load : Load ν)

/-- Where a session stands, before the call to the file system that is named. -/
inductive DenyPoint (ν : Type) where
  | idle
  /-- `existsSync` of the marker; `written` once it has been written -/
  | markerExists (written : Bool) (opts : MarkerOpts ν)
  | markerRead (written : Bool) (opts : MarkerOpts ν)
  | quarantineExists (opts : MarkerOpts ν) (fault : MarkerFault)
  | quarantineRename (opts : MarkerOpts ν) (fault : MarkerFault)
  | markerMkdir (opts : MarkerOpts ν)
  | markerWrite (opts : MarkerOpts ν)
  | markerRename (opts : MarkerOpts ν)
  | sentinelExists (k : AfterRead ν)
  | sentinelRead (k : AfterRead ν)
  | legacyExists (k : AfterRead ν)
  | legacyRead (k : AfterRead ν)
  | ensureMkdir (sessionId : Option JsString) (k : AfterEnsure ν)
  | ensureExists (cur : SentinelInfo) (sessionId : Option JsString) (k : AfterEnsure ν)
  | ensureWrite (cur : SentinelInfo) (sessionId : Option JsString) (k : AfterEnsure ν)
  | ensureRename (cur : SentinelInfo) (sessionId : Option JsString) (k : AfterEnsure ν)
  | deniesExists (load : Load ν)
  | deniesList (load : Load ν)
  | entryExists (load : Load ν) (sessionId : JsString) (rest : List JsString)
  | entryRead (load : Load ν) (sessionId : JsString) (rest : List JsString)
  | healExists (load : Load ν)

structure Session (ν : Type) where
  point : DenyPoint ν
  ensured : List EnsureReturn
  /-- The results of `loadDenyRecords`, each with the sessions returned before the call. -/
  loads : List (List JsString × LoadResult ν)

inductive DenyEvent (ν : Type) where
  | ensureDenyMarker (opts : MarkerOpts ν)
  | loadDenyRecords (storeExpected : Option Bool)
  /-- Files under `denies/` are deleted, corrupted or replaced. -/
  | tamper (denies : Option (List (JsString × Entry)))
  | works
  /-- The call to the file system throws. -/
  | fails (code : JsString)

def Session.goto (session : Session ν) (point : DenyPoint ν) : Session ν :=
  { session with point := point }

def Session.returns (session : Session ν) (ok : Bool) (reason : JsString) : Session ν :=
  { session with point := .idle, ensured := ⟨ok, !ok, reason⟩ :: session.ensured }

def Session.loaded (session : Session ν) (before : List JsString) (result : LoadResult ν) :
    Session ν :=
  { session with point := .idle, loads := (before, result) :: session.loads }

def afterEnsure (store : DenyStore) (session : Session ν) (ok : Bool) :
    AfterEnsure ν → DenyStore × Session ν
  | .marker sessionId reason =>
    if ok then
      ({ store with returned := sessionId :: store.returned }, session.returns true reason)
    else (store, session.returns false (js "sentinel_write_failed"))
  | .migrate load => (store, session.goto (.sentinelExists (.registered load)))
  | .heal load [] => (store, session.goto (.sentinelExists (.healed load)))
  | .heal load (id :: rest) => (store, session.goto (.ensureMkdir (some id) (.heal load rest)))

def afterRead (session : Session ν) (info : SentinelInfo) : AfterRead ν → Session ν
  | .ensure sessionId k =>
    if info.keeps (nextSessions info sessionId) then session.goto (.ensureExists info sessionId k)
    else session.goto (.ensureWrite info sessionId k)
  | .first load =>
    let load := { load with expected := load.storeExpected.getD info.expected }
    if info.expected && info.legacy then session.goto (.ensureMkdir none (.migrate load))
    else session.goto (.sentinelExists (.registered load))
  | .registered load => session.goto (.deniesExists { load with registered := info.sessions })
  | .healed load =>
    session.loaded load.before ({ load with registered := info.sessions } : Load ν).conclude

/-- The sentinel is healed for the session of every record. -/
def startHeal (session : Session ν) (load : Load ν) : Session ν :=
  match load.records.map recordSession with
  | [] => session.loaded load.before load.conclude
  | id :: rest => session.goto (.ensureMkdir (some id) (.heal load rest))

/-- The next marker, or what follows the last one. -/
def nextEntry (session : Session ν) (load : Load ν) : List JsString → Session ν
  | sid :: rest => session.goto (.entryExists load sid rest)
  | [] =>
    if load.records.isEmpty then session.loaded load.before load.conclude
    else if (load.records.map recordSession).any fun id => !load.registered.contains id then
      startHeal session load
    else session.goto (.healExists load)

/-- What follows `readDenyMarker` in `ensureDenyMarker`. -/
def afterMarker (session : Session ν) (written : Bool) (opts : MarkerOpts ν)
    (check : Except MarkerFault (Json ν)) : Session ν :=
  match check with
  | .ok _ =>
    session.goto (.ensureMkdir (some opts.sessionId)
      (.marker opts.sessionId (if written then js "ok" else js "already_present")))
  | .error fault =>
    if written then session.returns false fault.text
    else
      match fault with
      | .unreadableMarker | .sessionIdMismatch | .invalidStatus => session.returns false fault.text
      | .corruptJson | .invalidShape => session.goto (.quarantineExists opts fault)
      | .missingMarker => session.goto (.markerMkdir opts)

variable (ν) in
/-- The safe ids that the sentinel lists. -/
def DenyStore.registered (store : DenyStore) : List JsString :=
  match store.sentinel with
  | some raw => (readSentinelText ν raw false).sessions
  | none => []

def denyStep {ι : Type} : Machine ι DenyStore (Session ν) (DenyEvent ν) := fun _ event store session =>
  match session.point, event with
  | _, .tamper denies => some ({ store with denies := denies }, session)
  | .idle, .ensureDenyMarker opts =>
    -- `assertSafeSessionId` throws
    if isSafeSessionId opts.sessionId then some (store, session.goto (.markerExists false opts))
    else some (store, session)
  | .idle, .loadDenyRecords storeExpected =>
    some (store, session.goto (.sentinelExists (.first
      { storeExpected := storeExpected, expected := false, registered := [], records := [],
        invalidRecords := [], before := store.returned })))
  | .markerExists written opts, .works =>
    if (store.entry? (markerName opts.sessionId)).isSome then
      some (store, session.goto (.markerRead written opts))
    else some (store, afterMarker session written opts (.error .missingMarker))
  | .markerRead written opts, .works =>
    some (store, afterMarker session written opts
      (readMarker opts.sessionId (store.entry? (markerName opts.sessionId))))
  | .quarantineExists opts fault, .works =>
    if (store.entry? (markerName opts.sessionId)).isSome then
      some (store, session.goto (.quarantineRename opts fault))
    else some (store, session.goto (.markerMkdir opts))
  | .quarantineRename opts _, .works =>
    some (store.dropMarker (markerName opts.sessionId), session.goto (.markerMkdir opts))
  | .quarantineRename _ fault, .fails _ =>
    some (store, session.returns false (js "quarantine_failed:" ++ fault.text))
  | .markerMkdir opts, .works =>
    some ({ store with denies := some (store.denies.getD []) }, session.goto (.markerWrite opts))
  -- without the directory these two calls throw
  | .markerWrite opts, .works =>
    if store.denies.isSome then some (store, session.goto (.markerRename opts)) else none
  | .markerRename opts, .works =>
    if store.denies.isSome then
      some (store.putMarker (markerName opts.sessionId) (stringify2 opts.record ++ [10]),
        session.goto (.markerExists true opts))
    else none
  | .markerMkdir _, .fails code | .markerWrite _, .fails code | .markerRename _, .fails code =>
    some (store, session.returns false (js "write_failed:" ++ code))
  | .sentinelExists k, .works =>
    some (store, session.goto (if store.sentinel.isSome then .sentinelRead k else .legacyExists k))
  | .sentinelRead k, .works =>
    -- a sentinel is never removed, so the file that was there still is
    some (store, afterRead session
      ((store.sentinel.map fun raw => readSentinelText ν raw false).getD ⟨true, [], false⟩) k)
  | .legacyExists k, .works =>
    if store.legacy.isSome then some (store, session.goto (.legacyRead k))
    else some (store, afterRead session ⟨false, [], false⟩ k)
  | .legacyRead k, .works =>
    some (store, afterRead session
      ((store.legacy.map fun raw => readSentinelText ν raw true).getD ⟨true, [], false⟩) k)
  | .ensureMkdir sessionId k, .works =>
    some (store, session.goto (.sentinelExists (.ensure sessionId k)))
  | .ensureExists cur sessionId k, .works =>
    if store.sentinel.isSome then some (afterEnsure store session true k)
    else some (store, session.goto (.ensureWrite cur sessionId k))
  | .ensureWrite cur sessionId k, .works =>
    some (store, session.goto (.ensureRename cur sessionId k))
  | .ensureRename cur sessionId k, .works =>
    some (afterEnsure { store with sentinel := some (sentinelBody ν (nextSessions cur sessionId)) }
      session true k)
  | .ensureMkdir _ k, .fails _ | .ensureWrite _ _ k, .fails _ | .ensureRename _ _ k, .fails _ =>
    some (afterEnsure store session false k)
  | .deniesExists load, .works =>
    if store.denies.isSome then some (store, session.goto (.deniesList load))
    else if load.expected then
      some (store, session.loaded load.before (load.unavailable (js "missing_deny_store") []))
    else some (store, session.loaded load.before (load.available []))
  | .deniesList load, .works =>
    match store.denies with
    | some entries => some (store, nextEntry session load (entries.filterMap markerSession?))
    | none =>
      some (store, session.loaded load.before (load.unavailable (js "readdir_failed") (js ":ENOENT")))
  | .deniesList load, .fails code =>
    some (store, session.loaded load.before
      (load.unavailable (js "readdir_failed") (js ":" ++ code)))
  | .entryExists load sid rest, .works =>
    if (store.entry? (markerName sid)).isSome then
      some (store, session.goto (.entryRead load sid rest))
    else some (store, nextEntry session load rest)
  | .entryRead load sid rest, .works =>
    match readMarker sid (store.entry? (markerName sid)) with
    | .ok record =>
      some (store, nextEntry session { load with records := load.records ++ [record] } rest)
    | .error fault =>
      some (store, nextEntry session
        { load with invalidRecords := load.invalidRecords ++ [invalidRecord sid fault.text] } rest)
  | .healExists load, .works =>
    some (store, if store.sentinel.isSome then session.loaded load.before load.conclude
      else startHeal session load)
  | _, _ => none

/-! ## The input of the gate -/

structure GateOpts (ν : Type) where
  currentSessionId : Option (Json ν)
  processStickyDeny : Bool
  resumeAuth : Option (Json ν)
  bypassForSession : Option (Json ν)
  manifestVerifyFailed : Bool

def mutationGateInputFromLoad (loaded : LoadResult ν) (opts : GateOpts ν) : GateInput ν :=
  let invalid := loaded.invalidRecords.filter fun r => !namesSession denyStoreId r
  let records := loaded.records ++ invalid
  let hasSelf := records.any fun r =>
    strictEq (r.get? (js "session_id")) opts.currentSessionId
  let vanished :=
    match opts.currentSessionId with
    | some (.str sid) => loaded.registeredSessions.contains sid && !hasSelf
    | _ => false
  { processStickyDeny := opts.processStickyDeny || vanished
    currentSessionId := opts.currentSessionId
    denyRecords := some (records.map some)
    resumeAuth := opts.resumeAuth
    bypassForSession := opts.bypassForSession
    manifestVerifyFailed := opts.manifestVerifyFailed
    denyStoreUnavailable := !loaded.ok || loaded.denyStoreUnavailable }

end Adlc.ContextHandoff
