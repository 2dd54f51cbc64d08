import Adlc.Framework.Latest
import Adlc.Framework.WriteAhead
import Adlc.Tickets.Journal
import Adlc.Tickets.RoundTrip

namespace Adlc.Tickets

open Adlc.Framework

variable {ν : Type} [JsNumber ν] [Unicode]

/-! ## What a transaction is asked for -/

/-- A change outside the active store. -/
structure AuxiliaryOperation where
  action : Action
  path : JsString
  content : JsString
  mustBeAbsent : Bool
  mustExist : Bool
  expectedBeforeHash : Option JsString

structure TransactionOptions where
  expectedSnapshotHash : Option JsString
  operation : JsString
  evidenceRequired : Bool
  ticketId : Option JsString
  beforeTicketId : Option JsString
  auxiliaryOperations : List AuxiliaryOperation
  verify : Repo → Except TicketStoreError Unit
  key : Option JsString
  allowUnsigned : Bool
  /-- `lock`: the caller holds it already. -/
  locked : Bool

def Directory.belongsTo (id : JsString) : Directory → Bool
  | .transaction name | .stage name | .backup name => decide (name = id)
  | _ => false

/-- The order in which the removal of a transaction's directory comes across its files. -/
structure RemovalOrder (id : JsString) where
  files : Repo → List Place
  mem : ∀ repo place, place ∈ files repo ↔ place.dir.belongsTo id = true ∧ (repo.file place).isSome = true

/-- The transaction's own files, one directory after another. -/
def ownPlaces (id : JsString) (repo : Repo) : List Place :=
  [Directory.transaction id, .stage id, .backup id].flatMap fun d =>
    (repo.dirs d).elim [] fun dir => dir.keys.map (Place.mk d)

omit [Unicode] in
theorem mem_ownPlaces {id : JsString} {repo : Repo} {place : Place} :
    place ∈ ownPlaces id repo ↔ place.dir.belongsTo id = true ∧ (repo.file place).isSome = true := by
  have hdir : ∀ d, place ∈ ((repo.dirs d).elim [] fun dir => dir.keys.map (Place.mk d)) ↔
      place.dir = d ∧ (repo.file place).isSome = true := by
    intro d
    obtain ⟨e, name⟩ := place
    cases hdirs : repo.dirs d with
    | none =>
      constructor
      · rintro ⟨⟩
      · rintro ⟨rfl, h⟩
        rw [Repo.file, hdirs] at h
        cases h
    | some dir =>
      simp only [Option.elim, List.mem_map, Place.mk.injEq]
      constructor
      · rintro ⟨key, hkey, rfl, rfl⟩
        refine ⟨rfl, ?_⟩
        rw [Repo.file, hdirs]
        exact AList.lookup_isSome.mpr (AList.mem_keys.mp hkey)
      · rintro ⟨rfl, h⟩
        rw [Repo.file, hdirs] at h
        exact ⟨name, AList.mem_keys.mpr (AList.lookup_isSome.mp h), rfl, rfl⟩
  simp only [ownPlaces, List.mem_flatMap, List.mem_cons, List.not_mem_nil, or_false, hdir]
  constructor
  · rintro ⟨d, rfl | rfl | rfl, hd, h⟩ <;> exact ⟨by rw [hd]; exact decide_eq_true rfl, h⟩
  · rintro ⟨hown, h⟩
    refine ⟨place.dir, ?_, rfl, h⟩
    cases hd : place.dir with
    | transaction name | stage name | backup name =>
      rw [hd] at hown
      obtain rfl : name = id := of_decide_eq_true hown
      simp
    | adlc | tickets | archive | segments | other path =>
      rw [hd] at hown
      cases hown

def RemovalOrder.byDirectory (id : JsString) : RemovalOrder id := ⟨ownPlaces id, fun _ _ => mem_ownPlaces⟩

/-- The process that works on a transaction. -/
structure TransactionProcess (ν : Type) (id : JsString) where
  root : Path
  owner : LockOwner
  checkout : Checkout
  revision : Json ν
  removal : RemovalOrder id

/-! ## Files -/

def stagePlace (id key : JsString) : Place := ⟨.stage id, key⟩
def backupPlace (id key : JsString) : Place := ⟨.backup id, key⟩
def shardPlace (filename : JsString) : Place := ⟨.tickets, filename⟩

/-- The file beside another one that is written before it is renamed. -/
def temporaryOf (target : Place) (suffix : String) (id : JsString) : Place :=
  ⟨target.dir, target.name ++ js suffix ++ id⟩

def fileHash (place : Place) : Script JsString := do
  let bytes ← readFile place
  pure (sha256Hex bytes)

/-- `store.load()` of the active store. -/
def loadStore : Script (TicketSnapshot ν) := do
  let repo ← .get
  .lift (activeStore.load (repo.dirs .tickets))

def removeIfThere (place : Place) : Script Unit := do
  let there ← fileExists place
  .when there (durableRemove place)

def replaceBy (copy temporary target : Place) : Script Unit := do
  durableCopy copy temporary
  durableRename temporary target

def removeFile (place : Place) : Script Unit := .atomic fun repo => (.ok (), repo.erase place)

def removeFiles : List Place → Script Unit
  | [] => pure ()
  | place :: places => do
    removeFile place
    removeFiles places

def removeEmptyDirectory (d : Directory) : Script Unit :=
  .atomic fun repo => (.ok (), repo.setDir d none)

/-- `durableRemove(transactionRoot, { recursive: true, force: true })` -/
def removeTransaction {id : JsString} (order : RemovalOrder id) : Script Unit := do
  let repo ← .get
  removeFiles (order.files repo)
  removeEmptyDirectory (.stage id)
  removeEmptyDirectory (.backup id)
  removeEmptyDirectory (.transaction id)

/-! ## Audit and binding -/

/-- What a write to a frozen trust root records. -/
structure BypassAudit where
  gate : JsString
  storeHashBefore : JsString

def transactionChangesAnything (before : TicketSnapshot ν) (tickets : List (Json ν))
    (auxiliaryOperations : List AuxiliaryOperation) : Except TicketStoreError Bool :=
  (storeHash tickets).map fun hash => decide (hash ≠ before.hash) || !auxiliaryOperations.isEmpty

def auditGate (evidenceRequired : Bool) (operation : JsString) : JsString :=
  if evidenceRequired then js "ticket-" ++ operation else js "ticket-mutation"

def bypassAuditPlan (repo : Repo) (before : TicketSnapshot ν) (o : TransactionOptions)
    (key : Option JsString) : Except TicketStoreError (Option BypassAudit) :=
  (assertSignableTrustRootWrite repo before.tickets key o.allowUnsigned).map fun frozen =>
    if frozen then some ⟨auditGate o.evidenceRequired o.operation, before.hash⟩ else none

structure EvidenceBinding where
  beforeTicketId : Option JsString
  beforeTicketHash : Option JsString
  afterTicketHash : Option JsString

/-- `text ? value : null` -/
def whenNamed {α : Type} (text : Option JsString) (value : Option α) : Option α :=
  match text with
  | none => none
  | some s => if s = [] then none else value

def evidenceBinding (before : TicketSnapshot ν) (tickets : List (Json ν))
    (ticketId beforeTicketId : Option JsString) : Except TicketStoreError EvidenceBinding := do
  let priorId := beforeTicketId.or ticketId
  let desired := whenNamed ticketId (tickets.find? fun ticket => decide (id? ticket = ticketId))
  let logicalTicketHash ← match desired with
    | none => .ok none
    | some ticket => (ticketHash ticket).map some
  let priorHash := priorId.bind before.ticketHashes
  return ⟨priorId,
    whenNamed priorId (priorHash.or (if priorId = ticketId then logicalTicketHash else none)),
    whenNamed ticketId (logicalTicketHash.or priorHash)⟩

/-! ## Staging -/

/-- `new Map(tickets.map((ticket) => [ticketFilename(ticket.id), ticket]))` -/
def byFilename (tickets : List (Json ν)) : List (JsString × Json ν) :=
  tickets.foldl (fun entries ticket => upsert entries (ticketFilename (idOf ticket)) ticket) []

def currentFilenames (before : TicketSnapshot ν) : List JsString :=
  firstSeen (before.tickets.map fun ticket => ticketFilename (idOf ticket))

/-- The shards of the store that are none of the tickets'. -/
def obsoleteFilenames (before : TicketSnapshot ν) (tickets : List (Json ν)) : List JsString :=
  (currentFilenames before).filter fun filename => decide (filename ∉ (byFilename tickets).map Prod.fst)

/-- A backup of the file, if it is there, with its hash. -/
def backUp (id key : JsString) (target : Place) : Script (Option JsString) := do
  if ← fileExists target then do
    durableCopy target (backupPlace id key)
    let hash ← fileHash (backupPlace id key)
    pure (some hash)
  else pure none

/-- `existsSync(target) && readFileSync(target, 'utf8') === text` -/
def holdsText (target : Place) (text : JsString) : Script Bool := do
  if ← fileExists target then do
    let bytes ← readFile target
    pure (decide (utf8Decode bytes = text))
  else pure false

def writeOperation (role : Role) (id key filename : JsString) (target : Place)
    (beforeHash : Option JsString) (text : JsString) : Operation :=
  ⟨role, .write, filename, target, some (stagePlace id key), beforeHash.map fun _ => backupPlace id key,
    beforeHash, some (sha256 text)⟩

def deleteOperation (role : Role) (id key filename : JsString) (target : Place)
    (beforeHash : Option JsString) : Operation :=
  ⟨role, .delete, filename, target, none, beforeHash.map fun _ => backupPlace id key, beforeHash, none⟩

def stageTicket (id filename : JsString) (ticket : Json ν) : Script (List Operation) := do
  let target := shardPlace filename
  let nextText ← .lift (prettyCanonicalJson ticket)
  if ← holdsText target nextText then pure []
  else do
    durableWrite (stagePlace id filename) (utf8Encode nextText)
    let beforeHash ← backUp id filename target
    pure [writeOperation .ticket id filename filename target beforeHash nextText]

/-- The loops of the staging, each of which pushes its operations. -/
def stageAll {ι : Type} (stage : ι → Script (List Operation)) : List ι → Script (List Operation)
  | [] => pure []
  | item :: items => do
    let staged ← stage item
    let operations ← stageAll stage items
    pure (staged ++ operations)

def stageDeletion (id filename : JsString) : Script (List Operation) := do
  durableCopy (shardPlace filename) (backupPlace id filename)
  let beforeHash ← fileHash (backupPlace id filename)
  pure [deleteOperation .ticket id filename filename (shardPlace filename) (some beforeHash)]

def auxiliaryKey (index : Nat) : JsString := js "aux-" ++ decimal index

/-- The checks of an auxiliary operation against the file it is about. -/
def checkAuxiliary (aux : AuxiliaryOperation) (relativeTarget : JsString) (current : Option JsString) :
    Except TicketStoreError Unit :=
  if aux.mustBeAbsent ∧ current.isSome then
    .error (conflict "AUXILIARY_TARGET_EXISTS" (js "auxiliary target already exists: " ++ relativeTarget))
  else if aux.mustExist ∧ current.isNone then
    .error (conflict "AUXILIARY_TARGET_MISSING" (js "auxiliary target is missing: " ++ relativeTarget))
  else
    match aux.expectedBeforeHash with
    | none => .ok ()
    | some expected =>
      if expected ≠ [] ∧ current ≠ some expected then
        .error (conflict "STALE_AUXILIARY_TARGET" (js "auxiliary target changed: " ++ relativeTarget))
      else .ok ()

def hashIfThere (target : Place) : Script (Option JsString) := do
  if ← fileExists target then do
    let hash ← fileHash target
    pure (some hash)
  else pure none

def stageAuxiliary (root : Path) (id : JsString) (entry : AuxiliaryOperation × Nat) :
    Script (List Operation) := do
  let (aux, index) := entry
  let absoluteTarget := resolve root aux.path
  if !isWithin root absoluteTarget then
    .fail (invalid "UNSAFE_TRANSACTION_PATH" (js "auxiliary target escapes the repository: " ++ aux.path))
  else do
    let relativeTarget := joinPath (absoluteTarget.drop root.length)
    let target := locate root absoluteTarget
    let currentHash ← hashIfThere target
    .lift (checkAuxiliary aux relativeTarget currentHash)
    let key := auxiliaryKey index
    .when currentHash.isSome (durableCopy target (backupPlace id key))
    match aux.action with
    | .write => do
      durableWrite (stagePlace id key) (utf8Encode aux.content)
      pure [writeOperation .auxiliary id key relativeTarget target currentHash aux.content]
    | .delete => pure [deleteOperation .auxiliary id key relativeTarget target currentHash]

/-! ## Applying -/

/-- `relative(root, value)` of a target, resolved again, is the target. -/
def applyOperation (id : JsString) (item : Operation) : Script Unit :=
  match item.action, item.stage with
  | .write, some stage => replaceBy stage (temporaryOf item.target ".txn-" id) item.target
  | .write, none => .fail (unexpected (js "The \"paths[1]\" argument must be of type string. Received null"))
  | .delete, _ => removeIfThere item.target

def applyOperations (id : JsString) : List Operation → Script Unit
  | [] => pure ()
  | item :: operations => do
    applyOperation id item
    applyOperations id operations

def recordEvidence {id : JsString} (self : TransactionProcess ν id) (key : Option JsString)
    (e : Evidence ν) : Script Unit :=
  .atomic fun repo =>
    ((recordTicketEvidence key self.checkout e repo.manifest).1.map fun _ => (),
      repo.setManifest (recordTicketEvidence key self.checkout e repo.manifest).2)

def applyEvidence {id : JsString} (self : TransactionProcess ν id) (t : Transaction)
    (after : TicketSnapshot ν) (bypass : Option BypassAudit) : Evidence ν where
  transactionId := t.id
  operation := some (.str t.operation)
  action := js "apply"
  ticketId := orNullText t.ticketId
  ticketHash := orNullText t.afterTicketHash
  storeHash := some (.str after.hash)
  archiveHash := .null
  revision := self.revision
  gate := bypass.elim (js "ticket-" ++ t.operation) BypassAudit.gate
  bypass := bypass.isSome
  storeHashBefore := orNullText (bypass.map BypassAudit.storeHashBefore)
  ticketIds := .null
  acceptLegacyMatch := false

/-- What is staged, and how it is to be audited; nothing but the transaction's own files is written. -/
def prepare {id : JsString} (self : TransactionProcess ν id) (tickets : List (Json ν))
    (o : TransactionOptions) (key : Option JsString) : Script (Transaction × Option BypassAudit) := do
  let before : TicketSnapshot ν ← loadStore
  .lift (match o.expectedSnapshotHash with
    | none => .ok ()
    | some expected =>
      if expected ≠ [] ∧ before.hash ≠ expected then
        .error (conflict "STALE_SNAPSHOT" (js "expected " ++ expected ++ js ", found " ++ before.hash))
      else .ok ())
  let changes ← .lift (transactionChangesAnything before tickets o.auxiliaryOperations)
  let repo ← .get
  let bypassAudit ← .lift (if changes then bypassAuditPlan repo before o key else .ok none)
  durableMkdir (.transaction id)
  durableMkdir (.stage id)
  durableMkdir (.backup id)
  let written ← stageAll (fun entry => stageTicket id entry.1 entry.2) (byFilename tickets)
  let deleted ← stageAll (stageDeletion id) (obsoleteFilenames before tickets)
  let auxiliary ← stageAll (stageAuxiliary self.root id) o.auxiliaryOperations.zipIdx
  let afterHash ← .lift (storeHash tickets)
  let binding ← .lift (evidenceBinding before tickets o.ticketId o.beforeTicketId)
  pure (⟨id, o.operation, before.hash, afterHash, o.evidenceRequired, bypassAudit.isSome, o.ticketId,
    binding.beforeTicketId, binding.beforeTicketHash, binding.afterTicketHash,
    written ++ deleted ++ auxiliary⟩, bypassAudit)

def preparedState : JsString := js "prepared"
def completeState : JsString := js "complete"

/-- From the journal on. -/
def commit {id : JsString} (self : TransactionProcess ν id) (o : TransactionOptions) (key : Option JsString)
    (t : Transaction) (bypass : Option BypassAudit) : Script (TicketSnapshot ν) := do
  durableWrite (journalPlace id) (t.bytes ν preparedState)
  applyOperations id t.operations
  let after : TicketSnapshot ν ← loadStore
  if after.hash ≠ t.afterHash then
    .fail (invalid "TRANSACTION_VERIFY_FAILED"
      (js "transaction produced " ++ after.hash ++ js ", expected " ++ t.afterHash))
  else do
    let repo ← .get
    .lift (o.verify repo)
    .when (o.evidenceRequired || bypass.isSome) (recordEvidence self key (applyEvidence self t after bypass))
    durableWrite (journalPlace id) (t.bytes ν completeState)
    removeTransaction self.removal
    pure after

/-- What is left of a transaction that failed before it had a journal is removed. -/
def dropUnjournaled {id : JsString} (order : RemovalOrder id) : Script Unit := do
  let repo ← .get
  .when ((repo.file (journalPlace id)).isNone && (repo.dirs (.transaction id)).isSome)
    (removeTransaction order)

def applyDirectoryTransaction {id : JsString} (self : TransactionProcess ν id) (tickets : List (Json ν))
    (o : TransactionOptions) : Script (TicketSnapshot ν) := do
  let key ← .lift (validateKeyParam o.key)
  .lift (validateTickets false true tickets)
  .when (!o.locked) (acquireTicketLock self.owner)
  let body : Script (TicketSnapshot ν) := do
    let (t, bypass) ← prepare self tickets o key
    commit self o key t bypass
  (body.tryCatch fun error => do
    dropUnjournaled self.removal
    .fail error).tryFinally (.when (!o.locked) (releaseTicketLock self.owner))

end Adlc.Tickets
