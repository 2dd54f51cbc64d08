import Adlc.Tickets.Transaction

namespace Adlc.Tickets

open Adlc.Framework

variable {ν : Type} [JsNumber ν] [Unicode]

/-! ## What a journal says -/

/-- The text of a string, and otherwise that of the value. -/
def templateText (value : Option (Json ν)) : JsString :=
  match value with
  | none => js "undefined"
  | some (.str s) => s
  | some v => stringify v

def Journal.text? (journal : Journal ν) (k : String) : Option JsString :=
  match journal.get? k with
  | some (.str s) => some s
  | _ => none

def isTruthy (value : Option (Json ν)) : Bool := value.any truthy

def writtenShardFilenames (journal : Journal ν) : List JsString :=
  journal.operations.filterMap fun item =>
    if eqStr (item.get? (js "action")) (js "write") then str? item (js "filename") else none

/-- Whether the copy that an operation backed up declares rails; what cannot be read may. -/
def backupDeclaresRails (root : Path) (repo : Repo) (item : Json ν) : Bool :=
  match item.get? (js "backup") with
  | none => false
  | some (.str text) =>
    if text = [] then false
    else
      match repo.file (locate root (resolve root text)) with
      | none => true
      | some bytes =>
        if (str? item (js "beforeHash")).any fun hash => decide (sha256Hex bytes ≠ hash) then true
        else
          match parseJson (ν := ν) (utf8Decode bytes) with
          | none => true
          | some parsed =>
            match parsed.get? (js "tickets") with
            | some (.arr tickets) => storeDeclaresRails (some (.arr tickets))
            | _ => storeDeclaresRails (some (.arr [parsed]))
  | some value => truthy value

def journalBackupsDeclareRails (root : Path) (repo : Repo) (journal : Journal ν) : Bool :=
  journal.operations.any (backupDeclaresRails root repo)

/-- The tickets that the transaction did not write. -/
def preTransactionTickets (journal : Journal ν) (current : TicketSnapshot ν) : List (Json ν) :=
  if journal.operations.any fun item => eqStr (item.get? (js "role")) (js "legacy-store") then []
  else current.tickets.filter fun item => decide (ticketFilename (idOf item) ∉ writtenShardFilenames journal)

/-- Whether the store is a trust root as it was before the transaction, and the hash that it has now. -/
def storeBeforeRecovery (journal : Journal ν) : Script (Bool × Option JsString) :=
  Program.tryCatch (do
    let current : TicketSnapshot ν ← loadStore
    let repo ← .get
    pure (repoDeclaresRails repo (preTransactionTickets journal current), some current.hash))
  fun _ => pure (true, none)

def checkStorePath (root : Path) (journal : Journal ν) : Except TicketStoreError Unit :=
  match journal.get? "storePath" with
  | none => .ok ()
  | some (.str text) =>
    if text ≠ [] ∧ resolve root text ≠ root ++ Directory.tickets.segmentsOf then
      .error (invalidJournal "journal store path does not match the configured recovery store")
    else .ok ()
  | some value =>
    if truthy value then
      .error (unexpected (js "The \"paths[1]\" argument must be of type string"))
    else .ok ()

/-! ## One operation -/

def operationAction (item : Json ν) : Except TicketStoreError Action :=
  if eqStr (item.get? (js "action")) (js "write") then .ok .write
  else if eqStr (item.get? (js "action")) (js "delete") then .ok .delete
  else .error (invalidJournal "journal contains an unsupported operation")

/-- `item.role ?? …` -/
def recoveryRole (root : Path) (item : Json ν) (target : Path) : JsString :=
  match item.get? (js "role") with
  | some (.str role) => role
  | none | some .null =>
    if target.dropLast = root ++ Directory.tickets.segmentsOf then js "ticket" else js "auxiliary"
  | some v => stringify v

/-- The actions that an archive and a restore may have taken outside the active store. -/
def expectedAuxiliaryAction (journal : Journal ν) : Option Action :=
  if eqStr (journal.get? "operation") (js "archive") then some .write
  else if eqStr (journal.get? "operation") (js "restore") then some .delete
  else none

def priorAuxiliaryCount (journal : Journal ν) (index : Nat) : Nat :=
  (journal.operations.take index).countP fun item => eqStr (item.get? (js "role")) (js "auxiliary")

/-- The name of an operation's copies. -/
def recoveryKey (root : Path) (journal : Journal ν) (item : Json ν) (index : Nat) (action : Action)
    (target : Path) : Except TicketStoreError JsString :=
  if recoveryRole root item target = js "legacy-store" then
    .error (invalidJournal "legacy recovery must contain exactly one store write")
  else if recoveryRole root item target = js "ticket" then
    match str? item (js "filename") with
    | some filename =>
      if target.dropLast = root ++ Directory.tickets.segmentsOf ∧ target.getLast? = some filename ∧
          isShardFilename filename = true then .ok filename
      else .error (invalidJournal "ticket recovery target is not a shard in the configured store")
    | none => .error (invalidJournal "ticket recovery target is not a shard in the configured store")
  else if recoveryRole root item target = js "auxiliary" then
    match journal.text? "ticketId" with
    | some ticketId =>
      if expectedAuxiliaryAction journal ≠ some action then
        .error (invalidJournal "auxiliary recovery is only valid for archive or restore")
      else do
        assertExactJournalPath target (root ++ Directory.archive.segmentsOf ++ [ticketFilename ticketId])
          (js "archive operation target")
        return auxiliaryKey (priorAuxiliaryCount journal index)
    | none => .error (invalidJournal "auxiliary recovery is only valid for archive or restore")
  else .error (invalid "INVALID_JOURNAL" (js "unsupported recovery operation role: " ++
    recoveryRole root item target))

def validateRecoveryOperation (root : Path) (id : JsString) (journal : Journal ν) (item : Json ν)
    (index : Nat) (action : Action) (target : Path) : Except TicketStoreError Unit := do
  let key ← recoveryKey root journal item index action target
  match action with
  | .write => do
    let stage ← safeJournalPath root (item.get? (js "stage")) (js "operation stage")
    assertExactJournalPath stage ((stagePlace id key).path root) (js "operation stage")
  | .delete =>
    match item.get? (js "stage") with
    | none | some .null => .ok ()
    | some _ => .error (invalidJournal "delete recovery operation must not contain a stage")
  if isTruthy (item.get? (js "backup")) then do
    let backup ← safeJournalPath root (item.get? (js "backup")) (js "operation backup")
    assertExactJournalPath backup ((backupPlace id key).path root) (js "operation backup")
  else .ok ()

/-- The file takes its content from the copy, whose hash the journal holds. -/
def restoreFrom (copy target temporary : Place) (hash : Option (Json ν)) (refusal : TicketStoreError) :
    Script Unit := do
  if ← fileExists copy then do
    let found ← fileHash copy
    if eqStr hash found then replaceBy copy temporary target else .fail refusal
  else .fail refusal

def recoverOperation (root : Path) (id : JsString) (journal : Journal ν) (direction : Direction)
    (index : Nat) (item : Json ν) : Script Unit := do
  let action ← .lift (operationAction item)
  let target ← .lift (safeJournalPath root (item.get? (js "target")) (js "operation target"))
  .lift (validateRecoveryOperation root id journal item index action target)
  match direction with
  | .complete =>
    match action with
    | .delete => removeIfThere (locate root target)
    | .write => do
      let stage ← .lift (safeJournalPath root (item.get? (js "stage")) (js "operation stage"))
      restoreFrom (locate root stage) (locate root target)
        (temporaryOf (locate root target) ".recovery-" id) (item.get? (js "afterHash"))
        (invalid "CORRUPT_STAGE" (js "cannot verify staged " ++ templateText (item.get? (js "filename"))))
  | .rollback =>
    if isTruthy (item.get? (js "backup")) then do
      let backup ← .lift (safeJournalPath root (item.get? (js "backup")) (js "operation backup"))
      restoreFrom (locate root backup) (locate root target)
        (temporaryOf (locate root target) ".rollback-" id) (item.get? (js "beforeHash"))
        (invalid "CORRUPT_BACKUP" (js "cannot verify backup " ++ templateText (item.get? (js "filename"))))
    else removeIfThere (locate root target)

def recoverOperations (root : Path) (id : JsString) (journal : Journal ν) (direction : Direction) :
    Nat → List (Json ν) → Script Unit
  | _, [] => pure ()
  | index, item :: items => do
    recoverOperation root id journal direction index item
    recoverOperations root id journal direction (index + 1) items

/-! ## Recovery -/

structure RecoveryOptions where
  direction : Direction
  key : Option JsString
  allowUnsigned : Bool

def Direction.text : Direction → JsString
  | .complete => js "complete"
  | .rollback => js "rollback"

/-- The hash that the store has when it is recovered. -/
def expectedHash (journal : Journal ν) : Direction → Option (Json ν)
  | .complete => journal.get? "afterHash"
  | .rollback => journal.get? "beforeHash"

def recoveryGate (journal : Journal ν) : JsString :=
  auditGate (isTruthy (journal.get? "evidenceRequired")) (templateText (journal.get? "operation"))

/-- `value ?? null` of a field that is defaulted. -/
def Journal.orNull (journal : Journal ν) (k : String) : Json ν := Tickets.orNull (journal.get? k)

/-- The transition that the journal's transaction was to make. -/
def originalEvidence {id : JsString} (self : TransactionProcess ν id) (journal : Journal ν) : Evidence ν where
  transactionId := id
  operation := journal.get? "operation"
  action := js "apply"
  ticketId := journal.orNull "ticketId"
  ticketHash := journal.orNull "afterTicketHash"
  storeHash := journal.get? "afterHash"
  archiveHash := .null
  revision := self.revision
  gate := recoveryGate journal
  bypass := true
  storeHashBefore := journal.orNull "beforeHash"
  ticketIds := .null
  acceptLegacyMatch := true

def recoveredTicketId (journal : Journal ν) : Direction → Json ν
  | .complete => journal.orNull "ticketId"
  | .rollback =>
    match journal.orNull "beforeTicketId" with
    | .null => journal.orNull "ticketId"
    | value => value

def recordedTicketHash (journal : Journal ν) : Direction → Json ν
  | .complete => journal.orNull "afterTicketHash"
  | .rollback => journal.orNull "beforeTicketHash"

/-- The recovered ticket's hash, where there is such a ticket. -/
def recoveredTicketHash (journal : Journal ν) (direction : Direction) (snapshot : TicketSnapshot ν) : Json ν :=
  match recoveredTicketId journal direction with
  | .str ticketId =>
    if ticketId = [] then .null
    else ((snapshot.ticketHashes ticketId).map Json.str).getD (recordedTicketHash journal direction)
  | value => if truthy value then recordedTicketHash journal direction else .null

def recoveryEvidence {id : JsString} (self : TransactionProcess ν id) (journal : Journal ν)
    (direction : Direction) (snapshot : TicketSnapshot ν) (audited : Bool) (storeHashBefore : Json ν) :
    Evidence ν where
  transactionId := id
  operation := journal.get? "operation"
  action := js "recover-" ++ Direction.text direction
  ticketId := recoveredTicketId journal direction
  ticketHash := recoveredTicketHash journal direction snapshot
  storeHash := some (.str snapshot.hash)
  archiveHash := .null
  revision := self.revision
  gate := if audited then recoveryGate journal else js "ticket-" ++ templateText (journal.get? "operation")
  bypass := audited
  storeHashBefore := if audited then storeHashBefore else .null
  ticketIds := .null
  acceptLegacyMatch := false

/-- What a recovery records, if it is to be recorded. -/
def recordRecovery {id : JsString} (self : TransactionProcess ν id) (key : Option JsString)
    (journal : Journal ν) (direction : Direction) (snapshot : TicketSnapshot ν) (audited : Bool)
    (storeHashBefore : Json ν) : Script Unit := do
  if isTruthy (journal.get? "evidenceRequired") ∨ audited then
    if truthy (recoveredTicketId journal direction) ∧
        ¬truthy (recoveredTicketHash journal direction snapshot) then
      .fail (invalid "RECOVERY_EVIDENCE_UNBOUND" (js "cannot bind recovery evidence to ticket " ++
        templateText (some (recoveredTicketId journal direction))))
    else do
      .when (decide (direction = .complete) && audited) (recordEvidence self key (originalEvidence self journal))
      recordEvidence self key (recoveryEvidence self journal direction snapshot audited storeHashBefore)
  else pure ()

/-- What a recovery does while it holds the lock. -/
def recoverLocked {id : JsString} (self : TransactionProcess ν id) (journal : Journal ν)
    (o : RecoveryOptions) (key : Option JsString) : Script (TicketSnapshot ν) := do
  let (storeIsTrustRoot, preRecoveryHash) ← storeBeforeRecovery journal
  let repo ← .get
  let audited := storeIsTrustRoot || journalBackupsDeclareRails self.root repo journal ||
    eqTrue (journal.get? "bypassAudit")
  .lift (if audited then assertWriteIsSignable key o.allowUnsigned else .ok ())
  .lift (checkStorePath self.root journal)
  recoverOperations self.root id journal o.direction 0 journal.operations
  let snapshot : TicketSnapshot ν ← loadStore
  if eqStr (expectedHash journal o.direction) snapshot.hash then do
    recordRecovery self key journal o.direction snapshot audited
      ((preRecoveryHash.map Json.str).getD (journal.orNull "beforeHash"))
    removeTransaction self.removal
    pure snapshot
  else .fail (invalid "RECOVERY_VERIFY_FAILED" (js "recovery produced " ++ snapshot.hash ++ js ", expected " ++
    templateText (expectedHash journal o.direction)))

def recoverDirectoryTransaction {id : JsString} (self : TransactionProcess ν id) (o : RecoveryOptions) :
    Script (TicketSnapshot ν) := do
  let key ← .lift (validateKeyParam o.key)
  let journal : Journal ν ← loadJournal id
  acquireTicketLock self.owner
  (recoverLocked self journal o key).tryFinally (releaseTicketLock self.owner)

end Adlc.Tickets
