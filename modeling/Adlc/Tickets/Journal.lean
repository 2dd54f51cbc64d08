import Adlc.Tickets.Evidence

namespace Adlc.Tickets

open Adlc.Framework

variable {ν : Type} [JsNumber ν]

/-! ## Names -/

def isHexAnyCase (c : UInt16) : Bool := isHexUnit (lowerUnit c)
def isVersionUnit (c : UInt16) : Bool := 49 ≤ c.toNat && c.toNat ≤ 53
def isVariantUnit (c : UInt16) : Bool := decide (lowerUnit c ∈ js "89ab")

/-- A string of one unit for each class. -/
def matchesClasses : List (UInt16 → Bool) → JsString → Bool
  | [], [] => true
  | inClass :: classes, c :: s => inClass c && matchesClasses classes s
  | _, _ => false

/-- `TRANSACTION_ID`: the text of a UUID. -/
def isTransactionId (id : JsString) : Bool :=
  let hex := fun n => List.replicate n isHexAnyCase
  matchesClasses (hex 8 ++ [isDash] ++ hex 4 ++ [isDash] ++ [isVersionUnit] ++ hex 3 ++ [isDash] ++
    [isVariantUnit] ++ hex 3 ++ [isDash] ++ hex 12) id

/-! ## Paths in a journal -/

def journalName : JsString := js "journal.json"

def journalPlace (id : JsString) : Place := ⟨.transaction id, journalName⟩

/-- `relative(root, path)` -/
def Place.relative (place : Place) : JsString := joinPath (place.dir.segmentsOf ++ [place.name])

def safeJournalPath (root : Path) (value : Option (Json ν)) (label : JsString) :
    Except TicketStoreError Path :=
  match value with
  | some (.str text) =>
    if text = [] then .error (invalid "INVALID_JOURNAL" (label ++ js " must be a non-empty relative path"))
    else if isWithin root (resolve root text) then .ok (resolve root text)
    else .error (invalid "UNSAFE_JOURNAL_PATH" (label ++ js " escapes the repository: " ++ text))
  | _ => .error (invalid "INVALID_JOURNAL" (label ++ js " must be a non-empty relative path"))

def assertExactJournalPath (actual expected : Path) (label : JsString) :
    Except TicketStoreError Unit :=
  if actual = expected then .ok ()
  else .error (invalid "INVALID_JOURNAL" (label ++ js " does not match the transaction layout"))

/-! ## Reading a journal -/

/-- A journal that was read, with its operations. -/
structure Journal (ν : Type) where
  value : Json ν
  operations : List (Json ν)

def Journal.get? (journal : Journal ν) (k : String) : Option (Json ν) := journal.value.get? (js k)

/-- The journal in a file; a migration's is not read here. -/
def parseJournal (bytes : Bytes) : Option (Journal ν) :=
  match parseJson (utf8Decode bytes) with
  | none => none
  | some journal =>
    match journal.get? (js "operations") with
    | some (.arr operations) =>
      if eqNum (journal.get? (js "version")) (JsNumber.ofNat 1) &&
          !eqStr (journal.get? (js "operation")) (js "migrate") then some ⟨journal, operations⟩
      else none
    | _ => none

def invalidJournal (message : String) : TicketStoreError := invalid "INVALID_JOURNAL" (js message)

def loadJournal (id : JsString) : Script (Journal ν) := do
  if !isTransactionId id then
    .fail (invalid "INVALID_TRANSACTION_ID" (js "invalid transaction id: " ++ id))
  else
    let repo ← .get
    match (repo.file (journalPlace id)).bind parseJournal with
    | some journal => pure journal
    | none => .fail (invalid "INVALID_JOURNAL" (js "cannot read transaction " ++ id ++ js ": "))

/-! ## Writing one -/

inductive Action where
  | write | delete
  deriving DecidableEq

def Action.text : Action → JsString
  | write => js "write"
  | delete => js "delete"

inductive Role where
  | ticket | auxiliary

def Role.text : Role → JsString
  | ticket => js "ticket"
  | auxiliary => js "auxiliary"

/-- One operation of a transaction, as its journal records it. -/
structure Operation where
  role : Role
  action : Action
  filename : JsString
  target : Place
  stage : Option Place
  backup : Option Place
  beforeHash : Option JsString
  afterHash : Option JsString

/-- `value`, or null. -/
def orNullText (value : Option JsString) : Json ν := value.elim .null .str

def Operation.toJson (op : Operation) : Json ν :=
  .obj [(js "role", .str op.role.text), (js "action", .str op.action.text),
    (js "filename", .str op.filename), (js "target", .str op.target.relative),
    (js "stage", orNullText (op.stage.map Place.relative)),
    (js "backup", orNullText (op.backup.map Place.relative)),
    (js "beforeHash", orNullText op.beforeHash), (js "afterHash", orNullText op.afterHash)]

/-- What a journal says of its transaction. -/
structure Transaction where
  id : JsString
  operation : JsString
  beforeHash : JsString
  afterHash : JsString
  evidenceRequired : Bool
  bypassAudit : Bool
  ticketId : Option JsString
  beforeTicketId : Option JsString
  beforeTicketHash : Option JsString
  afterTicketHash : Option JsString
  operations : List Operation

def storePathText : JsString := joinPath Directory.tickets.segmentsOf

def Transaction.toJson (t : Transaction) (state : JsString) : Json ν :=
  .obj [(js "version", .num (JsNumber.ofNat 1)), (js "id", .str t.id),
    (js "operation", .str t.operation), (js "state", .str state),
    (js "beforeHash", .str t.beforeHash), (js "afterHash", .str t.afterHash),
    (js "evidenceRequired", .bool t.evidenceRequired), (js "bypassAudit", .bool t.bypassAudit),
    (js "ticketId", orNullText t.ticketId), (js "beforeTicketId", orNullText t.beforeTicketId),
    (js "beforeTicketHash", orNullText t.beforeTicketHash),
    (js "afterTicketHash", orNullText t.afterTicketHash), (js "storePath", .str storePathText),
    (js "operations", .arr (t.operations.map Operation.toJson))]

/-- The journal's file, in the state `prepared` or `complete`. -/
def Transaction.bytes (ν : Type) [JsNumber ν] (t : Transaction) (state : JsString) : Bytes :=
  utf8Encode (stringify2 (t.toJson state : Json ν) ++ [10])

end Adlc.Tickets
