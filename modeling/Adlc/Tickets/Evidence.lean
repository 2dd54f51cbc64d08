import Adlc.Tickets.TrustRoot

namespace Adlc.Tickets

open Adlc.Framework

variable {ν : Type} [JsNumber ν]

/-! ## The forest as the ticket package reads it -/

/-- The loop of `chainIsIntact`, from the line after `prevLine` on. -/
def chainIsIntactFrom (key : Option JsString) (prevLine : Option JsString) (prevSeq : ν)
    (seenSignedEntry : Bool) : List JsString → Except TicketStoreError Bool
  | [] => .ok true
  | line :: lines =>
    match parseJson (ν := ν) line with
    | none => .ok false
    | some entry =>
      let seq : ν := JsNumber.add prevSeq (JsNumber.ofNat 1)
      if !linksTo (entry.get? (js "prev")) prevLine || !eqNum (entry.get? (js "seq")) seq then
        .ok false
      else
        match key, entry.get? (js "sig") with
        | none, _ => chainIsIntactFrom key (some line) seq seenSignedEntry lines
        | some key', some _ =>
          match entrySigValid key' entry with
          | .error e => .error e
          | .ok false => .ok false
          | .ok true => chainIsIntactFrom key (some line) seq true lines
        | some _, none =>
          if seenSignedEntry then .ok false
          else chainIsIntactFrom key (some line) seq seenSignedEntry lines

def chainIsIntact (ν : Type) [JsNumber ν] (file : Option Bytes) (key : Option JsString) :
    Except TicketStoreError Bool :=
  chainIsIntactFrom key none (JsNumber.ofNat 0 : ν) false (linesOf file)

def everyChainIsIntact (ν : Type) [JsNumber ν] (files : ManifestFiles) (key : Option JsString) :
    List JsString → Except TicketStoreError Bool
  | [] => .ok true
  | name :: names =>
    match chainIsIntact ν (files.segmentFile name) key with
    | .error e => .error e
    | .ok false => .ok false
    | .ok true => everyChainIsIntact ν files key names

def forestChainsIntact (ν : Type) [JsNumber ν] [Unicode] (files : ManifestFiles)
    (key : Option JsString) : Except TicketStoreError Bool :=
  match chainIsIntact ν files.root key with
  | .error e => .error e
  | .ok false => .ok false
  | .ok true =>
    let discovered := discoverSegments ν files
    if discovered.invalid ≠ [] then .ok false
    else everyChainIsIntact ν files key discovered.valid

/-- The lines that parse to a truthy value. -/
def entriesOf (file : Option Bytes) : List (Json ν) :=
  (linesOf file).filterMap fun line => (parseJson line).filter truthy

def readForestEntries [Unicode] (files : ManifestFiles) : List (Json ν) :=
  entriesOf files.root ++
    (discoverSegments ν files).valid.flatMap fun name => entriesOf (files.segmentFile name)

/-! ## The record -/

/-- What `recordTicketEvidence` is asked to record, with its defaults filled in. -/
structure Evidence (ν : Type) where
  transactionId : JsString
  operation : Option (Json ν)
  action : JsString
  ticketId : Json ν
  ticketHash : Json ν
  storeHash : Option (Json ν)
  archiveHash : Json ν
  revision : Json ν
  gate : JsString
  bypass : Bool
  storeHashBefore : Json ν
  ticketIds : Json ν
  acceptLegacyMatch : Bool

def Evidence.bindingScope (e : Evidence ν) : JsString :=
  if truthy e.ticketId then js "ticket" else js "store"

/-- The fields that only an override's entry has. -/
def Evidence.auditFields (e : Evidence ν) : List (JsString × Option (Json ν)) :=
  [(js "op", e.operation), (js "ticketId", some e.ticketId)] ++
  (if truthy e.ticketIds then [(js "ticketIds", some e.ticketIds)] else []) ++
  [(js "storeHashBefore", some e.storeHashBefore), (js "storeHashAfter", e.storeHash),
    (js "bypass", some (.bool true))]

/-- The entry's `data`, in the order its fields are made. -/
def Evidence.fields (e : Evidence ν) : List (JsString × Option (Json ν)) :=
  [(js "operation", e.operation), (js "action", some (.str e.action)),
    (js "transactionId", some (.str e.transactionId)), (js "revision", some e.revision),
    (js "ticketHash", some e.ticketHash), (js "storeHash", e.storeHash)] ++
  (if truthy e.archiveHash then [(js "archiveHash", some e.archiveHash)] else []) ++
  [(js "bindingScope", some (.str e.bindingScope))] ++
  (if e.bypass then e.auditFields else [])

/-- `JSON.stringify` leaves an undefined field out. -/
def definedFields (fields : List (JsString × Option (Json ν))) : Members ν :=
  fields.filterMap fun p => p.2.map fun v => (p.1, v)

def Evidence.data (e : Evidence ν) : Json ν := .obj (definedFields e.fields)

/-! ## Evidence that is there already -/

/-- `left === right`; two objects are never the same one. -/
def strictEq (left right : Option (Json ν)) : Bool :=
  match left, right with
  | none, none | some .null, some .null => true
  | some (.bool a), some (.bool b) => decide (a = b)
  | some (.num a), some (.num b) => decide (a = b)
  | some (.str a), some (.str b) => decide (a = b)
  | _, _ => false

/-- `value ?? null` -/
def orNull (value : Option (Json ν)) : Json ν := value.getD .null

def auditFieldNames : List JsString :=
  [js "bypass", js "op", js "ticketId", js "storeHashBefore", js "storeHashAfter", js "ticketIds"]

def auditFieldsAgree (found data : Json ν) : List JsString → Except TicketStoreError Bool
  | [] => .ok true
  | field :: fields =>
    match canonicalJson (orNull (found.get? field)), canonicalJson (orNull (data.get? field)) with
    | .ok a, .ok b => if a = b then auditFieldsAgree found data fields else .ok false
    | .error e, _ | _, .error e => .error e

def auditFieldsMatch (found data : Json ν) (acceptLegacyMatch : Bool) :
    Except TicketStoreError Bool :=
  if acceptLegacyMatch ∧ ∀ field ∈ auditFieldNames, found.get? field = none then .ok true
  else auditFieldsAgree found data auditFieldNames

def evidenceConflict (e : Evidence ν) : TicketStoreError :=
  conflict "EVIDENCE_IDEMPOTENCY_CONFLICT" (js "transaction " ++ e.transactionId ++ js "/" ++
    e.action ++ js " already has different evidence")

def isCandidate (e : Evidence ν) (found : Json ν) : Bool :=
  eqStr (found.get? (js "transactionId")) e.transactionId &&
    eqStr (found.get? (js "action")) e.action

/-- Whether an entry of the transaction and action is the record that would be written. -/
def matchesEvidence (e : Evidence ν) (entry found : Json ν) : Except TicketStoreError Bool :=
  if eqStr (entry.get? (js "gate")) e.gate &&
      strictEq (some (orNull (entry.get? (js "ticket")))) (some e.ticketId) &&
      strictEq (found.get? (js "operation")) e.operation &&
      strictEq (some (orNull (found.get? (js "ticketHash")))) (some e.ticketHash) &&
      strictEq (found.get? (js "storeHash")) e.storeHash &&
      strictEq (some (orNull (found.get? (js "archiveHash")))) (some e.archiveHash) &&
      eqStr (found.get? (js "bindingScope")) e.bindingScope then
    auditFieldsMatch found e.data e.acceptLegacyMatch
  else .ok false

/-- One entry of the scan: the record itself, or nothing of interest; an entry of the transaction
and action that says something else is a conflict. With a key only a signed entry counts. -/
def examineEntry (key : Option JsString) (e : Evidence ν) (entry : Json ν) :
    Except TicketStoreError (Option (Json ν)) :=
  match entry.get? (js "data") with
  | none => .ok none
  | some found =>
    if isCandidate e found then
      match key.elim (.ok true) fun key => entrySigValid key entry with
      | .error err => .error err
      | .ok false => .ok none
      | .ok true =>
        match matchesEvidence e entry found with
        | .error err => .error err
        | .ok false => .error (evidenceConflict e)
        | .ok true => .ok (some entry)
    else .ok none

def findMatchingEvidence (key : Option JsString) (e : Evidence ν) :
    List (Json ν) → Except TicketStoreError (Option (Json ν))
  | [] => .ok none
  | entry :: entries =>
    match examineEntry key e entry with
    | .error err => .error err
    | .ok (some found) => .ok (some found)
    | .ok none => findMatchingEvidence key e entries

def malformedManifest : TicketStoreError :=
  conflict "INVALID_MANIFEST" (js "cannot append ticket evidence to a malformed manifest")

/-- The scan of the root's lines: only the conflict is thrown as it is. -/
def findRootEvidence (key : Option JsString) (e : Evidence ν) :
    List JsString → Except TicketStoreError (Option (Json ν))
  | [] => .ok none
  | line :: lines =>
    match parseJson line with
    | none | some .null => .error malformedManifest
    | some entry =>
      match examineEntry key e entry with
      | .error err =>
        if err.code = js "EVIDENCE_IDEMPOTENCY_CONFLICT" then .error err
        else .error malformedManifest
      | .ok (some found) => .ok (some found)
      | .ok none => findRootEvidence key e lines

/-! ## Appending -/

/-- The number after the entry's `seq`, or 1. -/
def seqAfter (previous : Option (Json ν)) : ν :=
  match previous.bind fun entry => entry.get? (js "seq") with
  | some (.num n) => JsNumber.add n (JsNumber.ofNat 1)
  | _ => JsNumber.ofNat 1

/-- The entry, with what a new segment's first entry carries besides. -/
def evidenceEntry (e : Evidence ν) (isoNow : JsString) (seq : ν) (minted : Members ν)
    (prevRawLine : Option JsString) : Members ν :=
  [(js "seq", .num seq)] ++ minted ++
  [(js "gate", .str e.gate), (js "ts", .str isoNow)] ++
  (if truthy e.ticketId then [(js "ticket", e.ticketId)] else []) ++
  [(js "data", e.data), (js "files", .obj []),
    (js "prev", prevRawLine.elim .null fun line => .str (sha256 line))]

/-- The version-1 signature. -/
def signV1 (key : JsString) (entry : Json ν) : JsString :=
  hmacSha256Hex (utf8Encode key) (utf8Encode (stringify (v1Object entry)))

/-- The version-2 signature; an undefined field of `data` is no JSON. -/
def signV2 (key : JsString) (e : Evidence ν) (entry : Json ν) : Except TicketStoreError JsString :=
  match e.fields.find? fun p => p.2.isNone with
  | some (field, _) =>
    .error (invalid "NON_JSON_VALUE" (js "$.data." ++ field ++ js " is not JSON"))
  | none => (canonicalJson (signedFields entry)).map
      fun text => hmacSha256Hex (utf8Encode key) (utf8Encode text)

def signEvidence (key : Option JsString) (e : Evidence ν) (isNew : Bool) (entry : Members ν) :
    Except TicketStoreError (Members ν) :=
  match key with
  | none => .ok entry
  | some key =>
    if isNew then
      let entry := entry ++ [(js "sigVersion", .num (JsNumber.ofNat 2))]
      (signV2 key e (.obj entry)).map fun sig => entry ++ [(js "sig", .str sig)]
    else .ok (entry ++ [(js "sig", .str (signV1 key (.obj entry)))])

def OpenSegment.isNew : OpenSegment ν → Bool
  | .existing _ => false
  | .minted .. => true

/-- `anchor`, and `branch` on a branch, of a new segment's first entry. -/
def OpenSegment.carries : OpenSegment ν → Members ν
  | .existing _ => []
  | .minted _ anchor branch =>
    (js "anchor", anchor) :: (branch.map fun b => (js "branch", Json.str b)).toList

/-- The last of the lines, parsed; every line must parse. -/
def lastParsed (name : JsString) : Option (Json ν) → List JsString →
    Except TicketStoreError (Option (Json ν))
  | previous, [] => .ok previous
  | _, line :: lines =>
    match parseJson line with
    | none => .error (conflict "INVALID_MANIFEST"
        (js "segment " ++ name ++ js " contains malformed JSON"))
    | some entry => lastParsed name (some entry) lines

def appendToOpenSegment (key : Option JsString) (e : Evidence ν) (isoNow : JsString)
    (resolved : OpenSegment ν) (files : ManifestFiles) :
    Except TicketStoreError (Json ν × ManifestFiles) := do
  let file := files.segmentFile resolved.name
  let rawLines := linesOf file
  if resolved.isNew ∧ rawLines ≠ [] then
    .error (conflict "INVALID_MANIFEST" (js "segment " ++ resolved.name ++
      js " was expected to be new but already has content"))
  else if ¬resolved.isNew ∧ rawLines = [] then
    .error (conflict "INVALID_MANIFEST" (js "segment " ++ resolved.name ++
      js " was expected to already be open with content but is empty or missing"))
  else
    let previous ← lastParsed resolved.name none rawLines
    let entry ← signEvidence key e resolved.isNew
      (evidenceEntry e isoNow (seqAfter previous) resolved.carries rawLines.getLast?)
    return (.obj entry,
      files.writeSegmentFile resolved.name (appendLine file (stringify (.obj entry))))

variable [Unicode]

/-- The entry recorded or found, and the files left. -/
abbrev Recording (ν : Type) := Except TicketStoreError (Json ν) × ManifestFiles

def recordSegmentedTicketEvidence (key : Option JsString) (checkout : Checkout) (e : Evidence ν)
    (files : ManifestFiles) : Recording ν :=
  let files := withDirectory files
  match forestChainsIntact ν files key with
  | .error err => (.error err, files)
  | .ok false => (.error (conflict "INVALID_MANIFEST" (js "manifest forest is invalid: a segment or root chain is broken, or an entry is unsigned/forged — refusing to append or trust the idempotency scan")), files)
  | .ok true =>
    match findMatchingEvidence key e (readForestEntries files) with
    | .error err => (.error err, files)
    | .ok (some existing) => (.ok existing, files)
    | .ok none =>
      match resolveOpenSegment (ν := ν) checkout key files with
      | .error err => (.error err, files)
      | .ok (resolved, files') =>
        match appendToOpenSegment key e checkout.isoNow resolved files' with
        | .error err => (.error err, files')
        | .ok (entry, files'') => (.ok entry, files'')

def recordRootTicketEvidence (key : Option JsString) (checkout : Checkout) (e : Evidence ν)
    (files : ManifestFiles) : Recording ν :=
  let lines := linesOf files.root
  match findRootEvidence key e lines with
  | .error err => (.error err, files)
  | .ok (some existing) => (.ok existing, files)
  | .ok none =>
    if lines = [] ∧ readForestEntries (ν := ν) files ≠ [] then
      (.error (conflict "MANIFEST_FROZEN" (js "refusing to create the root manifest: manifest.d/ already holds segment(s) anchored to nothing (anchor: null), legal only in a rootless forest — this usually means the activation marker (.adlc/manifest.d/.store.json) was lost or corrupted")), files)
    else
      let previous := lines.getLast?
      match signEvidence key e false (evidenceEntry e checkout.isoNow
          (seqAfter (previous.bind parseJson)) [] previous) with
      | .error err => (.error err, files)
      | .ok entry =>
        (.ok (.obj entry), { files with root := some (appendLine files.root (stringify (.obj entry))) })

def recordTicketEvidence (keyParam : Option JsString) (checkout : Checkout) (e : Evidence ν)
    (files : ManifestFiles) : Recording ν :=
  match validateKeyParam keyParam with
  | .error err => (.error err, files)
  | .ok key =>
    if isSegmentedRepo ν files then recordSegmentedTicketEvidence key checkout e files
    else recordRootTicketEvidence key checkout e files

end Adlc.Tickets
