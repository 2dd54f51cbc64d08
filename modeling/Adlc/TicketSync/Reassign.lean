import Adlc.GateManifest.Record
import Adlc.GateManifest.Tamper
import Adlc.TicketSync.Outcomes
import Adlc.Tickets.OwnChains

namespace Adlc.TicketSync

open Adlc.Framework Adlc.Tickets Adlc.GateManifest

variable {ν : Type} [JsNumber ν]

/-! ## The entries to carry over -/

/-- The entry is evidence of the ticket, and with a key it has to be signed. -/
def isCandidate (key : Option JsString) (oldId : JsString) (e : Json ν) :
    Except TicketStoreError Bool :=
  if !isBound oldId e then .ok false
  else
    match key with
    | none => .ok true
    | some key => entrySigValid key e

def candidatesOf (key : Option JsString) (oldId : JsString) :
    List (Json ν) → Except TicketStoreError (List (Json ν))
  | [] => .ok []
  | e :: chain => do
    let keep ← isCandidate key oldId e
    let rest ← candidatesOf key oldId chain
    return if keep then e :: rest else rest

def candidateChains (key : Option JsString) (oldId : JsString) :
    List (List (Json ν)) → Except TicketStoreError (List (List (Json ν)))
  | [] => .ok []
  | chain :: chains => do
    let kept ← candidatesOf key oldId chain
    let rest ← candidateChains key oldId chains
    return kept :: rest

/-- `typeof e.seq === 'number' ? e.seq : 0` -/
def seqOrZero (e : Json ν) : ν :=
  match e.get? (js "seq") with
  | some (.num n) => n
  | _ => JsNumber.ofNat 0

/-- `{ ...(value ?? {}) }` -/
def spread : Option (Json ν) → Members ν
  | some (.obj ms) => ms
  | some (.arr xs) => Members.create (xs.zipIdx.map fun p => (natText p.2, p.1))
  | some (.str s) => Members.create (s.zipIdx.map fun p => (natText p.2, .str [p.1]))
  | _ => []

/-- `entry.data?.[key]` -/
def dataField (e : Json ν) (key : JsString) : Option (Json ν) :=
  (e.get? (js "data")).bind (·.get? key)

def dataOrEmpty (e : Json ν) : Json ν := orElse (e.get? (js "data")) (.obj [])
def filesOrEmpty (e : Json ν) : Json ν := orElse (e.get? (js "files")) (.obj [])

def legacyReattestationMatches (entry source : Json ν) : Bool :=
  if (dataField entry (js "migratedEvidenceHash")).isSome then false
  else
    let data := (spread (entry.get? (js "data"))).filter fun p => decide (p.1 ≠ js "migratedFrom")
    decide (stringify (.obj data) = stringify (dataOrEmpty source)) &&
      decide (stringify (filesOrEmpty entry) = stringify (filesOrEmpty source))

/-- The source has been carried over before. -/
def alreadyMigrated (oldId newId : JsString) (source entry : Json ν) : Bool :=
  eqStr (entry.get? (js "ticket")) newId &&
    eqStr (entry.get? (js "gate")) (gateOf source) &&
    eqStr (dataField entry (js "migratedFrom")) oldId &&
    (eqStr (dataField entry (js "migratedEvidenceHash")) (sha256 (stringify source)) ||
      legacyReattestationMatches entry source)

/-- The latest evidence of each gate, in the order of the gates' first evidence. -/
def sourcesOf (kept : List (List (Json ν))) : List (Json ν) :=
  (latestByKey (outranks seqOrZero) (fun e => gateOf e.1) (placed kept)).map fun p => p.2.1

def planManifestMigration (chains : List (List (Json ν))) (oldId newId : JsString)
    (key : Option JsString) : Except TicketStoreError (List (Json ν)) := do
  let sources := sourcesOf (← candidateChains key oldId chains)
  if newId = [] then return sources
  else return sources.filter fun source => !chains.flatten.any (alreadyMigrated oldId newId source)

/-! ## The entries that are appended -/

structure Reassignment where
  oldId : JsString
  newId : JsString
  now : JsString

/-- What the first entry of a new segment carries: its anchor, and the branch if there is one. -/
structure Minted (ν : Type) where
  anchor : Json ν
  branch : Option JsString
  ordered : anchor.Ordered

def Minted.fields (minted : Minted ν) : Members ν :=
  (js "anchor", minted.anchor) :: (minted.branch.map fun b => (js "branch", Json.str b)).toList

def reattestedData (r : Reassignment) (src : Json ν) : Members ν :=
  ((spread (src.get? (js "data"))).set (js "migratedFrom") (.str r.oldId)).set
    (js "migratedEvidenceHash") (.str (sha256 (stringify src)))

def reattestation (r : Reassignment) (minted : Option (Minted ν)) (seq : ν) (prev src : Json ν) :
    Members ν :=
  [(js "seq", .num seq)] ++ ((minted.map Minted.fields).getD [] ++
    [(js "gate", .str (gateOf src)), (js "ts", .str r.now), (js "ticket", .str r.newId),
      (js "data", .obj (reattestedData r src)), (js "files", filesOrEmpty src), (js "prev", prev)])

/-- An entry with an anchor is signed at version 2. -/
def signReattestation (key : Option JsString) (minted : Option (Minted ν)) (entry : Members ν) :
    Except TicketStoreError (Members ν) :=
  sign key (if minted.isSome then 2 else 1) entry

def buildReattestationEntries (key : Option JsString) (r : Reassignment) (startSeq : ν)
    (startPrev : Json ν) (minted : Option (Minted ν)) :
    List (Json ν) → Except TicketStoreError (List (Json ν))
  | [] => .ok []
  | src :: sources => do
    let seq := JsNumber.add startSeq (JsNumber.ofNat 1)
    let signed ← signReattestation key minted (reattestation r minted seq startPrev src)
    let rest ← buildReattestationEntries key r seq (.str (sha256 (stringify (.obj signed)))) none
      sources
    return .obj signed :: rest

/-! ## The manifest of a checkout -/

/-- The lines of the root manifest, and of the segment that this checkout goes on with, if the
repository is segmented and has one. -/
structure OwnManifest where
  segmented : Bool
  root : List JsString
  own : Option (List JsString)

/-- What `readOwnChains` reads of a chain that it does not refuse. -/
def readChain (ν : Type) [JsNumber ν] (key : Option JsString) (lines : List JsString) :
    Except TicketStoreError (List (Json ν)) :=
  match key with
  | none => .ok (parseTruthy lines)
  | some key => (signedEntriesOnly ν key lines).map parseTruthy

def OwnManifest.read (ν : Type) [JsNumber ν] (m : OwnManifest) (key : Option JsString) :
    Except TicketStoreError (List (List (Json ν))) := do
  let root ← readChain ν key m.root
  match m.own with
  | none => return [root]
  | some lines => return [root, ← readChain ν key lines]

/-- What the migration finds outside the chains. -/
structure MigrationSite (ν : Type) where
  forestIntact : Bool
  minted : Minted ν

def malformedLine (n : Nat) : TicketStoreError :=
  unexpected (js "cannot re-attest evidence: manifest contains malformed line " ++ natText n)

def invalidForest : TicketStoreError :=
  unexpected (js "cannot re-attest evidence: manifest forest is invalid — a segment or root chain is broken, or an entry is unsigned/forged")

def emptiedSegment : TicketStoreError :=
  unexpected (js "segment was expected to already be open with content but is empty or missing")

def malformedSegment : TicketStoreError := unexpected (js "segment contains malformed JSON")

/-- `Math.max(…)` of the entries' numbers -/
def maxSeq (entries : List (Json ν)) : ν :=
  match entries.map seqOrZero with
  | [] => JsNumber.ofNat 0
  | n :: rest => rest.foldl (fun best n => if JsNumber.lt best n then n else best) n

def prevOf (lines : List JsString) : Json ν := (lines.getLast?.map fun l => .str (sha256 l)).getD .null

def migrateRoot (key : Option JsString) (r : Reassignment) (m : OwnManifest) :
    Except TicketStoreError (List (Json ν) × OwnManifest) :=
  match m.root.findIdx? fun line => (parseJson (ν := ν) line).isNone with
  | some i => .error (malformedLine (i + 1))
  | none => do
    let entries : List (Json ν) := m.root.filterMap parseJson
    let sources ← planManifestMigration [entries] r.oldId r.newId key
    let additions ← buildReattestationEntries key r (maxSeq entries) (prevOf m.root) none sources
    return (additions, { m with root := m.root ++ additions.map stringify })

def migrateSegmentedSet (site : MigrationSite ν) (key : Option JsString) (r : Reassignment)
    (m : OwnManifest) : Except TicketStoreError (List (Json ν) × OwnManifest) :=
  if !site.forestIntact then .error invalidForest
  else do
    let chains ← m.read ν key
    let sources ← planManifestMigration chains r.oldId r.newId key
    if sources = [] then return ([], m)
    else
      match m.own with
      | none =>
        let additions ← buildReattestationEntries key r (JsNumber.ofNat 0) .null (some site.minted)
          sources
        return (additions, { m with own := some (additions.map stringify) })
      | some [] => .error emptiedSegment
      | some (line :: lines) =>
        let all := line :: lines
        if all.any fun line => (parseJson (ν := ν) line).isNone then .error malformedSegment
        else
          -- The chain is intact, so its last entry has a number.
          let startSeq := ((all.getLast?.bind parseJson).map seqOrZero).getD (JsNumber.ofNat 0)
          let additions ← buildReattestationEntries key r startSeq (prevOf all) none sources
          return (additions, { m with own := some (all ++ additions.map stringify) })

def migrateManifestEvidence (site : MigrationSite ν) (keyParam : Option JsString)
    (r : Reassignment) (m : OwnManifest) :
    Except TicketStoreError (List (Json ν) × OwnManifest) := do
  let key ← validateKeyParam keyParam
  if m.segmented then migrateSegmentedSet site key r m else migrateRoot key r m

end Adlc.TicketSync
