import Adlc.Framework.Script
import Adlc.Framework.TornLines
import Adlc.Tickets.ManifestPrimitives

namespace Adlc.Autopilot

open Adlc.Framework Adlc.Tickets

variable {ν : Type} [JsNumber ν]

/-! ## The archive's lines -/

/-- An object with a string `id`: an entry of the ledger, or a record of the archive. -/
structure AttemptEntry (ν : Type) where
  members : Members ν
  id : JsString
  hasId : members.lookup (js "id") = some (.str id)

def AttemptEntry.of? (value : Json ν) : Option (AttemptEntry ν) :=
  match value with
  | .obj ms =>
    match h : ms.lookup (js "id") with
    | some (.str id) => some ⟨ms, id, h⟩
    | _ => none
  | _ => none

/-- `Object.fromEntries(Object.keys(o).sort().map((k) => [k, o[k]]))` -/
def sortKeys (ms : Members ν) : Members ν := Members.create (ms.mergeSort keyLe)

/-- The members without `sha256`. -/
def unsigned (ms : Members ν) : Members ν := ms.filter fun p => p.1 ≠ js "sha256"

/-- A line of the archive, without its line feed. -/
def archiveLine (entry : AttemptEntry ν) (archivedAt : JsString) : JsString :=
  let record := unsigned (sortKeys (entry.members.set (js "archivedAt") (.str archivedAt)))
  stringify (.obj (record.set (js "sha256") (.str (sha256 (stringify (.obj record))))))

inductive ArchiveFault where
  | notJson | notRecord | checksumMismatch

def verifyArchiveLine (ν : Type) [JsNumber ν] (line : JsString) : Except ArchiveFault (AttemptEntry ν) :=
  match parseJson (ν := ν) line with
  | none => .error .notJson
  | some value =>
    match AttemptEntry.of? value with
    | none => .error .notRecord
    | some rec =>
      let rest := sortKeys (unsigned rec.members)
      if eqStr (rec.members.lookup (js "sha256")) (sha256 (stringify (.obj rest))) then .ok rec
      else .error .checksumMismatch

/-- `{ records, ids, validLines, corrupt, truncatedTail }` -/
structure ArchiveText (ν : Type) where
  records : List (AttemptEntry ν)
  validLines : List JsString
  corrupt : List (Nat × ArchiveFault)
  truncatedTail : Bool

def ArchiveText.ids (parsed : ArchiveText ν) : List JsString := parsed.records.map AttemptEntry.id

/-- The lines from the `i`-th on. -/
def parseArchiveLines (ν : Type) [JsNumber ν] (truncatedTail : Bool) : Nat → List JsString → ArchiveText ν
  | _, [] => ⟨[], [], [], truncatedTail⟩
  | i, line :: lines =>
    let rest := parseArchiveLines ν truncatedTail (i + 1) lines
    match verifyArchiveLine ν line with
    | .ok rec => { rest with records := rec :: rest.records, validLines := line :: rest.validLines }
    | .error reason => { rest with corrupt := (i, reason) :: rest.corrupt }

/-- What follows the last line feed is left out. -/
def parseArchiveText (ν : Type) [JsNumber ν] (text : JsString) : ArchiveText ν :=
  parseArchiveLines ν (decide (lastPart text ≠ [])) 1 (completeLines text)

/-! ## The files of one issue -/

/-- The ledger, the archive and the reset's journal; the archives set aside, by their stamps. -/
structure AttemptFiles where
  ledger : Option Bytes
  archive : Option Bytes
  journal : Option Bytes
  corrupt : List (JsString × Bytes)

/-- A write of a whole file is a rename over it; an append comes byte by byte. -/
inductive AttemptWrite where
  | ledger (text : JsString)
  | journal (text : JsString)
  | unlinkJournal
  | renameArchive (stamp : JsString)
  | archive (text : JsString)
  | openArchive
  | append (byte : UInt8)

def AttemptWrite.apply (files : AttemptFiles) : AttemptWrite → AttemptFiles
  | .ledger text => { files with ledger := some (utf8Encode text) }
  | .journal text => { files with journal := some (utf8Encode text) }
  | .unlinkJournal => { files with journal := none }
  | .renameArchive stamp =>
    match files.archive with
    | none => files
    | some bytes => { files with
        archive := none
        corrupt := (stamp, bytes) :: files.corrupt.filter fun p => p.1 ≠ stamp }
  | .archive text => { files with archive := some (utf8Encode text) }
  | .openArchive => { files with archive := some (files.archive.getD []) }
  | .append byte => { files with archive := files.archive.map fun bytes => bytes ++ [byte] }

instance : Writes AttemptWrite AttemptFiles := ⟨AttemptWrite.apply⟩

inductive AttemptsError where
  | attemptsCorrupt
  | badKind (kind : JsString)
  | badOutcome (outcome : JsString)
  | attemptMissing (id : JsString)
  | lockRequired

def AttemptsError.code : AttemptsError → JsString
  | .attemptsCorrupt => js "attempts-corrupt"
  | .badKind _ => js "bad-input:kind"
  | .badOutcome _ => js "bad-input:outcome"
  | .attemptMissing _ => js "attempt-missing"
  | .lockRequired => js "lock-required"

abbrev AttemptScript := Script AttemptWrite AttemptFiles AttemptsError

/-- What the clock says to a replay: the stamp of an archive set aside, and `archivedAt`. -/
structure ReplayClock where
  quarantinedAt : JsString
  archivedAt : JsString

def kinds : List JsString := [js "shaping", js "coldstart"]

/-! ## The store -/

def ofArray (values : List (Json ν)) : Option (List (AttemptEntry ν)) :=
  values.mapM AttemptEntry.of?

/-- `readRaw(n)` -/
def readLedger (ν : Type) [JsNumber ν] (files : AttemptFiles) :
    Except AttemptsError (List (AttemptEntry ν)) :=
  match files.ledger with
  | none => .ok []
  | some bytes =>
    match parseJson (ν := ν) (utf8Decode bytes) with
    | some (.arr values) =>
      match ofArray values with
      | some entries => .ok entries
      | none => .error .attemptsCorrupt
    | _ => .error .attemptsCorrupt

def readRaw (ν : Type) [JsNumber ν] : AttemptScript (List (AttemptEntry ν)) := fun files =>
  ([], readLedger ν files)

/-- The text that `writeAtomicJson` gives a file. -/
def jsonText (value : Json ν) : JsString := stringify2 value ++ [10]

def writeLedger (entries : List (AttemptEntry ν)) : AttemptScript Unit :=
  Script.write (.ledger (jsonText (.arr (entries.map fun e => .obj e.members))))

structure ArchiveRead (ν : Type) where
  records : List (AttemptEntry ν)
  ids : List JsString
  events : List JsString

def readArchive (ν : Type) [JsNumber ν] (clock : ReplayClock) : AttemptScript (ArchiveRead ν) := do
  let files ← Script.get
  match files.archive with
  | none => return ⟨[], [], []⟩
  | some bytes =>
    let parsed := parseArchiveText ν (utf8Decode bytes)
    if parsed.corrupt ≠ [] then
      Script.write (.renameArchive clock.quarantinedAt)
      Script.write (.archive (unlines parsed.validLines))
      return ⟨parsed.records, parsed.ids, [js "archive-corrupt"]⟩
    else if parsed.truncatedTail then
      Script.write (.archive (unlines parsed.validLines))
      return ⟨parsed.records, parsed.ids, [js "archive-truncated-tail"]⟩
    else return ⟨parsed.records, parsed.ids, []⟩

/-- The entries whose ids have not been seen, each id once. -/
def unseen : List JsString → List (AttemptEntry ν) → List (AttemptEntry ν)
  | _, [] => []
  | seen, e :: entries => if e.id ∈ seen then unseen seen entries else e :: unseen (e.id :: seen) entries

/-- The archive is opened for appending, and each line is written. -/
def appendLines (lines : List JsString) : AttemptScript Unit :=
  Script.writeAll (.openArchive :: (utf8Encode (unlines lines)).map AttemptWrite.append)

structure Replayed where
  archived : Nat
  events : List JsString

/-- Archives the entries, empties the ledger and drops the journal. -/
def replay (clock : ReplayClock) (entries : List (AttemptEntry ν)) : AttemptScript Replayed := do
  let arch ← readArchive ν clock
  let lines := (unseen arch.ids entries).map fun e => archiveLine e clock.archivedAt
  if lines ≠ [] then appendLines lines
  writeLedger ([] : List (AttemptEntry ν))
  let files ← Script.get
  if files.journal.isSome then Script.write .unlinkJournal
  return ⟨lines.length, arch.events⟩

structure Recovered extends Replayed where
  recovered : Bool

/-- A reset that was cut off is completed before anything else. -/
def recoverAttempts (ν : Type) [JsNumber ν] (clock : ReplayClock) : AttemptScript Recovered := do
  let files ← Script.get
  if files.journal.isSome then
    let entries ← readRaw ν
    let r ← replay clock entries
    return ⟨r, true⟩
  else return ⟨⟨0, []⟩, false⟩

/-- `recent` says of an entry whether its `ts` is in the last seven days. -/
def readAttempts (clock : ReplayClock) (recent : AttemptEntry ν → Bool) :
    AttemptScript (List (AttemptEntry ν)) := do
  let _ ← recoverAttempts ν clock
  let entries ← readRaw ν
  return entries.filter recent

def startedEntry (id ts kind : JsString) : AttemptEntry ν :=
  ⟨[(js "id", .str id), (js "ts", .str ts), (js "kind", .str kind), (js "outcome", .str (js "started"))],
    id, rfl⟩

def beginAttempt (ν : Type) [JsNumber ν] (clock : ReplayClock) (id ts kind : JsString) :
    AttemptScript (AttemptEntry ν) := do
  if kind ∉ kinds then Script.fail (.badKind kind)
  else
    let _ ← recoverAttempts ν clock
    let entries ← readRaw ν
    writeLedger (entries ++ [startedEntry id ts kind])
    return startedEntry id ts kind

/-- `{ ...entry, outcome, finishedAt }` -/
def AttemptEntry.finish (entry : AttemptEntry ν) (outcome finishedAt : JsString) : AttemptEntry ν :=
  ⟨(entry.members.set (js "outcome") (.str outcome)).set (js "finishedAt") (.str finishedAt), entry.id, by
    rw [Members.lookup_set, if_neg (by decide), Members.lookup_set, if_neg (by decide)]
    exact entry.hasId⟩

def finishAttempt (ν : Type) [JsNumber ν] (clock : ReplayClock) (id outcome finishedAt : JsString) :
    AttemptScript (AttemptEntry ν) := do
  if outcome ≠ js "ok" ∧ outcome ≠ js "failed" then Script.fail (.badOutcome outcome)
  else
    let _ ← recoverAttempts ν clock
    let entries ← readRaw ν
    match entries.findIdx? (fun e => e.id = id), entries.find? (fun e => e.id = id) with
    | some idx, some entry =>
      let updated := entry.finish outcome finishedAt
      writeLedger (entries.set idx updated)
      return updated
    | _, _ => Script.fail (.attemptMissing id)

structure ResetClock where
  recovery : ReplayClock
  startedAt : JsString
  replay : ReplayClock

structure ResetDone where
  archived : Nat
  cleared : Nat
  events : List JsString
  recoveredPending : Bool

def journalValue (startedAt : JsString) (ledger : Option Bytes) : Json ν :=
  .obj [(js "startedAt", .str startedAt),
    (js "ledgerSha256", .str (sha256 (match ledger with
      | none => js "[]"
      | some bytes => utf8Decode bytes)))]

def resetAttempts (ν : Type) [JsNumber ν] (clock : ResetClock) (lockHeld : Bool) :
    AttemptScript ResetDone := do
  if !lockHeld then Script.fail .lockRequired
  else
    let pending ← recoverAttempts ν clock.recovery
    let files ← Script.get
    let entries ← readRaw ν
    Script.write (.journal (jsonText (journalValue clock.startedAt files.ledger : Json ν)))
    let r ← replay clock.replay entries
    return ⟨r.archived, entries.length, pending.events ++ r.events, pending.recovered⟩

/-! ## What the store writes it reads back -/

/-- An entry that the store itself has written. -/
structure Attempt where
  id : JsString
  ts : JsString
  kind : JsString
  outcome : JsString
  finishedAt : Option JsString

def Attempt.entry (a : Attempt) : AttemptEntry ν :=
  ⟨[(js "id", .str a.id), (js "ts", .str a.ts), (js "kind", .str a.kind),
    (js "outcome", .str a.outcome)] ++ (a.finishedAt.map fun t => (js "finishedAt", .str t)).toList,
    a.id, rfl⟩

omit [JsNumber ν] in
@[simp] theorem entry_id (a : Attempt) : (a.entry : AttemptEntry ν).id = a.id := rfl

omit [JsNumber ν] in
theorem startedEntry_eq (id ts kind : JsString) :
    (startedEntry id ts kind : AttemptEntry ν) = Attempt.entry ⟨id, ts, kind, js "started", none⟩ := rfl

omit [JsNumber ν] in
theorem finish_entry (a : Attempt) (outcome finishedAt : JsString) :
    (a.entry : AttemptEntry ν).finish outcome finishedAt =
      Attempt.entry { a with outcome := outcome, finishedAt := some finishedAt } := by
  obtain ⟨id, ts, kind, outcome', finishedAt'⟩ := a
  cases finishedAt' <;> rfl

/-- The members of an entry's record in the archive, without its checksum. -/
def Attempt.record (a : Attempt) (archivedAt : JsString) : Members ν :=
  (js "archivedAt", .str archivedAt) :: ((a.finishedAt.map fun t => (js "finishedAt", .str t)).toList ++
    [(js "id", .str a.id), (js "kind", .str a.kind), (js "outcome", .str a.outcome),
      (js "ts", .str a.ts)])

omit [JsNumber ν] in
theorem sortKeys_of_perm {ms sorted : Members ν} (hp : ms.Perm sorted) (ho : OrderedKeys sorted)
    (hs : sorted.Pairwise fun p q => keyLe p q = true) : sortKeys ms = sorted := by
  have hn : ms.keys.Nodup := (hp.map Prod.fst).nodup_iff.mpr ho.1
  rw [sortKeys, mergeSort_keyLe_perm hn hp, List.mergeSort_of_pairwise hs,
    Members.create_of_ordered ho]

omit [JsNumber ν] in
theorem record_ordered (a : Attempt) (archivedAt : JsString) :
    OrderedKeys (a.record archivedAt : Members ν) := by
  obtain ⟨id, ts, kind, outcome, finishedAt⟩ := a
  cases finishedAt with
  | none => exact of_decide_eq_true rfl
  | some t => exact of_decide_eq_true rfl

omit [JsNumber ν] in
theorem record_sorted (a : Attempt) (archivedAt : JsString) :
    (a.record archivedAt : Members ν).Pairwise fun p q => keyLe p q = true := by
  obtain ⟨id, ts, kind, outcome, finishedAt⟩ := a
  cases finishedAt with
  | none => exact of_decide_eq_true rfl
  | some t => exact of_decide_eq_true rfl

omit [JsNumber ν] in
/-- The record of an entry, and the same with a checksum. -/
theorem unsigned_record (a : Attempt) (archivedAt : JsString) (checksum : Json ν) :
    unsigned (a.record archivedAt) = (a.record archivedAt : Members ν) ∧
      (a.record archivedAt).set (js "sha256") checksum =
        a.record archivedAt ++ [(js "sha256", checksum)] ∧
      unsigned (a.record archivedAt ++ [(js "sha256", checksum)]) = a.record archivedAt := by
  obtain ⟨id, ts, kind, outcome, finishedAt⟩ := a
  cases finishedAt with
  | none => exact ⟨rfl, rfl, rfl⟩
  | some t => exact ⟨rfl, rfl, rfl⟩

omit [JsNumber ν] in
theorem sortKeys_entry (a : Attempt) (archivedAt : JsString) :
    sortKeys ((a.entry : AttemptEntry ν).members.set (js "archivedAt") (.str archivedAt)) =
      a.record archivedAt := by
  apply sortKeys_of_perm _ (record_ordered a archivedAt) (record_sorted a archivedAt)
  obtain ⟨id, ts, kind, outcome, finishedAt⟩ := a
  have hset : ∀ t : Option JsString,
      (Attempt.entry ⟨id, ts, kind, outcome, t⟩ : AttemptEntry ν).members.set (js "archivedAt")
        (.str archivedAt) = (Attempt.entry ⟨id, ts, kind, outcome, t⟩).members ++
          [(js "archivedAt", .str archivedAt)] := by
    rintro (_ | t) <;> rfl
  have hlast : [(js "ts", Json.str ts), (js "kind", .str kind), (js "outcome", .str outcome)].Perm
      [(js "kind", .str kind), (js "outcome", .str outcome), (js "ts", (.str ts : Json ν))] :=
    @List.perm_append_comm _ [(js "ts", Json.str ts)] _
  have hrest : (Attempt.entry ⟨id, ts, kind, outcome, finishedAt⟩ : AttemptEntry ν).members.Perm
      ((finishedAt.map fun t => (js "finishedAt", Json.str t)).toList ++ [(js "id", .str id),
        (js "kind", .str kind), (js "outcome", .str outcome), (js "ts", .str ts)]) :=
    List.perm_append_comm.trans ((hlast.cons _).append_left _)
  rw [hset]
  exact List.perm_append_comm.trans (hrest.cons _)

theorem record_isJson (a : Attempt) (archivedAt checksum : JsString) :
    (Json.obj (a.record archivedAt) : Json ν).IsJson ∧
      (Json.obj (a.record archivedAt ++ [(js "sha256", .str checksum)]) : Json ν).IsJson := by
  have hs := (unsigned_record (ν := ν) a archivedAt (.str checksum)).2.1
  have h : (Json.obj (a.record archivedAt) : Json ν).IsJson := by
    refine ⟨record_ordered a archivedAt, ?_⟩
    obtain ⟨id, ts, kind, outcome, finishedAt⟩ := a
    cases finishedAt with
    | none => exact ⟨trivial, trivial, trivial, trivial, trivial, trivial⟩
    | some t => exact ⟨trivial, trivial, trivial, trivial, trivial, trivial, trivial⟩
  refine ⟨h, ?_⟩
  have hv : (Json.str checksum : Json ν).IsJson := trivial
  rw [← hs]
  exact h.set hv _

omit [JsNumber ν] in
theorem of?_obj {ms : Members ν} {id : JsString} (h : ms.lookup (js "id") = some (.str id)) :
    AttemptEntry.of? (.obj ms) = some ⟨ms, id, h⟩ := by
  simp only [AttemptEntry.of?]
  split
  · rename_i id' h'
    obtain rfl : id = id' := Json.str.inj (Option.some.inj (h.symm.trans h'))
    rfl
  · rename_i hne
    exact absurd h (hne id)

/-- A line that the store has appended verifies, and is of the entry. -/
theorem verify_archiveLine (a : Attempt) (archivedAt : JsString) :
    ∃ rec, verifyArchiveLine ν (archiveLine (a.entry : AttemptEntry ν) archivedAt) = .ok rec ∧
      rec.id = a.id := by
  let checksum := sha256 (stringify (.obj (a.record archivedAt : Members ν)))
  obtain ⟨hun, hset, hdrop⟩ := unsigned_record (ν := ν) a archivedAt (.str checksum)
  have hline : archiveLine (a.entry : AttemptEntry ν) archivedAt =
      stringify (.obj (a.record archivedAt ++ [(js "sha256", .str checksum)] : Members ν)) := by
    unfold archiveLine
    simp only [sortKeys_entry, hun]
    exact congrArg (fun ms => stringify (.obj ms)) hset
  have hid : (a.record archivedAt ++ [(js "sha256", .str checksum)] : Members ν).lookup (js "id") =
      some (.str a.id) := by
    obtain ⟨id, ts, kind, outcome, finishedAt⟩ := a
    cases finishedAt <;> rfl
  have hsha : (a.record archivedAt ++ [(js "sha256", .str checksum)] : Members ν).lookup
      (js "sha256") = some (.str checksum) := by
    obtain ⟨id, ts, kind, outcome, finishedAt⟩ := a
    cases finishedAt <;> rfl
  have hsorted : sortKeys (a.record archivedAt : Members ν) = a.record archivedAt :=
    sortKeys_of_perm (List.Perm.refl _) (record_ordered a archivedAt) (record_sorted a archivedAt)
  refine ⟨⟨_, a.id, hid⟩, ?_, rfl⟩
  rw [hline, verifyArchiveLine, parseJson_stringify (record_isJson a archivedAt checksum).2]
  simp only [of?_obj hid, hdrop, hsorted, hsha]
  rw [if_pos (eqStr_iff.mpr rfl)]

/-! ## What the files hold -/

/-- The record on a line, if the line verifies. -/
def recordOf (ν : Type) [JsNumber ν] (line : JsString) : Option (AttemptEntry ν) :=
  match verifyArchiveLine ν line with
  | .ok rec => some rec
  | .error _ => none

def archiveText (files : AttemptFiles) : JsString := utf8Decode (files.archive.getD [])

/-- The archive's lines that verify. -/
def verifyingLines (ν : Type) [JsNumber ν] (files : AttemptFiles) : List JsString :=
  (completeLines (archiveText files)).filter fun line => (recordOf ν line).isSome

/-- Their ids. -/
def archivedIds (ν : Type) [JsNumber ν] (files : AttemptFiles) : List JsString :=
  (verifyingLines ν files).filterMap fun line => (recordOf ν line).map AttemptEntry.id

theorem parseArchiveLines_eq (tail : Bool) (lines : List JsString) (i : Nat) :
    (parseArchiveLines ν tail i lines).validLines = lines.filter (fun line => (recordOf ν line).isSome) ∧
    (parseArchiveLines ν tail i lines).records = lines.filterMap (recordOf ν) ∧
    ((parseArchiveLines ν tail i lines).corrupt = [] ↔
      ∀ line ∈ lines, (recordOf ν line).isSome = true) ∧
    (parseArchiveLines ν tail i lines).truncatedTail = tail := by
  induction lines generalizing i with
  | nil => simp [parseArchiveLines]
  | cons line lines ih =>
    obtain ⟨h1, h2, h3, h4⟩ := ih (i + 1)
    rw [parseArchiveLines]
    cases hv : verifyArchiveLine ν line with
    | ok rec =>
      have hr : recordOf ν line = some rec := by
        rw [recordOf, hv]
      simp [hr, h1, h2, h3, h4]
    | error reason =>
      have hr : recordOf ν line = none := by
        rw [recordOf, hv]
      simp [hr, h1, h2, h4]

theorem filterMap_ids (lines : List JsString) :
    (lines.filterMap (recordOf ν)).map AttemptEntry.id =
      (lines.filter fun line => (recordOf ν line).isSome).filterMap
        fun line => (recordOf ν line).map AttemptEntry.id := by
  induction lines with
  | nil => rfl
  | cons line lines ih =>
    cases hr : recordOf ν line with
    | none => simp [hr, ih]
    | some rec => simp [hr, ih]

/-- The ledger holds the attempts. -/
def LedgerHolds (ν : Type) [JsNumber ν] (files : AttemptFiles) (attempts : List Attempt) : Prop :=
  files.ledger = none ∧ attempts = [] ∨
    files.ledger = some (utf8Encode (jsonText
      (.arr ((attempts.map Attempt.entry).map fun e => (.obj e.members : Json ν)))))

theorem entry_isJson (a : Attempt) : (Json.obj (a.entry : AttemptEntry ν).members : Json ν).IsJson := by
  obtain ⟨id, ts, kind, outcome, finishedAt⟩ := a
  cases finishedAt with
  | none => exact ⟨of_decide_eq_true rfl, trivial, trivial, trivial, trivial, trivial⟩
  | some t => exact ⟨of_decide_eq_true rfl, trivial, trivial, trivial, trivial, trivial, trivial⟩

omit [JsNumber ν] in
theorem ofArray_entries (entries : List (AttemptEntry ν)) :
    ofArray (entries.map fun e => .obj e.members) = some entries := by
  unfold ofArray
  induction entries with
  | nil => rfl
  | cons e entries ih =>
    rw [List.map_cons, List.mapM_cons, of?_obj e.hasId, ih]
    rfl

theorem readLedger_holds {files : AttemptFiles} {attempts : List Attempt}
    (h : LedgerHolds ν files attempts) :
    readLedger ν files = .ok (attempts.map Attempt.entry) := by
  rcases h with ⟨hl, rfl⟩ | hl
  · rw [readLedger, hl]
    rfl
  · have hj : (Json.arr ((attempts.map Attempt.entry).map fun e => (.obj e.members : Json ν))).IsJson := by
      show elemsIsJson _
      rw [elemsIsJson_iff, List.map_map, List.forall_mem_map]
      intro a _
      exact entry_isJson a
    rw [readLedger, hl]
    simp only [jsonText, parseJson_stringify2 hj, ofArray_entries]

/-! ## Reading the archive -/

/-- An archive with a line that verifies is set aside. -/
def SetsAside (ν : Type) [JsNumber ν] (files : AttemptFiles) (w : AttemptWrite) : Prop :=
  (∃ stamp, w = .renameArchive stamp) ∧ verifyingLines ν files ≠ []

/-- The ledger, the journal and the lines that verify are the same. -/
structure SameLines (ν : Type) [JsNumber ν] (files files' : AttemptFiles) : Prop where
  ledger : files'.ledger = files.ledger
  journal : files'.journal = files.journal
  lines : verifyingLines ν files' = verifyingLines ν files

/-- The archive is whole lines that verify. -/
structure ArchiveClean (ν : Type) [JsNumber ν] (files : AttemptFiles) : Prop where
  whole : lastPart (archiveText files) = []
  valid : completeLines (archiveText files) = verifyingLines ν files

/-- The lines that verify, written to a file of their own. -/
theorem rewritten_clean (files files' : AttemptFiles)
    (h : files'.archive = some (utf8Encode (unlines (verifyingLines ν files)))) :
    ArchiveClean ν files' ∧ verifyingLines ν files' = verifyingLines ν files := by
  have hsub : ∀ line ∈ verifyingLines ν files, line ∈ completeLines (archiveText files) :=
    fun line hl => (List.mem_filter.mp hl).1
  have htext : archiveText files' = unlines (verifyingLines ν files) := by
    rw [archiveText, h]
    exact utf8Decode_unlines_of_subset hsub
  have hlines : completeLines (archiveText files') = verifyingLines ν files := by
    rw [htext]
    exact completeLines_unlines fun line hl => not_mem_completeLines (hsub line hl)
  have hsame : verifyingLines ν files' = verifyingLines ν files := by
    rw [verifyingLines, hlines, List.filter_eq_self]
    intro line hl
    exact (List.mem_filter.mp hl).2
  refine ⟨⟨?_, hlines.trans hsame.symm⟩, hsame⟩
  rw [htext]
  exact lastPart_unlines _

/-- Reading the archive leaves it clean, with the same lines; between setting it aside and writing
it anew they are gone. -/
theorem readArchive_spec (clock : ReplayClock) (files : AttemptFiles) :
    ∃ ws read, readArchive ν clock files = (ws, .ok read) ∧ read.ids = archivedIds ν files ∧
      Kept (SetsAside ν) (SameLines ν files) files ws ∧ SameLines ν files (after files ws) ∧
      ArchiveClean ν (after files ws) ∧ ∀ b, AttemptWrite.append b ∉ ws := by
  have hrefl : SameLines ν files files := ⟨rfl, rfl, rfl⟩
  unfold readArchive
  rw [Script.run_get_bind]
  cases harchive : files.archive with
  | none =>
    have htext : archiveText files = [] := by
      rw [archiveText, harchive]
      rfl
    have hlines : verifyingLines ν files = [] := by
      rw [verifyingLines, htext]
      rfl
    refine ⟨[], _, rfl, ?_, trivial, hrefl, ⟨?_, ?_⟩, by simp⟩
    · rw [archivedIds, hlines]
      rfl
    · rw [after_nil, htext]
      rfl
    · rw [after_nil, hlines, htext]
      rfl
  | some bytes =>
    have htext : archiveText files = utf8Decode bytes := by
      rw [archiveText, harchive]
      rfl
    obtain ⟨hvalid, hrecords, hcorrupt, htail⟩ := parseArchiveLines_eq (ν := ν)
      (decide (lastPart (utf8Decode bytes) ≠ [])) (completeLines (utf8Decode bytes)) 1
    have hlines : (parseArchiveText ν (utf8Decode bytes)).validLines = verifyingLines ν files := by
      rw [verifyingLines, htext]
      exact hvalid
    have hids : (parseArchiveText ν (utf8Decode bytes)).ids = archivedIds ν files := by
      rw [ArchiveText.ids, parseArchiveText, hrecords, filterMap_ids, archivedIds, verifyingLines, htext]
    simp only
    by_cases hc : (parseArchiveText ν (utf8Decode bytes)).corrupt = []
    · rw [if_neg (fun h => h hc)]
      by_cases ht : (parseArchiveText ν (utf8Decode bytes)).truncatedTail = true
      · rw [if_pos ht]
        -- the torn tail is trimmed in one write
        have hclean := rewritten_clean (ν := ν) files
          (after files [AttemptWrite.archive (unlines (verifyingLines ν files))]) rfl
        refine ⟨[.archive (unlines (verifyingLines ν files))],
          ⟨(parseArchiveText ν (utf8Decode bytes)).records, (parseArchiveText ν (utf8Decode bytes)).ids,
            [js "archive-truncated-tail"]⟩, ?_, hids, ⟨Or.inr ?_, trivial⟩, ?_, hclean.1, by simp⟩
        · rw [← hlines]
          rfl
        · exact ⟨rfl, rfl, hclean.2⟩
        · exact ⟨rfl, rfl, hclean.2⟩
      · rw [if_neg ht]
        refine ⟨[], ⟨(parseArchiveText ν (utf8Decode bytes)).records,
          (parseArchiveText ν (utf8Decode bytes)).ids, []⟩, rfl, hids, trivial, hrefl, ⟨?_, ?_⟩, by simp⟩
        · have h : decide (lastPart (utf8Decode bytes) ≠ []) = false := by
            rw [← htail]
            exact Bool.not_eq_true _ ▸ ht
          rw [after_nil, htext]
          simpa using h
        · rw [after_nil, verifyingLines, htext, eq_comm, List.filter_eq_self]
          exact hcorrupt.mp hc
    · rw [if_pos hc]
      have hclean := rewritten_clean (ν := ν) files
        (after files [AttemptWrite.renameArchive clock.quarantinedAt,
          .archive (unlines (verifyingLines ν files))])
        (by simp [after, Writes.write, AttemptWrite.apply, harchive])
      have hside : after files [AttemptWrite.renameArchive clock.quarantinedAt,
          .archive (unlines (verifyingLines ν files))] =
          { files with
            archive := some (utf8Encode (unlines (verifyingLines ν files)))
            corrupt := (clock.quarantinedAt, bytes) ::
              files.corrupt.filter fun p => p.1 ≠ clock.quarantinedAt } := by
        simp [after, Writes.write, AttemptWrite.apply, harchive]
      have hsame : SameLines ν files (after files [AttemptWrite.renameArchive clock.quarantinedAt,
          .archive (unlines (verifyingLines ν files))]) :=
        ⟨by rw [hside], by rw [hside], hclean.2⟩
      refine ⟨[.renameArchive clock.quarantinedAt, .archive (unlines (verifyingLines ν files))],
        ⟨(parseArchiveText ν (utf8Decode bytes)).records, (parseArchiveText ν (utf8Decode bytes)).ids,
          [js "archive-corrupt"]⟩, ?_, hids, ⟨?_, Or.inr hsame, trivial⟩, hsame, hclean.1, by simp⟩
      · rw [← hlines]
        rfl
      · by_cases hnone : verifyingLines ν files = []
        · right
          have happly : Writes.write files (AttemptWrite.renameArchive clock.quarantinedAt) =
              { files with
                archive := none
                corrupt := (clock.quarantinedAt, bytes) ::
                  files.corrupt.filter fun p => p.1 ≠ clock.quarantinedAt } := by
            simp [Writes.write, AttemptWrite.apply, harchive]
          rw [happly]
          exact ⟨rfl, rfl, hnone.symm⟩
        · exact Or.inl ⟨⟨_, rfl⟩, hnone⟩

/-! ## Appending to the archive -/

def archiveWrites (lines : List JsString) : List AttemptWrite :=
  if lines = [] then [] else .openArchive :: (utf8Encode (unlines lines)).map AttemptWrite.append

theorem after_bytes (files : AttemptFiles) (bytes : Bytes) :
    after files (bytes.map AttemptWrite.append) =
      { files with archive := files.archive.map fun b => b ++ bytes } := by
  induction bytes generalizing files with
  | nil => cases files with
    | mk ledger archive journal corrupt => cases archive <;> simp
  | cons b bytes ih =>
    rw [List.map_cons, after_cons, ih]
    cases files with
    | mk ledger archive journal corrupt =>
      cases archive <;> simp [Writes.write, AttemptWrite.apply]

/-- Wherever the appending is cut, the archive has grown by some bytes of the lines. -/
theorem after_archiveWrites (files : AttemptFiles) {lines : List JsString} (hne : lines ≠ []) (k : Nat) :
    after files ((archiveWrites lines).take (k + 1)) =
      { files with archive := some (files.archive.getD [] ++ (utf8Encode (unlines lines)).take k) } := by
  rw [archiveWrites, if_neg hne, List.take_succ_cons, after_cons, ← List.map_take, after_bytes]
  rfl

/-- A line as the store appends them. -/
structure AppendedLine (ν : Type) [JsNumber ν] (line : JsString) : Prop where
  ok : LineOk line
  ascii : ∃ c rest, line = c :: rest ∧ c.toNat < 0x80
  verifies : (recordOf ν line).isSome = true

theorem utf8Decode_append_cut (bytes : Bytes) {lines : List JsString}
    (h : ∀ line ∈ lines, AppendedLine ν line) (k : Nat) :
    utf8Decode (bytes ++ (utf8Encode (unlines lines)).take k) =
      utf8Decode bytes ++ utf8Decode ((utf8Encode (unlines lines)).take k) := by
  cases lines with
  | nil => simp [unlines, utf8Encode, utf8Decode]
  | cons line lines =>
    obtain ⟨c, rest, rfl, hc⟩ := (h line List.mem_cons_self).ascii
    cases k with
    | zero => simp [utf8Decode]
    | succ k =>
      have hb : (byte c.toNat).toNat < 0x80 := by
        rw [byte_toNat (by omega)]
        exact hc
      rw [unlines_cons, List.cons_append, utf8Encode_plain _ (by simp [isHigh]; omega)
        (by simp [isLow]; omega), utf8Scalar, if_pos hc, List.cons_append, List.nil_append,
        List.take_succ_cons, utf8Decode_append_ascii _ hb]

theorem verifyingLines_cut {files : AttemptFiles} (hclean : ArchiveClean ν files)
    {lines : List JsString} (h : ∀ line ∈ lines, AppendedLine ν line) (hne : lines ≠ []) (k : Nat) :
    ∃ j, verifyingLines ν (after files ((archiveWrites lines).take (k + 1))) =
      verifyingLines ν files ++ lines.take j := by
  obtain ⟨j, hj⟩ := completeLines_cut (fun line hl => (h line hl).ok) k
  refine ⟨j, ?_⟩
  have htext : archiveText (after files ((archiveWrites lines).take (k + 1))) =
      archiveText files ++ utf8Decode ((utf8Encode (unlines lines)).take k) := by
    rw [after_archiveWrites files hne, archiveText, archiveText, Option.getD_some,
      utf8Decode_append_cut (ν := ν) _ h]
  have hall : (lines.take j).filter (fun line => (recordOf ν line).isSome) = lines.take j := by
    rw [List.filter_eq_self]
    intro line hl
    exact (h line (List.mem_of_mem_take hl)).verifies
  rw [verifyingLines, htext, completeLines_append hclean.whole, hj, List.filter_append, hall]
  rfl

/-- When all of the lines are appended, they are the archive's last. -/
theorem verifyingLines_archiveWrites {files : AttemptFiles} (hclean : ArchiveClean ν files)
    {lines : List JsString} (h : ∀ line ∈ lines, AppendedLine ν line) :
    verifyingLines ν (after files (archiveWrites lines)) = verifyingLines ν files ++ lines := by
  by_cases hne : lines = []
  · rw [hne]
    simp [archiveWrites]
  · have hlen : (archiveWrites lines).take ((utf8Encode (unlines lines)).length + 1) =
        archiveWrites lines := by
      rw [archiveWrites, if_neg hne]
      simp
    have hall := after_archiveWrites files hne (utf8Encode (unlines lines)).length
    rw [hlen, List.take_length] at hall
    have hlines : completeLines (utf8Decode (utf8Encode (unlines lines))) = lines := by
      rw [utf8Decode_encode_of_wellFormed _ (unlines_wellFormed fun l hl => (h l hl).ok)]
      exact completeLines_unlines fun l hl hm => (h l hl).ok.noBreak 10 hm rfl
    have htext : archiveText (after files (archiveWrites lines)) =
        archiveText files ++ utf8Decode (utf8Encode (unlines lines)) := by
      have hcut := utf8Decode_append_cut (ν := ν) (files.archive.getD []) h
        (utf8Encode (unlines lines)).length
      rw [List.take_length] at hcut
      rw [hall, archiveText, archiveText, Option.getD_some, hcut]
    have hself : lines.filter (fun line => (recordOf ν line).isSome) = lines := by
      rw [List.filter_eq_self]
      exact fun line hl => (h line hl).verifies
    rw [verifyingLines, htext, completeLines_append hclean.whole, hlines, List.filter_append, hself]
    rfl

theorem archiveWrites_frame (files : AttemptFiles) (lines : List JsString) (k : Nat) :
    (after files ((archiveWrites lines).take k)).ledger = files.ledger ∧
      (after files ((archiveWrites lines).take k)).journal = files.journal := by
  by_cases hne : lines = []
  · rw [archiveWrites, if_pos hne]
    simp
  · cases k with
    | zero => simp
    | succ k =>
      rw [after_archiveWrites files hne]
      exact ⟨rfl, rfl⟩

/-! ## Which entries are appended -/

omit [JsNumber ν] in
/-- What has not been seen: each of its ids once and none seen, and with those seen all there are. -/
theorem unseen_spec (seen : List JsString) (entries : List (AttemptEntry ν)) :
    (unseen seen entries).Sublist entries ∧ ((unseen seen entries).map AttemptEntry.id).Nodup ∧
      (∀ e ∈ unseen seen entries, e.id ∉ seen) ∧
      ∀ e ∈ entries, e.id ∈ seen ∨ e.id ∈ (unseen seen entries).map AttemptEntry.id := by
  induction entries generalizing seen with
  | nil => simp [unseen]
  | cons e entries ih =>
    rw [unseen]
    by_cases hs : e.id ∈ seen
    · obtain ⟨h1, h2, h3, h4⟩ := ih seen
      rw [if_pos hs]
      refine ⟨h1.cons e, h2, h3, ?_⟩
      rw [List.forall_mem_cons]
      exact ⟨Or.inl hs, h4⟩
    · obtain ⟨h1, h2, h3, h4⟩ := ih (e.id :: seen)
      have hnew : e.id ∉ (unseen (e.id :: seen) entries).map AttemptEntry.id := by
        intro hm
        obtain ⟨e', he', heq⟩ := List.mem_map.mp hm
        exact h3 e' he' (heq ▸ List.mem_cons_self)
      rw [if_neg hs]
      refine ⟨h1.cons_cons e, List.nodup_cons.mpr ⟨hnew, h2⟩, ?_, ?_⟩
      · rw [List.forall_mem_cons]
        exact ⟨hs, fun e' he' hm => h3 e' he' (List.mem_cons_of_mem _ hm)⟩
      · rw [List.forall_mem_cons, List.map_cons]
        refine ⟨Or.inr List.mem_cons_self, ?_⟩
        intro e' he'
        rcases h4 e' he' with hm | hm
        · rcases List.mem_cons.mp hm with heq | hm
          · exact Or.inr (heq ▸ List.mem_cons_self)
          · exact Or.inl hm
        · exact Or.inr (List.mem_cons_of_mem _ hm)

theorem appendedLine (a : Attempt) (archivedAt : JsString) :
    AppendedLine ν (archiveLine (a.entry : AttemptEntry ν) archivedAt) ∧
      (recordOf ν (archiveLine (a.entry : AttemptEntry ν) archivedAt)).map AttemptEntry.id =
        some a.id := by
  obtain ⟨rec, hv, hid⟩ := verify_archiveLine (ν := ν) a archivedAt
  have hr : recordOf ν (archiveLine (a.entry : AttemptEntry ν) archivedAt) = some rec := by
    rw [recordOf, hv]
  refine ⟨⟨lineOk_stringify _, ?_, by rw [hr]; rfl⟩, by rw [hr, Option.map_some, hid]⟩
  obtain ⟨c, rest, e, -, hc⟩ := stringify_head (Json.obj ((unsigned (sortKeys
    ((a.entry : AttemptEntry ν).members.set (js "archivedAt") (.str archivedAt)))).set (js "sha256")
    (.str (sha256 (stringify (.obj (unsigned (sortKeys ((a.entry : AttemptEntry ν).members.set
      (js "archivedAt") (.str archivedAt)))))))) : Members ν))
  exact ⟨c, rest, e, hc⟩

/-! ## What no step loses -/

/-- The id is in the ledger, or a line of the archive that verifies has it. -/
def Known (ν : Type) [JsNumber ν] (files : AttemptFiles) (id : JsString) : Prop :=
  (∃ entries, readLedger ν files = .ok entries ∧ id ∈ entries.map AttemptEntry.id) ∨
    id ∈ archivedIds ν files

/-- The ledger is one that the store has written, and no id stands twice in the archive. -/
structure AttemptsSound (ν : Type) [JsNumber ν] (files : AttemptFiles) : Prop where
  ledger : ∃ attempts, LedgerHolds ν files attempts
  ids : (archivedIds ν files).Nodup

/-- Sound files that have kept what was known. -/
structure Later (ν : Type) [JsNumber ν] (files files' : AttemptFiles) : Prop where
  sound : AttemptsSound ν files'
  known : ∀ id, Known ν files id → Known ν files' id
  lines : verifyingLines ν files ⊆ verifyingLines ν files'

theorem Later.refl {files : AttemptFiles} (h : AttemptsSound ν files) : Later ν files files :=
  ⟨h, fun _ hk => hk, List.Subset.refl _⟩

theorem Later.trans {a b c : AttemptFiles} (h : Later ν a b) (h' : Later ν b c) : Later ν a c :=
  ⟨h'.sound, fun id hk => h'.known id (h.known id hk), List.Subset.trans h.lines h'.lines⟩

theorem LedgerHolds.congr {files files' : AttemptFiles} {attempts : List Attempt}
    (h : LedgerHolds ν files attempts) (hl : files'.ledger = files.ledger) :
    LedgerHolds ν files' attempts := by
  unfold LedgerHolds at h ⊢
  rw [hl]
  exact h

theorem known_iff {files : AttemptFiles} {attempts : List Attempt} (h : LedgerHolds ν files attempts)
    (id : JsString) : Known ν files id ↔ id ∈ attempts.map Attempt.id ∨ id ∈ archivedIds ν files := by
  have hids : (attempts.map Attempt.entry).map (AttemptEntry.id (ν := ν)) = attempts.map Attempt.id := by
    rw [List.map_map]
    rfl
  unfold Known
  rw [readLedger_holds h]
  constructor
  · rintro (⟨entries, he, hm⟩ | hm)
    · rw [← Except.ok.inj he, hids] at hm
      exact Or.inl hm
    · exact Or.inr hm
  · rintro (hm | hm)
    · exact Or.inl ⟨_, rfl, hids ▸ hm⟩
    · exact Or.inr hm

/-- With the same ledger, files whose archive has grown by lines of new ids are later. -/
theorem Later.grown {files files' : AttemptFiles} (h : AttemptsSound ν files)
    (hl : files'.ledger = files.ledger) (lines : List JsString)
    (hv : verifyingLines ν files' = verifyingLines ν files ++ lines)
    (hn : (archivedIds ν files').Nodup) : Later ν files files' := by
  obtain ⟨attempts, ha⟩ := h.ledger
  refine ⟨⟨⟨attempts, ha.congr hl⟩, hn⟩, ?_, ?_⟩
  · intro id hk
    rw [known_iff ha] at hk
    rw [known_iff (ha.congr hl)]
    refine hk.imp_right fun hm => ?_
    rw [archivedIds, hv, List.filterMap_append]
    exact List.mem_append_left _ hm
  · rw [hv]
    exact List.subset_append_left _ _

theorem SameLines.later {files files' : AttemptFiles} (h : AttemptsSound ν files)
    (hs : SameLines ν files files') : Later ν files files' := by
  have hids : archivedIds ν files' = archivedIds ν files := by
    rw [archivedIds, archivedIds, hs.lines]
  refine Later.grown h hs.ledger [] ?_ ?_
  · rw [hs.lines, List.append_nil]
  · rw [hids]
    exact h.ids

/-! ## A replay -/

theorem replay_run {clock : ReplayClock} (entries : List (AttemptEntry ν)) {files : AttemptFiles}
    {ws : List AttemptWrite} {read : ArchiveRead ν} (hr : readArchive ν clock files = (ws, .ok read)) :
    replay clock entries files =
      (ws ++ (archiveWrites ((unseen read.ids entries).map fun e => archiveLine e clock.archivedAt) ++
        .ledger (jsonText (.arr ([] : List (Json ν)))) ::
          if (after files (ws ++ archiveWrites
            ((unseen read.ids entries).map fun e => archiveLine e clock.archivedAt))).journal.isSome
          then [.unlinkJournal] else []),
        .ok ⟨(unseen read.ids entries).length, read.events⟩) := by
  unfold replay
  rw [Script.run_bind_ok hr]
  generalize hlines : (unseen read.ids entries).map (fun e => archiveLine e clock.archivedAt) = lines
  have hlen : (unseen read.ids entries).length = lines.length := by
    rw [← hlines, List.length_map]
  rw [hlen, after_append]
  have hjournal : ∀ s : AttemptFiles, (Writes.write s
      (AttemptWrite.ledger (jsonText (.arr ([] : List (Json ν)))))).journal = s.journal := fun _ => rfl
  by_cases hne : lines = []
  · simp only [hne, ne_eq, not_true_eq_false, if_false, writeLedger, List.map_nil,
      Script.run_write_bind, Script.run_get_bind, archiveWrites, if_true, after_nil, List.nil_append,
      hjournal]
    split_ifs <;> rfl
  · simp only [hne, ne_eq, not_false_eq_true, if_true, writeLedger, List.map_nil, appendLines,
      Script.run_writeAll_bind, Script.run_write_bind, Script.run_get_bind, archiveWrites, if_false,
      hjournal]
    split_ifs <;> rfl

theorem pending_lines (entries : List (AttemptEntry ν)) {attempts : List Attempt} (archivedAt : JsString)
    (h : ∀ e ∈ entries, e ∈ attempts.map Attempt.entry) :
    (∀ line ∈ entries.map (fun e => archiveLine e archivedAt), AppendedLine ν line) ∧
      ∀ j, ((entries.map fun e => archiveLine e archivedAt).take j).filterMap
        (fun line => (recordOf ν line).map AttemptEntry.id) = (entries.take j).map AttemptEntry.id := by
  constructor
  · rw [List.forall_mem_map]
    intro e he
    obtain ⟨a, -, rfl⟩ := List.mem_map.mp (h e he)
    exact (appendedLine a archivedAt).1
  · intro j
    rw [← List.map_take, List.filterMap_map]
    have hj : ∀ e ∈ entries.take j, e ∈ attempts.map Attempt.entry :=
      fun e he => h e (List.mem_of_mem_take he)
    generalize entries.take j = some_ at hj
    induction some_ with
    | nil => rfl
    | cons e es ih =>
      obtain ⟨a, -, ha⟩ := List.mem_map.mp (hj e List.mem_cons_self)
      have hid : (recordOf ν (archiveLine e archivedAt)).map AttemptEntry.id = some e.id := by
        rw [← ha]
        exact (appendedLine a archivedAt).2
      rw [List.filterMap_cons, Function.comp_apply, hid, List.map_cons,
        ih fun e he => hj e (List.mem_cons_of_mem _ he)]

/-- A replay archives every entry of the ledger that is not yet archived, and empties the ledger;
wherever it is cut off, nothing is lost. -/
theorem replay_spec {files : AttemptFiles} {attempts : List Attempt} (h : AttemptsSound ν files)
    (hl : LedgerHolds ν files attempts) (clock : ReplayClock) :
    ∃ ws r, replay clock (attempts.map (Attempt.entry (ν := ν))) files = (ws, .ok r) ∧
      Kept (SetsAside ν) (Later ν files) files ws ∧ Later ν files (after files ws) ∧
      LedgerHolds ν (after files ws) [] ∧ (after files ws).journal = none ∧
      (attempts = [] → r.archived = 0 ∧ ∀ b, AttemptWrite.append b ∉ ws) := by
  obtain ⟨ws1, read, hr, hids, hkept, hsame, hclean, happends⟩ := readArchive_spec (ν := ν) clock files
  obtain ⟨hsub, hnodup, hnew, hall⟩ := unseen_spec read.ids (attempts.map (Attempt.entry (ν := ν)))
  have hrun := replay_run (attempts.map (Attempt.entry (ν := ν))) hr
  generalize unseen read.ids (attempts.map (Attempt.entry (ν := ν))) = pending at *
  obtain ⟨happ, hlineids⟩ := pending_lines pending clock.archivedAt hsub.subset
  generalize (pending.map fun e => archiveLine e clock.archivedAt) = lines at *
  -- some of the lines appended: their ids are new
  have hgrown : ∀ (s : AttemptFiles) (j : Nat), s.ledger = files.ledger →
      verifyingLines ν s = verifyingLines ν files ++ lines.take j → Later ν files s := by
    intro s j hsl hv
    refine Later.grown h hsl _ hv ?_
    rw [archivedIds, hv, List.filterMap_append, hlineids]
    refine List.nodup_append.mpr ⟨h.ids, ?_, ?_⟩
    · exact hnodup.sublist ((List.take_sublist j pending).map _)
    · rintro id hid _ hm rfl
      obtain ⟨e, he, rfl⟩ := List.mem_map.mp hm
      exact hnew e (List.mem_of_mem_take he) (hids ▸ hid)
  have hcut : Kept (SetsAside ν) (Later ν files) (after files ws1) (archiveWrites lines) := by
    by_cases hne : lines = []
    · rw [archiveWrites, if_pos hne]
      trivial
    · apply kept_of_cuts
      intro k
      obtain ⟨j, hj⟩ := verifyingLines_cut hclean happ hne k
      refine hgrown _ j ?_ (by rw [hj, hsame.lines])
      rw [(archiveWrites_frame _ _ _).1, hsame.ledger]
  have hfull := verifyingLines_archiveWrites hclean happ
  have hframe := archiveWrites_frame (after files ws1) lines (archiveWrites lines).length
  rw [List.take_length] at hframe
  generalize hs2 : after (after files ws1) (archiveWrites lines) = s2 at *
  have hcount : lines.take (lines.length + pending.length) = lines ∧
      pending.take (lines.length + pending.length) = pending :=
    ⟨List.take_of_length_le (by omega), List.take_of_length_le (by omega)⟩
  have hv2 : verifyingLines ν s2 = verifyingLines ν files ++ lines := by
    rw [hfull, hsame.lines]
  have hlater2 : Later ν files s2 := by
    refine hgrown s2 (lines.length + pending.length) ?_ (by rw [hcount.1, hv2])
    rw [hframe.1, hsame.ledger]
  have hids2 : archivedIds ν s2 = archivedIds ν files ++ pending.map AttemptEntry.id := by
    have hlines := hlineids (lines.length + pending.length)
    rw [hcount.1, hcount.2] at hlines
    rw [archivedIds, hv2, List.filterMap_append, hlines]
    rfl
  -- the ledger is emptied when each of its ids is in the archive
  have hempty : ∀ s : AttemptFiles, s.ledger = some (utf8Encode (jsonText (.arr ([] : List (Json ν))))) →
      s.archive = s2.archive → Later ν files s ∧ LedgerHolds ν s [] := by
    intro s hsl hsa
    have hholds : LedgerHolds ν s [] := Or.inr hsl
    have hv : verifyingLines ν s = verifyingLines ν s2 := by
      rw [verifyingLines, verifyingLines, archiveText, archiveText, hsa]
    have ha : archivedIds ν s = archivedIds ν s2 := by
      rw [archivedIds, archivedIds, hv]
    refine ⟨⟨⟨⟨[], hholds⟩, ?_⟩, ?_, ?_⟩, hholds⟩
    · rw [ha]
      exact hlater2.sound.ids
    · intro id hk
      rw [known_iff hl] at hk
      rw [known_iff hholds, ha, hids2, List.mem_append]
      right
      rcases hk with hm | hm
      · obtain ⟨a, hmem, rfl⟩ := List.mem_map.mp hm
        have hone := hall a.entry (List.mem_map_of_mem hmem)
        rw [hids] at hone
        exact hone
      · exact Or.inl hm
    · rw [hv]
      exact hlater2.lines
  have h3 := hempty (Writes.write s2 (AttemptWrite.ledger (jsonText (.arr ([] : List (Json ν)))))) rfl rfl
  have h4 := hempty (Writes.write (Writes.write s2 (AttemptWrite.ledger
    (jsonText (.arr ([] : List (Json ν)))))) AttemptWrite.unlinkJournal) rfl rfl
  have hnone : attempts = [] → pending.length = 0 ∧ lines = [] := by
    rintro rfl
    have hp : pending = [] := List.sublist_nil.mp hsub
    have hlines := hlineids lines.length
    rw [hp, List.take_length] at hlines
    refine ⟨by rw [hp]; rfl, ?_⟩
    by_contra hne
    obtain ⟨line, rest, rfl⟩ := List.exists_cons_of_ne_nil hne
    obtain ⟨rec, hrec⟩ := Option.isSome_iff_exists.mp (happ line List.mem_cons_self).verifies
    simp [hrec] at hlines
  have hafter : ∀ ws, after files (ws1 ++ (archiveWrites lines ++ ws)) = after s2 ws := by
    intro ws
    rw [after_append, after_append, hs2]
  have hcond : after files (ws1 ++ archiveWrites lines) = s2 := by
    rw [after_append, hs2]
  have hquiet : ∀ last : List AttemptWrite, (∀ b, AttemptWrite.append b ∉ last) → attempts = [] →
      pending.length = 0 ∧ ∀ b, AttemptWrite.append b ∉ ws1 ++ (archiveWrites lines ++ last) := by
    intro last hlast he
    obtain ⟨hlen, hlines⟩ := hnone he
    refine ⟨hlen, ?_⟩
    intro b
    rw [hlines, archiveWrites, if_pos rfl, List.nil_append, List.mem_append, not_or]
    exact ⟨happends b, hlast b⟩
  refine ⟨_, _, hrun, ?_⟩
  rw [hcond]
  by_cases hj : s2.journal.isSome = true
  · rw [if_pos hj, hafter]
    refine ⟨?_, h4.1, h4.2, rfl, hquiet _ (by simp)⟩
    rw [kept_append, kept_append, hs2]
    exact ⟨hkept.imp fun s hs => hs.later h, hcut, Or.inr h3.1, Or.inr h4.1, trivial⟩
  · have hjn : s2.journal = none := by simpa using hj
    rw [if_neg hj, hafter]
    refine ⟨?_, h3.1, h3.2, hjn, hquiet _ (by simp)⟩
    rw [kept_append, kept_append, hs2]
    exact ⟨hkept.imp fun s hs => hs.later h, hcut, Or.inr h3.1, trivial⟩

/-! ## The calls -/

theorem recoverAttempts_spec {files : AttemptFiles} (h : AttemptsSound ν files) (clock : ReplayClock) :
    ∃ ws r, recoverAttempts ν clock files = (ws, .ok r) ∧ Kept (SetsAside ν) (Later ν files) files ws ∧
      Later ν files (after files ws) ∧ (after files ws).journal = none := by
  obtain ⟨attempts, hl⟩ := h.ledger
  unfold recoverAttempts
  rw [Script.run_get_bind]
  by_cases hj : files.journal.isSome = true
  · obtain ⟨ws, r, hrun, hkept, hlater, -, hnone, -⟩ := replay_spec h hl clock
    have hread : readRaw ν files = ([], .ok (attempts.map Attempt.entry)) := by
      rw [readRaw, readLedger_holds hl]
    rw [if_pos hj, Script.run_bind_ok hread, after_nil, Script.run_bind_ok hrun]
    refine ⟨ws, ⟨r, true⟩, ?_, hkept, hlater, hnone⟩
    simp
  · rw [if_neg hj]
    exact ⟨[], _, rfl, trivial, Later.refl h, by simpa using hj⟩

/-- What is known is not lost when the ledger is written with the ids it had. -/
theorem later_writeLedger {files : AttemptFiles} (h : AttemptsSound ν files) {old new : List Attempt}
    (hl : LedgerHolds ν files old) (hids : old.map Attempt.id ⊆ new.map Attempt.id) :
    Later ν files (Writes.write files (AttemptWrite.ledger (jsonText
      (.arr ((new.map (Attempt.entry (ν := ν))).map fun e => .obj e.members))))) := by
  let files' := Writes.write files (AttemptWrite.ledger (jsonText
      (.arr ((new.map (Attempt.entry (ν := ν))).map fun e => .obj e.members))))
  have hholds : LedgerHolds ν files' new := Or.inr rfl
  have ha : archivedIds ν files' = archivedIds ν files := rfl
  refine ⟨⟨⟨new, hholds⟩, h.ids⟩, ?_, List.Subset.refl _⟩
  intro id hk
  rw [known_iff hl] at hk
  rw [known_iff hholds, ha]
  exact hk.imp_left fun hm => hids hm

/-- Wherever it is cut off, and at its end, what a call has written loses nothing. -/
def LosesNothing (ν : Type) [JsNumber ν] (files : AttemptFiles) (ws : List AttemptWrite) : Prop :=
  Kept (SetsAside ν) (Later ν files) files ws ∧ Later ν files (after files ws)

theorem losesNothing_nil {files : AttemptFiles} (h : AttemptsSound ν files) : LosesNothing ν files [] :=
  ⟨trivial, Later.refl h⟩

theorem LosesNothing.append {files : AttemptFiles} {ws ws' : List AttemptWrite}
    (h : LosesNothing ν files ws) (h' : LosesNothing ν (after files ws) ws') :
    LosesNothing ν files (ws ++ ws') := by
  refine ⟨kept_append.mpr ⟨h.1, h'.1.imp fun s hs => h.2.trans hs⟩, ?_⟩
  rw [after_append]
  exact h.2.trans h'.2

theorem losesNothing_ledger {files : AttemptFiles} (h : AttemptsSound ν files) {old : List Attempt}
    (hl : LedgerHolds ν files old) (new : List Attempt) (hids : old.map Attempt.id ⊆ new.map Attempt.id) :
    LosesNothing ν files [.ledger (jsonText
      (.arr ((new.map (Attempt.entry (ν := ν))).map fun e => .obj e.members)))] :=
  ⟨⟨Or.inr (later_writeLedger h hl hids), trivial⟩, later_writeLedger h hl hids⟩

theorem readAttempts_spec {files : AttemptFiles} (h : AttemptsSound ν files) (clock : ReplayClock)
    (recent : AttemptEntry ν → Bool) :
    LosesNothing ν files (readAttempts clock recent files).1 := by
  obtain ⟨ws, r, hrun, hkept, hlater, -⟩ := recoverAttempts_spec h clock
  obtain ⟨attempts, hl⟩ := hlater.sound.ledger
  have hread : readRaw ν (after files ws) = ([], .ok (attempts.map Attempt.entry)) := by
    rw [readRaw, readLedger_holds hl]
  unfold readAttempts
  rw [Script.run_bind_ok hrun, Script.run_bind_ok hread]
  simpa using ⟨hkept, hlater⟩

/-- An attempt that has begun is in the ledger. -/
theorem beginAttempt_spec {files : AttemptFiles} (h : AttemptsSound ν files) (clock : ReplayClock)
    (id ts kind : JsString) :
    LosesNothing ν files (beginAttempt ν clock id ts kind files).1 ∧
      ((beginAttempt ν clock id ts kind files).2 = .ok (startedEntry id ts kind) →
        Known ν (after files (beginAttempt ν clock id ts kind files).1) id) := by
  unfold beginAttempt
  by_cases hk : kind ∈ kinds
  · rw [if_neg (fun hn => hn hk)]
    obtain ⟨ws, r, hrun, hkept, hlater, -⟩ := recoverAttempts_spec h clock
    obtain ⟨attempts, hl⟩ := hlater.sound.ledger
    have hread : readRaw ν (after files ws) = ([], .ok (attempts.map Attempt.entry)) := by
      rw [readRaw, readLedger_holds hl]
    have hnew : attempts.map (Attempt.entry (ν := ν)) ++ [startedEntry id ts kind] =
        (attempts ++ [(⟨id, ts, kind, js "started", none⟩ : Attempt)]).map Attempt.entry := by
      rw [List.map_append, startedEntry_eq]
      rfl
    have hids : attempts.map Attempt.id ⊆
        (attempts ++ [(⟨id, ts, kind, js "started", none⟩ : Attempt)]).map Attempt.id := by
      rw [List.map_append]
      exact List.subset_append_left _ _
    rw [Script.run_bind_ok hrun, Script.run_bind_ok hread, hnew]
    simp only [writeLedger, Script.run_write_bind, Script.run_pure, List.nil_append, after_nil]
    have hwrite := losesNothing_ledger hlater.sound hl _ hids
    refine ⟨LosesNothing.append ⟨hkept, hlater⟩ hwrite, ?_⟩
    intro _
    have hholds : LedgerHolds ν (after (after files ws) [AttemptWrite.ledger (jsonText (.arr
        (((attempts ++ [(⟨id, ts, kind, js "started", none⟩ : Attempt)]).map
          (Attempt.entry (ν := ν))).map fun e => .obj e.members)))])
        (attempts ++ [⟨id, ts, kind, js "started", none⟩]) := Or.inr rfl
    rw [after_append, known_iff hholds]
    left
    rw [List.map_append]
    exact List.mem_append_right _ (List.mem_singleton_self _)
  · rw [if_pos hk]
    refine ⟨losesNothing_nil h, ?_⟩
    intro he
    cases he

theorem beginAttempt_ok {files : AttemptFiles} (h : AttemptsSound ν files) (clock : ReplayClock)
    (id ts : JsString) {kind : JsString} (hk : kind ∈ kinds) :
    (beginAttempt ν clock id ts kind files).2 = .ok (startedEntry id ts kind) := by
  unfold beginAttempt
  rw [if_neg (fun hn => hn hk)]
  obtain ⟨ws, r, hrun, -, hlater, -⟩ := recoverAttempts_spec h clock
  obtain ⟨attempts, hl⟩ := hlater.sound.ledger
  have hread : readRaw ν (after files ws) = ([], .ok (attempts.map Attempt.entry)) := by
    rw [readRaw, readLedger_holds hl]
  rw [Script.run_bind_ok hrun, Script.run_bind_ok hread]
  rfl

theorem finishAttempt_spec {files : AttemptFiles} (h : AttemptsSound ν files) (clock : ReplayClock)
    (id outcome finishedAt : JsString) :
    LosesNothing ν files (finishAttempt ν clock id outcome finishedAt files).1 := by
  unfold finishAttempt
  by_cases ho : outcome ≠ js "ok" ∧ outcome ≠ js "failed"
  · rw [if_pos ho]
    exact losesNothing_nil h
  · rw [if_neg ho]
    obtain ⟨ws, r, hrun, hkept, hlater, -⟩ := recoverAttempts_spec h clock
    obtain ⟨attempts, hl⟩ := hlater.sound.ledger
    have hread : readRaw ν (after files ws) = ([], .ok (attempts.map Attempt.entry)) := by
      rw [readRaw, readLedger_holds hl]
    rw [Script.run_bind_ok hrun, Script.run_bind_ok hread]
    simp only [List.nil_append, after_nil]
    have hmissing : LosesNothing ν files (ws ++ ((Script.fail (.attemptMissing id) :
        AttemptScript (AttemptEntry ν)) (after files ws)).1) := by
      rw [Script.run_fail, List.append_nil]
      exact ⟨hkept, hlater⟩
    cases hidx : (attempts.map (Attempt.entry (ν := ν))).findIdx? fun e => decide (e.id = id) with
    | none => exact hmissing
    | some idx =>
      cases hfind : (attempts.map (Attempt.entry (ν := ν))).find? fun e => decide (e.id = id) with
      | none => exact hmissing
      | some entry =>
        obtain ⟨a, hmem, rfl⟩ := List.mem_map.mp (List.mem_of_find?_eq_some hfind)
        have hfound := List.find?_some hfind
        have hid : a.id = id := of_decide_eq_true hfound
        obtain ⟨hlt, hat, -⟩ := List.findIdx?_eq_some_iff_getElem.mp hidx
        have hnew : (attempts.map (Attempt.entry (ν := ν))).set idx
            ((a.entry : AttemptEntry ν).finish outcome finishedAt) =
            (attempts.set idx { a with outcome := outcome, finishedAt := some finishedAt }).map
              Attempt.entry := by
          rw [finish_entry, List.map_set]
        have hids : (attempts.set idx
            { a with outcome := outcome, finishedAt := some finishedAt }).map Attempt.id =
            attempts.map Attempt.id := by
          have hlt' : idx < (attempts.map Attempt.id).length := by simpa using hlt
          have hsame : (attempts.map Attempt.id)[idx] = a.id := by
            rw [hid]
            simpa using hat
          rw [List.map_set, ← hsame, List.set_getElem_self]
        have hwrite := losesNothing_ledger hlater.sound hl
          (attempts.set idx { a with outcome := outcome, finishedAt := some finishedAt })
          (hids ▸ List.Subset.refl _)
        simp only [hnew, writeLedger, Script.run_write_bind, Script.run_pure]
        exact LosesNothing.append ⟨hkept, hlater⟩ hwrite

/-- A reset under the lock completes: the ledger is empty then, and there is no journal. -/
theorem resetAttempts_spec {files : AttemptFiles} (h : AttemptsSound ν files) (clock : ResetClock)
    (lockHeld : Bool) :
    LosesNothing ν files (resetAttempts ν clock lockHeld files).1 ∧
      (lockHeld = true → (∃ done, (resetAttempts ν clock lockHeld files).2 = .ok done) ∧
        LedgerHolds ν (after files (resetAttempts ν clock lockHeld files).1) [] ∧
        (after files (resetAttempts ν clock lockHeld files).1).journal = none) := by
  unfold resetAttempts
  cases lockHeld with
  | false => exact ⟨losesNothing_nil h, fun hn => by cases hn⟩
  | true =>
    obtain ⟨ws, r, hrun, hkept, hlater, -⟩ := recoverAttempts_spec h clock.recovery
    obtain ⟨attempts, hl⟩ := hlater.sound.ledger
    have hread : readRaw ν (after files ws) = ([], .ok (attempts.map Attempt.entry)) := by
      rw [readRaw, readLedger_holds hl]
    let journal := AttemptWrite.journal (jsonText
      (journalValue clock.startedAt (after files ws).ledger : Json ν))
    have hjournal : Later ν (after files ws) (Writes.write (after files ws) journal) :=
      Later.grown hlater.sound rfl [] (List.append_nil _).symm hlater.sound.ids
    have hwrote : LosesNothing ν (after files ws) [journal] := ⟨⟨Or.inr hjournal, trivial⟩, hjournal⟩
    obtain ⟨ws', r', hrun', hkept', hlater', hempty, hnone, -⟩ :=
      replay_spec hjournal.sound (hl.congr rfl) clock.replay
    simp only [Bool.not_true, Bool.false_eq_true, if_false]
    rw [Script.run_bind_ok hrun, Script.run_get_bind, Script.run_bind_ok hread]
    simp only [List.nil_append, after_nil, Script.run_write_bind]
    rw [Script.run_bind_ok hrun']
    simp only [Script.run_pure, List.append_nil]
    have hall : LosesNothing ν files (ws ++ ([journal] ++ ws')) :=
      LosesNothing.append ⟨hkept, hlater⟩ (LosesNothing.append hwrote ⟨hkept', hlater'⟩)
    refine ⟨hall, fun _ => ⟨⟨_, rfl⟩, ?_⟩⟩
    rw [after_append]
    exact ⟨hempty, hnone⟩

/-! ## Runs -/

inductive AttemptCall (ν : Type) where
  | read (clock : ReplayClock) (recent : AttemptEntry ν → Bool)
  | begin_ (clock : ReplayClock) (id ts kind : JsString)
  | finish (clock : ReplayClock) (id outcome finishedAt : JsString)
  | reset (clock : ResetClock) (lockHeld : Bool)

def AttemptCall.writes : AttemptCall ν → AttemptFiles → List AttemptWrite
  | .read clock recent, files => (readAttempts clock recent files).1
  | .begin_ clock id ts kind, files => (beginAttempt ν clock id ts kind files).1
  | .finish clock id outcome finishedAt, files => (finishAttempt ν clock id outcome finishedAt files).1
  | .reset clock lockHeld, files => (resetAttempts ν clock lockHeld files).1

/-- A call, which may crash after so many of its writes, or damage to the archive. -/
inductive AttemptEvent (ν : Type) where
  | call (c : AttemptCall ν)
  | crash (c : AttemptCall ν) (done : Nat)
  | damage (archive : Bytes)

def AttemptEvent.next (files : AttemptFiles) : AttemptEvent ν → AttemptFiles
  | .call c => after files (c.writes files)
  | .crash c done => after files ((c.writes files).take done)
  | .damage archive => { files with archive := some archive }

def attemptsRun (files : AttemptFiles) (events : List (AttemptEvent ν)) : AttemptFiles :=
  events.foldl AttemptEvent.next files

/-- Damage reaches only lines that do not verify. -/
def AttemptEvent.Bounded (files : AttemptFiles) : AttemptEvent ν → Prop
  | .damage archive => verifyingLines ν { files with archive := some archive } = verifyingLines ν files
  | _ => True

/-- A crash does not come right after an archive with a line that verifies was set aside. -/
def AttemptEvent.Clear (files : AttemptFiles) : AttemptEvent ν → Prop
  | .crash c done => CutClear (SetsAside ν) files ((c.writes files).take done)
  | _ => True

/-- Each event of the run, from where it comes. -/
def Along (P : AttemptFiles → AttemptEvent ν → Prop) : AttemptFiles → List (AttemptEvent ν) → Prop
  | _, [] => True
  | files, e :: events => P files e ∧ Along P (e.next files) events

theorem call_losesNothing {files : AttemptFiles} (h : AttemptsSound ν files) (c : AttemptCall ν) :
    LosesNothing ν files (c.writes files) := by
  cases c with
  | read clock recent => exact readAttempts_spec h clock recent
  | begin_ clock id ts kind => exact (beginAttempt_spec h clock id ts kind).1
  | finish clock id outcome finishedAt => exact finishAttempt_spec h clock id outcome finishedAt
  | reset clock lockHeld => exact (resetAttempts_spec h clock lockHeld).1

theorem event_later {files : AttemptFiles} (h : AttemptsSound ν files) {e : AttemptEvent ν}
    (hb : e.Bounded files) (hc : e.Clear files) : Later ν files (e.next files) := by
  cases e with
  | call c => exact (call_losesNothing h c).2
  | crash c done => exact (call_losesNothing h c).1.cut (Later.refl h) hc
  | damage archive =>
    refine Later.grown h rfl [] ?_ ?_
    · rw [List.append_nil]
      exact hb
    · have hids : archivedIds ν { files with archive := some archive } = archivedIds ν files := by
        rw [archivedIds, archivedIds, hb]
      exact hids.symm ▸ h.ids

theorem run_later {files : AttemptFiles} (h : AttemptsSound ν files) {events : List (AttemptEvent ν)}
    (hb : Along AttemptEvent.Bounded files events) (hc : Along AttemptEvent.Clear files events) :
    Later ν files (attemptsRun files events) := by
  induction events generalizing files with
  | nil => exact Later.refl h
  | cons e events ih =>
    have he := event_later h hb.1 hc.1
    exact he.trans (ih he.sound hb.2 hc.2)

/-- The files before the first attempt. -/
def noFiles : AttemptFiles := ⟨none, none, none, []⟩

theorem noFiles_sound : AttemptsSound ν noFiles := by
  refine ⟨⟨[], Or.inl ⟨rfl, rfl⟩⟩, ?_⟩
  have hlines : verifyingLines ν noFiles = [] := rfl
  rw [archivedIds, hlines]
  exact List.nodup_nil

theorem along_append {P : AttemptFiles → AttemptEvent ν → Prop} {files : AttemptFiles}
    {before later : List (AttemptEvent ν)} :
    Along P files (before ++ later) ↔ Along P files before ∧ Along P (attemptsRun files before) later := by
  induction before generalizing files with
  | nil => simp [Along, attemptsRun]
  | cons e before ih => simp [Along, attemptsRun, ih, and_assoc]

/-- Of a run in which damage reaches only lines that do not verify, and no crash comes right after
an archive with a line that verifies was set aside. -/
theorem attempts_kept {before later : List (AttemptEvent ν)}
    (hb : Along AttemptEvent.Bounded noFiles (before ++ later))
    (hc : Along AttemptEvent.Clear noFiles (before ++ later)) :
    let earlier := attemptsRun noFiles before
    let files := attemptsRun noFiles (before ++ later)
    (∀ id, Known ν earlier id → Known ν files id) ∧ (archivedIds ν files).Nodup ∧
      verifyingLines ν earlier ⊆ verifyingLines ν files ∧
      (∀ clock id ts kind, (beginAttempt ν clock id ts kind files).2 = .ok (startedEntry id ts kind) →
        Known ν (after files (beginAttempt ν clock id ts kind files).1) id) ∧
      ∀ clock, (∃ done, (resetAttempts ν clock true files).2 = .ok done) ∧
        readLedger ν (after files (resetAttempts ν clock true files).1) = .ok [] ∧
        ∀ clock', ∃ ws r, replay clock' ([] : List (AttemptEntry ν))
            (after files (resetAttempts ν clock true files).1) = (ws, .ok r) ∧
          r.archived = 0 ∧ ∀ b, AttemptWrite.append b ∉ ws := by
  intro earlier files
  rw [along_append] at hb hc
  have hearlier : AttemptsSound ν earlier := (run_later noFiles_sound hb.1 hc.1).sound
  have hlater : Later ν earlier files := by
    have h := run_later hearlier hb.2 hc.2
    have hfiles : files = attemptsRun earlier later := by
      show attemptsRun noFiles (before ++ later) = _
      rw [attemptsRun, List.foldl_append]
      rfl
    rw [hfiles]
    exact h
  refine ⟨hlater.known, hlater.sound.ids, hlater.lines, ?_, ?_⟩
  · intro clock id ts kind
    exact (beginAttempt_spec hlater.sound clock id ts kind).2
  · intro clock
    obtain ⟨hlosesNothing, hreset⟩ := resetAttempts_spec hlater.sound clock true
    obtain ⟨hdone, hempty, -⟩ := hreset rfl
    refine ⟨hdone, readLedger_holds hempty, ?_⟩
    intro clock'
    obtain ⟨ws, r, hrun, -, -, -, -, hquiet⟩ := replay_spec hlosesNothing.2.sound hempty clock'
    obtain ⟨hnone, happends⟩ := hquiet rfl
    exact ⟨ws, r, hrun, hnone, happends⟩

def markedClock : ReplayClock := ⟨js "2026-07-01T00-00-00-000Z", js "2026-07-01T00:00:00.000Z"⟩

/-- A begun attempt, and a reset that archives it. -/
def archivedOnce : List (AttemptEvent Int) :=
  [.call (.begin_ markedClock (js "01J") (js "2026-06-30T00:00:00.000Z") (js "shaping")),
    .call (.reset ⟨markedClock, js "2026-07-01T00:00:00.000Z", markedClock⟩ true)]

/-- A begin that is cut off when it has written the ledger, and then an attempt with the same id. -/
def begunTwice : List (AttemptEvent Int) :=
  [.crash (.begin_ markedClock (js "01J") (js "2026-06-30T00:00:00.000Z") (js "shaping")) 1]

theorem attempts_kept_begunTwice :
    Along AttemptEvent.Bounded noFiles (begunTwice ++ archivedOnce) ∧
      Along AttemptEvent.Clear noFiles (begunTwice ++ archivedOnce) ∧
      (∀ id, Known Int (attemptsRun noFiles begunTwice) id →
        Known Int (attemptsRun noFiles (begunTwice ++ archivedOnce)) id) ∧
      (archivedIds Int (attemptsRun noFiles (begunTwice ++ archivedOnce))).Nodup := by
  have hb : Along AttemptEvent.Bounded noFiles (begunTwice ++ archivedOnce) :=
    ⟨trivial, trivial, trivial, trivial⟩
  have hc : Along AttemptEvent.Clear noFiles (begunTwice ++ archivedOnce) := by
    refine ⟨?_, trivial, trivial, trivial⟩
    rintro init w hcut ⟨⟨stamp, rfl⟩, -⟩
    have hmem : AttemptWrite.renameArchive stamp ∈ init ++ [.renameArchive stamp] := by simp
    rw [← hcut] at hmem
    cases List.mem_singleton.mp hmem
  obtain ⟨hknown, hids, -⟩ := attempts_kept hb hc
  exact ⟨hb, hc, hknown, hids⟩

/-- A reset that is cut off after it has set the archive aside leaves no attempt that is known. -/
theorem reset_cut_forgets {files : AttemptFiles} (hl : LedgerHolds ν files []) (hj : files.journal = none)
    {bytes : Bytes} (ha : files.archive = some bytes) {line : JsString}
    (hm : line ∈ completeLines (utf8Decode bytes)) (hbad : recordOf ν line = none) (clock : ResetClock)
    (id : JsString) : ¬Known ν (after files ((resetAttempts ν clock true files).1.take 2)) id := by
  let journal := AttemptWrite.journal (jsonText (journalValue clock.startedAt files.ledger : Json ν))
  have hcorrupt : (parseArchiveText ν (utf8Decode bytes)).corrupt ≠ [] := by
    intro hnone
    have hall := (parseArchiveLines_eq (ν := ν) _ (completeLines (utf8Decode bytes)) 1).2.2.1.mp hnone
    have hline := hall line hm
    rw [hbad] at hline
    cases hline
  have hread : readRaw ν files = ([], .ok ([] : List (AttemptEntry ν))) := by
    rw [readRaw, readLedger_holds hl]
    rfl
  have hpending : recoverAttempts ν clock.recovery files = ([], .ok ⟨⟨0, []⟩, false⟩) := by
    unfold recoverAttempts
    rw [Script.run_get_bind, hj]
    rfl
  have haside : ∃ ws, (replay clock.replay ([] : List (AttemptEntry ν)) (Writes.write files journal)).1 =
      .renameArchive clock.replay.quarantinedAt :: ws := by
    have harchive : (Writes.write files journal).archive = some bytes := ha
    have hrun : readArchive ν clock.replay (Writes.write files journal) =
        ([.renameArchive clock.replay.quarantinedAt,
          .archive (unlines (parseArchiveText ν (utf8Decode bytes)).validLines)],
        .ok ⟨(parseArchiveText ν (utf8Decode bytes)).records, (parseArchiveText ν (utf8Decode bytes)).ids,
          [js "archive-corrupt"]⟩) := by
      unfold readArchive
      rw [Script.run_get_bind, harchive]
      simp only
      rw [if_pos hcorrupt]
      rfl
    rw [replay_run _ hrun]
    exact ⟨_, rfl⟩
  obtain ⟨ws, hws⟩ := haside
  have hcut : (resetAttempts ν clock true files).1.take 2 =
      [journal, .renameArchive clock.replay.quarantinedAt] := by
    unfold resetAttempts
    simp only [Bool.not_true, Bool.false_eq_true, if_false]
    rw [Script.run_bind_ok hpending]
    simp only [List.nil_append, after_nil]
    rw [Script.run_get_bind, Script.run_bind_ok hread]
    simp only [List.nil_append, after_nil, Script.run_write_bind]
    obtain ⟨ws', hws'⟩ := Script.bind_writes (replay clock.replay ([] : List (AttemptEntry ν)))
      (fun r => (pure ⟨r.archived, 0, [] ++ r.events, false⟩ : AttemptScript ResetDone))
      (Writes.write files journal)
    rw [hws] at hws'
    exact congrArg (fun ws => (journal :: ws).take 2) hws'
  generalize hfiles : after files [journal, .renameArchive clock.replay.quarantinedAt] = files'
  have hstep : files'.ledger = files.ledger ∧ files'.archive = none := by
    rw [← hfiles]
    simp [Writes.write, AttemptWrite.apply, ha, journal]
  have hlines : verifyingLines ν files' = [] := by
    rw [verifyingLines, archiveText, hstep.2]
    rfl
  rw [hcut, hfiles, known_iff (hl.congr hstep.1), archivedIds, hlines]
  simp

/-- The archive with a line before those that verify. -/
def damagedBy (ν : Type) [JsNumber ν] (line : JsString) (files : AttemptFiles) : Bytes :=
  utf8Encode (unlines (line :: verifyingLines ν files))

/-- A complete line that is not JSON comes before the archived one, and the next reset is cut off
after it has set the archive aside. -/
def lostAside (files : AttemptFiles) : List (AttemptEvent Int) :=
  [.damage (damagedBy Int (js "x") files),
    .crash (.reset ⟨markedClock, js "2026-07-02T00:00:00.000Z", markedClock⟩ true) 2]

theorem archivedOnce_bounded : Along AttemptEvent.Bounded noFiles archivedOnce := ⟨trivial, trivial, trivial⟩

/-- A line before those that verify is read as it stands. -/
theorem completeLines_damaged {files : AttemptFiles} {line : JsString} (hw : wellFormed line = true)
    (hbreak : 10 ∉ line) :
    completeLines (utf8Decode (utf8Encode (unlines (line :: verifyingLines ν files)))) =
      line :: verifyingLines ν files := by
  have hsub : ∀ l ∈ verifyingLines ν files, l ∈ completeLines (archiveText files) :=
    fun l hl => (List.mem_filter.mp hl).1
  have hwhole : ∀ l ∈ line :: verifyingLines ν files, wellFormed l = true ∧ 10 ∉ l := by
    rw [List.forall_mem_cons]
    refine ⟨⟨hw, hbreak⟩, ?_⟩
    intro l hl
    have hmem := List.dropLast_subset _ (hsub l hl)
    exact ⟨wellFormed_splitLines (wellFormed_utf8Decode _) l hmem, not_mem_completeLines (hsub l hl)⟩
  rw [utf8Decode_encode_of_wellFormed _ (wellFormed_unlines fun l hl => (hwhole l hl).1)]
  exact completeLines_unlines fun l hl => (hwhole l hl).2

/-- With a line before them that does not verify the archive's lines are those it had, and a reset
that is cut off then leaves nothing known. -/
theorem damaged_forgets {files : AttemptFiles} (hl : LedgerHolds ν files []) (hj : files.journal = none)
    {line : JsString} (hw : wellFormed line = true) (hbreak : 10 ∉ line) (hbad : recordOf ν line = none)
    (clock : ResetClock) (id : JsString) :
    let damaged : AttemptFiles := { files with archive := some (damagedBy ν line files) }
    verifyingLines ν damaged = verifyingLines ν files ∧
      ¬Known ν (after damaged ((resetAttempts ν clock true damaged).1.take 2)) id := by
  intro damaged
  have hlines : completeLines (utf8Decode (damagedBy ν line files)) = line :: verifyingLines ν files :=
    completeLines_damaged hw hbreak
  constructor
  · have htext : archiveText damaged = utf8Decode (damagedBy ν line files) := rfl
    rw [verifyingLines, htext, hlines, List.filter_cons_of_neg (by rw [hbad]; simp), List.filter_eq_self]
    intro l hm
    exact (List.mem_filter.mp hm).2
  · have hmem : line ∈ completeLines (utf8Decode (damagedBy ν line files)) := by
      rw [hlines]
      exact List.mem_cons_self
    have hl' : LedgerHolds ν damaged [] := hl.congr rfl
    have hj' : damaged.journal = none := hj
    exact reset_cut_forgets hl' hj' rfl hmem hbad clock id

theorem attemptsRun_cons (files : AttemptFiles) (e : AttemptEvent ν) (events : List (AttemptEvent ν)) :
    attemptsRun files (e :: events) = attemptsRun (e.next files) events := rfl

theorem attemptsRun_nil (files : AttemptFiles) : attemptsRun files ([] : List (AttemptEvent ν)) = files := rfl

theorem archivedOnce_spec :
    LedgerHolds Int (attemptsRun noFiles archivedOnce) [] ∧
      (attemptsRun noFiles archivedOnce).journal = none ∧
      Known Int (attemptsRun noFiles archivedOnce) (js "01J") := by
  obtain ⟨hkept, hbegun⟩ := beginAttempt_spec (ν := Int) noFiles_sound markedClock (js "01J")
    (js "2026-06-30T00:00:00.000Z") (js "shaping")
  obtain ⟨hlater, hreset⟩ := resetAttempts_spec (ν := Int) hkept.2.sound
    ⟨markedClock, js "2026-07-01T00:00:00.000Z", markedClock⟩ true
  obtain ⟨-, hempty, hjournal⟩ := hreset rfl
  have hknown := hbegun (beginAttempt_ok noFiles_sound _ _ _ (by decide))
  simp only [archivedOnce, attemptsRun_cons, attemptsRun_nil, AttemptEvent.next, AttemptCall.writes]
  exact ⟨hempty, hjournal, hlater.2.known _ hknown⟩

theorem lostAside_spec {files : AttemptFiles} (hl : LedgerHolds Int files []) (hj : files.journal = none)
    (id : JsString) :
    Along AttemptEvent.Bounded files (lostAside files) ∧
      ¬Known Int (attemptsRun files (lostAside files)) id := by
  have hx : recordOf Int (js "x") = none := rfl
  have hbreak : 10 ∉ js "x" := by decide
  obtain ⟨hsame, hlost⟩ := damaged_forgets hl hj (by decide) hbreak hx
    ⟨markedClock, js "2026-07-02T00:00:00.000Z", markedClock⟩ id
  exact ⟨⟨hsame, trivial, trivial⟩, hlost⟩

/-- An attempt that was archived is lost with the archive that was set aside. -/
theorem setAside_loses :
    let archived := attemptsRun noFiles archivedOnce
    Along AttemptEvent.Bounded noFiles (archivedOnce ++ lostAside archived) ∧
      Known Int archived (js "01J") ∧
      ¬Known Int (attemptsRun noFiles (archivedOnce ++ lostAside archived)) (js "01J") := by
  intro archived
  obtain ⟨hempty, hjournal, hknown⟩ := archivedOnce_spec
  obtain ⟨hbounded, hlost⟩ := lostAside_spec hempty hjournal (js "01J")
  have hrun : attemptsRun noFiles (archivedOnce ++ lostAside archived) =
      attemptsRun archived (lostAside archived) := List.foldl_append
  rw [hrun]
  exact ⟨along_append.mpr ⟨archivedOnce_bounded, hbounded⟩, hknown, hlost⟩

end Adlc.Autopilot
