import Adlc.Tickets.Repository

namespace Adlc.Tickets

open Adlc.Framework

variable {ν : Type} [JsNumber ν]

/-! ## Whether a repository uses rails -/

/-- Only a ticket without `rails`, or with an empty array there, is known to declare none. -/
def ticketDeclaresRails (item : Json ν) : Bool :=
  match item with
  | .obj ms =>
    match ms.lookup (js "rails") with
    | none => false
    | some (.arr rails) => !rails.isEmpty
    | some _ => true
  | _ => true

def storeDeclaresRails (tickets : Option (Json ν)) : Bool :=
  match tickets with
  | some (.arr items) => items.any ticketDeclaresRails
  | _ => true

/-- The archive's marker names a format. -/
def isArchiveMarker (ν : Type) [JsNumber ν] (bytes : Bytes) : Bool :=
  match parseJson (ν := ν) (utf8Decode bytes) with
  | some marker => (str? marker (js "format")).isSome
  | none => false

/-- What is no ticket may hide a rail. -/
def archivedDeclaresRails (ν : Type) [JsNumber ν] (bytes : Bytes) : Bool :=
  match parseJson (ν := ν) (utf8Decode bytes) with
  | none => true
  | some parsed => (id? parsed).isNone || storeDeclaresRails (some (.arr [parsed]))

def archiveDirectoryDeclaresRails (ν : Type) [JsNumber ν] (dir : Dir) : Bool :=
  (dir.entries.any fun entry =>
    if entry.1 = storeMarker then !isArchiveMarker ν entry.2
    else archivedDeclaresRails ν entry.2) ||
  (dir.lookup storeMarker).isNone

def legacyArchiveDeclaresRails (ν : Type) [JsNumber ν] (bytes : Bytes) : Bool :=
  match parseJson (ν := ν) (utf8Decode bytes) with
  | none => true
  | some parsed => storeDeclaresRails (parsed.get? (js "tickets"))

def archiveDeclaresRails (ν : Type) [JsNumber ν] (repo : Repo) : Bool :=
  (match repo.dirs .archive with
    | none => false
    | some dir => archiveDirectoryDeclaresRails ν dir) ||
  (match repo.file legacyArchivePlace with
    | none => false
    | some bytes => legacyArchiveDeclaresRails ν bytes)

/-- `text.includes('"bypass"') || text.includes('rails-bypass')` -/
def namesBypass (text : JsString) : Bool :=
  decide (js "\"bypass\"" <:+: text) || decide (js "rails-bypass" <:+: text)

def lineRecordsBypass (ν : Type) [JsNumber ν] (line : JsString) : Bool :=
  namesBypass line &&
    match parseJson (ν := ν) line with
    | none => true
    | some entry =>
      eqTrue ((entry.get? (js "data")).bind fun data => data.get? (js "bypass")) ||
        eqStr (entry.get? (js "gate")) (js "rails-bypass")

def fileRecordsBypass (ν : Type) [JsNumber ν] (bytes : Bytes) : Bool :=
  let text := utf8Decode bytes
  namesBypass text && (splitLines text).any (lineRecordsBypass ν)

def manifestRecordsBypass (ν : Type) [JsNumber ν] (files : ManifestFiles) : Bool :=
  files.root.any (fileRecordsBypass ν) ||
  files.segments.any fun dir => dir.entries.any fun entry =>
    decide (js ".jsonl" <:+ entry.1) && fileRecordsBypass ν entry.2

/-- Rails are declared by a ticket, active or archived, or an override was recorded. -/
def repoDeclaresRails (repo : Repo) (tickets : List (Json ν)) : Bool :=
  storeDeclaresRails (some (.arr tickets)) || archiveDeclaresRails ν repo ||
    manifestRecordsBypass ν repo.manifest

/-! ## What a write to a trust root needs -/

def assertWriteIsSignable (keyParam : Option JsString) (allowUnsigned : Bool) :
    Except TicketStoreError Unit := do
  let resolved ← validateKeyParam keyParam
  if resolved ≠ none ∨ allowUnsigned = true then .ok ()
  else .error (policy "MANIFEST_KEY_REQUIRED" (js "this ticket store is a frozen trust root (a ticket declares rails), so mutating it is an audited override — and ADLC_MANIFEST_KEY is not set, so the audit entry would be written UNSIGNED, proving nothing about who made the change. Refusing before the write: nothing has changed.\n  Set ADLC_MANIFEST_KEY and re-run. It is commonly kept in the MAIN checkout's gitignored .env.local, which is ABSENT from a git worktree — from a worktree, export it explicitly.\n  To record an UNSIGNED audit entry on purpose, pass --allow-unsigned."))

/-- Whether the store is a trust root, so that the write must be recorded. -/
def assertSignableTrustRootWrite (repo : Repo) (tickets : List (Json ν)) (key : Option JsString)
    (allowUnsigned : Bool) : Except TicketStoreError Bool :=
  if repoDeclaresRails repo tickets then (assertWriteIsSignable key allowUnsigned).map fun _ => true
  else .ok false

theorem assertWriteIsSignable_key {key : JsString} (hk : key ≠ []) (allowUnsigned : Bool) :
    assertWriteIsSignable (some key) allowUnsigned = .ok () := by
  have h : some key ≠ some [] := fun e => hk (Option.some.inj e)
  simp [assertWriteIsSignable, validateKeyParam, h, bind, Except.bind]

theorem assertWriteIsSignable_none :
    ∃ e, assertWriteIsSignable none false = .error e ∧ e.code = js "MANIFEST_KEY_REQUIRED" :=
  ⟨_, rfl, rfl⟩

end Adlc.Tickets
