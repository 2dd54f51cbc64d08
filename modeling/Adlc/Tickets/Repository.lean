import Adlc.Framework.Paths
import Adlc.Framework.Program
import Adlc.Tickets.ManifestPrimitives
import Mathlib.Logic.Function.Basic

namespace Adlc.Tickets

open Adlc.Framework

/-! ## Files -/

/-- The directories below `.adlc` that the package knows, and any other by its path. -/
inductive Directory where
  | adlc | tickets | archive | segments
  | transaction (id : JsString)
  | stage (id : JsString)
  | backup (id : JsString)
  | other (path : Path)
  deriving DecidableEq

/-- A file, by its directory and its name. -/
structure Place where
  dir : Directory
  name : JsString
  deriving DecidableEq

structure LockOwner where
  pid : Nat
  startedAt : JsString
  command : JsString
  transactionId : Option JsString

/-- The directory `.adlc/tickets.lock`, with its owner file. -/
inductive LockDirectory where
  | absent | ownerless
  | owned (owner : LockOwner)

/-- The files of a repository. -/
structure Repo where
  dirs : Directory → Option Dir
  lock : LockDirectory

def adlcName : JsString := js ".adlc"
def transactionsName : JsString := js "ticket-transactions"

/-- Where the directories are, below the repository's root. -/
def Directory.segmentsOf : Directory → Path
  | adlc => [adlcName]
  | tickets => [adlcName, js "tickets"]
  | archive => [adlcName, js "ticket-archive"]
  | segments => [adlcName, js "manifest.d"]
  | transaction id => [adlcName, transactionsName, id]
  | stage id => [adlcName, transactionsName, id, js "stage"]
  | backup id => [adlcName, transactionsName, id, js "backup"]
  | other path => path

/-- The directory at the path below the root. -/
def directoryBelow (path : Path) : Directory :=
  match path with
  | [a] => if a = adlcName then .adlc else .other path
  | [a, b] =>
    if a = adlcName ∧ b = js "tickets" then .tickets
    else if a = adlcName ∧ b = js "ticket-archive" then .archive
    else if a = adlcName ∧ b = js "manifest.d" then .segments
    else .other path
  | [a, b, id] => if a = adlcName ∧ b = transactionsName then .transaction id else .other path
  | [a, b, id, c] =>
    if a = adlcName ∧ b = transactionsName ∧ c = js "stage" then .stage id
    else if a = adlcName ∧ b = transactionsName ∧ c = js "backup" then .backup id
    else .other path
  | _ => .other path

/-- The file at an absolute path. -/
def locate (root path : Path) : Place :=
  ⟨if root <+: path.dropLast then directoryBelow (path.dropLast.drop root.length)
    else .other path.dropLast, path.getLast?.getD []⟩

def Place.path (root : Path) (place : Place) : Path := root ++ place.dir.segmentsOf ++ [place.name]

def Repo.file (repo : Repo) (place : Place) : Option Bytes :=
  (repo.dirs place.dir).bind fun dir => dir.lookup place.name

def Repo.setDir (repo : Repo) (d : Directory) (dir : Option Dir) : Repo :=
  { repo with dirs := Function.update repo.dirs d dir }

def Repo.put (repo : Repo) (place : Place) (bytes : Bytes) : Repo :=
  repo.setDir place.dir (some (((repo.dirs place.dir).getD ∅).insert place.name bytes))

def Repo.erase (repo : Repo) (place : Place) : Repo :=
  repo.setDir place.dir ((repo.dirs place.dir).map fun dir => dir.erase place.name)

def manifestPlace : Place := ⟨.adlc, js "manifest.jsonl"⟩
def legacyArchivePlace : Place := ⟨.adlc, js "tickets.archive.json"⟩

/-- The manifest's files. -/
def Repo.manifest (repo : Repo) : ManifestFiles := ⟨repo.file manifestPlace, repo.dirs .segments⟩

def Repo.setManifest (repo : Repo) (files : ManifestFiles) : Repo :=
  let repo := repo.setDir .segments files.segments
  match files.root with
  | none => repo.erase manifestPlace
  | some bytes => repo.put manifestPlace bytes

/-! ## What a file holds after a change -/

variable {repo : Repo} {p q : Place}

theorem dirs_setDir (repo : Repo) (d : Directory) (dir : Option Dir) :
    (repo.setDir d dir).dirs d = dir := Function.update_self _ _ _

theorem dirs_setDir_ne {d d' : Directory} (dir : Option Dir) (h : d ≠ d') :
    (repo.setDir d' dir).dirs d = repo.dirs d := Function.update_of_ne h _ _

theorem dirs_put_ne {d : Directory} (bytes : Bytes) (h : d ≠ p.dir) :
    (repo.put p bytes).dirs d = repo.dirs d := dirs_setDir_ne _ h

theorem dirs_erase_ne {d : Directory} (h : d ≠ p.dir) : (repo.erase p).dirs d = repo.dirs d :=
  dirs_setDir_ne _ h

theorem Place.name_ne (h : q ≠ p) (hd : q.dir = p.dir) : q.name ≠ p.name := by
  intro hn
  apply h
  cases p
  cases q
  simp_all

theorem file_put (repo : Repo) (p : Place) (bytes : Bytes) :
    (repo.put p bytes).file p = some bytes := by
  rw [Repo.file, Repo.put, dirs_setDir, Option.bind_some, AList.lookup_insert]

theorem file_put_ne (bytes : Bytes) (h : q ≠ p) : (repo.put p bytes).file q = repo.file q := by
  unfold Repo.file
  by_cases hd : q.dir = p.dir
  · rw [hd, Repo.put, dirs_setDir, Option.bind_some, AList.lookup_insert_ne (Place.name_ne h hd)]
    cases repo.dirs p.dir <;> simp
  · rw [dirs_put_ne bytes hd]

theorem file_erase (repo : Repo) (p : Place) : (repo.erase p).file p = none := by
  rw [Repo.file, Repo.erase, dirs_setDir]
  cases repo.dirs p.dir <;> simp

theorem file_erase_ne (h : q ≠ p) : (repo.erase p).file q = repo.file q := by
  unfold Repo.file
  by_cases hd : q.dir = p.dir
  · rw [hd, Repo.erase, dirs_setDir]
    cases repo.dirs p.dir <;> simp [AList.lookup_erase_ne (Place.name_ne h hd)]
  · rw [dirs_erase_ne hd]

theorem put_put (repo : Repo) (p : Place) (old new : Bytes) :
    (repo.put p old).put p new = repo.put p new := by
  simp [Repo.put, Repo.setDir, AList.insert_insert]

theorem dirs_put_isSome (bytes : Bytes) {d : Directory} (h : (repo.dirs d).isSome = true) :
    ((repo.put p bytes).dirs d).isSome = true := by
  by_cases hd : d = p.dir
  · simp [Repo.put, hd, dirs_setDir]
  · rw [dirs_put_ne bytes hd, h]

theorem dirs_erase_isSome (d : Directory) :
    ((repo.erase p).dirs d).isSome = (repo.dirs d).isSome := by
  by_cases hd : d = p.dir
  · simp [Repo.erase, hd, dirs_setDir]
  · rw [dirs_erase_ne hd]

theorem dirs_setManifest_ne {files : ManifestFiles} {d : Directory} (h1 : d ≠ .adlc)
    (h2 : d ≠ .segments) : (repo.setManifest files).dirs d = repo.dirs d := by
  unfold Repo.setManifest
  cases files.root with
  | none => exact (dirs_erase_ne h1).trans (dirs_setDir_ne _ h2)
  | some bytes => exact (dirs_put_ne bytes h1).trans (dirs_setDir_ne _ h2)

theorem manifest_setManifest (repo : Repo) (files : ManifestFiles) :
    (repo.setManifest files).manifest = files := by
  have hs : Directory.segments ≠ manifestPlace.dir := by decide
  unfold Repo.setManifest Repo.manifest
  cases h : files.root with
  | none =>
    simp only [file_erase, dirs_erase_ne hs, dirs_setDir]
    rw [← h]
  | some bytes =>
    simp only [file_put, dirs_put_ne bytes hs, dirs_setDir]
    rw [← h]

theorem directoryBelow_segmentsOf {d : Directory} (h : ∀ path, d ≠ .other path) :
    directoryBelow d.segmentsOf = d := by
  cases d with
  | other path => exact absurd rfl (h path)
  | adlc | tickets | archive | segments => decide
  | transaction id | stage id | backup id =>
    simp [Directory.segmentsOf, directoryBelow] <;> decide

theorem locate_path (root : Path) {place : Place} (h : ∀ path, place.dir ≠ .other path) :
    locate root (place.path root) = place := by
  have e : place.path root = (root ++ place.dir.segmentsOf) ++ [place.name] := rfl
  rw [locate, e, List.dropLast_concat, List.getLast?_concat, if_pos (List.prefix_append _ _),
    List.drop_left, directoryBelow_segmentsOf h]
  rfl

/-! ## Calls of the file system -/

/-- A program over the repository's files. -/
abbrev Script := Program TicketStoreError Repo

def noSuchFile : TicketStoreError := unexpected (js "ENOENT: no such file or directory")

def fileExists (place : Place) : Script Bool :=
  .atomic fun repo => (.ok (repo.file place).isSome, repo)

def readFile (place : Place) : Script Bytes :=
  .atomic fun repo =>
    match repo.file place with
    | some bytes => (.ok bytes, repo)
    | none => (.error noSuchFile, repo)

def writeFile (place : Place) (bytes : Bytes) : Script Unit :=
  .atomic fun repo =>
    if (repo.dirs place.dir).isSome then (.ok (), repo.put place bytes)
    else (.error noSuchFile, repo)

/-- The file is emptied, or made, before its content is written. -/
def durableWrite (place : Place) (bytes : Bytes) : Script Unit := do
  writeFile place []
  writeFile place bytes

def durableCopy (source target : Place) : Script Unit := do
  let bytes ← readFile source
  durableWrite target bytes

def durableRename (source target : Place) : Script Unit :=
  .atomic fun repo =>
    match repo.file source with
    | none => (.error noSuchFile, repo)
    | some bytes =>
      if (repo.dirs target.dir).isSome then (.ok (), (repo.erase source).put target bytes)
      else (.error noSuchFile, repo)

def durableRemove (place : Place) : Script Unit :=
  .atomic fun repo =>
    if (repo.file place).isSome then (.ok (), repo.erase place) else (.error noSuchFile, repo)

def durableMkdir (d : Directory) : Script Unit :=
  .atomic fun repo => (.ok (), repo.setDir d (some ((repo.dirs d).getD ∅)))

/-! ## The lock -/

def lockTimeout : TicketStoreError :=
  conflict "LOCK_TIMEOUT" (js "could not acquire .adlc/tickets.lock; another ticket writer is running")

def lockFailed : TicketStoreError := operational "LOCK_FAILED" (js "cannot acquire ticket lock: ")

/-- The attempts left to make the lock's directory; one without its owner's file is removed again. -/
def acquireAttempts (owner : LockOwner) : Nat → Script Unit
  | 0 => .fail lockTimeout
  | attempts + 1 => do
    let created ← .atomic fun repo =>
      match repo.lock with
      | .absent => (.ok true, { repo with lock := .ownerless })
      | _ => (.ok false, repo)
    if created then
      (Program.atomic fun repo => (.ok (), { repo with lock := .owned owner })).tryCatch fun _ => do
        .atomic fun repo => (.ok (), { repo with lock := .absent })
        .fail lockFailed
    else acquireAttempts owner attempts

/-- `acquireTicketLock`, with its 50 retries. -/
def acquireTicketLock (owner : LockOwner) : Script Unit := acquireAttempts owner 51

/-- A lock that is not demonstrably the owner's is left alone. -/
def releaseTicketLock (owner : LockOwner) : Script Unit := do
  let ours ← .atomic fun repo =>
    match repo.lock with
    | .owned found =>
      if found.pid = owner.pid ∧ found.startedAt = owner.startedAt then
        (.ok true, { repo with lock := .ownerless })
      else (.ok false, repo)
    | _ => (.ok false, repo)
  if ours then .atomic fun repo => (.ok (), { repo with lock := .absent }) else pure ()

end Adlc.Tickets
