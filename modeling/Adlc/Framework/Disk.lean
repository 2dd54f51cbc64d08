import Mathlib.Logic.Function.Basic
import Adlc.Framework.Text

namespace Adlc.Framework

/-! One directory that holds directories of files, as the calls of a file system see it. -/

/-- A directory of files: its inode, and the inode of each file. -/
structure Folder where
  ino : Nat
  files : List (JsString × Nat)
  deriving DecidableEq

/-- What stands under each name, and the content of every file; a file that is removed can still be
written by the process that opened it. -/
structure Disk (η : Type) where
  folders : η → Option Folder
  content : Nat → Bytes
  next : Nat

/-- Why a call fails. -/
inductive Errno where
  | enoent | eexist | enotempty
  deriving DecidableEq

variable {η : Type} [DecidableEq η]

namespace Disk

def put (disk : Disk η) (name : η) (folder : Option Folder) : Disk η :=
  { disk with folders := Function.update disk.folders name folder }

/-- The inode of the directory under a name. -/
def inoAt (disk : Disk η) (name : η) : Option Nat := (disk.folders name).map Folder.ino

/-- `mkdirSync(name)` -/
def mkdir (disk : Disk η) (name : η) : Except Errno (Disk η) :=
  match disk.folders name with
  | some _ => .error .eexist
  | none => .ok { disk.put name (some ⟨disk.next, []⟩) with next := disk.next + 1 }

/-- `renameSync(source, target)`: a directory takes the place of an empty one only. -/
def rename (disk : Disk η) (source target : η) : Except Errno (Disk η) :=
  match disk.folders source, disk.folders target with
  | none, _ => .error .enoent
  | some folder, none => .ok ((disk.put source none).put target (some folder))
  | some folder, some ⟨_, []⟩ => .ok ((disk.put source none).put target (some folder))
  | some _, some ⟨_, _ :: _⟩ => .error .enotempty

/-- The inode of a file in a directory. -/
def fileAt (disk : Disk η) (name : η) (file : JsString) : Option Nat :=
  (disk.folders name).bind fun folder => folder.files.lookup file

/-- `readFileSync` -/
def readFile (disk : Disk η) (name : η) (file : JsString) : Option Bytes :=
  (disk.fileAt name file).map disk.content

/-- The opening of a file for writing: it is made if it is missing, and emptied. -/
def openFile (disk : Disk η) (name : η) (file : JsString) : Except Errno (Disk η × Nat) :=
  match disk.folders name with
  | none => .error .enoent
  | some folder =>
    match folder.files.lookup file with
    | some fd => .ok ({ disk with content := Function.update disk.content fd [] }, fd)
    | none =>
      .ok ({ disk.put name (some { folder with files := folder.files ++ [(file, disk.next)] }) with
        content := Function.update disk.content disk.next [], next := disk.next + 1 }, disk.next)

/-- The opening of a file that must not be there yet. -/
def openNew (disk : Disk η) (name : η) (file : JsString) : Except Errno (Disk η × Nat) :=
  match disk.fileAt name file with
  | some _ => .error .eexist
  | none => disk.openFile name file

def append (disk : Disk η) (fd : Nat) (bytes : Bytes) : Disk η :=
  { disk with content := Function.update disk.content fd (disk.content fd ++ bytes) }

/-- One step of `rmSync(name, { recursive: true, force: true })`: a file, or at last the directory;
with whether that was all. -/
def removeStep (disk : Disk η) (name : η) : Disk η × Bool :=
  match disk.folders name with
  | none => (disk, true)
  | some ⟨_, []⟩ => (disk.put name none, true)
  | some ⟨ino, _ :: rest⟩ => (disk.put name (some ⟨ino, rest⟩), false)

/-- `renameSync` of a file within a directory -/
def renameFile (disk : Disk η) (name : η) (source target : JsString) : Except Errno (Disk η) :=
  match disk.folders name with
  | none => .error .enoent
  | some folder =>
    match folder.files.lookup source with
    | none => .error .enoent
    | some fd =>
      .ok (disk.put name (some { folder with
        files := (folder.files.filter fun p => p.1 != source && p.1 != target) ++ [(target, fd)] }))

/-! ## What each call leaves under a name -/

variable {disk disk' : Disk η} {name other source target : η} {file : JsString}

theorem put_self (folder : Option Folder) : (disk.put name folder).folders name = folder :=
  Function.update_self ..

theorem put_ne (folder : Option Folder) (h : other ≠ name) :
    (disk.put name folder).folders other = disk.folders other :=
  Function.update_of_ne h ..

theorem mkdir_ok (h : disk.mkdir name = .ok disk') :
    disk.folders name = none ∧ disk'.folders name = some ⟨disk.next, []⟩ ∧
      ∀ other, other ≠ name → disk'.folders other = disk.folders other := by
  unfold mkdir at h
  split at h
  · cases h
  · next hnone =>
    cases h
    exact ⟨hnone, put_self _, fun other hother => put_ne _ hother⟩

theorem rename_ok (h : disk.rename source target = .ok disk') (hne : source ≠ target) :
    ∃ folder, disk.folders source = some folder ∧
      (∀ old, disk.folders target = some old → old.files = []) ∧
      disk'.folders source = none ∧ disk'.folders target = some folder ∧
      ∀ other, other ≠ source → other ≠ target → disk'.folders other = disk.folders other := by
  have hmoved : ∀ folder, ((disk.put source none).put target (some folder)).folders source = none ∧
      ((disk.put source none).put target (some folder)).folders target = some folder ∧
      ∀ other, other ≠ source → other ≠ target →
        ((disk.put source none).put target (some folder)).folders other = disk.folders other := by
    intro folder
    refine ⟨?_, put_self _, ?_⟩
    · rw [put_ne _ hne]
      exact put_self _
    · intro other hs ht
      rw [put_ne _ ht]
      exact put_ne _ hs
  unfold rename at h
  split at h
  · cases h
  · next folder hs ht =>
    cases h
    refine ⟨folder, hs, ?_, hmoved folder⟩
    intro old ho
    rw [ht] at ho
    cases ho
  · next folder ino hs ht =>
    cases h
    refine ⟨folder, hs, ?_, hmoved folder⟩
    intro old ho
    rw [ht] at ho
    cases ho
    rfl
  · cases h

theorem rename_other (h : disk.rename source target = .ok disk') (hs : other ≠ source)
    (ht : other ≠ target) : disk'.folders other = disk.folders other := by
  have hmoved : ∀ folder, ((disk.put source none).put target (some folder)).folders other =
      disk.folders other := by
    intro folder
    rw [put_ne _ ht]
    exact put_ne _ hs
  unfold rename at h
  split at h <;> cases h <;> exact hmoved _

theorem openFile_ok {fd : Nat} (h : disk.openFile name file = .ok (disk', fd)) :
    ∃ folder folder', disk.folders name = some folder ∧ disk'.folders name = some folder' ∧
      folder'.ino = folder.ino ∧ folder'.files ≠ [] ∧
      ∀ other, other ≠ name → disk'.folders other = disk.folders other := by
  unfold openFile at h
  split at h
  · cases h
  · next folder hf =>
    split at h
    · next fd' hfd =>
      cases h
      refine ⟨folder, folder, hf, hf, rfl, ?_, fun other _ => rfl⟩
      intro hnil
      rw [hnil] at hfd
      cases hfd
    · cases h
      refine ⟨folder, _, hf, put_self _, rfl, ?_, fun other hother => put_ne _ hother⟩
      simp

/-- In an empty directory the file that is opened is the only one, and empty. -/
theorem openNew_of_empty {ino : Nat} (h : disk.folders name = some ⟨ino, []⟩) :
    ∃ disk', disk.openNew name file = .ok (disk', disk.next) ∧
      disk'.folders name = some ⟨ino, [(file, disk.next)]⟩ ∧ disk'.content disk.next = [] := by
  have hopen : disk.openNew name file =
      .ok ({ disk.put name (some ⟨ino, [(file, disk.next)]⟩) with
        content := Function.update disk.content disk.next [], next := disk.next + 1 }, disk.next) := by
    simp [openNew, fileAt, openFile, h]
  exact ⟨_, hopen, put_self _, Function.update_self ..⟩

theorem renameFile_ok {old new : JsString} (h : disk.renameFile name old new = .ok disk') :
    ∃ folder folder', disk.folders name = some folder ∧ disk'.folders name = some folder' ∧
      folder'.ino = folder.ino ∧ folder'.files ≠ [] ∧
      ∀ other, other ≠ name → disk'.folders other = disk.folders other := by
  unfold renameFile at h
  split at h
  · cases h
  · next folder hf =>
    split at h
    · cases h
    · cases h
      refine ⟨folder, _, hf, put_self _, rfl, ?_, fun other hother => put_ne _ hother⟩
      simp

theorem removeStep_other (disk : Disk η) {name other : η} (h : other ≠ name) :
    (disk.removeStep name).1.folders other = disk.folders other := by
  unfold removeStep
  split
  · rfl
  · exact put_ne _ h
  · exact put_ne _ h

theorem removeStep_done (h : (disk.removeStep name).2 = true) :
    (disk.removeStep name).1.folders name = none := by
  unfold removeStep at h ⊢
  split
  · next hnone => exact hnone
  · exact put_self _
  · next hcons => rw [hcons] at h; cases h

theorem removeStep_inoAt (disk : Disk η) {name : η} (h : (disk.removeStep name).2 = false) :
    (disk.removeStep name).1.inoAt name = disk.inoAt name := by
  unfold removeStep at h ⊢
  split
  · rfl
  · next hnil => rw [hnil] at h; cases h
  · next hcons => simp only [inoAt, put_self, hcons, Option.map_some]

omit [DecidableEq η] in
theorem inoAt_congr (h : disk'.folders name = disk.folders name) :
    disk'.inoAt name = disk.inoAt name := by
  rw [inoAt, inoAt, h]

end Disk

end Adlc.Framework
