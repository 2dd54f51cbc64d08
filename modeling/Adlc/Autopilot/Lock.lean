import Adlc.Framework.Disk
import Adlc.Framework.Interleaving
import Adlc.Framework.IntNumber
import Adlc.Tickets.ManifestPrimitives
import Adlc.Tickets.Schema

namespace Adlc.Autopilot

open Adlc.Framework Adlc.Tickets

variable {ν : Type} [JsNumber ν] {ι : Type}

/-! ## The lock's directory and its owner -/

/-- `autopilot.lock`, the quarantine and release names, which carry a token, and the staging
directory that `mkdtempSync` names for one process alone. -/
inductive LockName (ι : Type) where
  | lock
  | stale (token : JsString)
  | release (token : JsString)
  | staging (p : ι)
  deriving DecidableEq

def ownerFile : JsString := js "owner.json"
def staleAfterMs : Int := 600000

/-- One call of `acquireLock`. -/
structure Process (ν : Type) where
  pid : ν
  pidStartTime : Option JsString
  token : JsString
  dateParse : Json ν → Option Int

def Process.owner (self : Process ν) (heartbeatAt : JsString) : Json ν :=
  .obj [(js "pid", .num self.pid),
    (js "pidStartTime", (self.pidStartTime.map Json.str).getD .null),
    (js "token", .str self.token), (js "heartbeatAt", .str heartbeatAt)]

/-- What `writeAtomic` writes. -/
def record (owner : Json ν) : Bytes := utf8Encode (stringify2 owner ++ [10])

def Process.tmp (self : Process ν) (random : JsString) : JsString :=
  ownerFile ++ js ".tmp-" ++ JsNumber.text self.pid ++ js "-" ++ random

def corruptOwner : Json ν := .obj [(js "corrupt", .bool true)]

variable [DecidableEq ι]

/-- `JSON.parse(readFileSync(p, 'utf8'))` of the owner file under a name -/
def readOwner (disk : Disk (LockName ι)) (name : LockName ι) : Json ν :=
  ((disk.readFile name ownerFile).bind fun bytes => parseJson (utf8Decode bytes)).getD corruptOwner

/-- What the clock and the probes say. -/
structure Probes (ν : Type) where
  now : Int
  pidAlive : ν → Bool
  pidStartTimeOf : ν → Option JsString

/-- `value ?? null` -/
def orNull (value : Option (Json ν)) : Json ν := value.getD .null

/-- `Date.parse(owner.heartbeatAt ?? '')` -/
def Process.heartbeat (self : Process ν) (owner : Json ν) : Option Int :=
  match orNull (owner.get? (js "heartbeatAt")) with
  | .null => self.dateParse (.str [])
  | value => self.dateParse value

def isStale (self : Process ν) (probes : Probes ν) (owner : Json ν) : Bool :=
  if !truthy owner then true
  else if (owner.get? (js "corrupt")).any truthy then true
  else
    let heartbeatOld :=
      match self.heartbeat owner with
      | some heartbeat => decide (staleAfterMs < probes.now - heartbeat)
      | none => true
    if !heartbeatOld then false
    else
      match owner.get? (js "pid") with
      | some (.num pid) =>
        if !probes.pidAlive pid then true
        else
          match probes.pidStartTimeOf pid, orNull (owner.get? (js "pidStartTime")) with
          | none, _ => false
          | _, .null => false
          | some live, start => decide (live ≠ toText start)
      | _ => true

/-- `a === b`; two values that were read apart are never the same object. -/
def strictEq : Json ν → Json ν → Bool
  | .null, .null => true
  | .bool a, .bool b => a == b
  | .num a, .num b => decide (a = b)
  | .str a, .str b => decide (a = b)
  | _, _ => false

def sameLock (a b : Json ν) : Bool :=
  strictEq (orNull (a.get? (js "token"))) (orNull (b.get? (js "token")))

def Process.owns (self : Process ν) (owner : Json ν) : Bool :=
  eqStr (owner.get? (js "token")) self.token

/-- `{ ...cur, heartbeatAt }` -/
def beaten (cur : Json ν) (heartbeatAt : JsString) : Json ν :=
  match cur with
  | .obj ms => .obj (Members.set ms (js "heartbeatAt") (.str heartbeatAt))
  | v => v

/-! ## Acquiring, holding and releasing -/

/-- What a holder knows: the directory it has published, and the inode that `lstat` found. -/
structure Hold where
  dir : Nat
  ino : Option Nat

/-- Where a process stands, before the call to the file system that is named. -/
inductive LockPoint (ν : Type) where
  /-- `existsSync`, then `readFileSync`, of the owner file of the lock -/
  | looking
  | reading
  /-- `existsSync(lockDir)` -/
  | lookingAtLock (existing : Json ν)
  | judging (existing : Json ν)
  /-- `renameSync` of the lock to the quarantine name -/
  | moving (judged : Json ν)
  | lookingAtMoved (judged : Json ν)
  | readingMoved (judged : Json ν)
  /-- `renameSync` of the quarantine name to the lock -/
  | puttingBack (moved : Json ν)
  /-- `rmSync` of the quarantine name -/
  | removing
  /-- `mkdtempSync`, with the time for the owner file -/
  | staging
  /-- `writeAtomic` in the staging directory -/
  | opening (owner : Json ν)
  | writing (tmp : JsString) (fd : Nat) (rest : Bytes)
  | settling (tmp : JsString)
  /-- `renameSync` of the staging directory to the lock -/
  | publishing
  /-- `rmSync` of the staging directory, because the lock is held or for another error -/
  | discarding (heldByOther : Bool)
  | lookingAtHolder
  | readingHolder
  /-- `lstatSync(lockDir).ino` -/
  | inspecting (dir : Nat)
  /-- `{ token, lockDir, ino, heartbeat(), release() }` -/
  | holding (hold : Hold)
  /-- `heartbeat()` -/
  | beatLooking (hold : Hold)
  | beatReading (hold : Hold)
  | beatStamping (hold : Hold) (cur : Json ν)
  | beatOpening (hold : Hold) (next : Json ν)
  | beatWriting (hold : Hold) (tmp : JsString) (fd : Nat) (rest : Bytes)
  | beatRenaming (hold : Hold) (tmp : JsString)
  /-- `release()` -/
  | releaseLooking (hold : Hold)
  | releaseReading (hold : Hold)
  | releaseInspecting (hold : Hold)
  | releaseMoving (hold : Hold)
  | releaseLookingAtMoved
  | releaseReadingMoved
  | releasePuttingBack
  | releaseRemoving
  /-- `release()` has returned. -/
  | released (result : Bool)
  /-- `LockHeldError` -/
  | lockHeld (owner : Json ν)
  | threw
  | crashed

/-- What the world decides about a step. -/
inductive Answer (ν : Type) where
  | works
  /-- The call fails, in another way than the code expects. -/
  | fails
  /-- `EEXIST`, `EBUSY` or `EPERM` -/
  | busy
  | wrote (bytes : Nat)
  | probes (answers : Probes ν)
  | stamp (heartbeatAt : JsString)
  | temp (random : JsString)
  /-- The process calls `heartbeat()`. -/
  | beat
  /-- The process calls `release()`. -/
  | release
  | crash

def LockPoint.final : LockPoint ν → Bool
  | .released _ | .lockHeld _ | .threw | .crashed => true
  | _ => false

/-- The steps of `acquireLock` up to the judgment, and those of a reclaim. -/
def reclaimStep (self : Process ν) (disk : Disk (LockName ι)) :
    LockPoint ν → Answer ν → Option (Disk (LockName ι) × LockPoint ν)
  | .looking, .works =>
    some (disk, if (disk.fileAt .lock ownerFile).isSome then .reading else .lookingAtLock .null)
  | .looking, .fails => some (disk, .lookingAtLock .null)
  | .reading, .works =>
    let existing := readOwner disk .lock
    some (disk, if truthy existing then .judging existing else .lookingAtLock existing)
  | .reading, .fails => some (disk, .judging corruptOwner)
  | .lookingAtLock existing, .works =>
    some (disk, if (disk.folders .lock).isSome then .judging existing else .staging)
  | .lookingAtLock _, .fails => some (disk, .staging)
  | .judging existing, .probes answers =>
    some (disk, if isStale self answers existing then .moving existing else .lockHeld existing)
  | .moving judged, .works =>
    match disk.rename .lock (.stale self.token) with
    | .ok moved => some (moved, .lookingAtMoved judged)
    -- Another reclaimer removed it first; the publish below races fairly.
    | .error .enoent => some (disk, .staging)
    | .error _ => some (disk, .lookingAtHolder)
  | .moving _, .fails => some (disk, .lookingAtHolder)
  | .lookingAtMoved judged, .works =>
    some (disk, if (disk.fileAt (.stale self.token) ownerFile).isSome then .readingMoved judged
      else if sameLock .null judged then .removing else .puttingBack .null)
  | .lookingAtMoved judged, .fails =>
    some (disk, if sameLock .null judged then .removing else .puttingBack .null)
  | .readingMoved judged, .works =>
    let moved := readOwner disk (.stale self.token)
    some (disk, if sameLock moved judged then .removing else .puttingBack moved)
  | .readingMoved judged, .fails =>
    some (disk, if sameLock corruptOwner judged then .removing else .puttingBack corruptOwner)
  | .puttingBack moved, .works =>
    match disk.rename (.stale self.token) .lock with
    | .ok restored => some (restored, .lockHeld moved)
    -- A newer lock appeared meanwhile; the old one is left aside.
    | .error _ => some (disk, .lockHeld moved)
  | .puttingBack moved, .fails => some (disk, .lockHeld moved)
  | .removing, .works =>
    match disk.removeStep (.stale self.token) with
    | (removed, true) => some (removed, .staging)
    | (removed, false) => some (removed, .removing)
  | .removing, .fails => some (disk, .threw)
  | _, _ => none

/-- The steps of `acquireLock` that publish a new lock. -/
def publishStep (self : Process ν) (p : ι) (disk : Disk (LockName ι)) :
    LockPoint ν → Answer ν → Option (Disk (LockName ι) × LockPoint ν)
  | .staging, .stamp heartbeatAt =>
    match disk.mkdir (.staging p) with
    | .ok made => some (made, .opening (self.owner heartbeatAt))
    | .error _ => some (disk, .threw)
  | .opening owner, .temp random =>
    match disk.openFile (.staging p) (self.tmp random) with
    | .ok (opened, fd) => some (opened, .writing (self.tmp random) fd (record owner))
    | .error _ => some (disk, .threw)
  | .writing tmp _ [], .works => some (disk, .settling tmp)
  | .writing tmp fd (b :: rest), .wrote n =>
    some (disk.append fd ((b :: rest).take n), .writing tmp fd ((b :: rest).drop n))
  | .settling tmp, .works =>
    match disk.renameFile (.staging p) tmp ownerFile with
    | .ok renamed => some (renamed, .publishing)
    | .error _ => some (disk, .threw)
  | .publishing, .works =>
    match disk.inoAt (.staging p), disk.rename (.staging p) .lock with
    | some dir, .ok published => some (published, .inspecting dir)
    | _, .error .enotempty => some (disk, .discarding true)
    | _, _ => some (disk, .discarding false)
  | .publishing, .busy => some (disk, .discarding true)
  | .publishing, .fails => some (disk, .discarding false)
  | .discarding heldByOther, .works =>
    match disk.removeStep (.staging p) with
    | (removed, true) => some (removed, if heldByOther then .lookingAtHolder else .threw)
    | (removed, false) => some (removed, .discarding heldByOther)
  | .lookingAtHolder, .works =>
    some (disk, if (disk.fileAt .lock ownerFile).isSome then .readingHolder else .lockHeld .null)
  | .lookingAtHolder, .fails => some (disk, .lockHeld .null)
  | .readingHolder, .works => some (disk, .lockHeld (readOwner disk .lock))
  | .readingHolder, .fails => some (disk, .lockHeld corruptOwner)
  | .inspecting dir, .works => some (disk, .holding ⟨dir, disk.inoAt .lock⟩)
  | .inspecting dir, .fails => some (disk, .holding ⟨dir, none⟩)
  | .staging, .fails | .opening _, .fails | .writing _ _ _, .fails | .settling _, .fails
  | .discarding _, .fails => some (disk, .threw)
  | _, _ => none

/-- The steps of `heartbeat()`. -/
def beatStep (self : Process ν) (disk : Disk (LockName ι)) :
    LockPoint ν → Answer ν → Option (Disk (LockName ι) × LockPoint ν)
  | .holding hold, .beat => some (disk, .beatLooking hold)
  | .beatLooking hold, .works =>
    some (disk, if (disk.fileAt .lock ownerFile).isSome then .beatReading hold else .holding hold)
  | .beatReading hold, .works =>
    let cur := readOwner disk .lock
    some (disk, if self.owns cur then .beatStamping hold cur else .holding hold)
  | .beatStamping hold cur, .stamp heartbeatAt =>
    some (disk, .beatOpening hold (beaten cur heartbeatAt))
  | .beatOpening hold next, .temp random =>
    match disk.openFile .lock (self.tmp random) with
    | .ok (opened, fd) => some (opened, .beatWriting hold (self.tmp random) fd (record next))
    | .error _ => some (disk, .holding hold)
  | .beatWriting hold tmp _ [], .works => some (disk, .beatRenaming hold tmp)
  | .beatWriting hold tmp fd (b :: rest), .wrote n =>
    some (disk.append fd ((b :: rest).take n), .beatWriting hold tmp fd ((b :: rest).drop n))
  | .beatRenaming hold tmp, .works =>
    match disk.renameFile .lock tmp ownerFile with
    | .ok renamed => some (renamed, .holding hold)
    | .error _ => some (disk, .holding hold)
  -- `heartbeat()` returns false or throws; its caller still has the lock.
  | .beatLooking hold, .fails | .beatReading hold, .fails | .beatOpening hold _, .fails
  | .beatWriting hold _ _ _, .fails | .beatRenaming hold _, .fails => some (disk, .holding hold)
  | _, _ => none

/-- The steps of `releaseLock`. -/
def releaseStep (self : Process ν) (disk : Disk (LockName ι)) :
    LockPoint ν → Answer ν → Option (Disk (LockName ι) × LockPoint ν)
  | .holding hold, .release => some (disk, .releaseLooking hold)
  | .releaseLooking hold, .works =>
    some (disk,
      if (disk.fileAt .lock ownerFile).isSome then .releaseReading hold else .released false)
  | .releaseReading hold, .works =>
    some (disk,
      if self.owns (readOwner disk .lock) then
        if hold.ino.isSome then .releaseInspecting hold else .releaseMoving hold
      else .released false)
  | .releaseInspecting hold, .works =>
    some (disk, if disk.inoAt .lock = hold.ino then .releaseMoving hold else .released false)
  | .releaseMoving _, .works =>
    match disk.rename .lock (.release self.token) with
    | .ok moved => some (moved, .releaseLookingAtMoved)
    | .error _ => some (disk, .released false)
  | .releaseLookingAtMoved, .works =>
    some (disk, if (disk.fileAt (.release self.token) ownerFile).isSome then .releaseReadingMoved
      else .releasePuttingBack)
  | .releaseReadingMoved, .works =>
    some (disk,
      if self.owns (readOwner disk (.release self.token)) then .releaseRemoving
      else .releasePuttingBack)
  | .releaseLookingAtMoved, .fails | .releaseReadingMoved, .fails =>
    some (disk, .releasePuttingBack)
  | .releasePuttingBack, .works =>
    match disk.rename (.release self.token) .lock with
    | .ok restored => some (restored, .released false)
    -- A newer lock appeared meanwhile; the old one is left aside.
    | .error _ => some (disk, .released false)
  | .releaseRemoving, .works =>
    match disk.removeStep (.release self.token) with
    | (removed, true) => some (removed, .released true)
    | (removed, false) => some (removed, .releaseRemoving)
  | .releaseRemoving, .fails => some (disk, .threw)
  | .releaseLooking _, .fails | .releaseReading _, .fails | .releaseInspecting _, .fails
  | .releaseMoving _, .fails | .releasePuttingBack, .fails => some (disk, .released false)
  | _, _ => none

def autopilotLock (process : ι → Process ν) :
    Machine ι (Disk (LockName ι)) (LockPoint ν) (Answer ν) := fun p answer disk point =>
  match answer with
  | .crash => if point.final then none else some (disk, .crashed)
  | _ =>
    reclaimStep (process p) disk point answer <|> publishStep (process p) p disk point answer <|>
      beatStep (process p) disk point answer <|> releaseStep (process p) disk point answer

/-- The directory a process has published and not yet let go. -/
def LockPoint.holds : LockPoint ν → Option Nat
  | .inspecting dir => some dir
  | .holding hold | .beatLooking hold | .beatReading hold | .beatStamping hold _
  | .beatOpening hold _ | .beatWriting hold _ _ _ | .beatRenaming hold _
  | .releaseLooking hold | .releaseReading hold | .releaseInspecting hold
  | .releaseMoving hold => some hold.dir
  | _ => none

/-- The process has been told that it holds the lock, and has not called `release()`. -/
def LockPoint.believes : LockPoint ν → Bool
  | .holding _ | .beatLooking _ | .beatReading _ | .beatStamping _ _ | .beatOpening _ _
  | .beatWriting _ _ _ _ | .beatRenaming _ _ => true
  | _ => false

/-- The step moves a lock that was judged stale aside. -/
def movesAside (self : Process ν) (disk : Disk (LockName ι)) : LockPoint ν → Answer ν → Bool
  | .moving _, .works => (disk.rename .lock (.stale self.token)).isOk
  | _, _ => false

/-- A process that moves a lock aside to reclaim it moves no live process's. -/
def ReclaimsNoLive (process : ι → Process ν) (c : Config ι (Disk (LockName ι)) (LockPoint ν))
    (p : ι) (answer : Answer ν) : Prop :=
  movesAside (process p) c.shared (c.loc p) answer = true →
    Unclaimed (c.shared.inoAt .lock) (c.claims LockPoint.holds)

end Adlc.Autopilot
