import Adlc.Framework.Disk
import Adlc.Framework.Interleaving
import Adlc.Framework.IntNumber
import Adlc.Tickets.ManifestPrimitives

namespace Adlc.Fleet

open Adlc.Framework Adlc.Tickets

variable {ν : Type} [JsNumber ν]

/-! ## The lock's directory and its owner -/

/-- `fleet.lock`, and the quarantine names `fleet.lock.stale-…`. -/
inductive LockName where
  | lock
  | stale (suffix : JsString)
  deriving DecidableEq

def ownerFile : JsString := js "owner.json"

/-- An orchestrator: its owner metadata, and the host its probes answer for. -/
structure Process (ν : Type) where
  pid : ν
  host : JsString
  runId : JsString
  startedAt : JsString
  procStartTime : Option JsString
  probesHost : JsString

def Process.owner (self : Process ν) : Json ν :=
  .obj [(js "pid", .num self.pid), (js "host", .str self.host), (js "runId", .str self.runId),
    (js "startedAt", .str self.startedAt),
    (js "procStartTime", (self.procStartTime.map Json.str).getD .null)]

def Process.record (self : Process ν) : Bytes := utf8Encode (stringify2 self.owner ++ [10])

def Process.quarantine (self : Process ν) : LockName :=
  .stale (JsNumber.text self.pid ++ js "-" ++ self.procStartTime.getD (js "x"))

/-- What an owner file that cannot be read is taken for. -/
def corruptOwner : Json ν :=
  .obj [(js "pid", .null), (js "host", .null), (js "corrupt", .bool true)]

/-- `JSON.parse(readFileSync(p, 'utf8'))` of the owner file under a name -/
def readOwnerIn (disk : Disk LockName) (name : LockName) : Json ν :=
  ((disk.readFile name ownerFile).bind fun bytes => parseJson (utf8Decode bytes)).getD corruptOwner

/-- What the probes say of the processes of a host. -/
structure Probes (ν : Type) where
  pidAlive : ν → Bool
  procStartTimeOf : ν → Option JsString

def truthyField (owner : Json ν) (key : JsString) : Bool := (owner.get? key).any truthy

def isLockLive (host : JsString) (probes : Probes ν) (owner : Json ν) : Bool :=
  if !truthy owner || truthyField owner (js "corrupt") then false
  else if !eqStr (owner.get? (js "host")) host then false
  else
    match owner.get? (js "pid") with
    | some (.num pid) =>
      if !probes.pidAlive pid then false
      else
        match probes.procStartTimeOf pid with
        | some liveStart =>
          !(truthyField owner (js "procStartTime") && decide (liveStart ≠ []) &&
            !eqStr (owner.get? (js "procStartTime")) liveStart)
        | none => true
    | _ => false

/-- `a != null && b != null && JSON.stringify(a) === JSON.stringify(b)` -/
def sameOwner (a b : Json ν) : Bool :=
  match a, b with
  | .null, _ => false
  | _, .null => false
  | _, _ => decide (stringify a = stringify b)

/-! ## Acquiring and releasing -/

/-- Where a process stands, before the call to the file system that is named. -/
inductive LockPoint (ν : Type) where
  /-- `existsSync`, then `readFileSync`, of the owner file of the lock -/
  | looking
  | reading
  | judging (existing : Json ν)
  /-- `renameSync` of the lock to the quarantine name -/
  | moving (existing : Json ν)
  | lookingAtMoved (existing : Json ν)
  | readingMoved (existing : Json ν)
  /-- `renameSync` of the quarantine name to the lock -/
  | puttingBack (took : Json ν)
  /-- `rmSync` of the quarantine name -/
  | removing
  | making
  /-- `writeFileSync` of the owner file: its opening, and what is not yet written -/
  | opening (dir : Nat)
  | writing (dir fd : Nat) (rest : Bytes)
  /-- `{ acquired: true, refused: false, owner: self }` -/
  | acquired (dir : Nat)
  /-- `readLockOwner(dir)` for the refusal -/
  | lookingAtHolder
  | readingHolder
  /-- `{ acquired: false, refused: true, owner }` -/
  | refused (owner : Json ν)
  /-- `releaseLock(dir)`, with the directory the process has made -/
  | releasing (dir : Option Nat)
  | released
  | threw
  | crashed

/-- What the world decides about a step. -/
inductive Answer (ν : Type) where
  | works
  /-- The call fails, in another way than the code expects. -/
  | fails
  | wrote (bytes : Nat)
  | probes (answers : Probes ν)
  /-- The process calls `releaseLock`. -/
  | release
  | crash

/-- `return { acquired: false, refused: true, owner: took ?? readLockOwner(dir) }` -/
def refuse (took : Json ν) : LockPoint ν :=
  match took with
  | .null => .lookingAtHolder
  | _ => .refused took

def fleetLock {ι : Type} (process : ι → Process ν) :
    Machine ι (Disk LockName) (LockPoint ν) (Answer ν) := fun p answer disk point =>
  let self := process p
  match point, answer with
  | .threw, _ => none
  | .released, _ => none
  | .crashed, _ => none
  | _, .crash => some (disk, .crashed)
  | .looking, .works =>
    some (disk, if (disk.fileAt .lock ownerFile).isSome then .reading else .making)
  | .looking, .fails => some (disk, .making)
  | .reading, .works =>
    let existing := readOwnerIn disk .lock
    some (disk, if truthy existing then .judging existing else .making)
  | .reading, .fails => some (disk, .judging corruptOwner)
  | .judging existing, .probes answers =>
    some (disk, if isLockLive self.probesHost answers existing then .refused existing
      else .moving existing)
  | .moving existing, .works =>
    match disk.rename .lock self.quarantine with
    | .ok moved => some (moved, .lookingAtMoved existing)
    -- Someone else won the reclaim rename.
    | .error .enoent => some (disk, .making)
    | .error _ => some (disk, .threw)
  | .lookingAtMoved existing, .works =>
    some (disk, if (disk.fileAt self.quarantine ownerFile).isSome then .readingMoved existing
      else .puttingBack .null)
  | .lookingAtMoved _, .fails => some (disk, .puttingBack .null)
  | .readingMoved existing, .works =>
    let took := readOwnerIn disk self.quarantine
    some (disk, if sameOwner took existing then .removing else .puttingBack took)
  | .readingMoved existing, .fails =>
    some (disk, if sameOwner corruptOwner existing then .removing else .puttingBack corruptOwner)
  | .puttingBack took, .works =>
    match disk.rename self.quarantine .lock with
    | .ok restored => some (restored, refuse took)
    -- A newer lock appeared meanwhile; the old one is left aside.
    | .error _ => some (disk, refuse took)
  | .puttingBack took, .fails => some (disk, refuse took)
  | .removing, .works =>
    match disk.removeStep self.quarantine with
    | (removed, true) => some (removed, .making)
    | (removed, false) => some (removed, .removing)
  | .making, .works =>
    match disk.mkdir .lock with
    | .ok made => some (made, .opening disk.next)
    | .error _ => some (disk, .lookingAtHolder)
  | .opening dir, .works =>
    match disk.openFile .lock ownerFile with
    | .ok (opened, fd) => some (opened, .writing dir fd self.record)
    | .error _ => some (disk, .threw)
  | .writing dir _ [], .works => some (disk, .acquired dir)
  | .writing dir fd (b :: rest), .wrote n =>
    some (disk.append fd ((b :: rest).take n), .writing dir fd ((b :: rest).drop n))
  | .lookingAtHolder, .works =>
    some (disk, if (disk.fileAt .lock ownerFile).isSome then .readingHolder else .refused .null)
  | .lookingAtHolder, .fails => some (disk, .refused .null)
  | .readingHolder, .works => some (disk, .refused (readOwnerIn disk .lock))
  | .readingHolder, .fails => some (disk, .refused corruptOwner)
  | .acquired dir, .release => some (disk, .releasing (some dir))
  | .refused _, .release => some (disk, .releasing none)
  | .releasing dir, .works =>
    match disk.removeStep .lock with
    | (removed, true) => some (removed, .released)
    | (removed, false) => some (removed, .releasing dir)
  | .acquired _, _ => none
  | .refused _, _ => none
  | _, .fails => some (disk, .threw)
  | _, _ => none

/-- A process that threw takes no further step. -/
theorem fleetLock_threw : type_of% @fleetLock.eq_1 := @fleetLock.eq_1

/-- The directory a process has made and not yet let go. -/
def LockPoint.holds : LockPoint ν → Option Nat
  | .opening dir | .writing dir _ _ | .acquired dir => some dir
  | .releasing dir => dir
  | _ => none

/-- The process has been told that it holds the lock. -/
def LockPoint.believes : LockPoint ν → Bool
  | .acquired _ => true
  | _ => false

/-- A process that did not make the lock's directory takes it away or replaces it. -/
def displaces (self : Process ν) (disk : Disk LockName) : LockPoint ν → Answer ν → Bool
  | .moving _, .works => (disk.rename .lock self.quarantine).isOk
  | .puttingBack _, .works => (disk.rename self.quarantine .lock).isOk
  | .releasing none, .works => (disk.removeStep .lock).2
  | _, _ => false

variable {ι : Type} {process : ι → Process ν}

/-- A process that takes the lock's directory away or replaces it does not do so to a live
process's. -/
def DisplacesNoLive (process : ι → Process ν) (c : Config ι (Disk LockName) (LockPoint ν)) (p : ι)
    (answer : Answer ν) : Prop :=
  displaces (process p) c.shared (c.loc p) answer = true →
    Unclaimed (c.shared.inoAt .lock) (c.claims LockPoint.holds)

/-! ## What a step does to the lock -/

theorem quarantine_ne_lock (self : Process ν) : self.quarantine ≠ .lock := by
  intro h
  cases h

omit [JsNumber ν] in
theorem refuse_holds (took : Json ν) : (refuse took).holds = none := by
  cases took <;> rfl

theorem moving_slotStep {unclaimed : Prop} {p : ι} {answer : Answer ν} {disk : Disk LockName}
    {existing : Json ν} {r : Disk LockName × LockPoint ν}
    (hdead : displaces (process p) disk (.moving existing) answer = true → unclaimed)
    (h : fleetLock process p answer disk (.moving existing) = some r) :
    SlotStep unclaimed (disk.inoAt .lock) none (r.1.inoAt .lock) r.2.holds := by
  cases answer <;> simp only [fleetLock, Option.some.injEq, reduceCtorEq] at h
  case works =>
    split at h
    · next moved hmoved =>
      cases h
      apply SlotStep.evict
      apply hdead
      rw [displaces, hmoved]
      rfl
    · cases h
      exact .drop
    · cases h
      exact .drop
  all_goals
    subst h
    exact .drop

theorem puttingBack_slotStep {unclaimed : Prop} {p : ι} {answer : Answer ν} {disk : Disk LockName}
    {took : Json ν} {r : Disk LockName × LockPoint ν}
    (hdead : displaces (process p) disk (.puttingBack took) answer = true → unclaimed)
    (h : fleetLock process p answer disk (.puttingBack took) = some r) :
    SlotStep unclaimed (disk.inoAt .lock) none (r.1.inoAt .lock) r.2.holds := by
  cases answer <;> simp only [fleetLock, Option.some.injEq, reduceCtorEq] at h
  case works =>
    split at h
    · next restored hrestored =>
      cases h
      rw [refuse_holds]
      apply SlotStep.evict
      apply hdead
      rw [displaces, hrestored]
      rfl
    · cases h
      exact .idle rfl (refuse_holds took)
  case fails =>
    subst h
    exact .idle rfl (refuse_holds took)
  case crash =>
    subst h
    exact .drop

theorem removing_slotStep {unclaimed : Prop} {p : ι} {answer : Answer ν} {disk : Disk LockName}
    {r : Disk LockName × LockPoint ν}
    (h : fleetLock process p answer disk .removing = some r) :
    SlotStep unclaimed (disk.inoAt .lock) none (r.1.inoAt .lock) r.2.holds := by
  cases answer <;> simp only [fleetLock, Option.some.injEq, reduceCtorEq] at h
  case works =>
    have hother := Disk.removeStep_other disk (quarantine_ne_lock (process p)).symm
    split at h
    all_goals
      next hremoved =>
        cases h
        rw [hremoved] at hother
        rw [Disk.inoAt_congr hother]
        exact .drop
  all_goals
    subst h
    exact .drop

theorem making_slotStep {unclaimed : Prop} {p : ι} {answer : Answer ν} {disk : Disk LockName}
    {r : Disk LockName × LockPoint ν}
    (h : fleetLock process p answer disk .making = some r) :
    SlotStep unclaimed (disk.inoAt .lock) none (r.1.inoAt .lock) r.2.holds := by
  cases answer <;> simp only [fleetLock, Option.some.injEq, reduceCtorEq] at h
  case works =>
    split at h
    · next made hmade =>
      cases h
      obtain ⟨hfree, hnew, -⟩ := Disk.mkdir_ok hmade
      have hino : made.inoAt .lock = some disk.next := by rw [Disk.inoAt, hnew]; rfl
      rw [hino]
      apply SlotStep.take
      rw [Disk.inoAt, hfree]
      rfl
    · cases h
      exact .drop
  all_goals
    subst h
    exact .drop

theorem opening_slotStep {unclaimed : Prop} {p : ι} {answer : Answer ν} {disk : Disk LockName}
    {dir : Nat} {r : Disk LockName × LockPoint ν}
    (h : fleetLock process p answer disk (.opening dir) = some r) :
    SlotStep unclaimed (disk.inoAt .lock) (some dir) (r.1.inoAt .lock) r.2.holds := by
  cases answer <;> simp only [fleetLock, Option.some.injEq, reduceCtorEq] at h
  case works =>
    split at h
    · next opened fd hopened =>
      cases h
      obtain ⟨folder, folder', hbefore, hafter, hino, -, -⟩ := Disk.openFile_ok hopened
      have hsame : opened.inoAt .lock = disk.inoAt .lock := by
        rw [Disk.inoAt, Disk.inoAt, hbefore, hafter, Option.map_some, Option.map_some, hino]
      rw [hsame]
      exact .keep
    · cases h
      exact .drop
  all_goals
    subst h
    exact .drop

theorem releasing_slotStep {unclaimed : Prop} {p : ι} {answer : Answer ν} {disk : Disk LockName}
    {dir : Option Nat} {r : Disk LockName × LockPoint ν}
    (hdead : displaces (process p) disk (.releasing dir) answer = true → unclaimed)
    (h : fleetLock process p answer disk (.releasing dir) = some r) :
    SlotStep unclaimed (disk.inoAt .lock) dir (r.1.inoAt .lock) r.2.holds := by
  cases answer <;> simp only [fleetLock, Option.some.injEq, reduceCtorEq] at h
  case works =>
    split at h
    · next removed hremoved =>
      cases h
      cases dir with
      | some ino => exact .clear rfl
      | none =>
        apply SlotStep.evict
        apply hdead
        rw [displaces, hremoved]
    · next removed hremoved =>
      cases h
      have hsame := @Disk.removeStep_inoAt _ _ disk .lock (by rw [hremoved])
      rw [hremoved] at hsame
      rw [hsame]
      exact .keep
  all_goals
    subst h
    exact .drop

/-- Every step leaves the lock's directory alone, or makes it, or removes it for the process that
made it, or displaces it. -/
theorem fleetLock_slotStep {unclaimed : Prop} {p : ι} {answer : Answer ν} {disk : Disk LockName}
    {point : LockPoint ν} {r : Disk LockName × LockPoint ν}
    (hdead : displaces (process p) disk point answer = true → unclaimed)
    (h : fleetLock process p answer disk point = some r) :
    SlotStep unclaimed (disk.inoAt .lock) point.holds (r.1.inoAt .lock) r.2.holds := by
  cases point with
  | moving existing => exact moving_slotStep hdead h
  | puttingBack took => exact puttingBack_slotStep hdead h
  | removing => exact removing_slotStep h
  | making => exact making_slotStep h
  | opening dir => exact opening_slotStep h
  | releasing dir => exact releasing_slotStep hdead h
  | writing dir fd rest =>
    cases rest with
    | nil =>
      cases answer <;> cases h
      · exact .keep
      all_goals exact .drop
    | cons b rest =>
      cases answer <;> cases h
      · exact .drop
      · exact .keep
      · exact .drop
  | acquired dir =>
    cases answer <;> cases h
    · exact .keep
    · exact .drop
  | looking | reading | judging | lookingAtMoved | readingMoved | lookingAtHolder =>
    cases answer <;> simp only [fleetLock, Option.some.injEq, reduceCtorEq] at h
    all_goals
      subst h
      apply SlotStep.idle rfl
      first
      | rfl
      | (split_ifs <;> rfl)
  | readingHolder | refused =>
    cases answer <;> cases h <;> exact .drop
  | threw =>
    rw [fleetLock_threw] at h
    cases h
  | released | crashed => cases h

/-! ## Mutual exclusion -/

variable [DecidableEq ι]

/-- Every process is about to acquire the lock; directories may be left from before. -/
def beforeAcquire (disk : Disk LockName) : Config ι (Disk LockName) (LockPoint ν) :=
  ⟨disk, fun _ => .looking⟩

theorem exclusive_of_runs {disk : Disk LockName} {c : Config ι (Disk LockName) (LockPoint ν)}
    (h : Runs (fleetLock process) (DisplacesNoLive process) (beforeAcquire disk) c) :
    Exclusive (c.shared.inoAt .lock) (c.claims LockPoint.holds) := by
  refine Runs.exclusive (fun disk => disk.inoAt .lock) LockPoint.holds ?_ h ?_
  · intro c p answer r hok hr
    exact fleetLock_slotStep hok hr
  · exact exclusive_of_idle fun _ => rfl

omit [JsNumber ν] in
theorem LockPoint.holds_of_believes {point : LockPoint ν} (h : point.believes = true) :
    ∃ dir, point.holds = some dir := by
  cases point <;> cases h
  exact ⟨_, rfl⟩

/-- At most one process believes it holds the lock, in every run in which no live process's
directory is displaced. -/
theorem fleetLock_exclusive (process : ι → Process ν) (disk : Disk LockName)
    {c : Config ι (Disk LockName) (LockPoint ν)}
    (h : Runs (fleetLock process) (DisplacesNoLive process) (beforeAcquire disk) c) :
    ∀ p q, (c.loc p).believes = true → (c.loc q).believes = true → p = q := by
  intro p q hp hq
  obtain ⟨dir, hdir⟩ := LockPoint.holds_of_believes hp
  obtain ⟨dir', hdir'⟩ := LockPoint.holds_of_believes hq
  exact (exclusive_of_runs h).one hdir hdir'

/-! ## Two processes -/

def twoProcesses (p : Fin 2) : Process Int where
  pid := 100 + p
  host := js "host"
  runId := natText p
  startedAt := js "t"
  procStartTime := some (natText p)
  probesHost := js "host"

def noDirectory : Disk LockName := ⟨fun _ => none, fun _ => [], 0⟩

/-- Process 0 is dead, process 1 is not. -/
def firstDead : Probes Int := ⟨fun pid => pid == 101, fun pid => some (natText (pid - 100).toNat)⟩

instance (c : Config (Fin 2) (Disk LockName) (LockPoint Int)) (p : Fin 2) (answer : Answer Int) :
    Decidable (DisplacesNoLive twoProcesses c p answer) :=
  inferInstanceAs (Decidable (_ → _))

/-- Process 0 dies with the lock; process 1 reclaims it. -/
def reclaimsDead : List (Fin 2 × Answer Int) :=
  [(0, .works), (0, .works), (0, .works), (0, .wrote 1000), (0, .works), (0, .crash),
    (1, .works), (1, .works), (1, .probes firstDead), (1, .works), (1, .works), (1, .works),
    (1, .works), (1, .works), (1, .works), (1, .works), (1, .wrote 1000), (1, .works)]

theorem fleetLock_exclusive_reclaim :
    ∃ c, Runs (fleetLock twoProcesses) (DisplacesNoLive twoProcesses) (beforeAcquire noDirectory) c ∧
      (c.loc 1).believes = true ∧
      ∀ p q, (c.loc p).believes = true → (c.loc q).believes = true → p = q := by
  have hplay : (Machine.play (fleetLock twoProcesses) (DisplacesNoLive twoProcesses)
      (beforeAcquire noDirectory) reclaimsDead).any (fun c => (c.loc 1).believes) = true := by
    decide +kernel
  obtain ⟨c, hruns, hc⟩ := Machine.exists_run_of_play hplay
  exact ⟨c, hruns, hc, fleetLock_exclusive twoProcesses noDirectory hruns⟩

/-- Both processes are alive. -/
def bothAlive : Probes Int := ⟨fun _ => true, fun pid => some (natText (pid - 100).toNat)⟩

/-- Process 0 has opened its owner file and written nothing yet; process 1 takes it for corrupt. -/
def reclaimsHalfWritten : List (Fin 2 × Answer Int) :=
  [(0, .works), (0, .works), (0, .works),
    (1, .works), (1, .works), (1, .probes bothAlive), (1, .works), (1, .works), (1, .works),
    (1, .works), (1, .works), (1, .works), (1, .works), (1, .wrote 1000), (1, .works),
    (0, .wrote 1000), (0, .works)]

theorem two_orchestrators_believe :
    ¬∀ c, Runs (fleetLock twoProcesses) (fun _ _ _ => True) (beforeAcquire noDirectory) c →
      ∀ p q, (c.loc p).believes = true → (c.loc q).believes = true → p = q := by
  intro hall
  have hplay : (Machine.play (fleetLock twoProcesses) (fun _ _ _ => True)
      (beforeAcquire noDirectory) reclaimsHalfWritten).any
      (fun c => (c.loc 0).believes && (c.loc 1).believes) = true := by decide +kernel
  obtain ⟨c, hruns, hc⟩ := Machine.exists_run_of_play hplay
  rw [Bool.and_eq_true] at hc
  have h01 := hall c hruns 0 1 hc.1 hc.2
  cases h01

end Adlc.Fleet
