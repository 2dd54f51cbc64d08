import Adlc.Framework.Interleaving
import Adlc.Framework.IntNumber
import Adlc.Framework.JsonText

namespace Adlc.Core

open Adlc.Framework

variable {ν : Type} [JsNumber ν]

/-! ## The lock file -/

/-- The file at `lockPath`, if there is one, and the content of every file made there: one that is
unlinked can still be written by the caller who opened it. -/
structure LockFile where
  path : Option Nat
  content : Nat → Bytes
  next : Nat

/-- `openSync(lockPath, 'wx')` where no file is in the way -/
def LockFile.create (file : LockFile) : LockFile :=
  { path := some file.next, content := Function.update file.content file.next [],
    next := file.next + 1 }

def LockFile.append (file : LockFile) (fd : Nat) (bytes : Bytes) : LockFile :=
  { file with content := Function.update file.content fd (file.content fd ++ bytes) }

def LockFile.unlink (file : LockFile) : LockFile := { file with path := none }

/-- `JSON.parse(readFileSync(lockPath, 'utf8'))`; nothing if either throws. -/
def LockFile.read (file : LockFile) : Option (Json ν) :=
  file.path.bind fun ino => parseJson (utf8Decode (file.content ino))

@[simp] theorem LockFile.create_path (file : LockFile) : file.create.path = some file.next := rfl

@[simp] theorem LockFile.append_path (file : LockFile) (fd : Nat) (bytes : Bytes) :
    (file.append fd bytes).path = file.path := rfl

@[simp] theorem LockFile.unlink_path (file : LockFile) : file.unlink.path = none := rfl

/-! ## A caller -/

/-- One call of `withLedgerLock`: its owner record, the host it runs on and its options. -/
structure Caller (ν : Type) where
  token : JsString
  pid : ν
  hostname : JsString
  startedAt : JsString
  retries : Nat
  staleMs : Int
  dateParse : JsString → Option Int

def Caller.owner (self : Caller ν) : Json ν :=
  .obj [(js "version", .num (JsNumber.ofNat 1)), (js "token", .str self.token),
    (js "pid", .num self.pid), (js "hostname", .str self.hostname),
    (js "startedAt", .str self.startedAt)]

def Caller.record (self : Caller ν) : Bytes := utf8Encode (stringify self.owner ++ [10])

def isStaleLockOwner (self : Caller ν) (current : Json ν) (isPidAlive : ν → Bool) (now : Int) :
    Bool :=
  match current with
  | .obj _ =>
    let dead :=
      match current.get? (js "pid") with
      | some (.num pid) => !isPidAlive pid
      | _ => false
    let old :=
      match current.get? (js "startedAt") with
      | some (.str startedAt) => (self.dateParse startedAt).any fun t => self.staleMs < now - t
      | _ => false
    (eqStr (current.get? (js "hostname")) self.hostname && dead) || old
  | _ => false

/-- Where a caller stands, before the call to the file system that is named. -/
inductive LockPoint (ν : Type) where
  /-- `openSync` in round `i` -/
  | opening (i : Nat)
  | readingOwner (i : Nat)
  | judging (i : Nat) (current : Json ν)
  /-- `unlinkSync` of a lock judged stale -/
  | reclaiming (i : Nat)
  /-- `writeFileSync`, with what is not yet written -/
  | writing (fd : Nat) (rest : Bytes)
  /-- `fn()` -/
  | running (fd : Nat)
  | readingOwn (fd : Nat)
  /-- `unlinkSync` of the caller's own lock -/
  | unlinking (fd : Nat)
  | ended
  | crashed

/-- What the world decides about a step. -/
inductive Answer (ν : Type) where
  | works
  /-- The call fails, in another way than the code expects. -/
  | fails
  | wrote (bytes : Nat)
  | probes (isPidAlive : ν → Bool) (now : Int)
  | crash

/-- The end of round `i`: the next one, or the error that the lock is held. -/
def Caller.retry (self : Caller ν) (i : Nat) : LockPoint ν :=
  if i < self.retries then .opening (i + 1) else .ended

def withLedgerLock {ι : Type} (caller : ι → Caller ν) :
    Machine ι LockFile (LockPoint ν) (Answer ν) := fun p answer file point =>
  let self := caller p
  match point, answer with
  | .ended, _ => none
  | .crashed, _ => none
  | _, .crash => some (file, .crashed)
  | .opening i, .works =>
    match file.path with
    | none => some (file.create, .writing file.next self.record)
    | some _ => some (file, .readingOwner i)
  | .opening _, .fails => some (file, .ended)
  | .readingOwner i, .works =>
    match (file.read : Option (Json ν)) with
    | some current => some (file, .judging i current)
    | none => some (file, self.retry i)
  | .readingOwner i, .fails => some (file, self.retry i)
  | .judging i current, .probes isPidAlive now =>
    some (file, if isStaleLockOwner self current isPidAlive now then .reclaiming i else self.retry i)
  | .reclaiming i, .works => some (file.unlink, self.retry i)
  | .reclaiming i, .fails => some (file, self.retry i)
  | .writing fd [], .works => some (file, .running fd)
  | .writing fd rest, .wrote n => some (file.append fd (rest.take n), .writing fd (rest.drop n))
  | .writing _ _, .fails => some (file, .ended)
  -- `fn` may return or throw: the `finally` clause runs in both cases.
  | .running fd, .works => some (file, .readingOwn fd)
  | .readingOwn fd, .works =>
    match (file.read : Option (Json ν)) with
    | some current =>
      some (file, if eqStr (current.get? (js "token")) self.token then .unlinking fd else .ended)
    | none => some (file, .ended)
  | .readingOwn _, .fails => some (file, .ended)
  | .unlinking _, .works => some (file.unlink, .ended)
  | .unlinking _, .fails => some (file, .ended)
  | _, _ => none

/-- The lock file a caller has made and not yet let go. -/
def LockPoint.holds : LockPoint ν → Option Nat
  | .writing fd _ | .running fd | .readingOwn fd | .unlinking fd => some fd
  | _ => none

/-- The caller executes its critical function. -/
def LockPoint.critical : LockPoint ν → Bool
  | .running _ => true
  | _ => false

/-- The step unlinks a lock that was judged stale. -/
def LockPoint.reclaims : LockPoint ν → Answer ν → Bool
  | .reclaiming _, .works => true
  | _, _ => false

/-- A caller that reclaims a lock file reclaims no live caller's. -/
def ReclaimsNoLive {ι : Type} (c : Config ι LockFile (LockPoint ν)) (p : ι) (answer : Answer ν) :
    Prop :=
  (c.loc p).reclaims answer = true → Unclaimed c.shared.path (c.claims LockPoint.holds)

variable {ι : Type} {caller : ι → Caller ν}

omit [JsNumber ν] in
@[simp] theorem Caller.retry_holds (self : Caller ν) (i : Nat) :
    (self.retry i).holds = none := by
  unfold Caller.retry
  split_ifs <;> rfl

/-- Every step of a caller leaves the lock file alone, or makes it, or unlinks its own, or reclaims
one. -/
theorem withLedgerLock_slotStep {unclaimed : Prop} {p : ι} {answer : Answer ν} {file : LockFile}
    {point : LockPoint ν} {r : LockFile × LockPoint ν}
    (hdead : point.reclaims answer = true → unclaimed)
    (h : withLedgerLock caller p answer file point = some r) :
    SlotStep unclaimed file.path point.holds r.1.path r.2.holds := by
  cases point with
  | opening i =>
    cases answer <;> simp only [withLedgerLock, Option.some.injEq, reduceCtorEq] at h
    case works =>
      cases hpath : file.path with
      | none =>
        simp only [hpath, Option.some.injEq] at h
        subst h
        exact .take rfl
      | some ino =>
        simp only [hpath, Option.some.injEq] at h
        subst h
        rw [← hpath]
        exact .keep
    all_goals
      subst h
      exact .keep
  | readingOwner i =>
    cases answer <;> simp only [withLedgerLock, Option.some.injEq, reduceCtorEq] at h
    case works =>
      split at h <;> cases h
      · exact .keep
      · rw [Caller.retry_holds]
        exact .drop
    all_goals
      subst h
      simp only [Caller.retry_holds]
      exact .drop
  | judging i current =>
    cases answer <;> simp only [withLedgerLock, Option.some.injEq, reduceCtorEq] at h
    case probes isPidAlive now =>
      subst h
      have hidle : (if isStaleLockOwner (caller p) current isPidAlive now then
          LockPoint.reclaiming i else (caller p).retry i).holds = none := by
        split_ifs
        · rfl
        · exact Caller.retry_holds ..
      rw [hidle]
      exact .drop
    case crash =>
      subst h
      exact .drop
  | reclaiming i =>
    cases answer <;> simp only [withLedgerLock, Option.some.injEq, reduceCtorEq] at h
    all_goals subst h
    case works =>
      rw [Caller.retry_holds]
      exact .evict (hdead rfl)
    case fails =>
      rw [Caller.retry_holds]
      exact .drop
    case crash => exact .drop
  | writing fd rest =>
    cases answer with
    | works =>
      cases rest with
      | nil =>
        cases h
        exact .keep
      | cons b rest => cases h
    | wrote n =>
      cases rest <;> cases h <;> exact .keep
    | fails =>
      cases rest <;> cases h <;> exact .drop
    | probes isPidAlive now => cases rest <;> cases h
    | crash =>
      cases h
      exact .drop
  | running fd =>
    cases answer <;> cases h
    · exact .keep
    · exact .drop
  | readingOwn fd =>
    cases answer <;> simp only [withLedgerLock, Option.some.injEq, reduceCtorEq] at h
    case works =>
      split at h <;> cases h
      · split_ifs
        · exact .keep
        · exact .drop
      · exact .drop
    all_goals
      subst h
      exact .drop
  | unlinking fd =>
    cases answer <;> cases h
    · exact .clear rfl
    all_goals exact .drop
  | ended => cases h
  | crashed => cases h

/-! ## Mutual exclusion -/

variable [DecidableEq ι]

/-- Nobody has called yet; a lock file may be left from before. -/
def noCaller (file : LockFile) : Config ι LockFile (LockPoint ν) := ⟨file, fun _ => .opening 0⟩

theorem exclusive_of_runs {file : LockFile} {c : Config ι LockFile (LockPoint ν)}
    (h : Runs (withLedgerLock caller) ReclaimsNoLive (noCaller file) c) :
    Exclusive c.shared.path (c.claims LockPoint.holds) := by
  refine Runs.exclusive LockFile.path LockPoint.holds ?_ h ?_
  · intro c p answer r hok hr
    exact withLedgerLock_slotStep hok hr
  · exact exclusive_of_idle fun _ => rfl

omit [JsNumber ν] in
theorem LockPoint.holds_of_critical {point : LockPoint ν} (h : point.critical = true) :
    ∃ fd, point.holds = some fd := by
  cases point <;> cases h
  exact ⟨_, rfl⟩

/-- At most one caller executes its critical function, in every run that reclaims no live lock. -/
theorem withLedgerLock_exclusive (caller : ι → Caller ν) (file : LockFile)
    {c : Config ι LockFile (LockPoint ν)}
    (h : Runs (withLedgerLock caller) ReclaimsNoLive (noCaller file) c) :
    ∀ p q, (c.loc p).critical = true → (c.loc q).critical = true → p = q := by
  intro p q hp hq
  obtain ⟨fd, hfd⟩ := LockPoint.holds_of_critical hp
  obtain ⟨fd', hfd'⟩ := LockPoint.holds_of_critical hq
  exact (exclusive_of_runs h).one hfd hfd'

/-! ## Three callers, one of which dies -/

def threeCallers (p : Fin 3) : Caller Int where
  token := natText p
  pid := 100 + p
  hostname := js "host"
  startedAt := js "2026-01-01T00:00:00.000Z"
  retries := 400
  staleMs := 60000
  dateParse _ := none

def noLockFile : LockFile := ⟨none, fun _ => [], 0⟩

/-- The steps of a caller who finds no lock file, up to its critical function. -/
def acquires (p : Fin 3) : List (Fin 3 × Answer Int) :=
  [(p, .works), (p, .wrote 1000), (p, .works)]

/-- The steps of a caller who finds the lock of caller 2, when that one is dead. -/
def judgesDead (p : Fin 3) : List (Fin 3 × Answer Int) :=
  [(p, .works), (p, .works), (p, .probes (fun pid => pid != 102) 0)]

instance (c : Config (Fin 3) LockFile (LockPoint Int)) (p : Fin 3) (answer : Answer Int) :
    Decidable (ReclaimsNoLive c p answer) :=
  inferInstanceAs (Decidable (_ → _))

/-- One caller takes over from a dead one. -/
def takeover : List (Fin 3 × Answer Int) :=
  acquires 2 ++ [(2, .crash)] ++ judgesDead 0 ++ [(0, .works)] ++ acquires 0

theorem withLedgerLock_exclusive_takeover :
    ∃ c, Runs (withLedgerLock threeCallers) ReclaimsNoLive (noCaller noLockFile) c ∧
      (c.loc 0).critical = true ∧
      ∀ p q, (c.loc p).critical = true → (c.loc q).critical = true → p = q := by
  have hplay : (Machine.play (withLedgerLock threeCallers) ReclaimsNoLive (noCaller noLockFile)
      takeover).any (fun c => (c.loc 0).critical) = true := by decide +kernel
  obtain ⟨c, hruns, hc⟩ := Machine.exists_run_of_play hplay
  exact ⟨c, hruns, hc, withLedgerLock_exclusive threeCallers noLockFile hruns⟩

/-- Two callers judge the same dead lock; the second unlinks the lock of the first. -/
def doubleReclaim : List (Fin 3 × Answer Int) :=
  acquires 2 ++ [(2, .crash)] ++ judgesDead 0 ++ judgesDead 1 ++
    [(0, .works)] ++ acquires 0 ++ [(1, .works)] ++ acquires 1

theorem two_critical_callers :
    ¬∀ c, Runs (withLedgerLock threeCallers) (fun _ _ _ => True) (noCaller noLockFile) c →
      ∀ p q, (c.loc p).critical = true → (c.loc q).critical = true → p = q := by
  intro hall
  have hplay : (Machine.play (withLedgerLock threeCallers) (fun _ _ _ => True)
      (noCaller noLockFile) doubleReclaim).any
      (fun c => (c.loc 0).critical && (c.loc 1).critical) = true := by decide +kernel
  obtain ⟨c, hruns, hc⟩ := Machine.exists_run_of_play hplay
  rw [Bool.and_eq_true] at hc
  have h01 := hall c hruns 0 1 hc.1 hc.2
  cases h01

end Adlc.Core
