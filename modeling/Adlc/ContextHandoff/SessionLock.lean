import Adlc.Core.LedgerLock
import Adlc.Tickets.Schema

namespace Adlc.ContextHandoff

open Adlc.Framework Adlc.Core Adlc.Tickets

variable {ν : Type} [JsNumber ν]

/-! ## A process -/

/-- One process: the session whose lock it takes, and what identifies it. -/
structure Holder (ν : Type) where
  sessionId : JsString
  pid : ν
  host : JsString

/-- What one acquisition is made with. -/
structure Stamp where
  startedAt : JsString
  nonce : JsString
  deriving DecidableEq

def Holder.lock (self : Holder ν) (stamp : Stamp) : Json ν :=
  .obj [(js "schema", .num (JsNumber.ofNat 1)), (js "session_id", .str self.sessionId),
    (js "pid", .num self.pid), (js "started_at", .str stamp.startedAt), (js "host", .str self.host),
    (js "nonce", .str stamp.nonce)]

def Holder.body (self : Holder ν) (stamp : Stamp) : Bytes :=
  utf8Encode (stringify2 (self.lock stamp) ++ [10])

/-- `readJsonFile` takes nothing but an object. -/
def loadLock (file : LockFile) : Option (Json ν) :=
  match (file.read : Option (Json ν)) with
  | some (.obj ms) => some (.obj ms)
  | _ => none

/-- `String(value)` -/
def stringOf (value : Option (Json ν)) : JsString :=
  match value with
  | none => js "undefined"
  | some (.str s) => s
  | some v => toText v

/-- Where a process stands, before the call to the file system that is named. -/
inductive SessionPoint (ν : Type) where
  | idle
  /-- `mkdirSync` and the opening of the lock file -/
  | creating (attempt : Nat) (stamp : Stamp)
  /-- `writeFileSync`, with what is not yet written -/
  | writing (fd : Nat) (stamp : Stamp) (rest : Bytes)
  /-- `loadLock` of a lock that was in the way -/
  | loading (attempt : Nat) (stamp : Stamp)
  | judging (attempt : Nat) (stamp : Stamp) (held : Json ν)
  /-- `unlinkSync` of a lock judged dead -/
  | reclaiming (attempt : Nat) (stamp : Stamp)
  | held (fd : Nat) (stamp : Stamp)
  /-- `loadLock` of the release -/
  | checking (fd : Nat) (stamp : Stamp)
  /-- `unlinkSync` of the release -/
  | releasing (fd : Nat) (stamp : Stamp)
  | crashed

/-- What the world decides about a step. -/
inductive SessionAnswer where
  | acquire (stamp : Stamp)
  | release
  | works
  /-- The call fails, in another way than the code expects. -/
  | fails
  | wrote (bytes : Nat)
  /-- What `alive` says of the pid in the lock. -/
  | probes (alive : Bool)
  | crash

/-- The end of an attempt: the other one, or the error that the lock is contended. -/
def nextAttempt (attempt : Nat) (stamp : Stamp) : SessionPoint ν :=
  if attempt + 1 < 2 then .creating (attempt + 1) stamp else .idle

/-- `acquireSessionLock` and `releaseSessionLock` -/
def sessionLockStep {ι : Type} (holder : ι → Holder ν) :
    Machine ι LockFile (SessionPoint ν) SessionAnswer := fun p answer file point =>
  let self := holder p
  match point, answer with
  | .crashed, _ => none
  | _, .crash => some (file, .crashed)
  | .idle, .acquire stamp => some (file, .creating 0 stamp)
  | .creating attempt stamp, .works =>
    match file.path with
    | none => some (file.create, .writing file.next stamp (self.body stamp))
    | some _ => some (file, .loading attempt stamp)
  | .creating _ _, .fails => some (file, .idle)
  | .writing fd stamp [], .works => some (file, .held fd stamp)
  | .writing fd stamp rest, .wrote n =>
    some (file.append fd (rest.take n), .writing fd stamp (rest.drop n))
  | .writing _ _ _, .fails => some (file, .idle)
  | .loading attempt stamp, .works =>
    match (loadLock file : Option (Json ν)) with
    | some held => some (file, .judging attempt stamp held)
    | none => some (file, .idle)
  | .loading _ _, .fails => some (file, .idle)
  | .judging attempt stamp held, .probes alive =>
    some (file, if stringOf (held.get? (js "host")) ≠ self.host || alive then .idle
      else .reclaiming attempt stamp)
  | .reclaiming attempt stamp, .works => some (file.unlink, nextAttempt attempt stamp)
  | .reclaiming _ _, .fails => some (file, .idle)
  | .held fd stamp, .release => some (file, .checking fd stamp)
  | .checking fd stamp, .works =>
    match (loadLock file : Option (Json ν)) with
    | some held =>
      some (file, if stringOf (held.get? (js "nonce")) = stamp.nonce then .releasing fd stamp else .idle)
    | none => some (file, .idle)
  | .checking _ _, .fails => some (file, .idle)
  | .releasing _ _, .works => some (file.unlink, .idle)
  | .releasing _ _, .fails => some (file, .idle)
  | _, _ => none

/-- The lock file a process has made and not yet let go. -/
def SessionPoint.claim : SessionPoint ν → Option Nat
  | .writing fd _ _ | .held fd _ | .checking fd _ | .releasing fd _ => some fd
  | _ => none

/-- The acquisition has returned and the release has not. -/
def SessionPoint.holds : SessionPoint ν → Bool
  | .held _ _ | .checking _ _ | .releasing _ _ => true
  | _ => false

/-- The step unlinks a lock that was judged dead. -/
def SessionPoint.reclaims : SessionPoint ν → SessionAnswer → Bool
  | .reclaiming _ _, .works => true
  | _, _ => false

/-- The step unlinks the lock in a release. -/
def SessionPoint.releases : SessionPoint ν → SessionAnswer → Bool
  | .releasing _ _, .works => true
  | _, _ => false

/-- A process that reclaims a lock file reclaims no live process's. -/
def ReclaimsDead {ι : Type} (c : Config ι LockFile (SessionPoint ν)) (p : ι)
    (answer : SessionAnswer) : Prop :=
  (c.loc p).reclaims answer = true → Unclaimed c.shared.path (c.claims SessionPoint.claim)

/-! ## What one step does to the lock file -/

variable {ι : Type} {holder : ι → Holder ν}

omit [JsNumber ν] in
@[simp] theorem nextAttempt_claim (attempt : Nat) (stamp : Stamp) :
    (nextAttempt attempt stamp : SessionPoint ν).claim = none := by
  unfold nextAttempt
  split_ifs <;> rfl

/-- Every step leaves the lock file alone, or makes it, or unlinks its own, or reclaims one. -/
theorem sessionLockStep_slotStep {unclaimed : Prop} {p : ι} {answer : SessionAnswer} {file : LockFile}
    {point : SessionPoint ν} {r : LockFile × SessionPoint ν}
    (hdead : point.reclaims answer = true → unclaimed)
    (h : sessionLockStep holder p answer file point = some r) :
    SlotStep unclaimed file.path point.claim r.1.path r.2.claim := by
  cases point with
  | idle =>
    cases answer <;> cases h
    all_goals exact .keep
  | creating attempt stamp =>
    cases answer <;> simp only [sessionLockStep, Option.some.injEq, reduceCtorEq] at h
    case works =>
      cases hpath : file.path with
      | none =>
        simp only [hpath, Option.some.injEq] at h
        subst h
        exact .take rfl
      | some ino =>
        simp only [hpath, Option.some.injEq] at h
        subst h
        rw [← hpath]
        exact .keep
    all_goals
      subst h
      exact .keep
  | writing fd stamp rest =>
    cases answer with
    | works =>
      cases rest with
      | nil =>
        cases h
        exact .keep
      | cons b rest => cases h
    | wrote n =>
      cases rest <;> cases h <;> exact .keep
    | fails =>
      cases rest <;> cases h <;> exact .drop
    | crash =>
      cases h
      exact .drop
    | acquire stamp' => cases rest <;> cases h
    | release => cases rest <;> cases h
    | probes alive => cases rest <;> cases h
  | loading attempt stamp =>
    cases answer <;> simp only [sessionLockStep, Option.some.injEq, reduceCtorEq] at h
    case works =>
      split at h <;> cases h
      · exact .keep
      · exact .keep
    all_goals
      subst h
      exact .keep
  | judging attempt stamp held =>
    cases answer <;> simp only [sessionLockStep, Option.some.injEq, reduceCtorEq] at h
    case probes alive =>
      subst h
      split_ifs
      · exact .keep
      · exact .keep
    case crash =>
      subst h
      exact .keep
  | reclaiming attempt stamp =>
    cases answer <;> simp only [sessionLockStep, Option.some.injEq, reduceCtorEq] at h
    all_goals subst h
    case works =>
      rw [nextAttempt_claim]
      exact .evict (hdead rfl)
    case fails => exact .keep
    case crash => exact .keep
  | held fd stamp =>
    cases answer <;> cases h
    · exact .keep
    · exact .drop
  | checking fd stamp =>
    cases answer <;> simp only [sessionLockStep, Option.some.injEq, reduceCtorEq] at h
    case works =>
      split at h <;> cases h
      · split_ifs
        · exact .keep
        · exact .drop
      · exact .drop
    all_goals
      subst h
      exact .drop
  | releasing fd stamp =>
    cases answer <;> cases h
    · exact .clear rfl
    all_goals exact .drop
  | crashed => cases h

/-! ## Mutual exclusion -/

variable [DecidableEq ι]

/-- Nobody has called yet; a lock file may be left from before. -/
def noHolder (file : LockFile) : Config ι LockFile (SessionPoint ν) := ⟨file, fun _ => .idle⟩

theorem sessionLock_claims {file : LockFile} {c : Config ι LockFile (SessionPoint ν)}
    (h : Runs (sessionLockStep holder) ReclaimsDead (noHolder file) c) :
    Exclusive c.shared.path (c.claims SessionPoint.claim) := by
  refine Runs.exclusive LockFile.path SessionPoint.claim ?_ h ?_
  · intro c p answer r hok hr
    exact sessionLockStep_slotStep hok hr
  · exact exclusive_of_idle fun _ => rfl

omit [JsNumber ν] in
theorem SessionPoint.claim_of_holds {point : SessionPoint ν} (h : point.holds = true) :
    ∃ fd, point.claim = some fd := by
  cases point <;> cases h
  all_goals exact ⟨_, rfl⟩

/-- At most one live process holds the lock, and what a release unlinks is no other process's lock file,
in every run that reclaims no live lock. -/
theorem sessionLock_exclusive (holder : ι → Holder ν) (file : LockFile)
    {c : Config ι LockFile (SessionPoint ν)}
    (h : Runs (sessionLockStep holder) ReclaimsDead (noHolder file) c) :
    (∀ p q, (c.loc p).holds = true → (c.loc q).holds = true → p = q) ∧
    ∀ p q answer fd, (c.loc p).releases answer = true → (c.loc q).claim = some fd →
      c.shared.path = some fd → q = p := by
  have hexclusive := sessionLock_claims h
  constructor
  · intro p q hp hq
    obtain ⟨fd, hfd⟩ := SessionPoint.claim_of_holds hp
    obtain ⟨fd', hfd'⟩ := SessionPoint.claim_of_holds hq
    exact hexclusive.one hfd hfd'
  · intro p q answer fd hp hq _
    have hholds : (c.loc p).holds = true := by
      cases hpoint : c.loc p <;> rw [hpoint] at hp <;> first | rfl | cases hp
    obtain ⟨fd', hfd'⟩ := SessionPoint.claim_of_holds hholds
    exact hexclusive.one hq hfd'

/-! ## Three processes, one of which dies -/

def threeHolders (p : Fin 3) : Holder Int := ⟨js "s", 100 + p, js "host"⟩

def firstStamp : Stamp := ⟨js "2026-01-01T00:00:00.000Z", js "00"⟩

/-- The steps of a process that finds no lock file, up to the return of its acquisition. -/
def takes (p : Fin 3) : List (Fin 3 × SessionAnswer) :=
  [(p, .works), (p, .wrote 1000), (p, .works)]

/-- The steps of a process that finds the lock of a dead one. -/
def findsDead (p : Fin 3) : List (Fin 3 × SessionAnswer) :=
  [(p, .acquire firstStamp), (p, .works), (p, .works), (p, .probes false)]

instance (c : Config (Fin 3) LockFile (SessionPoint Int)) (p : Fin 3) (answer : SessionAnswer) :
    Decidable (ReclaimsDead c p answer) :=
  inferInstanceAs (Decidable (_ → _))

/-- One process takes over from a dead one, and begins to release. -/
def handover : List (Fin 3 × SessionAnswer) :=
  (2, .acquire firstStamp) :: takes 2 ++ [(2, .crash)] ++ findsDead 0 ++ [(0, .works)] ++ takes 0 ++
    [(0, .release), (0, .works)]

theorem sessionLock_exclusive_handover :
    ∃ c, Runs (sessionLockStep threeHolders) ReclaimsDead (noHolder noLockFile) c ∧
      (c.loc 0).releases .works = true ∧
      (∀ p q, (c.loc p).holds = true → (c.loc q).holds = true → p = q) ∧
      ∀ p q answer fd, (c.loc p).releases answer = true → (c.loc q).claim = some fd →
        c.shared.path = some fd → q = p := by
  have hplay : (Machine.play (sessionLockStep threeHolders) ReclaimsDead (noHolder noLockFile)
      handover).any (fun c => (c.loc 0).releases .works) = true := by decide +kernel
  obtain ⟨c, hruns, hc⟩ := Machine.exists_run_of_play hplay
  exact ⟨c, hruns, hc, sessionLock_exclusive threeHolders noLockFile hruns⟩

/-- Two processes judge the same dead lock; the second unlinks the lock of the first. -/
def staleUnlink : List (Fin 3 × SessionAnswer) :=
  (2, .acquire firstStamp) :: takes 2 ++ [(2, .crash)] ++ findsDead 0 ++ findsDead 1 ++
    [(0, .works)] ++ takes 0 ++ [(1, .works)] ++ takes 1

theorem two_sessions_hold :
    ¬∀ c, Runs (sessionLockStep threeHolders) (fun _ _ _ => True) (noHolder noLockFile) c →
      ∀ p q, (c.loc p).holds = true → (c.loc q).holds = true → p = q := by
  intro hall
  have hplay : (Machine.play (sessionLockStep threeHolders) (fun _ _ _ => True)
      (noHolder noLockFile) staleUnlink).any
      (fun c => (c.loc 0).holds && (c.loc 1).holds) = true := by decide +kernel
  obtain ⟨c, hruns, hc⟩ := Machine.exists_run_of_play hplay
  rw [Bool.and_eq_true] at hc
  have h01 := hall c hruns 0 1 hc.1 hc.2
  cases h01

end Adlc.ContextHandoff
