import Adlc.Framework.Disk
import Adlc.Framework.Interleaving
import Adlc.Framework.IntNumber
import Adlc.Tickets.Evidence

namespace Adlc.Tickets

open Adlc.Framework

variable {ν : Type} [JsNumber ν]

/-! ## The owner of the lock -/

/-- `Number.isInteger(value)` -/
def isIntegerField (value : Option (Json ν)) : Bool :=
  match value with
  | some (.num n) => JsNumber.isInteger n
  | _ => false

def isStringField (value : Option (Json ν)) : Bool :=
  match value with
  | some (.str _) => true
  | _ => false

def isLockMetadata (value : Json ν) : Bool :=
  match value with
  | .obj _ =>
    strictEq (value.get? (js "version")) (some (.num (JsNumber.ofNat 1))) &&
      isIntegerField (value.get? (js "pid")) && isStringField (value.get? (js "hostname")) &&
      isStringField (value.get? (js "startedAt")) && isStringField (value.get? (js "command")) &&
      (strictEq (value.get? (js "transactionId")) (some .null) ||
        isStringField (value.get? (js "transactionId")))
  | _ => false

/-- A client of the lock, with the options of its call of `acquireTicketLock`. -/
structure LockClient (ν : Type) [JsNumber ν] where
  pid : ν
  hostname : JsString
  command : Json ν
  transactionId : Json ν
  retries : Nat
  pid_integer : JsNumber.isInteger pid = true

def LockClient.metadata (self : LockClient ν) (hostname startedAt : JsString) : Json ν :=
  .obj [(js "version", .num (JsNumber.ofNat 1)), (js "pid", .num self.pid),
    (js "hostname", .str hostname), (js "startedAt", .str startedAt), (js "command", self.command),
    (js "transactionId", self.transactionId)]

/-- The options are ones from which a lock can be written that its owner can release. -/
def LockClient.accepted (self : LockClient ν) : Bool := isLockMetadata (self.metadata [] [])

def LockClient.owner (self : LockClient ν) (startedAt : JsString) : Json ν :=
  self.metadata self.hostname startedAt

def LockClient.record (self : LockClient ν) (startedAt : JsString) : Bytes :=
  utf8Encode (stringify2 (self.owner startedAt) ++ [10])

def ticketLock : Unit := ()

def ownerFile : JsString := js "owner.json"

def readLockMetadata (disk : Disk Unit) : Option (Json ν) :=
  ((disk.readFile ticketLock ownerFile).bind fun bytes => parseJson (utf8Decode bytes)).filter
    isLockMetadata

/-! ## Acquiring and releasing -/

/-- What a call ends with; an acquisition that ends well leads to `held`. -/
inductive LockOutcome where
  | invalidOptions | timeout | failed | stranded
  | released | noLock | unverifiable | notOurs | removeFailed
  deriving DecidableEq

/-- Where a client stands, before the call to the file system that is named. -/
inductive TicketLockPoint where
  | idle
  /-- `mkdirSync` of the lock in the given attempt -/
  | making (attempt : Nat)
  /-- `writeFileSync` of the owner file of the directory made: its opening, and what is not yet
  written -/
  | opening (attempt dir : Nat) (startedAt : JsString)
  | writing (attempt dir fd : Nat) (startedAt : JsString) (rest : Bytes)
  /-- `rmSync` of the half-made lock -/
  | undoing (attempt dir : Nat) (eexist : Bool)
  /-- `{ path, metadata }` -/
  | held (dir : Nat) (startedAt : JsString)
  /-- `existsSync`, `readFileSync` and `rmSync` of the release -/
  | looking (dir : Nat) (startedAt : JsString)
  | reading (dir : Nat) (startedAt : JsString)
  | removing (dir : Nat) (startedAt : JsString)
  | crashed
  deriving DecidableEq

structure LockCall where
  point : TicketLockPoint
  outcomes : List LockOutcome
  deriving DecidableEq

/-- What the world decides about a step. -/
inductive LockAnswer where
  | acquire
  | release
  /-- `new Date().toISOString()`, with which an attempt begins -/
  | clock (startedAt : JsString)
  | works
  | fails
  | wrote (bytes : Nat)
  | crash
  deriving DecidableEq

def LockCall.goto (call : LockCall) (point : TicketLockPoint) : LockCall := { call with point := point }

def LockCall.ends (call : LockCall) (outcome : LockOutcome) : LockCall :=
  ⟨.idle, outcome :: call.outcomes⟩

/-- The end of an attempt that met another lock. -/
def LockClient.retry (self : LockClient ν) (call : LockCall) (attempt : Nat) : LockCall :=
  if attempt < self.retries then call.goto (.making (attempt + 1)) else call.ends .timeout

/-- `owner.pid !== lock.metadata?.pid || owner.startedAt !== lock.metadata?.startedAt` -/
def LockClient.owns (self : LockClient ν) (startedAt : JsString) (owner : Json ν) : Bool :=
  strictEq (owner.get? (js "pid")) (some (.num self.pid)) &&
    strictEq (owner.get? (js "startedAt")) (some (.str startedAt))

def ticketLockStep {ι : Type} (client : ι → LockClient ν) :
    Machine ι (Disk Unit) LockCall LockAnswer := fun p answer disk call =>
  let self := client p
  match call.point, answer with
  | .crashed, _ => none
  | _, .crash => some (disk, call.goto .crashed)
  | .idle, .acquire =>
    some (disk, if self.accepted then call.goto (.making 0) else call.ends .invalidOptions)
  | .making attempt, .clock startedAt =>
    match disk.mkdir ticketLock with
    | .ok made => some (made, call.goto (.opening attempt disk.next startedAt))
    | .error _ => some (disk, self.retry call attempt)
  | .making _, .fails => some (disk, call.ends .failed)
  | .opening attempt dir startedAt, .works =>
    match disk.openNew ticketLock ownerFile with
    | .ok (opened, fd) =>
      some (opened, call.goto (.writing attempt dir fd startedAt (self.record startedAt)))
    | .error errno => some (disk, call.goto (.undoing attempt dir (errno = .eexist)))
  | .writing _ dir _ startedAt [], .works => some (disk, call.goto (.held dir startedAt))
  | .writing attempt dir fd startedAt (b :: rest), .wrote n =>
    some (disk.append fd ((b :: rest).take n),
      call.goto (.writing attempt dir fd startedAt ((b :: rest).drop n)))
  | .opening attempt dir _, .fails | .writing attempt dir _ _ _, .fails =>
    some (disk, call.goto (.undoing attempt dir false))
  | .undoing attempt dir eexist, .works =>
    match disk.removeStep ticketLock with
    | (removed, true) =>
      some (removed, if eexist then self.retry call attempt else call.ends .failed)
    | (removed, false) => some (removed, call.goto (.undoing attempt dir eexist))
  | .undoing _ _ _, .fails => some (disk, call.ends .stranded)
  | .held dir startedAt, .release => some (disk, call.goto (.looking dir startedAt))
  | .looking dir startedAt, .works =>
    some (disk, if (disk.folders ticketLock).isSome then call.goto (.reading dir startedAt)
      else call.ends .noLock)
  -- `existsSync` answers false when the call fails
  | .looking _ _, .fails => some (disk, call.ends .noLock)
  | .reading dir startedAt, .works =>
    match (readLockMetadata disk : Option (Json ν)) with
    | none => some (disk, call.ends .unverifiable)
    | some owner =>
      some (disk, if self.owns startedAt owner then call.goto (.removing dir startedAt)
        else call.ends .notOurs)
  | .reading _ _, .fails => some (disk, call.ends .unverifiable)
  | .removing dir startedAt, .works =>
    match disk.removeStep ticketLock with
    | (removed, true) => some (removed, call.ends .released)
    | (removed, false) => some (removed, call.goto (.removing dir startedAt))
  | .removing _ _, .fails => some (disk, call.ends .removeFailed)
  | _, _ => none

/-- The directory a client has made and not yet let go. -/
def TicketLockPoint.claim : TicketLockPoint → Option Nat
  | .opening _ dir _ | .writing _ dir _ _ _ | .undoing _ dir _ | .held dir _ | .looking dir _
  | .reading dir _ | .removing dir _ => some dir
  | _ => none

/-- The acquisition has returned and the release has not. -/
def TicketLockPoint.holds : TicketLockPoint → Bool
  | .held _ _ | .looking _ _ | .reading _ _ | .removing _ _ => true
  | _ => false

/-! ## The owner file reads back -/

theorem LockClient.owner_isJson {self : LockClient ν} (h : self.accepted = true)
    (startedAt : JsString) : (self.owner startedAt).IsJson := by
  have hkeys : Members.keys [(js "version", (.num (JsNumber.ofNat 1) : Json ν)),
      (js "pid", .num self.pid), (js "hostname", .str self.hostname),
      (js "startedAt", .str startedAt), (js "command", self.command),
      (js "transactionId", self.transactionId)] = [js "version", js "pid", js "hostname",
        js "startedAt", js "command", js "transactionId"] := rfl
  have hcommand : isStringField (some self.command) = true := by
    simp only [LockClient.accepted, isLockMetadata, LockClient.metadata, Bool.and_eq_true] at h
    exact h.1.2
  have htransaction : (strictEq (some self.transactionId) (some .null) ||
      isStringField (some self.transactionId)) = true := by
    simp only [LockClient.accepted, isLockMetadata, LockClient.metadata, Bool.and_eq_true] at h
    exact h.2
  refine ⟨⟨by rw [hkeys]; decide, by rw [hkeys]; decide⟩, ?_⟩
  rw [membersIsJson_iff]
  intro p hp
  simp only [List.mem_cons, List.not_mem_nil, or_false] at hp
  obtain rfl | rfl | rfl | rfl | rfl | rfl := hp
  · exact JsNumber.finite_of_integer _ (JsNumber.integer_ofNat 1 (by norm_num))
  · exact JsNumber.finite_of_integer _ self.pid_integer
  · trivial
  · trivial
  · cases hc : self.command <;> rw [hc] at hcommand <;> trivial
  · cases ht : self.transactionId <;> rw [ht] at htransaction <;> trivial

theorem LockClient.isLockMetadata_owner {self : LockClient ν} (h : self.accepted = true)
    (startedAt : JsString) : isLockMetadata (self.owner startedAt) = true := h

theorem LockClient.owns_owner (self : LockClient ν) (startedAt : JsString) :
    self.owns startedAt (self.owner startedAt) = true := by
  have hpid : (self.owner startedAt).get? (js "pid") = some (.num self.pid) := rfl
  have hstarted : (self.owner startedAt).get? (js "startedAt") = some (.str startedAt) := rfl
  simp [LockClient.owns, hpid, hstarted, strictEq]

/-- The owner file of the lock holds what the client has written. -/
def LockClient.Written (self : LockClient ν) (disk : Disk Unit) (dir : Nat) (startedAt : JsString) :
    Prop :=
  ∃ fd, disk.folders ticketLock = some ⟨dir, [(ownerFile, fd)]⟩ ∧
    disk.content fd = self.record startedAt

theorem LockClient.readLockMetadata_written {self : LockClient ν} (h : self.accepted = true)
    {disk : Disk Unit} {dir : Nat} {startedAt : JsString} (hw : self.Written disk dir startedAt) :
    readLockMetadata disk = some (self.owner startedAt) := by
  obtain ⟨fd, hfolder, hcontent⟩ := hw
  have hread : disk.readFile ticketLock ownerFile = some (self.record startedAt) := by
    simp [Disk.readFile, Disk.fileAt, hfolder, hcontent]
  rw [readLockMetadata, hread, Option.bind_some, LockClient.record,
    parseJson_stringify2 (self.owner_isJson h startedAt)]
  exact Option.filter_some_pos (self.isLockMetadata_owner h startedAt)

/-! ## What a client owns -/

/-- What stands on the disk for a client that has made the lock. -/
def LockClient.Owned (self : LockClient ν) (disk : Disk Unit) : TicketLockPoint → Prop
  | .idle | .crashed => True
  | .making _ | .undoing _ _ _ => self.accepted = true
  | .opening _ dir _ => self.accepted = true ∧ disk.folders ticketLock = some ⟨dir, []⟩
  | .writing _ dir fd startedAt rest => self.accepted = true ∧
      disk.folders ticketLock = some ⟨dir, [(ownerFile, fd)]⟩ ∧
      disk.content fd ++ rest = self.record startedAt
  | .held dir startedAt | .looking dir startedAt | .reading dir startedAt =>
    self.accepted = true ∧ self.Written disk dir startedAt
  | .removing dir startedAt => self.accepted = true ∧
      (disk.folders ticketLock = some ⟨dir, []⟩ ∨ self.Written disk dir startedAt)

theorem retry_claim (self : LockClient ν) (call : LockCall) (attempt : Nat) :
    (self.retry call attempt).point.claim = none := by
  unfold LockClient.retry
  split_ifs <;> rfl

theorem retry_owned {self : LockClient ν} (h : self.accepted = true) (call : LockCall)
    (attempt : Nat) (disk : Disk Unit) : self.Owned disk (self.retry call attempt).point := by
  unfold LockClient.retry
  split_ifs
  · exact h
  · trivial

variable {ι : Type} {client : ι → LockClient ν} {p : ι} {answer : LockAnswer} {disk : Disk Unit}
  {call : LockCall} {r : Disk Unit × LockCall}

/-- What one step of one client does: to the lock, for the client itself, and for the others. -/
structure LockStep (client : LockClient ν) (disk : Disk Unit) (call : LockCall)
    (r : Disk Unit × LockCall) : Prop where
  slot : SlotStep False (disk.inoAt ticketLock) call.point.claim (r.1.inoAt ticketLock)
    r.2.point.claim
  owned : client.Owned r.1 r.2.point
  others : call.point.claim = none → r.1 = disk ∨ disk.folders ticketLock = none

theorem LockStep.same {self : LockClient ν} {call' : LockCall}
    (hclaim : call'.point.claim = call.point.claim ∨ call'.point.claim = none)
    (h : self.Owned disk call'.point) : LockStep self disk call (disk, call') := by
  refine ⟨?_, h, fun _ => Or.inl rfl⟩
  obtain hclaim | hclaim := hclaim
  · rw [hclaim]
    exact .keep
  · rw [hclaim]
    exact .drop

theorem LockStep.remove {self : LockClient ν} {dir : Nat} {ended kept : LockCall}
    (hclaim : call.point.claim = some dir) (hended : ended.point.claim = none)
    (hkept : kept.point.claim = some dir) (hown : ∀ disk', self.Owned disk' ended.point)
    (hown' : ∀ removed, disk.removeStep ticketLock = (removed, false) →
      self.Owned removed kept.point) :
    LockStep self disk call (match disk.removeStep ticketLock with
      | (removed, true) => (removed, ended)
      | (removed, false) => (removed, kept)) := by
  split
  · next removed hremoved =>
    refine ⟨?_, hown _, fun hnone => by rw [hclaim] at hnone; cases hnone⟩
    rw [hended]
    exact .clear (by rw [hclaim]; rfl)
  · next removed hremoved =>
    refine ⟨?_, hown' _ hremoved, fun hnone => by rw [hclaim] at hnone; cases hnone⟩
    have hino := @Disk.removeStep_inoAt _ _ disk ticketLock (by rw [hremoved])
    rw [hremoved] at hino
    rw [hino, hclaim, hkept]
    exact .keep

theorem making_step {self : LockClient ν} {attempt : Nat} {startedAt : JsString}
    (haccepted : self.accepted = true)
    (hr : (match disk.mkdir ticketLock with
      | .ok made => some (made, call.goto (.opening attempt disk.next startedAt))
      | .error _ => some (disk, self.retry call attempt)) = some r) : LockStep self disk call r := by
  split at hr
  · next made hmade =>
    obtain rfl := Option.some.inj hr
    obtain ⟨hfree, hnew, -⟩ := Disk.mkdir_ok hmade
    refine ⟨?_, ⟨haccepted, hnew⟩, fun _ => Or.inr hfree⟩
    have hino : made.inoAt ticketLock = some disk.next := by rw [Disk.inoAt, hnew]; rfl
    rw [hino]
    apply SlotStep.take
    rw [Disk.inoAt, hfree]
    rfl
  · obtain rfl := Option.some.inj hr
    exact .same (Or.inr (retry_claim _ _ _)) (retry_owned haccepted _ _ _)

theorem opening_step {self : LockClient ν} {attempt dir : Nat} {startedAt : JsString}
    (hp : call.point = .opening attempt dir startedAt) (howned : self.Owned disk call.point)
    (hr : (match disk.openNew ticketLock ownerFile with
      | .ok (opened, fd) =>
        some (opened, call.goto (.writing attempt dir fd startedAt (self.record startedAt)))
      | .error errno => some (disk, call.goto (.undoing attempt dir (errno = .eexist)))) = some r) :
    LockStep self disk call r := by
  rw [hp] at howned
  obtain ⟨haccepted, hfolder⟩ := howned
  have hnew : ∃ disk', disk.openNew ticketLock ownerFile = .ok (disk', disk.next) ∧ _ :=
    Disk.openNew_of_empty hfolder
  obtain ⟨opened, hopen, hafter, hempty⟩ := hnew
  rw [hopen] at hr
  obtain rfl := Option.some.inj hr
  refine ⟨?_, ⟨haccepted, hafter, by rw [hempty, List.nil_append]⟩, ?_⟩
  · have hino : opened.inoAt ticketLock = disk.inoAt ticketLock := by
      rw [Disk.inoAt, Disk.inoAt, hafter, hfolder]
      rfl
    rw [hino, hp]
    exact .keep
  · intro hnone
    rw [hp] at hnone
    cases hnone

theorem writing_step {self : LockClient ν} {attempt dir fd n : Nat} {startedAt : JsString}
    {rest : Bytes} (hp : call.point = .writing attempt dir fd startedAt rest)
    (howned : self.Owned disk call.point) :
    LockStep self disk call
      (disk.append fd (rest.take n), call.goto (.writing attempt dir fd startedAt (rest.drop n))) := by
  rw [hp] at howned
  obtain ⟨haccepted, hfolder, hcontent⟩ := howned
  refine ⟨?_, ⟨haccepted, hfolder, ?_⟩, ?_⟩
  · rw [hp]
    exact .keep
  · have happend : (disk.append fd (rest.take n)).content fd = disk.content fd ++ rest.take n :=
      Function.update_self ..
    change (disk.append fd (rest.take n)).content fd ++ rest.drop n = self.record startedAt
    rw [happend, List.append_assoc, List.take_append_drop]
    exact hcontent
  · intro hnone
    rw [hp] at hnone
    cases hnone

/-- The owner file goes before the directory. -/
theorem removed_owner {self : LockClient ν} {dir : Nat} {startedAt : JsString} {removed : Disk Unit}
    (h : disk.folders ticketLock = some ⟨dir, []⟩ ∨ self.Written disk dir startedAt)
    (hremoved : disk.removeStep ticketLock = (removed, false)) :
    removed.folders ticketLock = some ⟨dir, []⟩ := by
  obtain hempty | ⟨fd, hfolder, -⟩ := h
  · rw [Disk.removeStep, hempty] at hremoved
    cases hremoved
  · rw [Disk.removeStep, hfolder] at hremoved
    cases hremoved
    exact Disk.put_self _

theorem ticketLockStep_spec (hstep : ticketLockStep client p answer disk call = some r)
    (howned : (client p).Owned disk call.point) : LockStep (client p) disk call r := by
  have hpoint := howned
  cases hp : call.point <;> rw [hp] at hpoint <;> cases answer <;>
    simp only [ticketLockStep, hp, reduceCtorEq, Option.some.injEq] at hstep
  case idle.acquire =>
    subst hstep
    split_ifs with haccepted
    · exact .same (Or.inr rfl) haccepted
    · exact .same (Or.inr rfl) trivial
  case making.clock attempt startedAt => exact making_step hpoint hstep
  case opening.works attempt dir startedAt => exact opening_step hp howned hstep
  case opening.fails attempt dir startedAt =>
    subst hstep
    exact .same (Or.inl (by rw [hp]; rfl)) hpoint.1
  case writing.works attempt dir fd startedAt rest =>
    cases rest with
    | nil =>
      simp only [Option.some.injEq] at hstep
      subst hstep
      refine .same (Or.inl (by rw [hp]; rfl)) ⟨hpoint.1, fd, hpoint.2.1, ?_⟩
      rw [← hpoint.2.2, List.append_nil]
    | cons b rest => simp only [reduceCtorEq] at hstep
  case writing.wrote attempt dir fd startedAt rest n =>
    cases rest with
    | nil => simp only [reduceCtorEq] at hstep
    | cons b rest =>
      simp only [Option.some.injEq] at hstep
      subst hstep
      exact writing_step hp howned
  case writing.fails attempt dir fd startedAt rest =>
    have hr : (disk, call.goto (.undoing attempt dir false)) = r := by
      cases rest <;> simpa only [Option.some.injEq] using hstep
    subst hr
    exact .same (Or.inl (by rw [hp]; rfl)) hpoint.1
  case undoing.works attempt dir eexist =>
    have hremove : LockStep (client p) disk call (match disk.removeStep ticketLock with
      | (removed, true) =>
        (removed, if eexist then (client p).retry call attempt else call.ends .failed)
      | (removed, false) => (removed, call.goto (.undoing attempt dir eexist))) := by
      apply LockStep.remove (by rw [hp]; rfl) _ rfl
      · intro disk'
        split_ifs
        · exact retry_owned hpoint _ _ _
        · trivial
      · exact fun _ _ => hpoint
      · split_ifs
        · exact retry_claim _ _ _
        · rfl
    split at hstep <;> rename_i hremoved <;> rw [hremoved] at hremove <;>
      obtain rfl := Option.some.inj hstep <;> exact hremove
  case held.release dir startedAt =>
    subst hstep
    exact .same (Or.inl (by rw [hp]; rfl)) hpoint
  case looking.works dir startedAt =>
    subst hstep
    split_ifs
    · exact .same (Or.inl (by rw [hp]; rfl)) hpoint
    · exact .same (Or.inr rfl) trivial
  case reading.works dir startedAt =>
    split at hstep <;> simp only [Option.some.injEq] at hstep <;> subst hstep
    · exact .same (Or.inr rfl) trivial
    · split_ifs
      · exact .same (Or.inl (by rw [hp]; rfl)) ⟨hpoint.1, Or.inr hpoint.2⟩
      · exact .same (Or.inr rfl) trivial
  case removing.works dir startedAt =>
    have hremove : LockStep (client p) disk call (match disk.removeStep ticketLock with
      | (removed, true) => (removed, call.ends .released)
      | (removed, false) => (removed, call.goto (.removing dir startedAt))) := by
      have hclaim : call.point.claim = some dir := by rw [hp]; rfl
      refine LockStep.remove hclaim rfl rfl (fun _ => trivial) ?_
      intro removed hremoved
      exact ⟨hpoint.1, Or.inl (removed_owner hpoint.2 hremoved)⟩
    split at hstep <;> rename_i hremoved <;> rw [hremoved] at hremove <;>
      obtain rfl := Option.some.inj hstep <;> exact hremove
  all_goals
    subst hstep
    exact .same (Or.inr rfl) trivial

/-! ## The runs -/

structure LockInv (client : ι → LockClient ν) (c : Config ι (Disk Unit) LockCall) : Prop where
  exclusive : Exclusive (c.shared.inoAt ticketLock) (c.claims fun call => call.point.claim)
  owned : ∀ p, (client p).Owned c.shared (c.loc p).point

/-- What a client without a claim owns does not depend on the disk. -/
theorem owned_of_unclaimed {self : LockClient ν} {point : TicketLockPoint} {disk' : Disk Unit}
    (hclaim : point.claim = none) (h : self.Owned disk point) : self.Owned disk' point := by
  cases point <;> first | exact h | cases hclaim

variable [DecidableEq ι]

theorem LockInv.step {c : Config ι (Disk Unit) LockCall} (h : LockInv client c)
    (hstep : ticketLockStep client p answer c.shared (c.loc p) = some r) :
    LockInv client (c.put p r) := by
  have hspec := ticketLockStep_spec hstep (h.owned p)
  constructor
  · rw [Config.claims_put, Config.put_shared]
    exact h.exclusive.step (hspec.slot.mono False.elim)
  · intro q
    by_cases hq : q = p
    · subst hq
      rw [Config.put_loc, Function.update_self]
      exact hspec.owned
    · rw [Config.put_loc, Function.update_of_ne hq, Config.put_shared]
      cases hclaim : (c.loc q).point.claim with
      | none => exact owned_of_unclaimed hclaim (h.owned q)
      | some dir =>
        have hnone : (c.loc p).point.claim = none :=
          h.exclusive.alone_of_claim hclaim p fun heq => hq heq.symm
        obtain hsame | hfree := hspec.others hnone
        · rw [hsame]
          exact h.owned q
        · have hplaced := h.exclusive.placed hclaim
          rw [Disk.inoAt, hfree] at hplaced
          cases hplaced

/-- The release of one client, undisturbed and without a failing call. -/
def ReleasesAlone (p : ι) (_ : Config ι (Disk Unit) LockCall) (q : ι) (answer : LockAnswer) : Prop :=
  q = p ∧ (answer = .release ∨ answer = .works)

/-- Who holds the lock gets rid of it. -/
theorem released_alone {c : Config ι (Disk Unit) LockCall} {dir : Nat} {startedAt : JsString}
    (hp : (c.loc p).point = .held dir startedAt) (howned : (client p).Owned c.shared (c.loc p).point) :
    ∃ d, Runs (ticketLockStep client) (ReleasesAlone p) c d ∧
      (d.loc p).point = .idle ∧ (d.loc p).outcomes = .released :: (c.loc p).outcomes ∧
      d.shared.folders ticketLock = none := by
  rw [hp] at howned
  obtain ⟨haccepted, hwritten⟩ := howned
  have hread := (client p).readLockMetadata_written haccepted hwritten
  obtain ⟨fd, hfolder, -⟩ := hwritten
  have hfiles : c.shared.removeStep ticketLock = (c.shared.put ticketLock (some ⟨dir, []⟩), false) := by
    rw [Disk.removeStep, hfolder]
  have hempty : (c.shared.put ticketLock (some ⟨dir, []⟩)).removeStep ticketLock =
      ((c.shared.put ticketLock (some ⟨dir, []⟩)).put ticketLock none, true) := by
    rw [Disk.removeStep, Disk.put_self]
  have hbegun : Runs (ticketLockStep client) (ReleasesAlone p) c
      (c.put p (c.shared, (c.loc p).goto (.looking dir startedAt))) := by
    apply Runs.take .start ⟨rfl, Or.inl rfl⟩
    simp [ticketLockStep, hp]
  have hfound : Runs (ticketLockStep client) (ReleasesAlone p) c
      (c.put p (c.shared, (c.loc p).goto (.reading dir startedAt))) := by
    apply hbegun.takeAgain ⟨rfl, Or.inr rfl⟩
    simp [ticketLockStep, LockCall.goto, hfolder]
  have hours : Runs (ticketLockStep client) (ReleasesAlone p) c
      (c.put p (c.shared, (c.loc p).goto (.removing dir startedAt))) := by
    apply hfound.takeAgain ⟨rfl, Or.inr rfl⟩
    simp [ticketLockStep, LockCall.goto, hread, LockClient.owns_owner]
  have hemptied : Runs (ticketLockStep client) (ReleasesAlone p) c
      (c.put p (c.shared.put ticketLock (some ⟨dir, []⟩),
        (c.loc p).goto (.removing dir startedAt))) := by
    apply hours.takeAgain ⟨rfl, Or.inr rfl⟩
    simp [ticketLockStep, LockCall.goto, hfiles]
  have hremoved : Runs (ticketLockStep client) (ReleasesAlone p) c
      (c.put p ((c.shared.put ticketLock (some ⟨dir, []⟩)).put ticketLock none,
        (c.loc p).ends .released)) := by
    apply hemptied.takeAgain ⟨rfl, Or.inr rfl⟩
    simp [ticketLockStep, LockCall.goto, LockCall.ends, hempty]
  refine ⟨_, hremoved, ?_, ?_, ?_⟩
  · rw [Config.put_loc, Function.update_self]
    rfl
  · rw [Config.put_loc, Function.update_self]
    rfl
  · exact Disk.put_self _

/-- The release did not find its lock, or could not remove it. -/
def LockOutcome.unreleased : LockOutcome → Bool
  | .noLock | .unverifiable | .notOurs | .removeFailed => true
  | _ => false

/-- The calls to the file system that a release makes do not fail. -/
def ReleaseCallsWork (c : Config ι (Disk Unit) LockCall) (p : ι) (answer : LockAnswer) : Prop :=
  (c.loc p).point.holds = true → answer ≠ .fails

omit [DecidableEq ι] in
theorem retry_outcomes {self : LockClient ν} {attempt : Nat} {outcome : LockOutcome}
    (h : outcome ∈ (self.retry call attempt).outcomes) :
    outcome ∈ call.outcomes ∨ outcome.unreleased = false := by
  unfold LockClient.retry at h
  split_ifs at h
  · exact Or.inl h
  · obtain rfl | hold := List.mem_cons.1 h
    · exact Or.inr rfl
    · exact Or.inl hold

omit [DecidableEq ι] in
theorem ticketLockStep_outcomes (hstep : ticketLockStep client p answer disk call = some r)
    (howned : (client p).Owned disk call.point) (hworks : call.point.holds = true → answer ≠ .fails)
    {outcome : LockOutcome} (h : outcome ∈ r.2.outcomes) :
    outcome ∈ call.outcomes ∨ outcome.unreleased = false := by
  have hends : ∀ {ended : LockOutcome}, ended.unreleased = false →
      outcome ∈ (call.ends ended).outcomes → outcome ∈ call.outcomes ∨ outcome.unreleased = false := by
    intro ended hended hmem
    obtain rfl | hold := List.mem_cons.1 hmem
    · exact Or.inr hended
    · exact Or.inl hold
  cases hp : call.point <;> rw [hp] at howned hworks <;> cases answer <;>
    simp only [ticketLockStep, hp, reduceCtorEq, Option.some.injEq] at hstep
  case idle.acquire =>
    subst hstep
    split_ifs at h
    · exact Or.inl h
    · exact hends rfl h
  case making.clock attempt startedAt =>
    split at hstep <;> obtain rfl := Option.some.inj hstep
    · exact Or.inl h
    · exact retry_outcomes h
  case opening.works attempt dir startedAt =>
    split at hstep <;> obtain rfl := Option.some.inj hstep <;> exact Or.inl h
  case writing.works attempt dir fd startedAt rest =>
    cases rest <;> cases hstep
    exact Or.inl h
  case writing.wrote attempt dir fd startedAt rest n =>
    cases rest <;> cases hstep
    exact Or.inl h
  case writing.fails attempt dir fd startedAt rest =>
    cases rest <;> cases hstep <;> exact Or.inl h
  case undoing.works attempt dir eexist =>
    split at hstep <;> obtain rfl := Option.some.inj hstep
    · split_ifs at h
      · exact retry_outcomes h
      · exact hends rfl h
    · exact Or.inl h
  case looking.works dir startedAt =>
    obtain ⟨-, fd, hfolder, -⟩ := howned
    subst hstep
    rw [hfolder, Option.isSome_some, if_pos rfl] at h
    exact Or.inl h
  case reading.works dir startedAt =>
    rw [(client p).readLockMetadata_written howned.1 howned.2] at hstep
    simp only [LockClient.owns_owner, if_true, Option.some.injEq] at hstep
    subst hstep
    exact Or.inl h
  case removing.works dir startedAt =>
    split at hstep <;> obtain rfl := Option.some.inj hstep
    · exact hends rfl h
    · exact Or.inl h
  all_goals
    subst hstep
    first
      | exact Or.inl h
      | exact hends rfl h
      | exact absurd rfl (hworks rfl)

/-! ## Safety -/

/-- No client has called yet; what is on the disk is left open. -/
def beforeCalls (ι : Type) (disk : Disk Unit) : Config ι (Disk Unit) LockCall :=
  ⟨disk, fun _ => ⟨.idle, []⟩⟩

omit [DecidableEq ι] in
theorem beforeCalls_inv (client : ι → LockClient ν) (disk : Disk Unit) :
    LockInv client (beforeCalls ι disk) :=
  ⟨exclusive_of_idle fun _ => rfl, fun _ => trivial⟩

theorem lockInv_of_runs {ok : Config ι (Disk Unit) LockCall → ι → LockAnswer → Prop}
    {c : Config ι (Disk Unit) LockCall}
    (h : Runs (ticketLockStep client) ok (beforeCalls ι disk) c) : LockInv client c := by
  apply Runs.invariant (LockInv client) h (beforeCalls_inv client disk)
  intro d p answer r hinv _ hstep
  exact hinv.step hstep

omit [DecidableEq ι] in
theorem claim_of_holds {point : TicketLockPoint} (h : point.holds = true) :
    ∃ dir, point.claim = some dir := by
  cases point <;> first | exact ⟨_, rfl⟩ | cases h

omit [DecidableEq ι] in
/-- Only the client that made the lock's directory changes it. -/
theorem LockInv.changes_own {c : Config ι (Disk Unit) LockCall} (h : LockInv client c)
    {folder : Folder} (hstep : ticketLockStep client p answer c.shared (c.loc p) = some r)
    (hfolder : c.shared.folders ticketLock = some folder)
    (hchanged : r.1.folders ticketLock ≠ some folder) :
    (c.loc p).point.claim = some folder.ino := by
  have hino : c.shared.inoAt ticketLock = some folder.ino := by rw [Disk.inoAt, hfolder]; rfl
  cases hclaim : (c.loc p).point.claim with
  | none =>
    obtain hsame | hfree := (ticketLockStep_spec hstep (h.owned p)).others hclaim
    · rw [hsame] at hchanged
      exact absurd hfolder hchanged
    · rw [hfree] at hfolder
      cases hfolder
  | some dir =>
    have hplaced : c.shared.inoAt ticketLock = some dir := h.exclusive.placed hclaim
    rw [← hplaced, hino]

omit [DecidableEq ι] in
/-- The owner file that a client is about to remove names that client's acquisition. -/
theorem LockInv.removes_own {c : Config ι (Disk Unit) LockCall} (h : LockInv client c) {dir : Nat}
    {startedAt : JsString} (hp : (c.loc p).point = .removing dir startedAt) :
    c.shared.inoAt ticketLock = some dir ∧
      ∀ owner, readLockMetadata c.shared = some owner → (client p).owns startedAt owner = true := by
  constructor
  · apply h.exclusive.placed 
    rw [Config.claims, hp]
    rfl
  · intro owner howner
    have howned := h.owned p
    rw [hp] at howned
    obtain ⟨haccepted, hempty | hwritten⟩ := howned
    · rw [readLockMetadata, Disk.readFile, Disk.fileAt, hempty] at howner
      cases howner
    · rw [(client p).readLockMetadata_written haccepted hwritten] at howner
      obtain rfl := Option.some.inj howner
      exact (client p).owns_owner startedAt

theorem releases_of_runs {c : Config ι (Disk Unit) LockCall}
    (h : Runs (ticketLockStep client) ReleaseCallsWork (beforeCalls ι disk) c) (p : ι)
    {outcome : LockOutcome} (hmem : outcome ∈ (c.loc p).outcomes) : outcome.unreleased = false := by
  have hall : LockInv client c ∧ ∀ p, ∀ outcome ∈ (c.loc p).outcomes, outcome.unreleased = false := by
    apply Runs.invariant
      (fun c => LockInv client c ∧ ∀ p, ∀ outcome ∈ (c.loc p).outcomes, outcome.unreleased = false) h
    · exact ⟨beforeCalls_inv client disk, fun _ _ hnil => by cases hnil⟩
    · intro d q answer r hinv hworks hstep
      refine ⟨hinv.1.step hstep, ?_⟩
      intro q' outcome houtcome
      by_cases hq : q' = q
      · subst hq
        rw [Config.put_loc, Function.update_self] at houtcome
        obtain hold | hfine := ticketLockStep_outcomes hstep (hinv.1.owned _) hworks houtcome
        · exact hinv.2 _ outcome hold
        · exact hfine
      · rw [Config.put_loc, Function.update_of_ne hq] at houtcome
        exact hinv.2 q' outcome houtcome
  exact hall.2 p outcome hmem

/-- At most one client holds the lock; nobody touches the directory of another, and what a release
removes is the directory its client made, with the client's own owner file; and every holder can
release: undisturbed it does, and no release of any run whose calls work comes back without. -/
theorem ticketLock_safe (client : ι → LockClient ν) (disk : Disk Unit) :
    (∀ c, Runs (ticketLockStep client) (fun _ _ _ => True) (beforeCalls ι disk) c →
      (∀ p q, (c.loc p).point.holds = true → (c.loc q).point.holds = true → p = q) ∧
      (∀ p answer r folder, ticketLockStep client p answer c.shared (c.loc p) = some r →
        c.shared.folders ticketLock = some folder → r.1.folders ticketLock ≠ some folder →
        (c.loc p).point.claim = some folder.ino) ∧
      (∀ p dir startedAt, (c.loc p).point = .removing dir startedAt →
        c.shared.inoAt ticketLock = some dir ∧
        ∀ owner, readLockMetadata c.shared = some owner → (client p).owns startedAt owner = true) ∧
      ∀ p dir startedAt, (c.loc p).point = .held dir startedAt →
        ∃ d, Runs (ticketLockStep client) (ReleasesAlone p) c d ∧
          (d.loc p).point = .idle ∧ (d.loc p).outcomes = .released :: (c.loc p).outcomes ∧
          d.shared.folders ticketLock = none) ∧
    ∀ c, Runs (ticketLockStep client) ReleaseCallsWork (beforeCalls ι disk) c →
      ∀ p, ∀ outcome ∈ (c.loc p).outcomes, outcome.unreleased = false := by
  refine ⟨fun c hc => ?_, fun c hc p outcome => releases_of_runs hc p⟩
  have hinv := lockInv_of_runs hc
  refine ⟨?_, fun p answer r folder => hinv.changes_own, fun p dir startedAt => hinv.removes_own,
    fun p dir startedAt hp => released_alone hp (hinv.owned p)⟩
  intro p q hp hq
  obtain ⟨dir, hdir⟩ := claim_of_holds hp
  obtain ⟨dir', hdir'⟩ := claim_of_holds hq
  exact hinv.exclusive.one hdir hdir'

end Adlc.Tickets
