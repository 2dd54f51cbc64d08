import Adlc.Framework.CrashSafety
import Adlc.Tickets.Transaction

namespace Adlc.Tickets

open Adlc.Framework Program

variable {ν : Type} [JsNumber ν]

/-! ## Calls of the file system, by what they leave -/

section Calls

variable {faults : Prop} {C : Repo → Prop} {α : Type} {Q : Except TicketStoreError α → Repo → Prop}
  {repo : Repo} {place source target : Place} {bytes : Bytes}

theorem file_put_eq (repo : Repo) (p : Place) (bytes : Bytes) :
    (repo.put p bytes).file = Function.update repo.file p (some bytes) := by
  funext q
  by_cases h : q = p
  · rw [h, file_put, Function.update_self]
  · rw [file_put_ne bytes h, Function.update_of_ne h]

theorem file_erase_eq (repo : Repo) (p : Place) :
    (repo.erase p).file = Function.update repo.file p none := by
  funext q
  by_cases h : q = p
  · rw [h, file_erase, Function.update_self]
  · rw [file_erase_ne h, Function.update_of_ne h]

theorem safe_fileExists {Q : Except TicketStoreError Bool → Repo → Prop} (hC : C repo)
    (hok : Q (.ok (repo.file place).isSome) repo) (hfault : faults → ∀ e, Q (.error e) repo) :
    (fileExists place).Safe faults C Q repo := safe_atomic hC hC hok hfault

theorem safe_readFile {Q : Except TicketStoreError Bytes → Repo → Prop} (hC : C repo)
    (hok : ∀ bytes, repo.file place = some bytes → Q (.ok bytes) repo)
    (hmissing : repo.file place = none → Q (.error noSuchFile) repo)
    (hfault : faults → ∀ e, Q (.error e) repo) : (readFile place).Safe faults C Q repo := by
  cases hfile : repo.file place with
  | none =>
    refine safe_atomic hC ?_ ?_ hfault <;> simp only [hfile]
    · exact hC
    · exact hmissing hfile
  | some bytes =>
    refine safe_atomic hC ?_ ?_ hfault <;> simp only [hfile]
    · exact hC
    · exact hok bytes hfile

theorem safe_fileHash {Q : Except TicketStoreError JsString → Repo → Prop} (hC : C repo)
    (hok : ∀ bytes, repo.file place = some bytes → Q (.ok (sha256Hex bytes)) repo)
    (hmissing : repo.file place = none → Q (.error noSuchFile) repo)
    (hfault : faults → ∀ e, Q (.error e) repo) : (fileHash place).Safe faults C Q repo :=
  safe_bind (safe_readFile hC (fun bytes h => safe_pure hC (hok bytes h)) hmissing hfault)

variable {Q : Except TicketStoreError Unit → Repo → Prop}

theorem safe_writeFile (hC : C repo) (hC' : C (repo.put place bytes))
    (hok : Q (.ok ()) (repo.put place bytes))
    (hmissing : (repo.dirs place.dir).isSome = false → Q (.error noSuchFile) repo)
    (hfault : faults → ∀ e, Q (.error e) repo) : (writeFile place bytes).Safe faults C Q repo := by
  by_cases hdir : (repo.dirs place.dir).isSome = true
  · refine safe_atomic hC ?_ ?_ hfault <;> simp only [hdir, if_true]
    · exact hC'
    · exact hok
  · refine safe_atomic hC ?_ ?_ hfault <;> simp only [hdir]
    · exact hC
    · exact hmissing (Bool.not_eq_true _ ▸ hdir)

/-- A file is written in two steps, between which it is empty. -/
theorem safe_durableWrite (hC : C repo) (hempty : C (repo.put place [])) (hfull : C (repo.put place bytes))
    (hok : Q (.ok ()) (repo.put place bytes))
    (hmissing : (repo.dirs place.dir).isSome = false → Q (.error noSuchFile) repo)
    (hfault : faults → ∀ e s, C s → Q (.error e) s) : (durableWrite place bytes).Safe faults C Q repo := by
  have hdir : (((repo.put place []).dirs place.dir).isSome) = true := by
    rw [Repo.put, dirs_setDir]
    rfl
  refine safe_bind (safe_writeFile hC hempty ?_ hmissing fun hf e => hfault hf e repo hC)
  refine safe_writeFile hempty ?_ ?_ (fun hno => ?_) fun hf e => hfault hf e _ hempty
  · rw [put_put]
    exact hfull
  · rw [put_put]
    exact hok
  · rw [hdir] at hno
    cases hno

theorem safe_durableRename (hC : C repo) (hsource : repo.file source = some bytes)
    (hC' : C ((repo.erase source).put target bytes)) (hok : Q (.ok ()) ((repo.erase source).put target bytes))
    (hmissing : (repo.dirs target.dir).isSome = false → Q (.error noSuchFile) repo)
    (hfault : faults → ∀ e, Q (.error e) repo) : (durableRename source target).Safe faults C Q repo := by
  by_cases hdir : (repo.dirs target.dir).isSome = true
  · refine safe_atomic hC ?_ ?_ hfault <;> simp only [hsource, hdir, if_true]
    · exact hC'
    · exact hok
  · refine safe_atomic hC ?_ ?_ hfault <;> simp only [hsource, hdir]
    · exact hC
    · exact hmissing (Bool.not_eq_true _ ▸ hdir)

theorem safe_removeIfThere (hC : C repo) (hC' : C (repo.erase place)) (hok : Q (.ok ()) (repo.erase place))
    (hnone : repo.file place = none → Q (.ok ()) repo) (hfault : faults → ∀ e, Q (.error e) repo) :
    (removeIfThere place).Safe faults C Q repo := by
  refine safe_bind (safe_fileExists hC ?_ hfault)
  cases hfile : repo.file place with
  | none => exact safe_pure hC (hnone hfile)
  | some bytes =>
    show (durableRemove place).Safe faults C Q repo
    refine safe_atomic hC ?_ ?_ hfault <;> simp only [hfile, Option.isSome_some, if_true]
    · exact hC'
    · exact hok

/-- A copy takes the place of a file in one step. -/
theorem safe_replaceBy {copy temporary : Place} (hcopy : repo.file copy = some bytes) (hC : C repo)
    (hempty : C (repo.put temporary [])) (hfull : C (repo.put temporary bytes))
    (hdir : temporary.dir = target.dir)
    (hC' : C (((repo.put temporary bytes).erase temporary).put target bytes))
    (hok : Q (.ok ()) (((repo.put temporary bytes).erase temporary).put target bytes))
    (hmissing : (repo.dirs target.dir).isSome = false → Q (.error noSuchFile) repo)
    (hfault : faults → ∀ e s, C s → Q (.error e) s) :
    (replaceBy copy temporary target).Safe faults C Q repo := by
  have hthere : ((repo.put temporary bytes).dirs target.dir).isSome = true := by
    rw [← hdir, Repo.put, dirs_setDir]
    rfl
  refine safe_bind (safe_bind (safe_readFile hC (fun found hfound => ?_) (fun hno => ?_)
    fun hf e => hfault hf e repo hC))
  · obtain rfl : bytes = found := Option.some.inj (hcopy.symm.trans hfound)
    refine safe_durableWrite hC hempty hfull ?_ (fun hno => hmissing (hdir ▸ hno)) hfault
    refine safe_durableRename hfull (file_put repo temporary bytes) hC' hok (fun hno => ?_)
      fun hf e => hfault hf e _ hfull
    rw [hthere] at hno
    cases hno
  · rw [hcopy] at hno
    cases hno

end Calls

/-! ## What a transaction plans -/

/-- A change of one file, and how the journal tells of it. -/
structure PlannedChange where
  role : Role
  filename : JsString
  key : JsString
  target : Place
  before : Option Bytes
  after : Option Bytes

def PlannedChange.change (id : JsString) (p : PlannedChange) : Change Place Bytes :=
  ⟨p.target, stagePlace id p.key, backupPlace id p.key, p.before, p.after⟩

def PlannedChange.operation (id : JsString) (p : PlannedChange) : Operation :=
  match p.after with
  | some bytes =>
    ⟨p.role, .write, p.filename, p.target, some (stagePlace id p.key),
      p.before.map fun _ => backupPlace id p.key, p.before.map sha256Hex, some (sha256Hex bytes)⟩
  | none =>
    ⟨p.role, .delete, p.filename, p.target, none, p.before.map fun _ => backupPlace id p.key,
      p.before.map sha256Hex, none⟩

@[simp] theorem operation_role (id : JsString) (p : PlannedChange) : (p.operation id).role = p.role := by
  unfold PlannedChange.operation
  split <;> rfl

@[simp] theorem operation_filename (id : JsString) (p : PlannedChange) :
    (p.operation id).filename = p.filename := by
  unfold PlannedChange.operation
  split <;> rfl

@[simp] theorem operation_target (id : JsString) (p : PlannedChange) : (p.operation id).target = p.target := by
  unfold PlannedChange.operation
  split <;> rfl

@[simp] theorem operation_backup (id : JsString) (p : PlannedChange) :
    (p.operation id).backup = p.before.map fun _ => backupPlace id p.key := by
  unfold PlannedChange.operation
  split <;> rfl

@[simp] theorem operation_beforeHash (id : JsString) (p : PlannedChange) :
    (p.operation id).beforeHash = p.before.map sha256Hex := by
  unfold PlannedChange.operation
  split <;> rfl

/-- The shard of a ticket is written, unless it holds the ticket's text already. -/
def planTicket (repo : Repo) (entry : JsString × Json ν) : List PlannedChange :=
  match prettyCanonicalJson entry.2 with
  | .error _ => []
  | .ok text =>
    if (repo.file (shardPlace entry.1)).map utf8Decode = some text then []
    else [⟨.ticket, entry.1, entry.1, shardPlace entry.1, repo.file (shardPlace entry.1),
      some (utf8Encode text)⟩]

def planDeletion (repo : Repo) (filename : JsString) : List PlannedChange :=
  [⟨.ticket, filename, filename, shardPlace filename, repo.file (shardPlace filename), none⟩]

def planAuxiliary (repo : Repo) (root : Path) (entry : AuxiliaryOperation × Nat) : List PlannedChange :=
  let (aux, index) := entry
  let target := locate root (resolve root aux.path)
  [⟨.auxiliary, joinPath ((resolve root aux.path).drop root.length), auxiliaryKey index, target,
    repo.file target,
    match aux.action with
    | .write => some (utf8Encode aux.content)
    | .delete => none⟩]

def transactionPlan [Unicode] (repo : Repo) (root : Path) (before : TicketSnapshot ν) (tickets : List (Json ν))
    (auxiliaries : List AuxiliaryOperation) : List PlannedChange :=
  (byFilename tickets).flatMap (planTicket repo) ++ (obsoleteFilenames before tickets).flatMap (planDeletion repo) ++
    auxiliaries.zipIdx.flatMap (planAuxiliary repo root)

/-! ## Staging -/

/-- Nothing but the transaction's own files, and the lock, is changed. -/
def OthersKept (id : JsString) (s0 s : Repo) : Prop := ∀ d, d.belongsTo id = false → s.dirs d = s0.dirs d

variable {id : JsString} {s0 s : Repo}

theorem OthersKept.setDir (h : OthersKept id s0 s) {d : Directory} (hd : d.belongsTo id = true) (dir : Option Dir) :
    OthersKept id s0 (s.setDir d dir) := by
  intro e he
  have hne : e ≠ d := by
    rintro rfl
    rw [hd] at he
    cases he
  rw [dirs_setDir_ne dir hne]
  exact h e he

theorem OthersKept.file (h : OthersKept id s0 s) {p : Place} (hp : p.dir.belongsTo id = false) : s.file p = s0.file p := by
  rw [Repo.file, h p.dir hp, Repo.file]

/-- None of the transaction's directories is there. -/
def Gone (id : JsString) (s : Repo) : Prop := ∀ d, d.belongsTo id = true → s.dirs d = none

/-- There is no journal yet. -/
structure Staging (id : JsString) (s0 s : Repo) : Prop where
  kept : OthersKept id s0 s
  unjournaled : s.file (journalPlace id) = none
  housed : s.dirs (.transaction id) = none → Gone id s

theorem Staging.put (h : Staging id s0 s) (hmade : (s.dirs (.transaction id)).isSome = true) {p : Place}
    (hp : p.dir.belongsTo id = true) (hne : journalPlace id ≠ p) (bytes : Bytes) :
    Staging id s0 (s.put p bytes) where
  kept := h.kept.setDir hp _
  unjournaled := by
    rw [file_put_ne bytes hne]
    exact h.unjournaled
  housed hnone := by
    have hsome := dirs_put_isSome (p := p) bytes hmade
    rw [hnone] at hsome
    cases hsome

/-- The copies of some changes are in place. -/
structure Staged (id : JsString) (s0 : Repo) (done : List PlannedChange) (s : Repo) : Prop
    extends Staging id s0 s where
  made : (s.dirs (.transaction id)).isSome = true
  stage : (s.dirs (.stage id)).isSome = true
  backup : (s.dirs (.backup id)).isSome = true
  copied : Copied (done.map (PlannedChange.change id)) s.file

variable {done : List PlannedChange} {key : JsString}

theorem stage_own (id key : JsString) : (stagePlace id key).dir.belongsTo id = true := decide_eq_true rfl

theorem backup_own (id key : JsString) : (backupPlace id key).dir.belongsTo id = true := decide_eq_true rfl

theorem journal_own (id : JsString) : (journalPlace id).dir.belongsTo id = true := decide_eq_true rfl

theorem journal_ne_stage (id key : JsString) : journalPlace id ≠ stagePlace id key := by
  intro h
  cases congrArg Place.dir h

theorem journal_ne_backup (id key : JsString) : journalPlace id ≠ backupPlace id key := by
  intro h
  cases congrArg Place.dir h

theorem backup_ne_stage (id key key' : JsString) : backupPlace id key ≠ stagePlace id key' := by
  intro h
  cases congrArg Place.dir h

/-- A copy under a new key leaves the others alone. -/
theorem Staged.putStage (h : Staged id s0 done s) (hkey : key ∉ done.map PlannedChange.key) (bytes : Bytes) :
    Staged id s0 done (s.put (stagePlace id key) bytes) where
  toStaging := h.toStaging.put h.made (stage_own id key) (journal_ne_stage id key) bytes
  made := dirs_put_isSome bytes h.made
  stage := dirs_put_isSome bytes h.stage
  backup := dirs_put_isSome bytes h.backup
  copied := by
    rw [file_put_eq]
    refine h.copied.update ?_ _
    intro c hc
    obtain ⟨p, hp, rfl⟩ := List.mem_map.mp hc
    refine ⟨?_, (backup_ne_stage id p.key key).symm⟩
    intro e
    exact hkey (List.mem_map.mpr ⟨p, hp, (congrArg Place.name e).symm⟩)

theorem Staged.putBackup (h : Staged id s0 done s) (hkey : key ∉ done.map PlannedChange.key) (bytes : Bytes) :
    Staged id s0 done (s.put (backupPlace id key) bytes) where
  toStaging := h.toStaging.put h.made (backup_own id key) (journal_ne_backup id key) bytes
  made := dirs_put_isSome bytes h.made
  stage := dirs_put_isSome bytes h.stage
  backup := dirs_put_isSome bytes h.backup
  copied := by
    rw [file_put_eq]
    refine h.copied.update ?_ _
    intro c hc
    obtain ⟨p, hp, rfl⟩ := List.mem_map.mp hc
    refine ⟨backup_ne_stage id key p.key, ?_⟩
    intro e
    exact hkey (List.mem_map.mpr ⟨p, hp, (congrArg Place.name e).symm⟩)

theorem Staged.concat (h : Staged id s0 done s) (p : PlannedChange)
    (hstage : ∀ b, p.after = some b → s.file (stagePlace id p.key) = some b)
    (hbackup : ∀ b, p.before = some b → s.file (backupPlace id p.key) = some b) :
    Staged id s0 (done ++ [p]) s where
  toStaging := h.toStaging
  made := h.made
  stage := h.stage
  backup := h.backup
  copied := by
    constructor
    · intro c hc b hb
      rw [List.map_append] at hc
      obtain hc | hc := List.mem_append.mp hc
      · exact h.copied.staged c hc b hb
      · obtain rfl := List.mem_singleton.mp hc
        exact hstage b hb
    · intro c hc b hb
      rw [List.map_append] at hc
      obtain hc | hc := List.mem_append.mp hc
      · exact h.copied.backed c hc b hb
      · obtain rfl := List.mem_singleton.mp hc
        exact hbackup b hb

/-- What a step of the staging ends with, if it does not throw. -/
abbrev EndsIn {α : Type} (good : α → Repo → Prop) : Except TicketStoreError α → Repo → Prop :=
  Ending good fun _ _ => True

variable {faults : Prop} {target : Place}

/-- The repository with a copy of the file, if it is there. -/
def backedUp (id key : JsString) (target : Place) (s : Repo) : Repo :=
  match s.file target with
  | none => s
  | some bytes => s.put (backupPlace id key) bytes

theorem Staged.backedUp (h : Staged id s0 done s) (hkey : key ∉ done.map PlannedChange.key) (target : Place) :
    Staged id s0 done (backedUp id key target s) := by
  unfold Tickets.backedUp
  split
  · exact h
  · exact h.putBackup hkey _

theorem file_backedUp {bytes : Bytes} (h : s.file target = some bytes) :
    (backedUp id key target s).file (backupPlace id key) = some bytes := by
  rw [backedUp, h]
  exact file_put _ _ _

theorem file_backedUp_stage (id key key' : JsString) (target : Place) (s : Repo) :
    (backedUp id key target s).file (stagePlace id key') = s.file (stagePlace id key') := by
  unfold backedUp
  split
  · rfl
  · exact file_put_ne _ (backup_ne_stage id key key').symm

/-- The copy of a file that is there. -/
theorem copyToBackup_safe (h : Staged id s0 done s) (hkey : key ∉ done.map PlannedChange.key) :
    (durableCopy target (backupPlace id key)).Safe faults (Staging id s0)
      (EndsIn fun _ s' => (s.file target).isSome = true ∧ s' = backedUp id key target s) s := by
  refine safe_bind (safe_readFile h.toStaging (fun bytes hbytes => ?_) (fun _ => trivial) fun _ _ => trivial)
  refine safe_durableWrite h.toStaging (h.putBackup hkey []).toStaging (h.putBackup hkey bytes).toStaging
    ?_ (fun _ => trivial) fun _ _ _ _ => trivial
  refine ⟨by rw [hbytes]; rfl, ?_⟩
  rw [backedUp, hbytes]

/-- What a backup leaves, whether there is a file to back up or not. -/
theorem copyIfThere_safe (h : Staged id s0 done s) (hkey : key ∉ done.map PlannedChange.key) :
    (when ((s.file target).map sha256Hex).isSome (durableCopy target (backupPlace id key))).Safe faults
      (Staging id s0) (EndsIn fun _ s' => s' = backedUp id key target s) s := by
  rw [Option.isSome_map]
  refine safe_when (fun _ => (copyToBackup_safe h hkey).post ?_) fun hnone => ?_
  · rintro (e | u) s' - hend
    · trivial
    · exact hend.2
  · rw [Option.isSome_eq_false_iff, Option.isNone_iff_eq_none] at hnone
    refine ⟨h.toStaging, ?_⟩
    show s = _
    rw [backedUp, hnone]

/-- The hash of a copy is that of the file. -/
theorem hashOfBackup_safe (h : Staged id s0 done s) (hkey : key ∉ done.map PlannedChange.key)
    (hthere : (s.file target).isSome = true) :
    (fileHash (backupPlace id key)).Safe faults (Staging id s0)
      (EndsIn fun hash s' => some hash = (s.file target).map sha256Hex ∧ s' = backedUp id key target s)
      (backedUp id key target s) := by
  obtain ⟨bytes, hbytes⟩ := Option.isSome_iff_exists.mp hthere
  refine safe_fileHash (h.backedUp hkey target).toStaging (fun copy hcopy => ?_) (fun _ => trivial)
    fun _ _ => trivial
  obtain rfl : bytes = copy := Option.some.inj ((file_backedUp hbytes).symm.trans hcopy)
  exact ⟨by rw [hbytes]; rfl, rfl⟩

theorem backUp_safe (h : Staged id s0 done s) (hkey : key ∉ done.map PlannedChange.key) :
    (backUp id key target).Safe faults (Staging id s0)
      (EndsIn fun hash s' => hash = (s.file target).map sha256Hex ∧ s' = backedUp id key target s) s := by
  refine safe_bind (safe_fileExists h.toStaging ?_ fun _ _ => trivial)
  by_cases hthere : (s.file target).isSome = true
  · simp only [hthere, Then, if_true]
    refine safe_seq (copyToBackup_safe h hkey) (fun _ s' _ hend => ?_) fun _ _ _ _ => trivial
    obtain ⟨-, rfl⟩ := hend
    refine safe_seq (hashOfBackup_safe h hkey hthere) (fun hash s' hs' hend => ?_) fun _ _ _ _ => trivial
    exact safe_pure hs' hend
  · simp only [hthere, Then]
    rw [Bool.not_eq_true, Option.isSome_eq_false_iff, Option.isNone_iff_eq_none] at hthere
    refine safe_pure h.toStaging ⟨by rw [hthere]; rfl, ?_⟩
    rw [backedUp, hthere]

theorem safe_holdsText {C : Repo → Prop} {Q : Except TicketStoreError Bool → Repo → Prop} (hC : C s)
    (text : JsString) (hok : Q (.ok (decide ((s.file target).map utf8Decode = some text))) s)
    (hfault : ∀ e, Q (.error e) s) : (holdsText target text).Safe faults C Q s := by
  refine safe_bind (safe_fileExists hC ?_ fun _ => hfault)
  cases hfile : s.file target with
  | none =>
    rw [hfile] at hok
    exact safe_pure hC hok
  | some bytes =>
    refine safe_bind (safe_readFile hC (fun found hfound => ?_) (fun _ => hfault _) fun _ => hfault)
    obtain rfl : bytes = found := Option.some.inj (hfile.symm.trans hfound)
    rw [hfile] at hok
    simp only [Option.map_some, Option.some.injEq] at hok
    exact safe_pure hC hok

/-- The staging of some changes: their operations, and their copies beside the earlier ones. -/
def Stages (id : JsString) (s0 : Repo) (done changes : List PlannedChange) (operations : List Operation)
    (s : Repo) : Prop :=
  operations = changes.map (PlannedChange.operation id) ∧ Staged id s0 (done ++ changes) s

theorem stageTicket_stages {filename : JsString} (ticket : Json ν) (h : Staged id s0 done s)
    (hkey : filename ∉ done.map PlannedChange.key) :
    (stageTicket id filename ticket).Safe faults (Staging id s0)
      (EndsIn (Stages id s0 done (planTicket s0 (filename, ticket)))) s := by
  have htarget : s.file (shardPlace filename) = s0.file (shardPlace filename) := h.kept.file rfl
  unfold stageTicket planTicket
  refine safe_bind (safe_lift h.toStaging ?_)
  cases prettyCanonicalJson ticket with
  | error e => trivial
  | ok text =>
    refine safe_bind (safe_holdsText h.toStaging text ?_ fun _ => trivial)
    rw [htarget]
    by_cases hsame : (s0.file (shardPlace filename)).map utf8Decode = some text
    · simp only [hsame, decide_true, if_true]
      exact safe_pure h.toStaging ⟨rfl, by rw [List.append_nil]; exact h⟩
    · simp only [hsame, decide_false]
      have hstaged := h.putStage hkey (utf8Encode text)
      refine safe_bind (safe_durableWrite h.toStaging (h.putStage hkey []).toStaging hstaged.toStaging
        ?_ (fun _ => trivial) fun _ _ _ _ => trivial)
      refine safe_seq (backUp_safe hstaged hkey) (fun hash s' hs' hend => ?_) fun _ _ _ _ => trivial
      have hsame' : (s.put (stagePlace id filename) (utf8Encode text)).file (shardPlace filename) =
          s0.file (shardPlace filename) := hstaged.kept.file rfl
      obtain ⟨rfl, rfl⟩ := hend
      refine safe_pure hs' ⟨?_, (hstaged.backedUp hkey _).concat _ (fun b hb => ?_) fun b hb => ?_⟩
      · rw [hsame']
        simp only [writeOperation, Option.map_map]
        rfl
      · obtain rfl := Option.some.inj hb
        rw [file_backedUp_stage]
        exact file_put _ _ _
      · exact file_backedUp (hsame'.trans hb)

theorem stageDeletion_stages {filename : JsString} (h : Staged id s0 done s)
    (hkey : filename ∉ done.map PlannedChange.key) :
    (stageDeletion id filename).Safe faults (Staging id s0)
      (EndsIn (Stages id s0 done (planDeletion s0 filename))) s := by
  have htarget : s.file (shardPlace filename) = s0.file (shardPlace filename) := h.kept.file rfl
  refine safe_seq (copyToBackup_safe h hkey) (fun _ s' _ hend => ?_) fun _ _ _ _ => trivial
  obtain ⟨hthere, rfl⟩ := hend
  refine safe_seq (hashOfBackup_safe h hkey hthere) (fun hash s' hs' hend => ?_) fun _ _ _ _ => trivial
  obtain ⟨hhash, rfl⟩ := hend
  refine safe_pure hs' ⟨?_, (h.backedUp hkey _).concat _ (fun b hb => ?_) fun b hb => ?_⟩
  · rw [hhash, htarget]
    simp only [deleteOperation, Option.map_map]
    rfl
  · cases hb
  · exact file_backedUp (htarget.trans hb)

theorem safe_hashIfThere {C : Repo → Prop} {Q : Except TicketStoreError (Option JsString) → Repo → Prop}
    (hC : C s) (hok : Q (.ok ((s.file target).map sha256Hex)) s) (hfault : ∀ e, Q (.error e) s) :
    (hashIfThere target).Safe faults C Q s := by
  refine safe_bind (safe_fileExists hC ?_ fun _ => hfault)
  cases hfile : s.file target with
  | none =>
    rw [hfile] at hok
    exact safe_pure hC hok
  | some bytes =>
    refine safe_bind (safe_fileHash hC (fun found hfound => ?_) (fun _ => hfault _) fun _ => hfault)
    obtain rfl : bytes = found := Option.some.inj (hfile.symm.trans hfound)
    rw [hfile] at hok
    exact safe_pure hC hok

theorem stageAuxiliary_stages {root : Path} (entry : AuxiliaryOperation × Nat) (h : Staged id s0 done s)
    (houtside : (locate root (resolve root entry.1.path)).dir.belongsTo id = false)
    (hkey : auxiliaryKey entry.2 ∉ done.map PlannedChange.key) :
    (stageAuxiliary root id entry).Safe faults (Staging id s0)
      (EndsIn (Stages id s0 done (planAuxiliary s0 root entry))) s := by
  obtain ⟨aux, index⟩ := entry
  unfold stageAuxiliary planAuxiliary
  dsimp only at houtside hkey ⊢
  generalize locate root (resolve root aux.path) = place at houtside
  generalize joinPath ((resolve root aux.path).drop root.length) = text
  have hplace : s.file place = s0.file place := h.kept.file houtside
  by_cases hinside : (!isWithin root (resolve root aux.path)) = true
  · rw [if_pos hinside]
    exact safe_fail h.toStaging trivial
  rw [if_neg hinside]
  refine safe_seq (safe_hashIfThere h.toStaging (show EndsIn (fun hash s' =>
    hash = (s.file place).map sha256Hex ∧ s = s') _ s from ⟨rfl, rfl⟩) fun _ => trivial)
    (fun hash s' hs' hend => ?_) fun _ _ _ _ => trivial
  obtain ⟨rfl, rfl⟩ := hend
  refine safe_bind (safe_lift h.toStaging ?_)
  cases checkAuxiliary aux text ((s.file place).map sha256Hex) with
  | error e => trivial
  | ok u =>
    refine safe_seq (copyIfThere_safe h hkey) (fun _ s' hs' hend => ?_) fun _ _ _ _ => trivial
    obtain rfl := hend
    have hstaged := h.backedUp hkey place
    have hback : ∀ b, s0.file place = some b →
        (backedUp id (auxiliaryKey index) place s).file (backupPlace id (auxiliaryKey index)) = some b :=
      fun b hb => file_backedUp (hplace.trans hb)
    cases haction : aux.action with
    | delete =>
      refine safe_pure hs' ⟨?_, hstaged.concat _ (fun b hb => ?_) hback⟩
      · rw [hplace]
        simp only [deleteOperation, Option.map_map]
        rfl
      · cases hb
    | write =>
      have hwritten := hstaged.putStage hkey (utf8Encode aux.content)
      refine safe_bind (safe_durableWrite hs' (hstaged.putStage hkey []).toStaging
        hwritten.toStaging ?_ (fun _ => trivial) fun _ _ _ _ => trivial)
      refine safe_pure hwritten.toStaging ⟨?_, hwritten.concat _ (fun b hb => ?_) fun b hb => ?_⟩
      · rw [hplace]
        simp only [writeOperation, Option.map_map]
        rfl
      · obtain rfl := Option.some.inj hb
        exact file_put _ _ _
      · rw [file_put_ne _ (backup_ne_stage id _ _)]
        exact hback b hb

/-- A loop of the staging does what its steps do, under keys of their own. -/
theorem stageAll_stages {ι : Type} {stage : ι → Script (List Operation)} {plan : ι → List PlannedChange}
    (keyOf : ι → JsString) (hplan : ∀ item, ∀ p ∈ plan item, p.key = keyOf item) {items : List ι}
    (hstage : ∀ item ∈ items, ∀ done s, Staged id s0 done s → keyOf item ∉ done.map PlannedChange.key →
      (stage item).Safe faults (Staging id s0) (EndsIn (Stages id s0 done (plan item))) s)
    (hnodup : (items.map keyOf).Nodup)
    (hkeys : ∀ item ∈ items, keyOf item ∉ done.map PlannedChange.key) (h : Staged id s0 done s) :
    (stageAll stage items).Safe faults (Staging id s0) (EndsIn (Stages id s0 done (items.flatMap plan))) s := by
  induction items generalizing done s with
  | nil => exact safe_pure h.toStaging ⟨rfl, by rw [List.flatMap_nil, List.append_nil]; exact h⟩
  | cons item items ih =>
    obtain ⟨hnot, hrest⟩ := List.nodup_cons.mp hnodup
    refine safe_seq (hstage item List.mem_cons_self done s h (hkeys item List.mem_cons_self))
      (fun operations s' _ hend => ?_) fun _ _ _ _ => trivial
    obtain ⟨hoperations, hstaged⟩ := hend
    have hnew : ∀ other ∈ items, keyOf other ∉ (done ++ plan item).map PlannedChange.key := by
      intro other hother hmem
      obtain ⟨p, hp, hkey⟩ := List.mem_map.mp hmem
      obtain hp | hp := List.mem_append.mp hp
      · exact hkeys other (List.mem_cons_of_mem _ hother) (List.mem_map.mpr ⟨p, hp, hkey⟩)
      · exact hnot (List.mem_map.mpr ⟨other, hother, hkey.symm.trans (hplan item p hp)⟩)
    refine safe_seq (ih (fun other hother => hstage other (List.mem_cons_of_mem _ hother)) hrest hnew hstaged)
      (fun more s'' hs hend => ?_) fun _ _ _ _ => trivial
    obtain ⟨hmore, hall⟩ := hend
    refine safe_pure hs ⟨?_, ?_⟩
    · rw [hoperations, hmore, List.flatMap_cons, List.map_append]
    · rw [List.flatMap_cons, ← List.append_assoc]
      exact hall

end Adlc.Tickets
