import Adlc.Framework.CommitGraph
import Adlc.Fleet.Run
import Adlc.Tickets.Filename

namespace Adlc.Fleet

open Adlc.Framework Adlc.Tickets

/-! ## The repository -/

/-- The commits of a repository, those below `commits`, and the tips of its branches. -/
structure Repo where
  graph : CommitGraph
  commits : Nat
  branches : JsString → Option Nat

/-- `git merge-base --is-ancestor branch ref`, which fails where either is missing. -/
def Repo.isAncestor (repo : Repo) (branch : JsString) (ref : Option JsString) : Bool :=
  match repo.branches branch, ref.bind repo.branches with
  | some tip, some head => repo.graph.isAncestor tip head
  | _, _ => false

def isSafeIdUnit (c : UInt16) : Bool :=
  (js "ABCDEFGHIJKLMNOPQRSTUVWXYZabcdefghijklmnopqrstuvwxyz0123456789._-").contains c

/-- `SAFE_TICKET_ID_RE` -/
def isSafeTicketId (id : JsString) : Bool := !id.isEmpty && id.all isSafeIdUnit

/-- `git worktree add -b branch path sha` -/
def Repo.cut (repo : Repo) (branch : JsString) (sha : Nat) : Repo :=
  { repo with branches := fun b => if b = branch then some sha else repo.branches b }

section Worktrees

variable [Unicode]

/-- `fleet/${id.toLowerCase()}` -/
def fleetBranch (id : JsString) : JsString := js "fleet/" ++ Unicode.toLowerCase id

structure Worktree where
  branch : JsString
  startSha : Nat
  deriving DecidableEq

/-- The ticket's branch is cut anew from the tip of the integration branch. The integration branch
itself is checked out, and git does not cut it again. -/
def createWorktree (repo : Repo) (id integrationBranch : JsString) : Option (Repo × Worktree) :=
  if !isSafeTicketId id then none
  else
    (repo.branches integrationBranch).bind fun startSha =>
      if fleetBranch id = integrationBranch then none
      else some (repo.cut (fleetBranch id) startSha, ⟨fleetBranch id, startSha⟩)

/-! ## The recorded status -/

/-- What `fleet-status.json` holds of a ticket. -/
structure StatusRecord extends TicketRecord where
  branch : Option JsString
  startSha : Option Nat
  deriving DecidableEq

abbrev StatusRecords := AList fun _ : JsString => StatusRecord

structure Status where
  integrationBranch : Option JsString
  baseSha : Option Nat
  tickets : StatusRecords

def StatusRecord.branchOf (record : StatusRecord) (id : JsString) : JsString :=
  record.branch.getD (fleetBranch id)

def StatusRecord.reconcile (isAncestor : JsString → Option JsString → Bool)
    (target : Option JsString) (id : JsString) (record : StatusRecord) : StatusRecord :=
  match record.state with
  | .merged | .failed | .blocked => record
  | _ =>
    { record with
      state := if isAncestor (record.branchOf id) target then .merged else .pending }

theorem nodupKeys_statusReconcile (isAncestor : JsString → Option JsString → Bool)
    (target : Option JsString) (records : StatusRecords) :
    (records.entries.map fun e =>
      (⟨e.1, e.2.reconcile isAncestor target e.1⟩ : Sigma fun _ => StatusRecord)).NodupKeys := by
  have hkeys : (records.entries.map fun e =>
      (⟨e.1, e.2.reconcile isAncestor target e.1⟩ : Sigma fun _ => StatusRecord)).keys =
        records.entries.keys := by
    simp [List.keys]
  rw [List.NodupKeys, hkeys]
  exact records.nodupKeys

/-- `reconcileResume(all, status, { isAncestor, integrationBranch })` -/
def Status.reconcileResume (status : Status) (isAncestor : JsString → Option JsString → Bool)
    (integrationBranch : Option JsString) : Status :=
  let target := integrationBranch.or status.integrationBranch
  { status with
    tickets := ⟨status.tickets.entries.map fun e => ⟨e.1, e.2.reconcile isAncestor target e.1⟩,
      nodupKeys_statusReconcile isAncestor target status.tickets⟩ }

/-- Why a run is not resumed. -/
inductive Refusal where
  | noIntegrationBranch
  | integrationBranchMissing (branch : JsString)
  | baseShaGone (sha : Nat)
  deriving DecidableEq

inductive Resumed where
  | nothing
  | refused (why : Refusal)
  | resumed (status : Status)

/-- `reconcileRun`. What it aborts and prunes moves no branch. -/
def reconcileRun (repo : Repo) (status : Option Status) : Resumed :=
  match status with
  | none => .nothing
  | some status =>
    match status.integrationBranch with
    | none | some [] => .refused .noIntegrationBranch
    | some ib =>
      if repo.branches ib = none then .refused (.integrationBranchMissing ib)
      else
        match status.baseSha.filter fun sha => decide (repo.commits ≤ sha) with
        | some sha => .refused (.baseShaGone sha)
        | none => .resumed (status.reconcileResume repo.isAncestor (some ib))

/-! ## In the run of a fleet -/

/-- What `runFleet` reads of the records. -/
def StatusRecords.forget (records : StatusRecords) : TicketRecords :=
  ⟨records.entries.map fun e => ⟨e.1, e.2.toTicketRecord⟩, by
    have hkeys : (records.entries.map fun e =>
        (⟨e.1, e.2.toTicketRecord⟩ : Sigma fun _ => TicketRecord)).keys = records.entries.keys := by
      simp [List.keys]
    rw [List.NodupKeys, hkeys]
    exact records.nodupKeys⟩

omit [Unicode] in
theorem lookup_of_mem {records : StatusRecords} {e : Sigma fun _ : JsString => StatusRecord}
    (h : e ∈ records.entries) : records.lookup e.1 = some e.2 :=
  AList.mem_lookup_iff.2 h

/-- A run of the fleet is resumed from what is reconciled here. -/
theorem forget_reconcileResume (status : Status)
    (isAncestor : JsString → Option JsString → Bool) (ib : Option JsString) :
    StatusRecords.forget (status.reconcileResume isAncestor ib).tickets =
      Fleet.reconcileResume (fun id => (status.tickets.lookup id).any fun record =>
        isAncestor (record.branchOf id) (ib.or status.integrationBranch))
        (StatusRecords.forget status.tickets) := by
  apply AList.ext
  simp only [StatusRecords.forget, Status.reconcileResume, Fleet.reconcileResume, List.map_map]
  apply List.map_congr_left
  intro e he
  have hlookup := lookup_of_mem he
  simp only [Function.comp_apply, reconcileEntry, hlookup, Option.any_some]
  congr 1
  unfold StatusRecord.reconcile reconcileRecord
  cases e.2.state <;> rfl

/-! ## What is marked merged -/

/-- `reconcileResume` itself marks the ticket: it was not merged before. -/
def Status.marks (status : Status) (repo : Repo) (ib : Option JsString) (id : JsString) : Prop :=
  ∃ before after, status.tickets.lookup id = some before ∧ before.state ≠ .merged ∧
    (status.reconcileResume repo.isAncestor ib).tickets.lookup id = some after ∧
    after.state = .merged

/-- A ticket's work landed: its branch has a commit that the recorded start has not, and the
integration branch has its tip. -/
def Status.landed (status : Status) (repo : Repo) (ib : Option JsString) (id : JsString) : Prop :=
  ∃ record start tip head, status.tickets.lookup id = some record ∧
    record.startSha = some start ∧ repo.branches (record.branchOf id) = some tip ∧
    (ib.or status.integrationBranch).bind repo.branches = some head ∧
    (∃ c, repo.graph.Ancestor c tip ∧ ¬repo.graph.Ancestor c start) ∧ repo.graph.Ancestor tip head

/-- The record is one that a resume decides on. -/
def StatusRecord.undecided (record : StatusRecord) : Prop :=
  record.state ≠ .merged ∧ record.state ≠ .failed ∧ record.state ≠ .blocked

/-- The branch has left the history of its recorded start. -/
def StatusRecord.movedOn (record : StatusRecord) (repo : Repo) (id : JsString) : Prop :=
  ∃ start tip, record.startSha = some start ∧ repo.branches (record.branchOf id) = some tip ∧
    ¬repo.graph.Ancestor tip start

omit [Unicode] in
theorem isAncestor_eq_true {repo : Repo} {branch : JsString} {ref : Option JsString} :
    repo.isAncestor branch ref = true ↔ ∃ tip head, repo.branches branch = some tip ∧
      ref.bind repo.branches = some head ∧ repo.graph.Ancestor tip head := by
  unfold Repo.isAncestor
  constructor
  · intro h
    cases htip : repo.branches branch with
    | none => simp [htip] at h
    | some tip =>
      cases hhead : ref.bind repo.branches with
      | none => simp [htip, hhead] at h
      | some head =>
        rw [htip, hhead] at h
        exact ⟨tip, head, rfl, rfl, CommitGraph.isAncestor_iff.1 h⟩
  · rintro ⟨tip, head, htip, hhead, h⟩
    rw [htip, hhead]
    exact CommitGraph.isAncestor_iff.2 h

theorem lookup_reconcileResume (status : Status)
    (isAncestor : JsString → Option JsString → Bool) (ib : Option JsString) (id : JsString) :
    (status.reconcileResume isAncestor ib).tickets.lookup id =
      (status.tickets.lookup id).map
        (·.reconcile isAncestor (ib.or status.integrationBranch) id) := by
  cases hlookup : status.tickets.lookup id with
  | none =>
    rw [AList.lookup_eq_none] at hlookup
    rw [Option.map_none, AList.lookup_eq_none]
    intro hmem
    apply hlookup
    rw [AList.mem_keys] at hmem ⊢
    simpa [AList.keys, List.keys, Status.reconcileResume] using hmem
  | some record =>
    have hmem : ⟨id, record⟩ ∈ status.tickets.entries := AList.mem_lookup_iff.1 hlookup
    apply AList.mem_lookup_iff.2
    exact List.mem_map.2 ⟨_, hmem, rfl⟩

theorem reconcile_state {isAncestor : JsString → Option JsString → Bool}
    {target : Option JsString} {id : JsString} {record : StatusRecord}
    (h : record.state ≠ .merged) :
    (record.reconcile isAncestor target id).state = .merged ↔
      record.undecided ∧ isAncestor (record.branchOf id) target = true := by
  unfold StatusRecord.reconcile StatusRecord.undecided
  cases hstate : record.state <;> simp_all

theorem marks_iff {status : Status} {repo : Repo} {ib : Option JsString} {id : JsString} :
    status.marks repo ib id ↔ ∃ record, status.tickets.lookup id = some record ∧
      record.undecided ∧
      repo.isAncestor (record.branchOf id) (ib.or status.integrationBranch) = true := by
  constructor
  · rintro ⟨before, after, hbefore, hne, hafter, hmerged⟩
    rw [lookup_reconcileResume, hbefore] at hafter
    cases hafter
    exact ⟨before, hbefore, (reconcile_state hne).1 hmerged⟩
  · rintro ⟨record, hrecord, hundecided, hancestor⟩
    refine ⟨record, _, hrecord, hundecided.1, ?_, (reconcile_state hundecided.1).2
      ⟨hundecided, hancestor⟩⟩
    rw [lookup_reconcileResume, hrecord]
    rfl

/-- What is marked merged has landed, exactly if no branch that a resume decides on and that is in
the integration branch still stands where it was cut. -/
theorem resume_marks_landed (repo : Repo) (status : Status) (ib : Option JsString)
    (id : JsString) :
    (status.marks repo ib id → status.landed repo ib id) ↔
      ∀ record, status.tickets.lookup id = some record → record.undecided →
        repo.isAncestor (record.branchOf id) (ib.or status.integrationBranch) = true →
        record.movedOn repo id := by
  constructor
  · intro h record hrecord hundecided hancestor
    obtain ⟨record', start, tip, head, hrecord', hstart, htip, -, hnew, -⟩ :=
      h (marks_iff.2 ⟨record, hrecord, hundecided, hancestor⟩)
    rw [hrecord] at hrecord'
    cases hrecord'
    exact ⟨start, tip, hstart, htip, CommitGraph.exists_new_iff.1 hnew⟩
  · intro h hmarks
    obtain ⟨record, hrecord, hundecided, hancestor⟩ := marks_iff.1 hmarks
    obtain ⟨start, tip, hstart, htip, hmoved⟩ := h record hrecord hundecided hancestor
    obtain ⟨tip', head, htip', hhead, hin⟩ := isAncestor_eq_true.1 hancestor
    rw [htip] at htip'
    cases htip'
    exact ⟨record, start, tip, head, hrecord, hstart, htip, hhead,
      CommitGraph.exists_new_iff.2 hmoved, hin⟩

/-- A ticket whose worktree has just been cut is marked merged, and nothing of it has landed. -/
theorem createWorktree_marked {repo repo' : Repo} {id ib : JsString} {worktree : Worktree}
    (h : createWorktree repo id ib = some (repo', worktree)) {status : Status}
    {record : StatusRecord} (hrecord : status.tickets.lookup id = some record)
    (hundecided : record.undecided) (hbranch : record.branch = some worktree.branch)
    (hstart : record.startSha = some worktree.startSha) :
    status.marks repo' (some ib) id ∧ ¬status.landed repo' (some ib) id := by
  unfold createWorktree at h
  split_ifs at h with hsafe hne
  · simp at h
  obtain ⟨start, hib, h⟩ := Option.bind_eq_some_iff.1 h
  cases h
  have hof : record.branchOf id = fleetBranch id := by simp [StatusRecord.branchOf, hbranch]
  have htip : (repo.cut (fleetBranch id) start).branches (record.branchOf id) = some start :=
    if_pos hof
  have hhead : (repo.cut (fleetBranch id) start).branches ib = some start := by
    rw [← hib]
    exact if_neg (Ne.symm hne)
  constructor
  · apply marks_iff.2
    exact ⟨record, hrecord, hundecided, isAncestor_eq_true.2 ⟨start, start, htip, hhead, .refl⟩⟩
  · rintro ⟨record', start', tip, head, hrecord', hstart', htip', -, hnew, -⟩
    rw [hrecord] at hrecord'
    cases hrecord'
    rw [hstart] at hstart'
    cases hstart'
    rw [htip] at htip'
    cases htip'
    exact CommitGraph.exists_new_iff.1 hnew .refl

end Worktrees

/-- One commit, and the integration branch on it. -/
def oneCommit : Repo := ⟨⟨fun _ => [], by simp⟩, 1, fun b => if b = js "adlc/run" then some 0 else none⟩

/-- The run was killed when the ticket's worktree had been cut. -/
def cutStatus : Status :=
  ⟨some (js "adlc/run"), some 0,
    (∅ : StatusRecords).insert (js "T1") ⟨⟨.building, 0, none⟩, some (js "fleet/t1"), some 0⟩⟩

theorem unmoved_branch_marked : letI := asciiUnicode
    ∃ repo worktree, createWorktree oneCommit (js "T1") (js "adlc/run") = some (repo, worktree) ∧
      cutStatus.marks repo (some (js "adlc/run")) (js "T1") ∧
      ¬cutStatus.landed repo (some (js "adlc/run")) (js "T1") := by
  let _ := asciiUnicode
  have hbranch : fleetBranch (js "T1") = js "fleet/t1" := by decide +kernel
  have hne : js "fleet/t1" ≠ js "adlc/run" := by decide +kernel
  have hcut : createWorktree oneCommit (js "T1") (js "adlc/run") =
      some (oneCommit.cut (js "fleet/t1") 0, ⟨js "fleet/t1", 0⟩) := by
    have hsafe : isSafeTicketId (js "T1") = true := by decide +kernel
    simp [createWorktree, hsafe, hbranch, hne, oneCommit]
  refine ⟨_, _, hcut, ?_⟩
  apply createWorktree_marked hcut (AList.lookup_insert (∅ : StatusRecords))
  · simp [StatusRecord.undecided]
  · rfl
  · rfl

end Adlc.Fleet
