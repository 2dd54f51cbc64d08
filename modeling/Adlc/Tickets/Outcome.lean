import Adlc.Tickets.Applied

namespace Adlc.Tickets

open Adlc.Framework Program

section Outcome

variable {ν : Type} [JsNumber ν] [Unicode] {faults : Prop} {t : Transaction} {plan : List PlannedChange}
  {p : PlannedChange} {s0 s s' : Repo} {id : JsString} {self : TransactionProcess ν id} {tickets : List (Json ν)}
  {o : TransactionOptions} {key : Option JsString}

/-! ## The transaction -/

/-- What an interrupted transaction has left: its own unread files at most, or a state that its journal tells of. -/
def Crashed {id : JsString} (self : TransactionProcess ν id) (tickets : List (Json ν)) (o : TransactionOptions)
    (s0 s : Repo) : Prop :=
  Unjournaled id s0 s ∨
    ∃ before t plan, Prepared self tickets o s0 before t plan ∧ Interrupted ν t plan s0 s

/-- A transaction that was prepared is to be recovered. -/
def Stranded {id : JsString} (self : TransactionProcess ν id) (tickets : List (Json ν)) (o : TransactionOptions)
    (s0 s : Repo) : Prop :=
  ∃ before t plan, Prepared self tickets o s0 before t plan ∧ Pending ν t plan s0 s

theorem Prepared.separate {before : TicketSnapshot ν} (h : Prepared self tickets o s0 before t plan)
    (hid : isTransactionId id = true) (hrequest : Requested self.root o) : Separate t.id plan := by
  rw [h.identity, h.planned]
  exact (plan_separate hid hrequest s0).1

theorem Prepared.before {before : TicketSnapshot ν} (h : Prepared self tickets o s0 before t plan)
    (hp : p ∈ plan) : p.before = s0.file p.target := by
  rw [h.planned] at hp
  exact plan_before hp

/-- The transaction between the taking of the lock and its release. -/
theorem body_safe (hid : isTransactionId id = true) (hrequest : Requested self.root o) (hgone : Gone id s0)
    (hstate : s.dirs = s0.dirs) :
    Safe faults (Crashed self tickets o s0)
      (Ending (fun after s' => ∃ before t plan, Prepared self tickets o s0 before t plan ∧ Applied t plan s0 after s')
        fun _ s' => faults ∨ Staging id s0 s' ∨ Stranded self tickets o s0 s') (do
      let (t, bypass) ← prepare self tickets o key
      commit self o key t bypass) s := by
  have hprepare : (prepare self tickets o key).Safe faults (Crashed self tickets o s0)
      (Ending (fun prepared s' => ∃ before plan, Prepared self tickets o s0 before prepared.1 plan ∧
        Staged id s0 plan s') fun _ s' => Staging id s0 s') s := by
    refine (prepare_safe hrequest hstate hgone).mono (fun s' hs' => .inl hs'.unwritten) ?_
    rintro (e | prepared) s' hs' hend
    · exact hs'
    · exact hend
  refine safe_seq hprepare (fun prepared s1 _ h1 => ?_) fun _ _ _ hend => .inr (.inl hend)
  obtain ⟨t, bypass⟩ := prepared
  obtain ⟨before, plan, hprepared, hstaged⟩ := h1
  obtain rfl : t.id = id := hprepared.identity
  have hcommit : (commit self o key t bypass).Safe faults (Interrupted ν t plan s0)
      (Ending (fun after => Applied t plan s0 after)
        fun _ s' => faults ∨ Staging t.id s0 s' ∨ Stranded self tickets o s0 s') s1 := by
    refine commit_safe (hprepared.separate hid hrequest) (fun p hp => hprepared.before hp) hprepared.operations
      hstaged (fun e s' hs' => ?_) fun hf e s' _ => .inl hf
    exact .inr (hs'.imp_right fun hs' => ⟨before, t, plan, hprepared, hs'⟩)
  refine hcommit.mono (fun s' hs' => .inr ⟨before, t, plan, hprepared, hs'⟩) ?_
  rintro (e | after) s' - hend
  · exact hend
  · exact ⟨before, t, plan, hprepared, hend⟩

/-! ## The lock -/

omit [Unicode] in
theorem acquire_keeps (owner : LockOwner) :
    (acquireTicketLock owner).Keeps fun s s' => s'.dirs = s.dirs := by
  have hattempts : ∀ attempts, (acquireAttempts owner attempts).Keeps fun s s' => s'.dirs = s.dirs := by
    intro attempts
    induction attempts with
    | zero => trivial
    | succ attempts ih =>
      refine Keeps.bind (keeps_atomic fun s => ?_) fun created => ?_
      · split <;> rfl
      · split
        · exact Keeps.tryCatch (keeps_atomic fun _ => rfl) fun _ => Keeps.bind (keeps_atomic fun _ => rfl)
            fun _ => trivial
        · exact ih
  exact hattempts 51

omit [Unicode] in
/-- A release fails only where a step does. -/
theorem release_safe {C : Repo → Prop} (owner : LockOwner) (hC : ∀ s', s'.dirs = s.dirs → C s') :
    (releaseTicketLock owner).Safe faults C (Ending (fun _ s' => s'.dirs = s.dirs) fun _ _ => faults) s := by
  have hrest : ∀ (ours : Bool) (s' : Repo), s'.dirs = s.dirs →
      (if ours then .atomic fun repo => (.ok (), { repo with lock := .absent }) else pure () : Script Unit).Safe
        faults C (Ending (fun _ s' => s'.dirs = s.dirs) fun _ _ => faults) s' := by
    intro ours s' hs'
    cases ours with
    | true => exact safe_atomic (hC s' hs') (hC _ hs') hs' fun hf _ => hf
    | false => exact safe_pure (hC s' hs') hs'
  refine safe_bind (safe_atomic (hC s rfl) (hC _ ?_) ?_ fun hf _ => hf)
  · split
    · split <;> rfl
    · rfl
  · split
    · split
      · exact hrest true _ rfl
      · exact hrest false s rfl
    · exact hrest false s rfl

/-! ## The whole transaction -/

theorem Crashed.cleared (h : Crashed self tickets o s0 s) (hid : isTransactionId id = true)
    (hrequest : Requested self.root o) (hnone : s.file (journalPlace id) = none) (hclear : Cleared id s s') :
    Crashed self tickets o s0 s' := by
  obtain h | ⟨before, t, plan, hprepared, h⟩ := h
  · exact .inl (h.cleared hclear)
  · have hsep := hprepared.separate hid hrequest
    obtain rfl : t.id = id := hprepared.identity
    refine .inr ⟨before, t, plan, hprepared, ?_⟩
    cases h with
    | unjournaled h => exact .unjournaled (h.cleared hclear)
    | pending h =>
      obtain ⟨state, hjournal⟩ := h.journal
      rw [hnone] at hjournal
      cases hjournal
    | finished d h => exact .finished d (h.cleared hsep hclear)

theorem Stranded.journaled (h : Stranded self tickets o s0 s) : s.file (journalPlace id) ≠ none := by
  obtain ⟨before, t, plan, hprepared, h⟩ := h
  obtain rfl : t.id = id := hprepared.identity
  obtain ⟨state, hjournal⟩ := h.journal
  rw [hjournal]
  rintro ⟨⟩

omit [Unicode] in
theorem Staging.dirs_eq (h : Staging id s0 s) (hfresh : Gone id s0) (hkept : OthersKept id s s') (hgone : Gone id s') :
    s'.dirs = s0.dirs := by
  funext d
  cases hown : d.belongsTo id with
  | true => rw [hgone d hown, hfresh d hown]
  | false => rw [hkept d hown, h.kept d hown]

/-- Of a transaction without a journal nothing is left. -/
theorem dropUnjournaled_safe (hid : isTransactionId id = true) (hrequest : Requested self.root o)
    (hfresh : Gone id s0) (h : Crashed self tickets o s0 s) :
    (dropUnjournaled self.removal).Safe faults (Crashed self tickets o s0)
      (Ending (fun _ s' => (Staging id s0 s → s'.dirs = s0.dirs) ∧ (Stranded self tickets o s0 s → s' = s))
        fun _ _ => faults) s := by
  refine safe_bind (safe_get h ?_ fun hf _ => hf)
  refine safe_when (fun hyes => ?_) fun hno => ⟨h, fun hstaging => ?_, fun _ => rfl⟩
  · obtain ⟨hnone, -⟩ := (Bool.and_eq_true _ _).mp hyes
    rw [Option.isNone_iff_eq_none] at hnone
    exact removeTransaction_safe self.removal (fun s' hs' => h.cleared hid hrequest hnone hs')
      (fun s' hs' hgone => ⟨fun hstaging => hstaging.dirs_eq hfresh hs'.kept hgone,
        fun hstranded => absurd hnone hstranded.journaled⟩) fun hf _ _ _ => hf
  · have hdirs : s.dirs (.transaction id) = none := by
      rw [hstaging.unjournaled] at hno
      simpa using hno
    exact hstaging.dirs_eq hfresh (fun _ _ => rfl) (hstaging.housed hdirs)

omit [Unicode] in
theorem framed_dirs (h : s'.dirs = s.dirs) : Framed id plan s s' where
  files place _ := by rw [Repo.file, h, Repo.file]
  dirs d _ hsome := by
    rw [h]
    exact hsome

/-- What is left does not depend on the lock. -/
theorem Crashed.dirs_eq (h : Crashed self tickets o s0 s) (hid : isTransactionId id = true)
    (hrequest : Requested self.root o) (hdirs : s'.dirs = s.dirs) : Crashed self tickets o s0 s' := by
  have hunjournaled : ∀ {id}, Unjournaled id s0 s → Unjournaled id s0 s' := by
    intro id h
    refine ⟨fun d hd => by rw [hdirs, h.kept d hd], ?_⟩
    rw [Repo.file, hdirs]
    exact h.journal
  obtain h | ⟨before, t, plan, hprepared, h⟩ := h
  · exact .inl (hunjournaled h)
  · have hsep := hprepared.separate hid hrequest
    refine .inr ⟨before, t, plan, hprepared, ?_⟩
    cases h with
    | unjournaled h => exact .unjournaled (hunjournaled h)
    | pending h => exact .pending (h.framed hsep (framed_dirs hdirs))
    | finished d h => exact .finished d (h.framed hsep (framed_dirs hdirs))

/-- What a transaction ends with: all its changes, none of them, or, prepared, a journal to recover from. -/
def Outcome {id : JsString} (self : TransactionProcess ν id) (tickets : List (Json ν)) (o : TransactionOptions)
    (s0 : Repo) (faults : Prop) : Except TicketStoreError (TicketSnapshot ν) → Repo → Prop :=
  Ending (fun after s => ∃ before t plan, Prepared self tickets o s0 before t plan ∧ Applied t plan s0 after s)
    fun _ s => faults ∨ s.dirs = s0.dirs ∨ Stranded self tickets o s0 s

theorem Outcome.dirs_eq {r : Except TicketStoreError (TicketSnapshot ν)} (h : Outcome self tickets o s0 faults r s)
    (hid : isTransactionId id = true) (hrequest : Requested self.root o) (hdirs : s'.dirs = s.dirs) :
    Outcome self tickets o s0 faults r s' := by
  cases r with
  | ok after =>
    obtain ⟨before, t, plan, hprepared, h⟩ := h
    refine ⟨before, t, plan, hprepared, h.finished.framed (hprepared.separate hid hrequest) (framed_dirs hdirs),
      fun d hd => by rw [hdirs, h.gone d hd], ?_, h.hash⟩
    rw [hdirs]
    exact h.loaded
  | error e =>
    obtain h | h | ⟨before, t, plan, hprepared, h⟩ := h
    · exact .inl h
    · exact .inr (.inl (hdirs.trans h))
    · exact .inr (.inr ⟨before, t, plan, hprepared,
        h.framed (hprepared.separate hid hrequest) (framed_dirs hdirs)⟩)

/-- A body whose failures are cleaned up after. -/
theorem guarded_safe (hid : isTransactionId id = true) (hrequest : Requested self.root o) (hgone : Gone id s0)
    (hstate : s.dirs = s0.dirs) {key : Option JsString} :
    Safe faults (Crashed self tickets o s0) (Outcome self tickets o s0 faults) (Program.tryCatch (do
      let (t, bypass) ← prepare self tickets o key
      commit self o key t bypass) fun error => do
        dropUnjournaled self.removal
        .fail error) s := by
  refine safe_tryCatch ((body_safe hid hrequest hgone hstate).post ?_)
  rintro (e | after) s1 hs1 h1
  · refine safe_seq (dropUnjournaled_safe hid hrequest hgone hs1) (fun _ s2 hs2 h2 => ?_)
      fun _ _ _ hend => .inl hend
    refine safe_fail hs2 ?_
    obtain hf | hstaging | hstranded := h1
    · exact .inl hf
    · exact .inr (.inl (h2.1 hstaging))
    · obtain rfl := h2.2 hstranded
      exact .inr (.inr hstranded)
  · exact h1

theorem applyDirectoryTransaction_safe (hid : isTransactionId id = true) (hrequest : Requested self.root o)
    (hgone : Gone id s0) :
    (applyDirectoryTransaction self tickets o).Safe faults (Crashed self tickets o s0)
      (Outcome self tickets o s0 faults) s0 := by
  have hsame : ∀ s : Repo, s.dirs = s0.dirs → Crashed self tickets o s0 s := by
    intro s hs
    refine .inl ⟨fun d _ => by rw [hs], .inl ?_⟩
    rw [Repo.file, hs, hgone (journalPlace id).dir (journal_own id)]
    rfl
  unfold applyDirectoryTransaction
  refine safe_check (hsame s0 rfl) (fun key _ => ?_) fun _ _ => .inr (.inl rfl)
  refine safe_check (hsame s0 rfl) (fun _ _ => ?_) fun _ _ => .inr (.inl rfl)
  have hlock : (when (!o.locked) (acquireTicketLock self.owner)).Safe faults (Crashed self tickets o s0)
      (Ending (fun _ s => s.dirs = s0.dirs) fun _ s => s.dirs = s0.dirs) s0 := by
    refine safe_when (fun _ => ?_) fun _ => ⟨hsame s0 rfl, rfl⟩
    have hkeeps : (acquireTicketLock self.owner).Safe faults (fun s => s.dirs = s0.dirs)
        (fun _ s => s.dirs = s0.dirs) s0 := (acquire_keeps self.owner).safe (fun _ _ h h' => h'.trans h) rfl
    refine hkeeps.mono hsame ?_
    rintro (e | u) s - hs
    · exact hs
    · exact hs
  refine safe_seq hlock (fun _ s1 _ h1 => ?_) fun _ _ _ hend => .inr (.inl hend)
  refine safe_tryFinally ((guarded_safe hid hrequest hgone h1).post fun r s2 hs2 h2 => ?_)
  refine safe_when (fun _ => ?_) fun _ => ⟨hs2, h2⟩
  refine (release_safe self.owner fun s3 hs3 => hs2.dirs_eq hid hrequest hs3).post ?_
  rintro (e | u) s3 - h3
  · exact .inl h3
  · exact h2.dirs_eq hid hrequest h3

end Outcome

/-! ## A store without tickets -/

section Marked

local instance plainUnicode : Unicode := asciiUnicode

def freshId : JsString := js "0b1c2d3e-4f50-4a61-8b72-93a4b5c6d7e8"

def plainProcess : TransactionProcess Int freshId where
  root := []
  owner := ⟨1, js "2025-01-01T00:00:00.000Z", js "ticket:update", some freshId⟩
  checkout := ⟨none, .failed, js "2025-01-01T00:00:00.000Z", 0, []⟩
  revision := .null
  removal := .byDirectory freshId

def markedDir : Dir := AList.singleton storeMarker (shardBytes (activeManifest (ν := Int)))

def markedRepo : Repo := ⟨fun d => if d = .tickets then some markedDir else none, .absent⟩

theorem markedRepo_gone : Gone freshId markedRepo := by
  intro d hd
  cases d with
  | tickets => cases hd
  | transaction name | stage name | backup name | adlc | archive | segments | other path => rfl

theorem validateTickets_nil : validateTickets false true ([] : List (Json Int)) = .ok () := by
  have hblocks : ∀ a b, ¬Blocks ([] : List (Json Int)) a b := by
    rintro a b ⟨u, hu, -⟩
    cases hu
  refine (validateTickets_ok_iff _).mpr ⟨fun _ h => (by cases h), List.nodup_nil, fun a b h => (hblocks a b h).elim, ?_⟩
  intro a h
  obtain ⟨b, -, hba⟩ := Relation.TransGen.tail'_iff.mp h
  exact hblocks b a hba

theorem markedDir_load : activeStore.load (ν := Int) (some markedDir) = .ok (snapshotOf []) := by
  refine (load_ok_iff _ _ _).mpr ⟨[], ?_, rfl⟩
  have hmarked : MarkedActive Int markedDir := by
    rw [MarkedActive, markedDir, ← AList.insert_empty]
    exact AList.lookup_insert _
  have hvalid : ValidTickets ([] : List (Json Int)) := (validateTickets_ok_iff _).mp validateTickets_nil
  have hnone : ∀ t : Json Int, t ∉ [] := fun _ => List.not_mem_nil
  refine holds_normal hmarked (fun t h => absurd h (hnone t)) hvalid (fun name bytes hlookup hname => ?_)
    fun t h => absurd h (hnone t)
  have hmem := AList.mem_keys.mp (AList.lookup_isSome.mp (by rw [hlookup]; rfl))
  rw [markedDir, AList.keys_singleton, List.mem_singleton] at hmem
  exact absurd hmem hname

/-- The caller holds the lock, and has the result checked. -/
def checkedOptions (verdict : Except TicketStoreError Unit) : TransactionOptions :=
  ⟨none, js "update", false, none, none, [], fun _ => verdict, none, true, true⟩

def makeDir (d : Directory) (repo : Repo) : Repo := repo.setDir d (some ((repo.dirs d).getD ∅))

def madeDirs (id : JsString) (repo : Repo) : Repo :=
  makeDir (.backup id) (makeDir (.stage id) (makeDir (.transaction id) repo))

def emptyTransaction : Transaction where
  id := freshId
  operation := js "update"
  beforeHash := storeHashOf ([] : List (Json Int))
  afterHash := storeHashOf ([] : List (Json Int))
  evidenceRequired := false
  bypassAudit := false
  ticketId := none
  beforeTicketId := none
  beforeTicketHash := none
  afterTicketHash := none
  operations := []

theorem storeHash_nil : storeHash ([] : List (Json Int)) = .ok (storeHashOf ([] : List (Json Int))) := by
  have hnone : ∀ t : Json Int, t ∉ [] := fun _ => List.not_mem_nil
  exact storeHash_eq (fun t h => absurd h (hnone t)) fun t h => absurd h (hnone t)

theorem prepare_marked (verdict : Except TicketStoreError Unit) (repo : Repo) (hdirs : repo.dirs = markedRepo.dirs) :
    (prepare plainProcess ([] : List (Json Int)) (checkedOptions verdict) none).run repo =
      (.ok (emptyTransaction, none), madeDirs freshId repo) := by
  have hload : activeStore.load (ν := Int) (repo.dirs .tickets) = .ok (snapshotOf []) := by
    rw [hdirs]
    exact markedDir_load
  simp only [prepare, loadStore, run_bind, run_get, run_lift, hload]
  have hsorted : sortById ([] : List (Json Int)) = [] := by simp [sortById]
  have hchanges : transactionChangesAnything (snapshotOf ([] : List (Json Int))) []
      (checkedOptions verdict).auxiliaryOperations = .ok false := by
    rw [transactionChangesAnything, storeHash_nil, snapshotOf, hsorted]
    simp [Except.map, checkedOptions]
  have hbinding : evidenceBinding (snapshotOf ([] : List (Json Int))) [] (checkedOptions verdict).ticketId
    (checkedOptions verdict).beforeTicketId = .ok ⟨none, none, none⟩ := rfl
  have hobsolete : obsoleteFilenames (snapshotOf ([] : List (Json Int))) [] = [] := by
    rw [obsoleteFilenames, currentFilenames, snapshotOf, hsorted]
    rfl
  simp only [checkedOptions] at hchanges hbinding
  simp only [hchanges, hbinding, hobsolete, storeHash_nil, byFilename, List.foldl_nil, stageAll, run_pure, durableMkdir,
    run_atomic, checkedOptions, List.zipIdx_nil]
  have hhash : (snapshotOf ([] : List (Json Int))).hash = storeHashOf ([] : List (Json Int)) := by
    rw [snapshotOf, hsorted]
  simp only [Bool.false_eq_true, if_false, List.nil_append, Option.isSome_none, hhash]
  rfl

/-- The repository once its journal is written. -/
def journaledRepo (repo : Repo) : Repo :=
  (madeDirs freshId repo).put (journalPlace freshId) (emptyTransaction.bytes Int preparedState)

theorem durableWrite_run {place : Place} {s : Repo} (h : (s.dirs place.dir).isSome = true) (bytes : Bytes) :
    (durableWrite place bytes).run s = (.ok (), s.put place bytes) := by
  have hput : ((s.put place []).dirs place.dir).isSome = true := dirs_put_isSome [] h
  have hempty : (writeFile place []).run s = (.ok (), s.put place []) := by
    rw [writeFile, run_atomic, if_pos h]
  have hfull : (writeFile place bytes).run (s.put place []) = (.ok (), s.put place bytes) := by
    rw [writeFile, run_atomic, if_pos hput, put_put]
  rw [durableWrite, run_bind_ok hempty, hfull]

theorem madeDirs_made (id : JsString) (repo : Repo) : ((madeDirs id repo).dirs (.transaction id)).isSome = true := by
  have h1 : Directory.transaction id ≠ .stage id := by rintro ⟨⟩
  have h2 : Directory.transaction id ≠ .backup id := by rintro ⟨⟩
  rw [madeDirs, makeDir, dirs_setDir_ne _ h2, makeDir, dirs_setDir_ne _ h1, makeDir, dirs_setDir]
  rfl

theorem madeDirs_tickets (id : JsString) (repo : Repo) : (madeDirs id repo).dirs .tickets = repo.dirs .tickets := by
  have h1 : Directory.tickets ≠ .stage id := by rintro ⟨⟩
  have h2 : Directory.tickets ≠ .backup id := by rintro ⟨⟩
  have h3 : Directory.tickets ≠ .transaction id := by rintro ⟨⟩
  rw [madeDirs, makeDir, dirs_setDir_ne _ h2, makeDir, dirs_setDir_ne _ h1, makeDir, dirs_setDir_ne _ h3]

theorem commit_marked (verdict : Except TicketStoreError Unit) (repo : Repo) (hdirs : repo.dirs = markedRepo.dirs) :
    (commit plainProcess (checkedOptions verdict) none emptyTransaction none).run (madeDirs freshId repo) =
      (do
        Program.lift verdict
        durableWrite (journalPlace freshId) (emptyTransaction.bytes Int completeState)
        removeTransaction plainProcess.removal
        pure (snapshotOf []) : Script (TicketSnapshot Int)).run (journaledRepo repo) := by
  have hload : activeStore.load (ν := Int) ((journaledRepo repo).dirs .tickets) = .ok (snapshotOf []) := by
    rw [journaledRepo, dirs_put_ne _ (by rintro ⟨⟩), madeDirs_tickets, hdirs]
    exact markedDir_load
  have hhash : (snapshotOf ([] : List (Json Int))).hash = emptyTransaction.afterHash := by
    rw [snapshotOf, show sortById ([] : List (Json Int)) = [] by simp [sortById]]
    rfl
  have hwrite : (durableWrite (journalPlace freshId) (emptyTransaction.bytes Int preparedState)).run
      (madeDirs freshId repo) = (.ok (), journaledRepo repo) := durableWrite_run (madeDirs_made freshId repo) _
  have hnone : emptyTransaction.operations = [] := rfl
  have hquiet : ∀ p : Script Unit, when ((checkedOptions verdict).evidenceRequired ||
      (none : Option BypassAudit).isSome) p = pure () := fun _ => rfl
  rw [commit, run_bind_ok hwrite]
  simp only [loadStore, hnone, applyOperations, run_bind, run_pure, run_get, run_lift, hload]
  rw [if_neg (not_not_intro hhash)]
  simp only [hquiet, run_bind, run_pure, run_get, run_lift]
  rfl

theorem removeFiles_run (places : List Place) (s : Repo) : ∃ s', (removeFiles places).run s = (.ok (), s') := by
  induction places generalizing s with
  | nil => exact ⟨s, rfl⟩
  | cons place places ih => exact ih (s.erase place)

theorem removeTransaction_run {id : JsString} (order : RemovalOrder id) (s : Repo) :
    ∃ s', (removeTransaction order).run s = (.ok (), s') := by
  obtain ⟨s1, h1⟩ := removeFiles_run (order.files s) s
  refine ⟨((s1.setDir (.stage id) none).setDir (.backup id) none).setDir (.transaction id) none, ?_⟩
  rw [removeTransaction, run_bind, run_get]
  dsimp only
  rw [run_bind_ok h1]
  rfl

theorem guarded_marked (verdict : Except TicketStoreError Unit) :
    (applyDirectoryTransaction plainProcess ([] : List (Json Int)) (checkedOptions verdict)).run markedRepo =
      ((commit plainProcess (checkedOptions verdict) none emptyTransaction none).tryCatch fun e => do
        dropUnjournaled plainProcess.removal
        .fail e).run (madeDirs freshId markedRepo) := by
  have hkey : validateKeyParam (checkedOptions verdict).key = .ok none := rfl
  have hunlocked : ∀ p : Script Unit, when (!(checkedOptions verdict).locked) p = pure () := fun _ => rfl
  simp only [applyDirectoryTransaction, hkey, validateTickets_nil, hunlocked, run_bind, run_lift, run_pure,
    run_tryFinally, run_tryCatch, prepare_marked verdict markedRepo rfl]

/-- A transaction without tickets, over a store without tickets, succeeds. -/
theorem apply_marked : ∃ s, (applyDirectoryTransaction plainProcess ([] : List (Json Int))
    (checkedOptions (.ok ()))).run markedRepo = (.ok (snapshotOf []), s) := by
  have hmade : ((journaledRepo markedRepo).dirs (journalPlace freshId).dir).isSome = true :=
    dirs_put_isSome _ (madeDirs_made freshId markedRepo)
  have hwrite := durableWrite_run hmade (emptyTransaction.bytes Int completeState)
  obtain ⟨s, hs⟩ := removeTransaction_run plainProcess.removal
    ((journaledRepo markedRepo).put (journalPlace freshId) (emptyTransaction.bytes Int completeState))
  refine ⟨s, ?_⟩
  rw [guarded_marked, run_tryCatch, commit_marked _ _ rfl]
  simp only [run_bind, run_lift, hwrite, hs, run_pure]

/-- One whose result is refused leaves its journal. -/
theorem apply_refused (e : TicketStoreError) :
    (applyDirectoryTransaction plainProcess ([] : List (Json Int)) (checkedOptions (.error e))).run markedRepo =
      (.error e, journaledRepo markedRepo) := by
  have hjournal : (journaledRepo markedRepo).file (journalPlace freshId) =
      some (emptyTransaction.bytes Int preparedState) :=
    file_put _ _ _
  rw [guarded_marked, run_tryCatch, commit_marked _ _ rfl]
  simp only [run_bind, run_lift, dropUnjournaled, run_get, hjournal, Option.isNone_some, Bool.false_and, when,
    Bool.false_eq_true, if_false, run_pure, run_fail]

end Marked

/-! ## Where a transaction ends -/

section Marked

attribute [local instance] plainUnicode

end Marked

end Adlc.Tickets
