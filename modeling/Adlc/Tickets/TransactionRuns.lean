import Adlc.Tickets.Recovered

namespace Adlc.Tickets

open Adlc.Framework Program

section Runs

variable {ν : Type} [JsNumber ν] [Unicode] {id : JsString} {self recoverer : TransactionProcess ν id}
  {tickets : List (Json ν)} {o : TransactionOptions} {ro : RecoveryOptions} {s0 s s' : Repo}
  {before : TicketSnapshot ν} {t : Transaction} {plan : List PlannedChange} {d : Direction} {state : JsString}

/-! ## A prepared transaction can be recovered -/

/-- Every operation that a transaction writes into its journal is one that a recovery accepts. -/
theorem Prepared.accepted (h : Prepared self tickets o s0 before t plan) (hid : isTransactionId id = true)
    (hrequest : Requested self.root o) (state : JsString) (done : List PlannedChange) (p : PlannedChange)
    (rest : List PlannedChange) (hplan : plan = done ++ p :: rest) :
    Accepted self.root t state done.length p := by
  have hkeys : (plan.map PlannedChange.key).Nodup := by
    rw [h.planned]
    exact (plan_separate hid hrequest s0).2
  have hsplit := h.planned
  rw [transactionPlan_eq] at hsplit
  have hp : p ∈ plan := hplan ▸ List.mem_append_right _ List.mem_cons_self
  obtain hnone | ⟨q, hone, hq⟩ := auxiliaryPlan_cases hrequest s0
  · rw [hnone, List.append_nil] at hsplit
    exact (ticketPlan_ofTicket (hsplit ▸ hp)).accepted _
  · rw [hone] at hsplit
    rw [hsplit] at hp
    obtain hp | hp := List.mem_append.mp hp
    · exact (ticketPlan_ofTicket hp).accepted _
    · obtain rfl := List.mem_singleton.mp hp
      refine hq.accepted h.ticketId h.operation ?_
      -- the change of the archive comes once, so those before it are of the active store
      rw [TicketsBefore, h.operations, hplan, List.map_append, List.take_append_of_le_length (by simp),
        List.take_of_length_le (by simp)]
      intro op hop
      obtain ⟨e, he, rfl⟩ := List.mem_map.mp hop
      rw [operation_role]
      have hmem : e ∈ plan := hplan ▸ List.mem_append_left _ he
      rw [hsplit] at hmem
      obtain hmem | hmem := List.mem_append.mp hmem
      · exact (ticketPlan_ofTicket hmem).role
      · obtain rfl := List.mem_singleton.mp hmem
        rw [hplan, List.map_append, List.map_cons] at hkeys
        exact absurd rfl ((List.nodup_append.mp hkeys).2.2 _ (List.mem_map_of_mem he) _ List.mem_cons_self)

/-! ## Runs of a transaction and its recoveries -/

/-- A recovery in the direction does no harm here: what its journal tells of has all of its copies left, or was
worked off in this direction already. -/
def MayRecover {id : JsString} (self : TransactionProcess ν id) (tickets : List (Json ν)) (o : TransactionOptions)
    (s0 : Repo) (d : Direction) (s : Repo) : Prop :=
  ∀ before t plan, Prepared self tickets o s0 before t plan →
    (s.file (journalPlace id)).bind (parseJournal (ν := ν)) ≠ none →
      Copied (planChanges t.id plan) s.file ∨ Settled d (planChanges t.id plan) s.file

/-- What the repository may hold after a transaction and any number of recoveries, each of which may have been
stopped anywhere, with any of its steps failing. -/
inductive Reached {id : JsString} (self : TransactionProcess ν id) (tickets : List (Json ν)) (o : TransactionOptions)
    (s0 : Repo) : Repo → Prop where
  | applied {s : Repo} (h : (applyDirectoryTransaction self tickets o).Cut s0 s) : Reached self tickets o s0 s
  /-- A lock that its owner left is removed. -/
  | unlocked {s : Repo} (h : Reached self tickets o s0 s) (lock : LockDirectory) :
    Reached self tickets o s0 { s with lock := lock }
  | recovered {s s' : Repo} {recoverer : TransactionProcess ν id} {ro : RecoveryOptions}
    (h : Reached self tickets o s0 s) (hroot : recoverer.root = self.root)
    (hstart : MayRecover self tickets o s0 ro.direction s)
    (hcut : (recoverDirectoryTransaction recoverer ro).Cut s s') : Reached self tickets o s0 s'

omit [Unicode] in
theorem Unjournaled.unread (h : Unjournaled id s0 s) :
    (s.file (journalPlace id)).bind (parseJournal (ν := ν)) = none := by
  obtain hnone | hempty := h.journal
  · rw [hnone]
    rfl
  · rw [hempty]
    exact parseJournal_nil

/-- What a recovery finds: no journal, or one whose transaction it can work off in its direction. -/
theorem Crashed.midway (h : Crashed self tickets o s0 s) (hstart : MayRecover self tickets o s0 d s) :
    (s.file (journalPlace id)).bind (parseJournal (ν := ν)) = none ∨
      ∃ before t plan, Prepared self tickets o s0 before t plan ∧
        (∃ state, s.file (journalPlace t.id) = some (t.bytes ν state)) ∧ Midway ν t plan s0 d s := by
  obtain h | ⟨before, t, plan, hprepared, h⟩ := h
  · exact .inl h.unread
  have hfair := hstart before t plan hprepared
  obtain rfl : t.id = id := hprepared.identity
  cases h with
  | unjournaled h => exact .inl h.unread
  | pending h => exact .inr ⟨before, t, plan, hprepared, h.journal, .inl h⟩
  | finished e h =>
    by_cases hunread : (s.file (journalPlace t.id)).bind (parseJournal (ν := ν)) = none
    · exact .inl hunread
    have hjournal : ∃ state, s.file (journalPlace t.id) = some (t.bytes ν state) := by
      obtain hnone | hempty | hwhole := h.journal
      · rw [hnone] at hunread
        exact absurd rfl hunread
      · rw [hempty] at hunread
        exact absurd parseJournal_nil hunread
      · exact hwhole
    refine .inr ⟨before, t, plan, hprepared, hjournal, ?_⟩
    obtain hcopied | hsettled := hfair hunread
    · exact .inl ⟨hjournal, h.settled.logged hcopied, h.beside⟩
    · exact .inr ⟨h.journal, hsettled, h.leftover, h.beside⟩

theorem Midway.crashed (hprepared : Prepared self tickets o s0 before t plan) (h : Midway ν t plan s0 d s) :
    Crashed self tickets o s0 s := .inr ⟨before, t, plan, hprepared, h.interrupted⟩

/-- A recovery that may stop anywhere, and where it ends. -/
theorem recover_safe (hid : isTransactionId id = true) (hrequest : Requested self.root o)
    (hoperation : o.operation ≠ js "migrate") (hroot : recoverer.root = self.root)
    (h : Crashed self tickets o s0 s) (hstart : MayRecover self tickets o s0 ro.direction s) :
    (recoverDirectoryTransaction recoverer ro).Safe True (Crashed self tickets o s0)
      (Ending (fun snapshot s' => ∃ before t plan, Prepared self tickets o s0 before t plan ∧
        Recovered t plan s0 ro.direction snapshot s') fun _ _ => True) s := by
  obtain hunread | ⟨before, t, plan, hprepared, ⟨state, hjournal⟩, hmidway⟩ := h.midway hstart
  · refine (recover_unread hunread).mono (fun s' hs' => hs' ▸ h) ?_
    rintro (e | snapshot) s' - hend
    · exact hend
    · exact hend.elim
  · have hsep := hprepared.separate hid hrequest
    have haccepted := hprepared.accepted hid hrequest state
    have hmigrate : t.operation ≠ js "migrate" := hprepared.operation ▸ hoperation
    have hoperations := hprepared.operations
    obtain rfl : t.id = id := hprepared.identity
    have hacquire : (acquireTicketLock recoverer.owner).Safe True (fun s' => s'.dirs = s.dirs)
        (Ending (fun _ _ => True) fun _ _ => True) s := by
      refine ((acquire_keeps recoverer.owner).safe (fun _ _ h h' => h'.trans h) rfl).post ?_
      rintro (e | u) s' - -
      · trivial
      · trivial
    refine (recoverDirectoryTransaction_safe (stable_midway hsep ro.direction) hsep (fun _ => id) hoperations
      hmigrate (hroot ▸ haccepted) hjournal hmidway (fun _ _ => trivial) hacquire (fun _ _ _ _ => trivial)
      (fun _ _ _ _ _ _ => trivial) (fun _ _ _ => trivial) (fun _ _ _ _ _ => trivial)
      fun _ _ _ _ => trivial).mono (fun s' hs' => hs'.crashed hprepared) ?_
    rintro (e | snapshot) s' - hend
    · trivial
    · exact ⟨before, t, plan, hprepared, hend⟩

/-- Whatever stops a transaction and its recoveries, and wherever: nothing beside the transaction's own files was
touched, or its journal and all copies are there and each file is as it was or as it is to be, or all changes
are made or all undone. -/
theorem Reached.crashed (hid : isTransactionId id = true) (hrequest : Requested self.root o)
    (hgone : Gone id s0) (hoperation : o.operation ≠ js "migrate") (h : Reached self tickets o s0 s) :
    Crashed self tickets o s0 s := by
  induction h with
  | applied h => exact (applyDirectoryTransaction_safe hid hrequest hgone).cut h
  | unlocked h lock ih => exact ih.dirs_eq hid hrequest rfl
  | recovered h hroot hstart hcut ih =>
    exact (recover_safe hid hrequest hoperation hroot ih hstart).cut hcut

/-- Beside the transaction's own files nothing was touched, or each file is as it was or as the plan has it. -/
def WholeFiles {id : JsString} (self : TransactionProcess ν id) (tickets : List (Json ν)) (o : TransactionOptions)
    (s0 s : Repo) : Prop :=
  OthersKept id s0 s ∨ ∃ before t plan, Prepared self tickets o s0 before t plan ∧
    ∀ place, place.dir.belongsTo id = false → ¬Incidental id plan place →
      s.file place = s0.file place ∨ ∃ p ∈ plan, p.target = place ∧ s.file place = p.after

theorem Crashed.wholeFiles (h : Crashed self tickets o s0 s) : WholeFiles self tickets o s0 s := by
  obtain h | ⟨before, t, plan, hprepared, h⟩ := h
  · exact .inl h.kept
  obtain rfl : t.id = id := hprepared.identity
  have hplanned : (∀ c ∈ planChanges t.id plan, s.file c.target = c.before ∨ s.file c.target = c.after) →
      Beside t.id plan s0 s → WholeFiles self tickets o s0 s := by
    intro hatomic hbeside
    refine .inr ⟨before, t, plan, hprepared, fun place hown hin => ?_⟩
    by_cases htarget : place ∈ plan.map PlannedChange.target
    · obtain ⟨p, hp, rfl⟩ := List.mem_map.mp htarget
      obtain hold | hnew := hatomic _ (List.mem_map_of_mem hp)
      · exact .inl (Eq.trans hold (hprepared.before hp))
      · exact .inr ⟨p, hp, rfl, hnew⟩
    · exact .inl (hbeside.files place hown htarget hin)
  cases h with
  | unjournaled h => exact .inl h.kept
  | pending h => exact hplanned h.logged.atomic h.beside
  | finished d h =>
    refine hplanned (fun c hc => ?_) h.beside
    cases d with
    | complete => exact .inr (h.settled c hc)
    | rollback => exact .inl (h.settled c hc)

/-! ## A recovery that is left alone -/

/-- A pending transaction whose files have their directories. -/
structure Housed (ν : Type) [JsNumber ν] (t : Transaction) (plan : List PlannedChange) (s0 s : Repo) : Prop where
  pending : Pending ν t plan s0 s
  dirs : ∀ p ∈ plan, (s.dirs p.target.dir).isSome = true

omit [Unicode] in
theorem stable_housed (hsep : Separate t.id plan) (d : Direction) : Stable t.id plan d (Housed ν t plan s0) where
  framed h hframe := ⟨h.pending.framed hsep hframe, fun p hp => hframe.dirs _ (hsep.dirs p hp) (h.dirs p hp)⟩
  made h hp hmade := ⟨h.pending.made hsep hp hmade, fun p hp' => hmade.dirs _ (h.dirs p hp')⟩

omit [Unicode] in
/-- A lock that is free is taken at once. -/
theorem acquire_free {C : Repo → Prop} (owner : LockOwner) (hlock : s.lock = .absent)
    (hC : ∀ s', s'.dirs = s.dirs → C s') :
    (acquireTicketLock owner).Safe False C (Ending (fun _ s' => s'.dirs = s.dirs) fun _ _ => False) s := by
  unfold acquireTicketLock acquireAttempts
  refine safe_bind (safe_atomic (hC s rfl) ?_ ?_ fun hf => hf.elim) <;> simp only [hlock]
  · exact hC _ rfl
  · refine safe_tryCatch ?_
    exact safe_atomic (hC _ rfl) (hC _ rfl) rfl fun hf => hf.elim

/-! ## What the store holds in the end -/

/-- Undone, every file is as it was, but for what was written by the way. -/
theorem Finished.rolledBack (hprepared : Prepared self tickets o s0 before t plan)
    (h : Finished ν t plan s0 .rollback s) {place : Place} (hown : place.dir.belongsTo id = false)
    (hin : ¬Incidental id plan place) : s.file place = s0.file place := by
  obtain rfl : t.id = id := hprepared.identity
  by_cases htarget : place ∈ plan.map PlannedChange.target
  · obtain ⟨p, hp, rfl⟩ := List.mem_map.mp htarget
    exact (h.settled _ (List.mem_map_of_mem hp)).trans (hprepared.before hp)
  · exact h.beside.files place hown htarget hin

theorem store_names {store : DirectoryTicketStore} {dir : Dir} {us : List (Json ν)} (h : Holds store dir us)
    {name : JsString} (hname : (dir.lookup name).isSome = true) : name.getLast? = some 110 := by
  obtain ⟨bytes, hbytes⟩ := Option.isSome_iff_exists.mp hname
  by_cases hmarker : name = storeMarker
  · rw [hmarker]
    decide
  · obtain ⟨ticket, -, -, rfl⟩ := h.only name bytes hbytes hmarker
    exact shardFilename_last (ticketFilename_isShard _)

/-- No file is left in a store that is loaded which was to be renamed. -/
theorem temporary_absent (hid : isTransactionId id = true) {snapshot : TicketSnapshot ν}
    (hload : activeStore.load (s.dirs .tickets) = .ok snapshot) (target : Place) (suffix : String)
    (hdir : target.dir = .tickets) : s.file (temporaryOf target suffix id) = none := by
  cases htickets : s.dirs .tickets with
  | none => rw [Repo.file, temporaryOf, hdir, htickets, Option.bind_none]
  | some dir =>
    rw [htickets] at hload
    obtain ⟨us, hholds, -⟩ := (load_ok_iff _ _ _).mp hload
    rw [Repo.file, temporaryOf, hdir, htickets, Option.bind_some]
    by_contra hsome
    have hlast := store_names hholds (Option.isSome_iff_ne_none.mpr hsome)
    obtain ⟨c, hc, hne⟩ := transactionId_last hid
    rw [List.getLast?_append, hc, Option.some_or, Option.some.injEq] at hlast
    exact hne hlast

/-- A store that loads after everything was undone is the store from before, byte for byte. -/
theorem Recovered.store_eq (hprepared : Prepared self tickets o s0 before t plan)
    (hid : isTransactionId id = true) {snapshot : TicketSnapshot ν}
    (h : Recovered t plan s0 .rollback snapshot s) (name : JsString) :
    s.file ⟨.tickets, name⟩ = s0.file ⟨.tickets, name⟩ := by
  by_cases hin : Incidental id plan ⟨.tickets, name⟩
  · generalize hplace : (⟨.tickets, name⟩ : Place) = place at hin
    cases hin with
    | @temporary p hp suffix hsuffix =>
      have hdir : p.target.dir = .tickets := (congrArg Place.dir hplace).symm
      rw [temporary_absent hid h.loaded p.target suffix hdir,
        temporary_absent hid hprepared.loaded p.target suffix hdir]
    | manifest => cases hplace
    | segment name => cases hplace
  · exact h.finished.rolledBack hprepared rfl hin

theorem Recovered.snapshot_eq (hprepared : Prepared self tickets o s0 before t plan)
    (hid : isTransactionId id = true) {snapshot : TicketSnapshot ν}
    (h : Recovered t plan s0 .rollback snapshot s) : snapshot = before := by
  have hfiles := h.store_eq hprepared hid
  have hload := h.loaded
  have hload0 := hprepared.loaded
  cases hdir : s.dirs .tickets with
  | none =>
    rw [hdir] at hload
    cases hload
  | some dir =>
    cases hdir0 : s0.dirs .tickets with
    | none =>
      rw [hdir0] at hload0
      cases hload0
    | some dir0 =>
      rw [hdir] at hload
      rw [hdir0] at hload0
      obtain ⟨us, hholds, rfl⟩ := (load_ok_iff _ _ _).mp hload
      obtain ⟨us0, hholds0, rfl⟩ := (load_ok_iff _ _ _).mp hload0
      refine hholds.snapshotOf_eq (hholds0.congr fun name => ?_)
      have hname := hfiles name
      rw [Repo.file, hdir, Repo.file, hdir0] at hname
      exact hname

end Runs

/-! ## A store without tickets -/

section Marked

attribute [local instance] plainUnicode

theorem marked_plan {verdict : Except TicketStoreError Unit} {before : TicketSnapshot Int} {t : Transaction}
    {plan : List PlannedChange}
    (h : Prepared plainProcess ([] : List (Json Int)) (checkedOptions verdict) markedRepo before t plan) :
    plan = [] := by
  obtain rfl : before = snapshotOf [] := Except.ok.inj (h.loaded.symm.trans markedDir_load)
  have hobsolete : obsoleteFilenames (snapshotOf ([] : List (Json Int))) [] = [] := by
    rw [obsoleteFilenames, currentFilenames, snapshotOf, show sortById ([] : List (Json Int)) = [] by simp [sortById]]
    rfl
  rw [h.planned, transactionPlan, hobsolete]
  rfl

theorem marked_reached : Reached plainProcess ([] : List (Json Int)) (checkedOptions (.error noSuchFile)) markedRepo
    (journaledRepo markedRepo) := by
  have hcut := cut_run (applyDirectoryTransaction plainProcess [] (checkedOptions (.error noSuchFile))) markedRepo
  rw [apply_refused] at hcut
  exact .applied hcut

theorem marked_mayRecover (d : Direction) : MayRecover plainProcess ([] : List (Json Int))
    (checkedOptions (.error noSuchFile)) markedRepo d (journaledRepo markedRepo) := by
  intro before t plan hprepared _
  rw [marked_plan hprepared]
  exact .inl ⟨fun _ hc => (by cases hc), fun _ hc => (by cases hc)⟩

theorem marked_ends (d : Direction) : ∃ s, (recoverDirectoryTransaction plainProcess ⟨d, none, true⟩).Ends
    (journaledRepo markedRepo) (.ok (snapshotOf ([] : List (Json Int)))) s := by
  obtain ⟨s, hs⟩ := recover_marked d
  have hends := ends_run (recoverDirectoryTransaction (ν := Int) plainProcess ⟨d, none, true⟩)
    (journaledRepo markedRepo)
  rw [hs] at hends
  exact ⟨s, hends⟩

/-- The refused transaction can be recovered. -/
theorem marked_housed : ∃ (before : TicketSnapshot Int) (t : Transaction) (plan : List PlannedChange),
    Prepared plainProcess ([] : List (Json Int)) (checkedOptions (.error noSuchFile)) markedRepo before t plan ∧
      Housed Int t plan markedRepo (journaledRepo markedRepo) := by
  have hsafe : (applyDirectoryTransaction plainProcess ([] : List (Json Int)) (checkedOptions (.error noSuchFile))).Safe
      False (Crashed plainProcess [] (checkedOptions (.error noSuchFile)) markedRepo)
      (Outcome plainProcess [] (checkedOptions (.error noSuchFile)) markedRepo False) markedRepo :=
    applyDirectoryTransaction_safe (by decide) (.inl rfl) markedRepo_gone
  have houtcome := hsafe.run
  rw [apply_refused] at houtcome
  obtain hfaults | hsame | ⟨before, t, plan, hprepared, hpending⟩ := houtcome
  · exact hfaults.elim
  · have hmade : ((journaledRepo markedRepo).dirs (.transaction freshId)).isSome = true :=
      dirs_put_isSome (p := journalPlace freshId) _ (madeDirs_made freshId markedRepo)
    have hnone : markedRepo.dirs (.transaction freshId) = none := rfl
    rw [show (journaledRepo markedRepo).dirs = markedRepo.dirs from hsame, hnone] at hmade
    cases hmade
  · refine ⟨before, t, plan, hprepared, hpending, fun p hp => ?_⟩
    rw [marked_plan hprepared] at hp
    cases hp

/-! ## What runs end with -/

end Marked

end Adlc.Tickets
