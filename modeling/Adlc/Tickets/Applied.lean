import Adlc.Tickets.Prepared

namespace Adlc.Tickets

open Adlc.Framework Program

variable {ν : Type} [JsNumber ν]

variable {faults : Prop} {t : Transaction} {plan done : List PlannedChange} {p : PlannedChange} {s0 s s' : Repo}
  {d : Direction} {id : JsString} {I : Repo → Prop} {bad : TicketStoreError → Repo → Prop}

/-! ## Working off a plan -/

/-- What holds while a plan is worked off in a direction. -/
structure Stable (id : JsString) (plan : List PlannedChange) (d : Direction) (I : Repo → Prop) : Prop where
  framed : ∀ {s s'}, I s → Framed id plan s s' → I s'
  made : ∀ {p s s'}, I s → p ∈ plan → Made id p d s s' → I s'

theorem stable_pending (hsep : Separate t.id plan) (d : Direction) : Stable t.id plan d (Pending ν t plan s0) where
  framed h hframe := h.framed hsep hframe
  made h hp hmade := h.made hsep hp hmade

theorem stable_midway (hsep : Separate t.id plan) (d : Direction) :
    Stable t.id plan d (Midway ν t plan s0 d) where
  framed h hframe := h.framed hsep hframe
  made h hp hmade := h.made hsep hp hmade

/-- The first changes of the plan are worked off. -/
structure Upto (id : JsString) (d : Direction) (I : Repo → Prop) (done : List PlannedChange) (s : Repo) : Prop where
  holds : I s
  settled : Settled d (planChanges id done) s.file

theorem Upto.framed (h : Upto id d I done s) (hI : Stable id plan d I) (hsep : Separate id plan)
    (hdone : done ⊆ plan) (hframe : Framed id plan s s') : Upto id d I done s' where
  holds := hI.framed h.holds hframe
  settled := h.settled.congr fun c hc => by
    obtain ⟨p, hp, rfl⟩ := List.mem_map.mp hc
    exact hframe.files _ (not_incidental hsep (.inr (List.mem_map_of_mem (hdone hp))))

theorem Upto.made (h : Upto id d I done s) (hI : Stable id plan d I) (hsep : Separate id plan)
    (hdone : done ⊆ plan) (hp : p ∈ plan) (hmade : Made id p d s s') : Upto id d I (done ++ [p]) s' where
  holds := hI.made h.holds hp hmade
  settled := by
    rw [hmade.files, planChanges, List.map_append, List.map_singleton]
    exact h.settled.concat hsep.apart (List.map_subset _ hdone) (List.mem_map_of_mem hp)

/-- A copy is put in the place of one of the plan's files. -/
theorem replaceBy_advances {copy : Place} {bytes : Bytes} {suffix : String} (hI : Stable id plan d I)
    (hsep : Separate id plan) (hdone : done ⊆ plan) (hp : p ∈ plan) (hsuffix : suffix ∈ temporarySuffixes)
    (h : Upto id d I done s) (hgoal : (p.change id).goal d = some bytes) (hcopy : s.file copy = some bytes)
    (hmissing : (s.dirs p.target.dir).isSome = false → bad noSuchFile s)
    (hfault : faults → ∀ e s', I s' → bad e s') :
    (replaceBy copy (temporaryOf p.target suffix id) p.target).Safe faults I
      (Ending (fun _ => Upto id d I (done ++ [p])) bad) s := by
  have hin : Incidental id plan (temporaryOf p.target suffix id) := .temporary hp hsuffix
  have hfull := h.framed hI hsep hdone (framed_put hin s bytes)
  have herased := hfull.framed hI hsep hdone (framed_erase hin _)
  have hmade := herased.made hI hsep hdone hp (made_put hgoal _)
  exact safe_replaceBy hcopy h.holds (hI.framed h.holds (framed_put hin s [])) hfull.holds rfl hmade.holds hmade
    hmissing hfault

theorem removeIfThere_advances (hI : Stable id plan d I) (hsep : Separate id plan) (hdone : done ⊆ plan)
    (hp : p ∈ plan) (h : Upto id d I done s) (hgoal : (p.change id).goal d = none)
    (hfault : faults → ∀ e s', I s' → bad e s') :
    (removeIfThere p.target).Safe faults I (Ending (fun _ => Upto id d I (done ++ [p])) bad) s := by
  have hmade := h.made hI hsep hdone hp (made_erase hgoal s)
  refine safe_removeIfThere h.holds hmade.holds hmade (fun hnone => ?_) fun hf e => hfault hf e s h.holds
  refine h.made hI hsep hdone hp ⟨?_, fun _ hd => hd⟩
  rw [hgoal, ← hnone, Function.update_eq_self]

/-- An operation of the journal makes its change. -/
theorem applyOperation_advances (hI : Stable id plan .complete I) (hsep : Separate id plan) (hdone : done ⊆ plan)
    (hp : p ∈ plan) (h : Upto id .complete I done s) (hcopied : Copied (planChanges id plan) s.file)
    (hmissing : (s.dirs p.target.dir).isSome = false → bad noSuchFile s)
    (hfault : faults → ∀ e s', I s' → bad e s') :
    (applyOperation id (p.operation id)).Safe faults I
      (Ending (fun _ => Upto id .complete I (done ++ [p])) bad) s := by
  cases hafter : p.after with
  | some bytes =>
    have hstage : s.file (stagePlace id p.key) = some bytes :=
      hcopied.staged _ (List.mem_map_of_mem hp) bytes hafter
    rw [PlannedChange.operation, hafter]
    exact replaceBy_advances hI hsep hdone hp (by decide) h hafter hstage hmissing hfault
  | none =>
    rw [PlannedChange.operation, hafter]
    exact removeIfThere_advances hI hsep hdone hp h hafter hfault

theorem applyOperations_advance (hI : Stable id plan .complete I) (hsep : Separate id plan)
    (hcopied : ∀ s, I s → Copied (planChanges id plan) s.file)
    (hmissing : ∀ p ∈ plan, ∀ s, I s → (s.dirs p.target.dir).isSome = false → bad noSuchFile s)
    (hfault : faults → ∀ e s', I s' → bad e s') {rest : List PlannedChange} (hplan : done ++ rest = plan)
    (h : Upto id .complete I done s) :
    (applyOperations id (rest.map (PlannedChange.operation id))).Safe faults I
      (Ending (fun _ => Upto id .complete I plan) bad) s := by
  induction rest generalizing done s with
  | nil =>
    rw [List.append_nil] at hplan
    exact safe_pure h.holds (hplan ▸ h)
  | cons p rest ih =>
    have hp : p ∈ plan := hplan ▸ List.mem_append_right _ List.mem_cons_self
    have hdone : done ⊆ plan := hplan ▸ List.subset_append_left _ _
    refine safe_seq (applyOperation_advances hI hsep hdone hp h (hcopied s h.holds) (hmissing p hp s h.holds)
      hfault) (fun _ s' _ hend => ?_) fun _ _ _ hbad => hbad
    refine ih ?_ hend
    rw [List.append_assoc]
    exact hplan

/-! ## Removing a transaction's directory -/

/-- Of the transaction's own files, some may have gone; nothing else changed. -/
structure Cleared (id : JsString) (s s' : Repo) : Prop where
  kept : OthersKept id s s'
  own : ∀ place, place.dir.belongsTo id = true → s'.file place = none ∨ s'.file place = s.file place

theorem Cleared.refl (id : JsString) (s : Repo) : Cleared id s s where
  kept _ _ := rfl
  own _ _ := .inr rfl

theorem Cleared.trans {s'' : Repo} (h : Cleared id s s') (h' : Cleared id s' s'') : Cleared id s s'' where
  kept e he := (h'.kept e he).trans (h.kept e he)
  own place hown := by
    obtain hnone | hsame := h'.own place hown
    · exact .inl hnone
    · rw [hsame]
      exact h.own place hown

theorem cleared_erase {place : Place} (hown : place.dir.belongsTo id = true) (s : Repo) :
    Cleared id s (s.erase place) where
  kept e he := dirs_erase_ne (by
    rintro rfl
    rw [hown] at he
    cases he)
  own other _ := by
    by_cases heq : other = place
    · rw [heq]
      exact .inl (file_erase s place)
    · exact .inr (file_erase_ne heq)

theorem cleared_setDir {e : Directory} (hown : e.belongsTo id = true) (s : Repo) :
    Cleared id s (s.setDir e none) where
  kept e' he' := dirs_setDir_ne none (by
    rintro rfl
    rw [hown] at he'
    cases he')
  own other _ := by
    by_cases heq : other.dir = e
    · rw [Repo.file, heq, dirs_setDir]
      exact .inl rfl
    · rw [Repo.file, dirs_setDir_ne none heq]
      exact .inr rfl

theorem Cleared.file (h : Cleared id s s') {place : Place} (hplace : place.dir.belongsTo id = false) :
    s'.file place = s.file place := h.kept.file hplace

theorem Finished.cleared (h : Finished ν t plan s0 d s) (hsep : Separate t.id plan)
    (hclear : Cleared t.id s s') : Finished ν t plan s0 d s' where
  journal := by
    obtain hnone | hsame := hclear.own (journalPlace t.id) (journal_own t.id)
    · exact .inl hnone
    · unfold JournalOf
      rw [hsame]
      exact h.journal
  settled := h.settled.congr fun c hc => by
    obtain ⟨p, hp, rfl⟩ := List.mem_map.mp hc
    exact hclear.file (hsep.own hp)
  leftover := h.leftover.mono
    (fun c hc => by
      obtain ⟨p, -, rfl⟩ := List.mem_map.mp hc
      exact hclear.own _ (stage_own t.id p.key))
    fun c hc => by
      obtain ⟨p, -, rfl⟩ := List.mem_map.mp hc
      exact hclear.own _ (backup_own t.id p.key)
  beside :=
    ⟨fun place hown htarget hin => (hclear.file hown).trans (h.beside.files place hown htarget hin),
      fun e he hsome => by
        have hother : e.belongsTo t.id = false := by
          obtain he | he := he <;> rw [he] <;> rfl
        rw [hclear.kept e hother]
        exact h.beside.dirs e he hsome⟩

theorem Unjournaled.cleared (h : Unjournaled id s0 s) (hclear : Cleared id s s') : Unjournaled id s0 s' where
  kept e he := (hclear.kept e he).trans (h.kept e he)
  journal := by
    obtain hnone | hsame := hclear.own (journalPlace id) (journal_own id)
    · exact .inl hnone
    · rw [hsame]
      exact h.journal

section Removal

variable {C : Repo → Prop} {good : Unit → Repo → Prop}

theorem removeFiles_safe {places : List Place} (hown : ∀ place ∈ places, place.dir.belongsTo id = true)
    (hC : ∀ s', Cleared id s s' → C s') (hfault : faults → ∀ e s', Cleared id s s' → bad e s') :
    (removeFiles places).Safe faults C (Ending (fun _ => Cleared id s) bad) s := by
  suffices h : ∀ s', Cleared id s s' →
      (removeFiles places).Safe faults C (Ending (fun _ => Cleared id s) bad) s' from h s (.refl id s)
  induction places with
  | nil => exact fun s' hs' => safe_pure (hC s' hs') hs'
  | cons place places ih =>
    intro s' hs'
    have herase := hs'.trans (cleared_erase (hown place List.mem_cons_self) s')
    refine safe_bind (safe_atomic (hC s' hs') (hC _ herase) ?_ fun hf e => hfault hf e s' hs')
    exact ih (fun place hplace => hown place (List.mem_cons_of_mem _ hplace)) _ herase

theorem removeEmptyDirectory_safe {e : Directory} (hown : e.belongsTo id = true)
    (hC : ∀ s', Cleared id s s' → C s') (hfault : faults → ∀ e s', Cleared id s s' → bad e s')
    (hs' : Cleared id s s') :
    (removeEmptyDirectory e).Safe faults C
      (Ending (fun _ s'' => s'' = s'.setDir e none ∧ Cleared id s s'') bad) s' :=
  have hset := hs'.trans (cleared_setDir hown s')
  safe_atomic (hC s' hs') (hC _ hset) ⟨rfl, hset⟩ fun hf e => hfault hf e s' hs'

theorem removeTransaction_safe (order : RemovalOrder id) (hC : ∀ s', Cleared id s s' → C s')
    (hgood : ∀ s', Cleared id s s' → Gone id s' → good () s')
    (hfault : faults → ∀ e s', Cleared id s s' → bad e s') :
    (removeTransaction order).Safe faults C (Ending good bad) s := by
  have hself := Cleared.refl id s
  refine safe_bind (safe_get (hC s hself) ?_ fun hf e => hfault hf e s hself)
  refine safe_seq (removeFiles_safe (fun place hplace => ((order.mem s place).mp hplace).1) hC hfault)
    (fun _ s1 _ h1 => ?_) fun _ _ _ hbad => hbad
  refine safe_seq (removeEmptyDirectory_safe (e := .stage id) (decide_eq_true rfl) hC hfault h1) (fun _ s2 _ h2 => ?_)
    fun _ _ _ hbad => hbad
  obtain ⟨rfl, h2⟩ := h2
  refine safe_seq (removeEmptyDirectory_safe (e := .backup id) (decide_eq_true rfl) hC hfault h2) (fun _ s3 _ h3 => ?_)
    fun _ _ _ hbad => hbad
  obtain ⟨rfl, h3⟩ := h3
  refine (removeEmptyDirectory_safe (e := .transaction id) (decide_eq_true rfl) hC hfault h3).post ?_
  rintro (e | u) s4 - h4
  · exact h4
  obtain ⟨rfl, h4⟩ := h4
  refine hgood _ h4 fun e he => ?_
  cases e with
  | transaction name | stage name | backup name =>
    obtain rfl : name = id := of_decide_eq_true he
    simp [Repo.setDir, Function.update]
  | adlc | tickets | archive | segments | other path => cases he

end Removal

/-! ## From the journal on -/

/-- The journal's file is emptied before it is written. -/
theorem Finished.putJournal (h : Finished ν t plan s0 d s) (hsep : Separate t.id plan) {bytes : Bytes}
    (hbytes : bytes = [] ∨ ∃ state, bytes = t.bytes ν state) :
    Finished ν t plan s0 d (s.put (journalPlace t.id) bytes) where
  journal := by
    unfold JournalOf
    rw [file_put]
    obtain rfl | ⟨state, rfl⟩ := hbytes
    · exact .inr (.inl rfl)
    · exact .inr (.inr ⟨state, rfl⟩)
  settled := h.settled.congr fun c hc => by
    obtain ⟨p, hp, rfl⟩ := List.mem_map.mp hc
    exact file_put_ne bytes (own_ne_target hsep hp (journal_own t.id)).symm
  leftover := h.leftover.mono
    (fun c hc => by
      obtain ⟨p, -, rfl⟩ := List.mem_map.mp hc
      exact .inr (file_put_ne bytes (journal_ne_stage t.id p.key).symm))
    fun c hc => by
      obtain ⟨p, -, rfl⟩ := List.mem_map.mp hc
      exact .inr (file_put_ne bytes (journal_ne_backup t.id p.key).symm)
  beside :=
    ⟨fun place hown htarget hin => (file_put_ne bytes (by
        rintro rfl
        rw [journal_own] at hown
        cases hown)).trans (h.beside.files place hown htarget hin),
      fun e he hsome => dirs_put_isSome bytes (h.beside.dirs e he hsome)⟩

theorem Staging.unwritten (h : Staging id s0 s) : Unjournaled id s0 s := ⟨h.kept, .inl h.unjournaled⟩

theorem Staging.emptyJournal (h : Staging id s0 s) : Unjournaled id s0 (s.put (journalPlace id) []) :=
  ⟨h.kept.setDir (journal_own id) _, .inr (file_put s (journalPlace id) [])⟩

/-- With its journal written, a staged transaction is pending. -/
theorem Staged.pending (h : Staged t.id s0 plan s) (hsep : Separate t.id plan)
    (hbefore : ∀ p ∈ plan, p.before = s0.file p.target) (state : JsString) :
    Pending ν t plan s0 (s.put (journalPlace t.id) (t.bytes ν state)) where
  journal := ⟨state, file_put s (journalPlace t.id) _⟩
  logged := by
    rw [file_put_eq]
    refine ⟨h.copied.update (fun c hc => ?_) _, fun c hc => .inl ?_⟩
    · obtain ⟨p, -, rfl⟩ := List.mem_map.mp hc
      exact ⟨journal_ne_stage t.id p.key, journal_ne_backup t.id p.key⟩
    · obtain ⟨p, hp, rfl⟩ := List.mem_map.mp hc
      exact (Function.update_of_ne (own_ne_target hsep hp (journal_own t.id)).symm _ _).trans
        ((h.kept.file (hsep.own hp)).trans (hbefore p hp).symm)
  beside :=
    ⟨fun place hown _ _ => (file_put_ne _ (by
        rintro rfl
        rw [journal_own] at hown
        cases hown)).trans (h.kept.file hown),
      fun e he hsome => dirs_put_isSome _ (by
        have hother : e.belongsTo t.id = false := by
          obtain he | he := he <;> rw [he] <;> rfl
        rw [h.kept e hother]
        exact hsome)⟩

/-- What a transaction that succeeds leaves: all its changes, and none of its own files. -/
structure Applied [Unicode] (t : Transaction) (plan : List PlannedChange) (s0 : Repo) (after : TicketSnapshot ν)
    (s : Repo) : Prop where
  finished : Finished ν t plan s0 .complete s
  gone : Gone t.id s
  loaded : activeStore.load (s.dirs .tickets) = .ok after
  hash : after.hash = t.afterHash

variable [Unicode] {self : TransactionProcess ν t.id} {key : Option JsString}

/-- What is recorded changes the manifest only. -/
theorem recordEvidence_safe {C : Repo → Prop} {e : Evidence ν} (hI : Stable t.id plan d I) (hsep : Separate t.id plan)
    (hC : ∀ s, I s → C s) (h : Upto t.id d I plan s) (hbad : ∀ e s', Upto t.id d I plan s' → bad e s') :
    (recordEvidence self key e).Safe faults C
      (Ending (fun _ s' => Upto t.id d I plan s' ∧ s'.dirs .tickets = s.dirs .tickets) bad) s := by
  have hframe : Framed t.id plan s (s.setManifest (recordTicketEvidence key self.checkout e s.manifest).2) :=
    framed_setManifest s _
  have hset := h.framed hI hsep (List.Subset.refl plan) hframe
  refine safe_atomic (hC _ h.holds) (hC _ hset.holds) ?_ fun _ e => hbad e s h
  dsimp only
  cases (recordTicketEvidence key self.checkout e s.manifest).1 with
  | error e => exact hbad e _ hset
  | ok u => exact ⟨hset, dirs_setManifest_ne (by rintro ⟨⟩) (by rintro ⟨⟩)⟩

/-- A worked off transaction says so in its journal, and is removed. -/
theorem closing_safe {after : TicketSnapshot ν} (hsep : Separate t.id plan)
    (h : Upto t.id .complete (Pending ν t plan s0) plan s)
    (hload : activeStore.load (s.dirs .tickets) = .ok after) (hhash : after.hash = t.afterHash)
    (hfault : faults → ∀ e s', Interrupted ν t plan s0 s' → bad e s') :
    Safe faults (Interrupted ν t plan s0) (Ending (fun after => Applied t plan s0 after) bad) (do
      durableWrite (journalPlace t.id) (t.bytes ν completeState)
      removeTransaction self.removal
      pure after : Script (TicketSnapshot ν)) s := by
  have hfinished : Finished ν t plan s0 .complete s := Midway.finish (.inl h.holds) h.settled
  have hdone := hfinished.putJournal hsep (.inr ⟨completeState, rfl⟩)
  have hwrite : (durableWrite (journalPlace t.id) (t.bytes ν completeState)).Safe faults (Interrupted ν t plan s0)
      (Ending (fun _ s' => s' = s.put (journalPlace t.id) (t.bytes ν completeState)) bad) s := by
    refine safe_durableWrite (.pending h.holds) (.finished _ (hfinished.putJournal hsep (.inl rfl)))
      (.finished _ hdone) rfl (fun hno => ?_) hfault
    obtain ⟨state, hjournal⟩ := h.holds.journal
    rw [Repo.file, Option.isSome_eq_false_iff.mp hno |> Option.isNone_iff_eq_none.mp] at hjournal
    cases hjournal
  refine safe_seq hwrite (fun _ s1 _ h1 => ?_) fun _ _ _ hend => hend
  subst h1
  have hremove : (removeTransaction self.removal).Safe faults (Interrupted ν t plan s0)
      (Ending (fun _ => Applied t plan s0 after) bad) (s.put (journalPlace t.id) (t.bytes ν completeState)) := by
    refine removeTransaction_safe self.removal (fun s' hs' => .finished _ (hdone.cleared hsep hs'))
      (fun s' hs' hgone => ⟨hdone.cleared hsep hs', hgone, ?_, hhash⟩)
      fun hf e s' hs' => hfault hf e s' (.finished _ (hdone.cleared hsep hs'))
    rw [hs'.kept .tickets rfl, dirs_put_ne _ (by rintro ⟨⟩)]
    exact hload
  refine safe_seq hremove (fun _ s2 _ h2 => ?_) fun _ _ _ hend => hend
  exact safe_pure (.finished _ h2.finished) h2

theorem commit_safe {o : TransactionOptions} {bypass : Option BypassAudit} (hsep : Separate t.id plan)
    (hbefore : ∀ p ∈ plan, p.before = s0.file p.target)
    (hoperations : t.operations = plan.map (PlannedChange.operation t.id)) (h : Staged t.id s0 plan s)
    (hbad : ∀ e s', Staging t.id s0 s' ∨ Pending ν t plan s0 s' → bad e s')
    (hfault : faults → ∀ e s', Interrupted ν t plan s0 s' → bad e s') :
    (commit self o key t bypass).Safe faults (Interrupted ν t plan s0)
      (Ending (fun after => Applied t plan s0 after) bad) s := by
  have hpending := h.pending (ν := ν) hsep hbefore preparedState
  have hjournal : (durableWrite (journalPlace t.id) (t.bytes ν preparedState)).Safe faults (Interrupted ν t plan s0)
      (Ending (fun _ => Upto t.id .complete (Pending ν t plan s0) []) bad) s :=
    safe_durableWrite (.unjournaled h.unwritten) (.unjournaled h.emptyJournal) (.pending hpending)
      ⟨hpending, fun _ hc => by cases hc⟩ (fun _ => hbad _ _ (.inl h.toStaging)) hfault
  have happly : ∀ s', Upto t.id .complete (Pending ν t plan s0) [] s' →
      (applyOperations t.id t.operations).Safe faults (Interrupted ν t plan s0)
        (Ending (fun _ => Upto t.id .complete (Pending ν t plan s0) plan) bad) s' := by
    intro s' hs'
    rw [hoperations]
    exact (applyOperations_advance (stable_pending hsep .complete) hsep (fun _ hs => hs.logged.toCopied)
      (fun _ _ _ hs _ => hbad _ _ (.inr hs)) (fun hf e _ hs => hfault hf e _ (.pending hs)) rfl hs').mono
      (fun _ => .pending) fun _ _ _ => id
  unfold commit loadStore
  refine safe_seq hjournal (fun _ s1 _ h1 => ?_) fun _ _ _ hend => hend
  refine safe_seq (happly s1 h1) (fun _ s2 hs2 h2 => ?_) fun _ _ _ hend => hend
  have herror : ∀ e, bad e s2 := fun e => hbad e s2 (.inr h2.holds)
  refine safe_bind (safe_bind (safe_get hs2 ?_ fun _ => herror))
  refine safe_lift hs2 ?_
  cases hload : activeStore.load (ν := ν) (s2.dirs .tickets) with
  | error e => exact herror e
  | ok after =>
    show Program.Safe faults _ _ (ite _ _ _) s2
    by_cases hhash : after.hash = t.afterHash
    · rw [if_neg (not_not_intro hhash)]
      refine safe_bind (safe_get hs2 ?_ fun _ => herror)
      refine safe_check hs2 (fun _ _ => ?_) fun e _ => herror e
      have hrecorded : (when (o.evidenceRequired || bypass.isSome)
          (recordEvidence self key (applyEvidence self t after bypass))).Safe faults (Interrupted ν t plan s0)
          (Ending (fun _ s' => Upto t.id .complete (Pending ν t plan s0) plan s' ∧
            s'.dirs .tickets = s2.dirs .tickets) bad) s2 :=
        safe_when (fun _ => recordEvidence_safe (stable_pending hsep .complete) hsep (fun _ => .pending) h2
          fun e s' hs' => hbad e s' (.inr hs'.holds)) fun _ => ⟨hs2, h2, rfl⟩
      refine safe_seq hrecorded (fun _ s3 _ h3 => ?_) fun _ _ _ hend => hend
      refine closing_safe hsep h3.1 ?_ hhash hfault
      rw [h3.2]
      exact hload
    · rw [if_pos hhash]
      exact safe_fail hs2 (herror _)

end Adlc.Tickets
