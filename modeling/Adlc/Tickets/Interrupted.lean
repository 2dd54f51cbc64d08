import Adlc.Tickets.Staging

namespace Adlc.Tickets

open Adlc.Framework Program

variable {ν : Type} [JsNumber ν]

/-! ## What a transaction may leave -/

def planChanges (id : JsString) (plan : List PlannedChange) : List (Change Place Bytes) :=
  plan.map (PlannedChange.change id)

/-- The plan's files are shards of the active store and of the archive, each of them once. -/
structure Separate (id : JsString) (plan : List PlannedChange) : Prop where
  transactionId : isTransactionId id = true
  targets : (plan.map PlannedChange.target).Nodup
  dirs : ∀ p ∈ plan, p.target.dir = .tickets ∨ p.target.dir = .archive
  names : ∀ p ∈ plan, isShardFilename p.target.name = true

def temporarySuffixes : List String := [".txn-", ".recovery-", ".rollback-"]

/-- What is written by the way: the files beside the plan's, and the manifest. -/
inductive Incidental (id : JsString) (plan : List PlannedChange) : Place → Prop where
  | temporary {p : PlannedChange} (hp : p ∈ plan) {suffix : String} (hsuffix : suffix ∈ temporarySuffixes) :
    Incidental id plan (temporaryOf p.target suffix id)
  | manifest : Incidental id plan manifestPlace
  | segment (name : JsString) : Incidental id plan ⟨.segments, name⟩

/-- What a transaction leaves alone, beside its own files. -/
structure Beside (id : JsString) (plan : List PlannedChange) (s0 s : Repo) : Prop where
  files : ∀ place, place.dir.belongsTo id = false → place ∉ plan.map PlannedChange.target →
    ¬Incidental id plan place → s.file place = s0.file place
  dirs : ∀ d, d = .tickets ∨ d = .archive → (s0.dirs d).isSome = true → (s.dirs d).isSome = true

/-- The journal is missing, not yet written, or whole. -/
def JournalOf (ν : Type) [JsNumber ν] (t : Transaction) (s : Repo) : Prop :=
  s.file (journalPlace t.id) = none ∨ s.file (journalPlace t.id) = some [] ∨
    ∃ state, s.file (journalPlace t.id) = some (t.bytes ν state)

/-- The journal is whole and all copies are there; each planned change is made or not. -/
structure Pending (ν : Type) [JsNumber ν] (t : Transaction) (plan : List PlannedChange) (s0 s : Repo) : Prop where
  journal : ∃ state, s.file (journalPlace t.id) = some (t.bytes ν state)
  logged : Logged (planChanges t.id plan) s.file
  beside : Beside t.id plan s0 s

/-- The planned changes are all made, or all undone. -/
structure Finished (ν : Type) [JsNumber ν] (t : Transaction) (plan : List PlannedChange) (s0 : Repo)
    (d : Direction) (s : Repo) : Prop where
  journal : JournalOf ν t s
  settled : Settled d (planChanges t.id plan) s.file
  leftover : Leftover (planChanges t.id plan) s.file
  beside : Beside t.id plan s0 s

/-- Nothing but the transaction's own files was touched, and there is no journal that could be read. -/
structure Unjournaled (id : JsString) (s0 s : Repo) : Prop where
  kept : OthersKept id s0 s
  journal : s.file (journalPlace id) = none ∨ s.file (journalPlace id) = some []

/-- Where a transaction or its recovery may have stopped. -/
inductive Interrupted (ν : Type) [JsNumber ν] (t : Transaction) (plan : List PlannedChange) (s0 s : Repo) : Prop where
  | unjournaled (h : Unjournaled t.id s0 s)
  | pending (h : Pending ν t plan s0 s)
  | finished (d : Direction) (h : Finished ν t plan s0 d s)

/-! ## The files of a plan -/

variable {t : Transaction} {plan : List PlannedChange} {p : PlannedChange} {s0 s s' : Repo} {d : Direction}
  {id : JsString} {place : Place}

theorem shardFilename_last {name : JsString} (h : isShardFilename name = true) : name.getLast? = some 110 := by
  unfold isShardFilename at h
  simp only [Bool.and_eq_true, decide_eq_true_eq] at h
  obtain ⟨-, hend⟩ := h
  have hlast : (js ".json").getLast? = some 110 := by decide
  rw [← List.take_append_drop (name.length - 71 + 66) name, hend, List.getLast?_append, hlast]
  rfl

theorem matchesClasses_last {classes : List (UInt16 → Bool)} {inClass : UInt16 → Bool} {s : JsString}
    (h : matchesClasses (classes ++ [inClass]) s = true) : ∃ c, s.getLast? = some c ∧ inClass c = true := by
  induction classes generalizing s with
  | nil =>
    cases s with
    | nil => cases h
    | cons c s =>
      cases s with
      | nil => exact ⟨c, rfl, by simpa [matchesClasses] using h⟩
      | cons e s => simp [matchesClasses] at h
  | cons f classes ih =>
    cases s with
    | nil => cases h
    | cons c s =>
      obtain ⟨-, h⟩ := (Bool.and_eq_true _ _).mp h
      obtain ⟨e, he, hin⟩ := ih h
      exact ⟨e, by rw [List.getLast?_cons, he]; rfl, hin⟩

/-- A transaction's id ends like no shard's name. -/
theorem transactionId_last (h : isTransactionId id = true) : ∃ c, id.getLast? = some c ∧ c ≠ 110 := by
  have htail : List.replicate 12 isHexAnyCase = List.replicate 11 isHexAnyCase ++ [isHexAnyCase] := rfl
  unfold isTransactionId at h
  dsimp only at h
  rw [htail, ← List.append_assoc] at h
  obtain ⟨c, hc, hhex⟩ := matchesClasses_last h
  refine ⟨c, hc, ?_⟩
  rintro rfl
  revert hhex
  decide

theorem Separate.own (h : Separate id plan) (hp : p ∈ plan) : p.target.dir.belongsTo id = false := by
  obtain hdir | hdir := h.dirs p hp <;> rw [hdir] <;> rfl

theorem Separate.apart (h : Separate id plan) : Apart (planChanges id plan) where
  targets := by
    rw [planChanges, List.map_map]
    exact h.targets
  stages c hc e he heq := by
    obtain ⟨p, hp, rfl⟩ := List.mem_map.mp hc
    obtain ⟨q, -, rfl⟩ := List.mem_map.mp he
    have hown := h.own hp
    rw [show p.target = stagePlace id q.key from heq, stage_own] at hown
    cases hown
  backups c hc e he heq := by
    obtain ⟨p, hp, rfl⟩ := List.mem_map.mp hc
    obtain ⟨q, -, rfl⟩ := List.mem_map.mp he
    have hown := h.own hp
    rw [show p.target = backupPlace id q.key from heq, backup_own] at hown
    cases hown

/-- What is written by the way is none of the plan's files, nor one of the transaction's own. -/
theorem Incidental.foreign (hsep : Separate id plan) (h : Incidental id plan place) :
    place.dir.belongsTo id = false ∧ place ∉ plan.map PlannedChange.target := by
  cases h with
  | @temporary p hp suffix hsuffix =>
    refine ⟨hsep.own hp, fun hmem => ?_⟩
    obtain ⟨q, hq, htarget⟩ := List.mem_map.mp hmem
    obtain ⟨c, hc, hne⟩ := transactionId_last hsep.transactionId
    have hlast := shardFilename_last (hsep.names q hq)
    rw [htarget] at hlast
    simp only [temporaryOf, List.getLast?_append, hc, Option.some_or, Option.some.injEq] at hlast
    exact hne hlast
  | manifest =>
    refine ⟨rfl, fun hmem => ?_⟩
    obtain ⟨q, hq, htarget⟩ := List.mem_map.mp hmem
    obtain hdir | hdir := hsep.dirs q hq <;> rw [htarget] at hdir <;> cases hdir
  | segment name =>
    refine ⟨rfl, fun hmem => ?_⟩
    obtain ⟨q, hq, htarget⟩ := List.mem_map.mp hmem
    obtain hdir | hdir := hsep.dirs q hq <;> rw [htarget] at hdir <;> cases hdir

theorem not_incidental (hsep : Separate id plan)
    (h : place.dir.belongsTo id = true ∨ place ∈ plan.map PlannedChange.target) :
    ¬Incidental id plan place := by
  intro hin
  obtain ⟨hown, htarget⟩ := hin.foreign hsep
  obtain h | h := h
  · rw [hown] at h
    cases h
  · exact htarget h

theorem involved_cases (h : Involved (planChanges id plan) place) :
    place.dir.belongsTo id = true ∨ place ∈ plan.map PlannedChange.target := by
  obtain ⟨c, hc, h⟩ := h
  obtain ⟨p, hp, rfl⟩ := List.mem_map.mp hc
  obtain rfl | rfl | rfl := h
  · exact .inr (List.mem_map_of_mem hp)
  · exact .inl (stage_own id p.key)
  · exact .inl (backup_own id p.key)

/-! ## Steps that leave the plan's files and the transaction's own alone -/

/-- Nothing changes but what is written by the way. -/
structure Framed (id : JsString) (plan : List PlannedChange) (s s' : Repo) : Prop where
  files : ∀ place, ¬Incidental id plan place → s'.file place = s.file place
  dirs : ∀ d, d = .tickets ∨ d = .archive → (s.dirs d).isSome = true → (s'.dirs d).isSome = true

theorem framed_put (h : Incidental id plan place) (s : Repo) (bytes : Bytes) :
    Framed id plan s (s.put place bytes) where
  files other hother := file_put_ne bytes (by
    rintro rfl
    exact hother h)
  dirs d _ hd := dirs_put_isSome bytes hd

theorem framed_erase (h : Incidental id plan place) (s : Repo) : Framed id plan s (s.erase place) where
  files other hother := file_erase_ne (by
    rintro rfl
    exact hother h)
  dirs d _ hd := by
    rw [dirs_erase_isSome]
    exact hd

theorem framed_setManifest (s : Repo) (files : ManifestFiles) : Framed id plan s (s.setManifest files) where
  files other hother := by
    have hmanifest : other ≠ manifestPlace := by
      rintro rfl
      exact hother .manifest
    have hsegments : other.dir ≠ .segments := by
      intro hdir
      obtain ⟨dir, name⟩ := other
      obtain rfl : dir = .segments := hdir
      exact hother (.segment name)
    unfold Repo.setManifest
    cases files.root with
    | none =>
      show ((s.setDir .segments files.segments).erase manifestPlace).file other = _
      rw [file_erase_ne hmanifest, Repo.file, dirs_setDir_ne _ hsegments, Repo.file]
    | some bytes =>
      show ((s.setDir .segments files.segments).put manifestPlace bytes).file other = _
      rw [file_put_ne bytes hmanifest, Repo.file, dirs_setDir_ne _ hsegments, Repo.file]
  dirs d hd hsome := by
    have h1 : d ≠ .adlc := by
      rintro rfl
      obtain hd | hd := hd <;> cases hd
    have h2 : d ≠ .segments := by
      rintro rfl
      obtain hd | hd := hd <;> cases hd
    rw [dirs_setManifest_ne h1 h2]
    exact hsome

theorem Beside.framed (h : Beside id plan s0 s) (hframe : Framed id plan s s') : Beside id plan s0 s' where
  files place hown htarget hin := (hframe.files place hin).trans (h.files place hown htarget hin)
  dirs d hd hsome := hframe.dirs d hd (h.dirs d hd hsome)

theorem Pending.framed (h : Pending ν t plan s0 s) (hsep : Separate t.id plan) (hframe : Framed t.id plan s s') :
    Pending ν t plan s0 s' where
  journal := by
    rw [hframe.files _ (not_incidental hsep (.inl (journal_own t.id)))]
    exact h.journal
  logged := h.logged.congr fun place hp => hframe.files place (not_incidental hsep (involved_cases hp))
  beside := h.beside.framed hframe

theorem Finished.framed (h : Finished ν t plan s0 d s) (hsep : Separate t.id plan)
    (hframe : Framed t.id plan s s') : Finished ν t plan s0 d s' where
  journal := by
    unfold JournalOf
    rw [hframe.files _ (not_incidental hsep (.inl (journal_own t.id)))]
    exact h.journal
  settled := h.settled.congr fun c hc =>
    hframe.files _ (not_incidental hsep (involved_cases ⟨c, hc, .inl rfl⟩))
  leftover := h.leftover.mono
    (fun c hc => .inr (hframe.files _ (not_incidental hsep (involved_cases ⟨c, hc, .inr (.inl rfl)⟩))))
    fun c hc => .inr (hframe.files _ (not_incidental hsep (involved_cases ⟨c, hc, .inr (.inr rfl)⟩)))
  beside := h.beside.framed hframe

/-! ## One planned change is made, or undone -/

/-- The file of one planned change is now as the direction wants it. -/
structure Made (id : JsString) (p : PlannedChange) (d : Direction) (s s' : Repo) : Prop where
  files : s'.file = Function.update s.file p.target ((p.change id).goal d)
  dirs : ∀ d, (s.dirs d).isSome = true → (s'.dirs d).isSome = true

theorem made_put {bytes : Bytes} (h : (p.change id).goal d = some bytes) (s : Repo) :
    Made id p d s (s.put p.target bytes) where
  files := by rw [file_put_eq, h]
  dirs _ := dirs_put_isSome bytes

theorem made_erase (h : (p.change id).goal d = none) (s : Repo) : Made id p d s (s.erase p.target) where
  files := by rw [file_erase_eq, h]
  dirs e he := by
    rw [dirs_erase_isSome]
    exact he

theorem Made.file_ne (h : Made id p d s s') (hne : place ≠ p.target) : s'.file place = s.file place := by
  rw [h.files, Function.update_of_ne hne]

theorem Beside.made (h : Beside id plan s0 s) (hp : p ∈ plan) (hmade : Made id p d s s') :
    Beside id plan s0 s' where
  files place hown htarget hin := by
    rw [hmade.file_ne (by
      rintro rfl
      exact htarget (List.mem_map_of_mem hp))]
    exact h.files place hown htarget hin
  dirs e he hsome := hmade.dirs e (h.dirs e he hsome)

theorem own_ne_target (hsep : Separate id plan) (hp : p ∈ plan) (hown : place.dir.belongsTo id = true) :
    place ≠ p.target := by
  rintro rfl
  rw [hsep.own hp] at hown
  cases hown

theorem Pending.made (h : Pending ν t plan s0 s) (hsep : Separate t.id plan) (hp : p ∈ plan)
    (hmade : Made t.id p d s s') : Pending ν t plan s0 s' where
  journal := by
    rw [hmade.file_ne (own_ne_target hsep hp (journal_own t.id))]
    exact h.journal
  logged := by
    rw [hmade.files]
    exact h.logged.settle hsep.apart (List.mem_map_of_mem hp) d
  beside := h.beside.made hp hmade

/-- Made once more, a change of a finished transaction changes nothing. -/
theorem Finished.made (h : Finished ν t plan s0 d s) (hp : p ∈ plan) (hmade : Made t.id p d s s') :
    Finished ν t plan s0 d s' := by
  have hsame : s'.file = s.file := hmade.files.trans (h.settled.again (List.mem_map_of_mem hp))
  refine ⟨?_, ?_, ?_, h.beside.made hp hmade⟩
  · unfold JournalOf
    rw [hsame]
    exact h.journal
  · rw [hsame]
    exact h.settled
  · rw [hsame]
    exact h.leftover

/-! ## On the way in a direction -/

/-- The log is being worked off in the direction, or it was already. -/
def Midway (ν : Type) [JsNumber ν] (t : Transaction) (plan : List PlannedChange) (s0 : Repo) (d : Direction)
    (s : Repo) : Prop := Pending ν t plan s0 s ∨ Finished ν t plan s0 d s

theorem Midway.framed (h : Midway ν t plan s0 d s) (hsep : Separate t.id plan)
    (hframe : Framed t.id plan s s') : Midway ν t plan s0 d s' :=
  h.imp (fun h => h.framed hsep hframe) fun h => h.framed hsep hframe

theorem Midway.made (h : Midway ν t plan s0 d s) (hsep : Separate t.id plan) (hp : p ∈ plan)
    (hmade : Made t.id p d s s') : Midway ν t plan s0 d s' :=
  h.imp (fun h => h.made hsep hp hmade) fun h => h.made hp hmade

theorem Midway.leftover (h : Midway ν t plan s0 d s) : Leftover (planChanges t.id plan) s.file := by
  obtain h | h := h
  · exact h.logged.toCopied.leftover
  · exact h.leftover

/-- Worked off, a transaction is finished. -/
theorem Midway.finish (h : Midway ν t plan s0 d s) (hsettled : Settled d (planChanges t.id plan) s.file) :
    Finished ν t plan s0 d s := by
  obtain h | h := h
  · exact ⟨.inr (.inr h.journal), hsettled, h.logged.toCopied.leftover, h.beside⟩
  · exact h

theorem Midway.interrupted (h : Midway ν t plan s0 d s) : Interrupted ν t plan s0 s := by
  obtain h | h := h
  · exact .pending h
  · exact .finished d h

end Adlc.Tickets
