import Adlc.Tickets.Interrupted

namespace Adlc.Tickets

open Adlc.Framework Program

variable {ν : Type} [JsNumber ν] [Unicode]

/-! ## What the callers ask for -/

/-- An archive writes the ticket's shard of the archive; a restore deletes it. -/
structure Archives (root : Path) (o : TransactionOptions) (aux : AuxiliaryOperation) : Prop where
  ticket : ∃ ticketId, o.ticketId = some ticketId ∧
    resolve root aux.path = root ++ Directory.archive.segmentsOf ++ [ticketFilename ticketId]
  action : o.operation = js "archive" ∧ aux.action = .write ∨ o.operation = js "restore" ∧ aux.action = .delete

/-- The mutations of the service have no auxiliary operation, an archive and a restore have one. -/
def Requested (root : Path) (o : TransactionOptions) : Prop :=
  o.auxiliaryOperations = [] ∨ ∃ aux, o.auxiliaryOperations = [aux] ∧ Archives root o aux

/-- What a transaction was prepared to do. -/
structure Prepared {id : JsString} (process : TransactionProcess ν id) (tickets : List (Json ν))
    (o : TransactionOptions) (s0 : Repo) (before : TicketSnapshot ν) (t : Transaction)
    (plan : List PlannedChange) : Prop where
  identity : t.id = id
  loaded : activeStore.load (s0.dirs .tickets) = .ok before
  planned : plan = transactionPlan s0 process.root before tickets o.auxiliaryOperations
  operation : t.operation = o.operation
  ticketId : t.ticketId = o.ticketId
  beforeHash : t.beforeHash = before.hash
  afterHash : storeHash tickets = .ok t.afterHash
  operations : t.operations = plan.map (PlannedChange.operation id)

/-! ## The plan -/

/-- A planned change of one of the active store's shards. -/
structure OfTicket (p : PlannedChange) : Prop where
  role : p.role = .ticket
  key : p.key = p.filename
  target : p.target = shardPlace p.filename
  name : isShardFilename p.filename = true

/-- The planned change of the archive's shard. -/
structure OfArchive (o : TransactionOptions) (p : PlannedChange) : Prop where
  role : p.role = .auxiliary
  key : p.key = auxiliaryKey 0
  target : ∃ ticketId, o.ticketId = some ticketId ∧ p.target = ⟨.archive, ticketFilename ticketId⟩
  action : o.operation = js "archive" ∧ p.after.isSome = true ∨ o.operation = js "restore" ∧ p.after = none

def ticketPlan (repo : Repo) (before : TicketSnapshot ν) (tickets : List (Json ν)) : List PlannedChange :=
  (byFilename tickets).flatMap (planTicket repo) ++ (obsoleteFilenames before tickets).flatMap (planDeletion repo)

variable {id : JsString} {self : TransactionProcess ν id} {o : TransactionOptions} {s0 s : Repo} {root : Path}
  {before : TicketSnapshot ν} {tickets : List (Json ν)} {plan done : List PlannedChange} {t : Transaction}
  {p : PlannedChange} {faults : Prop}

theorem transactionPlan_eq (repo : Repo) (root : Path) (before : TicketSnapshot ν) (tickets : List (Json ν))
    (auxiliaries : List AuxiliaryOperation) : transactionPlan repo root before tickets auxiliaries =
      ticketPlan repo before tickets ++ auxiliaries.zipIdx.flatMap (planAuxiliary repo root) := rfl

omit [JsNumber ν] in
theorem byFilename_eq (tickets : List (Json ν)) :
    byFilename tickets = lastByKey (fun ticket => ticketFilename (idOf ticket)) tickets := by
  induction tickets using List.reverseRecOn with
  | nil => rfl
  | append_singleton tickets ticket ih =>
    rw [lastByKey_concat, ← ih, byFilename, List.foldl_append]
    rfl

omit [JsNumber ν] in
theorem byFilename_names (tickets : List (Json ν)) : (byFilename tickets).map Prod.fst =
    firstSeen (tickets.map fun ticket => ticketFilename (idOf ticket)) := by
  rw [byFilename_eq, map_fst_lastByKey]

omit [JsNumber ν] in
/-- Each shard is written or deleted once. -/
theorem shards_nodup (before : TicketSnapshot ν) (tickets : List (Json ν)) :
    ((byFilename tickets).map Prod.fst ++ obsoleteFilenames before tickets).Nodup := by
  refine List.nodup_append.mpr ⟨?_, (firstSeen_nodup _).filter _, ?_⟩
  · rw [byFilename_names]
    exact firstSeen_nodup _
  · intro a ha b hb hab
    exact of_decide_eq_true (List.mem_filter.mp hb).2 (hab ▸ ha)

omit [JsNumber ν] in
theorem shards_isShard {name : JsString}
    (h : name ∈ (byFilename tickets).map Prod.fst ++ obsoleteFilenames before tickets) :
    isShardFilename name = true := by
  obtain h | h := List.mem_append.mp h
  · rw [byFilename_names, mem_firstSeen] at h
    obtain ⟨ticket, -, rfl⟩ := List.mem_map.mp h
    exact ticketFilename_isShard _
  · obtain ⟨ticket, -, rfl⟩ := List.mem_map.mp (mem_firstSeen.mp (List.mem_filter.mp h).1)
    exact ticketFilename_isShard _

omit [Unicode] in
theorem planTicket_cases (repo : Repo) (entry : JsString × Json ν) : planTicket repo entry = [] ∨
    ∃ text, prettyCanonicalJson entry.2 = .ok text ∧
      planTicket repo entry = [⟨.ticket, entry.1, entry.1, shardPlace entry.1, repo.file (shardPlace entry.1),
        some (utf8Encode text)⟩] := by
  unfold planTicket
  split
  · exact .inl rfl
  · rename_i text htext
    split
    · exact .inl rfl
    · exact .inr ⟨text, htext, rfl⟩

theorem ticketPlan_keys (repo : Repo) (before : TicketSnapshot ν) (tickets : List (Json ν)) :
    ((ticketPlan repo before tickets).map PlannedChange.key).Sublist
      ((byFilename tickets).map Prod.fst ++ obsoleteFilenames before tickets) := by
  rw [ticketPlan, List.map_append]
  refine List.Sublist.append ?_ ?_
  · induction byFilename tickets with
    | nil => exact .slnil
    | cons entry entries ih =>
      rw [List.flatMap_cons, List.map_append, List.map_cons]
      obtain hnone | ⟨text, -, hone⟩ := planTicket_cases repo entry
      · rw [hnone]
        exact ih.cons _
      · rw [hone]
        exact ih.cons_cons _
  · induction obsoleteFilenames before tickets with
    | nil => exact .slnil
    | cons filename filenames ih =>
      rw [List.flatMap_cons, List.map_append]
      exact ih.cons_cons _

theorem ticketPlan_ofTicket {repo : Repo} (hp : p ∈ ticketPlan repo before tickets) : OfTicket p := by
  have hkey := (ticketPlan_keys repo before tickets).subset (List.mem_map_of_mem hp)
  have hname := shards_isShard hkey
  obtain hp | hp := List.mem_append.mp hp
  · obtain ⟨entry, -, hp⟩ := List.mem_flatMap.mp hp
    obtain hnone | ⟨text, -, hone⟩ := planTicket_cases repo entry
    · rw [hnone] at hp
      cases hp
    · rw [hone] at hp
      obtain rfl := List.mem_singleton.mp hp
      exact ⟨rfl, rfl, rfl, hname⟩
  · obtain ⟨filename, -, hp⟩ := List.mem_flatMap.mp hp
    obtain rfl := List.mem_singleton.mp hp
    exact ⟨rfl, rfl, rfl, hname⟩

/-- A plan changes shards of the active store, and after these one of the archive, or none. -/
theorem auxiliaryPlan_cases (h : Requested root o) (repo : Repo) :
    o.auxiliaryOperations.zipIdx.flatMap (planAuxiliary repo root) = [] ∨
      ∃ p, o.auxiliaryOperations.zipIdx.flatMap (planAuxiliary repo root) = [p] ∧ OfArchive o p := by
  obtain hnone | ⟨aux, hone, ⟨ticketId, hticket, hpath⟩, haction⟩ := h
  · left
    rw [hnone]
    rfl
  · right
    refine ⟨_, by rw [hone]; rfl, rfl, rfl, ⟨ticketId, hticket, ?_⟩, ?_⟩
    · have hplace : ∀ path, (⟨.archive, ticketFilename ticketId⟩ : Place).dir ≠ .other path := by
        rintro _ ⟨⟩
      rw [hpath]
      exact locate_path root hplace
    · obtain ⟨hoperation, haction⟩ | ⟨hoperation, haction⟩ := haction <;> rw [haction]
      · exact .inl ⟨hoperation, rfl⟩
      · exact .inr ⟨hoperation, rfl⟩

omit [Unicode] in
theorem auxiliaryKey_not_shard : isShardFilename (auxiliaryKey 0) = false := by decide

theorem ticketPlan_separate (hid : isTransactionId id = true) (repo : Repo) :
    Separate id (ticketPlan repo before tickets) := by
  have hticket : ∀ p ∈ ticketPlan repo before tickets, OfTicket p := fun p hp => ticketPlan_ofTicket hp
  have hshards : (ticketPlan repo before tickets).map PlannedChange.target =
      ((ticketPlan repo before tickets).map PlannedChange.key).map shardPlace := by
    rw [List.map_map]
    refine List.map_congr_left fun p hp => ?_
    rw [(hticket p hp).target, Function.comp_apply, (hticket p hp).key]
  refine ⟨hid, ?_, fun p hp => .inl ?_, fun p hp => ?_⟩
  · rw [hshards]
    exact ((shards_nodup before tickets).sublist (ticketPlan_keys repo before tickets)).map
      fun a b hab => congrArg Place.name hab
  · rw [(hticket p hp).target]
    rfl
  · rw [(hticket p hp).target]
    exact (hticket p hp).name

omit [Unicode] in
/-- Another change keeps a plan fit for a log, if it is of a shard that no change before it is of. -/
theorem Separate.concat (h : Separate id plan) (hdir : p.target.dir = .tickets ∨ p.target.dir = .archive)
    (hname : isShardFilename p.target.name = true) (hnew : p.target ∉ plan.map PlannedChange.target) :
    Separate id (plan ++ [p]) where
  transactionId := h.transactionId
  targets := by
    rw [List.map_append, List.map_singleton, List.nodup_append]
    refine ⟨h.targets, List.nodup_singleton _, fun a ha b hb hab => hnew ?_⟩
    rw [← List.mem_singleton.mp hb, ← hab]
    exact ha
  dirs q hq := by
    obtain hq | hq := List.mem_append.mp hq
    · exact h.dirs q hq
    · exact List.mem_singleton.mp hq ▸ hdir
  names q hq := by
    obtain hq | hq := List.mem_append.mp hq
    · exact h.names q hq
    · exact List.mem_singleton.mp hq ▸ hname

/-- A plan is fit for a log: its files are shards, each of them once, and its copies have keys of their own. -/
theorem plan_separate (hid : isTransactionId id = true) (h : Requested root o) (repo : Repo) :
    Separate id (transactionPlan repo root before tickets o.auxiliaryOperations) ∧
      ((transactionPlan repo root before tickets o.auxiliaryOperations).map PlannedChange.key).Nodup := by
  have hseparate := (ticketPlan_separate hid repo : Separate id (ticketPlan repo before tickets))
  have hkeys : ((ticketPlan repo before tickets).map PlannedChange.key).Nodup :=
    (shards_nodup before tickets).sublist (ticketPlan_keys repo before tickets)
  rw [transactionPlan_eq]
  obtain hnone | ⟨q, hone, hq⟩ := auxiliaryPlan_cases h repo
  · rw [hnone, List.append_nil]
    exact ⟨hseparate, hkeys⟩
  obtain ⟨ticketId, -, htarget⟩ := hq.target
  rw [hone]
  constructor
  · refine hseparate.concat ?_ ?_ fun hmem => ?_
    · rw [htarget]
      exact .inr rfl
    · rw [htarget]
      exact ticketFilename_isShard ticketId
    · obtain ⟨p, hp, hsame⟩ := List.mem_map.mp hmem
      rw [(ticketPlan_ofTicket hp).target, htarget] at hsame
      cases hsame
  · rw [List.map_append, List.map_singleton]
    refine List.nodup_append.mpr ⟨hkeys, List.nodup_singleton _, ?_⟩
    intro a ha b hb hab
    obtain ⟨p, hp, rfl⟩ := List.mem_map.mp ha
    obtain rfl := List.mem_singleton.mp hb
    have hname := (ticketPlan_ofTicket hp).name
    rw [← (ticketPlan_ofTicket hp).key, hab, hq.key, auxiliaryKey_not_shard] at hname
    cases hname

theorem plan_before {repo : Repo} (hp : p ∈ transactionPlan repo root before tickets o.auxiliaryOperations) :
    p.before = repo.file p.target := by
  obtain hp | hp := List.mem_append.mp hp
  · obtain hp | hp := List.mem_append.mp hp
    · obtain ⟨entry, -, hp⟩ := List.mem_flatMap.mp hp
      obtain hnone | ⟨text, -, hone⟩ := planTicket_cases repo entry
      · rw [hnone] at hp
        cases hp
      · rw [hone] at hp
        obtain rfl := List.mem_singleton.mp hp
        rfl
    · obtain ⟨filename, -, hp⟩ := List.mem_flatMap.mp hp
      obtain rfl := List.mem_singleton.mp hp
      rfl
  · obtain ⟨entry, -, hp⟩ := List.mem_flatMap.mp hp
    obtain rfl := List.mem_singleton.mp hp
    rfl

/-! ## Preparing -/

omit [JsNumber ν] [Unicode] in
theorem file_mkdir (s : Repo) (d : Directory) :
    (s.setDir d (some ((s.dirs d).getD ∅))).file = s.file := by
  funext place
  by_cases hd : place.dir = d
  · rw [Repo.file, hd, dirs_setDir, Repo.file, hd]
    cases s.dirs d <;> rfl
  · rw [Repo.file, dirs_setDir_ne _ hd, Repo.file]

omit [JsNumber ν] [Unicode] in
theorem mkdir_safe {d : Directory} (h : Staging id s0 s) (hown : d.belongsTo id = true)
    (hmade : d = .transaction id ∨ (s.dirs (.transaction id)).isSome = true) :
    (durableMkdir d).Safe faults (Staging id s0)
      (EndsIn fun _ s' => s' = s.setDir d (some ((s.dirs d).getD ∅)) ∧ Staging id s0 s' ∧
        (s'.dirs (.transaction id)).isSome = true) s := by
  have hthere : ((s.setDir d (some ((s.dirs d).getD ∅))).dirs (.transaction id)).isSome = true := by
    by_cases hd : d = .transaction id
    · rw [hd, dirs_setDir]
      rfl
    · rw [dirs_setDir_ne _ (Ne.symm hd)]
      exact hmade.resolve_left hd
  have hstaging : Staging id s0 (s.setDir d (some ((s.dirs d).getD ∅))) := by
    refine ⟨h.kept.setDir hown _, ?_, fun hnone => ?_⟩
    · rw [file_mkdir]
      exact h.unjournaled
    · rw [hnone] at hthere
      cases hthere
  exact safe_atomic h hstaging ⟨rfl, hstaging, hthere⟩ fun _ _ => trivial

omit [JsNumber ν] [Unicode] in
/-- The transaction's directories are made. -/
theorem mkdirs_safe {α : Type} {rest : Script α} {Q : Except TicketStoreError α → Repo → Prop}
    (h : Staging id s0 s) (hrest : ∀ s', Staged id s0 [] s' → rest.Safe faults (Staging id s0) Q s')
    (hbad : ∀ e s', Q (.error e) s') :
    Safe faults (Staging id s0) Q (do
      durableMkdir (.transaction id)
      durableMkdir (.stage id)
      durableMkdir (.backup id)
      rest) s := by
  refine safe_seq (mkdir_safe (d := .transaction id) h (decide_eq_true rfl) (.inl rfl)) (fun _ s1 _ h1 => ?_)
    fun e s' _ _ => hbad e s'
  refine safe_seq (mkdir_safe (d := .stage id) h1.2.1 (decide_eq_true rfl) (.inr h1.2.2)) (fun _ s2 _ h2 => ?_)
    fun e s' _ _ => hbad e s'
  refine safe_seq (mkdir_safe (d := .backup id) h2.2.1 (decide_eq_true rfl) (.inr h2.2.2)) (fun _ s3 _ h3 => ?_)
    fun e s' _ _ => hbad e s'
  have hne : Directory.stage id ≠ .backup id := by rintro ⟨⟩
  refine hrest s3 ⟨h3.2.1, h3.2.2, ?_, ?_, ⟨by rintro _ ⟨⟩, by rintro _ ⟨⟩⟩⟩
  · rw [h3.1, dirs_setDir_ne _ hne, h2.1, dirs_setDir]
    rfl
  · rw [h3.1, dirs_setDir]
    rfl

theorem written_stages (h : Staged id s0 [] s) :
    (stageAll (fun entry => stageTicket id entry.1 entry.2) (byFilename tickets)).Safe faults (Staging id s0)
      (EndsIn (Stages id s0 [] ((byFilename tickets).flatMap (planTicket s0)))) s := by
  refine stageAll_stages Prod.fst (fun entry p hp => ?_)
    (fun entry _ done s hs hkey => stageTicket_stages entry.2 hs hkey) ?_ (fun _ _ => List.not_mem_nil) h
  · obtain hnone | ⟨text, -, hone⟩ := planTicket_cases s0 entry
    · rw [hnone] at hp
      cases hp
    · rw [hone] at hp
      rw [List.mem_singleton.mp hp]
  · rw [byFilename_names]
    exact firstSeen_nodup _

theorem deleted_stage (h : Staged id s0 ((byFilename tickets).flatMap (planTicket s0)) s) :
    (stageAll (stageDeletion id) (obsoleteFilenames before tickets)).Safe faults (Staging id s0)
      (EndsIn (Stages id s0 ((byFilename tickets).flatMap (planTicket s0))
        ((obsoleteFilenames before tickets).flatMap (planDeletion s0)))) s := by
  refine stageAll_stages (fun filename => filename) (fun filename p hp => ?_)
    (fun _ _ done s hs hkey => stageDeletion_stages hs hkey) ?_ (fun filename hfilename hmem => ?_) h
  · rw [List.mem_singleton.mp hp]
  · rw [List.map_id']
    exact (firstSeen_nodup _).filter _
  · obtain ⟨p, hp, hkey⟩ := List.mem_map.mp hmem
    obtain ⟨entry, hentry, hp⟩ := List.mem_flatMap.mp hp
    have hname : p.key = entry.1 := by
      obtain hnone | ⟨text, -, hone⟩ := planTicket_cases s0 entry
      · rw [hnone] at hp
        cases hp
      · rw [hone] at hp
        rw [List.mem_singleton.mp hp]
    refine of_decide_eq_true (List.mem_filter.mp hfilename).2 ?_
    rw [← hkey, hname]
    exact List.mem_map_of_mem hentry

theorem auxiliary_stages (hrequest : Requested root o) (h : Staged id s0 (ticketPlan s0 before tickets) s) :
    (stageAll (stageAuxiliary root id) o.auxiliaryOperations.zipIdx).Safe faults (Staging id s0)
      (EndsIn (Stages id s0 (ticketPlan s0 before tickets)
        (o.auxiliaryOperations.zipIdx.flatMap (planAuxiliary s0 root)))) s := by
  have hplan : ∀ entry, ∀ p ∈ planAuxiliary s0 root entry, p.key = auxiliaryKey entry.2 := by
    intro entry p hp
    rw [List.mem_singleton.mp hp]
  obtain hnone | ⟨aux, hone, ⟨ticketId, -, hpath⟩, -⟩ := hrequest
  · rw [hnone]
    exact stageAll_stages _ hplan (fun _ h => by cases h) List.nodup_nil (fun _ h => by cases h) h
  · have hentry : o.auxiliaryOperations.zipIdx = [(aux, 0)] := by rw [hone]; rfl
    have hplace : ∀ path, (⟨.archive, ticketFilename ticketId⟩ : Place).dir ≠ .other path := by
      rintro _ ⟨⟩
    rw [hentry]
    refine stageAll_stages _ hplan (fun entry hmem done s hs hkey => ?_) (List.nodup_singleton _)
      (fun entry hmem hkey => ?_) h
    · refine stageAuxiliary_stages entry hs ?_ hkey
      rw [List.mem_singleton.mp hmem, hpath]
      exact congrArg (fun place : Place => place.dir.belongsTo id) (locate_path root hplace)
    · rw [List.mem_singleton.mp hmem] at hkey
      obtain ⟨p, hp, hkey⟩ := List.mem_map.mp hkey
      have hname := (ticketPlan_ofTicket hp).name
      rw [← (ticketPlan_ofTicket hp).key, hkey, auxiliaryKey_not_shard] at hname
      cases hname

/-- Everything that a plan changes is staged and backed up before the journal is written. -/
theorem prepare_safe {key : Option JsString} (hrequest : Requested self.root o)
    (hstate : s.dirs = s0.dirs) (hgone : Gone id s0) :
    (prepare self tickets o key).Safe faults (Staging id s0)
      (EndsIn fun prepared s' => ∃ before plan, Prepared self tickets o s0 before prepared.1 plan ∧
        Staged id s0 plan s') s := by
  have hstart : Staging id s0 s := by
    refine ⟨fun d _ => by rw [hstate], ?_, fun _ d hd => ?_⟩
    · rw [Repo.file, hstate, hgone (journalPlace id).dir (journal_own id)]
      rfl
    · rw [hstate]
      exact hgone d hd
  unfold prepare loadStore
  refine safe_bind (safe_bind (safe_get hstart ?_ fun _ _ => trivial))
  refine safe_lift hstart ?_
  rw [hstate]
  cases hload : activeStore.load (ν := ν) (s0.dirs .tickets) with
  | error e => trivial
  | ok before =>
    refine safe_check hstart (fun _ _ => ?_) fun _ _ => trivial
    refine safe_check hstart (fun changes _ => ?_) fun _ _ => trivial
    refine safe_bind (safe_get hstart ?_ fun _ _ => trivial)
    refine safe_check hstart (fun bypass _ => ?_) fun _ _ => trivial
    refine mkdirs_safe hstart (fun s1 h1 => ?_) fun _ _ => trivial
    refine safe_seq (written_stages h1) (fun written s2 _ h2 => ?_) fun _ _ _ _ => trivial
    refine safe_seq (deleted_stage h2.2) (fun deleted s3 _ h3 => ?_) fun _ _ _ _ => trivial
    refine safe_seq (auxiliary_stages hrequest h3.2) (fun auxiliary s4 hs4 h4 => ?_) fun _ _ _ _ => trivial
    refine safe_check hs4 (fun afterHash hafter => ?_) fun _ _ => trivial
    refine safe_check hs4 (fun binding _ => ?_) fun _ _ => trivial
    refine safe_pure hs4 ⟨before, _, ⟨rfl, hload, rfl, rfl, rfl, rfl, hafter, ?_⟩, h4.2⟩
    rw [transactionPlan_eq, ticketPlan, List.map_append, List.map_append, h2.1, h3.1, h4.1]

end Adlc.Tickets
