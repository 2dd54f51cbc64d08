import Adlc.Core.Glob
import Adlc.Framework.IntNumber
import Adlc.Framework.LeastSet
import Adlc.Tickets.Filename
import Adlc.Tickets.Snapshot

namespace Adlc.TicketPrune

open Adlc.Framework Adlc.Tickets

/-! The sweep that archives stale tickets of a directory store. -/

variable {ν : Type} [JsNumber ν] [Unicode]

/-! ## Staleness -/

def doneStatuses : List JsString :=
  [js "done", js "closed", js "complete", js "completed", js "archived", js "shipped"]

/-- `ticket.status` when it is a string. -/
def statusText (ticket : Json ν) : Option JsString :=
  match ticket.get? (js "status") with
  | some (.str s) => some s
  | _ => none

def explicitStatus (ticket : Json ν) : Option JsString := (statusText ticket).map Unicode.toLowerCase

def isExplicitlyDone (ticket : Json ν) : Bool := (explicitStatus ticket).any fun s => decide (s ∈ doneStatuses)

/-- `ticket?.scope ?? []` -/
def scopeOf (ticket : Json ν) : List JsString :=
  match ticket.get? (js "scope") with
  | some (.arr xs) => xs.map toText
  | _ => []

def scopeShipped (trackedFiles : List JsString) (ticket : Json ν) : Bool :=
  decide (scopeOf ticket ≠ []) &&
    (scopeOf ticket).all fun glob => trackedFiles.any fun file => Core.globMatch glob file

structure Classification where
  id : JsString
  stale : Bool
  reason : JsString

def classifyTicket (trackedFiles : List JsString) (inferScope : Bool) (ticket : Json ν) : Classification :=
  match statusText ticket with
  | some status => ⟨idOf ticket, isExplicitlyDone ticket, js "explicit status: \"" ++ status ++ js "\""⟩
  | none =>
    if scopeOf ticket = [] then
      ⟨idOf ticket, false,
        js "no explicit status and no declared scope — cannot infer, treated as active"⟩
    else if !inferScope then
      ⟨idOf ticket, false,
        js "no explicit status; scope-existence inference is off (pass --infer-scope to enable it)"⟩
    else if scopeShipped trackedFiles ticket then
      ⟨idOf ticket, true, js "inferred: all " ++ decimal (scopeOf ticket).length ++
        js " declared scope glob(s) resolve to tracked files on the base ref"⟩
    else ⟨idOf ticket, false, js "no explicit status; declared scope not fully present on the base ref"⟩

inductive Blocker where
  | preexistingCompletedField | railsFreeze

structure CeremonyEntry (ν : Type) where
  id : JsString
  reason : JsString
  rails : List (Json ν)
  blocker : Blocker
  ticketHash : JsString

inductive Disposition (ν : Type) where
  | done | tombstone
  | ceremony (entry : CeremonyEntry ν)

/-- `Array.isArray(ticket.rails) ? ticket.rails : []` -/
def railsOf (ticket : Json ν) : List (Json ν) :=
  match ticket.get? (js "rails") with
  | some (.arr xs) => xs
  | _ => []

/-- `ticket.completed === true` -/
def isCompleted (ticket : Json ν) : Bool :=
  match ticket.get? (js "completed") with
  | some (.bool b) => b
  | _ => false

def ceremonyDisposition (ticket : Json ν) (reason : JsString) : Disposition ν :=
  if isCompleted ticket then .done
  else if (ticket.get? (js "completed")).isSome then
    .ceremony ⟨idOf ticket, reason, railsOf ticket, .preexistingCompletedField, hashOf ticket⟩
  else if railsOf ticket ≠ [] then
    .ceremony ⟨idOf ticket, reason, railsOf ticket, .railsFreeze, hashOf ticket⟩
  else .tombstone

/-! ## The order of the candidates -/

/-- `ticketsById.get(a)?.edges` as far as they lead from `a` to another candidate. -/
def mustPrecede (tickets : List (Json ν)) (candidates : List JsString) (a : JsString) : List JsString :=
  if a ∈ candidates then
    (((byIdGet tickets a).map targets).getD []).filter fun b => decide (b ≠ a ∧ b ∈ candidates)
  else []

/-- Candidates are put out as the count of the candidates that refer to them comes down to zero. No
count does so twice, so that none is put out twice. -/
def sourcesFirst (tickets : List (Json ν)) (candidates : List JsString) : List JsString :=
  let next := mustPrecede tickets candidates
  (Countdown.drain (fun _ => true) next candidates.length []
    ⟨fun b => ((candidates.flatMap next).count b : Nat),
      candidates.filter fun b => decide ((candidates.flatMap next).count b = 0)⟩).1

def orderArchiveCandidates (tickets : List (Json ν)) (candidateIds : List JsString) : List JsString :=
  let candidates := candidateIds.filter fun id => (byIdGet tickets id).isSome
  let ordered := sourcesFirst tickets candidates
  ordered ++ candidates.filter fun id => decide (id ∉ ordered)

/-! ## Archiving -/

/-- The other tickets that refer to `id`. -/
def inboundOf (tickets : List (Json ν)) (id : JsString) : List (Json ν) :=
  tickets.filter fun item => decide (id? item ≠ some id ∧ id ∈ targets item)

/-- The errors of an archive call other than an inbound edge: those found before the edges are looked
at, and those found after. -/
structure ArchiveFaults (ν : Type) where
  before : List (Json ν) → JsString → Option TicketStoreError
  after : List (Json ν) → JsString → Option TicketStoreError

/-- What is left of the active store. -/
def archiveTicket (faults : ArchiveFaults ν) (active : List (Json ν)) (id : JsString) :
    Except TicketStoreError (List (Json ν)) :=
  match faults.before active id with
  | some error => .error error
  | none =>
    match byIdGet active id with
    | none => .error (invalid "TICKET_NOT_FOUND" (js "ticket not found: " ++ id))
    | some _ =>
      if inboundOf active id ≠ [] then
        .error (policy "ARCHIVE_INBOUND_EDGE" (id ++ js " is referenced by " ++
          join (js ", ") ((inboundOf active id).map idOf)))
      else
        match faults.after active id with
        | some error => .error error
        | none => .ok (active.filter fun item => decide (id? item ≠ some id))

/-! ## The sweep -/

structure PruneEnv (ν : Type) where
  trackedFiles : List JsString
  inferScope : Bool
  faults : ArchiveFaults ν

structure Archived (ν : Type) where
  ticket : Json ν
  reason : JsString

structure BlockedEntry where
  id : JsString
  reason : JsString
  error : TicketStoreError

structure SweepState (ν : Type) where
  store : List (Json ν)
  archived : List (Archived ν)
  needsCeremony : List (CeremonyEntry ν)
  blocked : List BlockedEntry
  failed : Option (JsString × TicketStoreError)

def PruneEnv.classify (env : PruneEnv ν) (ticket : Json ν) : Classification :=
  classifyTicket env.trackedFiles env.inferScope ticket

/-- One candidate, with the reason of the first pass; after a fault nothing is done any more. -/
def PruneEnv.sweepOne (env : PruneEnv ν) (reasonOf : JsString → JsString) (s : SweepState ν)
    (id : JsString) : SweepState ν :=
  if s.failed.isSome then s
  else
    match byIdGet s.store id with
    | none => s
    | some ticket =>
      let reclassified := env.classify ticket
      if !reclassified.stale then s
      else
        match ceremonyDisposition ticket reclassified.reason with
        | .done => s
        | .ceremony entry => { s with needsCeremony := s.needsCeremony ++ [entry] }
        | .tombstone =>
          match archiveTicket env.faults s.store id with
          | .ok store => { s with store, archived := s.archived ++ [⟨ticket, reclassified.reason⟩] }
          | .error error =>
            if error.code = js "ARCHIVE_INBOUND_EDGE" then
              { s with blocked := s.blocked ++ [⟨id, reasonOf id, error⟩] }
            else { s with failed := some (id, error) }

structure PruneReport (ν : Type) where
  stale : List Classification
  active : List Classification
  sweep : SweepState ν

/-- `computeNeedsCeremony` -/
def PruneEnv.computeNeedsCeremony (env : PruneEnv ν) (tickets : List (Json ν)) : List (CeremonyEntry ν) :=
  (tickets.filter fun t => (env.classify t).stale).filterMap fun t =>
    match ceremonyDisposition t (env.classify t).reason with
    | .ceremony entry => some entry
    | _ => none

def PruneEnv.staleOf (env : PruneEnv ν) (tickets : List (Json ν)) : List Classification :=
  (tickets.map env.classify).filter (·.stale)

def PruneEnv.reasonOf (env : PruneEnv ν) (tickets : List (Json ν)) (id : JsString) : JsString :=
  (((env.staleOf tickets).find? fun r => decide (r.id = id)).map (·.reason)).getD []

/-- `runTicketPrune` on a directory store, from its loaded tickets on. -/
def PruneEnv.runTicketPrune (env : PruneEnv ν) (write : Bool) (tickets : List (Json ν)) : PruneReport ν :=
  let stale := env.staleOf tickets
  let active := (tickets.filter fun t => !(env.classify t).stale && !isCompleted t).map env.classify
  if !write || decide (stale = []) then
    ⟨stale, active, ⟨tickets, [], env.computeNeedsCeremony tickets, [], none⟩⟩
  else
    ⟨stale, active, (orderArchiveCandidates tickets (stale.map (·.id))).foldl
      (env.sweepOne (env.reasonOf tickets)) ⟨tickets, [], [], [], none⟩⟩

/-! ## What may go -/

/-- A stale ticket without a completed field and without rails. -/
structure PruneEnv.Eligible (env : PruneEnv ν) (ticket : Json ν) : Prop where
  stale : (env.classify ticket).stale = true
  pristine : ticket.get? (js "completed") = none
  railless : railsOf ticket = []

def PruneEnv.EligibleId (env : PruneEnv ν) (tickets : List (Json ν)) (id : JsString) : Prop :=
  ∃ ticket ∈ tickets, id? ticket = some id ∧ env.Eligible ticket

/-- The least set of eligible tickets that has a ticket once it has all that refer to it. -/
def PruneEnv.Archivable (env : PruneEnv ν) (tickets : List (Json ν)) (id : JsString) : Prop :=
  Freed (Blocks tickets) (env.EligibleId tickets) id

/-- A stale ticket that is not completed, with rails or a completed field. -/
structure PruneEnv.Ceremonial (env : PruneEnv ν) (ticket : Json ν) : Prop where
  stale : (env.classify ticket).stale = true
  uncompleted : isCompleted ticket = false
  guarded : (ticket.get? (js "completed")).isSome = true ∨ railsOf ticket ≠ []

def PruneEnv.CeremonialId (env : PruneEnv ν) (tickets : List (Json ν)) (id : JsString) : Prop :=
  ∃ ticket ∈ tickets, id? ticket = some id ∧ env.Ceremonial ticket

/-- An eligible ticket that has to stay. -/
def PruneEnv.BlockedId (env : PruneEnv ν) (tickets : List (Json ν)) (id : JsString) : Prop :=
  env.EligibleId tickets id ∧ ¬env.Archivable tickets id

/-- A sweep took away what may go, reported what is blocked and what needs a ceremony, and left the
rest. -/
structure ExactSweep (env : PruneEnv ν) (tickets : List (Json ν)) (s : SweepState ν) : Prop where
  unfailed : s.failed = none
  archived : ∀ id, id ∈ s.archived.map (fun a => idOf a.ticket) ↔ env.Archivable tickets id
  once : (s.archived.map fun a => idOf a.ticket).Nodup
  order : s.store.Sublist tickets
  store : ∀ ticket, ticket ∈ s.store ↔ ticket ∈ tickets ∧ ¬env.Archivable tickets (idOf ticket)
  blocked : ∀ id, id ∈ s.blocked.map (·.id) ↔ env.BlockedId tickets id
  ceremony : ∀ id, id ∈ s.needsCeremony.map (·.id) ↔ env.CeremonialId tickets id

/-! ## Dispositions -/

/-- What becomes of a stale ticket, by the fields the claims about it name. -/
inductive DispositionCase (ticket : Json ν) (reason : JsString) : Disposition ν → Prop where
  | done (h : isCompleted ticket = true) : DispositionCase ticket reason .done
  | ceremony (entry : CeremonyEntry ν) (hid : entry.id = idOf ticket) (h : isCompleted ticket = false)
      (hg : (ticket.get? (js "completed")).isSome = true ∨ railsOf ticket ≠ []) :
      DispositionCase ticket reason (.ceremony entry)
  | tombstone (h : ticket.get? (js "completed") = none) (hr : railsOf ticket = []) :
      DispositionCase ticket reason .tombstone

omit [Unicode] in
theorem disposition_cases (ticket : Json ν) (reason : JsString) :
    DispositionCase ticket reason (ceremonyDisposition ticket reason) := by
  unfold ceremonyDisposition
  split_ifs with hdone hfield hrails
  · exact .done hdone
  · exact .ceremony _ rfl (by simpa using hdone) (Or.inl hfield)
  · exact .ceremony _ rfl (by simpa using hdone) (Or.inr hrails)
  · exact .tombstone (by simpa using hfield) (not_not.mp hrails)

theorem PruneEnv.Eligible.not_ceremonial {env : PruneEnv ν} {ticket : Json ν} (h : env.Eligible ticket) :
    ¬env.Ceremonial ticket := by
  intro hc
  obtain hfield | hrails := hc.guarded
  · rw [h.pristine] at hfield
    cases hfield
  · exact hrails h.railless

/-! ## The order -/

/-- The candidates, in the order in which they are found. -/
def PruneEnv.candidates (env : PruneEnv ν) (tickets : List (Json ν)) : List JsString :=
  (env.staleOf tickets).map (·.id)

theorem classify_id (env : PruneEnv ν) (ticket : Json ν) : (env.classify ticket).id = idOf ticket := by
  unfold PruneEnv.classify classifyTicket
  split
  · rfl
  · split_ifs <;> rfl

theorem candidates_eq (env : PruneEnv ν) (tickets : List (Json ν)) :
    env.candidates tickets = (tickets.filter fun t => (env.classify t).stale).map idOf := by
  rw [PruneEnv.candidates, PruneEnv.staleOf, List.filter_map, List.map_map]
  exact List.map_congr_left fun t _ => classify_id env t

/-- What the sweep has done once it has gone through `done`. -/
structure Swept (env : PruneEnv ν) (tickets : List (Json ν)) (done : List JsString) (s : SweepState ν) :
    Prop where
  unfailed : s.failed = none
  archived : ∀ id, id ∈ s.archived.map (fun a => idOf a.ticket) ↔ id ∈ done ∧ env.Archivable tickets id
  once : (s.archived.map fun a => idOf a.ticket).Sublist done
  order : s.store.Sublist tickets
  store : ∀ ticket, ticket ∈ s.store ↔
    ticket ∈ tickets ∧ ¬(idOf ticket ∈ done ∧ env.Archivable tickets (idOf ticket))
  blocked : ∀ id, id ∈ s.blocked.map (·.id) ↔ id ∈ done ∧ env.BlockedId tickets id
  ceremony : ∀ id, id ∈ s.needsCeremony.map (·.id) ↔ id ∈ done ∧ env.CeremonialId tickets id

section

variable {tickets : List (Json ν)} (hv : ValidTickets tickets)

include hv

omit [Unicode] in
theorem id?_eq_idOf {ticket : Json ν} (h : ticket ∈ tickets) : id? ticket = some (idOf ticket) := by
  obtain ⟨id, hid, -⟩ := id?_of_valid (hv.valid ticket h)
  rw [idOf, hid]
  rfl

omit [Unicode] in
theorem idOf_inj {t u : Json ν} (ht : t ∈ tickets) (hu : u ∈ tickets) (h : idOf t = idOf u) : t = u := by
  refine List.inj_on_of_nodup_map hv.ids ht hu ?_
  rw [id?_eq_idOf hv ht, id?_eq_idOf hv hu, h]

variable (env : PruneEnv ν)

theorem mem_candidates (id : JsString) :
    id ∈ env.candidates tickets ↔ ∃ t ∈ tickets, id? t = some id ∧ (env.classify t).stale = true := by
  rw [candidates_eq, List.mem_map]
  constructor
  · rintro ⟨t, ht, rfl⟩
    obtain ⟨hmem, hstale⟩ := List.mem_filter.mp ht
    exact ⟨t, hmem, id?_eq_idOf hv hmem, hstale⟩
  · rintro ⟨t, ht, hid, hstale⟩
    refine ⟨t, List.mem_filter.mpr ⟨ht, hstale⟩, ?_⟩
    rw [idOf, hid]
    rfl

theorem candidates_nodup : (env.candidates tickets).Nodup := by
  rw [candidates_eq]
  have hnodup : (tickets.filter fun t => (env.classify t).stale).Nodup :=
    (List.Nodup.of_map _ hv.ids).filter _
  refine hnodup.map_on ?_
  intro t ht u hu
  exact idOf_inj hv (List.mem_of_mem_filter ht) (List.mem_of_mem_filter hu)

omit [Unicode] in
theorem mem_mustPrecede {candidates : List JsString} (hc : ∀ id ∈ candidates, some id ∈ tickets.map id?)
    (a b : JsString) :
    b ∈ mustPrecede tickets candidates a ↔ a ∈ candidates ∧ b ∈ candidates ∧ Blocks tickets a b := by
  unfold mustPrecede
  split_ifs with ha
  · obtain ⟨t, ht, hid⟩ := List.mem_map.mp (hc a ha)
    rw [byIdGet_eq hv.ids ht hid, List.mem_filter, decide_eq_true_eq]
    have hblocks : b ∈ targets t ↔ Blocks tickets a b := by
      constructor
      · exact fun hb => ⟨t, ht, hid, hb⟩
      · rintro ⟨u, hu, hidu, hb⟩
        rw [List.inj_on_of_nodup_map hv.ids ht hu (hid.trans hidu.symm)]
        exact hb
    have hself : ¬Blocks tickets b b := fun h => hv.acyclic b (Relation.TransGen.single h)
    constructor
    · rintro ⟨hb, -, hin⟩
      exact ⟨ha, hin, hblocks.mp hb⟩
    · rintro ⟨-, hin, hb⟩
      refine ⟨hblocks.mpr hb, ?_, hin⟩
      rintro rfl
      exact hself hb
  · exact iff_of_false List.not_mem_nil fun h => ha h.1

theorem order_sourcesFirst :
    SourcesFirst (mustPrecede tickets (env.candidates tickets)) (env.candidates tickets)
      (orderArchiveCandidates tickets (env.candidates tickets)) := by
  have hknown : ∀ id ∈ env.candidates tickets, some id ∈ tickets.map id? := by
    intro id hid
    obtain ⟨t, ht, hidt, -⟩ := (mem_candidates hv env id).mp hid
    exact List.mem_map.mpr ⟨t, ht, hidt⟩
  have hkeep : (env.candidates tickets).filter (fun id => (byIdGet tickets id).isSome) =
      env.candidates tickets := by
    refine List.filter_eq_self.mpr fun id hid => ?_
    obtain ⟨t, ht, hidt⟩ := List.mem_map.mp (hknown id hid)
    rw [byIdGet_eq hv.ids ht hidt]
    rfl
  have hmem := mem_mustPrecede hv hknown
  have hac : ∀ a, ¬Relation.TransGen (Edge (mustPrecede tickets (env.candidates tickets))) a a := by
    intro a ha
    exact hv.acyclic a (Relation.TransGen.mono (fun p q h => ((hmem p q).mp h).2.2) _ _ ha)
  have horder : SourcesFirst (mustPrecede tickets (env.candidates tickets)) (env.candidates tickets)
      (sourcesFirst tickets (env.candidates tickets)) :=
    drain_sourcesFirst (candidates_nodup hv env)
      (fun a v h => ⟨((hmem a v).mp h).1, ((hmem a v).mp h).2.1⟩) hac
  have hnone : (env.candidates tickets).filter
      (fun id => decide (id ∉ sourcesFirst tickets (env.candidates tickets))) = [] := by
    refine List.filter_eq_nil_iff.mpr fun id hid => ?_
    rw [decide_eq_true_eq, not_not]
    exact (horder.mem id).mpr hid
  rw [orderArchiveCandidates, hkeep, hnone, List.append_nil]
  exact horder

/-! ## One candidate -/

variable {env}

omit [Unicode] in
theorem sub_valid {store : List (Json ν)} (hs : store.Sublist tickets) : (store.map id?).Nodup :=
  hv.ids.sublist (hs.map id?)

theorem mem_candidates_of_archivable {id : JsString} (h : env.Archivable tickets id) :
    id ∈ env.candidates tickets := by
  obtain ⟨t, ht, hid, heligible⟩ := Freed.isAllowed h
  exact (mem_candidates hv env id).mpr ⟨t, ht, hid, heligible.stale⟩

/-- No ticket that is left refers to a candidate exactly when the candidate may go. -/
theorem inbound_nil_iff {done : List JsString} {s : SweepState ν} (h : Swept env tickets done s) {ticket : Json ν}
    {id : JsString} (ht : ticket ∈ tickets) (hid : id? ticket = some id) (heligible : env.Eligible ticket)
    (hbefore : ∀ a, id ∈ mustPrecede tickets (env.candidates tickets) a → a ∈ done) :
    inboundOf s.store id = [] ↔ env.Archivable tickets id := by
  have hinbound : inboundOf s.store id = [] ↔ ∀ p, Blocks tickets p id → p ∈ done ∧ env.Archivable tickets p := by
    rw [inboundOf, List.filter_eq_nil_iff]
    constructor
    · rintro hnone p ⟨item, hitem, hidp, hto⟩
      by_contra hstay
      have hp : idOf item = p := by
        rw [idOf, hidp]
        rfl
      have hin : item ∈ s.store := (h.store item).mpr ⟨hitem, hp ▸ hstay⟩
      refine hnone item hin (decide_eq_true ⟨?_, hto⟩)
      rw [hidp]
      intro e
      obtain rfl := Option.some.inj e
      exact hv.acyclic p (Relation.TransGen.single ⟨item, hitem, hidp, hto⟩)
    · intro hall item hitem hin
      obtain ⟨-, hto⟩ := of_decide_eq_true hin
      obtain ⟨hmem, hstay⟩ := (h.store item).mp hitem
      exact hstay (hall (idOf item) ⟨item, hmem, id?_eq_idOf hv hmem, hto⟩)
  rw [hinbound]
  constructor
  · exact fun hall => Freed.intro id ⟨ticket, ht, hid, heligible⟩ fun p hp => (hall p hp).2
  · intro hfree p hp
    have hfreed : env.Archivable tickets p := Freed.pred hfree hp
    have hnext : id ∈ mustPrecede tickets (env.candidates tickets) p := by
      refine (mem_mustPrecede hv ?_ p id).mpr
        ⟨mem_candidates_of_archivable hv hfreed, mem_candidates_of_archivable hv hfree, hp⟩
      intro c hc
      obtain ⟨t, ht, hidt, -⟩ := (mem_candidates hv env c).mp hc
      exact List.mem_map.mpr ⟨t, ht, hidt⟩
    exact ⟨hbefore p hnext, hfreed⟩

/-- Faults other than an inbound edge do not occur. -/
def ArchiveFaults.Absent (faults : ArchiveFaults ν) : Prop :=
  ∀ store id, faults.before store id = none ∧ faults.after store id = none

theorem sweepOne_swept (hfaults : env.faults.Absent) (reasonOf : JsString → JsString)
    {done : List JsString} {s : SweepState ν} {id : JsString} (h : Swept env tickets done s)
    (hnew : id ∉ done) (hc : id ∈ env.candidates tickets)
    (hbefore : ∀ a, id ∈ mustPrecede tickets (env.candidates tickets) a → a ∈ done) :
    Swept env tickets (done ++ [id]) (env.sweepOne reasonOf s id) := by
  obtain ⟨ticket, ht, hid, hstale⟩ := (mem_candidates hv env id).mp hc
  have hunique : ∀ t ∈ tickets, id? t = some id → t = ticket := fun t htm hidt =>
    List.inj_on_of_nodup_map hv.ids htm ht (hidt.trans hid.symm)
  have hidOf : idOf ticket = id := by
    rw [idOf, hid]
    rfl
  have hin : ticket ∈ s.store := (h.store ticket).mpr ⟨ht, fun hdone => hnew (hidOf ▸ hdone.1)⟩
  have hget : byIdGet s.store id = some ticket := byIdGet_eq (sub_valid hv h.order) hin hid
  have helig : env.EligibleId tickets id ↔ env.Eligible ticket := by
    constructor
    · rintro ⟨t, htm, hidt, he⟩
      exact hunique t htm hidt ▸ he
    · exact fun he => ⟨ticket, ht, hid, he⟩
  have hcere : env.CeremonialId tickets id ↔ env.Ceremonial ticket := by
    constructor
    · rintro ⟨t, htm, hidt, he⟩
      exact hunique t htm hidt ▸ he
    · exact fun he => ⟨ticket, ht, hid, he⟩
  -- what is said of `done ++ [id]` is what was said of `done`, and what holds of `id`
  have hsplit : ∀ (P : JsString → Prop) (x : JsString),
      x ∈ done ++ [id] ∧ P x ↔ (x ∈ done ∧ P x) ∨ (x = id ∧ P id) := by
    intro P x
    rw [List.mem_append, List.mem_singleton, or_and_right]
    refine or_congr_right (and_congr_right ?_)
    rintro rfl
    exact Iff.rfl
  have hkeep : ∀ (P : JsString → Prop), ¬P id → ∀ x, x ∈ done ∧ P x ↔ x ∈ done ++ [id] ∧ P x := by
    intro P hP x
    rw [hsplit P, or_iff_left fun e => hP e.2]
  have hgrow : ∀ (P : JsString → Prop) (l : List JsString), P id → (∀ x, x ∈ l ↔ x ∈ done ∧ P x) →
      ∀ x, x ∈ l ++ [id] ↔ x ∈ done ++ [id] ∧ P x := by
    intro P l hP hl x
    rw [hsplit P, List.mem_append, List.mem_singleton, hl, and_iff_left hP]
  have hblockedAt : env.BlockedId tickets id → env.Eligible ticket :=
    fun hb => helig.mp hb.1
  have hfree : env.Archivable tickets id → env.Eligible ticket := fun ha => helig.mp (Freed.isAllowed ha)
  have honce := h.once.trans (List.sublist_append_left done [id])
  have hstore : ¬env.Archivable tickets id → ∀ t, t ∈ s.store ↔
      t ∈ tickets ∧ ¬(idOf t ∈ done ++ [id] ∧ env.Archivable tickets (idOf t)) := by
    intro ha t
    rw [h.store, hkeep (env.Archivable tickets) ha]
  have hcase := disposition_cases ticket (env.classify ticket).reason
  unfold PruneEnv.sweepOne
  have hgoing : ¬s.failed.isSome = true := by
    rw [h.unfailed]
    exact Bool.false_ne_true
  rw [if_neg hgoing, hget]
  dsimp only
  rw [hstale, if_neg (by exact Bool.false_ne_true)]
  generalize ceremonyDisposition ticket (env.classify ticket).reason = d at hcase ⊢
  cases hcase with
  | done hcompleted =>
    have hno : ¬env.Eligible ticket := by
      intro he
      rw [isCompleted, he.pristine] at hcompleted
      cases hcompleted
    have hnoCere : ¬env.Ceremonial ticket := by
      intro hce
      rw [hce.uncompleted] at hcompleted
      cases hcompleted
    have ha : ¬env.Archivable tickets id := fun ha => hno (hfree ha)
    exact ⟨h.unfailed, fun x => (h.archived x).trans (hkeep (env.Archivable tickets) ha x), honce, h.order, hstore ha,
      fun x => (h.blocked x).trans (hkeep (env.BlockedId tickets) (fun hb => hno (hblockedAt hb)) x),
      fun x => (h.ceremony x).trans (hkeep (env.CeremonialId tickets) (fun hce => hnoCere (hcere.mp hce)) x)⟩
  | ceremony entry hentry hcompleted hguard =>
    have hce : env.Ceremonial ticket := ⟨hstale, hcompleted, hguard⟩
    have hno : ¬env.Eligible ticket := fun he => he.not_ceremonial hce
    have ha : ¬env.Archivable tickets id := fun ha => hno (hfree ha)
    refine ⟨h.unfailed, fun x => (h.archived x).trans (hkeep (env.Archivable tickets) ha x), honce, h.order, hstore ha,
      fun x => (h.blocked x).trans (hkeep (env.BlockedId tickets) (fun hb => hno (hblockedAt hb)) x), ?_⟩
    intro x
    rw [List.map_append, List.map_singleton, hentry, hidOf]
    exact hgrow (env.CeremonialId tickets) _ (hcere.mpr hce) h.ceremony x
  | tombstone hpristine hrails =>
    have he : env.Eligible ticket := ⟨hstale, hpristine, hrails⟩
    have hnoCere : ¬env.Ceremonial ticket := he.not_ceremonial
    have hceremony := fun x => (h.ceremony x).trans (hkeep (env.CeremonialId tickets) (fun hce => hnoCere (hcere.mp hce)) x)
    have hinbound := inbound_nil_iff hv h ht hid he hbefore
    unfold archiveTicket
    rw [(hfaults s.store id).1, hget]
    dsimp only
    by_cases hnone : inboundOf s.store id = []
    · have ha := hinbound.mp hnone
      rw [if_neg (not_not.mpr hnone), (hfaults s.store id).2]
      refine ⟨h.unfailed, ?_, ?_, List.filter_sublist.trans h.order, ?_,
        fun x => (h.blocked x).trans (hkeep (env.BlockedId tickets) (fun hb => hb.2 ha) x), hceremony⟩
      · intro x
        rw [List.map_append, List.map_singleton, hidOf]
        exact hgrow (env.Archivable tickets) _ ha h.archived x
      · rw [List.map_append, List.map_singleton, hidOf]
        exact h.once.append (List.Sublist.refl _)
      · intro t
        rw [List.mem_filter, decide_eq_true_eq, h.store, hsplit (env.Archivable tickets), not_or, and_assoc]
        refine and_congr_right fun htm => and_congr_right fun _ => ?_
        rw [not_and_or, or_iff_left (not_not.mpr ha), id?_eq_idOf hv htm]
        exact not_congr Option.some_inj
    · have ha : ¬env.Archivable tickets id := fun ha => hnone (hinbound.mpr ha)
      rw [if_pos hnone]
      dsimp only [policy]
      rw [if_pos rfl]
      refine ⟨h.unfailed, fun x => (h.archived x).trans (hkeep (env.Archivable tickets) ha x), honce, h.order, hstore ha, ?_, hceremony⟩
      intro x
      rw [List.map_append, List.map_singleton]
      exact hgrow (env.BlockedId tickets) _ ⟨helig.mpr he, ha⟩ h.blocked x

/-- The whole sweep, whatever of the order is done. -/
theorem sweep_swept (hfaults : env.faults.Absent) (reasonOf : JsString → JsString) (rest done : List JsString)
    (s : SweepState ν) (h : Swept env tickets done s)
    (horder : SourcesFirst (mustPrecede tickets (env.candidates tickets)) (env.candidates tickets) (done ++ rest)) :
    Swept env tickets (done ++ rest) (rest.foldl (env.sweepOne reasonOf) s) := by
  induction rest generalizing done s with
  | nil =>
    rw [List.append_nil]
    exact h
  | cons id rest ih =>
    have hnew : id ∉ done := fun hdone =>
      (List.nodup_append.mp horder.nodup).2.2 id hdone id List.mem_cons_self rfl
    have hc := (horder.mem id).mp (List.mem_append_right _ List.mem_cons_self)
    have hstep := sweepOne_swept hv hfaults reasonOf h hnew hc (horder.before done id rest rfl)
    rw [List.append_cons] at horder ⊢
    exact ih _ _ hstep horder

/-! ## The whole run -/

theorem mem_candidates_of_eligible {id : JsString} (h : env.EligibleId tickets id) :
    id ∈ env.candidates tickets := by
  obtain ⟨t, ht, hid, heligible⟩ := h
  exact (mem_candidates hv env id).mpr ⟨t, ht, hid, heligible.stale⟩

theorem mem_candidates_of_ceremonial {id : JsString} (h : env.CeremonialId tickets id) :
    id ∈ env.candidates tickets := by
  obtain ⟨t, ht, hid, hceremonial⟩ := h
  exact (mem_candidates hv env id).mpr ⟨t, ht, hid, hceremonial.stale⟩

/-- Once all candidates are done, the sweep is exact. -/
theorem Swept.exact {done : List JsString} {s : SweepState ν} (h : Swept env tickets done s)
    (hdone : done.Nodup) (hall : ∀ id ∈ env.candidates tickets, id ∈ done) : ExactSweep env tickets s := by
  have hfree : ∀ id, id ∈ done ∧ env.Archivable tickets id ↔ env.Archivable tickets id := fun id =>
    and_iff_right_of_imp fun ha => hall id (mem_candidates_of_archivable hv ha)
  refine ⟨h.unfailed, fun id => (h.archived id).trans (hfree id), hdone.sublist h.once, h.order, ?_, ?_, ?_⟩
  · intro ticket
    rw [h.store, hfree]
  · exact fun id => (h.blocked id).trans
      (and_iff_right_of_imp fun hb => hall id (mem_candidates_of_eligible hv hb.1))
  · exact fun id => (h.ceremony id).trans
      (and_iff_right_of_imp fun hce => hall id (mem_candidates_of_ceremonial hv hce))

omit hv in
theorem start_swept (env : PruneEnv ν) : Swept env tickets [] ⟨tickets, [], [], [], none⟩ := by
  have hnone : ∀ (P : JsString → Prop) (id : JsString), id ∈ ([] : List JsString) ↔ id ∈ ([] : List JsString) ∧ P id :=
    fun P id => iff_of_false List.not_mem_nil fun h => List.not_mem_nil h.1
  exact ⟨rfl, hnone _, List.Sublist.refl _, List.Sublist.refl _,
    fun ticket => (and_iff_left fun h => List.not_mem_nil h.1).symm, hnone _, hnone _⟩

theorem run_exact (hfaults : env.faults.Absent) : ExactSweep env tickets (env.runTicketPrune true tickets).sweep := by
  have horder := order_sourcesFirst hv env
  have hswept := sweep_swept hv hfaults (env.reasonOf tickets)
    (orderArchiveCandidates tickets (env.candidates tickets)) [] _ (start_swept env) horder
  rw [List.nil_append] at hswept
  have hexact := hswept.exact hv horder.nodup fun id => (horder.mem id).mpr
  unfold PruneEnv.runTicketPrune
  dsimp only
  by_cases hstale : env.staleOf tickets = []
  · have hcandidates : env.candidates tickets = [] := by
      rw [PruneEnv.candidates, hstale, List.map_nil]
    have hdone : orderArchiveCandidates tickets (env.candidates tickets) = [] := by
      refine List.eq_nil_iff_forall_not_mem.mpr fun id hid => ?_
      have hmem := (horder.mem id).mp hid
      rw [hcandidates] at hmem
      cases hmem
    have hceremony : env.computeNeedsCeremony tickets = [] := by
      have hfilter : (tickets.filter fun t => (env.classify t).stale) = [] := by
        rw [candidates_eq, List.map_eq_nil_iff] at hcandidates
        exact hcandidates
      rw [PruneEnv.computeNeedsCeremony, hfilter]
      rfl
    rw [hdone] at hexact
    rw [hstale, hceremony]
    exact hexact
  · rw [decide_eq_false hstale]
    exact hexact

/-- What is left is a valid store. -/
theorem ExactSweep.valid {s : SweepState ν} (h : ExactSweep env tickets s) : ValidTickets s.store := by
  have hsub : ∀ a b, Blocks s.store a b → Blocks tickets a b := by
    rintro a b ⟨t, ht, hid, hto⟩
    exact ⟨t, ((h.store t).mp ht).1, hid, hto⟩
  refine ⟨fun t ht => hv.valid t ((h.store t).mp ht).1, sub_valid hv h.order, ?_, ?_⟩
  · rintro a b ⟨t, ht, hid, hto⟩
    obtain ⟨htm, hstay⟩ := (h.store t).mp ht
    obtain ⟨u, hu, hidu⟩ := List.mem_map.mp (hv.known a b ⟨t, htm, hid, hto⟩)
    have hb : idOf u = b := by
      rw [idOf, hidu]
      rfl
    have ha : idOf t = a := by
      rw [idOf, hid]
      rfl
    refine List.mem_map.mpr ⟨u, (h.store u).mpr ⟨hu, fun hfree => hstay ?_⟩, hidu⟩
    rw [hb] at hfree
    rw [ha]
    exact Freed.pred hfree ⟨t, htm, hid, hto⟩
  · exact fun a ha => hv.acyclic a (Relation.TransGen.mono hsub _ _ ha)

omit hv in
theorem ExactSweep.settled {s : SweepState ν} (h : ExactSweep env tickets s) (id : JsString) :
    ¬env.Archivable s.store id := by
  refine @Freed.settled _ (Blocks tickets) _ (env.EligibleId tickets) _ ?_ ?_ id
  · rintro v ⟨t, ht, hid, heligible⟩
    obtain ⟨htm, hstay⟩ := (h.store t).mp ht
    have hv' : idOf t = v := by
      rw [idOf, hid]
      rfl
    exact ⟨⟨t, htm, hid, heligible⟩, hv' ▸ hstay⟩
  · rintro p v ⟨t, ht, hid, hto⟩
    have hp : idOf t = p := by
      rw [idOf, hid]
      rfl
    by_cases hfree : env.Archivable tickets p
    · exact Or.inr hfree
    · exact Or.inl ⟨t, (h.store t).mpr ⟨ht, hp ▸ hfree⟩, hid, hto⟩

/-- The sweep archives the least set of eligible tickets that has a ticket once it has all that refer to
it, and a second sweep archives nothing. -/
theorem runTicketPrune_exact (hfaults : env.faults.Absent) :
    ExactSweep env tickets (env.runTicketPrune true tickets).sweep ∧
      (env.runTicketPrune true (env.runTicketPrune true tickets).sweep.store).sweep.archived = [] := by
  have hexact := run_exact hv hfaults
  have hagain := run_exact (hexact.valid hv) hfaults
  refine ⟨hexact, ?_⟩
  rw [← List.map_eq_nil_iff (f := fun a => idOf a.ticket)]
  exact List.eq_nil_iff_forall_not_mem.mpr fun id hid => hexact.settled id ((hagain.archived id).mp hid)

end

/-! ## Samples -/

def calmEnv : PruneEnv Int := ⟨[], false, ⟨fun _ _ => none, fun _ _ => none⟩⟩

def doneTicket (id : String) (fields : Members Int) : Json Int :=
  .obj ([(js "id", .str (js id)), (js "title", .str (js "x")), (js "status", .str (js "done"))] ++ fields)

/-- Two stale tickets, the first with an edge to the second. -/
def chainedTickets : List (Json Int) :=
  [doneTicket "A" [(js "edges", .arr [.obj [(js "to", .str (js "B"))]])], doneTicket "B" []]

omit [Unicode] in
theorem chainedTickets_valid : ValidTickets chainedTickets :=
  validTickets_of_leadsForward (by decide +kernel) (by decide +kernel) (by decide +kernel)

omit [Unicode] in
theorem runTicketPrune_chained :
    @ExactSweep Int _ asciiUnicode calmEnv chainedTickets
        (@PruneEnv.runTicketPrune Int _ asciiUnicode calmEnv true chainedTickets).sweep ∧
      (@PruneEnv.runTicketPrune Int _ asciiUnicode calmEnv true
        (@PruneEnv.runTicketPrune Int _ asciiUnicode calmEnv true chainedTickets).sweep.store).sweep.archived = [] :=
  @runTicketPrune_exact Int _ asciiUnicode chainedTickets chainedTickets_valid calmEnv fun _ _ => ⟨rfl, rfl⟩

/-- A completed ticket that still declares rails. -/
def completedTicket : Json Int :=
  doneTicket "A" [(js "rails", .arr [.str (js "r")]), (js "completed", .bool true)]

omit [Unicode] in
/-- A stale ticket with rails is not reported when it is completed. -/
theorem completed_rails_unreported :
    ∃ tickets : List (Json Int), ValidTickets tickets ∧ calmEnv.faults.Absent ∧
      ∃ t ∈ tickets, (@PruneEnv.classify Int _ asciiUnicode calmEnv t).stale = true ∧ railsOf t ≠ [] ∧
        (@PruneEnv.runTicketPrune Int _ asciiUnicode calmEnv true tickets).sweep.needsCeremony = [] := by
  have hvalid : ValidTickets [completedTicket] :=
    validTickets_of_leadsForward (by decide +kernel) (by decide +kernel) (by decide +kernel)
  refine ⟨[completedTicket], hvalid, fun _ _ => ⟨rfl, rfl⟩, completedTicket, List.mem_singleton.mpr rfl, ?_, ?_, ?_⟩
  · decide
  · exact List.cons_ne_nil _ _
  · rfl

end Adlc.TicketPrune
