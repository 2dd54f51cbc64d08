import Adlc.Core.Glob
import Adlc.Tickets.ManifestPrimitives
import Adlc.Tickets.RoundTrip

namespace Adlc.Tickets

open Adlc.Framework Adlc.Core

variable {ν : Type} [JsNumber ν] [Unicode]

/-! ## What the service finds under its root -/

/-- The names in the archive directory, the text of the legacy archive, the manifests that a release
rewrites, and the files of the repository when it is one. -/
structure ServiceRoot where
  archiveNames : List JsString
  legacyArchive : Option JsString
  manifests : List JsString
  files : Option (List JsString)

def archiveCollision (id : JsString) : TicketStoreError :=
  conflict "ARCHIVE_COLLISION" (js "archive already contains " ++ id)

/-- `#assertIdNotArchived(id)` -/
def assertIdNotArchived (ν : Type) [JsNumber ν] (root : ServiceRoot) (id : JsString) :
    Except TicketStoreError Unit :=
  if ticketFilename id ∈ root.archiveNames then .error (archiveCollision id)
  else
    match root.legacyArchive with
    | none => .ok ()
    | some text =>
      match parseJson (ν := ν) text with
      | none =>
        .error (invalid "INVALID_LEGACY_ARCHIVE" (js "cannot parse .adlc/tickets.archive.json: "))
      | some parsed =>
        match parsed.get? (js "tickets") with
        | some (.arr tickets) =>
          if tickets.any fun ticket => eqStr (ticket.get? (js "id")) id then
            .error (archiveCollision id)
          else .ok ()
        | _ => .error (invalid "INVALID_LEGACY_ARCHIVE"
            (js ".adlc/tickets.archive.json must contain a tickets array"))

def coversManifest (manifests : List JsString) (rail : Json ν) : Bool :=
  match rail with
  | .str glob => decide (glob ≠ []) && manifests.any (globMatch glob)
  | _ => false

def matchesNothing (files : List JsString) (rail : Json ν) : Bool :=
  match rail with
  | .str glob => decide (glob ≠ []) && !files.any (globMatch glob)
  | _ => false

/-- `offenders.join(', ')` -/
def offenderText (offenders : List (Json ν)) : JsString := join (js ", ") (offenders.map toText)

def assertNoManifestRails (root : ServiceRoot) (newRails : List (Json ν)) :
    Except TicketStoreError Unit :=
  let offenders := newRails.filter (coversManifest root.manifests)
  if offenders = [] then .ok ()
  else .error (policy "RAIL_COVERS_MANIFEST"
    (js "rail(s) would freeze a manifest a release must rewrite: " ++ offenderText offenders ++
      js ". Rail the source subtree instead (e.g. \"packages/x/lib/**\"), not the package root. " ++
      js "See #235."))

def assertRailsExist (root : ServiceRoot) (newRails : List (Json ν)) :
    Except TicketStoreError Unit :=
  match root.files with
  | none => .ok ()
  | some files =>
    let offenders := newRails.filter (matchesNothing files)
    if offenders = [] then .ok ()
    else .error (invalid "RAIL_MATCHES_NOTHING"
      (js "rail(s) match no file in the repository, so they would freeze nothing: " ++
        offenderText offenders ++ js ". Rail existing files the change leaves alone."))

/-! ## The store of the service -/

/-- What the store of the service consists of: a directory of shards, or the one file of 1.x. -/
inductive StoreContent where
  | directory (dir : Option Dir)
  | legacy (file : Option Bytes)

def envelope (tickets : List (Json ν)) : Json ν := .obj [(js "tickets", .arr tickets)]

def LegacyTicketStore.load (file : Option Bytes) : Except TicketStoreError (TicketSnapshot ν) :=
  match file with
  | none =>
    .error (operational "STORE_NOT_FOUND" (js "tickets file not found: .adlc/tickets.json"))
  | some bytes =>
    match parseJson (utf8Decode bytes) with
    | none => .error (invalid "INVALID_JSON" (js "invalid JSON in .adlc/tickets.json: "))
    | some parsed =>
      match parsed.get? (js "tickets") with
      | some (.arr tickets) =>
        match validateTickets false true tickets with
        | .error e => .error e
        | .ok () => TicketSnapshot.make tickets
      | _ => .error (invalid "INVALID_ENVELOPE"
          (js ".adlc/tickets.json must contain \x7b \"tickets\": [...] \x7d"))

def StoreContent.load : StoreContent → Except TicketStoreError (TicketSnapshot ν)
  | .directory dir => activeStore.load dir
  | .legacy file => LegacyTicketStore.load file

/-- What a transaction writes of the tickets: the shard of each, or the one file. -/
def StoreContent.Written (content : StoreContent) (tickets : List (Json ν)) : Prop :=
  match content with
  | .directory dir => ∃ d, dir = some d ∧
      ∀ t ∈ tickets, d.lookup (ticketFilename (idOf t)) = some (shardBytes t)
  | .legacy file => file = some (shardBytes (envelope tickets))

/-! ## Plans -/

def refuseIf (refused : Bool) (e : TicketStoreError) : Except TicketStoreError Unit :=
  if refused then .error e else .ok ()

inductive FileOperation where
  | update (id : JsString)
  | rename (source target : JsString)

def FileOperation.toJson : FileOperation → Json ν
  | .update id => .obj [(js "action", .str (js "update")), (js "id", .str id)]
  | .rename source target =>
    .obj [(js "action", .str (js "rename")), (js "from", .str source), (js "to", .str target)]

/-- What `mutate` reports, the defaults of `#plan` filled in. -/
structure PlanDetail where
  ticketId : JsString
  beforeTicketId : JsString
  changedFields : List JsString
  fileOperations : List FileOperation
  /-- `graphEffects`: the count of rewritten edges. -/
  rewrittenEdges : Option Nat
  sensitive : List JsString
  evidenceRequired : Bool

structure TicketPlan (ν : Type) where
  operation : JsString
  expectedSnapshotHash : JsString
  afterHash : JsString
  detail : PlanDetail
  ticketHashes : List (JsString × JsString)
  /-- `_tickets` -/
  tickets : List (Json ν)
  planHash : JsString

def textsJson (texts : List JsString) : Json ν := .arr (texts.map .str)

/-- `planContent(plan)` -/
def planContent (operation expectedSnapshotHash afterHash : JsString) (detail : PlanDetail)
    (ticketHashes : List (JsString × JsString)) : Json ν :=
  .obj [(js "version", .num (JsNumber.ofNat 1)), (js "operation", .str operation),
    (js "expectedSnapshotHash", .str expectedSnapshotHash), (js "afterHash", .str afterHash),
    (js "ticketId", .str detail.ticketId), (js "beforeTicketId", .str detail.beforeTicketId),
    (js "changedFields", textsJson detail.changedFields),
    (js "fileOperations", .arr (detail.fileOperations.map FileOperation.toJson)),
    (js "graphEffects", .arr (detail.rewrittenEdges.toList.map fun n =>
      .obj [(js "rewrittenEdges", .num (JsNumber.ofNat n))])),
    (js "sensitive", textsJson detail.sensitive),
    (js "evidenceRequired", .bool detail.evidenceRequired), (js "validation", .str (js "valid")),
    (js "ticketHashes", .obj (Members.create (ticketHashes.map fun p => (p.1, .str p.2))))]

/-- What `#plan` does with the tickets that `mutate` leaves. -/
def planOf (operation : String) (before : TicketSnapshot ν) (tickets : List (Json ν))
    (detail : PlanDetail) : Except TicketStoreError (TicketPlan ν) := do
  validateTickets false true tickets
  let hashes ← tickets.mapM ticketPair
  let afterHash ← storeHash tickets
  let content ← canonicalJson (ν := ν)
    (planContent (js operation) before.hash afterHash detail hashes)
  return ⟨js operation, before.hash, afterHash, detail, hashes, tickets,
    sha256 (js "adlc:ticket-plan:v1\x00" ++ content)⟩

/-! ## Updates -/

/-- `comparable(value)` -/
def comparable (value : Option (Json ν)) : Except TicketStoreError JsString :=
  match value with
  | none => .ok (js "__ADLC_ABSENT__")
  | some v => canonicalJson v

/-- `Object.keys(value)` of an object -/
def keysOf (value : Json ν) : List JsString :=
  match value with
  | .obj ms => Members.keys ms
  | _ => []

/-- One of the two sides has another value under the key. -/
def fieldChanged (before after : Json ν) (key : JsString) : Except TicketStoreError Bool := do
  let old ← comparable (before.get? key)
  let new ← comparable (after.get? key)
  return decide (old ≠ new)

def changedFields (before after : Json ν) : Except TicketStoreError (List JsString) := do
  let keys := keysOf before ++ (keysOf after).filter fun key => decide (key ∉ keysOf before)
  let marked ← keys.mapM fun key => (fieldChanged before after key).map fun changed => (key, changed)
  return ((marked.filter fun p => p.2).map Prod.fst).mergeSort unitLe

/-- `value ?? []`, as a list: another type has no `filter` and no `some`. -/
def listOr (value : Option (Json ν)) : Except TicketStoreError (List (Json ν)) :=
  match value with
  | none | some .null => .ok []
  | some (.arr xs) => .ok xs
  | some _ => .error (unexpected (js "is not a function"))

/-- `items.includes(item)` where the one side or the other holds only strings -/
def includes (items : List (Json ν)) (item : Json ν) : Bool :=
  match item with
  | .str s => items.any fun other => eqStr (some other) s
  | _ => false

/-- What an update changes that needs authorization. -/
def sensitiveChanges (before input : Json ν) (beforeRails rails beforeScope scope : List (Json ν)) :
    List JsString :=
  (if beforeRails.any fun rail => !includes rails rail then [js "rail-narrowing"] else []) ++
  (if scope.any fun entry => !includes beforeScope entry then [js "scope-widening"] else []) ++
  (if eqTrue (before.get? (js "completed")) != eqTrue (input.get? (js "completed")) then
    [js "lifecycle-change"] else [])

def ticketNotFound (id : JsString) : TicketStoreError :=
  invalid "TICKET_NOT_FOUND" (js "ticket not found: " ++ id)

/-- The tickets with `input` in the place of the ticket. -/
def updateTicket (root : ServiceRoot) (snapshot : TicketSnapshot ν) (id : JsString) (input : Json ν)
    (expect : Option JsString) (authorized : Bool) (tickets : List (Json ν)) :
    Except TicketStoreError (List (Json ν) × PlanDetail) :=
  match tickets.findIdx? fun ticket => eqStr (ticket.get? (js "id")) id with
  | none => .error (ticketNotFound id)
  | some index => do
    refuseIf (isNull input) (unexpected (js "Cannot read properties of null (reading 'id')"))
    refuseIf (!eqStr (input.get? (js "id")) id) (policy "IDENTITY_CHANGE_REQUIRES_REASSIGN"
      (js "update input id must match; use reassign for identity changes"))
    refuseIf (expect.any fun hash => decide (hash ≠ [] ∧ snapshot.ticketHashes id ≠ some hash))
      (conflict "STALE_TICKET" (js "ticket " ++ id ++ js " hash changed"))
    let before := tickets.getD index .null
    let beforeRails ← listOr (before.get? (js "rails"))
    let rails ← listOr (input.get? (js "rails"))
    let addedRails := rails.filter fun rail => !includes beforeRails rail
    assertNoManifestRails root addedRails
    assertRailsExist root addedRails
    let scope ← listOr (input.get? (js "scope"))
    let beforeScope ← listOr (before.get? (js "scope"))
    let sensitive := sensitiveChanges before input beforeRails rails beforeScope scope
    refuseIf (decide (sensitive ≠ []) && !authorized) (policy "AUTHORIZATION_REQUIRED"
      (js "update requires authorization: " ++ join (js ", ") sensitive))
    let after ← deepClone input
    let changed ← changedFields before input
    return (tickets.set index after,
      ⟨id, id, changed, [.update id], none, sensitive, decide (sensitive ≠ [])⟩)

def planUpdate (root : ServiceRoot) (store : StoreContent) (id : JsString) (input : Json ν)
    (expect : Option JsString) (authorized : Bool) : Except TicketStoreError (TicketPlan ν) := do
  let snapshot ← store.load
  let tickets ← snapshot.mutableTickets
  let mutated ← updateTicket root snapshot id input expect authorized tickets
  planOf "update" snapshot mutated.1 mutated.2

/-! ## Reassignment -/

/-- `edge.to = nextId` where `edge.to === id` -/
def rewriteEdge (id nextId : JsString) (edge : Json ν) : Json ν :=
  match edge with
  | .obj ms =>
    if eqStr (edge.get? (js "to")) id then .obj (Members.set ms (js "to") (.str nextId)) else edge
  | _ => edge

/-- The edges of one ticket, rewritten. -/
def rewriteEdges (id nextId : JsString) (ticket : Json ν) : Json ν :=
  match ticket, ticket.get? (js "edges") with
  | .obj ms, some (.arr edges) =>
    .obj (Members.set ms (js "edges") (.arr (edges.map (rewriteEdge id nextId))))
  | _, _ => ticket

/-- `ticket.id = nextId` -/
def setId (nextId : JsString) (ticket : Json ν) : Json ν :=
  match ticket with
  | .obj ms => .obj (Members.set ms (js "id") (.str nextId))
  | _ => ticket

def reassignTicket (id nextId : JsString) (tickets : List (Json ν)) :
    Except TicketStoreError (List (Json ν) × PlanDetail) :=
  if tickets.any fun ticket => eqStr (ticket.get? (js "id")) nextId then
    .error (conflict "TICKET_EXISTS" (js "ticket already exists: " ++ nextId))
  else
    match tickets.findIdx? fun ticket => eqStr (ticket.get? (js "id")) id with
    | none => .error (ticketNotFound id)
    | some index =>
      let renamed := tickets.set index (setId nextId (tickets.getD index .null))
      let rewritten := (renamed.flatMap targets).count id
      .ok (renamed.map (rewriteEdges id nextId),
        ⟨nextId, id, [js "id"], [.rename id nextId], some rewritten, [js "identity-change"], true⟩)

def planReassign (root : ServiceRoot) (store : StoreContent) (id nextId : JsString)
    (authorized : Bool) : Except TicketStoreError (TicketPlan ν) := do
  refuseIf (!authorized)
    (policy "AUTHORIZATION_REQUIRED" (js "identity reassignment requires authorization"))
  assertIdNotArchived ν root nextId
  let snapshot ← store.load
  let tickets ← snapshot.mutableTickets
  let mutated ← reassignTicket id nextId tickets
  planOf "reassign" snapshot mutated.1 mutated.2

/-! ## What is loaded -/

/-- A snapshot of tickets that a store accepts. -/
structure TicketSnapshot.Accepted (snapshot : TicketSnapshot ν) : Prop where
  isJson : ∀ t ∈ snapshot.tickets, t.IsJson
  valid : ValidTickets snapshot.tickets

omit [Unicode] in
theorem accepted_snapshotOf {tickets : List (Json ν)} (hj : ∀ t ∈ tickets, t.IsJson)
    (hv : ValidTickets tickets) : (snapshotOf tickets).Accepted where
  isJson := fun t ht => hj t ((sortById_perm tickets).mem_iff.mp ht)
  valid := hv.perm (sortById_perm tickets).symm

omit [Unicode] in
/-- The file of 1.x is an envelope of tickets that are accepted. -/
theorem LegacyTicketStore.load_ok {file : Option Bytes} {snapshot : TicketSnapshot ν}
    (h : LegacyTicketStore.load file = .ok snapshot) :
    ∃ bytes parsed tickets, file = some bytes ∧ parseJson (utf8Decode bytes) = some parsed ∧
      parsed.get? (js "tickets") = some (.arr tickets) ∧ (∀ t ∈ tickets, t.IsJson) ∧
      ValidTickets tickets ∧ snapshot = snapshotOf tickets := by
  unfold LegacyTicketStore.load at h
  split at h
  · cases h
  rename_i bytes
  split at h
  · cases h
  rename_i parsed hparsed
  split at h
  · rename_i tickets htickets
    split at h
    · cases h
    rename_i hvalid
    have hv := (validateTickets_ok_iff tickets).mp hvalid
    have hfinite : ∀ t ∈ tickets, t.finite = true := by
      unfold TicketSnapshot.make at h
      split at h
      · cases h
      · rename_i clones hclones
        exact deepCloneAll_finite hclones
    have hordered := Json.Ordered.get (parseJson_ordered hparsed) htickets
    have hj : ∀ t ∈ tickets, t.IsJson := fun t ht =>
      (Json.isJson_iff t).mpr ⟨(elemsOrdered_iff tickets).mp hordered t ht, hfinite t ht⟩
    have hid : ∀ t ∈ tickets, (id? t).isSome = true := by
      intro t ht
      obtain ⟨id, hid, -⟩ := id?_of_valid (hv.valid t ht)
      rw [hid]
      rfl
    rw [TicketSnapshot.make_eq hj hid, Except.ok.injEq] at h
    exact ⟨bytes, parsed, tickets, rfl, hparsed, htickets, hj, hv, h.symm⟩
  · cases h

theorem StoreContent.load_accepted {store : StoreContent} {snapshot : TicketSnapshot ν}
    (h : store.load = .ok snapshot) : snapshot.Accepted := by
  cases store with
  | directory dir =>
    cases dir with
    | none => cases h
    | some dir =>
      obtain ⟨tickets, hholds, rfl⟩ := (load_ok_iff _ _ _).mp h
      exact accepted_snapshotOf (fun t => hholds.isJson) ((validateTickets_ok_iff _).mp hholds.valid)
  | legacy file =>
    obtain ⟨bytes, parsed, tickets, -, -, -, hj, hv, rfl⟩ := LegacyTicketStore.load_ok h
    exact accepted_snapshotOf hj hv

omit [Unicode] in
theorem TicketSnapshot.Accepted.mutableTickets {snapshot : TicketSnapshot ν}
    (h : snapshot.Accepted) : snapshot.mutableTickets = .ok snapshot.tickets :=
  deepCloneAll_eq h.isJson

/-- What a store written with valid tickets loads under an id is the normal form of the ticket. -/
theorem StoreContent.Written.loaded {store : StoreContent} {tickets : List (Json ν)}
    (hw : store.Written tickets) (hj : ∀ t ∈ tickets, t.IsJson) (hv : ValidTickets tickets)
    {snapshot : TicketSnapshot ν} (h : store.load = .ok snapshot) {t : Json ν} (ht : t ∈ tickets) :
    ∀ u, u ∈ snapshot.tickets ∧ id? u = id? t ↔ u = normal t := by
  have hvalid : ValidFor activeStore tickets := (validateTickets_ok_iff _).mpr hv
  have hid := id?_normal ((Json.isJson_iff t).mp (hj t ht)).1
  have hone := (h |> StoreContent.load_accepted).valid.ids
  -- it is enough that the normal form is loaded
  have hmem : normal t ∈ snapshot.tickets →
      ∀ u, u ∈ snapshot.tickets ∧ id? u = id? t ↔ u = normal t := by
    intro hm u
    constructor
    · intro ⟨hu, hut⟩
      exact List.inj_on_of_nodup_map hone hu hm (hut.trans hid.symm)
    · intro hu
      rw [hu]
      exact ⟨hm, hid⟩
  apply hmem
  cases store with
  | directory dir =>
    obtain ⟨d, rfl, hshards⟩ := hw
    obtain ⟨us, hholds, rfl⟩ := (load_ok_iff _ _ _).mp h
    obtain ⟨u, hu, hparse, -⟩ := hholds.only _ _ (hshards t ht) (ticketFilename_ne_marker _)
    rw [parse_shardBytes (hj t ht)] at hparse
    rw [Option.some.inj hparse]
    exact (sortById_perm us).mem_iff.mpr hu
  | legacy file =>
    obtain ⟨bytes, parsed, us, hfile, hparse, hget, -, -, rfl⟩ := LegacyTicketStore.load_ok h
    have hbytes : bytes = shardBytes (envelope tickets) := Option.some.inj (hfile.symm.trans hw)
    have henvelope : (envelope tickets).IsJson := by
      refine ⟨⟨by simp [Members.keys], by simp [Members.keys]⟩, ?_, trivial⟩
      exact (elemsIsJson_iff tickets).mpr hj
    rw [hbytes, parse_shardBytes henvelope] at hparse
    have hne : js "tickets" ≠ protoKey := by decide
    rw [← Option.some.inj hparse, get?_normal ((Json.isJson_iff _).mp henvelope).1 hne] at hget
    have hus : us = tickets.map normal := by
      have e : (envelope tickets).get? (js "tickets") = some (.arr tickets) := by
        simp [envelope, Json.get?]
      rw [e, Option.map_some, normal, normalElems_eq_map, Option.some.injEq, Json.arr.injEq] at hget
      exact hget.symm
    rw [hus]
    exact (sortById_perm _).mem_iff.mpr (List.mem_map_of_mem ht)

/-! ## Updates without authorization -/

/-- The strings that a field lists. -/
def textsOf (ticket : Json ν) (field : JsString) : List JsString :=
  match ticket.get? field with
  | some (.arr xs) => xs.filterMap fun x =>
    match x with
    | .str s => some s
    | _ => none
  | _ => []

/-- Every rail stays, no scope entry is new, and the ticket is as completed as before. -/
structure Unwidened (before after : Json ν) : Prop where
  rails : ∀ rail ∈ textsOf before (js "rails"), rail ∈ textsOf after (js "rails")
  scope : ∀ entry ∈ textsOf after (js "scope"), entry ∈ textsOf before (js "scope")
  completed : eqTrue (after.get? (js "completed")) = eqTrue (before.get? (js "completed"))

omit [JsNumber ν] [Unicode] in
theorem mem_textsOf {ticket : Json ν} {field s : JsString} :
    s ∈ textsOf ticket field ↔ ∃ xs, ticket.get? field = some (.arr xs) ∧ .str s ∈ xs := by
  unfold textsOf
  split
  · rename_i xs hxs
    rw [List.mem_filterMap, hxs]
    constructor
    · intro ⟨x, hx, hs⟩
      cases x <;> simp_all
    · intro ⟨ys, hys, hm⟩
      rw [Option.some.injEq, Json.arr.injEq] at hys
      exact ⟨.str s, hys ▸ hm, rfl⟩
  · rename_i hno
    simp only [List.not_mem_nil, false_iff, not_exists, not_and]
    intro xs hxs
    exact absurd hxs (hno xs)

omit [JsNumber ν] [Unicode] in
theorem textsOf_normal {ticket : Json ν} (h : ticket.Ordered) {field : JsString}
    (hf : field ≠ protoKey) : textsOf (normal ticket) field = textsOf ticket field := by
  unfold textsOf
  rw [get?_normal h hf]
  cases ticket.get? field with
  | none => rfl
  | some v =>
    cases v with
    | arr xs =>
      rw [Option.map_some, normal, normalElems_eq_map]
      simp only [List.filterMap_map]
      apply List.filterMap_congr
      intro x _
      cases x <;> rfl
    | _ => rfl

omit [JsNumber ν] [Unicode] in
theorem Unwidened.normal {before after : Json ν} (h : Unwidened before after)
    (ho : after.Ordered) : Unwidened before (normal after) where
  rails := by
    rw [textsOf_normal ho (by decide)]
    exact h.rails
  scope := by
    rw [textsOf_normal ho (by decide)]
    exact h.scope
  completed := by
    rw [get?_normal ho (by decide), ← h.completed]
    cases after.get? (js "completed") with
    | none => rfl
    | some v => cases v <;> rfl

omit [Unicode] in
theorem refuseIf_ok {refused : Bool} {e : TicketStoreError} {u : Unit} :
    refuseIf refused e = .ok u ↔ refused = false := by
  cases refused <;> simp [refuseIf]

omit [JsNumber ν] [Unicode] in
theorem includes_iff {xs : List (Json ν)} {s : JsString} :
    includes xs (.str s) = true ↔ .str s ∈ xs := by
  simp only [includes, List.any_eq_true, eqStr_iff, Option.some.injEq]
  constructor
  · rintro ⟨x, hx, e⟩
    exact e ▸ hx
  · intro hx
    exact ⟨_, hx, rfl⟩

omit [JsNumber ν] [Unicode] in
theorem mem_listOr {value : Json ν} {field : JsString} {xs : List (Json ν)}
    (h : listOr (value.get? field) = .ok xs) (s : JsString) :
    s ∈ textsOf value field ↔ .str s ∈ xs := by
  rw [mem_textsOf]
  unfold listOr at h
  split at h
  · rename_i hv
    rw [← Except.ok.inj h, hv]
    simp
  · rename_i hv
    rw [← Except.ok.inj h, hv]
    simp
  · rename_i ys hv
    rw [← Except.ok.inj h, hv]
    simp
  · cases h

omit [JsNumber ν] [Unicode] in
/-- Without sensitive changes nothing is widened. -/
theorem sensitiveChanges_nil {before input : Json ν}
    {beforeRails rails beforeScope scope : List (Json ν)}
    (h1 : listOr (before.get? (js "rails")) = .ok beforeRails)
    (h2 : listOr (input.get? (js "rails")) = .ok rails)
    (h3 : listOr (before.get? (js "scope")) = .ok beforeScope)
    (h4 : listOr (input.get? (js "scope")) = .ok scope)
    (h : sensitiveChanges before input beforeRails rails beforeScope scope = []) :
    Unwidened before input := by
  simp only [sensitiveChanges, List.append_eq_nil_iff, ite_eq_right_iff, List.cons_ne_nil, imp_false,
    List.any_eq_true, not_exists, not_and, Bool.not_eq_true', Bool.not_eq_false, bne_iff_ne, ne_eq,
    not_not] at h
  obtain ⟨⟨hrails, hscope⟩, hcompleted⟩ := h
  refine ⟨?_, ?_, hcompleted.symm⟩
  · intro rail hrail
    have hin := hrails _ ((mem_listOr h1 rail).mp hrail)
    exact (mem_listOr h2 rail).mpr (includes_iff.mp hin)
  · intro entry hentry
    have hin := hscope _ ((mem_listOr h4 entry).mp hentry)
    exact (mem_listOr h3 entry).mpr (includes_iff.mp hin)

omit [Unicode] in
/-- An update puts the input in the ticket's place, and without authorization widens nothing. -/
theorem updateTicket_ok {root : ServiceRoot} {snapshot : TicketSnapshot ν} {id : JsString}
    {input : Json ν} {expect : Option JsString} {tickets : List (Json ν)}
    {mutated : List (Json ν) × PlanDetail} (hj : input.Ordered)
    (h : updateTicket root snapshot id input expect false tickets = .ok mutated) :
    ∃ index before, tickets[index]? = some before ∧ id? before = some id ∧
      mutated.1 = tickets.set index input ∧ id? input = some id ∧ input.IsJson ∧
      Unwidened before input := by
  have hidOf : ∀ t : Json ν, eqStr (t.get? (js "id")) id = true → id? t = some id := by
    intro t ht
    rw [id?, eqStr_iff.mp ht]
  unfold updateTicket at h
  split at h
  · cases h
  rename_i index hindex
  obtain ⟨hlt, hfound, -⟩ := List.findIdx?_eq_some_iff_getElem.mp hindex
  have hget : tickets[index]? = some tickets[index] := List.getElem?_eq_getElem hlt
  have hgetD : tickets.getD index .null = tickets[index] := by
    rw [List.getD_eq_getElem?_getD, hget]
    rfl
  simp only [bind_eq_ok, refuseIf_ok, hgetD] at h
  obtain ⟨_, -, _, hid, _, -, beforeRails, h1, rails, h2, _, -, _, -, scope, h4, beforeScope, h3, _,
    hsens, after, hclone, changed, -, hret⟩ := h
  have hnil : sensitiveChanges tickets[index] input beforeRails rails beforeScope scope = [] := by
    simpa using hsens
  have hfinite : input.finite = true := by
    unfold deepClone at hclone
    split_ifs at hclone with hf
    exact hf
  have hinput : input.IsJson := (Json.isJson_iff input).mpr ⟨hj, hfinite⟩
  rw [deepClone_eq hinput, Except.ok.injEq] at hclone
  subst hclone
  have e := Except.ok.inj hret
  refine ⟨index, tickets[index], hget, hidOf _ hfound, ?_, hidOf _ (by simpa using hid), hinput,
    sensitiveChanges_nil h1 h2 h3 h4 hnil⟩
  rw [← e]

omit [Unicode] in
theorem planOf_ok {operation : String} {before : TicketSnapshot ν} {tickets : List (Json ν)}
    {detail : PlanDetail} {plan : TicketPlan ν} (h : planOf operation before tickets detail = .ok plan) :
    plan.tickets = tickets ∧ ValidTickets tickets := by
  simp only [planOf, bind_eq_ok] at h
  obtain ⟨_, hv, hashes, -, afterHash, -, content, -, hplan⟩ := h
  have e := Except.ok.inj hplan
  exact ⟨by rw [← e], (validateTickets_ok_iff tickets).mp hv⟩

omit [Unicode] in
theorem planContent_finite_iff (operation expectedSnapshotHash afterHash : JsString)
    (detail : PlanDetail) (hashes : List (JsString × JsString)) :
    (planContent (ν := ν) operation expectedSnapshotHash afterHash detail hashes).finite = true ↔
      ∀ n ∈ detail.rewrittenEdges, JsNumber.isFinite (JsNumber.ofNat n : ν) = true := by
  have htexts : ∀ texts, (textsJson (ν := ν) texts).finite = true := by
    intro texts
    rw [textsJson, Json.finite, elemsFinite_iff]
    intro x hx
    obtain ⟨s, -, rfl⟩ := List.mem_map.mp hx
    rfl
  have hops : elemsFinite (detail.fileOperations.map (FileOperation.toJson (ν := ν))) = true := by
    rw [elemsFinite_iff]
    intro x hx
    obtain ⟨op, -, rfl⟩ := List.mem_map.mp hx
    cases op <;> rfl
  have hhashes : membersFinite (Members.create (hashes.map fun p => (p.1, Json.str (ν := ν) p.2))) =
      true := by
    rw [membersFinite_iff]
    refine @Members.create_values ν _ (fun v => v.finite = true) ?_
    intro p hp
    obtain ⟨q, -, rfl⟩ := List.mem_map.mp hp
    rfl
  have hone : JsNumber.isFinite (JsNumber.ofNat 1 : ν) = true :=
    JsNumber.finite_of_integer _ (JsNumber.integer_ofNat 1 (by decide))
  cases hn : detail.rewrittenEdges with
  | none =>
    simp [planContent, Json.finite, membersFinite, elemsFinite, htexts, hops, hhashes, hone, hn]
  | some n =>
    simp [planContent, Json.finite, membersFinite, elemsFinite, htexts, hops, hhashes, hone, hn]

omit [Unicode] in
/-- A plan of valid tickets is made unless the count of rewritten edges is out of range. -/
theorem planOf_valid (operation : String) (before : TicketSnapshot ν) {tickets : List (Json ν)}
    (detail : PlanDetail) (hj : ∀ t ∈ tickets, t.IsJson) (hv : ValidTickets tickets)
    (hn : ∀ n ∈ detail.rewrittenEdges, JsNumber.isFinite (JsNumber.ofNat n : ν) = true) :
    ∃ plan, planOf operation before tickets detail = .ok plan ∧ plan.tickets = tickets := by
  have hfinite : ∀ t ∈ tickets, t.finite = true := fun t ht => ((Json.isJson_iff t).mp (hj t ht)).2
  have hid : ∀ t ∈ tickets, (id? t).isSome = true := by
    intro t ht
    obtain ⟨id, hid, -⟩ := id?_of_valid (hv.valid t ht)
    rw [hid]
    rfl
  have hcontent := (planContent_finite_iff (ν := ν) (js operation) before.hash (storeHashOf tickets)
    detail (tickets.map fun t => (idOf t, hashOf t))).mpr hn
  have hplan : ∃ plan, planOf operation before tickets detail = .ok plan := by
    simp only [planOf, bind_eq_ok]
    exact ⟨_, (), (validateTickets_ok_iff tickets).mpr hv, _, mapM_ticketPair hfinite hid, _,
      storeHash_eq hfinite hid, _, canonicalJson_eq hcontent, rfl⟩
  obtain ⟨plan, hplan⟩ := hplan
  exact ⟨plan, hplan, (planOf_ok hplan).1⟩

omit [Unicode] in
theorem changedFields_ok {before after : Json ν} (hb : before.finite = true)
    (ha : after.finite = true) : ∃ changed, changedFields before after = .ok changed := by
  have hget : ∀ (v : Json ν) (k : JsString), v.finite = true →
      ∃ text, comparable (v.get? k) = .ok text := by
    intro v k hv
    cases hk : v.get? k with
    | none => exact ⟨_, rfl⟩
    | some w =>
      cases v with
      | obj ms =>
        have hw := (membersFinite_iff ms).mp hv _ (Members.mem_lookup hk)
        exact ⟨_, canonicalJson_eq hw⟩
      | _ => cases hk
  have hfield : ∀ k, ∃ b, fieldChanged before after k = .ok b := by
    intro k
    obtain ⟨old, hold⟩ := hget before k hb
    obtain ⟨new, hnew⟩ := hget after k ha
    exact ⟨decide (old ≠ new), by rw [fieldChanged, hold, hnew]; rfl⟩
  have hmarked : ∀ keys : List JsString, ∃ marked, (keys.mapM fun key =>
      (fieldChanged before after key).map fun changed => (key, changed)) = .ok marked := by
    intro keys
    induction keys with
    | nil => exact ⟨[], rfl⟩
    | cons key keys ih =>
      obtain ⟨b, hkey⟩ := hfield key
      obtain ⟨marked, hkeys⟩ := ih
      rw [List.mapM_cons, hkey, hkeys]
      exact ⟨_, rfl⟩
  obtain ⟨marked, hmarked⟩ := hmarked _
  exact ⟨_, by rw [changedFields, hmarked]; rfl⟩

/-- The file of 1.x that holds the tickets as they stand. -/
def fileOf (tickets : List (Json ν)) : StoreContent :=
  .legacy (some (utf8Encode (stringify2 (envelope tickets) ++ [10])))

theorem load_fileOf {tickets : List (Json ν)} (hj : ∀ t ∈ tickets, t.IsJson)
    (hv : ValidTickets tickets) : (fileOf tickets).load = .ok (snapshotOf tickets) := by
  have henvelope : (envelope tickets).IsJson :=
    ⟨⟨by simp [Members.keys], by simp [Members.keys]⟩, (elemsIsJson_iff tickets).mpr hj, trivial⟩
  have hid : ∀ t ∈ tickets, (id? t).isSome = true := by
    intro t ht
    obtain ⟨id, hid, -⟩ := id?_of_valid (hv.valid t ht)
    rw [hid]
    rfl
  have hget : (envelope tickets).get? (js "tickets") = some (.arr tickets) := by
    simp [envelope, Json.get?]
  simp only [fileOf, StoreContent.load, LegacyTicketStore.load, parseJson_stringify2 henvelope,
    hget, (validateTickets_ok_iff tickets).mpr hv]
  exact TicketSnapshot.make_eq hj hid

def emptyRoot : ServiceRoot := ⟨[], none, [], none⟩

def retitledTicket : Json Int :=
  .obj [(js "id", .str (js "A")), (js "title", .str (js "u")), (js "completed", .bool false)]

omit [Unicode] in
theorem plainFile_load : @StoreContent.load Int _ asciiUnicode (fileOf [plainTicket]) =
    .ok (snapshotOf [plainTicket]) := by
  apply @load_fileOf Int _ asciiUnicode
  · intro t ht
    rw [List.mem_singleton.mp ht]
    exact plainTicket_isJson
  · exact (validateTickets_ok_iff _).mp (validateTickets_single rfl rfl)

end Adlc.Tickets
