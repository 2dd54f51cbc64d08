import Adlc.Framework.IntNumber
import Adlc.Tickets.Store

namespace Adlc.Tickets

open Adlc.Framework

variable {ν : Type} [JsNumber ν] [Unicode]

/-! ## Writing a store -/

/-- The shard of a ticket: `prettyCanonicalJson` in UTF-8. -/
def shardText (ticket : Json ν) : JsString := stringify2 (normal ticket) ++ [10]

def shardBytes (ticket : Json ν) : Bytes := utf8Encode (shardText ticket)

/-- `initializeDirectoryStore` -/
def initializeDirectoryStore (ν : Type) [JsNumber ν] : Except TicketStoreError Dir :=
  (prettyCanonicalJson (activeManifest (ν := ν))).map
    fun text => AList.singleton storeMarker (utf8Encode text)

/-- Each ticket's text in the shard named after its id. -/
def writeShards (dir : Dir) : List (Json ν) → Except TicketStoreError Dir
  | [] => .ok dir
  | ticket :: tickets =>
    match prettyCanonicalJson ticket with
    | .error e => .error e
    | .ok text => writeShards (dir.insert (ticketFilename (idOf ticket)) (utf8Encode text)) tickets

omit [Unicode] in
theorem prettyCanonicalJson_shardText {ticket : Json ν} (h : ticket.finite = true) :
    prettyCanonicalJson ticket = .ok (shardText ticket) := prettyCanonicalJson_eq h

omit [Unicode] in
theorem parse_shardBytes {ticket : Json ν} (h : ticket.IsJson) :
    parseJson (utf8Decode (shardBytes ticket)) = some (normal ticket) :=
  parseJson_stringify2 (normal_isJson h)

omit [Unicode] in
theorem activeManifest_isJson : (activeManifest (ν := ν)).IsJson := by
  have hk : OrderedKeys [(js "format", Json.str (js "adlc-ticket-directory")),
      (js "version", Json.num (JsNumber.ofNat 1 : ν))] := by
    refine ⟨?_, ?_⟩
    · show [js "format", js "version"].Nodup
      decide
    · show [js "format", js "version"].Pairwise fun a b => mustPrecede b a = false
      decide
  refine ⟨hk, trivial, ?_, trivial⟩
  exact JsNumber.finite_of_integer _ (JsNumber.integer_ofNat 1 (by decide))

omit [Unicode] in
theorem initializeDirectoryStore_eq :
    initializeDirectoryStore ν =
      .ok (AList.singleton storeMarker (shardBytes (activeManifest (ν := ν)))) := by
  rw [initializeDirectoryStore,
    prettyCanonicalJson_eq ((Json.isJson_iff _).mp activeManifest_isJson).2]
  rfl

/-- A file that the store wrote for a ticket. -/
theorem lookup_writeShards {dir dir' : Dir} {tickets : List (Json ν)}
    (h : writeShards dir tickets = .ok dir') (hf : ∀ t ∈ tickets, t.finite = true)
    (name : JsString) (bytes : Bytes) (hl : dir'.lookup name = some bytes) :
    dir.lookup name = some bytes ∨
      ∃ t ∈ tickets, name = ticketFilename (idOf t) ∧ bytes = shardBytes t := by
  induction tickets generalizing dir with
  | nil =>
    rw [writeShards, Except.ok.injEq] at h
    exact Or.inl (h ▸ hl)
  | cons t tickets ih =>
    rw [writeShards, prettyCanonicalJson_shardText (hf t (by simp))] at h
    rcases ih h fun u hu => hf u (List.mem_cons_of_mem _ hu) with hd | ⟨u, hu, hn, hb⟩
    · by_cases hn : name = ticketFilename (idOf t)
      · subst hn
        rw [AList.lookup_insert] at hd
        exact Or.inr ⟨t, by simp, rfl, (Option.some.inj hd).symm⟩
      · rw [AList.lookup_insert_ne hn] at hd
        exact Or.inl hd
    · exact Or.inr ⟨u, List.mem_cons_of_mem _ hu, hn, hb⟩

theorem writeShards_frame {dir dir' : Dir} {tickets : List (Json ν)}
    (h : writeShards dir tickets = .ok dir') (hf : ∀ t ∈ tickets, t.finite = true)
    (name : JsString) (hn : ∀ t ∈ tickets, name ≠ ticketFilename (idOf t)) :
    dir'.lookup name = dir.lookup name := by
  induction tickets generalizing dir with
  | nil =>
    rw [writeShards, Except.ok.injEq] at h
    rw [h]
  | cons t tickets ih =>
    rw [writeShards, prettyCanonicalJson_shardText (hf t (by simp))] at h
    rw [ih h (fun u hu => hf u (List.mem_cons_of_mem _ hu))
      fun u hu => hn u (List.mem_cons_of_mem _ hu), AList.lookup_insert_ne (hn t (by simp))]

/-- Tickets with names of their own keep their shards. -/
theorem writeShards_has {dir dir' : Dir} {tickets : List (Json ν)}
    (h : writeShards dir tickets = .ok dir') (hf : ∀ t ∈ tickets, t.finite = true)
    (hn : (tickets.map fun t => ticketFilename (idOf t)).Nodup) :
    ∀ t ∈ tickets, dir'.lookup (ticketFilename (idOf t)) = some (shardBytes t) := by
  induction tickets generalizing dir with
  | nil =>
    intro t ht
    cases ht
  | cons t tickets ih =>
    have hft := fun u hu => hf u (List.mem_cons_of_mem t hu)
    rw [writeShards, prettyCanonicalJson_shardText (hf t (by simp))] at h
    rw [List.map_cons, List.nodup_cons] at hn
    intro u hu
    rcases List.mem_cons.mp hu with rfl | hu
    · rw [writeShards_frame h hft, AList.lookup_insert]
      · rfl
      · intro v hv e
        exact hn.1 (List.mem_map.mpr ⟨v, hv, e.symm⟩)
    · exact ih h hft hn.2 u hu

theorem writeShards_ok {tickets : List (Json ν)} (hf : ∀ t ∈ tickets, t.finite = true) (dir : Dir) :
    ∃ dir', writeShards dir tickets = .ok dir' := by
  induction tickets generalizing dir with
  | nil => exact ⟨dir, rfl⟩
  | cons t tickets ih =>
    rw [writeShards, prettyCanonicalJson_shardText (hf t (by simp))]
    exact ih (fun u hu => hf u (List.mem_cons_of_mem _ hu)) _

/-! ## Reading it back -/

/-- The marker that the store was created with. -/
def MarkedActive (ν : Type) [JsNumber ν] (dir : Dir) : Prop :=
  dir.lookup storeMarker = some (shardBytes (activeManifest (ν := ν)))

omit [Unicode] in
theorem checkManifest_active {dir : Dir} (h : MarkedActive ν dir) :
    checkManifest (ν := ν) activeStore dir = .ok () := by
  have hj := activeManifest_isJson (ν := ν)
  have hn := normal_isJson hj
  have hr : readText dir storeMarker = some (utf8Decode (shardBytes (activeManifest (ν := ν)))) := by
    rw [readText, h]
    rfl
  have he : activeStore.expectedManifest = activeManifest (ν := ν) := rfl
  unfold checkManifest
  simp only [hr, parse_shardBytes hj, he, canonicalJson_eq ((Json.isJson_iff _).mp hj).2,
    canonicalJson_eq ((Json.isJson_iff _).mp hn).2, normal_idem ((Json.isJson_iff _).mp hj).1,
    if_true]

/-- A directory of the shards of a valid store's tickets holds the tickets as normalized. -/
theorem holds_normal {dir : Dir} {tickets : List (Json ν)} (hm : MarkedActive ν dir)
    (hj : ∀ t ∈ tickets, t.IsJson) (hv : ValidTickets tickets)
    (honly : ∀ name bytes, dir.lookup name = some bytes → name ≠ storeMarker →
      ∃ t ∈ tickets, name = ticketFilename (idOf t) ∧ bytes = shardBytes t)
    (hhas : ∀ t ∈ tickets, dir.lookup (ticketFilename (idOf t)) = some (shardBytes t)) :
    Holds activeStore dir (tickets.map normal) := by
  have ho : ∀ t ∈ tickets, t.Ordered := fun t ht => ((Json.isJson_iff t).mp (hj t ht)).1
  have hid : ∀ t ∈ tickets, idOf (normal t) = idOf t := by
    intro t ht
    rw [idOf, id?_normal (ho t ht), idOf]
  refine ⟨checkManifest_active hm, ?_, ?_, ?_, ?_⟩
  · intro name bytes hl hn
    obtain ⟨t, ht, hname, hb⟩ := honly name bytes hl hn
    refine ⟨normal t, List.mem_map_of_mem ht, ?_, ?_⟩
    · rw [hb, parse_shardBytes (hj t ht)]
    · rw [hid t ht, hname]
  · intro u hu
    obtain ⟨t, ht, rfl⟩ := List.mem_map.mp hu
    exact ⟨shardBytes t, by rw [hid t ht, hhas t ht], parse_shardBytes (hj t ht)⟩
  · intro u hu
    obtain ⟨t, ht, rfl⟩ := List.mem_map.mp hu
    exact normal_finite ((Json.isJson_iff t).mp (hj t ht)).2
  · exact (validateTickets_ok_iff _).mpr (hv.normal ho)

/-- Writing the tickets and loading them gives back their ids, and each ticket but for the order of
its keys. -/
def RoundTrips (tickets : List (Json ν)) : Prop :=
  ∃ fresh dir snapshot, initializeDirectoryStore ν = .ok fresh ∧
    writeShards fresh tickets = .ok dir ∧ activeStore.load (some dir) = .ok snapshot ∧
    (snapshot.tickets.map id?).Perm (tickets.map id?) ∧
    ∀ t ∈ tickets, ∃ u ∈ snapshot.tickets, id? u = id? t ∧ u.Same t

/-- The ids stay apart in UTF-8, and no ticket has a key `__proto__`. -/
def Representable (tickets : List (Json ν)) : Prop :=
  (tickets.map fun t => toWellFormed (idOf t)).Nodup ∧ ∀ t ∈ tickets, noProto t = true

/-- The digest tells apart what it is given of the ids. -/
def IdsCollisionFree (tickets : List (Json ν)) : Prop :=
  CollisionFree {a | ∃ t ∈ tickets, a = idOf t}

omit [JsNumber ν] in
theorem filenames_nodup {tickets : List (Json ν)} (hc : IdsCollisionFree tickets)
    (hn : (tickets.map fun t => toWellFormed (idOf t)).Nodup) :
    (tickets.map fun t => ticketFilename (idOf t)).Nodup := by
  refine List.Nodup.map_on ?_ (hn.of_map _)
  intro t ht u hu h
  have hd := hc _ ⟨t, ht, rfl⟩ _ ⟨u, hu, rfl⟩ (ticketFilename_digest h)
  exact List.inj_on_of_nodup_map hn ht hu ((utf8Encode_eq_iff _ _).mp hd)

theorem roundTrips_of_representable {tickets : List (Json ν)} (hj : ∀ t ∈ tickets, t.IsJson)
    (hv : ValidTickets tickets) (hc : IdsCollisionFree tickets) (hr : Representable tickets) :
    RoundTrips tickets := by
  have hf : ∀ t ∈ tickets, t.finite = true := fun t ht => ((Json.isJson_iff t).mp (hj t ht)).2
  have ho : ∀ t ∈ tickets, t.Ordered := fun t ht => ((Json.isJson_iff t).mp (hj t ht)).1
  obtain ⟨dir, hw⟩ := writeShards_ok hf
    (AList.singleton storeMarker (shardBytes (activeManifest (ν := ν))))
  have hm : MarkedActive ν dir := by
    rw [MarkedActive, writeShards_frame hw hf]
    · rw [← AList.insert_empty]
      exact AList.lookup_insert _
    · intro t _
      exact (ticketFilename_ne_marker _).symm
  have hh : Holds activeStore dir (tickets.map normal) := by
    refine holds_normal hm hj hv ?_ (writeShards_has hw hf (filenames_nodup hc hr.1))
    intro name bytes hl hn
    rcases lookup_writeShards hw hf name bytes hl with h | h
    · have hmem := AList.mem_keys.mp (AList.lookup_isSome.mp (by rw [h]; rfl))
      rw [AList.keys_singleton, List.mem_singleton] at hmem
      exact absurd hmem hn
    · exact h
  refine ⟨_, dir, snapshotOf (tickets.map normal), initializeDirectoryStore_eq, hw,
    (load_ok_iff _ _ _).mpr ⟨_, hh, rfl⟩, ?_, ?_⟩
  · refine ((sortById_perm _).map id?).trans ?_
    rw [List.map_map]
    exact List.Perm.of_eq (List.map_congr_left fun t ht => id?_normal (ho t ht))
  · intro t ht
    refine ⟨normal t, (sortById_perm _).mem_iff.mpr (List.mem_map_of_mem ht), id?_normal (ho t ht),
      ?_⟩
    exact (normal_same_iff (ho t ht)).mpr (hr.2 t ht)

theorem representable_of_roundTrips {tickets : List (Json ν)} (hj : ∀ t ∈ tickets, t.IsJson)
    (hv : ValidTickets tickets) (h : RoundTrips tickets) : Representable tickets := by
  have hf : ∀ t ∈ tickets, t.finite = true := fun t ht => ((Json.isJson_iff t).mp (hj t ht)).2
  have ho : ∀ t ∈ tickets, t.Ordered := fun t ht => ((Json.isJson_iff t).mp (hj t ht)).1
  have hva : ValidFor activeStore tickets := (validateTickets_ok_iff _).mpr hv
  obtain ⟨fresh, dir, snapshot, hfresh, hw, hl, hperm, hsame⟩ := h
  rw [initializeDirectoryStore_eq, Except.ok.injEq] at hfresh
  subst hfresh
  obtain ⟨us, hh, rfl⟩ := (load_ok_iff _ _ _).mp hl
  have hmem : ∀ u, u ∈ (snapshotOf us).tickets ↔ u ∈ us := fun u => (sortById_perm us).mem_iff
  -- what is loaded under an id is what was written for the ticket of that id
  have hback : ∀ u ∈ us, ∃ t ∈ tickets, u = normal t := by
    intro u hu
    obtain ⟨bytes, hb, hp⟩ := hh.has u hu
    rcases lookup_writeShards hw hf _ bytes hb with h | ⟨t, ht, -, hbt⟩
    · have hmk := AList.mem_keys.mp (AList.lookup_isSome.mp (by rw [h]; rfl))
      rw [AList.keys_singleton, List.mem_singleton] at hmk
      exact absurd hmk (ticketFilename_ne_marker _)
    · rw [hbt, parse_shardBytes (hj t ht)] at hp
      exact ⟨t, ht, (Option.some.inj hp).symm⟩
  refine ⟨?_, ?_⟩
  · refine List.Nodup.map_on ?_ (hva.spec.2.of_map id?)
    intro t ht t' ht' e
    obtain ⟨u, hu, hut, -⟩ := hsame t ht
    obtain ⟨u', hu', hut', -⟩ := hsame t' ht'
    have hidu : idOf u = idOf t := by rw [idOf, hut, idOf]
    have hidu' : idOf u' = idOf t' := by rw [idOf, hut', idOf]
    have huu : u = u' := by
      apply hh.utf8_inj ((hmem u).mp hu) ((hmem u').mp hu')
      rw [hidu, hidu']
      exact (utf8Encode_eq_iff _ _).mpr e
    apply hva.eq_of_id ht ht'
    rw [← hidu, ← hidu', huu]
  · intro t ht
    obtain ⟨u, hu, hut, hsu⟩ := hsame t ht
    obtain ⟨t', ht', rfl⟩ := hback u ((hmem u).mp hu)
    have htt : t' = t := by
      apply hva.eq_of_id ht' ht
      rw [idOf, ← id?_normal (ho t' ht'), hut, idOf]
    rw [htt] at hsu
    exact (normal_same_iff (ho t ht)).mp hsu

/-- A store's tickets come back whole exactly when their ids stay apart in UTF-8 and none has a key
`__proto__`, at any depth. -/
theorem roundTrips_iff (tickets : List (Json ν)) (hj : ∀ t ∈ tickets, t.IsJson)
    (hv : validateTickets false true tickets = .ok ()) (hc : IdsCollisionFree tickets) :
    RoundTrips tickets ↔ Representable tickets := by
  have hv := (validateTickets_ok_iff tickets).mp hv
  constructor
  · intro h
    exact representable_of_roundTrips hj hv h
  · intro h
    exact roundTrips_of_representable hj hv hc h

def plainTicket : Json Int := .obj [(js "id", .str (js "A")), (js "title", .str (js "t"))]

def protoTicket : Json Int :=
  .obj [(js "id", .str (js "A")), (js "title", .str (js "t")), (js "__proto__", .num 1)]

omit [Unicode] in
/-- One ticket without edges is a store. -/
theorem validateTickets_single {ticket : Json ν} (hv : validateTicket false ticket = [])
    (ht : targets ticket = []) : validateTickets false true [ticket] = .ok () := by
  have hb : ∀ a b, ¬Blocks [ticket] a b := by
    intro a b ⟨u, hu, _, hub⟩
    rw [List.mem_singleton.mp hu, ht] at hub
    cases hub
  refine (validateTickets_ok_iff _).mpr ⟨?_, by simp, ?_, ?_⟩
  · intro u hu
    rw [List.mem_singleton.mp hu]
    exact hv
  · intro a b hab
    exact absurd hab (hb a b)
  · intro a ha
    obtain ⟨b, -, hba⟩ := Relation.TransGen.tail'_iff.mp ha
    exact hb b a hba

omit [Unicode] in
theorem plainTicket_isJson : plainTicket.IsJson := ⟨by decide, trivial, trivial, trivial⟩

omit [Unicode] in
theorem protoTicket_isJson : protoTicket.IsJson := ⟨by decide, trivial, trivial, rfl, trivial⟩

omit [JsNumber ν] [Unicode] in
theorem idsCollisionFree_single (ticket : Json ν) : IdsCollisionFree [ticket] := by
  intro a ⟨t, ht, ha⟩ b ⟨u, hu, hb⟩ _
  rw [ha, hb, List.mem_singleton.mp ht, List.mem_singleton.mp hu]

omit [Unicode] in
theorem roundTrips_iff_plain :
    @RoundTrips Int _ asciiUnicode [plainTicket] ↔ Representable [plainTicket] :=
  @roundTrips_iff Int _ asciiUnicode [plainTicket]
    (by
      intro t ht
      rw [List.mem_singleton.mp ht]
      exact plainTicket_isJson)
    (validateTickets_single rfl rfl) (idsCollisionFree_single plainTicket)

omit [Unicode] in
/-- A field `__proto__` passes validation and is not read back. -/
theorem proto_dropped :
    protoTicket.IsJson ∧ validateTickets false true [protoTicket] = .ok () ∧
      ¬@RoundTrips Int _ asciiUnicode [protoTicket] := by
  have hv : validateTickets false true [protoTicket] = .ok () := validateTickets_single rfl rfl
  refine ⟨protoTicket_isJson, hv, ?_⟩
  intro h
  have hr := @representable_of_roundTrips Int _ asciiUnicode [protoTicket]
    (by
      intro t ht
      rw [List.mem_singleton.mp ht]
      exact protoTicket_isJson)
    ((validateTickets_ok_iff _).mp hv) h
  have hp := hr.2 protoTicket (by simp)
  exact absurd hp (by decide)

end Adlc.Tickets
