import Adlc.Framework.JsonField
import Adlc.Tickets.Service

namespace Adlc.Tickets

open Adlc.Framework

variable {ν : Type} [JsNumber ν] [Unicode]

/-! ## Renaming a vertex -/

/-- The vertices, with `nextId` in the place of `id`. -/
def renamed (id nextId a : JsString) : JsString := if a = id then nextId else a

def renamedText (id nextId : JsString) (v : Json ν) : Json ν :=
  match v with
  | .str s => .str (renamed id nextId s)
  | v => v

def renamedEdge (id nextId : JsString) (edge : Json ν) : Json ν :=
  edge.atKey (js "to") (renamedText id nextId)

/-- The ticket with the id replaced in its own id and in each of its edges, and nowhere else. -/
def renamedTicket (id nextId : JsString) (ticket : Json ν) : Json ν :=
  (ticket.atKey (js "edges") (Json.onElems (renamedEdge id nextId))).atKey (js "id")
    (renamedText id nextId)

section Renaming

omit [JsNumber ν] [Unicode]

theorem renamed_renamed {id nextId a : JsString} (h : a ≠ nextId) :
    renamed nextId id (renamed id nextId a) = a := by
  unfold renamed
  by_cases ha : a = id
  · simp [ha]
  · simp [ha, h]

theorem renamedText_renamedText {id nextId : JsString} {v : Json ν} (h : v ≠ .str nextId) :
    renamedText nextId id (renamedText id nextId v) = v := by
  cases v with
  | str s =>
    have hs : s ≠ nextId := fun e => h (e ▸ rfl)
    rw [renamedText, renamedText, renamed_renamed hs]
  | _ => rfl

theorem renamedText_eq_self {id nextId : JsString} {v : Json ν} (h : v ≠ .str id) :
    renamedText id nextId v = v := by
  cases v with
  | str s =>
    have hs : s ≠ id := fun e => h (e ▸ rfl)
    rw [renamedText, renamed, if_neg hs]
  | _ => rfl

theorem id?_renamedTicket (id nextId : JsString) (ticket : Json ν) :
    id? (renamedTicket id nextId ticket) = (id? ticket).map (renamed id nextId) := by
  have hne : ¬js "id" = js "edges" := by decide
  unfold id?
  rw [renamedTicket, Json.get?_atKey, if_pos rfl, Json.get?_atKey, if_neg hne]
  cases ticket.get? (js "id") with
  | none => rfl
  | some v => cases v <;> rfl

theorem target?_renamedEdge (id nextId : JsString) (edge : Json ν) :
    target? (renamedEdge id nextId edge) = (target? edge).map (renamed id nextId) := by
  unfold target?
  rw [renamedEdge, Json.get?_atKey, if_pos rfl]
  cases edge.get? (js "to") with
  | none => rfl
  | some v => cases v <;> rfl

theorem edgesOf_renamedTicket (id nextId : JsString) (ticket : Json ν) :
    edgesOf (renamedTicket id nextId ticket) = (edgesOf ticket).map (renamedEdge id nextId) := by
  have hne : ¬js "edges" = js "id" := by decide
  unfold edgesOf
  rw [renamedTicket, Json.get?_atKey, if_neg hne, Json.get?_atKey, if_pos rfl]
  cases ticket.get? (js "edges") with
  | none => rfl
  | some v => cases v <;> rfl

theorem targets_renamedTicket (id nextId : JsString) (ticket : Json ν) :
    targets (renamedTicket id nextId ticket) = (targets ticket).map (renamed id nextId) := by
  rw [targets, edgesOf_renamedTicket, targets, List.filterMap_map, List.map_filterMap]
  apply List.filterMap_congr
  intro edge _
  exact target?_renamedEdge id nextId edge

end Renaming

/-! ## What the code rewrites -/

section Rewriting

omit [Unicode]

theorem rewriteEdge_eq {id nextId : JsString} {edge : Json ν} (hj : edge.IsJson) :
    rewriteEdge id nextId edge = renamedEdge id nextId edge := by
  have ho := ((Json.isJson_iff edge).mp hj).1
  cases edge with
  | obj ms =>
    rw [rewriteEdge, renamedEdge]
    split_ifs with hto
    · have hto := eqStr_iff.mp hto
      have hk : js "to" ∈ Members.keys ms := List.mem_map_of_mem (Members.mem_lookup hto)
      rw [Members.set_eq_atKey ho.1.1 (by decide) hk]
      apply Json.atKey_congr ho
      intro w hw
      rw [hto, Option.some.injEq] at hw
      rw [← hw, renamedText, renamed, if_pos rfl]
    · symm
      apply Json.atKey_eq_self ho
      intro w hw
      apply renamedText_eq_self
      rintro rfl
      exact hto (eqStr_iff.mpr hw)
  | _ => rfl

theorem rewriteEdges_eq {id nextId : JsString} {ticket : Json ν} (hj : ticket.IsJson) :
    rewriteEdges id nextId ticket =
      ticket.atKey (js "edges") (Json.onElems (renamedEdge id nextId)) := by
  have ho := ((Json.isJson_iff ticket).mp hj).1
  unfold rewriteEdges
  split
  · rename_i ms edges hedges
    have hk : js "edges" ∈ Members.keys ms := List.mem_map_of_mem (Members.mem_lookup hedges)
    have hall := (elemsIsJson_iff edges).mp (hj.get hedges)
    rw [Members.set_eq_atKey ho.1.1 (by decide) hk]
    apply Json.atKey_congr ho
    intro w hw
    rw [hedges, Option.some.injEq] at hw
    rw [← hw, Json.onElems, List.map_congr_left fun edge he => rewriteEdge_eq (hall edge he)]
  · rename_i whole _ _ hno
    symm
    apply Json.atKey_eq_self ho
    intro w hw
    cases whole with
    | obj ms =>
      cases w with
      | arr edges => exact absurd hw (hno ms edges rfl)
      | _ => rfl
    | _ => cases hw

theorem setId_eq {id nextId : JsString} {ticket : Json ν} (hj : ticket.IsJson)
    (hid : id? ticket = some id) :
    setId nextId ticket = ticket.atKey (js "id") (renamedText id nextId) := by
  have ho := ((Json.isJson_iff ticket).mp hj).1
  have hget : ticket.get? (js "id") = some (.str id) := by
    unfold id? at hid
    split at hid
    · rename_i s hs
      rw [hs, Option.some.inj hid]
    · cases hid
  cases ticket with
  | obj ms =>
    have hk : js "id" ∈ Members.keys ms := List.mem_map_of_mem (Members.mem_lookup hget)
    rw [setId, Members.set_eq_atKey ho.1.1 (by decide) hk]
    apply Json.atKey_congr ho
    intro w hw
    rw [hget, Option.some.injEq] at hw
    rw [← hw, renamedText, renamed, if_pos rfl]
  | _ => cases hget

theorem renamedText_isJson (id nextId : JsString) {v : Json ν} (hv : v.IsJson) :
    (renamedText id nextId v).IsJson := by
  cases v <;> exact hv

theorem renamedTicket_isJson (id nextId : JsString) {ticket : Json ν} (hj : ticket.IsJson) :
    (renamedTicket id nextId ticket).IsJson := by
  apply Json.IsJson.atKey _ fun w => renamedText_isJson id nextId
  apply hj.atKey
  intro w hw
  apply hw.onElems
  intro edge he
  exact he.atKey fun w => renamedText_isJson id nextId

/-- A ticket of another id keeps its own. -/
theorem renamedTicket_other {id nextId : JsString} {ticket : Json ν} (hj : ticket.IsJson)
    (hid : id? ticket ≠ some id) :
    renamedTicket id nextId ticket =
      ticket.atKey (js "edges") (Json.onElems (renamedEdge id nextId)) := by
  have hne : ¬js "id" = js "edges" := by decide
  have hedges : (ticket.atKey (js "edges") (Json.onElems (renamedEdge id nextId))).IsJson := by
    apply hj.atKey
    intro w hw
    apply hw.onElems
    intro edge he
    exact he.atKey fun w => renamedText_isJson id nextId
  apply Json.atKey_eq_self ((Json.isJson_iff _).mp hedges).1
  intro w hw
  rw [Json.get?_atKey, if_neg hne] at hw
  apply renamedText_eq_self
  rintro rfl
  apply hid
  rw [id?, hw]

omit [JsNumber ν] in
theorem idOf_eqStr {ticket : Json ν} {id : JsString} :
    eqStr (ticket.get? (js "id")) id = true ↔ id? ticket = some id := by
  unfold id?
  rw [eqStr_iff]
  split
  · rename_i s hs
    simp [hs]
  · rename_i hno
    simp only [reduceCtorEq, iff_false]
    exact hno id

/-- The loop renames one vertex of the graph. -/
theorem reassignTicket_ok {id nextId : JsString} {tickets : List (Json ν)}
    {mutated : List (Json ν) × PlanDetail} (hj : ∀ t ∈ tickets, t.IsJson)
    (hids : (tickets.map id?).Nodup) (h : reassignTicket id nextId tickets = .ok mutated) :
    mutated.1 = tickets.map (renamedTicket id nextId) ∧ some id ∈ tickets.map id? ∧
      some nextId ∉ tickets.map id? ∧
      mutated.2.rewrittenEdges = some ((tickets.flatMap targets).count id) := by
  unfold reassignTicket at h
  split_ifs at h with hnext
  split at h
  · cases h
  rename_i index hindex
  obtain ⟨hlt, hfound, hbefore⟩ := List.findIdx?_eq_some_iff_getElem.mp hindex
  have hid := idOf_eqStr.mp hfound
  have hgetD : tickets.getD index .null = tickets[index] := by
    rw [List.getD_eq_getElem?_getD, List.getElem?_eq_getElem hlt]
    rfl
  have hjt : tickets[index].IsJson := hj _ (List.getElem_mem hlt)
  have hset : tickets.set index (setId nextId tickets[index]) =
      tickets.set index (tickets[index].atKey (js "id") (renamedText id nextId)) := by
    rw [setId_eq hjt hid]
  have hcongr : (tickets[index].atKey (js "id") (renamedText id nextId)).IsJson :=
    hjt.atKey fun w => renamedText_isJson id nextId
  rw [hgetD, hset] at h
  have e := Except.ok.inj h
  have hne : js "edges" ≠ js "id" := by decide
  refine ⟨?_, hid ▸ List.mem_map_of_mem (List.getElem_mem hlt), ?_, ?_⟩
  · rw [← e]
    apply List.ext_getElem
    · simp
    intro k h1 h2
    have hk : k < tickets.length := by simpa using h2
    rw [List.getElem_map, List.getElem_map, List.getElem_set]
    split_ifs with hik
    · subst hik
      rw [rewriteEdges_eq hcongr, Json.atKey_comm hne, renamedTicket]
    · have hother : id? tickets[k] ≠ some id := by
        intro hk'
        apply hik
        have hi : index < (tickets.map id?).length := by rwa [List.length_map]
        have hk'' : k < (tickets.map id?).length := by rwa [List.length_map]
        have heq : (tickets.map id?)[index] = (tickets.map id?)[k] := by
          rw [List.getElem_map, List.getElem_map, hid, hk']
        exact (List.Nodup.getElem_inj_iff hids).mp heq
      have hjk := hj _ (List.getElem_mem hk)
      rw [rewriteEdges_eq hjk, renamedTicket_other hjk hother]
  · intro hm
    obtain ⟨t, ht, htid⟩ := List.mem_map.mp hm
    apply hnext
    rw [List.any_eq_true]
    exact ⟨t, ht, idOf_eqStr.mpr htid⟩
  · have htargets : targets (tickets[index].atKey (js "id") (renamedText id nextId)) =
        targets tickets[index] := by
      have hget := Json.get?_atKey (js "id") (renamedText id nextId) tickets[index] (js "edges")
      rw [if_neg hne] at hget
      rw [targets, edgesOf, hget, targets, edgesOf]
    have hmap : (tickets.set index (tickets[index].atKey (js "id") (renamedText id nextId))).map
        targets = tickets.map targets := by
      have hlt' : index < (tickets.map targets).length := by rwa [List.length_map]
      have hget : (tickets.map targets)[index] = targets tickets[index] := List.getElem_map targets
      rw [List.map_set, htargets, ← hget, List.set_getElem_self]
    rw [← e, List.flatMap_def, hmap, List.flatMap_def]

/-! ## There and back -/

/-- A ticket that does not mention the new id is restored by the renaming back. -/
theorem renamedTicket_renamedTicket {id nextId : JsString} {ticket : Json ν} (hj : ticket.IsJson)
    (hid : id? ticket ≠ some nextId) (htargets : nextId ∉ targets ticket) :
    renamedTicket nextId id (renamedTicket id nextId ticket) = ticket := by
  have ho := ((Json.isJson_iff ticket).mp hj).1
  have hne : js "edges" ≠ js "id" := by decide
  have hids : ticket.atKey (js "id") (renamedText nextId id ∘ renamedText id nextId) = ticket := by
    apply Json.atKey_eq_self ho
    intro w hw
    apply renamedText_renamedText
    rintro rfl
    apply hid
    rw [id?, hw]
  have hedge : ∀ edge : Json ν, edge.IsJson → target? edge ≠ some nextId →
      renamedEdge nextId id (renamedEdge id nextId edge) = edge := by
    intro edge he hto
    rw [renamedEdge, renamedEdge, Json.atKey_atKey]
    apply Json.atKey_eq_self ((Json.isJson_iff edge).mp he).1
    intro w hw
    apply renamedText_renamedText
    rintro rfl
    apply hto
    rw [target?, hw]
  have hedges : ticket.atKey (js "edges") (Json.onElems (renamedEdge nextId id) ∘
      Json.onElems (renamedEdge id nextId)) = ticket := by
    apply Json.atKey_eq_self ho
    intro w hw
    rw [Function.comp_apply, Json.onElems_onElems]
    cases w with
    | arr edges =>
      have hall := (elemsIsJson_iff edges).mp (hj.get hw)
      rw [Json.onElems, Json.arr.injEq]
      conv_rhs => rw [← List.map_id edges]
      apply List.map_congr_left
      intro edge he
      apply hedge edge (hall edge he)
      intro hto
      apply htargets
      rw [targets, edgesOf, hw]
      exact List.mem_filterMap.mpr ⟨edge, he, hto⟩
    | _ => rfl
  rw [renamedTicket, renamedTicket, Json.atKey_comm hne, Json.atKey_atKey, Json.atKey_atKey, hedges,
    hids]

/-- A graph without the new id. -/
theorem map_renamedTicket_back {id nextId : JsString} {tickets : List (Json ν)}
    (hj : ∀ t ∈ tickets, t.IsJson) (hv : ValidTickets tickets)
    (hfresh : some nextId ∉ tickets.map id?) :
    (tickets.map (renamedTicket id nextId)).map (renamedTicket nextId id) = tickets := by
  rw [List.map_map]
  conv_rhs => rw [← List.map_id tickets]
  apply List.map_congr_left
  intro t ht
  apply renamedTicket_renamedTicket (hj t ht)
  · intro hid
    exact hfresh (hid ▸ List.mem_map_of_mem ht)
  · intro hm
    obtain ⟨a, ha, -⟩ := id?_of_valid (hv.valid t ht)
    exact hfresh (hv.known a nextId ⟨t, ht, ha, hm⟩)

end Rewriting

/-! ## The reassignment of a store -/

/-- The ids that a reassignment meets. -/
theorem planReassign_ok {root : ServiceRoot} {store : StoreContent} {id nextId : JsString}
    {authorized : Bool} {plan : TicketPlan ν}
    (h : planReassign root store id nextId authorized = .ok plan) :
    ∃ snapshot : TicketSnapshot ν, store.load = .ok snapshot ∧
      plan.tickets = snapshot.tickets.map (renamedTicket id nextId) ∧
      some id ∈ snapshot.tickets.map id? ∧ some nextId ∉ snapshot.tickets.map id? ∧
      ValidTickets plan.tickets ∧
      JsNumber.isFinite (JsNumber.ofNat ((snapshot.tickets.flatMap targets).count id) : ν) = true := by
  simp only [planReassign, bind_eq_ok] at h
  obtain ⟨_, -, _, -, snapshot, hload, tickets, htickets, mutated, hmutated, hplan⟩ := h
  have haccepted := StoreContent.load_accepted hload
  rw [haccepted.mutableTickets, Except.ok.injEq] at htickets
  subst htickets
  obtain ⟨hmap, hpresent, hfresh, hcount⟩ :=
    reassignTicket_ok haccepted.isJson haccepted.valid.ids hmutated
  obtain ⟨hplanned, hvalid⟩ := planOf_ok hplan
  refine ⟨snapshot, hload, hplanned.trans hmap, hpresent, hfresh, hplanned ▸ hvalid, ?_⟩
  simp only [planOf, bind_eq_ok] at hplan
  obtain ⟨_, -, hashes, -, afterHash, -, content, hcontent, -⟩ := hplan
  have hfinite : (planContent (ν := ν) (js "reassign") snapshot.hash afterHash mutated.2
      hashes).finite = true := by
    unfold canonicalJson at hcontent
    obtain ⟨w, hw, -⟩ := map_eq_ok.mp hcontent
    exact finite_of_normalize hw
  exact (planContent_finite_iff _ _ _ _ _).mp hfinite _ hcount

/-- Planning on a graph that has the one id and not the other, under a root that has not archived the
other, succeeds. -/
theorem planReassign_succeeds {root : ServiceRoot} {store : StoreContent} {id nextId : JsString}
    {snapshot : TicketSnapshot ν} (hload : store.load = .ok snapshot)
    (harchive : assertIdNotArchived ν root nextId = .ok ())
    (hpresent : some id ∈ snapshot.tickets.map id?)
    (hfresh : some nextId ∉ snapshot.tickets.map id?)
    (hv : ValidTickets (snapshot.tickets.map (renamedTicket id nextId)))
    (hcount : JsNumber.isFinite
      (JsNumber.ofNat ((snapshot.tickets.flatMap targets).count id) : ν) = true) :
    ∃ plan : TicketPlan ν, planReassign root store id nextId true = .ok plan := by
  have haccepted := StoreContent.load_accepted hload
  have hnext : ¬(snapshot.tickets.any fun ticket => eqStr (ticket.get? (js "id")) nextId) = true := by
    intro hany
    obtain ⟨t, ht, he⟩ := List.any_eq_true.mp hany
    exact hfresh (idOf_eqStr.mp he ▸ List.mem_map_of_mem ht)
  obtain ⟨t, ht, htid⟩ := List.mem_map.mp hpresent
  have hindex : ∃ index, (snapshot.tickets.findIdx? fun ticket =>
      eqStr (ticket.get? (js "id")) id) = some index := by
    rw [← Option.isSome_iff_exists, List.findIdx?_isSome, List.any_eq_true]
    exact ⟨t, ht, idOf_eqStr.mpr htid⟩
  obtain ⟨index, hindex⟩ := hindex
  have hmutated : ∃ mutated, reassignTicket id nextId snapshot.tickets = .ok mutated := by
    unfold reassignTicket
    rw [if_neg hnext, hindex]
    exact ⟨_, rfl⟩
  obtain ⟨mutated, hmutated⟩ := hmutated
  obtain ⟨hmap, -, -, hrewritten⟩ := reassignTicket_ok haccepted.isJson haccepted.valid.ids hmutated
  have hj : ∀ t ∈ mutated.1, t.IsJson := by
    rw [hmap]
    intro t ht
    obtain ⟨u, hu, rfl⟩ := List.mem_map.mp ht
    exact renamedTicket_isJson id nextId (haccepted.isJson u hu)
  obtain ⟨plan, hplan, -⟩ := planOf_valid "reassign" snapshot mutated.2 hj (hmap ▸ hv) (by
    intro n hn
    rw [hrewritten, Option.mem_some_iff] at hn
    exact hn ▸ hcount)
  refine ⟨plan, ?_⟩
  simp only [planReassign, bind_eq_ok]
  exact ⟨(), rfl, (), harchive, snapshot, hload, _, haccepted.mutableTickets, mutated, hmutated,
    hplan⟩

omit [JsNumber ν] [Unicode] in
theorem blocks_renamed_iff {id nextId : JsString} {tickets : List (Json ν)}
    (hfresh : some nextId ∉ tickets.map id?)
    (hknown : ∀ a b, Blocks tickets a b → some b ∈ tickets.map id?) {a b : JsString}
    (ha : a ≠ nextId) (hb : b ≠ nextId) :
    Blocks (tickets.map (renamedTicket id nextId)) (renamed id nextId a) (renamed id nextId b) ↔
      Blocks tickets a b := by
  constructor
  · intro ⟨u, hu, hua, hub⟩
    obtain ⟨t, ht, rfl⟩ := List.mem_map.mp hu
    rw [id?_renamedTicket, Option.map_eq_some_iff] at hua
    rw [targets_renamedTicket, List.mem_map] at hub
    obtain ⟨a', hta, haa⟩ := hua
    obtain ⟨b', htb, hbb⟩ := hub
    have hblocks : Blocks tickets a' b' := ⟨t, ht, hta, htb⟩
    have ha' : a' ≠ nextId := by
      rintro rfl
      exact hfresh (hta ▸ List.mem_map_of_mem ht)
    have hb' : b' ≠ nextId := by
      rintro rfl
      exact hfresh (hknown _ _ hblocks)
    have e1 := @renamed_renamed id nextId a ha
    have e2 := @renamed_renamed id nextId b hb
    rw [← haa, renamed_renamed ha'] at e1
    rw [← hbb, renamed_renamed hb'] at e2
    rw [← e1, ← e2]
    exact hblocks
  · intro ⟨t, ht, hta, htb⟩
    refine ⟨renamedTicket id nextId t, List.mem_map_of_mem ht, ?_, ?_⟩
    · rw [id?_renamedTicket, hta, Option.map_some]
    · rw [targets_renamedTicket]
      exact List.mem_map_of_mem htb

/-- A root whose legacy archive holds the ticket that is active too. -/
def archivedRoot : ServiceRoot :=
  ⟨[], some (js "\x7b\"tickets\":[\x7b\"id\":\"A\"\x7d]\x7d"), [], none⟩

end Adlc.Tickets
