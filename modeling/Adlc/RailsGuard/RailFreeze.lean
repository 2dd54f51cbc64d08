import Adlc.Framework.IntNumber
import Adlc.Framework.ThreeWay
import Adlc.RailsGuard.JsonContract
import Adlc.Tickets.Snapshot

namespace Adlc.RailsGuard

open Adlc.Framework Adlc.Tickets

variable {ν : Type} [JsNumber ν]

/-! ## The gate's ticket-store check -/

/-- The tickets in a tree, as `JSON.parse` reads them, and the version of the store's format. -/
structure TicketTree (ν : Type) where
  formatVersion : Nat
  tickets : List (Json ν)
  ordered : ∀ t ∈ tickets, t.Ordered

/-- `new GitTreeTicketStore({ revision }).load().mutableTickets()` -/
def TicketTree.load (tree : TicketTree ν) : Except TicketStoreError (List (Json ν)) :=
  match validateTickets false true tree.tickets with
  | .error e => .error e
  | .ok () =>
    match TicketSnapshot.make tree.tickets with
    | .error e => .error e
    | .ok snapshot => snapshot.mutableTickets

inductive GateError where
  | deny (message : JsString)
  | fail (message : JsString)

/-- `ticket.rails ?? []` of a loaded ticket. -/
def railsOf (ticket : Json ν) : List (Json ν) :=
  match ticket.get? (js "rails") with
  | some (.arr rails) => rails
  | _ => []

/-- The rails of the tickets in flight. -/
def frozenRails (baseTickets : List (Json ν)) : List (Json ν) :=
  (baseTickets.filter fun ticket => !eqTrue (ticket.get? (js "completed"))).flatMap railsOf

def withoutCompleted : Json ν → Json ν
  | .obj ms => .obj (ms.filter fun p => decide (p.1 ≠ js "completed"))
  | v => v

def gainsOnlyCompletion (baseTicket headTicket : Json ν) : Bool :=
  if !eqTrue (headTicket.get? (js "completed")) then false
  else decide (stable (withoutCompleted headTicket) = stable baseTicket)

def isCompletionAnnotationOnly (baseTicket headTicket : Json ν) (railedAtBaseTip : Bool) : Bool :=
  if railsOf baseTicket ≠ [] then false
  else if railedAtBaseTip then false
  else gainsOnlyCompletion baseTicket headTicket

def whereOf (protectedBasePush : Bool) : JsString :=
  if protectedBasePush then js "in a push to the default branch" else js "in a PR"

/-- The check of one ticket of the base. -/
def checkBaseTicket (headTickets : List (Json ν)) (storeLabel : JsString) (railedAtBaseTip : List JsString)
    (protectedBasePush : Bool) (baseTicket : Json ν) : Except GateError Unit :=
  let id := idOf baseTicket
  match byIdGet headTickets id with
  | none => .error (.deny (js "base ticket " ++ id ++ js " cannot be removed from " ++ storeLabel ++ js " " ++
      whereOf protectedBasePush))
  | some headTicket =>
    if stable headTicket = stable baseTicket then .ok ()
    else
      let completed :=
        if protectedBasePush then gainsOnlyCompletion baseTicket headTicket
        else isCompletionAnnotationOnly baseTicket headTicket (decide (id ∈ railedAtBaseTip))
      if completed then .ok ()
      else .error (.deny (js "base ticket " ++ id ++ js " contract cannot change in " ++ storeLabel ++ js " " ++
        whereOf protectedBasePush))

def assertBaseTicketContractsPreserved (headTickets : List (Json ν)) (storeLabel : JsString)
    (railedAtBaseTip : List JsString) (protectedBasePush : Bool) : List (Json ν) → Except GateError Unit
  | [] => .ok ()
  | baseTicket :: baseTickets =>
    match checkBaseTicket headTickets storeLabel railedAtBaseTip protectedBasePush baseTicket with
    | .error e => .error e
    | .ok () => assertBaseTicketContractsPreserved headTickets storeLabel railedAtBaseTip protectedBasePush
        baseTickets

/-- `ticketsAtMergeBase(…)`: no tickets where there was no store. -/
def ticketsAtMergeBase (mergeBase : Option (TicketTree ν)) : Except GateError (List (Json ν)) :=
  match mergeBase with
  | none => .ok []
  | some tree =>
    match tree.load with
    | .ok tickets => .ok tickets
    | .error e => .error (.fail (js "cannot load merge-base ticket store: " ++ e.code ++ js ": " ++ e.message))

def railedIds (baseTickets : List (Json ν)) : List JsString :=
  (baseTickets.filter fun ticket => decide (railsOf ticket ≠ [])).map idOf

def storeLabel (formatVersion : Nat) : JsString :=
  if formatVersion = 0 then js ".adlc/tickets.json" else js "the .adlc/tickets/ store"

inductive StoreVerdict where
  /-- Every ticket of the merge base stands at HEAD. -/
  | preserved
  /-- The legacy-to-directory migration, which has a ceremony of its own. -/
  | migration

/-- `verifyTicketStore(…)`, up to the ceremony of a migration. -/
def verifyTicketStore (mergeBase : Option (TicketTree ν)) (tip head : TicketTree ν) (push : Bool) :
    Except GateError StoreVerdict :=
  match tip.load with
  | .error e => .error (.fail (js "cannot load trusted-base ticket store: " ++ e.code ++ js ": " ++ e.message))
  | .ok baseTickets =>
    match head.load with
    | .error e => .error (.fail (js "cannot load HEAD ticket store: " ++ e.code ++ js ": " ++ e.message))
    | .ok headTickets =>
      if tip.formatVersion = 0 ∧ head.formatVersion = 1 then .ok .migration
      else if tip.formatVersion ≠ head.formatVersion then
        .error (.deny (js
          "ticket store backend changed outside the supported legacy-to-directory migration"))
      else
        match ticketsAtMergeBase mergeBase with
        | .error e => .error e
        | .ok atMergeBase =>
          match assertBaseTicketContractsPreserved headTickets (storeLabel head.formatVersion)
              (railedIds baseTickets) push atMergeBase with
          | .error e => .error e
          | .ok () => .ok .preserved

/-! ## A merge -/

/-- The field of a ticket, if there is a ticket. -/
def fieldOf (ticket : Option (Json ν)) (key : JsString) : Option (Json ν) := ticket.bind fun t => t.get? key

/-- A ticket as the three-way merge of its fields leaves it. -/
def MergesTicket (base : Option (Json ν)) (ours theirs merged : Json ν) : Prop :=
  ∀ key, mergePlace (Option.map stable) (fieldOf base key) (ours.get? key) (theirs.get? key) =
    some (merged.get? key)

/-- Of the tickets of one id: one that both sides have is merged field by field, one that a side has
removed is as the other has it in the base. -/
def MergesId (base ours theirs merged : Option (Json ν)) : Prop :=
  match ours, theirs with
  | some t, some h => ∃ m, merged = some m ∧ MergesTicket base t h m
  | some t, none => match base with
    | none => merged = some t
    | some b => stable b = stable t ∧ merged = none
  | none, some h => match base with
    | none => merged = some h
    | some b => stable b = stable h ∧ merged = none
  | none, none => merged = none

/-- A conflict-free merge of two stores. -/
def MergesStore (base ours theirs merged : List (Json ν)) : Prop :=
  ∀ id, MergesId (byIdGet base id) (byIdGet ours id) (byIdGet theirs id) (byIdGet merged id)

def ticketsOf (mergeBase : Option (TicketTree ν)) : List (Json ν) := (mergeBase.map TicketTree.tickets).getD []

/-- A pull request: where it branched off, what it holds, and what its merge leaves. -/
structure PullRequest (ν : Type) where
  mergeBase : Option (TicketTree ν)
  head : TicketTree ν
  merged : TicketTree ν

/-- The gate accepts it, and it is merged into the tip. -/
structure Accepted (tip : TicketTree ν) (earlier : List (TicketTree ν)) (pr : PullRequest ν) : Prop where
  inHistory : ∀ tree, pr.mergeBase = some tree → tree ∈ tip :: earlier
  verified : verifyTicketStore pr.mergeBase tip pr.head false = .ok .preserved
  merges : MergesStore (ticketsOf pr.mergeBase) tip.tickets pr.head.tickets pr.merged.tickets

/-- A property of each merge, from its tip and the tips before. -/
def AllAlong (P : TicketTree ν → List (TicketTree ν) → PullRequest ν → Prop) :
    TicketTree ν → List (TicketTree ν) → List (PullRequest ν) → Prop
  | _, _, [] => True
  | tip, earlier, pr :: prs => P tip earlier pr ∧ AllAlong P pr.merged (tip :: earlier) prs

/-- No ticket of the tip goes or has other rails, none with rails becomes complete, and what is
frozen stays so. -/
structure RailsKept (tip merged : List (Json ν)) : Prop where
  tickets : ∀ id t, byIdGet tip id = some t → ∃ m, byIdGet merged id = some m ∧ railsOf m = railsOf t ∧
    (railsOf t ≠ [] → eqTrue (m.get? (js "completed")) = true → eqTrue (t.get? (js "completed")) = true)
  frozen : frozenRails tip ⊆ frozenRails merged

/-- A ticket that tip and HEAD have, but not the merge base: HEAD declares no rails where the tip has
no such field, and does not complete one that has rails at the tip. -/
def LateTicketsAgree (base tip head : List (Json ν)) : Prop :=
  ∀ id t h, byIdGet tip id = some t → byIdGet head id = some h → byIdGet base id = none →
    (t.get? (js "rails") = none → railsOf h = []) ∧
      (railsOf t ≠ [] → t.get? (js "completed") = none → eqTrue (h.get? (js "completed")) = false)

/-! ## What the gate has checked -/

omit [JsNumber ν] in
theorem byIdGet_perm {ts us : List (Json ν)} (hn : (ts.map id?).Nodup) (hp : ts.Perm us) (id : JsString) :
    byIdGet ts id = byIdGet us id := by
  have hn' : (us.map id?).Nodup := (hp.map id?).nodup_iff.mp hn
  apply Option.ext
  intro t
  constructor
  · intro h
    obtain ⟨hm, hid⟩ := byIdGet_some h
    exact byIdGet_eq hn' (hp.mem_iff.mp hm) hid
  · intro h
    obtain ⟨hm, hid⟩ := byIdGet_some h
    exact byIdGet_eq hn (hp.mem_iff.mpr hm) hid

theorem load_spec {tree : TicketTree ν} {tickets : List (Json ν)} (h : tree.load = .ok tickets) :
    ValidTickets tree.tickets ∧ tickets.Perm tree.tickets ∧ ∀ t ∈ tree.tickets, t.IsJson := by
  unfold TicketTree.load at h
  split at h
  · cases h
  · rename_i hv
    have hvalid := (validateTickets_ok_iff tree.tickets).mp hv
    split at h
    · cases h
    · rename_i snapshot hs
      have hfinite : ∀ t ∈ tree.tickets, t.finite = true := by
        unfold TicketSnapshot.make at hs
        split at hs
        · cases hs
        · rename_i clones hc
          exact deepCloneAll_finite hc
      have hjson : ∀ t ∈ tree.tickets, t.IsJson :=
        fun t ht => (Json.isJson_iff t).mpr ⟨tree.ordered t ht, hfinite t ht⟩
      have hids : ∀ t ∈ tree.tickets, (id? t).isSome = true := by
        intro t ht
        obtain ⟨id, hid, -⟩ := id?_of_valid (hvalid.valid t ht)
        rw [hid]
        rfl
      rw [TicketSnapshot.make_eq hjson hids] at hs
      obtain rfl := Except.ok.inj hs
      have hsorted : ∀ t ∈ sortById tree.tickets, t.IsJson :=
        fun t ht => hjson t ((sortById_perm tree.tickets).mem_iff.mp ht)
      have hclone : (snapshotOf tree.tickets).mutableTickets = .ok (sortById tree.tickets) :=
        deepCloneAll_eq hsorted
      rw [hclone] at h
      exact ⟨hvalid, Except.ok.inj h ▸ sortById_perm tree.tickets, hjson⟩

/-- HEAD's ticket is as the base has it, or completes one without rails. -/
def KeptAtHead (railedAtBaseTip : List JsString) (baseTicket headTicket : Json ν) : Prop :=
  stable headTicket = stable baseTicket ∨
    railsOf baseTicket = [] ∧ idOf baseTicket ∉ railedAtBaseTip ∧
      stable (withoutCompleted headTicket) = stable baseTicket

theorem checkBaseTicket_ok {headTickets : List (Json ν)} {storeLabel : JsString} {railed : List JsString}
    {baseTicket : Json ν} (h : checkBaseTicket headTickets storeLabel railed false baseTicket = .ok ()) :
    ∃ headTicket, byIdGet headTickets (idOf baseTicket) = some headTicket ∧
      KeptAtHead railed baseTicket headTicket := by
  unfold checkBaseTicket at h
  cases hget : byIdGet headTickets (idOf baseTicket) with
  | none => simp [hget] at h
  | some headTicket =>
    refine ⟨headTicket, rfl, ?_⟩
    simp only [hget, Bool.false_eq_true, if_false] at h
    split_ifs at h with hs hc
    · exact Or.inl hs
    · right
      unfold isCompletionAnnotationOnly at hc
      split_ifs at hc with h1 h2
      unfold gainsOnlyCompletion at hc
      split_ifs at hc
      exact ⟨by simpa using h1, by simpa using h2, of_decide_eq_true hc⟩

theorem assertBaseTicketContractsPreserved_ok {headTickets : List (Json ν)} {storeLabel : JsString}
    {railed : List JsString} {baseTickets : List (Json ν)}
    (h : assertBaseTicketContractsPreserved headTickets storeLabel railed false baseTickets = .ok ()) :
    ∀ b ∈ baseTickets, ∃ headTicket, byIdGet headTickets (idOf b) = some headTicket ∧
      KeptAtHead railed b headTicket := by
  induction baseTickets with
  | nil => simp
  | cons b baseTickets ih =>
    rw [assertBaseTicketContractsPreserved] at h
    cases hb : checkBaseTicket headTickets storeLabel railed false b with
    | error e => simp [hb] at h
    | ok u =>
      simp only [hb] at h
      rw [List.forall_mem_cons]
      exact ⟨checkBaseTicket_ok hb, ih h⟩

/-- What an accepted pull request holds, ticket by ticket. -/
structure Verified (base tip head : List (Json ν)) : Prop where
  ids : (tip.map id?).Nodup
  valid : ∀ t ∈ tip, validateTicket false t = []
  baseJson : ∀ b ∈ base, b.IsJson
  headJson : ∀ h ∈ head, h.IsJson
  kept : ∀ id b, byIdGet base id = some b → ∃ h, byIdGet head id = some h ∧
    (stable h = stable b ∨ railsOf b = [] ∧ stable (withoutCompleted h) = stable b ∧
      ∀ t, byIdGet tip id = some t → railsOf t = [])

omit [JsNumber ν] in
theorem idOf_of_id? {t : Json ν} {id : JsString} (h : id? t = some id) : idOf t = id := by
  rw [idOf, h]
  rfl

theorem verifyTicketStore_ok {mergeBase : Option (TicketTree ν)} {tip head : TicketTree ν}
    (h : verifyTicketStore mergeBase tip head false = .ok .preserved) :
    Verified (ticketsOf mergeBase) tip.tickets head.tickets := by
  unfold verifyTicketStore at h
  split at h
  · cases h
  rename_i baseTickets htip
  split at h
  · cases h
  rename_i headTickets hhead
  obtain ⟨htipValid, htipPerm, -⟩ := load_spec htip
  obtain ⟨hheadValid, hheadPerm, hheadJson⟩ := load_spec hhead
  split_ifs at h with h1 h2
  · cases h
  split at h
  · cases h
  rename_i atMergeBase hmb
  split at h
  · cases h
  rename_i hpreserved
  have hkept := assertBaseTicketContractsPreserved_ok hpreserved
  have hbase : ((ticketsOf mergeBase).map id?).Nodup ∧ atMergeBase.Perm (ticketsOf mergeBase) ∧
      ∀ b ∈ ticketsOf mergeBase, b.IsJson := by
    cases mergeBase with
    | none =>
      obtain rfl := Except.ok.inj hmb
      exact ⟨List.nodup_nil, List.Perm.refl _, fun b hb => by cases hb⟩
    | some tree =>
      unfold ticketsAtMergeBase at hmb
      cases hload : tree.load with
      | error e => simp [hload] at hmb
      | ok tickets =>
        simp only [hload] at hmb
        obtain rfl := Except.ok.inj hmb
        obtain ⟨hv, hp, hj⟩ := load_spec hload
        exact ⟨hv.ids, hp, hj⟩
  refine ⟨htipValid.ids, htipValid.valid, hbase.2.2, hheadJson, ?_⟩
  intro id b hb
  obtain ⟨hmem, hid⟩ := byIdGet_some hb
  obtain ⟨hd, hget, hcase⟩ := hkept b (hbase.2.1.mem_iff.mpr hmem)
  have hheadIds : (headTickets.map id?).Nodup := (hheadPerm.map id?).nodup_iff.mpr hheadValid.ids
  rw [idOf_of_id? hid, byIdGet_perm hheadIds hheadPerm] at hget
  refine ⟨hd, hget, hcase.imp_right ?_⟩
  rintro ⟨hnone, hrailed, hstable⟩
  refine ⟨hnone, hstable, ?_⟩
  intro t ht
  by_contra hne
  obtain ⟨htm, htid⟩ := byIdGet_some ht
  apply hrailed
  rw [idOf_of_id? hid, ← idOf_of_id? htid]
  exact List.mem_map_of_mem (List.mem_filter.mpr ⟨htipPerm.mem_iff.mpr htm, decide_eq_true hne⟩)

/-! ## Rails do not expire through pull requests -/

omit [JsNumber ν] in
theorem railsOf_congr {t m : Json ν} (h : m.get? (js "rails") = t.get? (js "rails")) :
    railsOf m = railsOf t := by
  rw [railsOf, railsOf, h]

omit [JsNumber ν] in
theorem get?_withoutCompleted (t : Json ν) {k : JsString} (hk : k ≠ js "completed") :
    (withoutCompleted t).get? k = t.get? k := by
  cases t with
  | null | bool | num | str | arr => rfl
  | obj ms =>
    show (ms.filter fun p => decide (p.1 ≠ js "completed")).lookup k = ms.lookup k
    rw [Members.lookup_filter ms fun key => decide (key ≠ js "completed")]
    rw [if_pos (decide_eq_true hk)]

theorem withoutCompleted_isJson {t : Json ν} (h : t.IsJson) : (withoutCompleted t).IsJson := by
  cases t with
  | null | bool | num | str | arr => exact h
  | obj ms =>
    rw [Json.IsJson, membersIsJson_iff] at h
    rw [withoutCompleted, Json.IsJson, membersIsJson_iff]
    have hsub := List.filter_sublist (l := ms) (p := fun p => decide (p.1 ≠ js "completed"))
    refine ⟨⟨h.1.1.sublist (hsub.map _), h.1.2.sublist (hsub.map _)⟩, ?_⟩
    exact fun p hp => h.2 p (hsub.subset hp)

/-- A field that HEAD has as the base has it stays as the tip has it. -/
theorem MergesTicket.kept {base : Option (Json ν)} {t h m : Json ν} (hm : MergesTicket base t h m)
    {key : JsString} (hk : (fieldOf base key).map stable = (h.get? key).map stable) :
    m.get? key = t.get? key := by
  have hplace := hm key
  rw [mergePlace_of_same hk] at hplace
  exact (Option.some.inj hplace).symm

/-- A field of a ticket that the merge base lacks is the tip's, or HEAD's where the tip has none. -/
theorem MergesTicket.late {t h m : Json ν} (hm : MergesTicket none t h m) (key : JsString) :
    m.get? key = t.get? key ∨ t.get? key = none ∧ m.get? key = h.get? key := by
  rcases mergePlace_cases (hm key) with hours | ⟨hnone, htheirs⟩
  · exact Or.inl hours
  · exact Or.inr ⟨Option.map_eq_none_iff.mp hnone.symm, htheirs⟩

theorem MergesTicket.theirs {t h m : Json ν} (hm : MergesTicket none t h m) {key : JsString}
    (ht : t.get? key = none) : m.get? key = h.get? key := by
  rcases hm.late key with hours | ⟨-, htheirs⟩
  · have hsame := mergePlace_theirs (hm key) (by rw [ht]; rfl)
    rw [hours, ht] at hsame ⊢
    exact (Option.map_eq_none_iff.mp hsame.symm).symm
  · exact htheirs

omit [JsNumber ν] in
theorem frozenRails_mem {tickets : List (Json ν)} {rail : Json ν} :
    rail ∈ frozenRails tickets ↔
      ∃ t ∈ tickets, eqTrue (t.get? (js "completed")) = false ∧ rail ∈ railsOf t := by
  unfold frozenRails
  rw [List.mem_flatMap]
  constructor
  · rintro ⟨t, ht, hr⟩
    obtain ⟨hm, hc⟩ := List.mem_filter.mp ht
    exact ⟨t, hm, by simpa using hc, hr⟩
  · rintro ⟨t, hm, hc, hr⟩
    exact ⟨t, List.mem_filter.mpr ⟨hm, by rw [hc]; rfl⟩, hr⟩

/-- One merge keeps the rails just when the tickets that the merge base lacks agree. -/
theorem railsKept_iff {base tip head merged : List (Json ν)} (hv : Verified base tip head)
    (hm : MergesStore base tip head merged) :
    RailsKept tip merged ↔ LateTicketsAgree base tip head := by
  constructor
  · intro hkept id t h ht hh hb
    obtain ⟨m, hget, hrails, hcompleted⟩ := hkept.tickets id t ht
    have hmerge := hm id
    simp only [MergesId, ht, hh, hb] at hmerge
    obtain ⟨m', hget', hticket⟩ := hmerge
    obtain rfl : m = m' := Option.some.inj (hget.symm.trans hget')
    constructor
    · intro hnone
      rw [← railsOf_congr (hticket.theirs hnone), hrails, railsOf, hnone]
    · intro hr hnone
      rw [← hticket.theirs hnone]
      by_contra hc
      have htrue := hcompleted hr (Bool.eq_true_of_not_eq_false hc)
      rw [hnone] at htrue
      cases htrue
  · intro hagree
    have htickets : ∀ id t, byIdGet tip id = some t → ∃ m, byIdGet merged id = some m ∧
        railsOf m = railsOf t ∧ (railsOf t ≠ [] → eqTrue (m.get? (js "completed")) = true →
          eqTrue (t.get? (js "completed")) = true) := by
      intro id t ht
      have hmerge := hm id
      cases hb : byIdGet base id with
      | none =>
        cases hh : byIdGet head id with
        | none =>
          -- only the base's side has it
          simp only [MergesId, ht, hh, hb] at hmerge
          exact ⟨t, hmerge, rfl, fun _ hc => hc⟩
        | some h =>
          simp only [MergesId, ht, hh, hb] at hmerge
          obtain ⟨m, hget, hticket⟩ := hmerge
          obtain ⟨hrails, hcompleted⟩ := hagree id t h ht hh hb
          refine ⟨m, hget, ?_, ?_⟩
          · rcases hticket.late (js "rails") with hours | ⟨hnone, htheirs⟩
            · exact railsOf_congr hours
            · rw [railsOf_congr htheirs, hrails hnone, railsOf, hnone]
          · intro hr hc
            rcases hticket.late (js "completed") with hours | ⟨hnone, htheirs⟩
            · rw [← hours]
              exact hc
            · rw [htheirs, hcompleted hr hnone] at hc
              cases hc
      | some b =>
        obtain ⟨h, hh, hcase⟩ := hv.kept id b hb
        simp only [MergesId, ht, hh, hb] at hmerge
        obtain ⟨m, hget, hticket⟩ := hmerge
        have hbj := hv.baseJson b (byIdGet_some hb).1
        have hhj := hv.headJson h (byIdGet_some hh).1
        refine ⟨m, hget, ?_⟩
        rcases hcase with hsame | ⟨-, hsame, hrailless⟩
        · have hfield : ∀ key, m.get? key = t.get? key :=
            fun key => hticket.kept (stable_get? hbj hhj hsame.symm key)
          refine ⟨railsOf_congr (hfield _), fun _ hc => ?_⟩
          rw [← hfield]
          exact hc
        · have hfield := stable_get? hbj (withoutCompleted_isJson hhj) hsame.symm (js "rails")
          rw [get?_withoutCompleted h (by decide)] at hfield
          exact ⟨railsOf_congr (hticket.kept hfield), fun hr => absurd (hrailless t ht) hr⟩
    refine ⟨htickets, ?_⟩
    intro rail hrail
    obtain ⟨t, hmem, hc, hr⟩ := frozenRails_mem.mp hrail
    obtain ⟨id, hid, -⟩ := id?_of_valid (hv.valid t hmem)
    obtain ⟨m, hget, hrails, hcompleted⟩ := htickets id t (byIdGet_eq hv.ids hmem hid)
    refine frozenRails_mem.mpr ⟨m, (byIdGet_some hget).1, ?_, hrails ▸ hr⟩
    by_contra hne
    have htrue := hcompleted (List.ne_nil_of_mem hr) (Bool.eq_true_of_not_eq_false hne)
    rw [hc] at htrue
    cases htrue

omit [JsNumber ν] in
theorem AllAlong.iff {P Q R : TicketTree ν → List (TicketTree ν) → PullRequest ν → Prop}
    (h : ∀ tip earlier pr, P tip earlier pr → (Q tip earlier pr ↔ R tip earlier pr))
    {tip : TicketTree ν} {earlier : List (TicketTree ν)} {prs : List (PullRequest ν)}
    (hp : AllAlong P tip earlier prs) : AllAlong Q tip earlier prs ↔ AllAlong R tip earlier prs := by
  induction prs generalizing tip earlier with
  | nil => exact Iff.rfl
  | cons pr prs ih => exact and_congr (h tip earlier pr hp.1) (ih hp.2)

/-- In a history of accepted pull requests every merge keeps the rails just when in every merge the
tickets that its merge base lacks agree. -/
theorem rails_never_expire_iff {start : TicketTree ν} {prs : List (PullRequest ν)}
    (h : AllAlong Accepted start [] prs) :
    AllAlong (fun tip _ pr => RailsKept tip.tickets pr.merged.tickets) start [] prs ↔
      AllAlong (fun tip _ pr => LateTicketsAgree (ticketsOf pr.mergeBase) tip.tickets pr.head.tickets)
        start [] prs :=
  AllAlong.iff (fun _ _ _ ha => railsKept_iff (verifyTicketStore_ok ha.verified) ha.merges) h

/-! ## A ticket that was added on both sides -/

/-- A tree whose tickets load. -/
structure TicketTree.Loads (tree : TicketTree ν) : Prop where
  valid : ValidTickets tree.tickets
  json : ∀ t ∈ tree.tickets, t.IsJson

theorem TicketTree.Loads.load {tree : TicketTree ν} (h : tree.Loads) :
    tree.load = .ok (sortById tree.tickets) := by
  have hids : ∀ t ∈ tree.tickets, (id? t).isSome = true := by
    intro t ht
    obtain ⟨id, hid, -⟩ := id?_of_valid (h.valid.valid t ht)
    rw [hid]
    rfl
  have hsorted : ∀ t ∈ sortById tree.tickets, t.IsJson :=
    fun t ht => h.json t ((sortById_perm tree.tickets).mem_iff.mp ht)
  have hclone : (snapshotOf tree.tickets).mutableTickets = .ok (sortById tree.tickets) :=
    deepCloneAll_eq hsorted
  rw [TicketTree.load, (validateTickets_ok_iff _).mpr h.valid]
  simp only [TicketSnapshot.make_eq h.json hids, hclone]

theorem assertBaseTicketContractsPreserved_unchanged {headTickets baseTickets : List (Json ν)}
    (hids : (headTickets.map id?).Nodup) (h : ∀ b ∈ baseTickets, b ∈ headTickets ∧ (id? b).isSome = true)
    (storeLabel : JsString) (railed : List JsString) (push : Bool) :
    assertBaseTicketContractsPreserved headTickets storeLabel railed push baseTickets = .ok () := by
  induction baseTickets with
  | nil => rfl
  | cons b baseTickets ih =>
    rw [List.forall_mem_cons] at h
    have hget := byIdGet_eq hids h.1.1 (id?_eq_idOf h.1.2)
    rw [assertBaseTicketContractsPreserved, checkBaseTicket]
    simp only [hget, if_true]
    exact ih h.2

/-- A head that has each ticket of the merge base as it was is accepted. -/
theorem verifyTicketStore_unchanged {mergeBase : Option (TicketTree ν)} {tip head : TicketTree ν}
    (hversion : tip.formatVersion = head.formatVersion) (htip : tip.Loads) (hhead : head.Loads)
    (hbase : ∀ tree, mergeBase = some tree → tree.Loads ∧ ∀ b ∈ tree.tickets, b ∈ head.tickets)
    (push : Bool) : verifyTicketStore mergeBase tip head push = .ok .preserved := by
  have hatBase : ∃ tickets, ticketsAtMergeBase mergeBase = .ok tickets ∧
      ∀ b ∈ tickets, b ∈ sortById head.tickets ∧ (id? b).isSome = true := by
    cases mergeBase with
    | none => exact ⟨[], rfl, by simp⟩
    | some tree =>
      obtain ⟨hloads, hsub⟩ := hbase tree rfl
      refine ⟨sortById tree.tickets, by rw [ticketsAtMergeBase, hloads.load], ?_⟩
      intro b hb
      have hmem := (sortById_perm tree.tickets).mem_iff.mp hb
      obtain ⟨id, hid, -⟩ := id?_of_valid (hloads.valid.valid b hmem)
      exact ⟨(sortById_perm head.tickets).mem_iff.mpr (hsub b hmem), by rw [hid]; rfl⟩
  obtain ⟨tickets, hticketsAt, hunchanged⟩ := hatBase
  have hids : ((sortById head.tickets).map id?).Nodup :=
    ((sortById_perm head.tickets).map id?).nodup_iff.mpr hhead.valid.ids
  have hmigration : ¬(head.formatVersion = 0 ∧ head.formatVersion = 1) := by omega
  rw [verifyTicketStore, htip.load, hhead.load]
  simp only [hmigration, if_false, hversion, ne_eq, not_true_eq_false, hticketsAt,
    assertBaseTicketContractsPreserved_unchanged hids hunchanged]

def plainMembers : Members Int := [(js "id", .str (js "T-1")), (js "title", .str (js "T-1"))]

def railedMembers : Members Int :=
  [(js "id", .str (js "T-2")), (js "title", .str (js "T-2")), (js "rails", .arr [.str (js "src/core/**")])]

def plainTicket : Json Int := .obj plainMembers
def railedTicket : Json Int := .obj railedMembers
def completedTicket : Json Int := .obj (railedMembers ++ [(js "completed", .bool true)])

theorem plainTicket_isJson : plainTicket.IsJson := ⟨by decide, trivial, trivial, trivial⟩

theorem railedTicket_isJson : railedTicket.IsJson :=
  ⟨by decide, trivial, trivial, ⟨trivial, trivial⟩, trivial⟩

theorem completedTicket_isJson : completedTicket.IsJson :=
  ⟨by decide, trivial, trivial, ⟨trivial, trivial⟩, trivial, trivial⟩

/-- A tree of the directory format with the ticket `T-1` and the others. -/
def withPlain (tickets : List (Json Int)) (h : ∀ t ∈ tickets, t.IsJson) : TicketTree Int :=
  ⟨1, plainTicket :: tickets, by
    intro t ht
    rcases List.mem_cons.mp ht with rfl | ht
    · exact ((Json.isJson_iff _).mp plainTicket_isJson).1
    · exact ((Json.isJson_iff t).mp (h t ht)).1⟩

def plainTree : TicketTree Int := withPlain [] (by simp)
def railedTree : TicketTree Int := withPlain [railedTicket] (by simpa using railedTicket_isJson)
def completedTree : TicketTree Int := withPlain [completedTicket] (by simpa using completedTicket_isJson)

theorem plainTree_loads : plainTree.Loads := by
  refine ⟨validTickets_of_leadsForward ?_ ?_ ?_, ?_⟩
  · decide +kernel
  · decide +kernel
  · decide +kernel
  · exact fun t ht => List.mem_singleton.mp ht ▸ plainTicket_isJson

theorem railedTree_loads : railedTree.Loads := by
  refine ⟨validTickets_of_leadsForward ?_ ?_ ?_, ?_⟩
  · decide +kernel
  · decide +kernel
  · decide +kernel
  · exact List.forall_mem_cons.mpr ⟨plainTicket_isJson, by simpa using railedTicket_isJson⟩

theorem completedTree_loads : completedTree.Loads := by
  refine ⟨validTickets_of_leadsForward ?_ ?_ ?_, ?_⟩
  · decide +kernel
  · decide +kernel
  · decide +kernel
  · exact List.forall_mem_cons.mpr ⟨plainTicket_isJson, by simpa using completedTicket_isJson⟩

/-- `T-2` comes with its rails in one pull request, and completed in another that branched off
before it. -/
def staleCompletion : List (PullRequest Int) :=
  [⟨some plainTree, railedTree, railedTree⟩, ⟨some plainTree, completedTree, completedTree⟩]

/-- The tickets `T-1` and, if there is one, `T-2`. -/
def storeOf (late : Option (Json Int)) : List (Json Int) := plainTicket :: late.toList

theorem byIdGet_storeOf {late : Option (Json Int)} (h : ∀ t ∈ late, id? t = some (js "T-2"))
    (id : JsString) : byIdGet (storeOf late) id =
      if id = js "T-2" then late else if id = js "T-1" then some plainTicket else none := by
  have hplain : id? plainTicket = some (js "T-1") := rfl
  have hne : js "T-1" ≠ js "T-2" := by decide
  unfold byIdGet storeOf
  cases late with
  | none =>
    by_cases h1 : id = js "T-1"
    · simp [hplain, h1, hne]
    · simp [hplain, h1, Ne.symm h1]
  | some t =>
    by_cases h2 : id = js "T-2"
    · simp [h t rfl, h2]
    · by_cases h1 : id = js "T-1"
      · simp [h t rfl, hplain, h1, hne.symm, hne]
      · simp [h t rfl, hplain, h1, h2, Ne.symm h1, Ne.symm h2]

theorem mergesTicket_same (base : Option (Json ν)) (t : Json ν) : MergesTicket base t t t := by
  intro key
  rw [mergePlace, if_pos rfl]

/-- A merge of two such stores is one of their tickets `T-2`. -/
theorem mergesStore_storeOf {t h m : Option (Json Int)} (ht : ∀ x ∈ t, id? x = some (js "T-2"))
    (hh : ∀ x ∈ h, id? x = some (js "T-2")) (hm : ∀ x ∈ m, id? x = some (js "T-2"))
    (hlate : MergesId none t h m) :
    MergesStore (storeOf none) (storeOf t) (storeOf h) (storeOf m) := by
  intro id
  rw [byIdGet_storeOf ht, byIdGet_storeOf hh, byIdGet_storeOf hm, byIdGet_storeOf (by simp)]
  by_cases h2 : id = js "T-2"
  · simp only [h2, if_true]
    exact hlate
  · by_cases h1 : id = js "T-1"
    · rw [if_neg h2, if_neg h2, if_neg h2, if_neg h2, if_pos h1]
      exact ⟨plainTicket, rfl, mergesTicket_same _ _⟩
    · rw [if_neg h2, if_neg h2, if_neg h2, if_neg h2, if_neg h1]
      exact rfl

theorem mergesTicket_completed : MergesTicket none railedTicket completedTicket completedTicket := by
  intro key
  by_cases hk : key = js "completed"
  · subst hk
    rfl
  · have hget : completedTicket.get? key = railedTicket.get? key := by
      show (railedMembers ++ [(js "completed", Json.bool true)]).lookup key = railedMembers.lookup key
      rw [List.lookup_append, List.lookup_cons, beq_eq_false_iff_ne.mpr hk]
      simp
    rw [hget]
    exact mergesTicket_same none railedTicket key

theorem staleCompletion_accepted : AllAlong Accepted plainTree [] staleCompletion := by
  have hplain : ∀ {head : TicketTree Int}, plainTicket ∈ head.tickets → ∀ tree,
      some plainTree = some tree → tree.Loads ∧ ∀ b ∈ tree.tickets, b ∈ head.tickets := by
    rintro head hmem tree ⟨⟩
    exact ⟨plainTree_loads, fun b hb => List.mem_singleton.mp hb ▸ hmem⟩
  have hid : ∀ x ∈ some railedTicket, id? x = some (js "T-2") := by
    rintro x ⟨⟩
    rfl
  have hid' : ∀ x ∈ some completedTicket, id? x = some (js "T-2") := by
    rintro x ⟨⟩
    rfl
  refine ⟨⟨?_, ?_, ?_⟩, ⟨?_, ?_, ?_⟩, trivial⟩
  · rintro tree ⟨⟩
    exact List.mem_cons_self
  · refine verifyTicketStore_unchanged ?_ plainTree_loads railedTree_loads (hplain List.mem_cons_self) false
    rfl
  · exact mergesStore_storeOf (t := none) (by simp) hid hid rfl
  · rintro tree ⟨⟩
    exact List.mem_cons_of_mem _ List.mem_cons_self
  · refine verifyTicketStore_unchanged ?_ railedTree_loads completedTree_loads
      (hplain List.mem_cons_self) false
    rfl
  · exact mergesStore_storeOf hid hid' hid' ⟨_, rfl, mergesTicket_completed⟩

/-- In that history the rails are kept just when the late tickets agree. -/
theorem rails_never_expire_iff_stale :
    AllAlong Accepted plainTree [] staleCompletion ∧
      (AllAlong (fun tip _ pr => RailsKept tip.tickets pr.merged.tickets) plainTree [] staleCompletion ↔
        AllAlong (fun tip _ pr => LateTicketsAgree (ticketsOf pr.mergeBase) tip.tickets pr.head.tickets)
          plainTree [] staleCompletion) :=
  ⟨staleCompletion_accepted, rails_never_expire_iff staleCompletion_accepted⟩

/-- The second merge makes `T-2` complete, and its rails are frozen no more. -/
theorem stale_completion_expires :
    AllAlong Accepted plainTree [] staleCompletion ∧
      ¬AllAlong (fun tip _ pr => RailsKept tip.tickets pr.merged.tickets) plainTree [] staleCompletion := by
  refine ⟨staleCompletion_accepted, ?_⟩
  rintro ⟨-, hkept, -⟩
  have hrail : Json.str (js "src/core/**") ∈ frozenRails railedTree.tickets := List.mem_singleton_self _
  exact absurd (hkept.frozen hrail) List.not_mem_nil

end Adlc.RailsGuard
