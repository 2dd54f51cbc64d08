import Adlc.Framework.Latest
import Adlc.Fleet.Plan
import Adlc.Tickets.ManifestPrimitives

namespace Adlc.TicketSync

open Adlc.Framework Adlc.Tickets

variable {ν : Type} [JsNumber ν]

/-! ## The entries of the chains -/

/-- The entries with the place of their chain, one chain after the other. -/
def placedFrom (k : Nat) : List (List (Json ν)) → List (Json ν × Nat)
  | [] => []
  | chain :: chains => chain.map (·, k) ++ placedFrom (k + 1) chains

def placed (chains : List (List (Json ν))) : List (Json ν × Nat) := placedFrom 0 chains

/-- A later chain's entry outranks an earlier chain's; in one chain the `seq` decides. -/
def outranks (seq : Json ν → ν) (e prev : Json ν × Nat) : Bool :=
  decide (prev.2 < e.2) || (decide (e.2 = prev.2) &&
    (JsNumber.lt (seq prev.1) (seq e.1) || decide (seq e.1 = seq prev.1)))

/-- `seqOf(e)`, with `Date.parse(e.ts ?? '') || 0` for an entry that has no number. -/
def seqOf (dateParse : Option (Json ν) → ν) (e : Json ν) : ν :=
  match e.get? (js "seq") with
  | some (.num n) => n
  | _ => dateParse (e.get? (js "ts"))

def gateOf (e : Json ν) : JsString := (str? e (js "gate")).getD []

/-- The entry is bound to the ticket, under a gate. -/
def isBound (ticketId : JsString) (e : Json ν) : Bool :=
  eqStr (e.get? (js "ticket")) ticketId && (str? e (js "gate")).isSome

/-! ## The status of a ticket -/

def p5Gates : List JsString := [js "p5", js "p5-complete", js "prosecution"]

inductive PublishedStatus where
  | p5Pass | p5Fail | wip
  deriving DecidableEq

/-- `e.data?.verdict` -/
def verdictOf (e : Json ν) : Option (Json ν) := (e.get? (js "data")).bind (·.get? (js "verdict"))

def statusOf (e : Json ν) : PublishedStatus :=
  let v := verdictOf e
  if eqStr v (js "clear") || eqStr v (js "pass") || eqStr v (js "passed") then .p5Pass
  else if eqStr v (js "blocked") || eqStr v (js "fail") || eqStr v (js "failed") then .p5Fail
  else .wip

def deriveStatus (dateParse : Option (Json ν) → ν) (gates : List (JsString × (Json ν × Nat))) :
    Option PublishedStatus :=
  (latestOf (outranks (seqOf dateParse)) (p5Gates.filterMap fun k => valueAt gates k)).map fun p5 =>
    statusOf p5.1

/-- The ticket's record in `reduceTicketOutcomes(chains)`: the latest entry of each gate. A gate
whose name every object inherits is never recorded. -/
def ticketOutcome (dateParse : Option (Json ν) → ν) (chains : List (List (Json ν)))
    (ticketId : JsString) : List (JsString × (Json ν × Nat)) :=
  latestByKey (outranks (seqOf dateParse)) (fun e => gateOf e.1)
    ((placed chains).filter fun e =>
      isBound ticketId e.1 && !Fleet.inheritedNames.contains (gateOf e.1))

def statusForTicket (dateParse : Option (Json ν) → ν) (chains : List (List (Json ν)))
    (ticketId : JsString) : Option PublishedStatus :=
  deriveStatus dateParse (ticketOutcome dateParse chains ticketId)

/-! ## Chains in order -/

/-- An entry's number in its chain. -/
def SeqIs (e : Json ν) (n : Nat) : Prop := e.get? (js "seq") = some (.num (JsNumber.ofNat n)) ∧ n ≤ 2 ^ 53

/-- The entries of a chain are numbered, and the numbers grow. -/
structure Numbered (chain : List (Json ν)) : Prop where
  number : ∀ e ∈ chain, ∃ n, SeqIs e n
  grows : chain.Pairwise fun a b => ∀ m n, SeqIs a m → SeqIs b n → m < n

theorem Numbered.sublist {chain chain' : List (Json ν)} (h : Numbered chain)
    (hs : chain'.Sublist chain) : Numbered chain' :=
  ⟨fun e he => h.number e (hs.subset he), h.grows.sublist hs⟩

omit [JsNumber ν] in
theorem map_fst_placedFrom (k : Nat) (chains : List (List (Json ν))) :
    (placedFrom k chains).map Prod.fst = chains.flatten := by
  induction chains generalizing k with
  | nil => rfl
  | cons chain chains ih =>
    rw [placedFrom, List.map_append, ih, List.map_map, List.flatten_cons]
    congr 1
    exact List.map_id chain

omit [JsNumber ν] in
theorem le_of_mem_placedFrom {k : Nat} {chains : List (List (Json ν))} {e : Json ν × Nat}
    (h : e ∈ placedFrom k chains) : k ≤ e.2 := by
  induction chains generalizing k with
  | nil => cases h
  | cons chain chains ih =>
    rcases List.mem_append.1 h with h | h
    · obtain ⟨_, -, rfl⟩ := List.mem_map.1 h
      exact le_refl k
    · exact (Nat.le_succ k).trans (ih h)

/-- How the entries of numbered chains outrank one another. -/
theorem outranks_in_order {seq : Json ν → ν}
    (hseq : ∀ e n, e.get? (js "seq") = some (.num n) → seq e = n) {chain : List (Json ν)}
    (h : Numbered chain) (k : Nat) : WinsInOrder (outranks seq) (chain.map (·, k)) := by
  constructor
  · intro e _
    simp [outranks]
  · rw [List.pairwise_map]
    apply h.grows.imp_of_mem
    intro a b ha hb hlt
    obtain ⟨m, hm⟩ := h.number a ha
    obtain ⟨n, hn⟩ := h.number b hb
    have hmn := hlt m n hm hn
    have hab : JsNumber.lt (seq a) (seq b) = true := by
      rw [hseq a _ hm.1, hseq b _ hn.1, JsNumber.lt_ofNat _ _ hm.2 hn.2]
      exact decide_eq_true hmn
    have hba : JsNumber.lt (seq b) (seq a) = false := by
      rw [hseq a _ hm.1, hseq b _ hn.1, JsNumber.lt_ofNat _ _ hn.2 hm.2]
      exact decide_eq_false (by omega)
    have hne : seq a ≠ seq b := by
      intro he
      rw [he] at hab hba
      rw [hab] at hba
      cases hba
    simp [outranks, hab, hba, hne]

theorem placed_in_order {seq : Json ν → ν}
    (hseq : ∀ e n, e.get? (js "seq") = some (.num n) → seq e = n) {chains : List (List (Json ν))}
    (h : ∀ chain ∈ chains, Numbered chain) : WinsInOrder (outranks seq) (placed chains) := by
  unfold placed
  generalize 0 = k
  induction chains generalizing k with
  | nil => exact ⟨by simp [placedFrom], List.Pairwise.nil⟩
  | cons chain chains ih =>
    have hhead := outranks_in_order hseq (h chain List.mem_cons_self) k
    have hrest := ih (fun c hc => h c (List.mem_cons_of_mem _ hc)) (k + 1)
    constructor
    · intro e he
      rcases List.mem_append.1 he with he | he
      · exact hhead.1 e he
      · exact hrest.1 e he
    · rw [placedFrom, List.pairwise_append]
      refine ⟨hhead.2, hrest.2, ?_⟩
      intro a ha b hb
      obtain ⟨_, -, rfl⟩ := List.mem_map.1 ha
      have hlt := le_of_mem_placedFrom hb
      have hbk : k < b.2 := hlt
      have hne : ¬k = b.2 := by omega
      have hnlt : ¬b.2 < k := by omega
      simp [outranks, hbk, hne, hnlt]

/-- The entries of the ticket that the status is derived from. -/
def p5Entries (ticketId : JsString) (entries : List (Json ν)) : List (Json ν) :=
  entries.filter fun e => isBound ticketId e && decide (gateOf e ∈ p5Gates)

omit [JsNumber ν] in
theorem getLast?_map_fst_filter (p : Json ν → Bool) (l : List (Json ν × Nat)) :
    ((l.filter fun e => p e.1).getLast?).map Prod.fst = ((l.map Prod.fst).filter p).getLast? := by
  rw [← List.getLast?_map, List.filter_map]
  rfl

/-- In chains whose entries are in order, the status is that of the ticket's last P5 entry. -/
theorem statusForTicket_eq {dateParse : Option (Json ν) → ν} {chains : List (List (Json ν))}
    (h : ∀ chain ∈ chains, Numbered chain) (ticketId : JsString) :
    statusForTicket dateParse chains ticketId =
      (p5Entries ticketId chains.flatten).getLast?.map statusOf := by
  have hseq : ∀ (e : Json ν) n, e.get? (js "seq") = some (.num n) → seqOf dateParse e = n := by
    intro e n hn
    rw [seqOf, hn]
  have hplaced := placed_in_order hseq h
  have hbound := hplaced.sublist (List.filter_sublist (p := fun e =>
    isBound ticketId e.1 && !Fleet.inheritedNames.contains (gateOf e.1)))
  have hlookup : (p5Gates.filterMap fun k =>
      valueAt (ticketOutcome dateParse chains ticketId) k) =
      p5Gates.filterMap fun k => (((placed chains).filter fun e =>
        isBound ticketId e.1 && !Fleet.inheritedNames.contains (gateOf e.1)).filter fun a =>
          decide (gateOf a.1 = k)).getLast? := by
    apply List.filterMap_congr
    intro k _
    unfold ticketOutcome
    rw [latestByKey_eq hbound, valueAt_lastByKey]
  have hp5 : ∀ e : Json ν × Nat, decide (gateOf e.1 ∈ p5Gates) = true ↔ gateOf e.1 ∈ p5Gates :=
    fun e => decide_eq_true_iff
  have hfilter : (((placed chains).filter fun e =>
      isBound ticketId e.1 && !Fleet.inheritedNames.contains (gateOf e.1)).filter fun a =>
        decide (gateOf a.1 ∈ p5Gates)) =
      (placed chains).filter fun e => isBound ticketId e.1 && decide (gateOf e.1 ∈ p5Gates) := by
    rw [List.filter_filter]
    apply List.filter_congr
    intro e _
    have hname : gateOf e.1 ∈ p5Gates → gateOf e.1 ∉ Fleet.inheritedNames := by
      intro hmem
      simp only [p5Gates, List.mem_cons, List.not_mem_nil, or_false] at hmem
      rcases hmem with hg | hg | hg <;> rw [hg] <;> decide +kernel
    by_cases hp : gateOf e.1 ∈ p5Gates
    · simp [hp, hname hp]
    · simp [hp]
  have hlatest := latestOf_last hbound p5Gates hp5
  rw [statusForTicket, deriveStatus, hlookup, hlatest, hfilter, p5Entries,
    ← map_fst_placedFrom 0 chains, ← getLast?_map_fst_filter, Option.map_map]
  rfl

end Adlc.TicketSync
