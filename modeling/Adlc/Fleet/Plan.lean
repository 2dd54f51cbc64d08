import Mathlib.Data.List.AList
import Adlc.Core.Scope
import Adlc.Tickets.Schema

namespace Adlc.Fleet

open Adlc.Framework Adlc.Tickets Adlc.Core

variable {ν : Type} [JsNumber ν]

/-! ## The recorded states of the tickets -/

inductive TicketState where
  | pending | building | gating | prosecuting | fixing | merging
  | merged | failed | blocked | paused
  deriving DecidableEq

/-- The codes of `REASON_CODES` that an outcome of a ticket carries. -/
inductive ReasonCode where
  | quotaPaused | wallClock | strikesExhausted | ticketBlocked | flail | reviewUnavailable
  | mirrorFetchFailed
  deriving DecidableEq

structure TicketRecord where
  state : TicketState
  strikes : Nat
  reasonCode : Option ReasonCode
  deriving DecidableEq

/-- `status.tickets` -/
abbrev TicketRecords := AList fun _ : JsString => TicketRecord

/-- The names that every object of the language inherits. -/
def inheritedNames : List JsString :=
  [js "__proto__", js "constructor", js "hasOwnProperty", js "isPrototypeOf",
    js "propertyIsEnumerable", js "toLocaleString", js "toString", js "valueOf",
    js "__defineGetter__", js "__defineSetter__", js "__lookupGetter__", js "__lookupSetter__"]

/-- An own entry of `statusById(status)`; to assign one to `__proto__` makes none. -/
def stateOf (records : TicketRecords) (id : JsString) : Option TicketState :=
  if id = js "__proto__" then none else (records.lookup id).map TicketRecord.state

/-! ## The plan of one round -/

/-- `t.id` -/
def idOf (ticket : Json ν) : JsString := (id? ticket).getD []

def isCompleted (ticket : Json ν) : Bool := eqTrue (ticket.get? (js "completed"))

def activeTickets (all : List (Json ν)) : List (Json ν) := all.filter fun t => !isCompleted t

def predecessorsOf (id : JsString) (all : List (Json ν)) : List JsString :=
  (all.filter fun t => decide (id ∈ targets t)).map idOf

/-- `mergedOrCompleted(all, statusById).has(id)` -/
def mergedOrCompleted (all : List (Json ν)) (records : TicketRecords) (id : JsString) : Bool :=
  (all.any fun t => isCompleted t && decide (idOf t = id)) ||
    decide (stateOf records id = some .merged)

/-- A ticket that is already building, merged, failed or blocked is not dispatched again. -/
def isCandidate (records : TicketRecords) (id : JsString) : Bool :=
  match stateOf records id with
  | some s => decide (s = .pending)
  | none => !inheritedNames.contains id

/-- `inFlightIds.map((id) => byId.get(id)).filter(Boolean)` -/
def ticketsOf (all : List (Json ν)) (ids : List JsString) : List (Json ν) :=
  ids.filterMap (byIdGet all)

def inSubset (onlyIds : Option (List JsString)) (id : JsString) : Bool :=
  match onlyIds with
  | some ids => ids.contains id
  | none => true

def isReady (all : List (Json ν)) (records : TicketRecords) (inFlightIds : List JsString)
    (onlyIds : Option (List JsString)) (t : Json ν) : Bool :=
  inSubset onlyIds (idOf t) && isCandidate records (idOf t) &&
    (predecessorsOf (idOf t) all).all (mergedOrCompleted all records) &&
    !(ticketsOf all inFlightIds).any fun f => scopesOverlap f t

def computeReady (all : List (Json ν)) (records : TicketRecords) (inFlightIds : List JsString)
    (onlyIds : Option (List JsString)) : List (Json ν) :=
  (activeTickets all).filter (isReady all records inFlightIds onlyIds)

/-- The ids of the subset that wait for a ticket outside it. -/
def unsatisfiableInSubset (all : List (Json ν)) (records : TicketRecords)
    (onlyIds : Option (List JsString)) : List JsString :=
  match onlyIds with
  | none => []
  | some ids => ids.filter fun id => (predecessorsOf id all).any fun p =>
    !ids.contains p && !mergedOrCompleted all records p

/-- The tickets to admit, with what is held and how many slots are free. -/
def selectFrom : List (Json ν) → List (Json ν) → Nat → List (Json ν)
  | [], _, _ => []
  | _ :: _, _, 0 => []
  | t :: ready, held, freeSlots + 1 =>
    if held.any fun h => scopesOverlap h t then selectFrom ready held (freeSlots + 1)
    else t :: selectFrom ready (held ++ [t]) freeSlots

def selectDispatchable (ready inFlightTickets : List (Json ν)) (freeSlots : Nat) :
    List (Json ν) := selectFrom ready inFlightTickets freeSlots

structure Round (ν : Type) where
  admitted : List (Json ν)
  blocked : List JsString
  freeSlots : Nat

def planRound (all : List (Json ν)) (records : TicketRecords) (inFlightIds : List JsString)
    (cap : Nat) (onlyIds : Option (List JsString)) : Round ν :=
  let inFlight := ticketsOf all inFlightIds
  let freeSlots := cap - inFlight.length
  { admitted := selectDispatchable (computeReady all records inFlightIds onlyIds) inFlight freeSlots
    blocked := unsatisfiableInSubset all records onlyIds
    freeSlots }

/-! ## What is admitted -/

/-- No two of the tickets overlap. -/
def Apart (tickets : List (Json ν)) : Prop :=
  tickets.Pairwise fun a b => scopesOverlap a b = false

instance : Std.Symm fun a b : Json ν => scopesOverlap a b = false where
  symm a b h := by rwa [scopesOverlap_comm]

omit [JsNumber ν] in
theorem selectFrom_sublist (ready held : List (Json ν)) (freeSlots : Nat) :
    (selectFrom ready held freeSlots).Sublist ready := by
  induction ready generalizing held freeSlots with
  | nil => exact List.Sublist.refl _
  | cons t ready ih =>
    cases freeSlots with
    | zero => exact List.nil_sublist _
    | succ n =>
      rw [selectFrom]
      split_ifs
      · exact (ih held (n + 1)).cons t
      · exact (ih (held ++ [t]) n).cons_cons t

omit [JsNumber ν] in
theorem selectFrom_length (ready held : List (Json ν)) (freeSlots : Nat) :
    (selectFrom ready held freeSlots).length ≤ freeSlots := by
  induction ready generalizing held freeSlots with
  | nil => exact Nat.zero_le _
  | cons t ready ih =>
    cases freeSlots with
    | zero => exact Nat.le_refl _
    | succ n =>
      rw [selectFrom]
      split_ifs
      · exact ih held (n + 1)
      · exact Nat.succ_le_succ (ih (held ++ [t]) n)

omit [JsNumber ν] in
/-- What is admitted overlaps neither with what is held nor with one another. -/
theorem selectFrom_apart {ready held : List (Json ν)} (freeSlots : Nat) (h : Apart held) :
    Apart (held ++ selectFrom ready held freeSlots) := by
  induction ready generalizing held freeSlots with
  | nil =>
    rw [selectFrom, List.append_nil]
    exact h
  | cons t ready ih =>
    cases freeSlots with
    | zero =>
      rw [selectFrom, List.append_nil]
      exact h
    | succ n =>
      rw [selectFrom]
      split_ifs with hover
      · exact ih (n + 1) h
      · have hheld : Apart (held ++ [t]) := by
          apply List.pairwise_append.2
          refine ⟨h, List.pairwise_singleton _ _, ?_⟩
          intro a ha b hb
          obtain rfl := List.mem_singleton.1 hb
          rw [List.any_eq_true] at hover
          by_contra hab
          exact hover ⟨a, ha, by simpa using hab⟩
        have hrest := ih n hheld
        rwa [List.append_assoc] at hrest

end Adlc.Fleet
