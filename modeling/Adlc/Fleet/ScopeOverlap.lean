import Adlc.Core.InScope
import Adlc.Fleet.Plan
import Adlc.Framework.IntNumber

namespace Adlc.Fleet

open Adlc.Framework Adlc.Core

variable {ν : Type} [JsNumber ν]

/-- The conflict score of a ticket pair from its declared scopes. -/
def signalScopeOverlap (a b : Json ν) : ν :=
  if scopesOverlap a b then JsNumber.ofNat 1 else JsNumber.ofNat 0

theorem signalScopeOverlap_zero {a b : Json ν}
    (h : signalScopeOverlap a b = JsNumber.ofNat 0) : scopesOverlap a b = false := by
  by_contra hoverlap
  rw [Bool.not_eq_false] at hoverlap
  rw [signalScopeOverlap, if_pos hoverlap] at h
  have hone := ofNat_inj (by norm_num) (by norm_num) h
  cases hone

omit [JsNumber ν] in
/-- An admitted ticket overlaps with no ticket that is held and with no other admitted one. -/
theorem selectFrom_notOverlapping (ready held : List (Json ν)) (freeSlots : Nat) :
    (selectFrom ready held freeSlots).Pairwise (fun a b => scopesOverlap a b = false) ∧
      ∀ t ∈ selectFrom ready held freeSlots, ∀ h ∈ held, scopesOverlap h t = false := by
  induction ready generalizing held freeSlots with
  | nil => exact ⟨List.Pairwise.nil, nofun⟩
  | cons t ready ih =>
    cases freeSlots with
    | zero => exact ⟨List.Pairwise.nil, nofun⟩
    | succ n =>
      rw [selectFrom]
      split_ifs with hover
      · exact ih held (n + 1)
      · obtain ⟨hpair, hheld⟩ := ih (held ++ [t]) n
        have hfirst : ∀ h ∈ held, scopesOverlap h t = false := by
          intro h hh
          rw [List.any_eq_true] at hover
          by_contra ht
          exact hover ⟨h, hh, by simpa using ht⟩
        constructor
        · apply List.Pairwise.cons _ hpair
          intro u hu
          exact hheld u hu t (List.mem_append_right _ List.mem_cons_self)
        · intro u hu h hh
          obtain rfl | hu := List.mem_cons.1 hu
          · exact hfirst h hh
          · exact hheld u hu h (List.mem_append_left _ hh)

/-- The overlap of two scopes is sound exactly when their patterns that begin with `*` are covered;
so are a round's admissions and a forecast without a conflict. -/
theorem scopesOverlap_sound_iff (a b : Json ν) (ready inFlightTickets : List (Json ν))
    (freeSlots : Nat) :
    ((∀ path, inScope a path = true → inScope b path = true → scopesOverlap a b = true) ↔
      LeadingStarsCovered a b) ∧
    (signalScopeOverlap a b = JsNumber.ofNat 0 → (NoSharedPath a b ↔ LeadingStarsCovered a b)) ∧
    ((selectDispatchable ready inFlightTickets freeSlots).Pairwise NoSharedPath ↔
      (selectDispatchable ready inFlightTickets freeSlots).Pairwise LeadingStarsCovered) ∧
    ∀ t ∈ selectDispatchable ready inFlightTickets freeSlots, ∀ f ∈ inFlightTickets,
      (NoSharedPath f t ↔ LeadingStarsCovered f t) := by
  obtain ⟨hpair, hheld⟩ := selectFrom_notOverlapping ready inFlightTickets freeSlots
  refine ⟨overlap_of_shared_iff a b, ?_, ?_, ?_⟩
  · intro h
    exact noSharedPath_iff (signalScopeOverlap_zero h)
  · constructor
    · intro h
      exact (hpair.and h).imp fun hab => (noSharedPath_iff hab.1).1 hab.2
    · intro h
      exact (hpair.and h).imp fun hab => (noSharedPath_iff hab.1).2 hab.2
  · intro t ht f hf
    exact noSharedPath_iff (hheld t ht f hf)

/-- A ticket of the given scope. -/
def withScope (scope : List JsString) : Json Int := .obj [(js "scope", .arr (scope.map .str))]

theorem scopesOverlap_sound_iff_withScope :
    NoSharedPath (withScope [js "src/*"]) (withScope [js "docs/*"]) ↔
      LeadingStarsCovered (withScope [js "src/*"]) (withScope [js "docs/*"]) :=
  (scopesOverlap_sound_iff (withScope [js "src/*"]) (withScope [js "docs/*"]) [] [] 0).2.1
    (by decide +kernel)

/-- A scope of every path, and a scope of one path. -/
theorem everything_overlaps_nothing :
    ¬∀ (a b : Json Int) (path : JsString), inScope a path = true → inScope b path = true →
      scopesOverlap a b = true := by
  intro h
  have hoverlap := h (withScope [js "**"]) (withScope [js "src/main.js"]) (js "src/main.js")
    (by decide +kernel) (by decide +kernel)
  revert hoverlap
  decide +kernel

end Adlc.Fleet
