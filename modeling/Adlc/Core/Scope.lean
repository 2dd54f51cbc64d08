import Adlc.Framework.JsonText

namespace Adlc.Core

open Adlc.Framework

variable {ν : Type} [JsNumber ν]

/-- `ticket.scope ?? []`; the scope of a valid ticket is an array of strings. -/
def scopeOf (ticket : Json ν) : List JsString :=
  match ticket.get? (js "scope") with
  | some (.arr xs) => xs.filterMap fun x =>
    match x with
    | .str s => some s
    | _ => none
  | _ => []

/-- `glob.split('*')[0]` -/
def globBase (glob : JsString) : JsString := glob.takeWhile fun c => c != 42

def globsOverlap (ga gb : JsString) : Bool :=
  decide (ga = gb) ||
    (globBase ga != [] && globBase gb != [] &&
      ((globBase gb).isPrefixOf (globBase ga) || (globBase ga).isPrefixOf (globBase gb)))

def scopesOverlap (a b : Json ν) : Bool :=
  (scopeOf a).any fun ga => (scopeOf b).any fun gb => globsOverlap ga gb

theorem globsOverlap_comm (ga gb : JsString) : globsOverlap ga gb = globsOverlap gb ga := by
  have heq : decide (ga = gb) = decide (gb = ga) := by
    rw [decide_eq_decide]
    exact eq_comm
  rw [globsOverlap, globsOverlap, heq, Bool.and_comm (globBase ga != []),
    Bool.or_comm ((globBase gb).isPrefixOf (globBase ga))]

omit [JsNumber ν] in
/-- Whether two scopes overlap does not depend on their order. -/
theorem scopesOverlap_comm (a b : Json ν) : scopesOverlap a b = scopesOverlap b a := by
  have hle : ∀ a b : Json ν, scopesOverlap a b = true → scopesOverlap b a = true := by
    intro a b h
    rw [scopesOverlap, List.any_eq_true] at h
    obtain ⟨ga, hga, h⟩ := h
    obtain ⟨gb, hgb, h⟩ := List.any_eq_true.1 h
    rw [scopesOverlap, List.any_eq_true]
    refine ⟨gb, hgb, List.any_eq_true.2 ⟨ga, hga, ?_⟩⟩
    rwa [globsOverlap_comm]
  exact Bool.eq_iff_iff.2 ⟨hle a b, hle b a⟩

end Adlc.Core
