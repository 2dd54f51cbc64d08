import Adlc.Tickets.ManifestPrimitives
import Adlc.Framework.IntNumber

namespace Adlc.TicketSync

open Adlc.Framework Adlc.Tickets

variable {ν : Type} [JsNumber ν]

/-! ## Definitions -/

mutual
/-- What a field has to be. -/
inductive Spec where
  | string (minLength : Nat) (allowed : Option (List JsString))
  | number (exclusiveMinimum : Option Nat)
  | array (items : Spec)
  | object (fields : Fields) (additionalProperties : Bool)

/-- The fields of an object, in their order. -/
inductive Fields where
  | nil
  | cons (name : JsString) (required : Bool) (spec : Spec) (fields : Fields)
end

def Fields.names : Fields → List JsString
  | .nil => []
  | .cons name _ _ fields => name :: fields.names

def categories : List JsString :=
  [js "feature", js "bug", js "bugfix", js "refactor", js "docs", js "chore", js "test", js "spec",
    js "contract", js "architecture"]

def str : Spec := .string 0 none
def nestr : Spec := .string 1 none

def edge : Spec :=
  .object (.cons (js "to") true str (.cons (js "contract") false str (.cons (js "type") false str .nil)))
    false

/-- The fields that a block and a ticket share. -/
def executionFields : Fields :=
  .cons (js "scope") false (.array str) (.cons (js "rails") false (.array str)
    (.cons (js "edges") false (.array edge) (.cons (js "duration") false (.number (some 0))
      (.cons (js "category") false (.string 0 (some categories))
        (.cons (js "budget") false (.number (some 0)) .nil)))))

def ticketDef : Fields :=
  .cons (js "id") true nestr (.cons (js "title") true nestr (.cons (js "body") false str executionFields))

def blockDef : Fields := .cons (js "$schema") false str executionFields

/-! ## The validator -/

/-- Own keys that the definition does not declare, sorted, when it closes the object. -/
def unknownKeys (ms : Members ν) (fields : Fields) (additionalProperties : Bool) : List JsString :=
  if additionalProperties then []
  else ((Members.keys ms).filter fun key => decide (key ∉ fields.names)).mergeSort unitLe

def fieldPath (path name : JsString) : JsString := if path = [] then name else path ++ js "." ++ name

mutual
def validateField (path : JsString) (value : Json ν) : Spec → List JsString
  | .string minLength allowed =>
    match value with
    | .str s =>
      (if s.length < minLength then [path ++ js ": must be non-empty"] else []) ++
      (match allowed with
      | some names => if s ∈ names then [] else [path ++ js ": must be one of " ++ joinComma names]
      | none => [])
    | _ => [path ++ js ": expected string"]
  | .number exclusiveMinimum =>
    match value with
    | .num n =>
      match exclusiveMinimum with
      | some bound =>
        if JsNumber.lt (JsNumber.ofNat bound) n then [] else [path ++ js ": must be > " ++ natText bound]
      | none => []
    | _ => [path ++ js ": expected number"]
  | .array items =>
    match value with
    | .arr xs => xs.zipIdx.flatMap fun p => validateField (path ++ js "[" ++ natText p.2 ++ js "]") p.1 items
    | _ => [path ++ js ": expected array"]
  | .object fields additionalProperties =>
    match value with
    | .obj ms => validateFields path ms fields ++
        (unknownKeys ms fields additionalProperties).map fun key =>
          fieldPath path key ++ js ": unknown key"
    | _ => [(if path = [] then js "value" else path) ++ js ": expected object"]

def validateFields (path : JsString) (ms : Members ν) : Fields → List JsString
  | .nil => []
  | .cons name required spec fields =>
    (match ms.lookup name with
    | none => if required then [fieldPath path name ++ js ": required"] else []
    | some value => validateField (fieldPath path name) value spec) ++ validateFields path ms fields
end

/-- `validate(value, def)`, for a definition that leaves the object open. -/
def validate (value : Json ν) (fields : Fields) : List JsString :=
  validateField [] value (.object fields true)

def validateTicket (ticket : Json ν) : List JsString := validate ticket ticketDef
def validateBlock (block : Json ν) : List JsString := validate block blockDef

/-! ## What a definition admits -/

mutual
def Admits : Spec → Json ν → Prop
  | .string minLength allowed, v =>
    ∃ s, v = .str s ∧ minLength ≤ s.length ∧ ∀ names ∈ allowed, s ∈ names
  | .number exclusiveMinimum, v =>
    ∃ n, v = .num n ∧ ∀ bound ∈ exclusiveMinimum, JsNumber.lt (JsNumber.ofNat bound) n = true
  | .array items, v => ∃ xs, v = .arr xs ∧ ∀ x ∈ xs, Admits items x
  | .object fields additionalProperties, v =>
    ∃ ms, v = .obj ms ∧ AdmitsFields fields ms ∧
      (additionalProperties = false → ∀ key ∈ Members.keys ms, key ∈ fields.names)

def AdmitsFields : Fields → Members ν → Prop
  | .nil, _ => True
  | .cons name required spec fields, ms =>
    (required = true → ms.lookup name ≠ none) ∧ (∀ v ∈ ms.lookup name, Admits spec v) ∧
      AdmitsFields fields ms
end

omit [JsNumber ν] in
theorem unknownKeys_nil_iff (ms : Members ν) (fields : Fields) (additionalProperties : Bool) :
    unknownKeys ms fields additionalProperties = [] ↔
      (additionalProperties = false → ∀ key ∈ Members.keys ms, key ∈ fields.names) := by
  cases additionalProperties with
  | true => exact ⟨fun _ h => absurd h.symm Bool.false_ne_true, fun _ => rfl⟩
  | false =>
    rw [unknownKeys, if_neg Bool.false_ne_true, List.eq_nil_iff_forall_not_mem]
    simp only [List.mem_mergeSort, List.mem_filter, decide_eq_true_eq, not_and, not_not, true_imp_iff]

omit [JsNumber ν] in
theorem forall_mem_zipIdx {P : Json ν → Prop} (xs : List (Json ν)) :
    (∀ p ∈ xs.zipIdx, P p.1) ↔ ∀ x ∈ xs, P x := by
  conv_rhs => rw [← List.zipIdx_map_fst 0 xs]
  exact List.forall_mem_map.symm

mutual
/-- The validator has nothing to say exactly of what the definition admits. -/
theorem validateField_nil_iff (spec : Spec) (path : JsString) (v : Json ν) :
    validateField path v spec = [] ↔ Admits spec v := by
  cases spec with
  | string minLength allowed =>
    cases v with
    | str s =>
      have hallowed : (match allowed with
          | some names => if s ∈ names then [] else [path ++ js ": must be one of " ++ joinComma names]
          | none => []) = [] ↔ ∀ names ∈ allowed, s ∈ names := by
        cases allowed with
        | none => exact ⟨fun _ names h => absurd h (Option.not_mem_none names), fun _ => rfl⟩
        | some names => simp
      simp only [validateField, Admits, List.append_eq_nil_iff, hallowed, Json.str.injEq, exists_eq_left']
      simp
    | _ => simp [validateField, Admits]
  | number exclusiveMinimum =>
    cases v with
    | num n => cases exclusiveMinimum <;> simp [validateField, Admits]
    | _ => simp [validateField, Admits]
  | array items =>
    cases v with
    | arr xs =>
      have hitems : ∀ (x : Json ν) (i : Nat),
          validateField (path ++ js "[" ++ natText i ++ js "]") x items = [] ↔ Admits items x :=
        fun x i => validateField_nil_iff items _ x
      simp only [validateField, Admits, List.flatMap_eq_nil_iff, hitems, Json.arr.injEq, exists_eq_left']
      exact forall_mem_zipIdx xs
    | _ => simp [validateField, Admits]
  | object fields additionalProperties =>
    cases v with
    | obj ms =>
      simp only [validateField, Admits, List.append_eq_nil_iff, List.map_eq_nil_iff, unknownKeys_nil_iff,
        validateFields_nil_iff fields path ms, Json.obj.injEq, exists_eq_left']
    | _ => simp [validateField, Admits]

theorem validateFields_nil_iff (fields : Fields) (path : JsString) (ms : Members ν) :
    validateFields path ms fields = [] ↔ AdmitsFields fields ms := by
  cases fields with
  | nil => simp [validateFields, AdmitsFields]
  | cons name required spec fields =>
    have hrest := validateFields_nil_iff fields path ms
    cases hlookup : ms.lookup name with
    | none => simp [validateFields, AdmitsFields, hlookup, hrest]
    | some v =>
      have hfield := validateField_nil_iff spec (fieldPath path name) v
      simp [validateFields, AdmitsFields, hlookup, hrest, hfield]
end

end Adlc.TicketSync
