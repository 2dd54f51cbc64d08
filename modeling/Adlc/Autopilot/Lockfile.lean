import Adlc.Framework.IntNumber
import Adlc.Framework.JsonWritten
import Adlc.RailsGuard.JsonContract
import Adlc.Tickets.Errors
import Adlc.Tickets.Schema
import Adlc.Core.Glob
import Adlc.Fleet.Plan

namespace Adlc.Autopilot

open Adlc.Framework Adlc.Core

variable {ν : Type} [JsNumber ν]

/-! ## Parsed lockfiles -/

def COMPARED_FIELDS : List JsString :=
  [js "resolved", js "integrity", js "version", js "dependencies", js "optional", js "dev", js "link"]

/-- `JSON.stringify(canon(a)) === JSON.stringify(canon(b))`; `none` is `undefined`. -/
def deepEqual (a b : Option (Json ν)) : Bool :=
  decide ((a.map fun v => stringify (RailsGuard.keysInOrder v)) =
    b.map fun v => stringify (RailsGuard.keysInOrder v))

/-- `v && typeof v === 'object'` -/
def isContainer : Json ν → Bool
  | .arr _ | .obj _ => true
  | _ => false

def isArray : Json ν → Bool
  | .arr _ => true
  | _ => false

/-- What `parseLockfile` returns: a document with a `packages` map, or with an array in its place. -/
structure Lockfile (ν : Type) where
  members : Members ν
  packages : Json ν
  ordered : (Json.obj members).Ordered
  found : members.lookup (js "packages") = some packages
  container : isContainer packages = true

def parseLockfile (text : JsString) : Option (Lockfile ν) :=
  match hdoc : parseJson (ν := ν) text with
  | some (.obj members) =>
    match hfound : members.lookup (js "packages") with
    | some packages =>
      if hc : isContainer packages = true then
        some ⟨members, packages, parseJson_ordered hdoc, hfound, hc⟩
      else none
    | none => none
  | _ => none

/-! ## Entries -/

/-- The own enumerable properties of `packages`. -/
def entriesOf : Json ν → Members ν
  | .obj ms => ms
  | .arr xs => xs.zipIdx.map fun p => (js (toString p.2), p.1)
  | _ => []

/-- What `in` finds on every array beside its elements. -/
def arrayNames : List JsString :=
  [js "length", js "at", js "concat", js "copyWithin", js "fill", js "find", js "findIndex",
    js "findLast", js "findLastIndex", js "lastIndexOf", js "pop", js "push", js "reverse", js "shift",
    js "unshift", js "slice", js "sort", js "splice", js "includes", js "indexOf", js "join", js "keys",
    js "entries", js "values", js "forEach", js "filter", js "flat", js "flatMap", js "map", js "every",
    js "some", js "reduce", js "reduceRight", js "toReversed", js "toSorted", js "toSpliced", js "with"]

def hiddenNames (packages : Json ν) : List JsString :=
  if isArray packages then arrayNames ++ Fleet.inheritedNames else Fleet.inheritedNames

def entryAt (packages : Json ν) (key : JsString) : Option (Json ν) := (entriesOf packages).lookup key

/-- `key in packages` -/
def hasKey (packages : Json ν) (key : JsString) : Bool :=
  (entryAt packages key).isSome || (hiddenNames packages).contains key

/-- `packages[key]`; nothing that is inherited has one of the compared fields. -/
def read (packages : Json ν) (key : JsString) : Json ν := (entryAt packages key).getD (.obj [])

/-! ## The comparison -/

/-- What ends a comparison early: a drift with its detail, or reading a field of `null`. -/
inductive Stop where
  | drift (detail : JsString)
  | typeError
  deriving DecidableEq

def drift (detail : JsString) : Except Stop Unit := .error (.drift detail)

/-- `dep.replace(/^@adlc\//, '')` -/
def workspaceName (dep : JsString) : JsString :=
  if (js "@adlc/").isPrefixOf dep then dep.drop (js "@adlc/").length else dep

/-- The group of `/^<start>([^/]+)$/`. -/
def nameAfter? (start key : JsString) : Option JsString :=
  let x := key.drop start.length
  if start.isPrefixOf key && decide (x ≠ [] ∧ slash ∉ x) then some x else none

def checkFields (key : JsString) (base head : Json ν) : List JsString → Except Stop Unit
  | [] => .ok ()
  | f :: fs =>
    if deepEqual (base.get? f) (head.get? f) then checkFields key base head fs
    else drift (key ++ js ": " ++ f ++ js " differs")

def checkSharedEntry (key : JsString) : Json ν → Json ν → Except Stop Unit
  | .null, _ | _, .null => .error .typeError
  | base, head => checkFields key base head COMPARED_FIELDS

/-- `entry.link !== undefined`: strings inherit a method of that name. -/
def hasLink : Json ν → Bool
  | .str _ => true
  | entry => (entry.get? (js "link")).isSome

def checkAddedEntry (key : JsString) (entry : Json ν) (allowedWorkspaces addedWorkspaces : List JsString) :
    Except Stop Unit :=
  match nameAfter? (js "packages/") key with
  | some _ =>
    if Tickets.isNull entry then .error .typeError
    else if (entry.get? (js "resolved")).isSome || (entry.get? (js "integrity")).isSome || hasLink entry then
      drift (key ++ js ": a workspace source entry may not be resolved or linked")
    else .ok ()
  | none =>
    match nameAfter? (js "node_modules/@adlc/") key with
    | none => drift (key ++ js ": added entry is not a workspace link")
    | some x =>
      if !allowedWorkspaces.contains x && !addedWorkspaces.contains x then
        drift (key ++ js ": @adlc/" ++ x ++ js " is not in the allowed workspace set")
      else if Tickets.isNull entry then .error .typeError
      else if !eqTrue (entry.get? (js "link")) || !eqStr (entry.get? (js "resolved")) (js "packages/" ++ x) ||
          (entry.get? (js "integrity")).isSome then
        drift (key ++ js ": must be a workspace link \x7blink:true, resolved:\"packages/" ++ x ++ js "\"\x7d")
      else .ok ()

/-- `a === b` of values from two documents, which share no object. -/
def identical : Option (Json ν) → Option (Json ν) → Bool
  | none, none => true
  | some .null, some .null => true
  | some (.bool b), some (.bool c) => decide (b = c)
  | some (.num m), some (.num n) => decide (m = n)
  | some (.str s), some (.str t) => decide (s = t)
  | _, _ => false

def addedWorkspaces (base head : Json ν) : List JsString :=
  ((entriesOf head).keys.filter fun k => !hasKey base k).filterMap (nameAfter? (js "packages/"))

def checkKept (base head : Json ν) : List JsString → Except Stop Unit
  | [] => .ok ()
  | key :: keys =>
    if !hasKey head key then drift (key ++ js ": entry removed")
    else do
      checkSharedEntry key (read base key) (read head key)
      checkKept base head keys

def checkAdded (base head : Json ν) (allowed : List JsString) : List JsString → Except Stop Unit
  | [] => .ok ()
  | key :: keys =>
    if hasKey base key then checkAdded base head allowed keys
    else do
      checkAddedEntry key (read head key) (allowed.map workspaceName) (addedWorkspaces base head)
      checkAdded base head allowed keys

def compareLockfiles (baseDoc headDoc : Option (Lockfile ν)) (allowed : List JsString) :
    Except Stop Unit :=
  match baseDoc, headDoc with
  | none, _ => drift (js "base lockfile missing or unparseable")
  | some _, none => drift (js "head lockfile missing or unparseable")
  | some base, some head =>
    if !identical (base.members.lookup (js "lockfileVersion"))
        (head.members.lookup (js "lockfileVersion")) then
      drift (js "lockfileVersion differs")
    else do
      checkKept base.packages head.packages (entriesOf base.packages).keys
      checkAdded base.packages head.packages allowed (entriesOf head.packages).keys

/-! ## What a comparison should find -/

/-- The two values are the same, or are both absent. -/
def SameValue (a b : Option (Json ν)) : Prop := a.map Json.sortKeys = b.map Json.sortKeys

/-- A non-empty name that stands in one segment of a path. -/
def IsSegment (x : JsString) : Prop := x ≠ [] ∧ slash ∉ x

/-- The entry of a new workspace, or the link to one that may be added. -/
def WorkspaceEntry (allowed : List JsString) (base head : Json ν) (key : JsString) (entry : Json ν) :
    Prop :=
  (∃ x, IsSegment x ∧ key = js "packages/" ++ x ∧ entry.get? (js "resolved") = none ∧
    entry.get? (js "integrity") = none ∧ entry.get? (js "link") = none) ∨
  ∃ x, IsSegment x ∧ key = js "node_modules/@adlc/" ++ x ∧ eqTrue (entry.get? (js "link")) = true ∧
    eqStr (entry.get? (js "resolved")) (js "packages/" ++ x) = true ∧
    entry.get? (js "integrity") = none ∧
    (x ∈ allowed.map workspaceName ∨
      (entryAt head (js "packages/" ++ x)).isSome = true ∧ entryAt base (js "packages/" ++ x) = none)

/-- The documents are equal except for added workspace entries. -/
structure EqualButWorkspaces (allowed : List JsString) (base head : Lockfile ν) : Prop where
  rest : ∀ k, k ≠ js "packages" → SameValue (base.members.lookup k) (head.members.lookup k)
  kind : isArray base.packages = isArray head.packages
  kept : ∀ k e, entryAt base.packages k = some e → ∃ e', entryAt head.packages k = some e' ∧ e.Same e'
  added : ∀ k e, entryAt head.packages k = some e → entryAt base.packages k = none →
    WorkspaceEntry allowed base.packages head.packages k e

/-- What the comparison does not look at in an entry. -/
def uncompared : Json ν → Json ν
  | .obj ms => .obj (ms.filter fun p => decide (p.1 ∉ COMPARED_FIELDS))
  | v => v

/-- Everything that is not compared agrees: the other members of the documents, the other fields of
shared entries, numbers that `JSON.stringify` writes as `null`, and the presence of the names that `in`
finds on every object. -/
structure UncomparedAgree (base head : Lockfile ν) : Prop where
  rest : ∀ k, k ≠ js "packages" → k ≠ js "lockfileVersion" →
    SameValue (base.members.lookup k) (head.members.lookup k)
  kind : isArray base.packages = isArray head.packages
  fields : ∀ k e e', entryAt base.packages k = some e → entryAt head.packages k = some e' →
    (uncompared e).Same (uncompared e') ∧ ∀ f ∈ COMPARED_FIELDS,
      SameValue ((e.get? f).map Json.outOfRange) ((e'.get? f).map Json.outOfRange)
  hidden : ∀ k ∈ hiddenNames base.packages,
    (entryAt base.packages k).isSome = (entryAt head.packages k).isSome

/-! ## What an accepted comparison says -/

omit [JsNumber ν] in
theorem keysInOrder_ordered {v : Json ν} (hv : v.Ordered) : (RailsGuard.keysInOrder v).Ordered := by
  induction v using Json.ind with
  | null | bool | num | str => trivial
  | arr xs ih =>
    rw [Json.Ordered, elemsOrdered_iff] at hv
    rw [RailsGuard.keysInOrder, RailsGuard.elemsInOrder_eq_map, Json.Ordered, elemsOrdered_iff,
      List.forall_mem_map]
    exact fun x hx => ih x hx (hv x hx)
  | obj ms ih =>
    rw [Json.Ordered, membersOrdered_iff] at hv
    rw [RailsGuard.keysInOrder, Json.Ordered, membersOrdered_iff]
    refine ⟨OrderedKeys.create _, ?_⟩
    intro p hp
    obtain ⟨q, hq, rfl⟩ := List.mem_map.mp ((RailsGuard.membersInOrder_perm hv.1.1).mem_iff.mp hp)
    exact ih q hq (hv.2 q hq)

/-- Compared values that agree and have the same numbers out of range are the same. -/
theorem deepEqual_same {a b : Option (Json ν)} (ha : ∀ v ∈ a, v.Ordered) (hb : ∀ v ∈ b, v.Ordered)
    (h : deepEqual a b = true) (hout : SameValue (a.map Json.outOfRange) (b.map Json.outOfRange)) :
    SameValue a b := by
  have heq := of_decide_eq_true h
  cases a with
  | none =>
    rw [Option.map_none, eq_comm, Option.map_eq_none_iff] at heq
    rw [heq]
    rfl
  | some v =>
    obtain ⟨w, rfl, hw⟩ := Option.map_eq_some_iff.mp heq.symm
    have hvo := ha v rfl
    have hwo := hb w rfl
    have hwritten := asWritten_eq_of_stringify (keysInOrder_ordered hwo) (keysInOrder_ordered hvo) hw
    have hsorted := congrArg Json.sortKeys hwritten
    rw [Json.sortKeys_asWritten, Json.sortKeys_asWritten, RailsGuard.keysInOrder_same hwo,
      RailsGuard.keysInOrder_same hvo] at hsorted
    have hrange := Option.some.inj hout
    rw [Json.sortKeys_outOfRange, Json.sortKeys_outOfRange] at hrange
    exact congrArg some (Json.eq_of_asWritten _ _ hsorted.symm hrange)

theorem SameValue.outOfRange {a b : Option (Json ν)} (h : SameValue a b) :
    SameValue (a.map Json.outOfRange) (b.map Json.outOfRange) := by
  have hsort : ∀ c : Option (Json ν), (c.map Json.outOfRange).map Json.sortKeys =
      (c.map Json.sortKeys).map Json.outOfRange := by
    intro c
    rw [Option.map_map, Option.map_map]
    congr 1
    funext v
    exact Json.sortKeys_outOfRange v
  unfold SameValue
  rw [hsort, hsort, h]

theorem identical_same {a b : Option (Json ν)} (h : identical a b = true) : SameValue a b := by
  unfold identical at h
  split at h
  · rfl
  · rfl
  · exact congrArg _ (congrArg _ (congrArg _ (of_decide_eq_true h)))
  · exact congrArg _ (congrArg _ (congrArg _ (of_decide_eq_true h)))
  · exact congrArg _ (congrArg _ (congrArg _ (of_decide_eq_true h)))
  · cases h

theorem checkFields_ok {key : JsString} {base head : Json ν} {fs : List JsString}
    (h : checkFields key base head fs = .ok ()) :
    ∀ f ∈ fs, deepEqual (base.get? f) (head.get? f) = true := by
  induction fs with
  | nil => exact fun f hf => absurd hf List.not_mem_nil
  | cons g gs ih =>
    rw [checkFields] at h
    split_ifs at h with hg
    · exact List.forall_mem_cons.mpr ⟨hg, ih h⟩
    · cases h

theorem checkSharedEntry_ok {key : JsString} {base head : Json ν}
    (h : checkSharedEntry key base head = .ok ()) :
    ∀ f ∈ COMPARED_FIELDS, deepEqual (base.get? f) (head.get? f) = true := by
  unfold checkSharedEntry at h
  split at h
  · cases h
  · cases h
  · exact checkFields_ok h

omit [JsNumber ν] in
theorem hasKey_iff (packages : Json ν) (key : JsString) :
    hasKey packages key = true ↔
      (entryAt packages key).isSome = true ∨ key ∈ hiddenNames packages := by
  rw [hasKey, Bool.or_eq_true, List.contains_iff_mem]

theorem checkKept_ok {base head : Json ν} {keys : List JsString} (h : checkKept base head keys = .ok ()) :
    ∀ k ∈ keys, hasKey head k = true ∧ checkSharedEntry k (read base k) (read head k) = .ok () := by
  induction keys with
  | nil => exact fun k hk => absurd hk List.not_mem_nil
  | cons k ks ih =>
    rw [checkKept] at h
    split_ifs at h with hk
    · cases h
    · obtain ⟨_, hshared, hrest⟩ := Tickets.bind_eq_ok.mp h
      exact List.forall_mem_cons.mpr ⟨⟨by simpa using hk, hshared⟩, ih hrest⟩

omit [JsNumber ν] in
theorem checkAdded_ok {base head : Json ν} {allowed keys : List JsString}
    (h : checkAdded base head allowed keys = .ok ()) :
    ∀ k ∈ keys, hasKey base k = false → checkAddedEntry k (read head k) (allowed.map workspaceName)
      (addedWorkspaces base head) = .ok () := by
  induction keys with
  | nil => exact fun k hk => absurd hk List.not_mem_nil
  | cons k ks ih =>
    rw [checkAdded] at h
    split_ifs at h with hk
    · refine List.forall_mem_cons.mpr ⟨?_, ih h⟩
      intro hno
      rw [hk] at hno
      cases hno
    · obtain ⟨_, hadded, hrest⟩ := Tickets.bind_eq_ok.mp h
      exact List.forall_mem_cons.mpr ⟨fun _ => hadded, ih hrest⟩

theorem nameAfter?_eq_some {start key x : JsString} (h : nameAfter? start key = some x) :
    IsSegment x ∧ key = start ++ x := by
  unfold nameAfter? at h
  simp only [Bool.and_eq_true, decide_eq_true_eq, Option.ite_none_right_eq_some, Option.some.injEq] at h
  obtain ⟨⟨hpre, hx⟩, rfl⟩ := h
  exact ⟨hx, (List.prefix_append_drop (List.isPrefixOf_iff_prefix.mp hpre))⟩

omit [JsNumber ν] in
theorem mem_keys_entries (packages : Json ν) (key : JsString) :
    key ∈ (entriesOf packages).keys ↔ (entryAt packages key).isSome = true := by
  rw [entryAt, Option.isSome_iff_ne_none, ne_eq, List.lookup_eq_none_iff]
  simp only [Members.keys, List.mem_map]
  constructor
  · rintro ⟨p, hp, e⟩ hno
    simpa [e] using hno p hp
  · intro h
    push Not at h
    obtain ⟨p, hp, e⟩ := h
    exact ⟨p, hp, (eq_of_beq (by simpa using e)).symm⟩

omit [JsNumber ν] in
theorem entryAt_ordered {packages e : Json ν} (hp : packages.Ordered) {k : JsString}
    (h : entryAt packages k = some e) : e.Ordered := by
  have hmem := Members.mem_lookup h
  cases packages with
  | obj ms =>
    rw [Json.Ordered, membersOrdered_iff] at hp
    exact hp.2 _ hmem
  | arr xs =>
    rw [Json.Ordered, elemsOrdered_iff] at hp
    obtain ⟨p, hpx, heq⟩ := List.mem_map.mp hmem
    rw [← (Prod.mk.inj heq).2]
    exact hp _ (List.fst_mem_of_mem_zipIdx hpx)
  | _ => cases hmem

omit [JsNumber ν] in
theorem Lockfile.packages_ordered (doc : Lockfile ν) : doc.packages.Ordered :=
  Json.Ordered.get (e := .obj doc.members) doc.ordered doc.found

omit [JsNumber ν] in
theorem mem_addedWorkspaces {base head : Json ν} {x : JsString} (h : x ∈ addedWorkspaces base head) :
    (entryAt head (js "packages/" ++ x)).isSome = true ∧ entryAt base (js "packages/" ++ x) = none := by
  obtain ⟨k, hk, hx⟩ := List.mem_filterMap.mp h
  obtain ⟨-, rfl⟩ := nameAfter?_eq_some hx
  obtain ⟨hhead, hbase⟩ := List.mem_filter.mp hk
  refine ⟨(mem_keys_entries head _).mp hhead, ?_⟩
  rw [hasKey, Bool.not_or, Bool.and_eq_true, Bool.not_eq_true', Option.isSome_eq_false_iff,
    Option.isNone_iff_eq_none] at hbase
  exact hbase.1

omit [JsNumber ν] in
/-- An added entry that passes is one of a workspace. -/
theorem checkAddedEntry_ok {key : JsString} {base head entry : Json ν} {allowed : List JsString}
    (h : checkAddedEntry key entry (allowed.map workspaceName) (addedWorkspaces base head) = .ok ()) :
    WorkspaceEntry allowed base head key entry := by
  unfold checkAddedEntry at h
  cases hsource : nameAfter? (js "packages/") key with
  | some x =>
    rw [hsource] at h
    obtain ⟨hseg, hkey⟩ := nameAfter?_eq_some hsource
    dsimp only at h
    split_ifs at h with hnull hfields
    · cases h
    · simp only [Bool.or_eq_true, not_or, Bool.not_eq_true, Option.isSome_eq_false_iff,
        Option.isNone_iff_eq_none] at hfields
      obtain ⟨⟨hresolved, hintegrity⟩, hlink⟩ := hfields
      refine Or.inl ⟨x, hseg, hkey, hresolved, hintegrity, ?_⟩
      cases entry with
      | str s => cases hlink
      | _ => exact Option.isNone_iff_eq_none.mp (Option.isSome_eq_false_iff.mp hlink)
  | none =>
    rw [hsource] at h
    cases hx : nameAfter? (js "node_modules/@adlc/") key with
    | none =>
      rw [hx] at h
      cases h
    | some x =>
      rw [hx] at h
      obtain ⟨hseg, hkey⟩ := nameAfter?_eq_some hx
      dsimp only at h
      split_ifs at h with hset hnull hfields
      · cases h
      · cases h
      · simp only [Bool.or_eq_true, not_or, Bool.not_eq_true, Option.isSome_eq_false_iff,
          Option.isNone_iff_eq_none, Bool.not_eq_false'] at hfields
        obtain ⟨⟨hlink, hresolved⟩, hintegrity⟩ := hfields
        refine Or.inr ⟨x, hseg, hkey, hlink, hresolved, hintegrity, ?_⟩
        rw [Bool.and_eq_true, Bool.not_eq_true', Bool.not_eq_true', not_and_or, Bool.not_eq_false,
          Bool.not_eq_false, List.contains_iff_mem, List.contains_iff_mem] at hset
        exact hset.imp_right mem_addedWorkspaces

omit [JsNumber ν] in
/-- No workspace has a name that every object has. -/
theorem WorkspaceEntry.not_hidden {allowed : List JsString} {base head packages e : Json ν} {k : JsString}
    (h : WorkspaceEntry allowed base head k e) : k ∉ hiddenNames packages := by
  have hstart : ∀ k ∈ arrayNames ++ Fleet.inheritedNames, (js "packages/").isPrefixOf k = false ∧
      (js "node_modules/@adlc/").isPrefixOf k = false := by
    decide +kernel
  intro hk
  have hmem : k ∈ arrayNames ++ Fleet.inheritedNames := by
    unfold hiddenNames at hk
    split_ifs at hk
    · exact hk
    · exact List.mem_append_right _ hk
  obtain ⟨h1, h2⟩ := hstart k hmem
  obtain ⟨x, _, rfl, _⟩ | ⟨x, _, rfl, _⟩ := h
  · rw [List.isPrefixOf_iff_prefix.mpr (List.prefix_append _ _)] at h1
    cases h1
  · rw [List.isPrefixOf_iff_prefix.mpr (List.prefix_append _ _)] at h2
    cases h2

omit [JsNumber ν] in
theorem get?_uncompared (e : Json ν) {k : JsString} (hk : k ∉ COMPARED_FIELDS) :
    (uncompared e).get? k = e.get? k := by
  cases e with
  | obj ms =>
    rw [uncompared, Json.get?, Json.get?, Members.lookup_filter ms fun k => decide (k ∉ COMPARED_FIELDS)]
    exact if_pos (decide_eq_true hk)
  | _ => rfl

omit [JsNumber ν] in
theorem uncompared_ordered {e : Json ν} (he : e.Ordered) : (uncompared e).Ordered := by
  cases e with
  | obj ms =>
    rw [Json.Ordered, membersOrdered_iff] at he
    rw [uncompared, Json.Ordered, membersOrdered_iff]
    have hsub : (Members.keys (ms.filter fun p => decide (p.1 ∉ COMPARED_FIELDS))).Sublist
        (Members.keys ms) :=
      List.Sublist.map _ List.filter_sublist
    refine ⟨⟨he.1.1.sublist hsub, he.1.2.sublist hsub⟩, ?_⟩
    exact fun p hp => he.2 p (List.mem_of_mem_filter hp)
  | _ => exact he

omit [JsNumber ν] in
/-- Entries whose compared fields and whose other parts agree are the same. -/
theorem same_of_uncompared {e e' : Json ν} (he : e.Ordered) (he' : e'.Ordered)
    (hrest : (uncompared e).Same (uncompared e'))
    (hfields : ∀ f ∈ COMPARED_FIELDS, SameValue (e.get? f) (e'.get? f)) : e.Same e' := by
  cases e with
  | obj ms =>
    cases e' with
    | obj ns =>
      refine Json.same_of_lookup he.1.1 he'.1.1 ?_
      intro k
      by_cases hk : k ∈ COMPARED_FIELDS
      · exact hfields k hk
      · have h := RailsGuard.same_get? (uncompared_ordered he) (uncompared_ordered he') hrest k
        rw [get?_uncompared _ hk, get?_uncompared _ hk] at h
        exact h
    | _ => cases hrest
  | _ =>
    cases e' with
    | obj ns => cases hrest
    | _ => exact hrest

omit [JsNumber ν] in
theorem uncompared_same {e e' : Json ν} (he : e.Ordered) (he' : e'.Ordered) (h : e.Same e') :
    (uncompared e).Same (uncompared e') := by
  cases e with
  | obj ms =>
    cases e' with
    | obj ns =>
      have hms := uncompared_ordered he
      have hns := uncompared_ordered he'
      refine Json.same_of_lookup hms.1.1 hns.1.1 ?_
      intro k
      rw [Members.lookup_filter ms fun k => decide (k ∉ COMPARED_FIELDS),
        Members.lookup_filter ns fun k => decide (k ∉ COMPARED_FIELDS)]
      split_ifs
      · exact RailsGuard.same_get? he he' h k
      · rfl
    | _ => cases h
  | _ =>
    cases e' with
    | obj ns => cases h
    | _ => exact h

/-- The shared entries of an accepted pair that agree where nothing is compared are the same. -/
theorem kept_same {base head : Lockfile ν} {k : JsString} {e e' : Json ν}
    (he : entryAt base.packages k = some e) (he' : entryAt head.packages k = some e')
    (hshared : checkSharedEntry k (read base.packages k) (read head.packages k) = .ok ())
    (hrest : (uncompared e).Same (uncompared e'))
    (hout : ∀ f ∈ COMPARED_FIELDS,
      SameValue ((e.get? f).map Json.outOfRange) ((e'.get? f).map Json.outOfRange)) : e.Same e' := by
  have heo := entryAt_ordered base.packages_ordered he
  have heo' := entryAt_ordered head.packages_ordered he'
  rw [read, read, he, he'] at hshared
  refine same_of_uncompared heo heo' hrest ?_
  intro f hf
  have hfield : ∀ u : Json ν, u.Ordered → ∀ v ∈ u.get? f, v.Ordered := fun u hu v hv => hu.get hv
  exact deepEqual_same (hfield e heo) (hfield e' heo') (checkSharedEntry_ok hshared f hf) (hout f hf)

/-- An accepted pair of documents is equal but for added workspaces just when everything that is not
compared agrees. -/
theorem compareLockfiles_sound {base head : Lockfile ν} {allowed : List JsString}
    (h : compareLockfiles (some base) (some head) allowed = .ok ()) :
    EqualButWorkspaces allowed base head ↔ UncomparedAgree base head := by
  rw [compareLockfiles] at h
  split_ifs at h with hversion
  · cases h
  · have hversion := identical_same (by simpa using hversion)
    obtain ⟨_, hkept, hadded⟩ := Tickets.bind_eq_ok.mp h
    have hkept := checkKept_ok hkept
    have hadded := checkAdded_ok hadded
    constructor
    · intro heq
      refine ⟨fun k hk _ => heq.rest k hk, heq.kind, ?_, ?_⟩
      · intro k e e' he he'
        obtain ⟨e'', he'', hsame⟩ := heq.kept k e he
        obtain rfl := Option.some.inj (he'.symm.trans he'')
        have heo := entryAt_ordered base.packages_ordered he
        have heo' := entryAt_ordered head.packages_ordered he'
        refine ⟨uncompared_same heo heo' hsame, ?_⟩
        intro f _
        exact SameValue.outOfRange (RailsGuard.same_get? heo heo' hsame f)
      · intro k hk
        cases he : entryAt base.packages k with
        | some e =>
          obtain ⟨e', he', -⟩ := heq.kept k e he
          rw [he']
          rfl
        | none =>
          cases he' : entryAt head.packages k with
          | none => rfl
          | some e' => exact absurd hk (heq.added k e' he' he).not_hidden
    · intro hagree
      have hnames : hiddenNames head.packages = hiddenNames base.packages := by
        rw [hiddenNames, hiddenNames, hagree.kind]
      refine ⟨?_, hagree.kind, ?_, ?_⟩
      · intro k hk
        by_cases hv : k = js "lockfileVersion"
        · rw [hv]
          exact hversion
        · exact hagree.rest k hk hv
      · intro k e he
        have hmem := (mem_keys_entries base.packages k).mpr (Option.isSome_of_eq_some he)
        obtain ⟨hin, hshared⟩ := hkept k hmem
        have hhead : (entryAt head.packages k).isSome = true := by
          obtain hown | hhidden := (hasKey_iff _ _).mp hin
          · exact hown
          · rw [← hagree.hidden k (hnames ▸ hhidden), he]
            rfl
        obtain ⟨e', he'⟩ := Option.isSome_iff_exists.mp hhead
        obtain ⟨hrest, hout⟩ := hagree.fields k e e' he he'
        exact ⟨e', he', kept_same he he' hshared hrest hout⟩
      · intro k e he hno
        have hmem := (mem_keys_entries head.packages k).mpr (Option.isSome_of_eq_some he)
        have hbase : hasKey base.packages k = false := by
          rw [Bool.eq_false_iff, ne_eq, hasKey_iff, hno]
          intro hor
          obtain hown | hhidden := hor
          · cases hown
          · have hsome := hagree.hidden k hhidden
            rw [hno, he] at hsome
            cases hsome
        have hentry := hadded k hmem hbase
        rw [read, he] at hentry
        exact checkAddedEntry_ok hentry

/-- A lockfile whose document has the `packages` map alone. -/
def lockfileOf (packages : Members Int) (h : (Json.obj packages).Ordered) : Lockfile Int where
  members := [(js "packages", .obj packages)]
  packages := .obj packages
  ordered := ⟨⟨List.nodup_singleton _, List.pairwise_singleton _ _⟩, h, trivial⟩
  found := by simp
  container := rfl

def plainEntry : Json Int := .obj [(js "version", .str (js "1.0.0"))]

def hookedEntry : Json Int :=
  .obj [(js "version", .str (js "1.0.0")), (js "hasInstallScript", .bool true)]

def linkEntry : Json Int :=
  .obj [(js "resolved", .str (js "packages/core")), (js "link", .bool true)]

def plainLockfile : Lockfile Int :=
  lockfileOf [(js "node_modules/x", plainEntry)] (by simp [Json.Ordered, membersOrdered, plainEntry,
    OrderedKeys, Members.keys])

def hookedLockfile : Lockfile Int :=
  lockfileOf [(js "node_modules/x", hookedEntry)] (by
    refine ⟨⟨by decide, by decide⟩, ⟨⟨by decide, by decide⟩, ?_⟩, ?_⟩ <;>
      simp [membersOrdered, Json.Ordered])

def linkedLockfile : Lockfile Int :=
  lockfileOf [(js "node_modules/x", plainEntry), (js "node_modules/@adlc/core", linkEntry)] (by
    refine ⟨⟨by decide, by decide⟩, ⟨⟨by decide, by decide⟩, ?_⟩,
      ⟨⟨by decide, by decide⟩, ?_⟩, ?_⟩ <;>
      simp [membersOrdered, Json.Ordered])

theorem compareLockfiles_sound_linked :
    compareLockfiles (some plainLockfile) (some linkedLockfile) [js "@adlc/core"] = .ok () ∧
      (EqualButWorkspaces [js "@adlc/core"] plainLockfile linkedLockfile ↔
        UncomparedAgree plainLockfile linkedLockfile) := by
  have h : compareLockfiles (some plainLockfile) (some linkedLockfile) [js "@adlc/core"] = .ok () := by
    decide +kernel
  exact ⟨h, compareLockfiles_sound h⟩

/-- A field that is not compared: the package gains an install script. -/
theorem install_script_accepted :
    compareLockfiles (some plainLockfile) (some hookedLockfile) [] = .ok () ∧
      ¬EqualButWorkspaces [] plainLockfile hookedLockfile := by
  refine ⟨by decide +kernel, ?_⟩
  intro h
  have hbase : entryAt plainLockfile.packages (js "node_modules/x") = some plainEntry := by
    simp [entryAt, entriesOf, plainLockfile, lockfileOf]
  have hhead : entryAt hookedLockfile.packages (js "node_modules/x") = some hookedEntry := by
    simp [entryAt, entriesOf, hookedLockfile, lockfileOf]
  obtain ⟨e', he', hsame⟩ := h.kept _ _ hbase
  obtain rfl := Option.some.inj (hhead.symm.trans he')
  have hfield := RailsGuard.same_get? (entryAt_ordered plainLockfile.packages_ordered hbase)
    (entryAt_ordered hookedLockfile.packages_ordered hhead) hsame (js "hasInstallScript")
  have hnone : plainEntry.get? (js "hasInstallScript") = none := by decide +kernel
  have hsome : (hookedEntry.get? (js "hasInstallScript")).isSome = true := by decide +kernel
  rw [hnone] at hfield
  rw [Option.map_eq_none_iff.mp hfield.symm] at hsome
  cases hsome

end Adlc.Autopilot
