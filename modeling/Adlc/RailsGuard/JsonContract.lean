import Adlc.Framework.JsonText

namespace Adlc.RailsGuard

open Adlc.Framework

variable {ν : Type} [JsNumber ν]

mutual
/-- `stable(value)`; `JSON.parse(stable(item))` never throws. -/
def stable : Json ν → JsString
  | .arr xs => stringify (.arr (stableElems xs))
  | .obj ms => stringify (.obj (Members.create ((stableMembers ms).mergeSort keyLe)))
  | v => stringify v

def stableElems : List (Json ν) → List (Json ν)
  | [] => []
  | x :: xs => (parseJson (stable x)).getD .null :: stableElems xs

def stableMembers : Members ν → Members ν
  | [] => []
  | (k, v) :: ms => (k, (parseJson (stable v)).getD .null) :: stableMembers ms
end

mutual
/-- The value with the keys of all its objects sorted, and then in own-key order. -/
def keysInOrder : Json ν → Json ν
  | .null => .null
  | .bool b => .bool b
  | .num n => .num n
  | .str s => .str s
  | .arr xs => .arr (elemsInOrder xs)
  | .obj ms => .obj (Members.create ((membersInOrder ms).mergeSort keyLe))

def elemsInOrder : List (Json ν) → List (Json ν)
  | [] => []
  | x :: xs => keysInOrder x :: elemsInOrder xs

def membersInOrder : Members ν → Members ν
  | [] => []
  | (k, v) :: ms => (k, keysInOrder v) :: membersInOrder ms
end

omit [JsNumber ν] in
theorem elemsInOrder_eq_map (xs : List (Json ν)) : elemsInOrder xs = xs.map keysInOrder := by
  induction xs with
  | nil => rfl
  | cons x xs ih => rw [elemsInOrder, ih, List.map_cons]

omit [JsNumber ν] in
theorem membersInOrder_eq_map (ms : Members ν) :
    membersInOrder ms = ms.map fun p => (p.1, keysInOrder p.2) := by
  induction ms with
  | nil => rfl
  | cons p ms ih => rw [membersInOrder, ih, List.map_cons]

theorem stableElems_eq_map (xs : List (Json ν)) :
    stableElems xs = xs.map fun x => (parseJson (stable x)).getD .null := by
  induction xs with
  | nil => rfl
  | cons x xs ih => rw [stableElems, ih, List.map_cons]

theorem stableMembers_eq_map (ms : Members ν) :
    stableMembers ms = ms.map fun p => (p.1, (parseJson (stable p.2)).getD .null) := by
  induction ms with
  | nil => rfl
  | cons p ms ih => rw [stableMembers, ih, List.map_cons]

omit [JsNumber ν] in
theorem membersInOrder_perm {ms : Members ν} (hn : ms.keys.Nodup) :
    (Members.create ((membersInOrder ms).mergeSort keyLe)).Perm
      (ms.map fun p => (p.1, keysInOrder p.2)) := by
  have hperm := List.mergeSort_perm (membersInOrder ms) keyLe
  have hkeys : (membersInOrder ms).keys.Nodup := by
    rw [membersInOrder_eq_map, Members.keys_map]
    exact hn
  have hsorted : Members.keys ((membersInOrder ms).mergeSort keyLe) |>.Nodup :=
    (hperm.map Prod.fst).nodup_iff.mpr hkeys
  rw [← membersInOrder_eq_map]
  exact (Members.create_perm hsorted).trans hperm

omit [JsNumber ν] in
theorem keysInOrder_same {v : Json ν} (hv : v.Ordered) : (keysInOrder v).Same v := by
  unfold Json.Same
  induction v using Json.ind with
  | null | bool | num | str => rfl
  | arr xs ih =>
    rw [Json.Ordered, elemsOrdered_iff] at hv
    rw [keysInOrder, elemsInOrder_eq_map, Json.sortKeys, Json.sortKeys, sortElems_eq_map,
      sortElems_eq_map, List.map_map]
    exact congrArg Json.arr (List.map_congr_left fun x hx => ih x hx (hv x hx))
  | obj ms ih =>
    rw [Json.Ordered, membersOrdered_iff] at hv
    have hperm := (membersInOrder_perm hv.1.1).map fun p : JsString × Json ν => (p.1, p.2.sortKeys)
    have hkeys : Members.keys ((ms.map fun p => (p.1, keysInOrder p.2)).map
        fun p => (p.1, p.2.sortKeys)) |>.Nodup := by
      rw [Members.keys_map, Members.keys_map]
      exact hv.1.1
    have hback : (ms.map fun p => (p.1, keysInOrder p.2)).map (fun p => (p.1, p.2.sortKeys)) =
        ms.map fun p => (p.1, p.2.sortKeys) := by
      rw [List.map_map]
      exact List.map_congr_left fun p hp => congrArg (Prod.mk p.1) (ih p hp (hv.2 p hp))
    rw [keysInOrder, Json.sortKeys, Json.sortKeys, sortMembers_eq_map, sortMembers_eq_map,
      ← mergeSort_keyLe_perm hkeys hperm.symm, hback]

omit [JsNumber ν] in
/-- Values that are the same are one value when their keys are in order. -/
theorem keysInOrder_sortKeys {v : Json ν} (hv : v.Ordered) : keysInOrder v.sortKeys = keysInOrder v := by
  induction v using Json.ind with
  | null | bool | num | str => rfl
  | arr xs ih =>
    rw [Json.Ordered, elemsOrdered_iff] at hv
    rw [Json.sortKeys, sortElems_eq_map, keysInOrder, keysInOrder, elemsInOrder_eq_map,
      elemsInOrder_eq_map, List.map_map]
    exact congrArg Json.arr (List.map_congr_left fun x hx => ih x hx (hv x hx))
  | obj ms ih =>
    rw [Json.Ordered, membersOrdered_iff] at hv
    have hperm := (List.mergeSort_perm (ms.map fun p => (p.1, p.2.sortKeys)) keyLe).map
      fun p : JsString × Json ν => (p.1, keysInOrder p.2)
    have hback : (ms.map fun p => (p.1, p.2.sortKeys)).map (fun p => (p.1, keysInOrder p.2)) =
        ms.map fun p => (p.1, keysInOrder p.2) := by
      rw [List.map_map]
      exact List.map_congr_left fun p hp => congrArg (Prod.mk p.1) (ih p hp (hv.2 p hp))
    have hkeys : Members.keys (ms.map fun p => (p.1, keysInOrder p.2)) |>.Nodup := by
      rw [Members.keys_map]
      exact hv.1.1
    rw [hback] at hperm
    rw [Json.sortKeys, sortMembers_eq_map, keysInOrder, keysInOrder, membersInOrder_eq_map,
      membersInOrder_eq_map, ← mergeSort_keyLe_perm hkeys hperm.symm]

theorem keysInOrder_isJson {v : Json ν} (hv : v.IsJson) : (keysInOrder v).IsJson := by
  induction v using Json.ind with
  | null | bool | num | str => exact hv
  | arr xs ih =>
    rw [Json.IsJson, elemsIsJson_iff] at hv
    rw [keysInOrder, elemsInOrder_eq_map, Json.IsJson, elemsIsJson_iff, List.forall_mem_map]
    exact fun x hx => ih x hx (hv x hx)
  | obj ms ih =>
    rw [Json.IsJson, membersIsJson_iff] at hv
    rw [keysInOrder, Json.IsJson, membersIsJson_iff]
    refine ⟨OrderedKeys.create _, ?_⟩
    intro p hp
    obtain ⟨q, hq, rfl⟩ := List.mem_map.mp ((membersInOrder_perm hv.1.1).mem_iff.mp hp)
    exact ih q hq (hv.2 q hq)

/-- The stable text of a value is that of the value with its keys in order. -/
theorem stable_eq {v : Json ν} (hv : v.IsJson) : stable v = stringify (keysInOrder v) := by
  induction v using Json.ind with
  | null | bool | num | str => rfl
  | arr xs ih =>
    rw [Json.IsJson, elemsIsJson_iff] at hv
    rw [stable, stableElems_eq_map, keysInOrder, elemsInOrder_eq_map]
    refine congrArg (fun ys => stringify (.arr ys)) (List.map_congr_left ?_)
    intro x hx
    rw [ih x hx (hv x hx), parseJson_stringify (keysInOrder_isJson (hv x hx))]
    rfl
  | obj ms ih =>
    rw [Json.IsJson, membersIsJson_iff] at hv
    have hread : stableMembers ms = membersInOrder ms := by
      rw [stableMembers_eq_map, membersInOrder_eq_map]
      refine List.map_congr_left ?_
      intro p hp
      rw [ih p hp (hv.2 p hp), parseJson_stringify (keysInOrder_isJson (hv.2 p hp))]
      rfl
    rw [stable, hread, keysInOrder]

/-- Two values have one stable text just when they are the same up to the order of their keys. -/
theorem stable_eq_iff {v w : Json ν} (hv : v.IsJson) (hw : w.IsJson) :
    stable v = stable w ↔ v.Same w := by
  have hvo := ((Json.isJson_iff v).mp hv).1
  have hwo := ((Json.isJson_iff w).mp hw).1
  rw [stable_eq hv, stable_eq hw]
  constructor
  · intro h
    have hsame := stringify_injective (keysInOrder_isJson hv) (keysInOrder_isJson hw) h
    exact (keysInOrder_same hvo).symm.trans (hsame ▸ keysInOrder_same hwo)
  · intro h
    rw [← keysInOrder_sortKeys hvo, ← keysInOrder_sortKeys hwo, h]

omit [JsNumber ν] in
/-- The fields of values that are the same are the same. -/
theorem same_get? {v w : Json ν} (hv : v.Ordered) (hw : w.Ordered) (h : v.Same w) (k : JsString) :
    (v.get? k).map Json.sortKeys = (w.get? k).map Json.sortKeys := by
  have hfield : ∀ u : Json ν, u.Ordered → u.sortKeys.get? k = (u.get? k).map Json.sortKeys := by
    intro u hu
    cases u with
    | null | bool | num | str | arr => rfl
    | obj ms =>
      rw [Json.Ordered] at hu
      have hkeys : Members.keys (ms.map fun p => (p.1, p.2.sortKeys)) |>.Nodup := by
        rw [Members.keys_map]
        exact hu.1.1
      rw [Json.sortKeys, sortMembers_eq_map]
      show ((ms.map fun p => (p.1, p.2.sortKeys)).mergeSort keyLe).lookup k = _
      rw [← Members.lookup_perm hkeys (List.mergeSort_perm _ keyLe).symm, Members.lookup_map]
      rfl
  rw [← hfield v hv, ← hfield w hw, h]

theorem isJson_get? {v w : Json ν} (hv : v.IsJson) {k : JsString} (h : v.get? k = some w) : w.IsJson := by
  cases v with
  | null | bool | num | str | arr => cases h
  | obj ms =>
    rw [Json.IsJson, membersIsJson_iff] at hv
    exact hv.2 _ (Members.mem_lookup h)

/-- What two values with one stable text have for a field has one stable text. -/
theorem stable_get? {v w : Json ν} (hv : v.IsJson) (hw : w.IsJson) (h : stable v = stable w)
    (k : JsString) : (v.get? k).map stable = (w.get? k).map stable := by
  have hsame := same_get? ((Json.isJson_iff v).mp hv).1 ((Json.isJson_iff w).mp hw).1
    ((stable_eq_iff hv hw).mp h) k
  cases ha : v.get? k with
  | none =>
    rw [ha] at hsame
    rw [Option.map_eq_none_iff.mp hsame.symm]
  | some a =>
    rw [ha] at hsame
    obtain ⟨b, hb, hab⟩ := Option.map_eq_some_iff.mp hsame.symm
    rw [hb]
    have heq := (stable_eq_iff (isJson_get? hv ha) (isJson_get? hw hb)).mpr hab.symm
    exact congrArg some heq

end Adlc.RailsGuard
