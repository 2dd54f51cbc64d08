import Adlc.Framework.JsonText

namespace Adlc.Framework

/-! What `JSON.stringify` keeps of a value, and when two objects are the same. -/

variable {ν : Type}

mutual
/-- `g` applied to every number of the value. -/
def Json.mapNum (g : ν → Json ν) : Json ν → Json ν
  | .null => .null
  | .bool b => .bool b
  | .num n => g n
  | .str s => .str s
  | .arr xs => .arr (elemsMapNum g xs)
  | .obj ms => .obj (membersMapNum g ms)

def elemsMapNum (g : ν → Json ν) : List (Json ν) → List (Json ν)
  | [] => []
  | x :: xs => x.mapNum g :: elemsMapNum g xs

def membersMapNum (g : ν → Json ν) : Members ν → Members ν
  | [] => []
  | (k, v) :: ms => (k, v.mapNum g) :: membersMapNum g ms
end

theorem elemsMapNum_eq_map (g : ν → Json ν) (xs : List (Json ν)) :
    elemsMapNum g xs = xs.map (Json.mapNum g) := by
  induction xs with
  | nil => rfl
  | cons x xs ih => rw [elemsMapNum, ih, List.map_cons]

theorem membersMapNum_eq_map (g : ν → Json ν) (ms : Members ν) :
    membersMapNum g ms = ms.map fun p => (p.1, p.2.mapNum g) := by
  induction ms with
  | nil => rfl
  | cons p ms ih => rw [membersMapNum, ih, List.map_cons]

/-- Sorting the keys and mapping the numbers are independent. -/
theorem Json.sortKeys_mapNum {g : ν → Json ν} (hg : ∀ n, (g n).sortKeys = g n) (v : Json ν) :
    (v.mapNum g).sortKeys = v.sortKeys.mapNum g := by
  induction v using Json.ind with
  | null | bool | str => rfl
  | num n => exact hg n
  | arr xs ih =>
    rw [Json.mapNum, Json.sortKeys, Json.sortKeys, Json.mapNum, sortElems_eq_map, sortElems_eq_map,
      elemsMapNum_eq_map, elemsMapNum_eq_map, List.map_map, List.map_map]
    exact congrArg Json.arr (List.map_congr_left ih)
  | obj ms ih =>
    rw [Json.mapNum, Json.sortKeys, Json.sortKeys, Json.mapNum, sortMembers_eq_map,
      sortMembers_eq_map, membersMapNum_eq_map, membersMapNum_eq_map, List.map_map]
    have hsort := @List.map_mergeSort _ _ keyLe keyLe (fun p : JsString × Json ν => (p.1, p.2.mapNum g))
      (ms.map fun p => (p.1, p.2.sortKeys)) fun p _ q _ => rfl
    rw [hsort, List.map_map]
    refine congrArg (fun ns => Json.obj (List.mergeSort ns keyLe)) (List.map_congr_left ?_)
    intro p hp
    exact congrArg (Prod.mk p.1) (ih p hp)

theorem Json.Ordered.mapNum {g : ν → Json ν} (hg : ∀ n, (g n).Ordered) {v : Json ν} (hv : v.Ordered) :
    (v.mapNum g).Ordered := by
  induction v using Json.ind with
  | null | bool | str => trivial
  | num n => exact hg n
  | arr xs ih =>
    rw [Json.Ordered, elemsOrdered_iff] at hv
    rw [Json.mapNum, Json.Ordered, elemsOrdered_iff, elemsMapNum_eq_map, List.forall_mem_map]
    exact fun x hx => ih x hx (hv x hx)
  | obj ms ih =>
    rw [Json.Ordered, membersOrdered_iff] at hv
    rw [Json.mapNum, Json.Ordered, membersOrdered_iff, membersMapNum_eq_map, List.forall_mem_map,
      OrderedKeys, Members.keys_map]
    exact ⟨hv.1, fun p hp => ih p hp (hv.2 p hp)⟩

variable [JsNumber ν]

/-- The value as `JSON.stringify` writes it: a number that is not finite is written `null`. -/
def Json.asWritten : Json ν → Json ν :=
  Json.mapNum fun n => if JsNumber.isFinite n then .num n else .null

/-- The numbers of the value that are not finite, where they stand. -/
def Json.outOfRange : Json ν → Json ν :=
  Json.mapNum fun n => if JsNumber.isFinite n then .null else .num n

theorem Json.sortKeys_asWritten (v : Json ν) : v.asWritten.sortKeys = v.sortKeys.asWritten := by
  apply Json.sortKeys_mapNum
  intro n
  split_ifs <;> rfl

theorem Json.sortKeys_outOfRange (v : Json ν) : v.outOfRange.sortKeys = v.sortKeys.outOfRange := by
  apply Json.sortKeys_mapNum
  intro n
  split_ifs <;> rfl

theorem Json.asWritten_isJson {v : Json ν} (hv : v.Ordered) : v.asWritten.IsJson := by
  refine (Json.isJson_iff _).mpr ⟨Json.Ordered.mapNum ?_ hv, ?_⟩
  · intro n
    split_ifs <;> trivial
  · clear hv
    rw [Json.asWritten]
    induction v using Json.ind with
    | null | bool | str => rfl
    | num n =>
      rw [Json.mapNum]
      split_ifs with hn
      · exact hn
      · rfl
    | arr xs ih =>
      rw [Json.mapNum, Json.finite, elemsFinite_iff, elemsMapNum_eq_map, List.forall_mem_map]
      exact ih
    | obj ms ih =>
      rw [Json.mapNum, Json.finite, membersFinite_iff, membersMapNum_eq_map, List.forall_mem_map]
      exact ih

/-- A value is written as its written form is. -/
theorem write_asWritten (gap : JsString) (v : Json ν) :
    ∀ ind, v.asWritten.write gap ind = v.write gap ind := by
  induction v using Json.ind with
  | null | bool | str => exact fun _ => rfl
  | num n =>
    intro ind
    rw [Json.asWritten, Json.mapNum, Json.write]
    split_ifs with hn
    · rw [Json.write, if_pos hn]
    · rw [Json.write]
  | arr xs ih =>
    have helems : ∀ ys, (∀ y ∈ ys, y ∈ xs) → ∀ ind,
        writeElems gap ind (ys.map Json.asWritten) = writeElems gap ind ys := by
      intro ys
      induction ys with
      | nil => exact fun _ _ => rfl
      | cons y ys ihys =>
        intro hsub ind
        rw [List.map_cons, writeElems, writeElems, ih y (hsub y List.mem_cons_self),
          ihys fun z hz => hsub z (List.mem_cons_of_mem _ hz)]
    intro ind
    rw [Json.asWritten, Json.mapNum, elemsMapNum_eq_map]
    cases xs with
    | nil => rfl
    | cons x xs =>
      have hx := ih x List.mem_cons_self (ind ++ gap)
      have hxs := helems xs (fun y hy => List.mem_cons_of_mem _ hy) (ind ++ gap)
      rw [Json.asWritten] at hx hxs
      rw [List.map_cons, Json.write, Json.write, hx, hxs]
  | obj ms ih =>
    have hmembers : ∀ ns : Members ν, (∀ q ∈ ns, q ∈ ms) → ∀ ind,
        writeMembers gap ind (ns.map fun p => (p.1, p.2.asWritten)) = writeMembers gap ind ns := by
      intro ns
      induction ns with
      | nil => exact fun _ _ => rfl
      | cons q ns ihns =>
        intro hsub ind
        rw [List.map_cons, writeMembers, writeMembers, ih q (hsub q List.mem_cons_self),
          ihns fun z hz => hsub z (List.mem_cons_of_mem _ hz)]
    intro ind
    rw [Json.asWritten, Json.mapNum, membersMapNum_eq_map]
    cases ms with
    | nil => rfl
    | cons q ms =>
      obtain ⟨k, v⟩ := q
      have hv := ih (k, v) List.mem_cons_self (ind ++ gap)
      have hms := hmembers ms (fun r hr => List.mem_cons_of_mem _ hr) (ind ++ gap)
      rw [Json.asWritten] at hv hms
      rw [List.map_cons, Json.write, Json.write, hv, hms]

theorem stringify_asWritten (v : Json ν) : stringify v.asWritten = stringify v :=
  write_asWritten [] v []

/-- Values with one text are one value up to the numbers that are not finite. -/
theorem asWritten_eq_of_stringify {v w : Json ν} (hv : v.Ordered) (hw : w.Ordered)
    (h : stringify v = stringify w) : v.asWritten = w.asWritten := by
  rw [← stringify_asWritten v, ← stringify_asWritten w] at h
  exact stringify_injective (Json.asWritten_isJson hv) (Json.asWritten_isJson hw) h

/-- A value is determined by its written form and its numbers that are not finite. -/
theorem Json.eq_of_asWritten (v : Json ν) : ∀ w : Json ν, v.asWritten = w.asWritten →
    v.outOfRange = w.outOfRange → v = w := by
  have hwritten : ∀ n : ν, (Json.num n).asWritten =
      if JsNumber.isFinite n then Json.num n else .null := fun n => rfl
  have hout : ∀ n : ν, (Json.num n).outOfRange =
      if JsNumber.isFinite n then Json.null else .num n := fun n => rfl
  induction v using Json.ind with
  | null =>
    intro w h1 h2
    cases w with
    | null => rfl
    | num n =>
      rw [hwritten] at h1
      rw [hout] at h2
      split_ifs at h1 h2
      · cases h1
      · cases h2
    | _ => cases h1
  | bool b =>
    intro w h1 h2
    cases w with
    | bool c => exact h1
    | num n =>
      rw [hout] at h2
      split_ifs at h2 <;> cases h2
    | _ => cases h1
  | str s =>
    intro w h1 h2
    cases w with
    | str t => exact h1
    | num n =>
      rw [hout] at h2
      split_ifs at h2 <;> cases h2
    | _ => cases h1
  | num n =>
    intro w h1 h2
    rw [hwritten] at h1
    rw [hout] at h2
    cases w with
    | num m =>
      rw [hwritten] at h1
      rw [hout] at h2
      split_ifs at h1 h2
      · exact h1
      · exact h2
    | null =>
      split_ifs at h1 h2
      · cases h1
      · cases h2
    | _ => split_ifs at h1 h2 <;> cases h2
  | arr xs ih =>
    intro w h1 h2
    cases w with
    | arr ys =>
      have e1 : xs.map Json.asWritten = ys.map Json.asWritten := by
        simpa only [Json.asWritten, Json.mapNum, elemsMapNum_eq_map, Json.arr.injEq] using h1
      have e2 : xs.map Json.outOfRange = ys.map Json.outOfRange := by
        simpa only [Json.outOfRange, Json.mapNum, elemsMapNum_eq_map, Json.arr.injEq] using h2
      clear h1 h2
      refine congrArg Json.arr ?_
      induction xs generalizing ys with
      | nil =>
        cases ys with
        | nil => rfl
        | cons y ys => cases e1
      | cons x xs ihxs =>
        cases ys with
        | nil => cases e1
        | cons y ys =>
          have hx := ih x List.mem_cons_self y (List.cons.inj e1).1 (List.cons.inj e2).1
          have hxs := ihxs (fun z hz => ih z (List.mem_cons_of_mem _ hz)) ys (List.cons.inj e1).2
            (List.cons.inj e2).2
          rw [hx, hxs]
    | num n =>
      rw [hout] at h2
      split_ifs at h2 <;> cases h2
    | _ => cases h1
  | obj ms ih =>
    intro w h1 h2
    cases w with
    | obj ns =>
      have e1 : (ms.map fun p => (p.1, p.2.asWritten)) = ns.map fun p => (p.1, p.2.asWritten) := by
        simpa only [Json.asWritten, Json.mapNum, membersMapNum_eq_map, Json.obj.injEq] using h1
      have e2 : (ms.map fun p => (p.1, p.2.outOfRange)) = ns.map fun p => (p.1, p.2.outOfRange) := by
        simpa only [Json.outOfRange, Json.mapNum, membersMapNum_eq_map, Json.obj.injEq] using h2
      clear h1 h2
      refine congrArg Json.obj ?_
      induction ms generalizing ns with
      | nil =>
        cases ns with
        | nil => rfl
        | cons q ns => cases e1
      | cons p ms ihms =>
        cases ns with
        | nil => cases e1
        | cons q ns =>
          obtain ⟨hp1, hms1⟩ := List.cons.inj e1
          obtain ⟨hp2, hms2⟩ := List.cons.inj e2
          have hval := ih p List.mem_cons_self q.2 (Prod.mk.inj hp1).2 (Prod.mk.inj hp2).2
          have hms := ihms (fun z hz => ih z (List.mem_cons_of_mem _ hz)) ns hms1 hms2
          rw [hms, Prod.ext (Prod.mk.inj hp1).1 hval]
    | num n =>
      rw [hout] at h2
      split_ifs at h2 <;> cases h2
    | _ => cases h1

omit [JsNumber ν] in
/-- Objects with the same fields are the same. -/
theorem Json.same_of_lookup {ms ns : Members ν} (hm : ms.keys.Nodup) (hn : ns.keys.Nodup)
    (h : ∀ k, (ms.lookup k).map Json.sortKeys = (ns.lookup k).map Json.sortKeys) :
    (Json.obj ms).Same (.obj ns) := by
  have hkeys : ∀ ks : Members ν, ks.keys.Nodup →
      (Members.keys (ks.map fun p => (p.1, p.2.sortKeys))).Nodup := by
    intro ks hk
    rw [Members.keys_map]
    exact hk
  have hperm : (ms.map fun p => (p.1, p.2.sortKeys)).Perm (ns.map fun p => (p.1, p.2.sortKeys)) := by
    refine (List.perm_ext_iff_of_nodup (List.Nodup.of_map Prod.fst (hkeys ms hm))
      (List.Nodup.of_map Prod.fst (hkeys ns hn))).mpr ?_
    intro p
    rw [← Members.lookup_eq_some_iff (hkeys ms hm) p.1 p.2,
      ← Members.lookup_eq_some_iff (hkeys ns hn) p.1 p.2, Members.lookup_map, Members.lookup_map, h]
  unfold Json.Same
  rw [Json.sortKeys, Json.sortKeys, sortMembers_eq_map, sortMembers_eq_map,
    mergeSort_keyLe_perm (hkeys ms hm) hperm]

end Adlc.Framework
