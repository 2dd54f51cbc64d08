import Adlc.Framework.IntNumber
import Adlc.Framework.JsonText

namespace Adlc.Framework

/-! Paths into a value, and values that differ at chosen paths only. -/

variable {ν : Type}

/-- The own enumerable properties: an array's elements stand under their numerals. -/
def Json.children : Json ν → Members ν
  | .arr xs => xs.zipIdx.map fun p => (natText p.2, p.1)
  | .obj ms => ms
  | _ => []

/-- The value at a path. -/
def Json.at? : Json ν → List JsString → Option (Json ν)
  | v, [] => some v
  | v, k :: path =>
    match v.children.lookup k with
    | some child => child.at? path
    | none => none

/-- The kind and the keys of a container. -/
def Json.shape : Json ν → Option (Bool × List JsString)
  | .arr xs => some (true, (Json.arr xs).children.keys)
  | .obj ms => some (false, Members.keys ms)
  | _ => none

mutual
/-- The value with `t` for every string at a path that `p` chooses. -/
def Json.fill (p : List JsString → Bool) (t : JsString) (path : List JsString) : Json ν → Json ν
  | .null => .null
  | .bool b => .bool b
  | .num n => .num n
  | .str s => .str (if p path then t else s)
  | .arr xs => .arr (elemsFill p t path 0 xs)
  | .obj ms => .obj (membersFill p t path ms)

def elemsFill (p : List JsString → Bool) (t : JsString) (path : List JsString) :
    Nat → List (Json ν) → List (Json ν)
  | _, [] => []
  | i, x :: xs => x.fill p t (path ++ [natText i]) :: elemsFill p t path (i + 1) xs

def membersFill (p : List JsString → Bool) (t : JsString) (path : List JsString) :
    Members ν → Members ν
  | [] => []
  | (k, v) :: ms => (k, v.fill p t (path ++ [k])) :: membersFill p t path ms
end

theorem natText_inj {m n : Nat} (h : natText m = natText n) : m = n := by
  rw [← readNat_natText m, h, readNat_natText]

theorem children_cons_lookup (xs : List (Json ν)) : ∀ i n,
    ((xs.zipIdx n).map fun p => (natText p.2, p.1)).lookup (natText (n + i)) = xs[i]? := by
  induction xs with
  | nil => exact fun i n => rfl
  | cons x xs ih =>
    intro i n
    rw [List.zipIdx_cons, List.map_cons, List.lookup_cons]
    cases i with
    | zero =>
      rw [Nat.add_zero, beq_self_eq_true]
      rfl
    | succ i =>
      have hne : (natText (n + (i + 1)) == natText n) = false := by
        refine beq_eq_false_iff_ne.mpr fun e => ?_
        have heq := natText_inj e
        omega
      rw [hne, List.getElem?_cons_succ, ← ih i (n + 1), show n + (i + 1) = n + 1 + i by omega]

/-- The element under a numeral. -/
theorem lookup_children_arr (xs : List (Json ν)) (i : Nat) :
    (Json.arr xs).children.lookup (natText i) = xs[i]? := by
  have h := children_cons_lookup xs i 0
  rw [Nat.zero_add] at h
  exact h

theorem keys_children_arr (xs : List (Json ν)) :
    (Json.arr xs).children.keys = (List.range xs.length).map natText := by
  rw [Json.children, Members.keys, List.map_map, List.range_eq_range', ← List.zipIdx_map_snd,
    List.map_map]
  rfl

theorem elemsFill_eq (p : List JsString → Bool) (t : JsString) (path : List JsString)
    (xs : List (Json ν)) : ∀ i, elemsFill p t path i xs =
      (xs.zipIdx i).map fun q => q.1.fill p t (path ++ [natText q.2]) := by
  induction xs with
  | nil => exact fun i => rfl
  | cons x xs ih =>
    intro i
    rw [elemsFill, ih, List.zipIdx_cons, List.map_cons]

theorem membersFill_eq (p : List JsString → Bool) (t : JsString) (path : List JsString)
    (ms : Members ν) : membersFill p t path ms = ms.map fun q => (q.1, q.2.fill p t (path ++ [q.1])) := by
  induction ms with
  | nil => rfl
  | cons q ms ih => rw [membersFill, ih, List.map_cons]

/-- Two nodes at one path that agree: containers of one shape, one leaf, or two strings at a path
that is chosen. -/
def NodesAgree (p : List JsString → Bool) (path : List JsString) (x y : Json ν) : Prop :=
  (x.shape = y.shape ∧ x.shape ≠ none) ∨ (x.shape = none ∧ x = y) ∨
    p path = true ∧ ∃ s t, x = .str s ∧ y = .str t

/-- Values that agree at every path they share are one value when the chosen strings are replaced. -/
theorem Json.fill_congr {p : List JsString → Bool} {t : JsString} (v : Json ν) :
    ∀ (w : Json ν) (path : List JsString), v.Ordered → w.Ordered →
      (∀ q x y, v.at? q = some x → w.at? q = some y → NodesAgree p (path ++ q) x y) →
      v.fill p t path = w.fill p t path := by
  have hleaf : ∀ (v w : Json ν) (path : List JsString), v.shape = none →
      (∀ q x y, v.at? q = some x → w.at? q = some y → NodesAgree p (path ++ q) x y) →
      v.fill p t path = w.fill p t path := by
    intro v w path hshape h
    have hroot := h [] v w rfl rfl
    rw [List.append_nil] at hroot
    obtain ⟨-, hne⟩ | ⟨-, heq⟩ | ⟨hp, s, s', rfl, rfl⟩ := hroot
    · exact absurd hshape hne
    · rw [heq]
    · rw [Json.fill, Json.fill, if_pos hp, if_pos hp]
  induction v using Json.ind with
  | null => exact fun w path _ _ h => hleaf .null w path rfl h
  | bool b => exact fun w path _ _ h => hleaf (.bool b) w path rfl h
  | num n => exact fun w path _ _ h => hleaf (.num n) w path rfl h
  | str s => exact fun w path _ _ h => hleaf (.str s) w path rfl h
  | arr xs ih =>
    intro w path hv hw h
    rw [Json.Ordered, elemsOrdered_iff] at hv
    obtain ⟨hshape, -⟩ | ⟨hnone, -⟩ | ⟨-, s, s', e, -⟩ := h [] (.arr xs) w rfl rfl
    · cases w with
      | arr ys =>
        rw [Json.Ordered, elemsOrdered_iff] at hw
        have hlen : xs.length = ys.length := by
          have hkeys := congrArg List.length (Prod.mk.inj (Option.some.inj hshape)).2
          rw [keys_children_arr, keys_children_arr] at hkeys
          simpa using hkeys
        rw [Json.fill, Json.fill, elemsFill_eq, elemsFill_eq]
        refine congrArg Json.arr (List.ext_getElem (by simpa using hlen) ?_)
        intro i h1 h2
        have hi : i < xs.length := by simpa using h1
        have hi' : i < ys.length := by simpa using h2
        simp only [List.getElem_map, List.getElem_zipIdx, Nat.zero_add]
        refine ih xs[i] (List.getElem_mem hi) ys[i] _ (hv _ (List.getElem_mem hi))
          (hw _ (List.getElem_mem hi')) ?_
        intro q x y hx hy
        rw [List.append_assoc]
        refine h (natText i :: q) x y ?_ ?_
        · rw [Json.at?, lookup_children_arr, List.getElem?_eq_getElem hi]
          exact hx
        · rw [Json.at?, lookup_children_arr, List.getElem?_eq_getElem hi']
          exact hy
      | _ => cases hshape
    · cases hnone
    · cases e
  | obj ms ih =>
    intro w path hv hw h
    rw [Json.Ordered, membersOrdered_iff] at hv
    obtain ⟨hshape, -⟩ | ⟨hnone, -⟩ | ⟨-, s, s', e, -⟩ := h [] (.obj ms) w rfl rfl
    · cases w with
      | obj ns =>
        rw [Json.Ordered, membersOrdered_iff] at hw
        have hkeys : Members.keys ms = Members.keys ns := (Prod.mk.inj (Option.some.inj hshape)).2
        have hlen : ms.length = ns.length := by
          have hl := congrArg List.length hkeys
          simpa [Members.keys] using hl
        rw [Json.fill, Json.fill, membersFill_eq, membersFill_eq]
        refine congrArg Json.obj (List.ext_getElem (by simpa using hlen) ?_)
        intro i h1 h2
        have hi : i < ms.length := by simpa using h1
        have hi' : i < ns.length := by simpa using h2
        have hk : ms[i].1 = ns[i].1 := by
          have hget := congrArg (fun l : List JsString => l[i]?) hkeys
          simpa [Members.keys, List.getElem?_map, hi, hi'] using hget
        simp only [List.getElem_map]
        rw [← hk]
        refine Prod.ext rfl ?_
        refine ih ms[i] (List.getElem_mem hi) ns[i].2 _ (hv.2 _ (List.getElem_mem hi))
          (hw.2 _ (List.getElem_mem hi')) ?_
        intro q x y hx hy
        rw [List.append_assoc]
        refine h (ms[i].1 :: q) x y ?_ ?_
        · have hget := (Members.lookup_eq_some_iff hv.1.1 ms[i].1 ms[i].2).mpr (List.getElem_mem hi)
          rw [Json.at?, Json.children, hget]
          exact hx
        · have hget := (Members.lookup_eq_some_iff hw.1.1 ns[i].1 ns[i].2).mpr (List.getElem_mem hi')
          rw [hk, Json.at?, Json.children, hget]
          exact hy
      | _ => cases hshape
    · cases hnone
    · cases e

theorem Json.at?_append (p q : List JsString) :
    ∀ v : Json ν, v.at? (p ++ q) = (v.at? p).bind fun u => u.at? q := by
  induction p with
  | nil => exact fun v => rfl
  | cons k p ih =>
    intro v
    rw [List.cons_append, Json.at?, Json.at?]
    cases v.children.lookup k with
    | none => rfl
    | some c => exact ih c

theorem Json.at?_singleton (v : Json ν) (k : JsString) : v.at? [k] = v.children.lookup k := by
  rw [Json.at?]
  cases v.children.lookup k <;> rfl

/-- Containers of one shape have the same keys, and leaves have none. -/
theorem Json.children_isSome {v w : Json ν} (h : v.shape = w.shape) (k : JsString) :
    (v.children.lookup k).isSome = (w.children.lookup k).isSome := by
  have hkeys : ∀ u : Json ν, (u.children.lookup k).isSome = true ↔ ∃ p ∈ u.shape, k ∈ p.2 := by
    have hlookup : ∀ ms : Members ν, (ms.lookup k).isSome = true ↔ k ∈ Members.keys ms := by
      intro ms
      induction ms with
      | nil => simp [Members.keys]
      | cons q ms ih =>
        obtain ⟨a, v⟩ := q
        rw [List.lookup_cons, Members.keys, List.map_cons, List.mem_cons, ← Members.keys, ← ih]
        by_cases ha : k = a
        · simp [ha]
        · rw [beq_eq_false_iff_ne.mpr ha]
          exact (or_iff_right ha).symm
    intro u
    cases u <;> simp [Json.shape, Json.children, hlookup]
  rw [Bool.eq_iff_iff, hkeys, hkeys, h]

theorem Json.fill_none (t : JsString) (v : Json ν) :
    ∀ path, v.fill (fun _ => false) t path = v := by
  induction v using Json.ind with
  | null | bool | num | str => exact fun _ => rfl
  | arr xs ih =>
    intro path
    rw [Json.fill, elemsFill_eq]
    refine congrArg Json.arr (List.ext_getElem (by simp) ?_)
    intro i h1 h2
    simp only [List.getElem_map, List.getElem_zipIdx]
    exact ih _ (List.getElem_mem h2) _
  | obj ms ih =>
    intro path
    rw [Json.fill, membersFill_eq]
    refine congrArg Json.obj ?_
    conv_rhs => rw [← List.map_id ms]
    exact List.map_congr_left fun q hq => Prod.ext rfl (ih q hq _)

theorem Json.IsJson.at [JsNumber ν] {path : List JsString} : ∀ {v u : Json ν}, v.IsJson →
    v.at? path = some u → u.IsJson := by
  induction path with
  | nil =>
    intro v u hv h
    exact Option.some.inj h ▸ hv
  | cons k path ih =>
    intro v u hv h
    rw [Json.at?] at h
    cases hc : v.children.lookup k with
    | none =>
      rw [hc] at h
      cases h
    | some c =>
      rw [hc] at h
      have hmem := Members.mem_lookup hc
      refine ih ?_ h
      cases v with
      | arr xs =>
        obtain ⟨p, hp, heq⟩ := List.mem_map.mp hmem
        rw [← (Prod.mk.inj heq).2]
        exact (elemsIsJson_iff xs).mp hv _ (List.fst_mem_of_mem_zipIdx hp)
      | obj ms => exact (membersIsJson_iff ms).mp hv.2 _ hmem
      | _ => cases hmem

end Adlc.Framework
