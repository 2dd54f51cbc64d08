import Adlc.Framework.JsonText

namespace Adlc.Framework

/-! Rewriting the value of one field where it stands. -/

variable {ν : Type}

/-- `f` applied to what an object has under the key. -/
def Json.atKey (k : JsString) (f : Json ν → Json ν) : Json ν → Json ν
  | .obj ms => .obj (ms.map fun p => if p.1 = k then (p.1, f p.2) else p)
  | v => v

/-- `f` applied to the elements of an array. -/
def Json.onElems (f : Json ν → Json ν) : Json ν → Json ν
  | .arr xs => .arr (xs.map f)
  | v => v

theorem Members.keys_atKey (ms : Members ν) (k : JsString) (f : Json ν → Json ν) :
    Members.keys (ms.map fun p => if p.1 = k then (p.1, f p.2) else p) = ms.keys := by
  rw [Members.keys, List.map_map, Members.keys]
  apply List.map_congr_left
  intro p _
  simp only [Function.comp_apply]
  split_ifs <;> rfl

theorem Json.get?_atKey (k : JsString) (f : Json ν → Json ν) (v : Json ν) (k' : JsString) :
    (v.atKey k f).get? k' = if k' = k then (v.get? k).map f else v.get? k' := by
  cases v with
  | obj ms =>
    rw [Json.atKey, Json.get?, Json.get?, Json.get?]
    induction ms with
    | nil => simp
    | cons p ms ih =>
      obtain ⟨a, w⟩ := p
      rw [List.map_cons, List.lookup_cons, List.lookup_cons, List.lookup_cons]
      by_cases hk : k' = k
      · subst hk
        by_cases ha : a = k'
        · subst ha
          simp
        · have hka : ¬k' = a := fun e => ha e.symm
          simp only [ha, if_false, beq_eq_false_iff_ne.mpr hka, if_true]
          rw [if_pos rfl] at ih
          exact ih
      · rw [if_neg hk] at ih ⊢
        rw [ih]
        by_cases ha : a = k
        · subst ha
          simp [beq_eq_false_iff_ne.mpr hk]
        · simp [ha]
  | _ => simp [Json.atKey, Json.get?]

theorem Json.atKey_comm {k l : JsString} (h : k ≠ l) (f g : Json ν → Json ν) (v : Json ν) :
    (v.atKey l g).atKey k f = (v.atKey k f).atKey l g := by
  cases v with
  | obj ms =>
    simp only [Json.atKey, List.map_map, Json.obj.injEq]
    apply List.map_congr_left
    intro p _
    simp only [Function.comp_apply]
    by_cases hl : p.1 = l
    · have hk : ¬p.1 = k := fun e => h (e.symm.trans hl)
      simp [hl, Ne.symm h]
    · by_cases hk : p.1 = k
      · simp [hk, h]
      · simp [hl, hk]
  | _ => rfl

theorem Json.atKey_atKey (k : JsString) (f g : Json ν → Json ν) (v : Json ν) :
    (v.atKey k g).atKey k f = v.atKey k (f ∘ g) := by
  cases v with
  | obj ms =>
    simp only [Json.atKey, List.map_map, Json.obj.injEq]
    apply List.map_congr_left
    intro p _
    simp only [Function.comp_apply]
    by_cases hk : p.1 = k
    · simp [hk]
    · simp [hk]
  | _ => rfl

/-- Only the value under the key matters. -/
theorem Json.atKey_congr {k : JsString} {f g : Json ν → Json ν} {v : Json ν} (hv : v.Ordered)
    (h : ∀ w, v.get? k = some w → f w = g w) : v.atKey k f = v.atKey k g := by
  cases v with
  | obj ms =>
    simp only [Json.atKey, Json.obj.injEq]
    apply List.map_congr_left
    intro p hp
    by_cases hk : p.1 = k
    · rw [if_pos hk, if_pos hk, h p.2]
      exact (Members.lookup_eq_some_iff hv.1.1 k p.2).mpr (hk ▸ hp)
    · rw [if_neg hk, if_neg hk]
  | _ => rfl

theorem Json.atKey_id (k : JsString) (v : Json ν) : v.atKey k id = v := by
  cases v with
  | obj ms =>
    simp only [Json.atKey, id, Json.obj.injEq]
    conv_rhs => rw [← List.map_id ms]
    apply List.map_congr_left
    intro p _
    split_ifs <;> rfl
  | _ => rfl

/-- A field whose value `f` leaves alone. -/
theorem Json.atKey_eq_self {k : JsString} {f : Json ν → Json ν} {v : Json ν} (hv : v.Ordered)
    (h : ∀ w, v.get? k = some w → f w = w) : v.atKey k f = v := by
  have e := Json.atKey_congr (g := id) hv h
  rw [e, Json.atKey_id]

/-- Setting a field that is there rewrites it where it stands. -/
theorem Members.set_eq_atKey {ms : Members ν} {k : JsString} (hn : ms.keys.Nodup)
    (hi : arrayIndex? k = none) (hk : k ∈ ms.keys) (v : Json ν) :
    Json.obj (ms.set k v) = (Json.obj ms).atKey k fun _ => v := by
  rw [Json.atKey, Json.obj.injEq]
  induction ms with
  | nil => cases hk
  | cons p ms ih =>
    obtain ⟨a, w⟩ := p
    have hp : mustPrecede k a = false := by
      rw [mustPrecede, hi]
    simp only [Members.keys, List.map_cons, List.nodup_cons] at hn
    rw [Members.set, List.map_cons, hp]
    by_cases ha : a = k
    · subst ha
      have hrest : ms.map (fun p => if p.1 = a then (p.1, v) else p) = ms := by
        conv_rhs => rw [← List.map_id ms]
        apply List.map_congr_left
        intro p hp
        rw [if_neg, id]
        rintro e
        exact hn.1 (e ▸ List.mem_map_of_mem hp)
      rw [if_pos rfl, if_pos rfl, hrest]
    · have hmem : k ∈ Members.keys ms := by
        obtain e | hm := List.mem_cons.mp hk
        · exact absurd e.symm ha
        · exact hm
      rw [if_neg ha, if_neg ha, if_neg Bool.false_ne_true, ih hn.2 hmem]

theorem Json.onElems_onElems (f g : Json ν → Json ν) (v : Json ν) :
    (v.onElems g).onElems f = v.onElems (f ∘ g) := by
  cases v with
  | arr xs => rw [Json.onElems, Json.onElems, Json.onElems, List.map_map]
  | _ => rfl

variable [JsNumber ν]

theorem Json.IsJson.atKey {k : JsString} {f : Json ν → Json ν} {v : Json ν} (hv : v.IsJson)
    (hf : ∀ w, w.IsJson → (f w).IsJson) : (v.atKey k f).IsJson := by
  cases v with
  | obj ms =>
    obtain ⟨ho, hm⟩ := hv
    refine ⟨?_, (membersIsJson_iff _).mpr ?_⟩
    · rw [OrderedKeys, Members.keys_atKey]
      exact ho
    · intro p hp
      obtain ⟨q, hq, rfl⟩ := List.mem_map.mp hp
      have hqj := (membersIsJson_iff ms).mp hm q hq
      split_ifs
      · exact hf q.2 hqj
      · exact hqj
  | _ => exact hv

theorem Json.IsJson.onElems {f : Json ν → Json ν} {v : Json ν} (hv : v.IsJson)
    (hf : ∀ w, w.IsJson → (f w).IsJson) : (v.onElems f).IsJson := by
  cases v with
  | arr xs =>
    have hx := (elemsIsJson_iff xs).mp hv
    refine (elemsIsJson_iff _).mpr ?_
    intro y hy
    obtain ⟨x, hxm, rfl⟩ := List.mem_map.mp hy
    exact hf x (hx x hxm)
  | _ => exact hv

theorem Json.IsJson.get {v w : Json ν} {k : JsString} (hv : v.IsJson) (h : v.get? k = some w) :
    w.IsJson := by
  cases v with
  | obj ms => exact (membersIsJson_iff ms).mp hv.2 _ (Members.mem_lookup h)
  | _ => cases h

end Adlc.Framework
