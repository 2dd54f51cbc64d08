import Adlc.Tickets.EntryBytes

namespace Adlc.Tickets

open Adlc.Framework

variable {ν : Type} [JsNumber ν]

/-! ## What a signature covers, for any entry that parses -/

mutual
/-- The value as `JSON.stringify` writes it: a number that is not finite is null. -/
def finitize : Json ν → Json ν
  | .null => .null
  | .bool b => .bool b
  | .num n => if JsNumber.isFinite n then .num n else .null
  | .str s => .str s
  | .arr xs => .arr (finitizeElems xs)
  | .obj ms => .obj (finitizeMembers ms)

def finitizeElems : List (Json ν) → List (Json ν)
  | [] => []
  | x :: xs => finitize x :: finitizeElems xs

def finitizeMembers : Members ν → Members ν
  | [] => []
  | (k, v) :: ms => (k, finitize v) :: finitizeMembers ms
end

theorem finitizeElems_eq_map (xs : List (Json ν)) : finitizeElems xs = xs.map finitize := by
  induction xs with
  | nil => rfl
  | cons x xs ih => rw [finitizeElems, ih, List.map_cons]

theorem finitizeMembers_eq_map (ms : Members ν) :
    finitizeMembers ms = ms.map fun p => (p.1, finitize p.2) := by
  induction ms with
  | nil => rfl
  | cons p ms ih => rw [finitizeMembers, ih, List.map_cons]

theorem get?_finitize (v : Json ν) (k : JsString) : (finitize v).get? k = (v.get? k).map finitize := by
  cases v with
  | obj ms =>
    rw [finitize, finitizeMembers_eq_map, Json.get?, Json.get?, Members.lookup_map]
  | num n =>
    rw [finitize]
    split_ifs <;> rfl
  | _ => rfl

theorem finitize_isJson {v : Json ν} (h : v.Ordered) : (finitize v).IsJson := by
  induction v using Json.ind with
  | null | bool | str => exact trivial
  | num n =>
    rw [finitize]
    split_ifs with hf
    · exact hf
    · exact trivial
  | arr xs ih =>
    rw [finitize, finitizeElems_eq_map, Json.IsJson, elemsIsJson_iff]
    intro x hx
    obtain ⟨y, hy, rfl⟩ := List.mem_map.mp hx
    exact ih y hy ((elemsOrdered_iff xs).mp h y hy)
  | obj ms ih =>
    rw [finitize, finitizeMembers_eq_map, Json.IsJson, membersIsJson_iff]
    refine ⟨?_, ?_⟩
    · rw [OrderedKeys, Members.keys_map]
      exact h.1
    · intro p hp
      obtain ⟨q, hq, rfl⟩ := List.mem_map.mp hp
      exact ih q hq ((membersOrdered_iff ms).mp h.2 q hq)

theorem write_finitize (v : Json ν) : ∀ gap ind, (finitize v).write gap ind = v.write gap ind := by
  induction v using Json.ind with
  | null | bool | str => intro gap ind; rfl
  | num n =>
    intro gap ind
    rw [finitize]
    split_ifs with hf
    · rfl
    · rw [Json.write, Json.write, if_neg hf]
  | arr xs ih =>
    have key : ∀ xs : List (Json ν), (∀ x ∈ xs, ∀ gap ind, (finitize x).write gap ind =
        x.write gap ind) → ∀ gap ind, writeElems gap ind (finitizeElems xs) =
          writeElems gap ind xs := by
      intro xs
      induction xs with
      | nil => intro _ gap ind; rfl
      | cons x xs ihx =>
        intro h gap ind
        rw [finitizeElems, writeElems, writeElems, h x List.mem_cons_self,
          ihx fun y hy => h y (List.mem_cons_of_mem _ hy)]
    intro gap ind
    rw [finitize]
    cases xs with
    | nil => rfl
    | cons x xs =>
      rw [finitizeElems, Json.write, Json.write, ih x List.mem_cons_self,
        key xs fun y hy => ih y (List.mem_cons_of_mem _ hy)]
  | obj ms ih =>
    have key : ∀ ms : Members ν, (∀ p ∈ ms, ∀ gap ind, (finitize p.2).write gap ind =
        p.2.write gap ind) → ∀ gap ind, writeMembers gap ind (finitizeMembers ms) =
          writeMembers gap ind ms := by
      intro ms
      induction ms with
      | nil => intro _ gap ind; rfl
      | cons p ms ihm =>
        obtain ⟨k, v⟩ := p
        intro h gap ind
        rw [finitizeMembers, writeMembers, writeMembers, h (k, v) List.mem_cons_self,
          ihm fun y hy => h y (List.mem_cons_of_mem _ hy)]
    intro gap ind
    rw [finitize]
    cases ms with
    | nil => rfl
    | cons p ms =>
      obtain ⟨k, v⟩ := p
      rw [finitizeMembers, Json.write, Json.write, ih (k, v) List.mem_cons_self,
        key ms fun y hy => ih y (List.mem_cons_of_mem _ hy)]

theorem stringify_finitize (v : Json ν) : stringify (finitize v) = stringify v :=
  write_finitize v [] []

/-- The value whose text a signature is made over. -/
def signedValue (entry : Json ν) : Json ν :=
  if isV2 entry then normal (signedFields entry) else finitize (v1Object entry)

omit [JsNumber ν] in
theorem signedFields_ordered {entry : Json ν} (h : entry.Ordered) : (signedFields entry).Ordered := by
  cases entry with
  | obj ms =>
    have hm := (membersOrdered_iff ms).mp h.2
    refine ⟨⟨Members.keys_filter_nodup h.1.1 _, ?_⟩, (membersOrdered_iff _).mpr ?_⟩
    · exact h.1.2.sublist (List.filter_sublist.map Prod.fst)
    · intro p hp
      exact hm p (List.mem_filter.mp hp).1
  | _ => simp [signedFields, Json.Ordered, OrderedKeys, Members.keys, membersOrdered]

omit [JsNumber ν] in
theorem v1Object_ordered {entry : Json ν} (h : entry.Ordered) : (v1Object entry).Ordered := by
  have hget : ∀ k v, entry.get? k = some v → v.Ordered := by
    intro k v hv
    cases entry with
    | obj ms => exact (membersOrdered_iff ms).mp h.2 (k, v) (Members.mem_lookup hv)
    | _ => cases hv
  rw [v1Object, Json.Ordered, membersOrdered_iff]
  exact ⟨v1Object_keys entry, v1Object_values hget⟩

omit [JsNumber ν] in
theorem get?_v1Object_mem (entry : Json ν) {k : JsString} (hk : k ∈ v1Fields) :
    (v1Object entry).get? k = entry.get? k := by
  have gen : ∀ l : List JsString, k ∈ l →
      (l.filterMap fun k => (entry.get? k).map fun v => (k, v)).lookup k = entry.get? k := by
    intro l
    induction l with
    | nil => simp
    | cons k' l ih =>
      intro hm
      by_cases he : k = k'
      · subst he
        cases hg : entry.get? k with
        | none =>
          rw [List.filterMap_cons, hg, Option.map_none]
          by_cases hl : k ∈ l
          · rw [ih hl, hg]
          · rw [List.lookup_eq_none_iff]
            intro p hp
            obtain ⟨k', hk', e⟩ := List.mem_filterMap.mp hp
            obtain ⟨v, -, rfl⟩ := Option.map_eq_some_iff.mp e
            have hne : ¬k = k' := fun e => hl (e ▸ hk')
            simpa using hne
        | some v =>
          rw [List.filterMap_cons, hg, Option.map_some, List.lookup_cons_self]
      · have hl := (List.mem_cons.mp hm).resolve_left he
        rw [List.filterMap_cons]
        cases entry.get? k' with
        | none => exact ih hl
        | some v =>
          rw [Option.map_some, List.lookup_cons, beq_eq_false_iff_ne.mpr he]
          exact ih hl
  exact gen v1Fields hk

/-- A signature is made over the text of the signed value. -/
theorem canonicalEntryBytes_ok {entry : Json ν} {text : JsString} (ho : entry.Ordered)
    (h : canonicalEntryBytes entry = .ok text) :
    text = stringify (signedValue entry) ∧ (signedValue entry).IsJson := by
  have hb : entry ≠ .null ∧ canonicalEntryBytes entry = if isV2 entry then
      canonicalJson (signedFields entry) else .ok (stringify (v1Object entry)) := by
    cases entry with
    | null => cases h
    | _ => exact ⟨by simp, rfl⟩
  rw [hb.2] at h
  unfold signedValue
  split_ifs at h ⊢
  · obtain ⟨w, hw, -⟩ := map_eq_ok.mp h
    have hf := finite_of_normalize hw
    rw [canonicalJson_eq hf, Except.ok.injEq] at h
    exact ⟨h.symm, normal_isJson ((Json.isJson_iff _).mpr ⟨signedFields_ordered ho, hf⟩)⟩
  · rw [stringify_finitize]
    exact ⟨(Except.ok.inj h).symm, finitize_isJson (v1Object_ordered ho)⟩

theorem signedValue_eq {e1 e2 : Json ν} {text : JsString} (o1 : e1.Ordered) (o2 : e2.Ordered)
    (h1 : canonicalEntryBytes e1 = .ok text) (h2 : canonicalEntryBytes e2 = .ok text) :
    signedValue e1 = signedValue e2 := by
  obtain ⟨t1, j1⟩ := canonicalEntryBytes_ok o1 h1
  obtain ⟨t2, j2⟩ := canonicalEntryBytes_ok o2 h2
  exact stringify_injective j1 j2 (t1.symm.trans t2)

/-- The fields a signature of either version covers. -/
theorem get?_signedValue {entry : Json ν} (ho : entry.Ordered) {k : JsString} (hk : k ∈ v1Fields) :
    (signedValue entry).get? k =
      (entry.get? k).map fun v => if isV2 entry then normal v else finitize v := by
  have hreserved : k ≠ js "sig" ∧ k ≠ js "segment" ∧ k ≠ protoKey := by
    revert k
    decide
  obtain ⟨hsig, hseg, hproto⟩ := hreserved
  unfold signedValue
  split_ifs
  · rw [get?_normal (signedFields_ordered ho) hproto, get?_signedFields entry hsig hseg]
  · rw [get?_finitize, get?_v1Object_mem entry hk]

/-! ## What is read back -/

theorem finitize_of_finite {v : Json ν} (h : v.finite = true) : finitize v = v := by
  induction v using Json.ind with
  | null | bool | str => rfl
  | num n =>
    have hn : JsNumber.isFinite n = true := h
    rw [finitize, if_pos hn]
  | arr xs ih =>
    rw [finitize, finitizeElems_eq_map]
    have hall := (elemsFinite_iff xs).1 h
    congr 1
    conv_rhs => rw [← List.map_id xs]
    apply List.map_congr_left
    intro x hx
    exact ih x hx (hall x hx)
  | obj ms ih =>
    rw [finitize, finitizeMembers_eq_map]
    have hall := (membersFinite_iff ms).1 h
    congr 1
    conv_rhs => rw [← List.map_id ms]
    apply List.map_congr_left
    intro p hp
    rw [ih p hp (hall p hp)]
    rfl

theorem eqStr_finitize (v : Option (Json ν)) (s : JsString) :
    eqStr (v.map finitize) s = eqStr v s := by
  cases v with
  | none => rfl
  | some v =>
    cases v with
    | num n =>
      rw [Option.map_some, finitize]
      split_ifs <;> rfl
    | _ => rfl

theorem signedFields_finitize {ms : Members ν} (h : (signedFields (.obj ms)).finite = true) :
    signedFields (finitize (.obj ms)) = signedFields (.obj ms) := by
  have hfin := (membersFinite_iff _).1 h
  rw [finitize, finitizeMembers_eq_map, signedFields, signedFields, List.filter_map]
  congr 1
  conv_rhs => rw [← List.map_id (List.filter _ ms)]
  apply List.map_congr_left
  intro p hp
  have hp' : p.2.finite = true := hfin p hp
  rw [finitize_of_finite hp']
  rfl

theorem v1Object_finitize (e : Json ν) : v1Object (finitize e) = finitize (v1Object e) := by
  rw [v1Object, v1Object, finitize, finitizeMembers_eq_map, List.map_filterMap]
  congr 1
  apply List.filterMap_congr
  intro k _
  rw [get?_finitize]
  cases e.get? k <;> rfl

theorem isV2_finitize (e : Json ν) : isV2 (finitize e) = isV2 e := by
  rw [isV2, isV2, get?_finitize]
  cases e.get? (js "sigVersion") with
  | none => rfl
  | some v =>
    cases v with
    | num n =>
      rw [Option.map_some, finitize]
      by_cases hn : JsNumber.isFinite n = true
      · rw [if_pos hn]
      · rw [if_neg hn]
        have hne : n ≠ JsNumber.ofNat 2 := by
          rintro rfl
          exact hn (JsNumber.finite_of_integer _ (JsNumber.integer_ofNat 2 (by decide)))
        simp [eqNum, hne]
    | _ => rfl

theorem canonicalEntryBytes_finitize {ms : Members ν} {text : JsString}
    (h : canonicalEntryBytes (.obj ms) = .ok text) :
    canonicalEntryBytes (finitize (.obj ms)) = .ok text := by
  have hform : ∀ ms : Members ν, canonicalEntryBytes (.obj ms) = if isV2 (.obj ms : Json ν) then
      canonicalJson (signedFields (.obj ms)) else .ok (stringify (v1Object (.obj ms))) :=
    fun _ => rfl
  have hfin : finitize (.obj ms : Json ν) = .obj (finitizeMembers ms) := rfl
  rw [hform] at h
  rw [hfin, hform, ← hfin, isV2_finitize]
  split_ifs at h ⊢
  · obtain ⟨w, hw, -⟩ := map_eq_ok.1 h
    rw [signedFields_finitize (finite_of_normalize hw)]
    exact h
  · rw [v1Object_finitize, stringify_finitize]
    exact h

/-- `null`, a boolean, a string or a finite number. -/
def scalar : Json ν → Bool
  | .null | .bool _ | .str _ => true
  | .num n => JsNumber.isFinite n
  | .arr _ | .obj _ => false

theorem signed_scalar {v : Json ν} (h : scalar v = true) : normal v = v ∧ finitize v = v := by
  cases v with
  | null | bool | str => exact ⟨rfl, rfl⟩
  | num n =>
    rw [scalar] at h
    exact ⟨rfl, by rw [finitize, if_pos h]⟩
  | arr | obj => cases h

/-- Entries that sign the same text have the same scalars in the covered fields. -/
theorem get?_eq_of_signed {e1 e2 : Json ν} {text k : JsString} (o1 : e1.Ordered) (o2 : e2.Ordered)
    (h1 : canonicalEntryBytes e1 = .ok text) (h2 : canonicalEntryBytes e2 = .ok text)
    (hk : k ∈ v1Fields) {v w : Json ν} (g1 : e1.get? k = some v) (g2 : e2.get? k = some w)
    (hv : scalar v = true) (hw : scalar w = true) : v = w := by
  have e : (signedValue e1).get? k = (signedValue e2).get? k := by
    rw [signedValue_eq o1 o2 h1 h2]
  rw [get?_signedValue o1 hk, get?_signedValue o2 hk, g1, g2] at e
  obtain ⟨nv, fv⟩ := signed_scalar hv
  obtain ⟨nw, fw⟩ := signed_scalar hw
  simp only [Option.map_some, nv, fv, nw, fw, ite_self, Option.some.injEq] at e
  exact e

end Adlc.Tickets
