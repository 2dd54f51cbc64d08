import Adlc.Framework.IntNumber
import Adlc.Tickets.Canonical

namespace Adlc.Tickets

open Adlc.Framework

variable {ν : Type} [JsNumber ν]

/-! ## The signed bytes of an entry -/

/-- `const { sig, segment, ...signed } = entry`. -/
def signedFields (entry : Json ν) : Json ν :=
  match entry with
  | .obj ms => .obj (ms.filter fun p => decide (p.1 ≠ js "sig" ∧ p.1 ≠ js "segment"))
  | _ => .obj []

/-- The fields a version-1 signature covers, in the order they are written. -/
def v1Fields : List JsString :=
  [js "seq", js "gate", js "ts", js "ticket", js "data", js "files", js "prev"]

/-- The object a version-1 signature covers; `JSON.stringify` leaves an undefined field out. -/
def v1Object (entry : Json ν) : Json ν :=
  .obj (v1Fields.filterMap fun k => (entry.get? k).map fun v => (k, v))

/-- `entry.sigVersion === 2` -/
def isV2 (entry : Json ν) : Bool := eqNum (entry.get? (js "sigVersion")) (JsNumber.ofNat 2)

def canonicalEntryBytes (entry : Json ν) : Except TicketStoreError JsString :=
  match entry with
  | .null => .error (unexpected (js "Cannot read properties of null (reading 'sigVersion')"))
  | entry =>
    if isV2 entry then canonicalJson (signedFields entry) else .ok (stringify (v1Object entry))

omit [JsNumber ν] in
theorem signedFields_set {ms : Members ν} {sig : Json ν} (h : js "sig" ∉ ms.keys) :
    signedFields (.obj (ms.set (js "sig") sig)) = signedFields (.obj ms) := by
  have hidx : arrayIndex? (js "sig") = none := by decide
  have hl : ∀ a ∈ ms.keys, mustPrecede (js "sig") a = false := by
    intro a _
    rw [mustPrecede, hidx]
  rw [Members.set_append h hl, signedFields, signedFields, List.filter_append]
  simp

/-- The signature is not among the bytes it signs. -/
theorem canonicalEntryBytes_set {ms : Members ν} {sig : Json ν} (h : js "sig" ∉ ms.keys) :
    canonicalEntryBytes (.obj (ms.set (js "sig") sig)) = canonicalEntryBytes (.obj ms) := by
  have hget : ∀ k, k ≠ js "sig" →
      (Json.obj (ms.set (js "sig") sig)).get? k = (Json.obj ms).get? k := by
    intro k hk
    rw [Json.get?, Json.get?, Members.lookup_set, if_neg hk]
  have hv : isV2 (.obj (ms.set (js "sig") sig)) = isV2 (.obj ms) := by
    rw [isV2, isV2, hget _ (by decide)]
  have h1 : v1Object (.obj (ms.set (js "sig") sig)) = v1Object (.obj ms) := by
    have hsig : ∀ k ∈ v1Fields, k ≠ js "sig" := by decide
    rw [v1Object, v1Object]
    congr 1
    apply List.filterMap_congr
    intro k hk
    rw [hget k (hsig k hk)]
  simp only [canonicalEntryBytes, hv, signedFields_set h, h1]

/-! ## Coverage -/

theorem signedFields_isJson {entry : Json ν} (h : entry.IsJson) : (signedFields entry).IsJson := by
  cases entry with
  | obj ms =>
    obtain ⟨ho, hm⟩ := h
    rw [membersIsJson_iff] at hm
    rw [signedFields, Json.IsJson, membersIsJson_iff]
    refine ⟨⟨Members.keys_filter_nodup ho.1 _, ?_⟩, ?_⟩
    · exact ho.2.sublist (List.filter_sublist.map Prod.fst)
    · intro p hp
      exact hm p (List.mem_filter.mp hp).1
  | _ => simp [signedFields, Json.IsJson, OrderedKeys, Members.keys, membersIsJson]

theorem canonicalEntryBytes_v2 {entry : Json ν} (h : entry.IsJson) (hv : isV2 entry = true) :
    canonicalEntryBytes entry = .ok (stringify (normal (signedFields entry))) := by
  cases entry with
  | null => exact absurd hv (by simp [isV2, Json.get?, eqNum])
  | _ =>
    rw [canonicalEntryBytes, if_pos hv]
    · exact canonicalJson_eq ((Json.isJson_iff _).mp (signedFields_isJson h)).2
    · intro h
      cases h

/-- Two version-2 entries have the same bytes when what they sign is the same but for `__proto__`
members and the order of keys whose UTF-8 differs. -/
theorem canonicalEntryBytes_eq_iff {e1 e2 : Json ν} (h1 : e1.IsJson) (h2 : e2.IsJson)
    (v1 : isV2 e1 = true) (v2 : isV2 e2 = true) :
    canonicalEntryBytes e1 = canonicalEntryBytes e2 ↔
      sortUtf8 (dropProto (signedFields e1)) = sortUtf8 (dropProto (signedFields e2)) := by
  have s1 := signedFields_isJson h1
  have s2 := signedFields_isJson h2
  have o1 := ((Json.isJson_iff _).mp s1).1
  have o2 := ((Json.isJson_iff _).mp s2).1
  rw [canonicalEntryBytes_v2 h1 v1, canonicalEntryBytes_v2 h2 v2, ← normal_eq_iff o1 o2,
    Except.ok.injEq]
  constructor
  · intro h
    exact stringify_injective (normal_isJson s1) (normal_isJson s2) h
  · intro h
    rw [h]

omit [JsNumber ν] in
theorem get?_signedFields (entry : Json ν) {k : JsString} (h1 : k ≠ js "sig")
    (h2 : k ≠ js "segment") : (signedFields entry).get? k = entry.get? k := by
  cases entry with
  | obj ms =>
    rw [signedFields, Json.get?, Json.get?,
      Members.lookup_filter ms fun k => decide (k ≠ js "sig" ∧ k ≠ js "segment"),
      if_pos (decide_eq_true ⟨h1, h2⟩)]
  | _ => rfl

omit [JsNumber ν] in
theorem v1Object_keys (entry : Json ν) :
    OrderedKeys (v1Fields.filterMap fun k => (entry.get? k).map fun v => (k, v)) := by
  have hkeys : (Members.keys (v1Fields.filterMap fun k => (entry.get? k).map fun v => (k, v))).Sublist
      v1Fields := by
    have gen : ∀ l : List JsString,
        (Members.keys (l.filterMap fun k => (entry.get? k).map fun v => (k, v))).Sublist l := by
      intro l
      induction l with
      | nil => exact List.Sublist.refl _
      | cons k l ih =>
        rw [List.filterMap_cons]
        cases entry.get? k with
        | none => exact ih.cons k
        | some v => exact ih.cons_cons k
    exact gen v1Fields
  have hn : v1Fields.Nodup := by decide
  have hp : v1Fields.Pairwise fun a b => mustPrecede b a = false := by decide
  exact ⟨hn.sublist hkeys, hp.sublist hkeys⟩

omit [JsNumber ν] in
theorem v1Object_values {entry : Json ν} {P : Json ν → Prop} (h : ∀ k v, entry.get? k = some v → P v) :
    ∀ p ∈ v1Fields.filterMap fun k => (entry.get? k).map fun v => (k, v), P p.2 := by
  intro p hp
  obtain ⟨k, -, e⟩ := List.mem_filterMap.mp hp
  obtain ⟨v, hv, rfl⟩ := Option.map_eq_some_iff.mp e
  exact h k v hv

theorem v1Object_isJson {entry : Json ν} (h : entry.IsJson) : (v1Object entry).IsJson := by
  have hget : ∀ k v, entry.get? k = some v → v.IsJson := by
    intro k v hv
    cases entry with
    | obj ms => exact (membersIsJson_iff ms).mp h.2 (k, v) (Members.mem_lookup hv)
    | _ => cases hv
  rw [v1Object, Json.IsJson, membersIsJson_iff]
  exact ⟨v1Object_keys entry, v1Object_values hget⟩

omit [JsNumber ν] in
/-- A version-1 signature covers no key `sigVersion`. -/
theorem get?_v1Object (entry : Json ν) : (v1Object entry).get? (js "sigVersion") = none := by
  rw [v1Object, Json.get?, List.lookup_eq_none_iff]
  intro p hp
  obtain ⟨k, hk, e⟩ := List.mem_filterMap.mp hp
  obtain ⟨v, -, rfl⟩ := Option.map_eq_some_iff.mp e
  have hne : js "sigVersion" ∉ v1Fields := by decide
  have hk' : ¬js "sigVersion" = k := fun h => hne (h ▸ hk)
  simpa using hk'

/-- No entry without `sigVersion` 2 has the bytes of one with it. -/
theorem canonicalEntryBytes_ne {e1 e2 : Json ν} (h1 : e1.IsJson) (h2 : e2.IsJson)
    (v1 : isV2 e1 = false) (v2 : isV2 e2 = true) :
    canonicalEntryBytes e1 ≠ canonicalEntryBytes e2 := by
  intro h
  have s2 := signedFields_isJson h2
  have hb : canonicalEntryBytes e1 = .ok (stringify (v1Object e1)) := by
    cases e1 with
    | null =>
      rw [canonicalEntryBytes_v2 h2 v2] at h
      cases h
    | _ =>
      rw [canonicalEntryBytes, v1]
      · rfl
      · intro h
        cases h
  rw [hb, canonicalEntryBytes_v2 h2 v2, Except.ok.injEq] at h
  have e := stringify_injective (v1Object_isJson h1) (normal_isJson s2) h
  have hg := get?_v1Object e1
  rw [e, get?_normal ((Json.isJson_iff _).mp s2).1 (by decide), get?_signedFields e2 (by decide)
    (by decide), eqNum_iff.mp v2] at hg
  cases hg

/-- The two entries sign different values that become one when their `__proto__` members are
dropped. -/
def differOnlyInProto (e1 e2 : Json ν) : Prop :=
  sortUtf8 (dropProto (signedFields e1)) = sortUtf8 (dropProto (signedFields e2)) ∧
    ¬(signedFields e1).Same (signedFields e2)

theorem covers_iff {e1 e2 : Json ν} (h1 : e1.IsJson) (h2 : e2.IsJson) (v1 : isV2 e1 = true)
    (v2 : isV2 e2 = true) :
    (canonicalEntryBytes e1 = canonicalEntryBytes e2 → (signedFields e1).Same (signedFields e2)) ↔
      ¬differOnlyInProto e1 e2 := by
  rw [canonicalEntryBytes_eq_iff h1 h2 v1 v2, differOnlyInProto]
  tauto

/-- The bytes of a version-2 entry determine all it signs, but for its `__proto__` members; and they
are never the bytes of a version-1 entry. -/
theorem signature_coverage (e1 e2 : Json ν) (h1 : e1.IsJson) (h2 : e2.IsJson)
    (v2 : isV2 e2 = true) :
    (isV2 e1 = true →
      ((canonicalEntryBytes e1 = canonicalEntryBytes e2 →
        (signedFields e1).Same (signedFields e2)) ↔ ¬differOnlyInProto e1 e2)) ∧
    (isV2 e1 = false → canonicalEntryBytes e1 ≠ canonicalEntryBytes e2) :=
  ⟨fun v1 => covers_iff h1 h2 v1 v2, fun v1 => canonicalEntryBytes_ne h1 h2 v1 v2⟩

def plainEntry : Json Int := .obj [(js "sigVersion", .num 2)]
def protoEntry : Json Int := .obj [(js "sigVersion", .num 2), (js "__proto__", .num 1)]

theorem plainEntry_isJson : plainEntry.IsJson := by
  refine ⟨by decide, rfl, trivial⟩

theorem protoEntry_isJson : protoEntry.IsJson := by
  refine ⟨by decide, rfl, rfl, trivial⟩

theorem signature_coverage_entries :
    (isV2 plainEntry = true →
      ((canonicalEntryBytes plainEntry = canonicalEntryBytes protoEntry →
        (signedFields plainEntry).Same (signedFields protoEntry)) ↔
          ¬differOnlyInProto plainEntry protoEntry)) ∧
    (isV2 plainEntry = false → canonicalEntryBytes plainEntry ≠ canonicalEntryBytes protoEntry) :=
  signature_coverage plainEntry protoEntry plainEntry_isJson protoEntry_isJson rfl

/-- Adding a member `__proto__` leaves the signed bytes as they were. -/
theorem proto_not_covered :
    isV2 plainEntry = true ∧ isV2 protoEntry = true ∧
      canonicalEntryBytes plainEntry = canonicalEntryBytes protoEntry ∧
      ¬(signedFields plainEntry).Same (signedFields protoEntry) := by
  refine ⟨rfl, rfl, ?_, ?_⟩
  · exact (canonicalEntryBytes_eq_iff plainEntry_isJson protoEntry_isJson rfl rfl).mpr rfl
  · intro h
    have hs : (dropProto protoEntry).Same protoEntry := h
    have hp := (same_dropProto_iff protoEntry).mp hs
    exact absurd hp (by decide)

end Adlc.Tickets
