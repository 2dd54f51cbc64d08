import Adlc.Framework.JsonText
import Adlc.Framework.Sha256
import Adlc.Framework.StableSort
import Adlc.Tickets.Errors

namespace Adlc.Tickets

open Adlc.Framework

variable {ν : Type} [JsNumber ν]

/-! ## Ordering and assignment -/

/-- `compareTicketIds(left, right) <= 0`: the order of the UTF-8 bytes. -/
def compareTicketIds (left right : JsString) : Bool :=
  decide ((utf8Encode left).map UInt8.toNat ≤ (utf8Encode right).map UInt8.toNat)

def protoKey : JsString := js "__proto__"

/-- `output[key] = value` on an object made by `{}`: the key `__proto__` reaches the setter of
`Object.prototype` and leaves no own property. -/
def assign (output : Members ν) (key : JsString) (value : Json ν) : Members ν :=
  if key = protoKey then output else output.set key value

def assignAll (ps : Members ν) : Members ν := ps.foldl (fun output p => assign output p.1 p.2) []

/-- `Object.keys(value).sort(compareTicketIds)`, each key with what it stands for. -/
def sortByKey {α : Type} (ps : List (JsString × α)) : List (JsString × α) :=
  ps.mergeSort fun p q => compareTicketIds p.1 q.1

/-- The first error in the order of the list, or all values. -/
def allOk {ε α : Type} : List (JsString × Except ε α) → Except ε (List (JsString × α))
  | [] => .ok []
  | (k, .ok v) :: ps => (allOk ps).map fun vs => (k, v) :: vs
  | (_, .error e) :: _ => .error e

mutual
def normalize : JsString → Json ν → Except TicketStoreError (Json ν)
  | _, .null => .ok .null
  | _, .bool b => .ok (.bool b)
  | path, .num n =>
    if JsNumber.isFinite n then .ok (.num n)
    else .error (invalid "NON_JSON_VALUE" (path ++ js " contains a non-finite number"))
  | _, .str s => .ok (.str s)
  | path, .arr xs => (normalizeElems path 0 xs).map .arr
  | path, .obj ms => (allOk (sortByKey (normalizeMembers path ms))).map fun ps => .obj (assignAll ps)

def normalizeElems : JsString → Nat → List (Json ν) → Except TicketStoreError (List (Json ν))
  | _, _, [] => .ok []
  | path, i, x :: xs =>
    match normalize (path ++ js "[" ++ js (toString i) ++ js "]") x with
    | .error e => .error e
    | .ok y => (normalizeElems path (i + 1) xs).map fun ys => y :: ys

def normalizeMembers :
    JsString → Members ν → List (JsString × Except TicketStoreError (Json ν))
  | _, [] => []
  | path, (k, v) :: ms => (k, normalize (path ++ js "." ++ k) v) :: normalizeMembers path ms
end

def canonicalValue (value : Json ν) : Except TicketStoreError (Json ν) := normalize (js "$") value

def canonicalJson (value : Json ν) : Except TicketStoreError JsString :=
  (normalize (js "$") value).map stringify

def prettyCanonicalJson (value : Json ν) : Except TicketStoreError JsString :=
  (normalize (js "$") value).map fun v => stringify2 v ++ [10]

/-! ## The canonical value -/

mutual
/-- What `normalize` returns for a JSON value. -/
def normal : Json ν → Json ν
  | .null => .null
  | .bool b => .bool b
  | .num n => .num n
  | .str s => .str s
  | .arr xs => .arr (normalElems xs)
  | .obj ms => .obj (assignAll (sortByKey (normalMembers ms)))

def normalElems : List (Json ν) → List (Json ν)
  | [] => []
  | x :: xs => normal x :: normalElems xs

def normalMembers : Members ν → Members ν
  | [] => []
  | (k, v) :: ms => (k, normal v) :: normalMembers ms
end

omit [JsNumber ν] in
theorem normalElems_eq_map (xs : List (Json ν)) : normalElems xs = xs.map normal := by
  induction xs with
  | nil => rfl
  | cons x xs ih => rw [normalElems, ih, List.map_cons]

omit [JsNumber ν] in
theorem normalMembers_eq_map (ms : Members ν) :
    normalMembers ms = ms.map fun p => (p.1, normal p.2) := by
  induction ms with
  | nil => rfl
  | cons p ms ih => rw [normalMembers, ih, List.map_cons]

theorem compareTicketIds_trans (a b c : JsString) (h1 : compareTicketIds a b = true)
    (h2 : compareTicketIds b c = true) : compareTicketIds a c = true := by
  simp only [compareTicketIds, decide_eq_true_eq] at *
  exact le_trans h1 h2

theorem compareTicketIds_total (a b : JsString) :
    (compareTicketIds a b || compareTicketIds b a) = true := by
  simp only [compareTicketIds, Bool.or_eq_true, decide_eq_true_eq]
  exact le_total _ _

/-- Two ids tie when their UTF-8 is the same. -/
theorem compareTicketIds_tie {a b : JsString} (h1 : compareTicketIds a b = true)
    (h2 : compareTicketIds b a = true) : utf8Encode a = utf8Encode b := by
  simp only [compareTicketIds, decide_eq_true_eq] at h1 h2
  have h := le_antisymm h1 h2
  exact List.map_injective_iff.mpr (fun _ _ => UInt8.toNat_inj.mp) h

section

variable {α β : Type}

theorem sortByKey_trans (p q r : JsString × α) (h1 : compareTicketIds p.1 q.1 = true)
    (h2 : compareTicketIds q.1 r.1 = true) : compareTicketIds p.1 r.1 = true :=
  compareTicketIds_trans _ _ _ h1 h2

theorem sortByKey_total (p q : JsString × α) :
    (compareTicketIds p.1 q.1 || compareTicketIds q.1 p.1) = true :=
  compareTicketIds_total _ _

theorem sortByKey_perm (ps : List (JsString × α)) : (sortByKey ps).Perm ps :=
  List.mergeSort_perm _ _

/-- Sorting looks at the keys only. -/
theorem sortByKey_map (f : α → β) (ps : List (JsString × α)) :
    sortByKey (ps.map fun p => (p.1, f p.2)) = (sortByKey ps).map fun p => (p.1, f p.2) := by
  unfold sortByKey
  rw [List.map_mergeSort]
  intro p _ q _
  rfl

theorem sortByKey_filter (P : JsString × α → Bool) (ps : List (JsString × α)) :
    (sortByKey ps).filter P = sortByKey (ps.filter P) :=
  filter_mergeSort sortByKey_trans sortByKey_total P ps

theorem sortByKey_idem (ps : List (JsString × α)) : sortByKey (sortByKey ps) = sortByKey ps :=
  List.mergeSort_of_pairwise (List.pairwise_mergeSort sortByKey_trans sortByKey_total ps)

theorem allOk_map_ok {ε : Type} (ps : List (JsString × α)) :
    allOk (ε := ε) (ps.map fun p => (p.1, .ok p.2)) = .ok ps := by
  induction ps with
  | nil => rfl
  | cons p ps ih =>
    rw [List.map_cons, allOk, ih]
    rfl

end

/-- A JSON value has a canonical value. -/
theorem normalize_eq {v : Json ν} (hv : v.finite = true) :
    ∀ path, normalize path v = .ok (normal v) := by
  induction v using Json.ind with
  | null => intro path; rfl
  | bool b => intro path; rfl
  | num n =>
    intro path
    rw [Json.finite] at hv
    rw [normalize, if_pos hv, normal]
  | str s => intro path; rfl
  | arr xs ih =>
    have hxs := (elemsFinite_iff xs).mp hv
    have key : ∀ path i, normalizeElems path i xs = .ok (normalElems xs) := by
      clear hv
      intro path
      induction xs with
      | nil => intro i; rfl
      | cons x xs ihxs =>
        intro i
        have h1 := ih x (by simp) (hxs x (by simp)) (path ++ js "[" ++ js (toString i) ++ js "]")
        have h2 := ihxs (fun y hy => ih y (List.mem_cons_of_mem _ hy))
          (fun y hy => hxs y (List.mem_cons_of_mem _ hy)) (i + 1)
        rw [normalizeElems, h1, normalElems]
        simp only [h2]
        rfl
    intro path
    rw [normalize, key, normal]
    rfl
  | obj ms ih =>
    have hms := (membersFinite_iff ms).mp hv
    have key : ∀ path, normalizeMembers path ms =
        (normalMembers ms).map fun p => (p.1, .ok p.2) := by
      clear hv
      intro path
      induction ms with
      | nil => rfl
      | cons p ms ihms =>
        obtain ⟨k, v⟩ := p
        have h1 := ih (k, v) (by simp) (hms (k, v) (by simp)) (path ++ js "." ++ k)
        have h2 := ihms (fun y hy => ih y (List.mem_cons_of_mem _ hy))
          (fun y hy => hms y (List.mem_cons_of_mem _ hy))
        rw [normalizeMembers, h1, h2, normalMembers]
        rfl
    intro path
    rw [normalize, key, sortByKey_map (fun v => Except.ok v), allOk_map_ok, normal]
    rfl

omit [JsNumber ν] in
theorem allOk_eq_ok {ε : Type} {ps : List (JsString × Except ε (Json ν))}
    {vs : List (JsString × Json ν)} (h : allOk ps = .ok vs) :
    ∀ p ∈ ps, ∃ v, p.2 = .ok v := by
  induction ps generalizing vs with
  | nil => simp
  | cons p ps ih =>
    obtain ⟨k, r⟩ := p
    cases r with
    | error e => cases h
    | ok v =>
      rw [allOk] at h
      obtain ⟨rest, hr, -⟩ := map_eq_ok.mp h
      intro q hq
      rcases List.mem_cons.mp hq with rfl | hq
      · exact ⟨v, rfl⟩
      · exact ih hr q hq

/-- What has a canonical value is JSON. -/
theorem finite_of_normalize {v : Json ν} :
    ∀ {path w}, normalize path v = .ok w → v.finite = true := by
  induction v using Json.ind with
  | null | bool | str => intro path w _; rfl
  | num n =>
    intro path w h
    rw [normalize] at h
    split_ifs at h with hf
    exact hf
  | arr xs ih =>
    have key : ∀ (xs : List (Json ν)), (∀ x ∈ xs, ∀ {path w}, normalize path x = .ok w →
        x.finite = true) → ∀ {path i ws}, normalizeElems path i xs = .ok ws →
          ∀ x ∈ xs, x.finite = true := by
      intro xs
      induction xs with
      | nil => simp
      | cons x xs ihx =>
        intro h path i ws hok
        rw [normalizeElems] at hok
        cases hx : normalize (path ++ js "[" ++ js (toString i) ++ js "]") x with
        | error e =>
          rw [hx] at hok
          cases hok
        | ok y =>
          rw [hx] at hok
          obtain ⟨rest, hr, -⟩ := map_eq_ok.mp hok
          rw [List.forall_mem_cons]
          exact ⟨h x List.mem_cons_self hx,
            ihx (fun z hz => h z (List.mem_cons_of_mem _ hz)) hr⟩
    intro path w h
    rw [normalize] at h
    obtain ⟨ws, hw, -⟩ := map_eq_ok.mp h
    exact (elemsFinite_iff xs).mpr (key xs ih hw)
  | obj ms ih =>
    have key : ∀ (ms : Members ν) (path : JsString), ∀ p ∈ ms,
        (p.1, normalize (path ++ js "." ++ p.1) p.2) ∈ normalizeMembers path ms := by
      intro ms path
      induction ms with
      | nil => simp
      | cons q ms ihm =>
        obtain ⟨k, v⟩ := q
        rw [normalizeMembers, List.forall_mem_cons]
        exact ⟨List.mem_cons_self, fun p hp => List.mem_cons_of_mem _ (ihm p hp)⟩
    intro path w h
    rw [normalize] at h
    obtain ⟨ps, hps, -⟩ := map_eq_ok.mp h
    rw [Json.finite, membersFinite_iff]
    intro p hp
    have hm := (sortByKey_perm (normalizeMembers path ms)).mem_iff.mpr (key ms path p hp)
    obtain ⟨v, hv⟩ := allOk_eq_ok hps _ hm
    exact ih p hp hv

theorem canonicalJson_eq {v : Json ν} (hv : v.finite = true) :
    canonicalJson v = .ok (stringify (normal v)) := by
  rw [canonicalJson, normalize_eq hv]
  rfl

theorem prettyCanonicalJson_eq {v : Json ν} (hv : v.finite = true) :
    prettyCanonicalJson v = .ok (stringify2 (normal v) ++ [10]) := by
  rw [prettyCanonicalJson, normalize_eq hv]
  rfl

/-! ## What normalization keeps -/

/-- Not the member that assignment loses. -/
def notProto (p : JsString × Json ν) : Bool := decide (p.1 ≠ protoKey)

omit [JsNumber ν]

theorem assignAll_eq (ps : Members ν) : assignAll ps = Members.create (ps.filter notProto) := by
  induction ps using List.reverseRecOn with
  | nil => rfl
  | append_singleton ps p ih =>
    have e : assignAll (ps ++ [p]) = assign (assignAll ps) p.1 p.2 := by
      simp [assignAll, List.foldl_append]
    rw [e, ih, assign, List.filter_append]
    by_cases h : p.1 = protoKey
    · rw [if_pos h, List.filter_singleton]
      simp [notProto, h]
    · rw [if_neg h, List.filter_singleton]
      simp only [notProto, ne_eq, h, not_false_eq_true, decide_true, cond_true]
      rw [Members.create_append]

theorem normal_obj (ms : Members ν) :
    normal (.obj ms) =
      .obj (Members.create (sortByKey ((ms.filter notProto).map fun p => (p.1, normal p.2)))) := by
  rw [normal, assignAll_eq, sortByKey_filter, normalMembers_eq_map, List.filter_map]
  rfl

theorem Members.keys_filter_nodup {ms : Members ν} (h : ms.keys.Nodup)
    (P : JsString × Json ν → Bool) : (Members.keys (ms.filter P)).Nodup :=
  h.sublist (List.filter_sublist.map Prod.fst)

theorem sortByKey_keys_nodup {ms : Members ν} (h : ms.keys.Nodup) :
    (Members.keys (sortByKey ms)).Nodup :=
  ((sortByKey_perm ms).map Prod.fst).nodup_iff.mpr h

/-- The members of a normalized object are the normalized members but for `__proto__`. -/
theorem normal_obj_perm {ms : Members ν} (hn : ms.keys.Nodup) :
    (Members.create (sortByKey ((ms.filter notProto).map fun p => (p.1, normal p.2)))).Perm
      ((ms.filter notProto).map fun p => (p.1, normal p.2)) := by
  have h : (Members.keys ((ms.filter notProto).map fun p => (p.1, normal p.2))).Nodup := by
    rw [Members.keys_map]
    exact Members.keys_filter_nodup hn _
  exact (Members.create_perm (sortByKey_keys_nodup h)).trans (sortByKey_perm _)

theorem normal_ordered (v : Json ν) : (normal v).Ordered := by
  induction v using Json.ind with
  | null | bool | num | str => trivial
  | arr xs ih =>
    rw [normal, normalElems_eq_map, Json.Ordered, elemsOrdered_iff]
    intro y hy
    obtain ⟨x, hx, rfl⟩ := List.mem_map.mp hy
    exact ih x hx
  | obj ms ih =>
    rw [normal_obj, Json.Ordered, membersOrdered_iff]
    refine ⟨OrderedKeys.create _, Members.create_values ?_⟩
    intro p hp
    have hp := (sortByKey_perm _).mem_iff.mp hp
    obtain ⟨q, hq, rfl⟩ := List.mem_map.mp hp
    exact ih q (List.mem_filter.mp hq).1

theorem normal_finite [JsNumber ν] {v : Json ν} (hv : v.finite = true) :
    (normal v).finite = true := by
  induction v using Json.ind with
  | null | bool | num | str => exact hv
  | arr xs ih =>
    rw [Json.finite, elemsFinite_iff] at hv
    rw [normal, normalElems_eq_map, Json.finite, elemsFinite_iff]
    intro y hy
    obtain ⟨x, hx, rfl⟩ := List.mem_map.mp hy
    exact ih x hx (hv x hx)
  | obj ms ih =>
    rw [Json.finite, membersFinite_iff] at hv
    rw [normal_obj, Json.finite, membersFinite_iff]
    refine Members.create_values (P := fun v => v.finite = true) ?_
    intro p hp
    have hp := (sortByKey_perm _).mem_iff.mp hp
    obtain ⟨q, hq, rfl⟩ := List.mem_map.mp hp
    have hq := (List.mem_filter.mp hq).1
    exact ih q hq (hv q hq)

theorem normal_isJson [JsNumber ν] {v : Json ν} (hv : v.IsJson) : (normal v).IsJson := by
  rw [Json.isJson_iff] at *
  exact ⟨normal_ordered v, normal_finite hv.2⟩

/-- Looking a key up after normalization. -/
theorem get?_normal {v : Json ν} (hv : v.Ordered) {k : JsString} (hk : k ≠ protoKey) :
    (normal v).get? k = (v.get? k).map normal := by
  cases v with
  | null | bool | num | str => rfl
  | arr xs => rfl
  | obj ms =>
    have hn := hv.1.1
    have hc := OrderedKeys.create (sortByKey ((ms.filter notProto).map fun p => (p.1, normal p.2)))
    rw [normal_obj, Json.get?, Members.lookup_perm hc.1 (normal_obj_perm hn), Members.lookup_map,
      Json.get?]
    congr 1
    apply Option.ext
    intro w
    rw [Members.lookup_eq_some_iff (Members.keys_filter_nodup hn _), Members.lookup_eq_some_iff hn,
      List.mem_filter]
    simp [notProto, hk]

/-! ## Values without the key `__proto__` -/

mutual
/-- The value without the members named `__proto__`, at any depth. -/
def dropProto : Json ν → Json ν
  | .null => .null
  | .bool b => .bool b
  | .num n => .num n
  | .str s => .str s
  | .arr xs => .arr (dropElems xs)
  | .obj ms => .obj (dropMembers ms)

def dropElems : List (Json ν) → List (Json ν)
  | [] => []
  | x :: xs => dropProto x :: dropElems xs

def dropMembers : Members ν → Members ν
  | [] => []
  | (k, v) :: ms => if k = protoKey then dropMembers ms else (k, dropProto v) :: dropMembers ms
end

mutual
/-- No object of the value has an own key `__proto__`. -/
def noProto : Json ν → Bool
  | .null | .bool _ | .num _ | .str _ => true
  | .arr xs => elemsNoProto xs
  | .obj ms => membersNoProto ms

def elemsNoProto : List (Json ν) → Bool
  | [] => true
  | x :: xs => noProto x && elemsNoProto xs

def membersNoProto : Members ν → Bool
  | [] => true
  | (k, v) :: ms => decide (k ≠ protoKey) && noProto v && membersNoProto ms
end

theorem dropElems_eq_map (xs : List (Json ν)) : dropElems xs = xs.map dropProto := by
  induction xs with
  | nil => rfl
  | cons x xs ih => rw [dropElems, ih, List.map_cons]

theorem dropMembers_eq (ms : Members ν) :
    dropMembers ms = (ms.filter notProto).map fun p => (p.1, dropProto p.2) := by
  induction ms with
  | nil => rfl
  | cons p ms ih =>
    obtain ⟨k, v⟩ := p
    rw [dropMembers, ih]
    by_cases h : k = protoKey
    · rw [if_pos h, List.filter_cons_of_neg (by simp [notProto, h])]
    · rw [if_neg h, List.filter_cons_of_pos (by simp [notProto, h]), List.map_cons]

theorem elemsNoProto_iff (xs : List (Json ν)) :
    elemsNoProto xs = true ↔ ∀ x ∈ xs, noProto x = true := by
  induction xs with
  | nil => simp [elemsNoProto]
  | cons x xs ih => simp [elemsNoProto, ih]

theorem membersNoProto_iff (ms : Members ν) :
    membersNoProto ms = true ↔ ∀ p ∈ ms, p.1 ≠ protoKey ∧ noProto p.2 = true := by
  induction ms with
  | nil => simp [membersNoProto]
  | cons p ms ih => simp [membersNoProto, ih, and_assoc]

theorem dropProto_of_noProto {v : Json ν} (h : noProto v = true) : dropProto v = v := by
  induction v using Json.ind with
  | null | bool | num | str => rfl
  | arr xs ih =>
    rw [noProto, elemsNoProto_iff] at h
    rw [dropProto, dropElems_eq_map]
    congr 1
    conv_rhs => rw [← List.map_id xs]
    exact List.map_congr_left fun x hx => ih x hx (h x hx)
  | obj ms ih =>
    rw [noProto, membersNoProto_iff] at h
    rw [dropProto, dropMembers_eq]
    have hf : ms.filter notProto = ms := by
      apply List.filter_eq_self.mpr
      intro p hp
      simpa [notProto] using (h p hp).1
    rw [hf]
    congr 1
    conv_rhs => rw [← List.map_id ms]
    apply List.map_congr_left
    intro p hp
    rw [ih p hp (h p hp).2, id]

mutual
/-- The number of members of the value's objects, at any depth. -/
def memberCount : Json ν → Nat
  | .null | .bool _ | .num _ | .str _ => 0
  | .arr xs => elemsCount xs
  | .obj ms => membersCount ms

def elemsCount : List (Json ν) → Nat
  | [] => 0
  | x :: xs => memberCount x + elemsCount xs

def membersCount : Members ν → Nat
  | [] => 0
  | (_, v) :: ms => memberCount v + 1 + membersCount ms
end

theorem elemsCount_eq (xs : List (Json ν)) : elemsCount xs = (xs.map memberCount).sum := by
  induction xs with
  | nil => rfl
  | cons x xs ih => rw [elemsCount, ih, List.map_cons, List.sum_cons]

theorem membersCount_eq (ms : Members ν) :
    membersCount ms = (ms.map fun p => memberCount p.2 + 1).sum := by
  induction ms with
  | nil => rfl
  | cons p ms ih => rw [membersCount, ih, List.map_cons, List.sum_cons]

theorem memberCount_sortKeys (v : Json ν) : memberCount v.sortKeys = memberCount v := by
  induction v using Json.ind with
  | null | bool | num | str => rfl
  | arr xs ih =>
    rw [Json.sortKeys, sortElems_eq_map, memberCount, memberCount, elemsCount_eq, elemsCount_eq,
      List.map_map]
    exact congrArg List.sum (List.map_congr_left ih)
  | obj ms ih =>
    rw [Json.sortKeys, sortMembers_eq_map, memberCount, memberCount, membersCount_eq,
      membersCount_eq, ((List.mergeSort_perm _ _).map _).sum_nat, List.map_map]
    apply congrArg List.sum
    apply List.map_congr_left
    intro p hp
    simp [ih p hp]

theorem memberCount_dropProto (v : Json ν) :
    memberCount (dropProto v) ≤ memberCount v ∧
      (memberCount (dropProto v) = memberCount v → noProto v = true) := by
  induction v using Json.ind with
  | null | bool | num | str => simp [dropProto, noProto]
  | arr xs ih =>
    simp only [dropProto, memberCount, noProto]
    induction xs with
    | nil => simp [dropElems, elemsNoProto]
    | cons x xs ihxs =>
      have h1 := ih x (by simp)
      have h2 := ihxs fun y hy => ih y (List.mem_cons_of_mem _ hy)
      simp only [dropElems, elemsCount, elemsNoProto, Bool.and_eq_true]
      refine ⟨by omega, ?_⟩
      intro h
      exact ⟨h1.2 (by omega), h2.2 (by omega)⟩
  | obj ms ih =>
    simp only [dropProto, memberCount, noProto]
    induction ms with
    | nil => simp [dropMembers, membersNoProto]
    | cons p ms ihms =>
      obtain ⟨k, v⟩ := p
      have h1 := ih (k, v) (by simp)
      have h2 := ihms fun q hq => ih q (List.mem_cons_of_mem _ hq)
      simp only at h1
      simp only [dropMembers, membersCount, membersNoProto, Bool.and_eq_true, decide_eq_true_eq]
      split_ifs with hk
      · refine ⟨by omega, ?_⟩
        intro h
        omega
      · simp only [membersCount]
        refine ⟨by omega, ?_⟩
        intro h
        exact ⟨⟨hk, h1.2 (by omega)⟩, h2.2 (by omega)⟩

/-- A value is the same without its `__proto__` members only when it has none. -/
theorem same_dropProto_iff (v : Json ν) : (dropProto v).Same v ↔ noProto v = true := by
  constructor
  · intro h
    apply (memberCount_dropProto v).2
    rw [← memberCount_sortKeys, ← memberCount_sortKeys v, h]
  · intro h
    rw [dropProto_of_noProto h]
    rfl

/-- Normalization loses the `__proto__` members, and reorders the others. -/
theorem normal_same {v : Json ν} (hv : v.Ordered) : (normal v).Same (dropProto v) := by
  unfold Json.Same
  induction v using Json.ind with
  | null | bool | num | str => rfl
  | arr xs ih =>
    rw [Json.Ordered, elemsOrdered_iff] at hv
    rw [normal, dropProto, Json.sortKeys, Json.sortKeys, sortElems_eq_map, sortElems_eq_map,
      normalElems_eq_map, dropElems_eq_map, List.map_map, List.map_map]
    congr 1
    exact List.map_congr_left fun x hx => ih x hx (hv x hx)
  | obj ms ih =>
    rw [Json.Ordered, membersOrdered_iff] at hv
    have hn := hv.1.1
    have hc := OrderedKeys.create (sortByKey ((ms.filter notProto).map fun p => (p.1, normal p.2)))
    have h1 := Json.same_of_perm hc.1 (normal_obj_perm hn)
    rw [normal_obj, h1, dropProto, Json.sortKeys, Json.sortKeys, sortMembers_eq_map,
      sortMembers_eq_map, dropMembers_eq, List.map_map, List.map_map]
    congr 2
    apply List.map_congr_left
    intro p hp
    have hp := (List.mem_filter.mp hp).1
    exact congrArg (Prod.mk p.1) (ih p hp (hv.2 p hp))

/-- Normalization keeps a value, up to key order, exactly when it has no key `__proto__`. -/
theorem normal_same_iff {v : Json ν} (hv : v.Ordered) : (normal v).Same v ↔ noProto v = true := by
  rw [← same_dropProto_iff, Json.Same, normal_same hv]
  rfl

/-! ## What the canonical value determines -/

mutual
/-- The value with the keys of its objects in the order of their UTF-8, ties as they stood. -/
def sortUtf8 : Json ν → Json ν
  | .null => .null
  | .bool b => .bool b
  | .num n => .num n
  | .str s => .str s
  | .arr xs => .arr (sortUtf8Elems xs)
  | .obj ms => .obj (sortByKey (sortUtf8Members ms))

def sortUtf8Elems : List (Json ν) → List (Json ν)
  | [] => []
  | x :: xs => sortUtf8 x :: sortUtf8Elems xs

def sortUtf8Members : Members ν → Members ν
  | [] => []
  | (k, v) :: ms => (k, sortUtf8 v) :: sortUtf8Members ms
end

theorem sortUtf8Elems_eq_map (xs : List (Json ν)) : sortUtf8Elems xs = xs.map sortUtf8 := by
  induction xs with
  | nil => rfl
  | cons x xs ih => rw [sortUtf8Elems, ih, List.map_cons]

theorem sortUtf8Members_eq_map (ms : Members ν) :
    sortUtf8Members ms = ms.map fun p => (p.1, sortUtf8 p.2) := by
  induction ms with
  | nil => rfl
  | cons p ms ih => rw [sortUtf8Members, ih, List.map_cons]

theorem arrayIndex?_digits {k : JsString} {n : Nat} (h : arrayIndex? k = some n) :
    k.all isDigit = true := by
  unfold arrayIndex? at h
  simp only at h
  split_ifs at h with h1
  exact h1.2.1

theorem digits_wellFormed {k : JsString} (h : k.all isDigit = true) : wellFormed k = true := by
  induction k with
  | nil => rfl
  | cons c k ih =>
    rw [List.all_cons, Bool.and_eq_true] at h
    have hc := h.1
    simp only [isDigit, Bool.and_eq_true, decide_eq_true_eq] at hc
    have h1 : ¬isHigh c = true := by
      simp only [isHigh, Bool.and_eq_true, decide_eq_true_eq]
      omega
    have h2 : isLow c = false := by
      simp only [isLow, Bool.and_eq_false_iff, decide_eq_false_iff_not]
      omega
    rw [wellFormed_plain k h1, h2, ih h.2]
    rfl

/-- A string of digits shares its UTF-8 with no other string. -/
theorem eq_of_utf8_digits {k l : JsString} (hk : k.all isDigit = true)
    (h : utf8Encode k = utf8Encode l) : k = l := by
  have hkw := digits_wellFormed hk
  have e : k = toWellFormed l := by
    rw [← toWellFormed_of_wellFormed k hkw]
    exact (utf8Encode_eq_iff k l).mp h
  -- no digit is the replacement character, so nothing was replaced in `l`
  have key : ∀ l : JsString, (toWellFormed l).all isDigit = true → toWellFormed l = l := by
    intro l
    fun_induction toWellFormed l with
    | case1 => intro _; rfl
    | case2 c hc =>
      intro hl
      exact absurd hl (by decide)
    | case3 c hc d r hd ih =>
      intro hl
      rw [List.all_cons, List.all_cons, Bool.and_eq_true, Bool.and_eq_true] at hl
      rw [ih hl.2.2]
    | case4 c hc d r hd ih =>
      intro hl
      rw [List.all_cons, Bool.and_eq_true] at hl
      exact absurd hl.1 (by decide)
    | case5 c r hc hl' ih =>
      intro hl
      rw [List.all_cons, Bool.and_eq_true] at hl
      exact absurd hl.1 (by decide)
    | case6 c r hc hl' ih =>
      intro hl
      rw [List.all_cons, Bool.and_eq_true] at hl
      rw [ih hl.2]
  rw [e] at hk
  rw [e, key l hk]

/-- Members other than array indices keep their order of creation. -/
theorem filter_set {ms : Members ν} {k : JsString} (hk : k ∉ ms.keys) (v : Json ν)
    {P : JsString × Json ν → Bool} (hP : ∀ p : JsString × Json ν, P p = true →
      p.1 ∈ k :: ms.keys → arrayIndex? p.1 = none) :
    (ms.set k v).filter P = (ms ++ [(k, v)]).filter P := by
  by_cases hi : P (k, v) = true
  · have hn := hP (k, v) hi (by simp)
    have hl : ∀ a ∈ ms.keys, mustPrecede k a = false := by
      intro a _
      unfold mustPrecede
      simp only [] at hn
      rw [hn]
    rw [Members.set_append hk hl]
  · rw [List.filter_append, List.filter_cons_of_neg hi, List.filter_nil, List.append_nil]
    induction ms with
    | nil => rw [Members.set, List.filter_cons_of_neg hi]
    | cons p ms ih =>
      obtain ⟨k', v'⟩ := p
      simp only [Members.keys, List.map_cons, List.mem_cons, not_or] at hk
      have hne : ¬k' = k := fun e => hk.1 e.symm
      unfold Members.set
      rw [if_neg hne]
      split_ifs with h2
      · rw [List.filter_cons_of_neg hi]
      · rw [List.filter_cons, List.filter_cons, ih hk.2]
        intro p hp hm
        refine hP p hp ?_
        simp only [Members.keys, List.map_cons, List.mem_cons] at hm ⊢
        tauto

theorem filter_create {ps : Members ν} (hn : ps.keys.Nodup) {P : JsString × Json ν → Bool}
    (hP : ∀ p : JsString × Json ν, P p = true → p.1 ∈ ps.keys → arrayIndex? p.1 = none) :
    (Members.create ps).filter P = ps.filter P := by
  induction ps using List.reverseRecOn with
  | nil => rfl
  | append_singleton ps p ih =>
    simp only [Members.keys, List.map_append, List.map_cons, List.map_nil] at hn
    obtain ⟨h1, -, h3⟩ := List.nodup_append.mp hn
    have hm : ∀ a, a ∈ (Members.create ps).keys ↔ a ∈ Members.keys ps := mem_keys_create ps
    have hp : p.1 ∉ (Members.create ps).keys := by
      rw [hm]
      intro h
      exact h3 p.1 h p.1 (by simp) rfl
    have hP' : ∀ q : JsString × Json ν, P q = true → q.1 ∈ Members.keys ps →
        arrayIndex? q.1 = none := by
      intro q hq hqm
      exact hP q hq (by simp only [Members.keys, List.map_append, List.mem_append]; exact Or.inl hqm)
    rw [Members.create_append, filter_set hp]
    · rw [List.filter_append, List.filter_append, ih h1 hP']
    · intro q hq hqm
      refine hP q hq ?_
      simp only [Members.keys, List.map_append, List.map_cons, List.map_nil, List.mem_append,
        List.mem_singleton]
      rcases List.mem_cons.mp hqm with h | h
      · exact Or.inr h
      · exact Or.inl ((hm _).mp h)

theorem filter_eq_of_key {ms ms' : Members ν} (hn : ms.keys.Nodup) (h : ms.Perm ms') {k : JsString}
    {P : JsString × Json ν → Bool} (hP : ∀ p ∈ ms, P p = true → p.1 = k) :
    ms.filter P = ms'.filter P := by
  have hl : ∀ p ∈ ms.filter P, ∀ q ∈ ms.filter P, p = q := by
    intro p hp q hq
    obtain ⟨hp, hp'⟩ := List.mem_filter.mp hp
    obtain ⟨hq, hq'⟩ := List.mem_filter.mp hq
    exact Members.eq_of_mem hn hp hq ((hP p hp hp').trans (hP q hq hq').symm)
  have hpm := h.filter P
  cases e : ms.filter P with
  | nil =>
    rw [e] at hpm
    exact hpm.nil_eq
  | cons p t =>
    cases t with
    | nil =>
      rw [e] at hpm
      exact (List.singleton_perm.mp hpm).symm ▸ rfl
    | cons q t =>
      have hpq := hl p (by rw [e]; simp) q (by rw [e]; simp)
      have hnf := (hn.of_map Prod.fst).filter P
      rw [e, hpq] at hnf
      simp at hnf

/-- Own-key order does not reach the order of the UTF-8: array indices tie with no other key. -/
theorem sortByKey_create {ps : Members ν} (hn : ps.keys.Nodup) :
    sortByKey (Members.create ps) = sortByKey ps := by
  apply mergeSort_congr sortByKey_trans sortByKey_total
  intro a
  have htie : ∀ p : JsString × Json ν,
      tie (fun p q : JsString × Json ν => compareTicketIds p.1 q.1) a p = true →
        utf8Encode p.1 = utf8Encode a.1 := by
    intro p hp
    simp only [tie, Bool.and_eq_true] at hp
    exact compareTicketIds_tie hp.2 hp.1
  by_cases hd : a.1.all isDigit = true
  · apply filter_eq_of_key (OrderedKeys.create ps).1 (Members.create_perm hn) (k := a.1)
    intro p _ hp
    exact (eq_of_utf8_digits hd (htie p hp).symm).symm
  · apply filter_create hn
    intro p hp _
    cases e : arrayIndex? p.1 with
    | none => rfl
    | some n =>
      have hpd := arrayIndex?_digits e
      rw [eq_of_utf8_digits hpd (htie p hp)] at hpd
      exact absurd hpd hd

theorem sortUtf8_obj (ms : Members ν) :
    sortUtf8 (.obj ms) = .obj ((sortByKey ms).map fun p => (p.1, sortUtf8 p.2)) := by
  rw [sortUtf8, sortUtf8Members_eq_map, sortByKey_map]

/-- The canonical value keeps all but the `__proto__` members and the order of keys whose UTF-8
differs. -/
theorem sortUtf8_normal {v : Json ν} (hv : v.Ordered) :
    sortUtf8 (normal v) = sortUtf8 (dropProto v) := by
  induction v using Json.ind with
  | null | bool | num | str => rfl
  | arr xs ih =>
    rw [Json.Ordered, elemsOrdered_iff] at hv
    rw [normal, dropProto, sortUtf8, sortUtf8, sortUtf8Elems_eq_map, sortUtf8Elems_eq_map,
      normalElems_eq_map, dropElems_eq_map, List.map_map, List.map_map]
    exact congrArg Json.arr (List.map_congr_left fun x hx => ih x hx (hv x hx))
  | obj ms ih =>
    rw [Json.Ordered, membersOrdered_iff] at hv
    have hn : (Members.keys ((ms.filter notProto).map fun p => (p.1, normal p.2))).Nodup := by
      rw [Members.keys_map]
      exact Members.keys_filter_nodup hv.1.1 _
    rw [normal_obj, sortUtf8_obj, sortByKey_create (sortByKey_keys_nodup hn), sortByKey_idem,
      dropProto, dropMembers_eq, sortUtf8_obj, sortByKey_map, sortByKey_map, List.map_map,
      List.map_map]
    apply congrArg Json.obj
    apply List.map_congr_left
    intro p hp
    have hp := (List.mem_filter.mp ((sortByKey_perm _).mem_iff.mp hp)).1
    exact congrArg (Prod.mk p.1) (ih p hp (hv.2 p hp))

theorem normal_sortUtf8 (v : Json ν) : normal (sortUtf8 v) = normal v := by
  induction v using Json.ind with
  | null | bool | num | str => rfl
  | arr xs ih =>
    rw [sortUtf8, sortUtf8Elems_eq_map, normal, normal, normalElems_eq_map, normalElems_eq_map,
      List.map_map]
    exact congrArg Json.arr (List.map_congr_left ih)
  | obj ms ih =>
    rw [sortUtf8, sortUtf8Members_eq_map, normal_obj, normal_obj, sortByKey_filter,
      List.filter_map, ← sortByKey_map, sortByKey_idem, List.map_map]
    congr 3
    apply List.map_congr_left
    intro p hp
    exact congrArg (Prod.mk p.1) (ih p (List.mem_filter.mp hp).1)

theorem normal_dropProto (v : Json ν) : normal (dropProto v) = normal v := by
  induction v using Json.ind with
  | null | bool | num | str => rfl
  | arr xs ih =>
    rw [dropProto, dropElems_eq_map, normal, normal, normalElems_eq_map, normalElems_eq_map,
      List.map_map]
    exact congrArg Json.arr (List.map_congr_left ih)
  | obj ms ih =>
    rw [dropProto, dropMembers_eq, normal_obj, normal_obj, List.filter_map, List.map_map]
    have hf : (ms.filter notProto).filter (notProto ∘ fun p => (p.1, dropProto p.2)) =
        ms.filter notProto := by
      apply List.filter_eq_self.mpr
      intro p hp
      exact (List.mem_filter.mp hp).2
    rw [hf]
    congr 3
    apply List.map_congr_left
    intro p hp
    exact congrArg (Prod.mk p.1) (ih p (List.mem_filter.mp hp).1)

/-- What two values with one canonical value have in common. -/
theorem normal_eq_iff {v w : Json ν} (hv : v.Ordered) (hw : w.Ordered) :
    normal v = normal w ↔ sortUtf8 (dropProto v) = sortUtf8 (dropProto w) := by
  constructor
  · intro h
    rw [← sortUtf8_normal hv, ← sortUtf8_normal hw, h]
  · intro h
    rw [← normal_dropProto v, ← normal_dropProto w, ← normal_sortUtf8 (dropProto v), h,
      normal_sortUtf8]

theorem noProto_normal (v : Json ν) : noProto (normal v) = true := by
  induction v using Json.ind with
  | null | bool | num | str => rfl
  | arr xs ih =>
    rw [normal, normalElems_eq_map, noProto, elemsNoProto_iff]
    intro y hy
    obtain ⟨x, hx, rfl⟩ := List.mem_map.mp hy
    exact ih x hx
  | obj ms ih =>
    rw [normal_obj, noProto, membersNoProto_iff]
    intro p hp
    have hk : p.1 ∈ Members.keys (Members.create
        (sortByKey ((ms.filter notProto).map fun p => (p.1, normal p.2)))) :=
      List.mem_map_of_mem hp
    rw [mem_keys_create] at hk
    obtain ⟨q, hq, hqp⟩ := List.mem_map.mp hk
    obtain ⟨r, hr, rfl⟩ := List.mem_map.mp ((sortByKey_perm _).mem_iff.mp hq)
    have hnp := (List.mem_filter.mp hr).2
    refine ⟨?_, ?_⟩
    · rw [← hqp]
      simpa [notProto] using hnp
    · refine Members.create_values (P := fun v => noProto v = true) ?_ p hp
      intro s hs
      obtain ⟨t, ht, rfl⟩ := List.mem_map.mp ((sortByKey_perm _).mem_iff.mp hs)
      exact ih t (List.mem_filter.mp ht).1

/-- A canonical value is its own canonical value. -/
theorem normal_idem {v : Json ν} (hv : v.Ordered) : normal (normal v) = normal v := by
  rw [normal_eq_iff (normal_ordered v) hv, dropProto_of_noProto (noProto_normal v),
    sortUtf8_normal hv]

end Adlc.Tickets
