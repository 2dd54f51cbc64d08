import Adlc.Framework.Text
import Mathlib.Data.List.Perm.Basic
import Mathlib.Data.List.Lex
import Mathlib.Data.List.Sort
import Mathlib.Data.List.Induction
import Mathlib.Order.Basic

namespace Adlc.Framework

/-! ## Numbers -/

/-- States of the JSON number grammar. -/
inductive NumState where
  | start | minus | zero | int | point | frac | e | sign | exp
  deriving DecidableEq

def isDigit (c : UInt16) : Bool := 48 ≤ c.toNat && c.toNat ≤ 57

def NumState.lead (c : UInt16) : Option NumState :=
  if c = 48 then some .zero else if isDigit c then some .int else none

def NumState.expo (c : UInt16) : Option NumState :=
  if c = 101 ∨ c = 69 then some .e else none

def NumState.step (q : NumState) (c : UInt16) : Option NumState :=
  match q with
  | .start => if c = 45 then some .minus else NumState.lead c
  | .minus => NumState.lead c
  | .zero => if c = 46 then some .point else NumState.expo c
  | .int => if isDigit c then some .int else if c = 46 then some .point else NumState.expo c
  | .point => if isDigit c then some .frac else none
  | .frac => if isDigit c then some .frac else NumState.expo c
  | .e => if c = 43 ∨ c = 45 then some .sign else if isDigit c then some .exp else none
  | .sign | .exp => if isDigit c then some .exp else none

def NumState.accepts : NumState → Bool
  | .zero | .int | .frac | .exp => true
  | _ => false

def numRun : NumState → JsString → Bool
  | q, [] => q.accepts
  | q, c :: r =>
    match q.step c with
    | some q' => numRun q' r
    | none => false

/-- A number in the JSON grammar. -/
def isNumberText (s : JsString) : Bool := numRun .start s

/-- The number type of the language. 0 and −0 are one number, as they are for `===` and for
`JSON.stringify`; the laws are those the language gives. -/
class JsNumber (ν : Type) where
  decEq : DecidableEq ν
  isFinite : ν → Bool
  isInteger : ν → Bool
  text : ν → JsString
  ofText : JsString → ν
  ofNat : Nat → ν
  add : ν → ν → ν
  lt : ν → ν → Bool
  finite_of_integer : ∀ n, isInteger n = true → isFinite n = true
  isNumberText_text : ∀ n, isFinite n = true → isNumberText (text n) = true
  ofText_text : ∀ n, isFinite n = true → ofText (text n) = n
  text_digit : ∀ n, n < 10 → text (ofNat n) = [UInt16.ofNat (48 + n)]
  integer_ofNat : ∀ n, n ≤ 2 ^ 53 → isInteger (ofNat n) = true
  lt_ofNat : ∀ m n, m ≤ 2 ^ 53 → n ≤ 2 ^ 53 → lt (ofNat m) (ofNat n) = decide (m < n)
  add_ofNat : ∀ m n, m + n ≤ 2 ^ 53 → add (ofNat m) (ofNat n) = ofNat (m + n)
  integer_succ : ∀ n, isInteger n = true → isInteger (add n (ofNat 1)) = true
  succ_pos : ∀ n, isInteger n = true → lt n (ofNat 1) = false →
    lt (add n (ofNat 1)) (ofNat 1) = false

instance {ν : Type} [JsNumber ν] : DecidableEq ν := JsNumber.decEq

theorem ofNat_inj {ν : Type} [JsNumber ν] {m n : Nat} (hm : m ≤ 2 ^ 53) (hn : n ≤ 2 ^ 53)
    (h : (JsNumber.ofNat m : ν) = JsNumber.ofNat n) : m = n := by
  have h1 := JsNumber.lt_ofNat (ν := ν) m n hm hn
  have h2 := JsNumber.lt_ofNat (ν := ν) n m hn hm
  have h3 := JsNumber.lt_ofNat (ν := ν) n n hn hn
  rw [h, h3] at h1
  rw [h, h3] at h2
  simp at h1 h2
  omega

/-! ## Values -/

/-- A value `JSON.parse` can return; an object is its own properties in own-key order. -/
inductive Json (ν : Type) where
  | null
  | bool (b : Bool)
  | num (n : ν)
  | str (s : JsString)
  | arr (xs : List (Json ν))
  | obj (ms : List (JsString × Json ν))

abbrev Members (ν : Type) := List (JsString × Json ν)

variable {ν : Type}

/-- Induction over a value: an array from its elements, an object from its members' values. -/
theorem Json.ind {P : Json ν → Prop} (null : P .null) (bool : ∀ b, P (.bool b))
    (num : ∀ n, P (.num n)) (str : ∀ s, P (.str s))
    (arr : ∀ xs, (∀ x ∈ xs, P x) → P (.arr xs))
    (obj : ∀ ms : Members ν, (∀ p ∈ ms, P p.2) → P (.obj ms)) : ∀ v, P v := by
  refine @Json.rec ν P (fun xs => ∀ x ∈ xs, P x) (fun ms => ∀ p ∈ ms, P p.2) (fun p => P p.2)
    null bool num str arr obj ?_ ?_ ?_ ?_ ?_
  · intro x hx
    cases hx
  · intro x xs hx hxs y hy
    rcases List.mem_cons.mp hy with rfl | hy
    · exact hx
    · exact hxs y hy
  · intro p hp
    cases hp
  · intro p ms hp hms q hq
    rcases List.mem_cons.mp hq with rfl | hq
    · exact hp
    · exact hms q hq
  · intro k v hv
    exact hv

/-! ## Own keys -/

/-- The value of an array-index key: a canonical numeral below 2³² − 1. -/
def arrayIndex? (k : JsString) : Option Nat :=
  let n := k.foldl (fun n c => n * 10 + (c.toNat - 48)) 0
  if k ≠ [] ∧ k.all isDigit = true ∧ (k = [48] ∨ k.head? ≠ some 48) ∧ n < 4294967295 then some n
  else none

/-- Array-index keys come first, in numeric order; the others keep their order of creation. -/
def mustPrecede (a b : JsString) : Bool :=
  match arrayIndex? a, arrayIndex? b with
  | some i, some j => i < j
  | some _, none => true
  | none, _ => false

def Members.keys (ms : Members ν) : List JsString := ms.map Prod.fst

/-- Own keys are distinct and stand in own-key order. -/
def OrderedKeys (ms : Members ν) : Prop :=
  ms.keys.Nodup ∧ ms.keys.Pairwise fun a b => mustPrecede b a = false

instance (ms : Members ν) : Decidable (OrderedKeys ms) := by unfold OrderedKeys; infer_instance

/-- `CreateDataProperty`: the key keeps its place, or takes its place in own-key order. -/
def Members.set : Members ν → JsString → Json ν → Members ν
  | [], k, v => [(k, v)]
  | (k', v') :: ms, k, v =>
    if k' = k then (k, v) :: ms
    else if mustPrecede k k' then (k, v) :: (k', v') :: ms
    else (k', v') :: Members.set ms k v

/-- The members of an object created by setting properties one after another. -/
def Members.create (ps : Members ν) : Members ν := ps.foldl (fun ms p => Members.set ms p.1 p.2) []

/-- The properties set one after another on an object. -/
def Members.setAll (ms ps : Members ν) : Members ν := ps.foldl (fun ms p => Members.set ms p.1 p.2) ms

theorem mem_keys_set (ms : Members ν) (k : JsString) (v : Json ν) (a : JsString) :
    a ∈ (Members.set ms k v).keys ↔ a = k ∨ a ∈ ms.keys := by
  induction ms with
  | nil => simp [Members.set, Members.keys]
  | cons p ms ih =>
    obtain ⟨k', v'⟩ := p
    simp only [Members.keys] at ih
    simp only [Members.set, Members.keys]
    split_ifs with h1 h2
    · subst h1
      simp
    · simp
    · simp only [List.map_cons, List.mem_cons, ih]
      tauto

theorem mustPrecede_trans {a b c : JsString} (h1 : mustPrecede a b = true)
    (h2 : mustPrecede c b = false) : mustPrecede a c = true := by
  unfold mustPrecede at *
  cases ha : arrayIndex? a <;> cases hb : arrayIndex? b <;> cases hc : arrayIndex? c <;>
    simp_all
  omega

theorem mustPrecede_asymm {a b : JsString} (h : mustPrecede a b = true) :
    mustPrecede b a = false := by
  unfold mustPrecede at *
  cases ha : arrayIndex? a <;> cases hb : arrayIndex? b <;> simp_all
  omega

theorem OrderedKeys.set {ms : Members ν} (h : OrderedKeys ms) (k : JsString) (v : Json ν) :
    OrderedKeys (ms.set k v) := by
  induction ms with
  | nil => simp [OrderedKeys, Members.set, Members.keys]
  | cons p ms ih =>
    obtain ⟨k', v'⟩ := p
    obtain ⟨hn, hp⟩ := h
    simp only [Members.keys, List.map_cons, List.nodup_cons, List.pairwise_cons] at hn hp
    have ih := ih ⟨hn.2, hp.2⟩
    unfold Members.set
    split_ifs with h1 h2
    · subst h1
      exact ⟨by simpa [Members.keys] using hn, by simpa [Members.keys] using hp⟩
    · have hlt : ∀ a ∈ (k' :: ms.map Prod.fst), mustPrecede k a = true := by
        intro a ha
        rcases List.mem_cons.mp ha with rfl | ha
        · exact h2
        · exact mustPrecede_trans h2 (hp.1 a ha)
      refine ⟨?_, ?_⟩
      · simp only [Members.keys, List.map_cons, List.nodup_cons]
        refine ⟨?_, hn⟩
        intro hk
        have hkk := hlt k hk
        rw [mustPrecede_asymm hkk] at hkk
        cases hkk
      · simp only [Members.keys, List.map_cons, List.pairwise_cons]
        exact ⟨fun a ha => mustPrecede_asymm (hlt a ha), hp⟩
    · refine ⟨?_, ?_⟩
      · simp only [Members.keys, List.map_cons, List.nodup_cons]
        refine ⟨?_, ih.1⟩
        intro hk
        rcases (mem_keys_set ms k v k').mp hk with rfl | hk
        · exact h1 rfl
        · exact hn.1 hk
      · simp only [Members.keys, List.map_cons, List.pairwise_cons]
        refine ⟨?_, ih.2⟩
        intro a ha
        rcases (mem_keys_set ms k v a).mp ha with rfl | ha
        · simpa using h2
        · exact hp.1 a ha

/-- A new key adds one member. -/
theorem Members.set_perm {ms : Members ν} {k : JsString} (hk : k ∉ ms.keys) (v : Json ν) :
    (ms.set k v).Perm ((k, v) :: ms) := by
  induction ms with
  | nil => exact List.Perm.refl _
  | cons p ms ih =>
    obtain ⟨k', v'⟩ := p
    simp only [Members.keys, List.map_cons, List.mem_cons, not_or] at hk
    have hne : ¬k' = k := fun e => hk.1 e.symm
    unfold Members.set
    rw [if_neg hne]
    split_ifs with h2
    · exact List.Perm.refl _
    · exact ((ih hk.2).cons _).trans (List.Perm.swap _ _ _)

/-- A key that belongs after every other one is appended. -/
theorem Members.set_append {ms : Members ν} {k : JsString} (hk : k ∉ ms.keys)
    (hl : ∀ a ∈ ms.keys, mustPrecede k a = false) (v : Json ν) : ms.set k v = ms ++ [(k, v)] := by
  induction ms with
  | nil => rfl
  | cons p ms ih =>
    obtain ⟨k', v'⟩ := p
    simp only [Members.keys, List.map_cons, List.mem_cons, not_or] at hk
    have hne : ¬k' = k := fun e => hk.1 e.symm
    have h0 := hl k' (by simp [Members.keys])
    unfold Members.set
    rw [if_neg hne, h0, ih hk.2 (fun a ha => hl a (by simp [Members.keys] at ha ⊢; tauto))]
    rfl

theorem Members.lookup_set (ms : Members ν) (k : JsString) (v : Json ν) (k' : JsString) :
    (ms.set k v).lookup k' = if k' = k then some v else ms.lookup k' := by
  induction ms with
  | nil =>
    by_cases h : k' = k
    · simp [Members.set, h]
    · simp [Members.set, List.lookup_cons, h, beq_eq_false_iff_ne.mpr h]
  | cons p ms ih =>
    obtain ⟨a, w⟩ := p
    unfold Members.set
    split_ifs with h1 h2 h3 h2 h2
    · subst h1
      subst h2
      simp
    · subst h1
      rw [List.lookup_cons, List.lookup_cons]
      simp [beq_eq_false_iff_ne.mpr h2]
    · subst h2
      simp
    · rw [List.lookup_cons]
      simp [beq_eq_false_iff_ne.mpr h2]
    · subst h2
      have hne : ¬k' = a := fun e => h1 e.symm
      rw [List.lookup_cons]
      simp [beq_eq_false_iff_ne.mpr hne, ih]
    · rw [List.lookup_cons, List.lookup_cons, ih, if_neg h2]

theorem Members.lookup_setAll (ms : Members ν) {ps : Members ν} (hn : ps.keys.Nodup)
    (k : JsString) : (ms.setAll ps).lookup k = (ps.lookup k).or (ms.lookup k) := by
  induction ps generalizing ms with
  | nil => rfl
  | cons p ps ih =>
    obtain ⟨a, w⟩ := p
    simp only [Members.keys, List.map_cons, List.nodup_cons] at hn
    have e : ms.setAll ((a, w) :: ps) = (ms.set a w).setAll ps := rfl
    rw [e, ih _ hn.2, Members.lookup_set, List.lookup_cons]
    by_cases h : k = a
    · subst h
      have hnone : ps.lookup k = none := by
        rw [List.lookup_eq_none_iff]
        intro p hp
        have hne : ¬k = p.1 := fun e => hn.1 (e ▸ List.mem_map_of_mem hp)
        simpa using hne
      simp [hnone]
    · simp [h, beq_eq_false_iff_ne.mpr h]

theorem Members.create_append (ps : Members ν) (p : JsString × Json ν) :
    Members.create (ps ++ [p]) = (Members.create ps).set p.1 p.2 := by
  simp [Members.create, List.foldl_append]

theorem OrderedKeys.create (ps : Members ν) : OrderedKeys (Members.create ps) := by
  induction ps using List.reverseRecOn with
  | nil => simp [OrderedKeys, Members.create, Members.keys]
  | append_singleton ps p ih =>
    rw [Members.create_append]
    exact ih.set p.1 p.2

theorem mem_keys_create (ps : Members ν) (a : JsString) :
    a ∈ (Members.create ps).keys ↔ a ∈ ps.keys := by
  induction ps using List.reverseRecOn with
  | nil => simp [Members.create, Members.keys]
  | append_singleton ps p ih =>
    rw [Members.create_append, mem_keys_set, ih]
    simp only [Members.keys, List.map_append, List.map_cons, List.map_nil, List.mem_append,
      List.mem_singleton]
    tauto

/-- Creating distinct keys reorders them and loses none. -/
theorem Members.create_perm {ps : Members ν} (h : ps.keys.Nodup) : (Members.create ps).Perm ps := by
  induction ps using List.reverseRecOn with
  | nil => exact List.Perm.refl _
  | append_singleton ps p ih =>
    simp only [Members.keys, List.map_append, List.map_cons, List.map_nil] at h
    obtain ⟨h1, -, h3⟩ := List.nodup_append.mp h
    have hp : p.1 ∉ (Members.create ps).keys := by
      rw [mem_keys_create]
      intro hm
      exact h3 p.1 hm p.1 (by simp) rfl
    rw [Members.create_append]
    refine (Members.set_perm hp p.2).trans ?_
    exact ((ih h1).cons _).trans (List.perm_append_singleton _ _).symm

/-- Members already in own-key order are created as they stand. -/
theorem Members.create_of_ordered {ps : Members ν} (h : OrderedKeys ps) :
    Members.create ps = ps := by
  induction ps using List.reverseRecOn with
  | nil => rfl
  | append_singleton ps p ih =>
    obtain ⟨hn, hp⟩ := h
    simp only [Members.keys, List.map_append, List.map_cons, List.map_nil] at hn hp
    obtain ⟨h1, -, h3⟩ := List.nodup_append.mp hn
    obtain ⟨p1, -, p3⟩ := List.pairwise_append.mp hp
    rw [Members.create_append, ih ⟨h1, p1⟩, Members.set_append]
    · intro hm
      exact h3 p.1 hm p.1 (by simp) rfl
    · intro a ha
      exact p3 a ha p.1 (by simp)

/-! ## JSON values -/

variable [JsNumber ν]

mutual
/-- A JSON value: its numbers are finite and the own keys of its objects are in order. -/
def Json.IsJson : Json ν → Prop
  | .null | .bool _ | .str _ => True
  | .num n => JsNumber.isFinite n = true
  | .arr xs => elemsIsJson xs
  | .obj ms => OrderedKeys ms ∧ membersIsJson ms

def elemsIsJson : List (Json ν) → Prop
  | [] => True
  | x :: xs => x.IsJson ∧ elemsIsJson xs

def membersIsJson : Members ν → Prop
  | [] => True
  | (_, v) :: ms => v.IsJson ∧ membersIsJson ms
end

theorem elemsIsJson_iff (xs : List (Json ν)) : elemsIsJson xs ↔ ∀ x ∈ xs, x.IsJson := by
  induction xs with
  | nil => simp [elemsIsJson]
  | cons x xs ih => simp [elemsIsJson, ih]

theorem membersIsJson_iff (ms : Members ν) : membersIsJson ms ↔ ∀ p ∈ ms, p.2.IsJson := by
  induction ms with
  | nil => simp [membersIsJson]
  | cons p ms ih => simp [membersIsJson, ih]

mutual
/-- No number of the value is infinite. -/
def Json.finite : Json ν → Bool
  | .null | .bool _ | .str _ => true
  | .num n => JsNumber.isFinite n
  | .arr xs => elemsFinite xs
  | .obj ms => membersFinite ms

def elemsFinite : List (Json ν) → Bool
  | [] => true
  | x :: xs => x.finite && elemsFinite xs

def membersFinite : Members ν → Bool
  | [] => true
  | (_, v) :: ms => v.finite && membersFinite ms
end

mutual
/-- The own keys of every object are in order, as the language keeps them. -/
def Json.Ordered : Json ν → Prop
  | .null | .bool _ | .str _ | .num _ => True
  | .arr xs => elemsOrdered xs
  | .obj ms => OrderedKeys ms ∧ membersOrdered ms

def elemsOrdered : List (Json ν) → Prop
  | [] => True
  | x :: xs => x.Ordered ∧ elemsOrdered xs

def membersOrdered : Members ν → Prop
  | [] => True
  | (_, v) :: ms => v.Ordered ∧ membersOrdered ms
end

omit [JsNumber ν] in
theorem elemsOrdered_iff (xs : List (Json ν)) : elemsOrdered xs ↔ ∀ x ∈ xs, x.Ordered := by
  induction xs with
  | nil => simp [elemsOrdered]
  | cons x xs ih => simp [elemsOrdered, ih]

omit [JsNumber ν] in
theorem membersOrdered_iff (ms : Members ν) : membersOrdered ms ↔ ∀ p ∈ ms, p.2.Ordered := by
  induction ms with
  | nil => simp [membersOrdered]
  | cons p ms ih => simp [membersOrdered, ih]

theorem elemsFinite_iff (xs : List (Json ν)) : elemsFinite xs = true ↔ ∀ x ∈ xs, x.finite = true := by
  induction xs with
  | nil => simp [elemsFinite]
  | cons x xs ih => simp [elemsFinite, ih]

theorem membersFinite_iff (ms : Members ν) :
    membersFinite ms = true ↔ ∀ p ∈ ms, p.2.finite = true := by
  induction ms with
  | nil => simp [membersFinite]
  | cons p ms ih => simp [membersFinite, ih]

theorem Json.isJson_iff (v : Json ν) : v.IsJson ↔ v.Ordered ∧ v.finite = true := by
  induction v using Json.ind with
  | null | bool | str => simp [Json.IsJson, Json.Ordered, Json.finite]
  | num n => simp [Json.IsJson, Json.Ordered, Json.finite]
  | arr xs ih =>
    simp only [Json.IsJson, Json.Ordered, Json.finite, elemsIsJson_iff, elemsOrdered_iff,
      elemsFinite_iff]
    constructor
    · intro h
      exact ⟨fun x hx => ((ih x hx).mp (h x hx)).1, fun x hx => ((ih x hx).mp (h x hx)).2⟩
    · intro h x hx
      exact (ih x hx).mpr ⟨h.1 x hx, h.2 x hx⟩
  | obj ms ih =>
    simp only [Json.IsJson, Json.Ordered, Json.finite, membersIsJson_iff, membersOrdered_iff,
      membersFinite_iff]
    constructor
    · intro h
      exact ⟨⟨h.1, fun p hp => ((ih p hp).mp (h.2 p hp)).1⟩, fun p hp => ((ih p hp).mp (h.2 p hp)).2⟩
    · intro h
      exact ⟨h.1.1, fun p hp => (ih p hp).mpr ⟨h.1.2 p hp, h.2 p hp⟩⟩

omit [JsNumber ν] in
theorem Members.mem_lookup {ms : Members ν} {k : JsString} {v : Json ν}
    (h : ms.lookup k = some v) : (k, v) ∈ ms := by
  induction ms with
  | nil => simp at h
  | cons p ms ih =>
    obtain ⟨k', v'⟩ := p
    rw [List.lookup_cons] at h
    by_cases hk : k = k'
    · subst hk
      simp at h
      simp [h]
    · simp only [beq_eq_false_iff_ne.mpr hk] at h
      exact List.mem_cons_of_mem _ (ih h)

/-- `value?.[key]`; `none` is `undefined`. -/
def Json.get? (v : Json ν) (k : JsString) : Option (Json ν) :=
  match v with
  | .obj ms => ms.lookup k
  | _ => none

/-- `value === s` for a string `s`. -/
def eqStr (value : Option (Json ν)) (s : JsString) : Bool :=
  match value with
  | some (.str t) => decide (t = s)
  | _ => false

/-- `value === n` for a number `n`. -/
def eqNum (value : Option (Json ν)) (n : ν) : Bool :=
  match value with
  | some (.num m) => decide (m = n)
  | _ => false

/-- `value === true` -/
def eqTrue (value : Option (Json ν)) : Bool :=
  match value with
  | some (.bool b) => b
  | _ => false

omit [JsNumber ν] in
theorem eqStr_iff {value : Option (Json ν)} {s : JsString} :
    eqStr value s = true ↔ value = some (.str s) := by
  cases value with
  | none => simp [eqStr]
  | some v => cases v <;> simp [eqStr]

theorem eqNum_iff {value : Option (Json ν)} {n : ν} :
    eqNum value n = true ↔ value = some (.num n) := by
  cases value with
  | none => simp [eqNum]
  | some v => cases v <;> simp [eqNum]

omit [JsNumber ν] in
theorem eqTrue_iff {value : Option (Json ν)} : eqTrue value = true ↔ value = some (.bool true) := by
  cases value with
  | none => simp [eqTrue]
  | some v => cases v <;> simp [eqTrue]

/-! ## Equality up to key order -/

/-- The order of UTF-16 code units, key by key. -/
def keyLe (p q : JsString × Json ν) : Bool := decide (p.1.map UInt16.toNat ≤ q.1.map UInt16.toNat)

mutual
/-- The value with the keys of all its objects sorted. -/
def Json.sortKeys : Json ν → Json ν
  | .null => .null
  | .bool b => .bool b
  | .num n => .num n
  | .str s => .str s
  | .arr xs => .arr (sortElems xs)
  | .obj ms => .obj ((sortMembers ms).mergeSort keyLe)

def sortElems : List (Json ν) → List (Json ν)
  | [] => []
  | x :: xs => x.sortKeys :: sortElems xs

def sortMembers : Members ν → Members ν
  | [] => []
  | (k, v) :: ms => (k, v.sortKeys) :: sortMembers ms
end

/-- Two values are the same up to the order of the keys of their objects. -/
def Json.Same (v w : Json ν) : Prop := v.sortKeys = w.sortKeys

omit [JsNumber ν]

theorem sortElems_eq_map (xs : List (Json ν)) : sortElems xs = xs.map Json.sortKeys := by
  induction xs with
  | nil => rfl
  | cons x xs ih => rw [sortElems, ih, List.map_cons]

theorem sortMembers_eq_map (ms : Members ν) :
    sortMembers ms = ms.map fun p => (p.1, p.2.sortKeys) := by
  induction ms with
  | nil => rfl
  | cons p ms ih => rw [sortMembers, ih, List.map_cons]

theorem keyLe_trans (p q r : JsString × Json ν) (h1 : keyLe p q = true) (h2 : keyLe q r = true) :
    keyLe p r = true := by
  simp only [keyLe, decide_eq_true_eq] at *
  exact le_trans h1 h2

theorem keyLe_total (p q : JsString × Json ν) : (keyLe p q || keyLe q p) = true := by
  simp only [keyLe, Bool.or_eq_true, decide_eq_true_eq]
  exact le_total _ _

theorem keyLe_antisymm {p q : JsString × Json ν} (h1 : keyLe p q = true) (h2 : keyLe q p = true) :
    p.1 = q.1 := by
  simp only [keyLe, decide_eq_true_eq] at h1 h2
  have h := le_antisymm h1 h2
  exact List.map_injective_iff.mpr (fun _ _ => UInt16.toNat_inj.mp) h

theorem Members.eq_of_mem {ms : Members ν} (hn : ms.keys.Nodup) {p q : JsString × Json ν}
    (hp : p ∈ ms) (hq : q ∈ ms) (h : p.1 = q.1) : p = q :=
  List.inj_on_of_nodup_map hn hp hq h

/-- The order in which distinct keys stand does not reach the sorted object. -/
theorem mergeSort_keyLe_perm {ms ms' : Members ν} (hn : ms.keys.Nodup) (h : ms.Perm ms') :
    ms.mergeSort keyLe = ms'.mergeSort keyLe := by
  refine List.Perm.eq_of_pairwise ?_ (List.pairwise_mergeSort keyLe_trans keyLe_total ms)
    (List.pairwise_mergeSort keyLe_trans keyLe_total ms') ?_
  · intro p q hp hq h1 h2
    have hp := List.mem_mergeSort.mp hp
    have hq := h.mem_iff.mpr (List.mem_mergeSort.mp hq)
    exact Members.eq_of_mem hn hp hq (keyLe_antisymm h1 h2)
  · exact (List.mergeSort_perm ms _).trans (h.trans (List.mergeSort_perm ms' _).symm)

theorem Members.keys_map (ms : Members ν) (f : Json ν → Json ν) :
    Members.keys (ms.map fun p => (p.1, f p.2)) = ms.keys := by
  simp [Members.keys, Function.comp_def]

/-- Reordering an object's members leaves it the same. -/
theorem Json.same_of_perm {ms ms' : Members ν} (hn : ms.keys.Nodup) (h : ms.Perm ms') :
    (Json.obj ms).Same (.obj ms') := by
  unfold Json.Same
  rw [Json.sortKeys, Json.sortKeys, sortMembers_eq_map, sortMembers_eq_map]
  rw [mergeSort_keyLe_perm (by rw [Members.keys_map]; exact hn) (h.map _)]

/-- Distinct keys: the lookup is the member. -/
theorem Members.lookup_eq_some_iff {ms : Members ν} (hn : ms.keys.Nodup) (k : JsString)
    (v : Json ν) : ms.lookup k = some v ↔ (k, v) ∈ ms := by
  constructor
  · exact Members.mem_lookup
  · intro h
    cases e : ms.lookup k with
    | none =>
      have hk := List.lookup_eq_none_iff.mp e (k, v) h
      simp at hk
    | some w =>
      have hw := Members.mem_lookup e
      have hvw := Members.eq_of_mem hn h hw rfl
      rw [(Prod.mk.inj hvw).2]

theorem Members.lookup_perm {ms ms' : Members ν} (hn : ms.keys.Nodup) (h : ms.Perm ms')
    (k : JsString) : ms.lookup k = ms'.lookup k := by
  have hn' : ms'.keys.Nodup := (h.map Prod.fst).nodup_iff.mp hn
  apply Option.ext
  intro v
  rw [Members.lookup_eq_some_iff hn, Members.lookup_eq_some_iff hn', h.mem_iff]

theorem Members.lookup_map (ms : Members ν) (f : Json ν → Json ν) (k : JsString) :
    (ms.map fun p => (p.1, f p.2)).lookup k = (ms.lookup k).map f := by
  induction ms with
  | nil => rfl
  | cons p ms ih =>
    obtain ⟨k', v⟩ := p
    rw [List.map_cons, List.lookup_cons, List.lookup_cons]
    cases k == k' with
    | true => rfl
    | false => exact ih

theorem Members.lookup_filter (ms : Members ν) (keep : JsString → Bool) (k : JsString) :
    (ms.filter fun p => keep p.1).lookup k = if keep k then ms.lookup k else none := by
  induction ms with
  | nil => simp
  | cons p ms ih =>
    obtain ⟨k', v⟩ := p
    rw [List.filter_cons]
    by_cases hk : k = k'
    · subst hk
      cases hkeep : keep k with
      | true => simp
      | false => simpa [hkeep] using ih
    · have hskip : ∀ rest : Members ν, List.lookup k ((k', v) :: rest) = List.lookup k rest := by
        intro rest
        rw [List.lookup_cons, beq_eq_false_iff_ne.mpr hk]
      rw [hskip ms, ← ih]
      split_ifs
      · exact hskip _
      · rfl

end Adlc.Framework
