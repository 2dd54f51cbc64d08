import Adlc.Framework.JsonPath
import Adlc.Framework.JsonWritten
import Adlc.Framework.Latest
import Adlc.Framework.Paths
import Adlc.RailsGuard.Version

namespace Adlc.RailsGuard

open Adlc.Framework

variable {ν : Type} [JsNumber ν]

/-! ## Manifests -/

inductive ManifestKind where
  | package | plugin | marketplace
  deriving DecidableEq

def MANIFEST_BASENAMES : List (JsString × ManifestKind) :=
  [(js "package.json", .package), (js "plugin.json", .plugin), (js "marketplace.json", .marketplace)]

def DEP_FIELDS : List JsString :=
  [js "dependencies", js "devDependencies", js "peerDependencies", js "optionalDependencies"]

/-- `none` for a file that is no string. -/
def manifestKind (file : Option JsString) : Option ManifestKind :=
  file.bind fun file => MANIFEST_BASENAMES.lookup ((file.splitOn slash).getLastD [])

def parseCanonical (text : Option JsString) : Option (Json ν) :=
  text.bind fun text =>
    if utf8Decode (utf8Encode text) ≠ text then none
    else
      match parseJson text with
      | some (.obj members) =>
        if stringify2 (.obj members : Json ν) ++ [10] = text then some (.obj members) else none
      | _ => none

/-! ## Paths -/

/-- The key under which `walk` records a container (`K`) or a leaf (`V`). -/
def walkKey (mark : UInt16) (path : List JsString) : JsString :=
  mark :: stringify (.arr (path.map .str) : Json ν)

/-- `JSON.stringify([kind, keys])` -/
def containerRecord (kind : JsString) (keys : List JsString) : JsString :=
  stringify (.arr [.str kind, .arr (keys.map .str)] : Json ν)

mutual
/-- What `walk(value, path, out)` sets, in order. -/
def walk : List JsString → Json ν → List (JsString × JsString)
  | path, .arr xs =>
    (walkKey (ν := ν) 75 path, containerRecord (ν := ν) (js "A") (Json.arr xs).children.keys) ::
      walkElems path 0 xs
  | path, .obj ms =>
    (walkKey (ν := ν) 75 path, containerRecord (ν := ν) (js "O") (Members.keys ms)) ::
      walkMembers path ms
  | path, v => [(walkKey (ν := ν) 86 path, stringify v)]

def walkElems (path : List JsString) : Nat → List (Json ν) → List (JsString × JsString)
  | _, [] => []
  | i, x :: xs => walk (path ++ [natText i]) x ++ walkElems path (i + 1) xs

def walkMembers (path : List JsString) : Members ν → List (JsString × JsString)
  | [] => []
  | (k, v) :: ms => walk (path ++ [k]) v ++ walkMembers path ms
end

/-- `JSON.parse(key.slice(1))` -/
def pathOf (ν : Type) [JsNumber ν] (key : JsString) : List JsString :=
  match (parseJson key.tail : Option (Json ν)) with
  | some (.arr xs) => xs.filterMap fun x => match x with | .str s => some s | _ => none
  | _ => []

def isPackageVersionPath (path : List JsString) : Bool := decide (path = [js "version"])

def hasPlugins (doc : Json ν) : Bool :=
  match doc.get? (js "plugins") with
  | some (.arr _) => true
  | _ => false

def isMarketplaceVersionPath (path : List JsString) (before after : Json ν) : Bool :=
  decide (path = [js "metadata", js "version"]) ||
    match path with
    | [field, index, leaf] =>
      decide (field = js "plugins" ∧ leaf = js "version" ∧ index ≠ []) && index.all isDigit &&
        hasPlugins before && hasPlugins after
    | _ => false

/-- `/^@adlc\/[a-z0-9][a-z0-9._-]*$/` -/
def isAdlcPkg (name : JsString) : Bool :=
  let lower := fun c : UInt16 => isDigit c || (97 ≤ c.toNat && c.toNat ≤ 122)
  (js "@adlc/").isPrefixOf name &&
    match name.drop 6 with
    | [] => false
    | c :: rest => lower c && rest.all fun d => lower d || d == 46 || d == 95 || d == 45

def isAdlcRangePath (path : List JsString) : Bool :=
  match path with
  | [field, name] => decide (field ∈ DEP_FIELDS) && isAdlcPkg name
  | _ => false

/-! ## The comparison -/

def versionValue (value : Option (Json ν)) : Bool :=
  match value with
  | some (.str s) => isVersion s
  | _ => false

def rangeValue (value : Option (Json ν)) : Option Range :=
  match value with
  | some (.str s) => splitRange s
  | _ => none

/-- What one pass of the loop finds under a key. -/
inductive Change where
  | same
  | packageVersion
  | otherVersion
  | repin (old new : Range)
  deriving DecidableEq

/-- One pass of the loop; `none` is `return false`. No key is set twice in a map. -/
def changeAt (kind : ManifestKind) (before after : Json ν) (key : JsString) : Option Change :=
  if (walk [] before).lookup key = (walk [] after).lookup key then some .same
  else if key.head? = some 75 then none
  else
    let path := pathOf ν key
    let old := before.at? path
    let new := after.at? path
    if isPackageVersionPath path || (kind = .marketplace && isMarketplaceVersionPath path before after) then
      if !versionValue old || !versionValue new then none
      else if isPackageVersionPath path then some .packageVersion
      else some .otherVersion
    else if isAdlcRangePath path then
      match rangeValue old, rangeValue new with
      | some r, some r' => if r.operator = r'.operator then some (.repin r r') else none
      | _, _ => none
    else none

/-- Every internal range of the manifest carries the version. -/
def rangesCarry (root : Json ν) (expected : Option (Json ν)) : Bool :=
  DEP_FIELDS.all fun field =>
    match root.get? field with
    | none => true
    | some (.obj deps) => deps.all fun dep =>
      !isAdlcPkg dep.1 ||
        match rangeValue (some dep.2) with
        | some r => eqStr expected r.version
        | none => false
    | some _ => false

def sameString : Option (Json ν) → Option (Json ν) → Bool
  | some (.str s), some (.str t) => decide (s = t)
  | _, _ => false

def repinsOf (changes : List Change) : List (Range × Range) :=
  changes.filterMap fun change =>
    match change with
    | .repin r r' => some (r, r')
    | _ => none

def isVersionOnlyChange (ν : Type) [JsNumber ν] (beforeText afterText file : Option JsString) : Bool :=
  match manifestKind file with
  | none => false
  | some kind =>
    match (parseCanonical beforeText : Option (Json ν)), (parseCanonical afterText : Option (Json ν)) with
    | some before, some after =>
      let keys := firstSeen ((walk [] before).map Prod.fst ++ (walk [] after).map Prod.fst)
      let oldVersion := before.get? (js "version")
      let newVersion := after.get? (js "version")
      match keys.mapM (changeAt kind before after) with
      | none => false
      | some changes =>
        let versionChanged := decide (Change.packageVersion ∈ changes)
        let complete := versionValue oldVersion && versionValue newVersion &&
          rangesCarry before oldVersion && rangesCarry after newVersion
        if versionChanged && !complete then false
        else if repinsOf changes = [] then true
        else
          versionValue oldVersion && versionValue newVersion && versionChanged &&
            !sameString oldVersion newVersion &&
            (repinsOf changes).all fun r => eqStr oldVersion r.1.version && eqStr newVersion r.2.version
    | _, _ => false

/-! ## What the exemption should allow -/

/-- A path whose string may change. -/
def eligiblePath (kind : ManifestKind) (doc : Json ν) (path : List JsString) : Bool :=
  isPackageVersionPath path || (kind = .marketplace && isMarketplaceVersionPath path doc doc) ||
    isAdlcRangePath path

/-- The text of the manifest with `t` for every string at an eligible path. -/
def replacedText (kind : ManifestKind) (doc : Json ν) (t : JsString) : JsString :=
  stringify2 (doc.fill (eligiblePath kind doc) t []) ++ [10]

/-- The manifest declares a version, and all its internal ranges carry it. -/
def Lockstep (doc : Json ν) : Prop :=
  ∃ version, doc.get? (js "version") = some (.str version) ∧ ValidVersion version ∧
    ∀ field ∈ DEP_FIELDS, ∀ name range, isAdlcPkg name = true → doc.at? [field, name] = some range →
      ∃ operator ∈ [[], js "^", js "~"], range = .str (operator ++ version)

structure VersionOnly (kind : ManifestKind) (before after : Json ν) : Prop where
  replaced : ∀ t, replacedText kind before t = replacedText kind after t
  versions : ∀ path s s', eligiblePath kind before path = true → isAdlcRangePath path = false →
    before.at? path = some (.str s) → after.at? path = some (.str s') → s ≠ s' →
    ValidVersion s ∧ ValidVersion s'
  ranges : ∀ path s s', isAdlcRangePath path = true → before.at? path = some (.str s) →
    after.at? path = some (.str s') → s ≠ s' →
    ∃ operator ∈ [[], js "^", js "~"], ∃ version version',
      ValidVersion version ∧ ValidVersion version' ∧ s = operator ++ version ∧ s' = operator ++ version'
  lockstep : (before.get? (js "version") ≠ after.get? (js "version") ∨
      ∃ path, isAdlcRangePath path = true ∧ before.at? path ≠ after.at? path) →
    Lockstep before ∧ Lockstep after

/-! ## Canonical texts -/

theorem parseCanonical_eq_some {text : Option JsString} {v : Json ν} (h : parseCanonical text = some v) :
    text = some (stringify2 v ++ [10]) ∧ v.IsJson ∧ ∃ members, v = .obj members := by
  cases text with
  | none => cases h
  | some text =>
    rw [parseCanonical, Option.bind_some] at h
    split_ifs at h with hutf
    cases hparse : (parseJson text : Option (Json ν)) with
    | none =>
      rw [hparse] at h
      cases h
    | some doc =>
      rw [hparse] at h
      cases doc with
      | obj members =>
        dsimp only at h
        split_ifs at h with hcanonical
        obtain rfl := Option.some.inj h
        have hordered := parseJson_ordered hparse
        have hjson := Json.asWritten_isJson hordered
        -- the text is also that of the written form, which holds no number that is not finite
        have hwritten : stringify2 (Json.obj members).asWritten ++ [10] = text := by
          rw [← hcanonical, stringify2, stringify2, write_asWritten]
        have hback : (parseJson text : Option (Json ν)) = some (Json.obj members).asWritten := by
          rw [← hwritten]
          exact parseJson_write spaces_two (forall_mem_of_all (by decide)) hjson
        rw [hback] at hparse
        rw [Option.some.inj hparse] at hjson
        exact ⟨congrArg some hcanonical.symm, hjson, members, rfl⟩
      | _ => cases h

/-! ## The records of a walk -/

theorem pathJson_isJson (path : List JsString) : (Json.arr (path.map .str) : Json ν).IsJson := by
  rw [Json.IsJson, elemsIsJson_iff]
  intro x hx
  obtain ⟨s, -, rfl⟩ := List.mem_map.mp hx
  trivial

omit [JsNumber ν] in
theorem str_map_injective {p q : List JsString}
    (h : (p.map Json.str : List (Json ν)) = q.map Json.str) : p = q :=
  List.map_injective_iff.mpr (fun _ _ e => Json.str.inj e) h

theorem walkKey_inj {m m' : UInt16} {p p' : List JsString}
    (h : walkKey (ν := ν) m p = walkKey (ν := ν) m' p') : m = m' ∧ p = p' := by
  obtain ⟨hm, hp⟩ := List.cons.inj h
  have hpath := stringify_injective (pathJson_isJson p) (pathJson_isJson p') hp
  exact ⟨hm, str_map_injective (Json.arr.inj hpath)⟩

theorem pathOf_walkKey (m : UInt16) (path : List JsString) :
    pathOf ν (walkKey (ν := ν) m path) = path := by
  rw [pathOf, walkKey, List.tail_cons, parseJson_stringify (pathJson_isJson path)]
  induction path with
  | nil => rfl
  | cons k path ih => simp

/-- The record that the walk sets for a node. -/
def recordOf (path : List JsString) (v : Json ν) : JsString × JsString :=
  match v.shape with
  | some (isArray, keys) =>
    (walkKey (ν := ν) 75 path, containerRecord (ν := ν) (if isArray then js "A" else js "O") keys)
  | none => (walkKey (ν := ν) 86 path, stringify v)

theorem containerRecord_inj {a b : Bool} {keys keys' : List JsString}
    (h : containerRecord (ν := ν) (if a then js "A" else js "O") keys =
      containerRecord (ν := ν) (if b then js "A" else js "O") keys') : a = b ∧ keys = keys' := by
  have hjson : ∀ (kind : JsString) (ks : List JsString),
      (Json.arr [.str kind, .arr (ks.map .str)] : Json ν).IsJson := by
    intro kind ks
    rw [Json.IsJson, elemsIsJson_iff]
    intro x hx
    obtain rfl | hx := List.mem_cons.mp hx
    · trivial
    · rw [List.mem_singleton.mp hx]
      exact pathJson_isJson ks
  have heq := Json.arr.inj (stringify_injective (hjson _ _) (hjson _ _) h)
  obtain ⟨hkind, hrest⟩ := List.cons.inj heq
  refine ⟨?_, str_map_injective (Json.arr.inj (List.cons.inj hrest).1)⟩
  have hkind := Json.str.inj hkind
  cases a <;> cases b <;> first | rfl | exact absurd hkind (by decide)

theorem walkElems_eq (path : List JsString) (xs : List (Json ν)) : ∀ i, walkElems path i xs =
    (xs.zipIdx i).flatMap fun q => walk (path ++ [natText q.2]) q.1 := by
  induction xs with
  | nil => exact fun i => rfl
  | cons x xs ih =>
    intro i
    rw [walkElems, ih, List.zipIdx_cons, List.flatMap_cons]

theorem walkMembers_eq (path : List JsString) (ms : Members ν) :
    walkMembers path ms = ms.flatMap fun q => walk (path ++ [q.1]) q.2 := by
  induction ms with
  | nil => rfl
  | cons q ms ih =>
    obtain ⟨k, v⟩ := q
    rw [walkMembers, ih, List.flatMap_cons]

/-- The walk of a value: its own record, and the walks of its children. -/
theorem walk_eq (path : List JsString) (v : Json ν) :
    walk path v = recordOf path v :: v.children.flatMap fun q => walk (path ++ [q.1]) q.2 := by
  cases v with
  | arr xs =>
    rw [walk, walkElems_eq, Json.children, List.flatMap_map]
    rfl
  | obj ms =>
    rw [walk, walkMembers_eq]
    rfl
  | _ => rfl

omit [JsNumber ν] in
theorem children_nodup {v : Json ν} (hv : v.Ordered) : (Members.keys v.children).Nodup := by
  cases v with
  | arr xs =>
    rw [keys_children_arr]
    exact List.Nodup.map (fun _ _ e => natText_inj e) List.nodup_range
  | obj ms => exact hv.1.1
  | _ => exact List.nodup_nil

omit [JsNumber ν] in
theorem children_ordered {v : Json ν} (hv : v.Ordered) : ∀ q ∈ v.children, q.2.Ordered := by
  intro q hq
  cases v with
  | arr xs =>
    rw [Json.Ordered, elemsOrdered_iff] at hv
    obtain ⟨p, hp, rfl⟩ := List.mem_map.mp hq
    exact hv _ (List.fst_mem_of_mem_zipIdx hp)
  | obj ms =>
    rw [Json.Ordered, membersOrdered_iff] at hv
    exact hv.2 q hq
  | _ => cases hq

/-- The walk sets the record of each node under its path, and nothing else. -/
theorem mem_walk (v : Json ν) : v.Ordered → ∀ (path : List JsString) (r : JsString × JsString),
    r ∈ walk path v ↔ ∃ q u, v.at? q = some u ∧ r = recordOf (path ++ q) u := by
  have hstep : ∀ v : Json ν, v.Ordered →
      (∀ c ∈ v.children, ∀ (path : List JsString) (r : JsString × JsString),
        r ∈ walk path c.2 ↔ ∃ q u, c.2.at? q = some u ∧ r = recordOf (path ++ q) u) →
      ∀ (path : List JsString) (r : JsString × JsString),
        r ∈ walk path v ↔ ∃ q u, v.at? q = some u ∧ r = recordOf (path ++ q) u := by
    intro v hv ih path r
    rw [walk_eq, List.mem_cons, List.mem_flatMap]
    constructor
    · intro h
      obtain rfl | ⟨c, hc, hr⟩ := h
      · exact ⟨[], v, rfl, by rw [List.append_nil]⟩
      · obtain ⟨q, u, hu, rfl⟩ := (ih c hc _ r).mp hr
        refine ⟨c.1 :: q, u, ?_, by rw [List.append_assoc]; rfl⟩
        rw [Json.at?, (Members.lookup_eq_some_iff (children_nodup hv) c.1 c.2).mpr hc]
        exact hu
    · intro h
      obtain ⟨q, u, hu, rfl⟩ := h
      cases q with
      | nil =>
        rw [Json.at?] at hu
        rw [Option.some.inj hu, List.append_nil]
        exact Or.inl rfl
      | cons k q =>
        rw [Json.at?] at hu
        cases hchild : v.children.lookup k with
        | none =>
          rw [hchild] at hu
          cases hu
        | some c =>
          rw [hchild] at hu
          have hc := (Members.lookup_eq_some_iff (children_nodup hv) k c).mp hchild
          refine Or.inr ⟨(k, c), hc, (ih (k, c) hc _ _).mpr ⟨q, u, hu, ?_⟩⟩
          rw [List.append_assoc]
          rfl
  induction v using Json.ind with
  | null => exact fun hv => hstep .null hv fun c hc => by cases hc
  | bool b => exact fun hv => hstep (.bool b) hv fun c hc => by cases hc
  | num n => exact fun hv => hstep (.num n) hv fun c hc => by cases hc
  | str s => exact fun hv => hstep (.str s) hv fun c hc => by cases hc
  | arr xs ih =>
    intro hv
    refine hstep (.arr xs) hv ?_
    intro c hc
    have hordered := children_ordered hv c hc
    obtain ⟨p, hp, rfl⟩ := List.mem_map.mp hc
    exact ih p.1 (List.fst_mem_of_mem_zipIdx hp) hordered
  | obj ms ih =>
    intro hv
    refine hstep (.obj ms) hv ?_
    exact fun c hc => ih c hc (children_ordered hv c hc)

theorem recordOf_key (path : List JsString) (v : Json ν) :
    (recordOf path v).1 = walkKey (ν := ν) (if v.shape = none then 86 else 75) path := by
  rw [recordOf]
  cases v.shape with
  | none => rfl
  | some p => rfl

/-- What the map of a walk has for a node. -/
theorem lookup_walk {v u : Json ν} (hv : v.Ordered) {q : List JsString} (hu : v.at? q = some u) :
    (walk [] v).lookup (recordOf q u).1 = some (recordOf q u).2 := by
  have hmem : recordOf q u ∈ walk [] v := (mem_walk v hv [] _).mpr ⟨q, u, hu, rfl⟩
  cases hlookup : (walk [] v).lookup (recordOf q u).1 with
  | none =>
    have hnone := List.lookup_eq_none_iff.mp hlookup _ hmem
    simp at hnone
  | some r =>
    have hr : ((recordOf q u).1, r) ∈ walk [] v := by
      obtain ⟨l, l', heq, -⟩ := List.lookup_eq_some_iff.mp hlookup
      rw [heq]
      simp
    obtain ⟨q', u', hu', heq⟩ := (mem_walk v hv [] _).mp hr
    have hkey := congrArg Prod.fst heq
    rw [recordOf_key, List.nil_append, recordOf_key] at hkey
    obtain ⟨-, rfl⟩ := walkKey_inj hkey
    obtain rfl := Option.some.inj (hu'.symm.trans hu)
    exact congrArg (fun p => some p.2) heq

/-- A map has nothing under the mark of a leaf where a container stands, nor the other way. -/
theorem lookup_walk_other {v u : Json ν} (hv : v.Ordered) {q : List JsString} (hu : v.at? q = some u)
    {m : UInt16} (hm : m ≠ if u.shape = none then 86 else 75) :
    (walk [] v).lookup (walkKey (ν := ν) m q) = none := by
  rw [List.lookup_eq_none_iff]
  intro r hr
  obtain ⟨q', u', hu', rfl⟩ := (mem_walk v hv [] r).mp hr
  rw [List.nil_append, bne_iff_ne, recordOf_key]
  intro heq
  obtain ⟨hmark, rfl⟩ := walkKey_inj heq
  obtain rfl := Option.some.inj (hu'.symm.trans hu)
  exact hm hmark

/-! ## What an accepted change says -/

theorem mapM_some {α β : Type} {f : α → Option β} {l : List α} {r : List β} (h : l.mapM f = some r) :
    ∀ x ∈ l, ∃ y ∈ r, f x = some y := by
  induction l generalizing r with
  | nil => exact fun x hx => absurd hx List.not_mem_nil
  | cons x l ih =>
    rw [List.mapM_cons] at h
    obtain ⟨y, hy, h⟩ := Option.bind_eq_some_iff.mp h
    obtain ⟨ys, hys, h⟩ := Option.bind_eq_some_iff.mp h
    obtain rfl := Option.some.inj h
    refine List.forall_mem_cons.mpr ⟨⟨y, List.mem_cons_self, hy⟩, ?_⟩
    intro z hz
    obtain ⟨w, hw, hfz⟩ := ih hys z hz
    exact ⟨w, List.mem_cons_of_mem _ hw, hfz⟩

omit [JsNumber ν] in
theorem versionValue_eq {value : Option (Json ν)} (h : versionValue value = true) :
    ∃ s, value = some (.str s) ∧ isVersion s = true := by
  unfold versionValue at h
  split at h
  · exact ⟨_, rfl, h⟩
  · cases h

omit [JsNumber ν] in
theorem rangeValue_eq {value : Option (Json ν)} {r : Range} (h : rangeValue value = some r) :
    ∃ s, value = some (.str s) ∧ splitRange s = some r := by
  unfold rangeValue at h
  split at h
  · exact ⟨_, rfl, h⟩
  · cases h

/-- What the loop finds at a path where the two manifests have different strings. -/
inductive Differs (kind : ManifestKind) (before after : Json ν) (path : List JsString) (s s' : JsString) :
    Change → Prop
  | packageVersion (hp : isPackageVersionPath path = true) (h : isVersion s = true)
      (h' : isVersion s' = true) : Differs kind before after path s s' .packageVersion
  | otherVersion (hp : isPackageVersionPath path = false) (hk : kind = .marketplace)
      (hm : isMarketplaceVersionPath path before after = true) (h : isVersion s = true)
      (h' : isVersion s' = true) : Differs kind before after path s s' .otherVersion
  | repin {r r' : Range} (hp : isAdlcRangePath path = true) (h : splitRange s = some r)
      (h' : splitRange s' = some r') (ho : r.operator = r'.operator) :
      Differs kind before after path s s' (.repin r r')

/-- A pass of the loop over the key of a leaf whose records differ. -/
theorem changeAt_leaf {kind : ManifestKind} {before after : Json ν} {path : List JsString} {c : Change}
    (h : changeAt kind before after (walkKey (ν := ν) 86 path) = some c)
    (hne : (walk [] before).lookup (walkKey (ν := ν) 86 path) ≠
      (walk [] after).lookup (walkKey (ν := ν) 86 path)) :
    ∃ s s', before.at? path = some (.str s) ∧ after.at? path = some (.str s') ∧
      Differs kind before after path s s' c := by
  have hleaf : ¬(walkKey (ν := ν) 86 path).head? = some 75 := by
    rw [walkKey, List.head?_cons]
    decide
  rw [changeAt, if_neg hne, if_neg hleaf, pathOf_walkKey] at h
  simp only [Bool.or_eq_true, Bool.and_eq_true, decide_eq_true_eq] at h
  split_ifs at h with hversion hinvalid hpackage hrange
  · simp only [Bool.not_eq_true', not_or, Bool.not_eq_false] at hinvalid
    obtain ⟨s, hs, hv⟩ := versionValue_eq hinvalid.1
    obtain ⟨s', hs', hv'⟩ := versionValue_eq hinvalid.2
    obtain rfl := Option.some.inj h
    exact ⟨s, s', hs, hs', Differs.packageVersion hpackage hv hv'⟩
  · simp only [Bool.not_eq_true', not_or, Bool.not_eq_false] at hinvalid
    obtain ⟨s, hs, hv⟩ := versionValue_eq hinvalid.1
    obtain ⟨s', hs', hv'⟩ := versionValue_eq hinvalid.2
    obtain rfl := Option.some.inj h
    obtain hp | ⟨hk, hm⟩ := hversion
    · exact absurd hp hpackage
    · exact ⟨s, s', hs, hs', Differs.otherVersion (Bool.eq_false_iff.mpr hpackage) hk hm hv hv'⟩
  · cases hr : rangeValue (before.at? path) with
    | none =>
      rw [hr] at h
      cases h
    | some r =>
      cases hr' : rangeValue (after.at? path) with
      | none =>
        rw [hr, hr'] at h
        cases h
      | some r' =>
        rw [hr, hr'] at h
        dsimp only at h
        split_ifs at h with hop
        obtain rfl := Option.some.inj h
        obtain ⟨s, hs, hv⟩ := rangeValue_eq hr
        obtain ⟨s', hs', hv'⟩ := rangeValue_eq hr'
        exact ⟨s, s', hs, hs', Differs.repin hrange hv hv' hop⟩

/-- The keys the loop runs over. -/
def changedKeys (before after : Json ν) : List JsString :=
  firstSeen ((walk [] before).map Prod.fst ++ (walk [] after).map Prod.fst)

section Accepted

variable {kind : ManifestKind} {before after : Json ν} {changes : List Change}

/-- Two nodes under one path: containers of one shape, one leaf, or strings that may change. -/
theorem nodes_cases (hb : before.IsJson) (ha : after.IsJson)
    (hloop : (changedKeys before after).mapM (changeAt kind before after) = some changes)
    {q : List JsString} {x y : Json ν} (hx : before.at? q = some x) (hy : after.at? q = some y) :
    (x.shape = y.shape ∧ x.shape ≠ none) ∨ (x.shape = none ∧ x = y) ∨
      ∃ s s', x = .str s ∧ y = .str s' ∧ ∃ c ∈ changes, Differs kind before after q s s' c := by
  have hbo := ((Json.isJson_iff before).mp hb).1
  have hao := ((Json.isJson_iff after).mp ha).1
  have hkeys : ∀ key, key = (recordOf q x).1 ∨ key = (recordOf q y).1 →
      ∃ c ∈ changes, changeAt kind before after key = some c := by
    intro key hkey
    refine mapM_some hloop key (mem_firstSeen.mpr (List.mem_append.mpr ?_))
    obtain rfl | rfl := hkey
    · exact Or.inl (List.mem_map_of_mem ((mem_walk before hbo [] _).mpr ⟨q, x, hx, rfl⟩))
    · exact Or.inr (List.mem_map_of_mem ((mem_walk after hao [] _).mpr ⟨q, y, hy, rfl⟩))
  have hlookup := lookup_walk hbo hx
  have hlookup' := lookup_walk hao hy
  rw [recordOf_key] at hlookup hlookup'
  have hcontainer : ∀ key : JsString, key.head? = some 75 →
      (∃ c ∈ changes, changeAt kind before after key = some c) →
      (walk [] before).lookup key = (walk [] after).lookup key := by
    intro key hhead hc
    obtain ⟨c, -, hc⟩ := hc
    by_contra hne
    rw [changeAt, if_neg hne, if_pos hhead] at hc
    cases hc
  cases hxs : x.shape with
  | some shape =>
    have heq := hcontainer (walkKey (ν := ν) 75 q) rfl (hkeys _ (Or.inl (by rw [recordOf_key, hxs]; rfl)))
    rw [hxs, if_neg (Option.some_ne_none _)] at hlookup
    rw [hlookup] at heq
    cases hys : y.shape with
    | some shape' =>
      rw [hys, if_neg (Option.some_ne_none _), ← heq] at hlookup'
      have hrecord := Option.some.inj hlookup'
      rw [recordOf, recordOf, hxs, hys] at hrecord
      obtain ⟨hkind, hnames⟩ := containerRecord_inj (ν := ν) hrecord
      exact Or.inl ⟨congrArg some (Prod.ext hkind hnames), Option.some_ne_none _⟩
    | none =>
      rw [lookup_walk_other hao hy (by rw [hys]; decide)] at heq
      cases heq
  | none =>
    rw [hxs, if_pos rfl] at hlookup
    cases hys : y.shape with
    | some shape' =>
      have heq := hcontainer (walkKey (ν := ν) 75 q) rfl (hkeys _ (Or.inr (by rw [recordOf_key, hys]; rfl)))
      rw [hys, if_neg (Option.some_ne_none _)] at hlookup'
      rw [hlookup', lookup_walk_other hbo hx (by rw [hxs]; decide)] at heq
      cases heq
    | none =>
      rw [hys, if_pos rfl] at hlookup'
      by_cases heq : (walk [] before).lookup (walkKey (ν := ν) 86 q) =
          (walk [] after).lookup (walkKey (ν := ν) 86 q)
      · rw [hlookup, hlookup', recordOf, recordOf, hxs, hys] at heq
        exact Or.inr (Or.inl ⟨rfl, stringify_injective (hb.at hx) (ha.at hy) (Option.some.inj heq)⟩)
      · have hmark : walkKey (ν := ν) 86 q = (recordOf q x).1 := by
          rw [recordOf_key, hxs]
          rfl
        obtain ⟨c, hc, hchange⟩ := hkeys _ (Or.inl hmark)
        obtain ⟨s, s', hs, hs', hdiffers⟩ := changeAt_leaf hchange heq
        obtain rfl := Option.some.inj (hx.symm.trans hs)
        obtain rfl := Option.some.inj (hy.symm.trans hs')
        exact Or.inr (Or.inr ⟨s, s', rfl, rfl, c, hc, hdiffers⟩)

/-- The two manifests have the same paths. -/
theorem same_paths (hb : before.IsJson) (ha : after.IsJson)
    (hloop : (changedKeys before after).mapM (changeAt kind before after) = some changes)
    (q : List JsString) : (before.at? q).isSome = (after.at? q).isSome := by
  induction q using List.reverseRecOn with
  | nil => rfl
  | append_singleton q k ih =>
    rw [Json.at?_append, Json.at?_append]
    cases hx : before.at? q with
    | none =>
      rw [hx] at ih
      rw [Option.isNone_iff_eq_none.mp (Option.isSome_eq_false_iff.mp ih.symm)]
    | some x =>
      rw [hx] at ih
      obtain ⟨y, hy⟩ := Option.isSome_iff_exists.mp ih.symm
      rw [hy, Option.bind_some, Option.bind_some, Json.at?_singleton, Json.at?_singleton]
      obtain ⟨hshape, -⟩ | ⟨-, rfl⟩ | ⟨s, s', rfl, rfl, -⟩ := nodes_cases hb ha hloop hx hy
      · exact Json.children_isSome hshape k
      · rfl
      · rfl

/-- Nodes under which no string may change are equal, or are strings that may. -/
theorem nodes_equal (hb : before.IsJson) (ha : after.IsJson)
    (hloop : (changedKeys before after).mapM (changeAt kind before after) = some changes)
    {q : List JsString} {x y : Json ν} (hx : before.at? q = some x) (hy : after.at? q = some y)
    (hnot : ∀ k q' s s' c, ¬Differs kind before after (q ++ k :: q') s s' c) :
    x = y ∨ ∃ s s', x = .str s ∧ y = .str s' ∧
      ∃ c ∈ changes, Differs kind before after q s s' c := by
  obtain ⟨-, hcontainer⟩ | ⟨-, heq⟩ | hstrings := nodes_cases hb ha hloop hx hy
  · left
    have hagree : ∀ q' u w, x.at? q' = some u → y.at? q' = some w →
        NodesAgree (fun _ => false) ([] ++ q') u w := by
      intro q' u w hu hw
      have hu' : before.at? (q ++ q') = some u := by
        rw [Json.at?_append, hx]
        exact hu
      have hw' : after.at? (q ++ q') = some w := by
        rw [Json.at?_append, hy]
        exact hw
      obtain hshape | hleaf | ⟨s, s', rfl, -, c, -, hdiffers⟩ := nodes_cases hb ha hloop hu' hw'
      · exact Or.inl hshape
      · exact Or.inr (Or.inl hleaf)
      · cases q' with
        | nil =>
          rw [Option.some.inj hu] at hcontainer
          exact absurd rfl hcontainer
        | cons k q' => exact absurd hdiffers (hnot k q' s s' c)
    have hxo := ((Json.isJson_iff x).mp (hb.at hx)).1
    have hyo := ((Json.isJson_iff y).mp (ha.at hy)).1
    have hfill := Json.fill_congr (t := []) x y [] hxo hyo hagree
    rw [Json.fill_none, Json.fill_none] at hfill
    exact hfill
  · exact Or.inl heq
  · exact Or.inr hstrings

theorem packagePath_eq {path : List JsString} (h : isPackageVersionPath path = true) :
    path = [js "version"] := of_decide_eq_true h

theorem rangePath_eq {path : List JsString} (h : isAdlcRangePath path = true) :
    ∃ field ∈ DEP_FIELDS, ∃ name, path = [field, name] ∧ isAdlcPkg name = true := by
  unfold isAdlcRangePath at h
  split at h
  · rw [Bool.and_eq_true, decide_eq_true_eq] at h
    exact ⟨_, h.1, _, rfl, h.2⟩
  · cases h

omit [JsNumber ν] in
theorem marketplacePath_eq {path : List JsString} (h : isMarketplaceVersionPath path before after = true) :
    path = [js "metadata", js "version"] ∨ (∃ index, path = [js "plugins", index, js "version"]) ∧
      ∀ doc ∈ [before, after], isMarketplaceVersionPath path doc doc = true := by
  unfold isMarketplaceVersionPath at h
  rw [Bool.or_eq_true, decide_eq_true_eq] at h
  obtain h | h := h
  · exact Or.inl h
  · split at h
    · rename_i field index leaf
      simp only [Bool.and_eq_true, decide_eq_true_eq] at h
      obtain ⟨⟨⟨⟨rfl, rfl, hne⟩, hindex⟩, hbefore⟩, hafter⟩ := h
      refine Or.inr ⟨⟨index, rfl⟩, ?_⟩
      intro doc hdoc
      have hplugins : hasPlugins doc = true := by
        obtain rfl | hdoc := List.mem_cons.mp hdoc
        · exact hbefore
        · rw [List.mem_singleton.mp hdoc]
          exact hafter
      simp [isMarketplaceVersionPath, hne, hindex, hplugins]
    · cases h

omit [JsNumber ν] in
/-- Strings that may change stand at eligible paths of both manifests. -/
theorem Differs.eligible {path : List JsString} {s s' : JsString} {c : Change}
    (h : Differs kind before after path s s' c) :
    ∀ doc ∈ [before, after], eligiblePath kind doc path = true := by
  intro doc hdoc
  cases h with
  | packageVersion hp => simp [eligiblePath, hp]
  | otherVersion hp hk hm =>
    obtain rfl | ⟨-, hboth⟩ := marketplacePath_eq hm
    · simp [eligiblePath, hk, isMarketplaceVersionPath]
    · simp [eligiblePath, hk, hboth doc hdoc]
  | repin hp => simp [eligiblePath, hp]

omit [JsNumber ν] in
/-- No string below the version or below an internal range may change. -/
theorem Differs.not_below {q q' : List JsString} {k s s' : JsString} {c : Change}
    (hq : isPackageVersionPath q = true ∨ isAdlcRangePath q = true) :
    ¬Differs kind before after (q ++ k :: q') s s' c := by
  have hfields : js "version" ∉ DEP_FIELDS ∧ js "metadata" ∉ DEP_FIELDS ∧
      js "plugins" ∉ DEP_FIELDS := by
    decide
  intro h
  obtain hq | hq := hq
  · obtain rfl := packagePath_eq hq
    cases h with
    | packageVersion hp =>
      have hlen := congrArg List.length (packagePath_eq hp)
      simp at hlen
    | otherVersion hp hk hm =>
      obtain heq | ⟨⟨index, heq⟩, -⟩ := marketplacePath_eq hm
      · exact absurd (List.cons.inj heq).1 (by decide)
      · exact absurd (List.cons.inj heq).1 (by decide)
    | repin hp =>
      obtain ⟨field, hfield, name, heq, -⟩ := rangePath_eq hp
      rw [← (List.cons.inj heq).1] at hfield
      exact hfields.1 hfield
  · obtain ⟨field, hfield, name, rfl, -⟩ := rangePath_eq hq
    cases h with
    | packageVersion hp =>
      have hlen := congrArg List.length (packagePath_eq hp)
      simp at hlen
    | otherVersion hp hk hm =>
      obtain heq | ⟨⟨index, heq⟩, -⟩ := marketplacePath_eq hm
      · rw [(List.cons.inj heq).1] at hfield
        exact hfields.2.1 hfield
      · rw [(List.cons.inj heq).1] at hfield
        exact hfields.2.2 hfield
    | repin hp =>
      obtain ⟨field', hfield', name', heq, -⟩ := rangePath_eq hp
      have hlen := congrArg List.length heq
      simp at hlen

theorem hasPlugins_congr (hb : before.IsJson) (ha : after.IsJson)
    (hbobj : ∃ ms, before = .obj ms) (haobj : ∃ ms, after = .obj ms)
    (hloop : (changedKeys before after).mapM (changeAt kind before after) = some changes) :
    hasPlugins before = hasPlugins after := by
  have hget : ∀ doc : Json ν, (∃ ms, doc = .obj ms) → ∀ k, doc.get? k = doc.at? [k] := by
    intro doc hdoc k
    obtain ⟨ms, rfl⟩ := hdoc
    rw [Json.at?_singleton]
    rfl
  have hsame := same_paths hb ha hloop [js "plugins"]
  rw [hasPlugins, hasPlugins, hget before hbobj, hget after haobj]
  cases hx : before.at? [js "plugins"] with
  | none =>
    rw [hx] at hsame
    rw [Option.isNone_iff_eq_none.mp (Option.isSome_eq_false_iff.mp hsame.symm)]
  | some x =>
    rw [hx] at hsame
    obtain ⟨y, hy⟩ := Option.isSome_iff_exists.mp hsame.symm
    rw [hy]
    obtain ⟨hshape, -⟩ | ⟨-, rfl⟩ | ⟨s, s', rfl, rfl, -⟩ := nodes_cases hb ha hloop hx hy
    · cases x <;> cases y <;> first | rfl | cases hshape
    · rfl
    · rfl

/-- The two texts are one when the strings at eligible paths are replaced. -/
theorem replaced_same (hb : before.IsJson) (ha : after.IsJson)
    (hbobj : ∃ ms, before = .obj ms) (haobj : ∃ ms, after = .obj ms)
    (hloop : (changedKeys before after).mapM (changeAt kind before after) = some changes) (t : JsString) :
    replacedText kind before t = replacedText kind after t := by
  have hplugins := hasPlugins_congr hb ha hbobj haobj hloop
  have heligible : eligiblePath kind after = eligiblePath kind before := by
    funext path
    rw [eligiblePath, eligiblePath]
    unfold isMarketplaceVersionPath
    rw [hplugins]
  have hagree : ∀ q x y, before.at? q = some x → after.at? q = some y →
      NodesAgree (eligiblePath kind before) ([] ++ q) x y := by
    intro q x y hx hy
    obtain hshape | hleaf | ⟨s, s', rfl, rfl, c, -, hdiffers⟩ := nodes_cases hb ha hloop hx hy
    · exact Or.inl hshape
    · exact Or.inr (Or.inl hleaf)
    · exact Or.inr (Or.inr ⟨hdiffers.eligible before (by simp), s, s', rfl, rfl⟩)
  rw [replacedText, replacedText, heligible]
  have hbo := ((Json.isJson_iff before).mp hb).1
  have hao := ((Json.isJson_iff after).mp ha).1
  rw [Json.fill_congr before after [] hbo hao hagree]

/-- Different strings at one path are recorded by the loop. -/
theorem strings_differ (hb : before.IsJson) (ha : after.IsJson)
    (hloop : (changedKeys before after).mapM (changeAt kind before after) = some changes)
    {path : List JsString} {s s' : JsString} (hs : before.at? path = some (.str s))
    (hs' : after.at? path = some (.str s')) (hne : s ≠ s') :
    ∃ c ∈ changes, Differs kind before after path s s' c := by
  obtain ⟨-, hcontainer⟩ | ⟨-, heq⟩ | ⟨u, u', hu, hu', hc⟩ := nodes_cases hb ha hloop hs hs'
  · exact absurd rfl hcontainer
  · exact absurd (Json.str.inj heq) hne
  · obtain rfl := Json.str.inj hu
    obtain rfl := Json.str.inj hu'
    exact hc

/-- A version or an internal range that differs is recorded by the loop. -/
theorem value_differs (hb : before.IsJson) (ha : after.IsJson)
    (hloop : (changedKeys before after).mapM (changeAt kind before after) = some changes)
    {path : List JsString} (hpath : isPackageVersionPath path = true ∨ isAdlcRangePath path = true)
    (hne : before.at? path ≠ after.at? path) :
    ∃ s s', ∃ c ∈ changes, Differs kind before after path s s' c := by
  have hsame := same_paths hb ha hloop path
  cases hx : before.at? path with
  | none =>
    rw [hx] at hsame hne
    exact absurd (Option.isNone_iff_eq_none.mp (Option.isSome_eq_false_iff.mp hsame.symm)).symm hne
  | some x =>
    rw [hx] at hsame
    obtain ⟨y, hy⟩ := Option.isSome_iff_exists.mp hsame.symm
    have hnot : ∀ k q' s s' c, ¬Differs kind before after (path ++ k :: q') s s' c :=
      fun k q' s s' c => Differs.not_below hpath
    obtain rfl | ⟨s, s', -, -, hc⟩ := nodes_equal hb ha hloop hx hy hnot
    · exact absurd (hx.trans hy.symm) hne
    · exact ⟨s, s', hc⟩

/-- A manifest whose ranges carry its version is in lockstep. -/
theorem rangesCarry_lockstep {root : Json ν} (hroot : root.IsJson) (hobj : ∃ ms, root = .obj ms)
    (hversion : versionValue (root.get? (js "version")) = true)
    (hcarry : rangesCarry root (root.get? (js "version")) = true) : Lockstep root := by
  obtain ⟨version, hget, hvalid⟩ := versionValue_eq hversion
  obtain ⟨ms, rfl⟩ := hobj
  refine ⟨version, hget, isVersion_valid hvalid, ?_⟩
  intro field hfield name range hname hrange
  have hfieldcarry := List.all_eq_true.mp hcarry field hfield
  rw [Json.at?, Json.children] at hrange
  rw [Json.get?] at hfieldcarry
  cases hdeps : List.lookup field ms with
  | none =>
    rw [hdeps] at hrange
    cases hrange
  | some deps =>
    rw [hdeps] at hrange hfieldcarry
    cases deps with
    | obj ds =>
      dsimp only at hrange hfieldcarry
      rw [Json.at?_singleton] at hrange
      have hmem := Members.mem_lookup hrange
      have hdep := List.all_eq_true.mp hfieldcarry _ hmem
      rw [Bool.or_eq_true, Bool.not_eq_true', hname] at hdep
      obtain hfalse | hdep := hdep
      · cases hfalse
      · cases hr : rangeValue (some range) with
        | none =>
          rw [hr] at hdep
          cases hdep
        | some r =>
          rw [hr] at hdep
          obtain ⟨s, hs, hsplit⟩ := rangeValue_eq hr
          obtain ⟨hop, -, rfl⟩ := splitRange_eq_some hsplit
          rw [hget] at hdep
          obtain rfl := Json.str.inj (Option.some.inj (eqStr_iff.mp hdep))
          exact ⟨r.operator, hop, Option.some.inj hs⟩
    | _ => cases hfieldcarry

end Accepted

/-- What the two maps of an accepted change give: the changes that the loop records, and a complete
lockstep whenever the version or a range is among them. -/
theorem isVersionOnlyChange_accepted {beforeText afterText file : Option JsString}
    (h : isVersionOnlyChange ν beforeText afterText file = true) :
    ∃ kind, ∃ before after : Json ν, ∃ changes, manifestKind file = some kind ∧
      parseCanonical beforeText = some before ∧ parseCanonical afterText = some after ∧
      (changedKeys before after).mapM (changeAt kind before after) = some changes ∧
      ((Change.packageVersion ∈ changes ∨ repinsOf changes ≠ []) →
        versionValue (before.get? (js "version")) = true ∧
        versionValue (after.get? (js "version")) = true ∧
        rangesCarry before (before.get? (js "version")) = true ∧
        rangesCarry after (after.get? (js "version")) = true) := by
  unfold isVersionOnlyChange at h
  cases hkind : manifestKind file with
  | none =>
    rw [hkind] at h
    cases h
  | some kind =>
    rw [hkind] at h
    dsimp only at h
    cases hbefore : (parseCanonical beforeText : Option (Json ν)) with
    | none =>
      rw [hbefore] at h
      cases h
    | some before =>
      cases hafter : (parseCanonical afterText : Option (Json ν)) with
      | none =>
        rw [hbefore, hafter] at h
        cases h
      | some after =>
        rw [hbefore, hafter] at h
        dsimp only at h
        cases hloop : (changedKeys before after).mapM (changeAt kind before after) with
        | none =>
          rw [changedKeys] at hloop
          rw [hloop] at h
          cases h
        | some changes =>
          refine ⟨kind, before, after, changes, rfl, rfl, rfl, hloop, ?_⟩
          rw [changedKeys] at hloop
          rw [hloop] at h
          dsimp only at h
          split_ifs at h with hcomplete hrepins
          · intro hchange
            have hversion := hchange.resolve_right fun hne => hne hrepins
            simpa [hversion, and_assoc] using hcomplete
          · intro _
            simp only [Bool.and_eq_true, decide_eq_true_eq] at h
            have hversion := h.1.1.2
            simpa [hversion, and_assoc] using hcomplete

/-- A change that is exempt touches versions and internal ranges only, and keeps them in lockstep. -/
theorem isVersionOnlyChange_sound {beforeText afterText file : Option JsString}
    (h : isVersionOnlyChange ν beforeText afterText file = true) :
    ∃ kind, ∃ before after : Json ν, manifestKind file = some kind ∧
      beforeText = some (stringify2 before ++ [10]) ∧ afterText = some (stringify2 after ++ [10]) ∧
      before.IsJson ∧ after.IsJson ∧ VersionOnly kind before after := by
  obtain ⟨kind, before, after, changes, hkind, hbefore, hafter, hloop, hcomplete⟩ :=
    isVersionOnlyChange_accepted h
  obtain ⟨hbtext, hb, hbobj⟩ := parseCanonical_eq_some hbefore
  obtain ⟨hatext, ha, haobj⟩ := parseCanonical_eq_some hafter
  have hreplaced := replaced_same hb ha hbobj haobj hloop
  refine ⟨kind, before, after, hkind, hbtext, hatext, hb, ha, hreplaced, ?_, ?_, ?_⟩
  · intro path s s' _ hrange hs hs' hne
    obtain ⟨c, -, hdiffers⟩ := strings_differ hb ha hloop hs hs' hne
    cases hdiffers with
    | packageVersion hp hv hv' => exact ⟨isVersion_valid hv, isVersion_valid hv'⟩
    | otherVersion hp hk hm hv hv' => exact ⟨isVersion_valid hv, isVersion_valid hv'⟩
    | repin hp =>
      rw [hrange] at hp
      cases hp
  · intro path s s' hrange hs hs' hne
    obtain ⟨field, hfield, name, rfl, -⟩ := rangePath_eq hrange
    obtain ⟨c, -, hdiffers⟩ := strings_differ hb ha hloop hs hs' hne
    cases hdiffers with
    | packageVersion hp =>
      have hlen := congrArg List.length (packagePath_eq hp)
      simp at hlen
    | otherVersion hp hk hm =>
      have hfields : js "metadata" ∉ DEP_FIELDS := by decide
      obtain heq | ⟨⟨index, heq⟩, -⟩ := marketplacePath_eq hm
      · rw [(List.cons.inj heq).1] at hfield
        exact absurd hfield hfields
      · have hlen := congrArg List.length heq
        simp at hlen
    | repin hp hr hr' hop =>
      obtain ⟨hmem, hvalid, hs⟩ := splitRange_eq_some hr
      obtain ⟨-, hvalid', hs'⟩ := splitRange_eq_some hr'
      exact ⟨_, hmem, _, _, hvalid, hvalid', hs, hop ▸ hs'⟩
  · intro hdiffer
    have hget : ∀ doc : Json ν, (∃ ms, doc = .obj ms) →
        doc.get? (js "version") = doc.at? [js "version"] := by
      intro doc hdoc
      obtain ⟨ms, rfl⟩ := hdoc
      rw [Json.at?_singleton]
      rfl
    have hchange : ∃ path, (isPackageVersionPath path = true ∨ isAdlcRangePath path = true) ∧
        before.at? path ≠ after.at? path := by
      obtain hne | ⟨path, hpath, hne⟩ := hdiffer
      · rw [hget before hbobj, hget after haobj] at hne
        exact ⟨_, Or.inl (by decide), hne⟩
      · exact ⟨path, Or.inr hpath, hne⟩
    obtain ⟨path, hpath, hne⟩ := hchange
    obtain ⟨s, s', c, hc, hdiffers⟩ := value_differs hb ha hloop hpath hne
    have hrecorded : Change.packageVersion ∈ changes ∨ repinsOf changes ≠ [] := by
      cases hdiffers with
      | packageVersion => exact Or.inl hc
      | otherVersion hp hk hm =>
        -- no version path of a marketplace is the package version or a range
        exfalso
        obtain hpath | hpath := hpath
        · rw [hp] at hpath
          cases hpath
        · obtain ⟨field, hfield, name, rfl, -⟩ := rangePath_eq hpath
          have hfields : js "metadata" ∉ DEP_FIELDS := by decide
          obtain heq | ⟨⟨index, heq⟩, -⟩ := marketplacePath_eq hm
          · rw [(List.cons.inj heq).1] at hfield
            exact hfields hfield
          · have hlen := congrArg List.length heq
            simp at hlen
      | @repin r r' hp hr hr' hop =>
        right
        exact List.ne_nil_of_mem (List.mem_filterMap.mpr ⟨_, hc, rfl⟩)
    obtain ⟨hold, hnew, hcarry, hcarry'⟩ := hcomplete hrecorded
    exact ⟨rangesCarry_lockstep hb hbobj hold hcarry, rangesCarry_lockstep ha haobj hnew hcarry'⟩

def manifestText (version range : JsString) : JsString :=
  stringify2 (.obj [(js "version", .str version),
    (js "dependencies", .obj [(js "@adlc/core", .str range)])] : Json Int) ++ [10]

def oldManifest : JsString := manifestText (js "1.0.9") (js "^1.0.9")

def newManifest : JsString := manifestText (js "1.1.0-rc.1") (js "^1.1.0-rc.1")

theorem isVersionOnlyChange_sound_bump :
    isVersionOnlyChange Int (some oldManifest) (some newManifest) (some (js "core/package.json")) = true ∧
      ∃ kind, ∃ before after : Json Int, manifestKind (some (js "core/package.json")) = some kind ∧
        some oldManifest = some (stringify2 before ++ [10]) ∧
        some newManifest = some (stringify2 after ++ [10]) ∧
        before.IsJson ∧ after.IsJson ∧ VersionOnly kind before after := by
  have h : isVersionOnlyChange Int (some oldManifest) (some newManifest)
      (some (js "core/package.json")) = true := by
    decide +kernel
  exact ⟨h, isVersionOnlyChange_sound h⟩

end Adlc.RailsGuard
