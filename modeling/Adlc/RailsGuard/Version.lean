import Adlc.Framework.IntNumber
import Adlc.Framework.Regex

namespace Adlc.RailsGuard

open Adlc.Framework

/-! ## Versions and ranges -/

def MAX_LENGTH : Nat := 256
def MAX_SAFE_COMPONENT_LENGTH : Nat := 16
def MAX_SAFE_INTEGER : Nat := 9007199254740991

def isLetter (c : UInt16) : Bool :=
  (65 ≤ c.toNat && c.toNat ≤ 90) || (97 ≤ c.toNat && c.toNat ≤ 122)

/-- `[0-9A-Za-z-]` -/
def isIdUnit (c : UInt16) : Bool := isDigit c || isLetter c || c == 45

/-- `r(?:\.r)*` -/
def dotted (r : Regex UInt16) : Regex UInt16 := .seq r (.star (.seq (.one (· == 46)) r))

/-- `r?` -/
def optional (r : Regex UInt16) : Regex UInt16 := .alt r .empty

/-- `0|[1-9]\d*` -/
def NUM : Regex UInt16 :=
  .alt (.one (· == 48)) (.seq (.one fun c => isDigit c && c != 48) (.star (.one isDigit)))

/-- `(?:NUM|\d*[A-Za-z-][0-9A-Za-z-]*)` -/
def PRE_ID : Regex UInt16 :=
  .alt NUM (.seq (.star (.one isDigit)) (.seq (.one fun c => isLetter c || c == 45) (.star (.one isIdUnit))))

/-- `(?:-PRE_ID(?:\.PRE_ID)*)` -/
def PRE : Regex UInt16 := .seq (.one (· == 45)) (dotted PRE_ID)

/-- `(?:\+[0-9A-Za-z-]+(?:\.[0-9A-Za-z-]+)*)` -/
def BUILD : Regex UInt16 := .seq (.one (· == 43)) (dotted (.plus (.one isIdUnit)))

/-- `(?:NUM)\.(?:NUM)\.(?:NUM)PRE?BUILD?` -/
def SEMVER : Regex UInt16 :=
  .seq NUM (.seq (.one (· == 46)) (.seq NUM (.seq (.one (· == 46))
    (.seq NUM (.seq (optional PRE) (optional BUILD))))))

/-- `isVersion` of a string. -/
def isVersion (value : JsString) : Bool :=
  decide (value.length ≤ MAX_LENGTH) && SEMVER.accepts value &&
    ((value.takeWhile fun c => c != 45 && c != 43).splitOn 46).all fun part =>
      decide (part.length ≤ MAX_SAFE_COMPONENT_LENGTH) && decide (readNat part ≤ MAX_SAFE_INTEGER)

structure Range where
  operator : JsString
  version : JsString
  deriving DecidableEq

/-- `splitRange` of a string; no version begins with an operator. -/
def splitRange (value : JsString) : Option Range :=
  let operator := if value.head? = some 94 ∨ value.head? = some 126 then value.take 1 else []
  let version := value.drop operator.length
  if SEMVER.accepts version && isVersion version then some ⟨operator, version⟩ else none

/-! ## The versions npm reads -/

/-- Digits without a leading zero. -/
def IsNumeral (s : JsString) : Prop :=
  s ≠ [] ∧ (∀ c ∈ s, isDigit c = true) ∧ (s.head? = some 48 → s = [48])

def IsIdentifier (s : JsString) : Prop := s ≠ [] ∧ ∀ c ∈ s, isIdUnit c = true

/-- A numeral, or an identifier that is not all digits. -/
def IsPreRelease (s : JsString) : Prop := IsNumeral s ∨ IsIdentifier s ∧ ∃ c ∈ s, isDigit c = false

/-- The parts of a semantic version. -/
structure SemVer where
  major : JsString
  minor : JsString
  patch : JsString
  preRelease : List JsString
  build : List JsString

/-- A list of identifiers behind its mark; nothing when there are none. -/
def tagged (mark : UInt16) (ids : List JsString) : JsString :=
  if ids = [] then [] else mark :: [46].intercalate ids

def SemVer.text (v : SemVer) : JsString :=
  v.major ++ 46 :: (v.minor ++ 46 :: (v.patch ++ (tagged 45 v.preRelease ++ tagged 43 v.build)))

/-- A semantic version within the limits of npm. -/
structure SemVer.Valid (v : SemVer) : Prop where
  core : ∀ n ∈ [v.major, v.minor, v.patch], IsNumeral n ∧ readNat n ≤ MAX_SAFE_INTEGER
  preRelease : ∀ id ∈ v.preRelease, IsPreRelease id
  build : ∀ id ∈ v.build, IsIdentifier id
  length : v.text.length ≤ MAX_LENGTH

def ValidVersion (s : JsString) : Prop := ∃ v : SemVer, v.Valid ∧ v.text = s

/-! ## What the expressions match -/

theorem mem_one_iff {p : UInt16 → Bool} {w : JsString} (h : w ∈ (Regex.one p).language) :
    ∃ c, p c = true ∧ w = [c] := h

theorem mem_star_one {p : UInt16 → Bool} {w : JsString} (h : w ∈ (Regex.star (.one p)).language) :
    ∀ c ∈ w, p c = true := by
  obtain ⟨L, rfl, hL⟩ := Regex.mem_star.mp h
  intro c hc
  obtain ⟨y, hy, hcy⟩ := List.mem_flatten.mp hc
  obtain ⟨d, hd, rfl⟩ := mem_one_iff (hL y hy)
  rw [List.mem_singleton.mp hcy]
  exact hd

theorem mem_dotted {r : Regex UInt16} {w : JsString} (h : w ∈ (dotted r).language) :
    ∃ ids, ids ≠ [] ∧ (∀ id ∈ ids, id ∈ r.language) ∧ w = [46].intercalate ids := by
  obtain ⟨u, hu, v, hv, rfl⟩ := Regex.mem_seq.mp h
  obtain ⟨L, rfl, hL⟩ := Regex.mem_star.mp hv
  clear h hv
  induction L generalizing u with
  | nil => exact ⟨[u], List.cons_ne_nil _ _, by simpa using hu, by simp⟩
  | cons y L ih =>
    obtain ⟨hy, hrest⟩ := List.forall_mem_cons.mp hL
    obtain ⟨x, hx, id, hid, rfl⟩ := Regex.mem_seq.mp hy
    obtain ⟨c, hc, rfl⟩ := mem_one_iff hx
    obtain rfl := eq_of_beq hc
    obtain ⟨ids, hne, hids, heq⟩ := ih id hid hrest
    refine ⟨u :: ids, List.cons_ne_nil _ _, List.forall_mem_cons.mpr ⟨hu, hids⟩, ?_⟩
    obtain ⟨id', ids', rfl⟩ := List.exists_cons_of_ne_nil hne
    rw [List.flatten_cons, List.append_assoc, heq]
    simp [List.intercalate, List.intersperse]

theorem mem_NUM {w : JsString} (h : w ∈ NUM.language) : IsNumeral w := by
  obtain h | h := (Language.mem_add _ _ w).mp h
  · obtain ⟨c, hc, rfl⟩ := mem_one_iff h
    obtain rfl := eq_of_beq hc
    exact ⟨List.cons_ne_nil _ _, forall_mem_of_all (by decide), fun _ => rfl⟩
  · obtain ⟨x, hx, v, hv, rfl⟩ := Regex.mem_seq.mp h
    obtain ⟨c, hc, rfl⟩ := mem_one_iff hx
    rw [Bool.and_eq_true, bne_iff_ne] at hc
    refine ⟨List.cons_ne_nil _ _, List.forall_mem_cons.mpr ⟨hc.1, mem_star_one hv⟩, ?_⟩
    exact fun e => absurd (Option.some.inj e) hc.2

theorem mem_PRE_ID {w : JsString} (h : w ∈ PRE_ID.language) : IsPreRelease w := by
  obtain h | h := (Language.mem_add _ _ w).mp h
  · exact Or.inl (mem_NUM h)
  · obtain ⟨u, hu, x, hx, rfl⟩ := Regex.mem_seq.mp h
    obtain ⟨y, hy, v, hv, rfl⟩ := Regex.mem_seq.mp hx
    obtain ⟨c, hc, rfl⟩ := mem_one_iff hy
    have hdigit : isDigit c = false ∧ isIdUnit c = true := by
      simp only [isIdUnit, isLetter, isDigit, Bool.or_eq_true, Bool.and_eq_true, decide_eq_true_eq,
        beq_iff_eq] at hc ⊢
      obtain hletter | rfl := hc
      · refine ⟨?_, Or.inl (Or.inr hletter)⟩
        rw [Bool.and_eq_false_iff, decide_eq_false_iff_not, decide_eq_false_iff_not]
        omega
      · decide
    refine Or.inr ⟨⟨by simp, ?_⟩, c, by simp, hdigit.1⟩
    intro d hd
    obtain hd | hd := List.mem_append.mp hd
    · simp [isIdUnit, mem_star_one hu d hd]
    · obtain rfl | hd := List.mem_cons.mp hd
      · exact hdigit.2
      · exact mem_star_one hv d hd

theorem mem_identifier {w : JsString} (h : w ∈ (Regex.plus (.one isIdUnit)).language) : IsIdentifier w := by
  obtain ⟨x, hx, v, hv, rfl⟩ := Regex.mem_seq.mp h
  obtain ⟨c, hc, rfl⟩ := mem_one_iff hx
  exact ⟨List.cons_ne_nil _ _, List.forall_mem_cons.mpr ⟨hc, mem_star_one hv⟩⟩

/-- An optional list of identifiers behind its mark. -/
theorem mem_tagged {mark : UInt16} {r : Regex UInt16} {w : JsString}
    (h : w ∈ (optional (.seq (.one (· == mark)) (dotted r))).language) :
    ∃ ids, (∀ id ∈ ids, id ∈ r.language) ∧ w = tagged mark ids := by
  obtain h | h := (Language.mem_add _ _ w).mp h
  · obtain ⟨x, hx, v, hv, rfl⟩ := Regex.mem_seq.mp h
    obtain ⟨c, hc, rfl⟩ := mem_one_iff hx
    obtain rfl := eq_of_beq hc
    obtain ⟨ids, hne, hids, rfl⟩ := mem_dotted hv
    exact ⟨ids, hids, by rw [tagged, if_neg hne]; rfl⟩
  · exact ⟨[], by simp, (Language.mem_one w).mp h⟩

theorem mem_SEMVER {w : JsString} (h : w ∈ SEMVER.language) :
    ∃ v : SemVer, (∀ n ∈ [v.major, v.minor, v.patch], IsNumeral n) ∧
      (∀ id ∈ v.preRelease, IsPreRelease id) ∧ (∀ id ∈ v.build, IsIdentifier id) ∧ v.text = w := by
  obtain ⟨major, hmajor, w1, h1, rfl⟩ := Regex.mem_seq.mp h
  obtain ⟨d1, hd1, w2, h2, rfl⟩ := Regex.mem_seq.mp h1
  obtain ⟨minor, hminor, w3, h3, rfl⟩ := Regex.mem_seq.mp h2
  obtain ⟨d2, hd2, w4, h4, rfl⟩ := Regex.mem_seq.mp h3
  obtain ⟨patch, hpatch, w5, h5, rfl⟩ := Regex.mem_seq.mp h4
  obtain ⟨p, hp, b, hb, rfl⟩ := Regex.mem_seq.mp h5
  obtain ⟨c1, hc1, rfl⟩ := mem_one_iff hd1
  obtain ⟨c2, hc2, rfl⟩ := mem_one_iff hd2
  obtain rfl := eq_of_beq hc1
  obtain rfl := eq_of_beq hc2
  obtain ⟨pre, hpre, rfl⟩ := mem_tagged hp
  obtain ⟨build, hbuild, rfl⟩ := mem_tagged hb
  refine ⟨⟨major, minor, patch, pre, build⟩, ?_, fun id hid => mem_PRE_ID (hpre id hid),
    fun id hid => mem_identifier (hbuild id hid), rfl⟩
  simpa using ⟨mem_NUM hmajor, mem_NUM hminor, mem_NUM hpatch⟩

/-- The core of a version, which `split(/[-+]/)` cuts off. -/
theorem core_parts {v : SemVer} (h : ∀ n ∈ [v.major, v.minor, v.patch], IsNumeral n) :
    (v.text.takeWhile fun c => c != 45 && c != 43).splitOn 46 = [v.major, v.minor, v.patch] := by
  have hdigits : ∀ n ∈ [v.major, v.minor, v.patch], ∀ c ∈ n, c ≠ 45 ∧ c ≠ 43 ∧ c ≠ 46 := by
    intro n hn c hc
    have hd := (h n hn).2.1 c hc
    refine ⟨?_, ?_, ?_⟩ <;> · rintro rfl; exact absurd hd (by decide)
  have hcore : v.text = (v.major ++ 46 :: (v.minor ++ 46 :: v.patch)) ++
      (tagged 45 v.preRelease ++ tagged 43 v.build) := by
    simp [SemVer.text]
  have hrest : (tagged 45 v.preRelease ++ tagged 43 v.build).takeWhile
      (fun c => c != 45 && c != 43) = [] := by
    unfold tagged
    split_ifs <;> simp
  have hkeep : ∀ c ∈ v.major ++ 46 :: (v.minor ++ 46 :: v.patch), (c != 45 && c != 43) = true := by
    intro c hc
    rw [Bool.and_eq_true, bne_iff_ne, bne_iff_ne]
    simp only [List.mem_append, List.mem_cons] at hc
    obtain hc | rfl | hc | rfl | hc := hc
    · have hn := hdigits v.major (by simp) c hc
      exact ⟨hn.1, hn.2.1⟩
    · decide
    · have hn := hdigits v.minor (by simp) c hc
      exact ⟨hn.1, hn.2.1⟩
    · decide
    · have hn := hdigits v.patch (by simp) c hc
      exact ⟨hn.1, hn.2.1⟩
  have hdot : ∀ n ∈ [v.major, v.minor, v.patch], 46 ∉ n := fun n hn hc => (hdigits n hn 46 hc).2.2 rfl
  rw [hcore, List.takeWhile_append_of_pos hkeep, hrest, List.append_nil,
    List.splitOn_append_cons_self_of_not_mem (hdot v.major (by simp)),
    List.splitOn_append_cons_self_of_not_mem (hdot v.minor (by simp)),
    List.splitOn_eq_singleton (hdot v.patch (by simp))]

/-- What is taken for a version is one that npm reads as such. -/
theorem isVersion_valid {s : JsString} (h : isVersion s = true) : ValidVersion s := by
  rw [isVersion, Bool.and_eq_true, Bool.and_eq_true, decide_eq_true_eq, Regex.accepts_iff] at h
  obtain ⟨⟨hlength, hsemver⟩, hparts⟩ := h
  obtain ⟨v, hcore, hpre, hbuild, rfl⟩ := mem_SEMVER hsemver
  rw [core_parts hcore, List.all_eq_true] at hparts
  refine ⟨v, ⟨?_, hpre, hbuild, hlength⟩, rfl⟩
  intro n hn
  have hpart := hparts n hn
  rw [Bool.and_eq_true, decide_eq_true_eq, decide_eq_true_eq] at hpart
  exact ⟨hcore n hn, hpart.2⟩

/-- A range is one operator or none, and a version behind it. -/
theorem splitRange_eq_some {s : JsString} {r : Range} (h : splitRange s = some r) :
    r.operator ∈ [[], js "^", js "~"] ∧ ValidVersion r.version ∧ s = r.operator ++ r.version := by
  unfold splitRange at h
  simp only [Option.ite_none_right_eq_some, Bool.and_eq_true, Option.some.injEq] at h
  obtain ⟨⟨-, hversion⟩, rfl⟩ := h
  refine ⟨?_, isVersion_valid hversion, ?_⟩
  · split_ifs with hop
    · cases s with
      | nil => simp at hop
      | cons c s =>
        simp only [List.head?_cons, Option.some.injEq] at hop
        obtain rfl | rfl := hop
        · exact List.mem_cons_of_mem _ List.mem_cons_self
        · exact List.mem_cons_of_mem _ (List.mem_cons_of_mem _ List.mem_cons_self)
    · exact List.mem_cons_self
  · split_ifs
    · cases s <;> simp
    · rfl

end Adlc.RailsGuard
