import Adlc.Core.Glob

namespace Adlc.Autopilot

open Adlc.Framework Adlc.Core

/-! ## Scope against denylist -/

def dot : UInt16 := 46

/-- `String(p).replace(/^(\.\/)+/, '')` -/
def normalizePath : JsString → JsString
  | c :: d :: rest => if c = dot ∧ d = slash then normalizePath rest else c :: d :: rest
  | p => p

def literalPrefix (g : JsString) : JsString := g.takeWhile fun c => decide (c ≠ asterisk)

def hasWildcard (g : JsString) : Bool := decide (asterisk ∈ g)

/-- `a` is `b`, or lies under `b`. -/
def underPrefix (a b : JsString) : Bool :=
  if b = [] then true
  else if !b.isPrefixOf a then false
  else if a.length = b.length ∨ b.getLast? = some slash then true
  else a[b.length]? = some slash

def globsIntersect (scopeGlob denyGlob : JsString) : Bool :=
  let s := normalizePath scopeGlob
  let d := normalizePath denyGlob
  let ps := literalPrefix s
  let pd := literalPrefix d
  if s = [] ∨ [asterisk, asterisk] <+: s ∨ s = [asterisk] ∧ hasWildcard d = false ∧ slash ∉ d then true
  else if globMatch s d || globMatch d s then true
  else if hasWildcard s && underPrefix pd ps then true
  else if hasWildcard d && underPrefix ps pd then true
  else false

/-- An entry of a scope: a glob, or the text of a value that is no string. -/
inductive ScopeEntry where
  | glob (g : JsString)
  | malformed (text : JsString)

def scopeIntersects (scopeGlobs : List ScopeEntry) (globs : List JsString) : List JsString :=
  scopeGlobs.foldl (fun out entry =>
    match entry with
    | .malformed text => out ++ [text]
    | .glob g => if globs.any (globsIntersect g) && decide (g ∉ out) then out ++ [g] else out) []

/-! ## Patterns and the paths they match -/

theorem globTokens_cons {c : UInt16} (hc : c ≠ asterisk) (g : JsString) :
    globTokens (c :: g) = pushLiteral c (globTokens g) := by
  cases g with
  | nil => simp [globTokens, hc]
  | cons d g =>
    cases g with
    | nil => simp [globTokens, hc]
    | cons e g => rw [globTokens, if_neg hc]

theorem mem_pushLiteral (c : UInt16) (tokens : List GlobToken) (path : JsString) :
    path ∈ globLanguage (pushLiteral c tokens) ↔
      ∃ rest, path = c :: rest ∧ rest ∈ globLanguage tokens := by
  have hcons : ∀ (token : GlobToken) tokens, globLanguage (token :: tokens) =
      token.language * globLanguage tokens := by
    intro token tokens
    simp [globLanguage]
  unfold pushLiteral
  split
  · rename_i text tokens
    rw [hcons, hcons, Language.mem_mul]
    constructor
    · rintro ⟨a, ha, b, hb, hab⟩
      have ha : a = c :: text := ha
      subst ha
      exact ⟨text ++ b, hab.symm, Language.mem_mul.mpr ⟨text, rfl, b, hb, rfl⟩⟩
    · rintro ⟨rest, hpath, hrest⟩
      obtain ⟨a, ha, b, hb, hab⟩ := Language.mem_mul.mp hrest
      have ha : a = text := ha
      subst ha
      exact ⟨c :: a, rfl, b, hb, by rw [hpath, ← hab]; rfl⟩
  · rw [hcons, Language.mem_mul]
    constructor
    · rintro ⟨a, ha, b, hb, hab⟩
      have ha : a = [c] := ha
      subst ha
      exact ⟨b, hab.symm, hb⟩
    · rintro ⟨rest, hpath, hrest⟩
      exact ⟨[c], rfl, rest, hrest, hpath.symm⟩

/-- A unit that is no asterisk matches itself. -/
theorem globMatch_cons {c : UInt16} (hc : c ≠ asterisk) (g path : JsString) :
    globMatch (c :: g) path = true ↔ ∃ rest, path = c :: rest ∧ globMatch g rest = true := by
  rw [globMatch_eq_true_iff, globTokens_cons hc, mem_pushLiteral]
  simp only [globMatch_eq_true_iff]

theorem globMatch_nil (path : JsString) : globMatch [] path = true ↔ path = [] := by
  rw [globMatch_eq_true_iff]
  exact Iff.rfl

/-- Without asterisks a pattern matches itself and nothing else. -/
theorem globMatch_literal {g : JsString} (hg : asterisk ∉ g) (path : JsString) :
    globMatch g path = true ↔ path = g := by
  induction g generalizing path with
  | nil => exact globMatch_nil path
  | cons c g ih =>
    rw [List.mem_cons, not_or] at hg
    rw [globMatch_cons (Ne.symm hg.1)]
    constructor
    · intro ⟨rest, hpath, hrest⟩
      rw [hpath, (ih hg.2 rest).mp hrest]
    · intro hpath
      exact ⟨g, hpath, (ih hg.2 g).mpr rfl⟩

/-- Every matched path begins with the literal prefix. -/
theorem literalPrefix_of_globMatch {g path : JsString} (h : globMatch g path = true) :
    literalPrefix g <+: path := by
  induction g generalizing path with
  | nil => exact List.nil_prefix
  | cons c g ih =>
    unfold literalPrefix
    rw [List.takeWhile_cons]
    split_ifs with hc
    · obtain ⟨rest, rfl, hrest⟩ := (globMatch_cons (of_decide_eq_true hc) g path).mp h
      exact List.prefix_cons_inj c |>.mpr (ih hrest)
    · exact List.nil_prefix

/-! ## Literal prefixes -/

/-- How often the pattern begins with a dot and a slash. -/
def leadingDots : JsString → Nat
  | c :: d :: rest => if c = dot ∧ d = slash then leadingDots rest + 1 else 0
  | _ => 0

/-- The shorter text ends where a segment of the longer one ends. -/
def EndsSegment (short long : JsString) : Prop :=
  short = [] ∨ short = long ∨ short.getLast? = some slash ∨ long[short.length]? = some slash

theorem underPrefix_iff (a b : JsString) :
    underPrefix a b = true ↔ b <+: a ∧ EndsSegment b a := by
  unfold underPrefix EndsSegment
  constructor
  · intro h
    split_ifs at h with h1 h2 h3
    · rw [h1]
      exact ⟨List.nil_prefix, Or.inl rfl⟩
    all_goals
      have hp : b <+: a := by simpa using h2
      refine ⟨hp, ?_⟩
    · obtain hlen | hslash := h3
      · exact Or.inr (Or.inl (hp.eq_of_length hlen.symm))
      · exact Or.inr (Or.inr (Or.inl hslash))
    · exact Or.inr (Or.inr (Or.inr (of_decide_eq_true h)))
  · intro ⟨hp, h⟩
    have hp' : ¬(!b.isPrefixOf a) = true := by simpa using hp
    split_ifs with h1 h2
    · rfl
    · rfl
    · rw [not_or] at h2
      obtain h | h | h | h := h
      · exact absurd h h1
      · exact absurd (congrArg List.length h.symm) h2.1
      · exact absurd h h2.2
      · exact decide_eq_true h

theorem literalPrefix_eq_nil {g : JsString} (h : literalPrefix g = []) :
    g = [] ∨ g.head? = some asterisk := by
  cases g with
  | nil => exact Or.inl rfl
  | cons c g =>
    right
    unfold literalPrefix at h
    rw [List.takeWhile_cons] at h
    split_ifs at h with hc
    rw [List.head?_cons, Option.some.injEq]
    simpa using hc

theorem literalPrefix_of_head {g : JsString} (h : g.head? = some asterisk) :
    literalPrefix g = [] ∧ hasWildcard g = true := by
  cases g with
  | nil => cases h
  | cons c g =>
    have hc : c = asterisk := by simpa using h
    subst hc
    exact ⟨by simp [literalPrefix], by simp [hasWildcard]⟩

/-- The two shortcuts aside, two globs intersect when one matches the other's text or one has a star
and a literal prefix that the other's lies under. -/
theorem globsIntersect_iff (scopeGlob denyGlob : JsString) :
    globsIntersect scopeGlob denyGlob = true ↔
      normalizePath scopeGlob = [] ∨
      globMatch (normalizePath scopeGlob) (normalizePath denyGlob) = true ∨
      globMatch (normalizePath denyGlob) (normalizePath scopeGlob) = true ∨
      (hasWildcard (normalizePath scopeGlob) = true ∧
        underPrefix (literalPrefix (normalizePath denyGlob))
          (literalPrefix (normalizePath scopeGlob)) = true) ∨
      (hasWildcard (normalizePath denyGlob) = true ∧
        underPrefix (literalPrefix (normalizePath scopeGlob))
          (literalPrefix (normalizePath denyGlob)) = true) := by
  have hstar : ∀ s d : JsString, s.head? = some asterisk →
      hasWildcard s = true ∧ underPrefix (literalPrefix d) (literalPrefix s) = true := by
    intro s d hs
    obtain ⟨hp, hw⟩ := literalPrefix_of_head hs
    exact ⟨hw, by rw [hp]; rfl⟩
  unfold globsIntersect
  dsimp only
  constructor
  · intro h
    split_ifs at h with h1 h2 h3 h4
    · obtain h1 | h1 | h1 := h1
      · exact Or.inl h1
      · right; right; right; left
        apply hstar
        obtain ⟨rest, hrest⟩ := h1
        rw [← hrest]
        rfl
      · right; right; right; left
        apply hstar
        rw [h1.1]
        rfl
    · rw [Bool.or_eq_true] at h2
      tauto
    · rw [Bool.and_eq_true] at h3
      tauto
    · rw [Bool.and_eq_true] at h4
      tauto
  · intro h
    split_ifs with h1 h2 h3 h4
    · rfl
    · rfl
    · rfl
    · rfl
    · rw [Bool.or_eq_true] at h2
      rw [Bool.and_eq_true] at h3 h4
      tauto

/-! ## Patterns with a common path -/

/-- The case in which the check sees that the two patterns reach a common path: one matches the text
of the other, or they are written with as many leading `./` and one has no star or the shorter of
their literal prefixes ends where a segment of the longer ends, or, written with different
numbers of them, one begins with a star, or both have the prefix `.`, or the scope is nothing else. -/
def SeesCommonPath (scopeGlob denyGlob : JsString) : Prop :=
  let s := normalizePath scopeGlob
  let d := normalizePath denyGlob
  let ps := literalPrefix s
  let pd := literalPrefix d
  globMatch s d = true ∨ globMatch d s = true ∨
    if leadingDots scopeGlob = leadingDots denyGlob then
      hasWildcard s = false ∨ hasWildcard d = false ∨
        if ps.length ≤ pd.length then EndsSegment ps pd else EndsSegment pd ps
    else
      s = [] ∨ s.head? = some asterisk ∨ d.head? = some asterisk ∨ ps = [dot] ∧ pd = [dot]

theorem normalizePath_of_leadingDots {g : JsString} (h : leadingDots g = 0) :
    normalizePath g = g := by
  cases g with
  | nil => rfl
  | cons c g =>
    cases g with
    | nil => rfl
    | cons d g =>
      rw [leadingDots] at h
      rw [normalizePath]
      split_ifs at h with hc
      rw [if_neg hc]

theorem leadingDots_normalizePath (g : JsString) : leadingDots (normalizePath g) = 0 := by
  fun_induction normalizePath g with
  | case1 c d rest hc ih => exact ih
  | case2 c d rest hc => rw [leadingDots, if_neg hc]
  | case3 g hno =>
    cases g with
    | nil => rfl
    | cons c g =>
      cases g with
      | nil => rfl
      | cons d g => exact absurd rfl (hno c d g)

/-- A pattern with a leading `./` matches what the rest matches behind a `./`. -/
theorem globMatch_dotted (g path : JsString) :
    globMatch (dot :: slash :: g) path = true ↔
      ∃ rest, path = dot :: slash :: rest ∧ globMatch g rest = true := by
  have hdot : dot ≠ asterisk := by decide
  have hslash : slash ≠ asterisk := by decide
  rw [globMatch_cons hdot]
  constructor
  · intro ⟨rest, hpath, h⟩
    obtain ⟨rest', rfl, h'⟩ := (globMatch_cons hslash g rest).mp h
    exact ⟨rest', hpath, h'⟩
  · intro ⟨rest, hpath, h⟩
    exact ⟨slash :: rest, hpath, (globMatch_cons hslash g _).mpr ⟨rest, rfl, h⟩⟩

/-- The check on patterns without leading `./`. -/
theorem intersect_undotted {s d path : JsString} (hs : globMatch s path = true)
    (hd : globMatch d path = true) :
    (s = [] ∨ globMatch s d = true ∨ globMatch d s = true ∨
      (hasWildcard s = true ∧ underPrefix (literalPrefix d) (literalPrefix s) = true) ∨
      (hasWildcard d = true ∧ underPrefix (literalPrefix s) (literalPrefix d) = true)) ↔
    (globMatch s d = true ∨ globMatch d s = true ∨ hasWildcard s = false ∨ hasWildcard d = false ∨
      if (literalPrefix s).length ≤ (literalPrefix d).length then
        EndsSegment (literalPrefix s) (literalPrefix d)
      else EndsSegment (literalPrefix d) (literalPrefix s)) := by
  have hps := literalPrefix_of_globMatch hs
  have hpd := literalPrefix_of_globMatch hd
  have hplain : ∀ {a b : JsString}, globMatch a path = true → globMatch b path = true →
      hasWildcard a = false → globMatch b a = true := by
    intro a b ha hb hw
    have hpath := (globMatch_literal (of_decide_eq_false hw) path).mp ha
    rwa [hpath] at hb
  rw [underPrefix_iff, underPrefix_iff]
  constructor
  · intro h
    obtain h | h | h | ⟨-, hp, hend⟩ | ⟨-, hp, hend⟩ := h
    · rw [h]
      right; right; left
      rfl
    · exact Or.inl h
    · exact Or.inr (Or.inl h)
    · right; right; right; right
      rw [if_pos hp.length_le]
      exact hend
    · right; right; right; right
      split_ifs with hle
      · have e := hp.eq_of_length (le_antisymm hp.length_le hle)
        rw [e]
        exact Or.inr (Or.inl rfl)
      · exact hend
  · intro h
    obtain h | h | h | h | h := h
    · exact Or.inr (Or.inl h)
    · exact Or.inr (Or.inr (Or.inl h))
    · exact Or.inr (Or.inr (Or.inl (hplain hs hd h)))
    · exact Or.inr (Or.inl (hplain hd hs h))
    · cases hws : hasWildcard s with
      | false => exact Or.inr (Or.inr (Or.inl (hplain hs hd hws)))
      | true =>
        cases hwd : hasWildcard d with
        | false => exact Or.inr (Or.inl (hplain hd hs hwd))
        | true =>
          split_ifs at h with hle
          · have hp := List.prefix_of_prefix_length_le hps hpd hle
            exact Or.inr (Or.inr (Or.inr (Or.inl ⟨rfl, hp, h⟩)))
          · have hp := List.prefix_of_prefix_length_le hpd hps (by omega)
            exact Or.inr (Or.inr (Or.inr (Or.inr ⟨rfl, hp, h⟩)))

/-- The prefix of a pattern that matches a path with a leading `./` and is written without one. -/
theorem undotted_wild {g path : JsString} (h0 : leadingDots g = 0)
    (h : globMatch g (dot :: slash :: path) = true) :
    hasWildcard g = true ∧ (literalPrefix g = [] ∨ literalPrefix g = [dot]) := by
  have hp := literalPrefix_of_globMatch h
  have hnot : ∀ rest, ¬literalPrefix g = dot :: slash :: rest := by
    intro rest he
    obtain ⟨tail, htail⟩ : literalPrefix g <+: g := List.takeWhile_prefix _
    rw [he] at htail
    rw [← htail, List.cons_append, List.cons_append, leadingDots, if_pos ⟨rfl, rfl⟩] at h0
    omega
  constructor
  · cases hw : hasWildcard g with
    | true => rfl
    | false =>
      have hpath := (globMatch_literal (of_decide_eq_false hw) _).mp h
      rw [← hpath, leadingDots, if_pos ⟨rfl, rfl⟩] at h0
      omega
  · cases hl : literalPrefix g with
    | nil => exact Or.inl rfl
    | cons c l =>
      rw [hl, List.cons_prefix_cons] at hp
      cases l with
      | nil => exact Or.inr (by rw [hp.1])
      | cons d l =>
        have hd := (List.cons_prefix_cons.mp hp.2).1
        exact absurd hl (by rw [hp.1, hd]; exact hnot l)

/-- A prefix that goes on with a slash after the dot is the prefix of a pattern with a leading `./`. -/
theorem underDot {h : JsString} (h0 : leadingDots h = 0) :
    underPrefix (literalPrefix h) [dot] = true ↔ literalPrefix h = [dot] := by
  rw [underPrefix_iff]
  constructor
  · intro ⟨hp, hend⟩
    obtain hend | hend | hend | hend := hend
    · cases hend
    · exact hend.symm
    · exact absurd hend (by decide)
    · obtain ⟨tail, htail⟩ := hp
      rw [← htail] at hend
      cases tail with
      | nil => cases hend
      | cons c tail =>
        have hc : c = slash := by simpa using hend
        obtain ⟨rest, hrest⟩ : literalPrefix h <+: h := List.takeWhile_prefix _
        rw [← htail, hc] at hrest
        rw [← hrest] at h0
        simp [leadingDots] at h0
  · intro hd
    rw [hd]
    exact ⟨List.prefix_refl _, Or.inr (Or.inl rfl)⟩

/-- One of the patterns is written with more leading `./`: `g` with fewer, `h` with more. -/
theorem intersect_dotted {g h path : JsString} (hg : leadingDots g = 0) (hh : leadingDots h = 0)
    (hmatch : globMatch g (dot :: slash :: path) = true) :
    (hasWildcard g = true ∧ underPrefix (literalPrefix h) (literalPrefix g) = true ∨
      hasWildcard h = true ∧ underPrefix (literalPrefix g) (literalPrefix h) = true) ↔
    (g.head? = some asterisk ∨ h.head? = some asterisk ∨
      literalPrefix g = [dot] ∧ literalPrefix h = [dot]) := by
  obtain ⟨hw, hp⟩ := undotted_wild hg hmatch
  have hstar : ∀ {a : JsString}, hasWildcard a = true → literalPrefix a = [] →
      a.head? = some asterisk := by
    intro a ha hl
    obtain rfl | hhead := literalPrefix_eq_nil hl
    · cases ha
    · exact hhead
  constructor
  · intro hor
    obtain ⟨-, hu⟩ | ⟨hwh, hu⟩ := hor
    · obtain hp | hp := hp
      · exact Or.inl (hstar hw hp)
      · rw [hp] at hu
        exact Or.inr (Or.inr ⟨hp, (underDot hh).mp hu⟩)
    · obtain hp | hp := hp
      · exact Or.inl (hstar hw hp)
      · rw [hp, underPrefix_iff] at hu
        obtain ⟨hpre, -⟩ := hu
        cases hl : literalPrefix h with
        | nil => exact Or.inr (Or.inl (hstar hwh hl))
        | cons c l =>
          rw [hl, List.cons_prefix_cons] at hpre
          have hnil := List.prefix_nil.mp hpre.2
          exact Or.inr (Or.inr ⟨hp, by rw [hpre.1, hnil]⟩)
  · intro hor
    obtain hhead | hhead | ⟨hpg, hph⟩ := hor
    · obtain ⟨hl, hw'⟩ := literalPrefix_of_head hhead
      exact Or.inl ⟨hw', by rw [hl]; rfl⟩
    · obtain ⟨hl, hw'⟩ := literalPrefix_of_head hhead
      exact Or.inr ⟨hw', by rw [hl]; rfl⟩
    · exact Or.inl ⟨hw, by rw [hpg]; exact (underDot hh).mpr hph⟩

theorem leadingDots_pos {g : JsString} (h : leadingDots g ≠ 0) : ∃ rest, g = dot :: slash :: rest := by
  cases g with
  | nil => exact absurd rfl h
  | cons c g =>
    cases g with
    | nil => exact absurd rfl h
    | cons d g =>
      rw [leadingDots] at h
      split_ifs at h with hc
      · exact ⟨g, by rw [hc.1, hc.2]⟩
      · exact absurd rfl h

theorem dotted (g : JsString) : leadingDots (dot :: slash :: g) = leadingDots g + 1 ∧
    normalizePath (dot :: slash :: g) = normalizePath g := by
  rw [leadingDots, normalizePath, if_pos ⟨rfl, rfl⟩, if_pos ⟨rfl, rfl⟩]
  exact ⟨rfl, rfl⟩

theorem or_rotate (a b c x : Prop) : a ∨ b ∨ c ∨ x ↔ b ∨ c ∨ a ∨ x := by tauto

theorem or_exchange (h k p q : Prop) : h ∨ k ∨ p ∧ q ↔ k ∨ h ∨ q ∧ p := by tauto

/-- A glob of the scope and one of the denylist that match one path intersect for the check just when
it sees the common path. -/
theorem globsIntersect_common {scopeGlob denyGlob path : JsString}
    (hs : globMatch scopeGlob path = true) (hd : globMatch denyGlob path = true) :
    globsIntersect scopeGlob denyGlob = true ↔ SeesCommonPath scopeGlob denyGlob := by
  rw [globsIntersect_iff]
  unfold SeesCommonPath
  dsimp only
  induction hn : leadingDots scopeGlob generalizing scopeGlob denyGlob path with
  | zero =>
    have hscope := normalizePath_of_leadingDots hn
    by_cases hm : leadingDots denyGlob = 0
    · rw [hm, if_pos rfl, hscope, normalizePath_of_leadingDots hm]
      exact intersect_undotted hs hd
    · obtain ⟨deny, rfl⟩ := leadingDots_pos hm
      obtain ⟨rest, rfl, -⟩ := (globMatch_dotted deny path).mp hd
      have hside := intersect_dotted hn (leadingDots_normalizePath (dot :: slash :: deny)) hs
      rw [if_neg (Ne.symm hm), hscope, hside]
      exact or_rotate _ _ _ _
  | succ n ih =>
    obtain ⟨scope, rfl⟩ := leadingDots_pos (by rw [hn]; exact Nat.succ_ne_zero n)
    obtain ⟨rest, rfl, hrest⟩ := (globMatch_dotted scope path).mp hs
    by_cases hm : leadingDots denyGlob = 0
    · have hside := intersect_dotted hm (leadingDots_normalizePath (dot :: slash :: scope)) hd
      rw [or_exchange] at hside
      rw [if_neg (by rw [hm]; exact Nat.succ_ne_zero n), normalizePath_of_leadingDots hm, ← hside,
        or_rotate, or_comm (a := hasWildcard (normalizePath (dot :: slash :: scope)) = true ∧ _)]
    · obtain ⟨deny, rfl⟩ := leadingDots_pos hm
      obtain ⟨rest', he, hrest'⟩ := (globMatch_dotted deny _).mp hd
      simp only [List.cons.injEq, true_and] at he
      subst he
      obtain ⟨hds, hns⟩ := dotted scope
      obtain ⟨hdd, hnd⟩ := dotted deny
      have hn' : leadingDots scope = n := by omega
      rw [hns, hnd, hdd, ih hrest hrest' hn']
      simp only [Nat.add_right_cancel_iff]

/-- A star inside a segment: the scope reaches a protected file and the check does not see it. -/
theorem star_inside_segment :
    globMatch (js "packages/c*/lib/glob.mjs") (js "packages/core/lib/glob.mjs") = true ∧
      globMatch (js "packages/core/**") (js "packages/core/lib/glob.mjs") = true ∧
      scopeIntersects [.glob (js "packages/c*/lib/glob.mjs")] [js "packages/core/**"] = [] := by
  decide +kernel

theorem globsIntersect_common_seen :
    globMatch (js "packages/*/lib/*.mjs") (js "packages/core/lib/glob.mjs") = true ∧
      globMatch (js "packages/core/**") (js "packages/core/lib/glob.mjs") = true ∧
      (globsIntersect (js "packages/*/lib/*.mjs") (js "packages/core/**") = true ↔
        SeesCommonPath (js "packages/*/lib/*.mjs") (js "packages/core/**")) := by
  have hs : globMatch (js "packages/*/lib/*.mjs") (js "packages/core/lib/glob.mjs") = true := by
    decide +kernel
  have hd : globMatch (js "packages/core/**") (js "packages/core/lib/glob.mjs") = true := by
    decide +kernel
  exact ⟨hs, hd, globsIntersect_common hs hd⟩

end Adlc.Autopilot
