import Adlc.Tickets.Canonical
import Mathlib.Data.List.DropRight

namespace Adlc.Tickets

open Adlc.Framework

def isSlugUnit (c : UInt16) : Bool := isDigit c || (97 ≤ c.toNat && c.toNat ≤ 122)

def isSurrogate (c : UInt16) : Bool := isHigh c || isLow c

/-- The string with U+FFFD in place of each surrogate. -/
def blank (s : JsString) : JsString := s.map fun c => if isSurrogate c then 0xFFFD else c

/-- The string as `[^a-z0-9]` sees it. -/
def slugUnits (s : JsString) : JsString := s.map fun c => if isSlugUnit c then c else 45

def lowerUnit (c : UInt16) : UInt16 := if 65 ≤ c.toNat ∧ c.toNat ≤ 90 then c + 32 else c

/-- The Unicode functions of the language. Neither looks into an unpaired surrogate, and neither
makes an ASCII letter of a surrogate or of U+FFFD. -/
class Unicode where
  nfkd : JsString → JsString
  toLowerCase : JsString → JsString
  nfkd_toWellFormed : ∀ s, nfkd (toWellFormed s) = toWellFormed (nfkd s)
  toLowerCase_ascii : ∀ s : JsString, (∀ c ∈ s, c.toNat < 128) → toLowerCase s = s.map lowerUnit
  toLowerCase_blank : ∀ s, slugUnits (toLowerCase (blank s)) = slugUnits (toLowerCase s)

/-- Unicode as ASCII ids see it. -/
@[reducible]
def asciiUnicode : Unicode where
  nfkd s := s
  toLowerCase s := s.map lowerUnit
  nfkd_toWellFormed _ := rfl
  toLowerCase_ascii _ _ := rfl
  toLowerCase_blank s := by
    simp only [slugUnits, blank, List.map_map]
    apply List.map_congr_left
    intro c _
    by_cases hs : isSurrogate c = true
    · have h1 : ¬isSlugUnit (lowerUnit 0xFFFD) = true := by decide
      have h2 : ¬isSlugUnit (lowerUnit c) = true := by
        simp only [isSurrogate, isHigh, isLow, Bool.or_eq_true, Bool.and_eq_true,
          decide_eq_true_eq] at hs
        have hl : lowerUnit c = c := if_neg (by omega)
        rw [hl]
        simp only [isSlugUnit, isDigit, Bool.or_eq_true, Bool.and_eq_true, decide_eq_true_eq]
        omega
      simp only [Function.comp_apply, if_pos hs, if_neg h1, if_neg h2]
    · simp only [Function.comp_apply, if_neg hs]

/-- The combining marks U+0300 to U+036F. -/
def isMark (c : UInt16) : Bool := 0x300 ≤ c.toNat && c.toNat ≤ 0x36F

/-- `s.replace(/[^…]+/g, '-')`, with what is kept in the class; the flag says that a run is being
skipped. -/
def replaceRuns (keep : UInt16 → Bool) : Bool → JsString → JsString
  | _, [] => []
  | inRun, c :: s =>
    if keep c then c :: replaceRuns keep false s
    else if inRun then replaceRuns keep true s
    else 45 :: replaceRuns keep true s

def isDash (c : UInt16) : Bool := c = 45

/-- `s.replace(/^-+|-+$/g, '')` -/
def trimDashes (s : JsString) : JsString := (s.dropWhile isDash).rdropWhile isDash

variable [Unicode]

def ticketSlug (id : JsString) : JsString :=
  let s := Unicode.toLowerCase ((Unicode.nfkd id).filter fun c => !isMark c)
  let slug := ((trimDashes (replaceRuns isSlugUnit false s)).take 48).rdropWhile isDash
  if slug = [] then js "ticket" else slug

def ticketFilename (id : JsString) : JsString :=
  ticketSlug id ++ js "--" ++ sha256Hex (utf8Encode id) ++ js ".json"

/-! ## Collisions -/

/-- A shard's name carries the digest of its id. -/
theorem ticketFilename_digest {a b : JsString} (h : ticketFilename a = ticketFilename b) :
    sha256Hex (utf8Encode a) = sha256Hex (utf8Encode b) := by
  unfold ticketFilename at h
  have h1 := List.append_cancel_right h
  have hl : (sha256Hex (utf8Encode a)).length = (sha256Hex (utf8Encode b)).length := by
    rw [(sha256Hex_spec _).1, (sha256Hex_spec _).1]
  exact (List.append_inj' h1 hl).2

omit [Unicode] in
theorem replaceRuns_slugUnits (s : JsString) (inRun : Bool) :
    replaceRuns isSlugUnit inRun (slugUnits s) = replaceRuns isSlugUnit inRun s := by
  induction s generalizing inRun with
  | nil => rfl
  | cons c s ih =>
    simp only [slugUnits, List.map_cons] at ih ⊢
    by_cases hc : isSlugUnit c = true
    · simp only [replaceRuns, if_pos hc, ih]
    · have h45 : ¬isSlugUnit 45 = true := by decide
      simp only [replaceRuns, if_neg hc, if_neg h45, ih]

omit [Unicode] in
theorem blank_toWellFormed (s : JsString) : blank (toWellFormed s) = blank s := by
  have hf : isSurrogate 0xFFFD = false := by decide
  fun_induction toWellFormed s with
  | case1 => rfl
  | case2 c hc =>
    have hs : isSurrogate c = true := by simp [isSurrogate, hc]
    simp [blank, hs, hf]
  | case3 c hc d r hd ih =>
    simp only [blank, List.map_cons] at ih ⊢
    rw [ih]
  | case4 c hc d r hd ih =>
    simp only [blank, List.map_cons] at ih ⊢
    have hs : isSurrogate c = true := by simp [isSurrogate, hc]
    rw [ih]
    simp [hs, hf]
  | case5 c r hc hl ih =>
    simp only [blank, List.map_cons] at ih ⊢
    have hs : isSurrogate c = true := by simp [isSurrogate, hl]
    rw [ih]
    simp [hs, hf]
  | case6 c r hc hl ih =>
    simp only [blank, List.map_cons] at ih ⊢
    rw [ih]

omit [Unicode] in
theorem isMark_of_surrogate {c : UInt16} (h : isSurrogate c = true) : isMark c = false := by
  simp only [isSurrogate, isHigh, isLow, Bool.or_eq_true, Bool.and_eq_true, decide_eq_true_eq] at h
  simp only [isMark, Bool.and_eq_false_iff, decide_eq_false_iff_not]
  omega

omit [Unicode] in
theorem blank_filter (s : JsString) :
    blank (s.filter fun c => !isMark c) = (blank s).filter fun c => !isMark c := by
  induction s with
  | nil => rfl
  | cons c s ih =>
    by_cases hs : isSurrogate c = true
    · have hm := isMark_of_surrogate hs
      have h0 : isMark 0xFFFD = false := by decide
      simp only [blank, List.map_cons] at ih ⊢
      rw [List.filter_cons_of_pos (by simp [hm]), if_pos hs, List.filter_cons_of_pos (by simp [h0]),
        List.map_cons, if_pos hs, ih]
    · simp only [blank, List.map_cons, if_neg hs] at ih ⊢
      by_cases hm : isMark c = true
      · rw [List.filter_cons_of_neg (by simp [hm]), List.filter_cons_of_neg (by simp [hm]), ih]
      · rw [List.filter_cons_of_pos (by simp [hm]), List.filter_cons_of_pos (by simp [hm]),
          List.map_cons, if_neg hs, ih]

theorem replaceRuns_lower_congr {s t : JsString} (h : blank s = blank t) :
    replaceRuns isSlugUnit false (Unicode.toLowerCase s) = replaceRuns isSlugUnit false (Unicode.toLowerCase t) := by
  rw [← replaceRuns_slugUnits, ← Unicode.toLowerCase_blank, h, Unicode.toLowerCase_blank,
    replaceRuns_slugUnits]

/-- Ids that differ in unpaired surrogates only share their shard's name. -/
theorem ticketFilename_congr {a b : JsString} (h : toWellFormed a = toWellFormed b) :
    ticketFilename a = ticketFilename b := by
  have hb : blank (Unicode.nfkd a) = blank (Unicode.nfkd b) := by
    rw [← blank_toWellFormed, ← Unicode.nfkd_toWellFormed, h, Unicode.nfkd_toWellFormed,
      blank_toWellFormed]
  have hf : blank ((Unicode.nfkd a).filter fun c => !isMark c) =
      blank ((Unicode.nfkd b).filter fun c => !isMark c) := by
    rw [blank_filter, blank_filter, hb]
  have hs : ticketSlug a = ticketSlug b := by
    simp only [ticketSlug, replaceRuns_lower_congr hf]
  unfold ticketFilename
  rw [hs, (utf8Encode_eq_iff a b).mpr h]

/-! ## The form of a shard's name -/

/-- `[a-z0-9-]` -/
def isNameUnit (c : UInt16) : Bool := isSlugUnit c || isDash c

/-- `/^[a-z0-9][a-z0-9-]*--[0-9a-f]{64}\.json$/` -/
def isShardFilename (s : JsString) : Bool :=
  let n := s.length - 71
  decide (71 < s.length) && (s.take n).all isNameUnit && (s.take 1).all isSlugUnit &&
    decide ((s.drop n).take 2 = js "--") && ((s.drop (n + 2)).take 64).all isHexUnit &&
    decide (s.drop (n + 66) = js ".json")

omit [Unicode] in
theorem replaceRuns_units (keep : UInt16 → Bool) (s : JsString) (inRun : Bool) :
    ∀ c ∈ replaceRuns keep inRun s, (c ∈ s ∧ keep c = true) ∨ c = 45 := by
  induction s generalizing inRun with
  | nil => simp [replaceRuns]
  | cons c s ih =>
    have hs : ∀ b, ∀ d ∈ replaceRuns keep b s, (d ∈ c :: s ∧ keep d = true) ∨ d = 45 := by
      intro b d hd
      rcases ih b d hd with ⟨hm, hk⟩ | h
      · exact Or.inl ⟨List.mem_cons_of_mem _ hm, hk⟩
      · exact Or.inr h
    rw [replaceRuns]
    split_ifs with h1 h2
    · intro d hd
      rcases List.mem_cons.mp hd with rfl | hd
      · exact Or.inl ⟨List.mem_cons_self, h1⟩
      · exact hs false d hd
    · exact hs true
    · intro d hd
      rcases List.mem_cons.mp hd with rfl | hd
      · exact Or.inr rfl
      · exact hs true d hd

/-- A slug is not empty, begins with a letter or a digit, and holds no other than these and dashes. -/
theorem ticketSlug_spec (id : JsString) :
    ∃ c s, ticketSlug id = c :: s ∧ isSlugUnit c = true ∧ ∀ d ∈ c :: s, isNameUnit d = true := by
  unfold ticketSlug
  simp only
  generalize Unicode.toLowerCase ((Unicode.nfkd id).filter fun c => !isMark c) = t
  split_ifs with h
  · exact ⟨116, js "icket", by decide, by decide, forall_mem_of_all (by decide)⟩
  · have hp : ((trimDashes (replaceRuns isSlugUnit false t)).take 48).rdropWhile isDash <+:
        (replaceRuns isSlugUnit false t).dropWhile isDash :=
      (List.rdropWhile_prefix _ _).trans ((List.take_prefix _ _).trans (List.rdropWhile_prefix _ _))
    cases e : ((trimDashes (replaceRuns isSlugUnit false t)).take 48).rdropWhile isDash with
    | nil => exact absurd e h
    | cons c s =>
      rw [e] at hp
      have hsub : ∀ d ∈ c :: s, isNameUnit d = true := by
        intro d hd
        rcases replaceRuns_units _ t false d ((List.dropWhile_suffix _).subset (hp.subset hd)) with
          ⟨-, hk⟩ | rfl
        · simp [isNameUnit, hk]
        · decide
      have hc : ¬isDash c = true := by
        obtain ⟨r, hr⟩ := hp
        have hne : (replaceRuns isSlugUnit false t).dropWhile isDash ≠ [] := by
          rw [← hr]
          simp
        have hh := List.head_dropWhile_not isDash hne
        simp only [← hr, List.cons_append, List.head_cons] at hh
        simp [hh]
      refine ⟨c, s, rfl, ?_, hsub⟩
      have hcn := hsub c (by simp)
      simpa [isNameUnit, hc] using hcn

theorem ticketFilename_isShard (id : JsString) : isShardFilename (ticketFilename id) = true := by
  obtain ⟨c, s, e, hc, hs⟩ := ticketSlug_spec id
  obtain ⟨hl, hh⟩ := sha256Hex_spec (utf8Encode id)
  have e2 : (js "--").length = 2 := by decide
  have e5 : (js ".json").length = 5 := by decide
  have hn : (ticketFilename id).length = (c :: s).length + 71 := by
    rw [ticketFilename, e]
    simp only [List.length_append, hl, e2, e5]
  have hd : ticketFilename id = (c :: s) ++ (js "--" ++ (sha256Hex (utf8Encode id) ++ js ".json")) := by
    rw [ticketFilename, e]
    simp only [List.append_assoc]
  unfold isShardFilename
  simp only [hn, Nat.add_sub_cancel]
  have d0 : (ticketFilename id).take (c :: s).length = c :: s := by
    rw [hd, List.take_left]
  have d1 : (ticketFilename id).take 1 = [c] := by
    rw [hd]
    rfl
  have d2 : (ticketFilename id).drop (c :: s).length =
      js "--" ++ (sha256Hex (utf8Encode id) ++ js ".json") := by
    rw [hd, List.drop_left]
  have d3 : (ticketFilename id).drop ((c :: s).length + 2) = sha256Hex (utf8Encode id) ++ js ".json" := by
    rw [← List.drop_drop, d2, ← e2, List.drop_left]
  have d4 : (ticketFilename id).drop ((c :: s).length + 66) = js ".json" := by
    rw [show (c :: s).length + 66 = (c :: s).length + 2 + 64 by omega, ← List.drop_drop, d3, ← hl,
      List.drop_left]
  rw [d0, d1, d2, d3, d4, ← e2, List.take_left, ← hl, List.take_left]
  simp only [List.all_eq_true.mpr hs, List.all_eq_true.mpr hh, List.all_cons, List.all_nil, hc,
    decide_true, Bool.and_true, decide_eq_true_eq]
  simp

end Adlc.Tickets
