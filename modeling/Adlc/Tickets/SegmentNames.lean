import Adlc.Tickets.Errors
import Adlc.Tickets.Filename

namespace Adlc.Tickets

open Adlc.Framework

/-! ## The name of a segment -/

def ulidAlphabet : JsString := js "0123456789ABCDEFGHJKMNPQRSTVWXYZ"

/-- `[0-9A-HJKMNP-TV-Z]` -/
def isUlidUnit (c : UInt16) : Bool :=
  isDigit c || (65 ≤ c.toNat && c.toNat ≤ 72) || c = 74 || c = 75 || c = 77 || c = 78 ||
    (80 ≤ c.toNat && c.toNat ≤ 84) || (86 ≤ c.toNat && c.toNat ≤ 90)

/-- `/^[a-z0-9-]{1,40}-[0-9A-HJKMNP-TV-Z]{26}\.jsonl$/` -/
def isSegmentName (s : JsString) : Bool :=
  let n := s.length - 33
  decide (33 < s.length ∧ s.length ≤ 73) && (s.take n).all isNameUnit &&
    decide ((s.drop n).take 1 = js "-") && ((s.drop (n + 1)).take 26).all isUlidUnit &&
    decide (s.drop (n + 27) = js ".jsonl")

def encodeUlidPart (value : Nat) : Nat → JsString
  | 0 => []
  | width + 1 => encodeUlidPart (value / 32) width ++ [ulidAlphabet.getD (value % 32) 48]

def bigEndian (b : Bytes) : Nat := b.foldl (fun n x => n * 256 + x.toNat) 0

def generateSegmentUlid (now : Nat) (entropy : Bytes) : Except TicketStoreError JsString :=
  if 0xffffffffffff < now then .error (unexpected (js "ULID timestamp out of range"))
  else if entropy.length ≠ 10 then .error (unexpected (js "ULID entropy must be 10 bytes"))
  else .ok (encodeUlidPart now 10 ++ encodeUlidPart (bigEndian entropy) 16)

def ulidOf (segmentName : JsString) : JsString :=
  (segmentName.drop (segmentName.length - 32)).take 26

def deriveSlug [Unicode] (branchName : JsString) : JsString :=
  let lowered := Unicode.toLowerCase branchName
  let substituted := replaceRuns isNameUnit false lowered
  let collapsed := trimDashes (replaceRuns (fun c => !isDash c) false substituted)
  let truncated := (collapsed.take 40).rdropWhile isDash
  if truncated = [] then js "segment" else truncated

/-! ## Its form -/

/-- A name in the grammar is a slug, a dash, a ULID and the suffix. -/
structure SegmentParts (s slug ulid : JsString) : Prop where
  eq : s = slug ++ (js "-" ++ (ulid ++ js ".jsonl"))
  slug_pos : 0 < slug.length
  slug_le : slug.length ≤ 40
  slug_units : ∀ c ∈ slug, isNameUnit c = true
  ulid_length : ulid.length = 26
  ulid_units : ∀ c ∈ ulid, isUlidUnit c = true

theorem isSegmentName_iff (s : JsString) :
    isSegmentName s = true ↔ ∃ slug ulid, SegmentParts s slug ulid := by
  have e1 : (js "-").length = 1 := by decide
  have e6 : (js ".jsonl").length = 6 := by decide
  constructor
  · intro h
    simp only [isSegmentName, Bool.and_eq_true, decide_eq_true_eq, List.all_eq_true] at h
    obtain ⟨⟨⟨⟨⟨h33, h73⟩, hs⟩, hd⟩, hu⟩, hx⟩ := h
    generalize hn : s.length - 33 = n at *
    have d0 : s = s.take n ++ s.drop n := (List.take_append_drop n s).symm
    have d1 : s.drop n = (s.drop n).take 1 ++ s.drop (n + 1) := by
      rw [← List.drop_drop, List.take_append_drop]
    have d2 : s.drop (n + 1) = (s.drop (n + 1)).take 26 ++ s.drop (n + 27) := by
      have h := List.take_append_drop 26 (s.drop (n + 1))
      rw [List.drop_drop] at h
      exact h.symm
    refine ⟨s.take n, (s.drop (n + 1)).take 26, ?_, ?_, ?_, hs, ?_, hu⟩
    · rw [← hx, ← d2, ← hd, ← d1, ← d0]
    · rw [List.length_take]
      omega
    · rw [List.length_take]
      omega
    · rw [List.length_take, List.length_drop]
      omega
  · rintro ⟨slug, ulid, h⟩
    have hl : s.length = slug.length + 33 := by
      rw [h.eq]
      simp only [List.length_append, e1, e6, h.ulid_length]
    have hn : s.length - 33 = slug.length := by omega
    have t0 : s.take slug.length = slug := by
      rw [h.eq, List.take_left]
    have t1 : s.drop slug.length = js "-" ++ (ulid ++ js ".jsonl") := by
      rw [h.eq, List.drop_left]
    have t2 : s.drop (slug.length + 1) = ulid ++ js ".jsonl" := by
      rw [← List.drop_drop, t1, ← e1, List.drop_left]
    have t3 : s.drop (slug.length + 27) = js ".jsonl" := by
      rw [show slug.length + 27 = slug.length + 1 + 26 by omega, ← List.drop_drop, t2,
        ← h.ulid_length, List.drop_left]
    have hp := h.slug_pos
    have hle := h.slug_le
    simp only [isSegmentName, hn, t0, t1, t2, t3, Bool.and_eq_true, decide_eq_true_eq,
      List.all_eq_true]
    refine ⟨⟨⟨⟨⟨by omega, by omega⟩, h.slug_units⟩, ?_⟩, ?_⟩, trivial⟩
    · rw [← e1, List.take_left]
    · rw [← h.ulid_length, List.take_left]
      exact h.ulid_units

theorem SegmentParts.ulidOf {s slug ulid : JsString} (h : SegmentParts s slug ulid) :
    ulidOf s = ulid := by
  have hl : s.length - 32 = (slug ++ js "-").length := by
    rw [h.eq]
    have e1 : (js "-").length = 1 := by decide
    have e6 : (js ".jsonl").length = 6 := by decide
    simp only [List.length_append, e1, e6, h.ulid_length]
    omega
  rw [Tickets.ulidOf, hl, h.eq, ← List.append_assoc, List.drop_left, ← h.ulid_length, List.take_left]

theorem encodeUlidPart_spec (value width : Nat) :
    (encodeUlidPart value width).length = width ∧
      ∀ c ∈ encodeUlidPart value width, isUlidUnit c = true := by
  have ha : ∀ c ∈ ulidAlphabet, isUlidUnit c = true := forall_mem_of_all (by decide)
  have hl : ulidAlphabet.length = 32 := by decide
  induction width generalizing value with
  | zero => simp [encodeUlidPart]
  | succ width ih =>
    obtain ⟨ihl, ihu⟩ := ih (value / 32)
    rw [encodeUlidPart]
    refine ⟨by rw [List.length_append, ihl]; rfl, ?_⟩
    intro c hc
    rcases List.mem_append.mp hc with hc | hc
    · exact ihu c hc
    · have hlt : value % 32 < ulidAlphabet.length := by omega
      rw [List.mem_singleton.mp hc, List.getD_eq_getElem?_getD, List.getElem?_eq_getElem hlt]
      exact ha _ (List.getElem_mem hlt)

theorem generateSegmentUlid_spec {now : Nat} {entropy : Bytes} {ulid : JsString}
    (h : generateSegmentUlid now entropy = .ok ulid) :
    ulid.length = 26 ∧ ∀ c ∈ ulid, isUlidUnit c = true := by
  unfold generateSegmentUlid at h
  split_ifs at h
  obtain ⟨l1, u1⟩ := encodeUlidPart_spec now 10
  obtain ⟨l2, u2⟩ := encodeUlidPart_spec (bigEndian entropy) 16
  rw [← Except.ok.inj h]
  refine ⟨by rw [List.length_append, l1, l2], ?_⟩
  intro c hc
  rcases List.mem_append.mp hc with hc | hc
  · exact u1 c hc
  · exact u2 c hc

theorem deriveSlug_spec [Unicode] (branchName : JsString) :
    0 < (deriveSlug branchName).length ∧ (deriveSlug branchName).length ≤ 40 ∧
      ∀ c ∈ deriveSlug branchName, isNameUnit c = true := by
  unfold deriveSlug
  simp only
  generalize Unicode.toLowerCase branchName = lowered
  split_ifs with h
  · exact ⟨by decide, by decide, forall_mem_of_all (by decide)⟩
  · have hp : ((trimDashes (replaceRuns (fun c => !isDash c) false
        (replaceRuns isNameUnit false lowered))).take 40).rdropWhile isDash <+:
        (trimDashes (replaceRuns (fun c => !isDash c) false
          (replaceRuns isNameUnit false lowered))).take 40 := List.rdropWhile_prefix _ _
    refine ⟨List.length_pos_iff.mpr h, ?_, ?_⟩
    · have hl := hp.length_le
      rw [List.length_take] at hl
      omega
    · intro c hc
      have h1 := List.mem_of_mem_take (hp.subset hc)
      have h2 := (List.dropWhile_suffix _).subset ((List.rdropWhile_prefix _ _).subset h1)
      rcases replaceRuns_units _ _ _ c h2 with ⟨h3, -⟩ | rfl
      · rcases replaceRuns_units _ _ _ c h3 with ⟨-, h4⟩ | rfl
        · exact h4
        · decide
      · decide

/-- The name of a minted segment is in the grammar. -/
theorem mintedName_parts [Unicode] (branchName : JsString) {now : Nat} {entropy : Bytes}
    {ulid : JsString} (h : generateSegmentUlid now entropy = .ok ulid) :
    SegmentParts (deriveSlug branchName ++ js "-" ++ ulid ++ js ".jsonl") (deriveSlug branchName)
      ulid := by
  obtain ⟨hp, hl, hu⟩ := deriveSlug_spec branchName
  obtain ⟨ul, uu⟩ := generateSegmentUlid_spec h
  exact ⟨by simp only [List.append_assoc], hp, hl, hu, ul, uu⟩

/-! ## Case -/

def upperUnit (c : UInt16) : UInt16 := if 97 ≤ c.toNat ∧ c.toNat ≤ 122 then c - 32 else c

theorem lowerUnit_nameUnit {c : UInt16} (h : isNameUnit c = true) : lowerUnit c = c := by
  rw [lowerUnit, if_neg]
  simp only [isNameUnit, isSlugUnit, isDigit, isDash, Bool.or_eq_true, Bool.and_eq_true,
    decide_eq_true_eq] at h
  rcases h with h | rfl
  · omega
  · decide

theorem mem_ulidAlphabet {c : UInt16} (h : isUlidUnit c = true) : c ∈ ulidAlphabet := by
  have hall : ∀ n < 128, isUlidUnit (UInt16.ofNat n) = true → UInt16.ofNat n ∈ ulidAlphabet := by
    decide
  have hlt : c.toNat < 128 := by
    simp only [isUlidUnit, isDigit, Bool.or_eq_true, Bool.and_eq_true, decide_eq_true_eq] at h
    rcases h with ((((((h | h) | rfl) | rfl) | rfl) | rfl) | h) | h
    · omega
    · omega
    · decide
    · decide
    · decide
    · decide
    · omega
    · omega
  rw [← unit_ofNat_toNat c] at h ⊢
  exact hall _ hlt h

theorem upperUnit_lowerUnit {c : UInt16} (h : isUlidUnit c = true) : upperUnit (lowerUnit c) = c := by
  have hall : ∀ c ∈ ulidAlphabet, upperUnit (lowerUnit c) = c :=
    forall_mem_of_all (by decide)
  exact hall c (mem_ulidAlphabet h)

theorem SegmentParts.ascii {s slug ulid : JsString} (h : SegmentParts s slug ulid) :
    ∀ c ∈ s, c.toNat < 128 := by
  have h1 : ∀ c ∈ js "-", c.toNat < 128 := forall_mem_of_all (by decide)
  have h2 : ∀ c ∈ js ".jsonl", c.toNat < 128 := forall_mem_of_all (by decide)
  have h3 : ∀ c ∈ ulidAlphabet, c.toNat < 128 := forall_mem_of_all (by decide)
  intro c hc
  rw [h.eq] at hc
  simp only [List.mem_append] at hc
  rcases hc with hc | hc | hc | hc
  · have hn := h.slug_units c hc
    simp only [isNameUnit, isSlugUnit, isDigit, isDash, Bool.or_eq_true, Bool.and_eq_true,
      decide_eq_true_eq] at hn
    rcases hn with hn | rfl
    · omega
    · decide
  · exact h1 c hc
  · exact h3 c (mem_ulidAlphabet (h.ulid_units c hc))
  · exact h2 c hc

/-- Two segment names that differ only in case are one. -/
theorem toLowerCase_segmentName_inj [Unicode] {a b : JsString} (ha : isSegmentName a = true)
    (hb : isSegmentName b = true) (h : Unicode.toLowerCase a = Unicode.toLowerCase b) : a = b := by
  obtain ⟨sa, ua, pa⟩ := (isSegmentName_iff a).mp ha
  obtain ⟨sb, ub, pb⟩ := (isSegmentName_iff b).mp hb
  rw [Unicode.toLowerCase_ascii a pa.ascii, Unicode.toLowerCase_ascii b pb.ascii] at h
  have hlen := congrArg List.length h
  rw [pa.eq, pb.eq] at h hlen
  simp only [List.length_map, List.length_append, pa.ulid_length, pb.ulid_length] at hlen
  simp only [List.map_append] at h
  obtain ⟨hs, h⟩ := List.append_inj h (by simp only [List.length_map]; omega)
  obtain ⟨-, h⟩ := List.append_inj h rfl
  obtain ⟨hu, -⟩ := List.append_inj' h rfl
  have fixed : ∀ {s : JsString}, (∀ c ∈ s, isNameUnit c = true) → s.map lowerUnit = s := by
    intro s hs
    rw [List.map_congr_left fun c hc => lowerUnit_nameUnit (hs c hc), List.map_id']
  have back : ∀ {u : JsString}, (∀ c ∈ u, isUlidUnit c = true) →
      (u.map lowerUnit).map upperUnit = u := by
    intro u hu
    have e : u.map (upperUnit ∘ lowerUnit) = u.map id :=
      List.map_congr_left fun c hc => upperUnit_lowerUnit (hu c hc)
    rw [List.map_map, e, List.map_id]
  rw [fixed pa.slug_units, fixed pb.slug_units] at hs
  have hu := congrArg (List.map upperUnit) hu
  rw [back pa.ulid_units, back pb.ulid_units] at hu
  rw [pa.eq, pb.eq, hs, hu]

end Adlc.Tickets
