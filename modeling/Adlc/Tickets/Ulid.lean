import Adlc.Framework.Positional
import Adlc.Tickets.ManifestPrimitives

namespace Adlc.Tickets

open Adlc.Framework

/-! The order of ULIDs. -/

/-- `a < b` on strings -/
def unitLt (a b : JsString) : Prop := a.map UInt16.toNat < b.map UInt16.toNat

def generateTicketId (now : Nat) (entropy : Bytes) : Except TicketStoreError JsString :=
  if 0xffffffffffff < now then .error (unexpected (js "ULID timestamp out of range"))
  else if entropy.length ≠ 10 then .error (unexpected (js "ULID entropy must be 10 bytes"))
  else .ok (js "T-" ++ (encodeUlidPart now 10 ++ encodeUlidPart (bigEndian entropy) 16))

/-- `/^T-[0-7][0-9A-HJKMNP-TV-Z]{25}$/` -/
def isGeneratedTicketId (id : JsString) : Bool :=
  decide (id.take 2 = js "T-") && decide (id.length = 28) &&
    ((id.drop 2).take 1).all (fun c => 48 ≤ c.toNat && c.toNat ≤ 55) && (id.drop 3).all isUlidUnit

/-- What a ULID is made of: a time below 2^48 and ten random bytes. -/
@[ext] structure UlidSource where
  now : Nat
  entropy : Bytes
  inRange : now < 2 ^ 48
  size : entropy.length = 10

def UlidSource.ulid (s : UlidSource) : JsString :=
  encodeUlidPart s.now 10 ++ encodeUlidPart (bigEndian s.entropy) 16

/-- Earlier, or at the same time with smaller bytes. -/
def UlidSource.Before (s t : UlidSource) : Prop :=
  s.now < t.now ∨ (s.now = t.now ∧ s.entropy.map UInt8.toNat < t.entropy.map UInt8.toNat)

/-! ## Digits -/

def ulidDigits (value : Nat) : Nat → List Nat
  | 0 => []
  | width + 1 => ulidDigits (value / 32) width ++ [value % 32]

theorem ulidDigits_length (value width : Nat) : (ulidDigits value width).length = width := by
  induction width generalizing value with
  | zero => rfl
  | succ width ih => rw [ulidDigits, List.length_append, ih, List.length_singleton]

theorem ulidDigits_lt (value width : Nat) : ∀ d ∈ ulidDigits value width, d < 32 := by
  induction width generalizing value with
  | zero => exact fun d hd => absurd hd List.not_mem_nil
  | succ width ih =>
    rw [ulidDigits, List.forall_mem_append, List.forall_mem_singleton]
    exact ⟨ih _, Nat.mod_lt _ (by decide)⟩

theorem positional_ulidDigits {value width : Nat} (h : value < 32 ^ width) :
    positional 32 (ulidDigits value width) = value := by
  induction width generalizing value with
  | zero => exact (Nat.lt_one_iff.mp h).symm
  | succ width ih =>
    have hdiv : value / 32 < 32 ^ width := by
      rw [Nat.div_lt_iff_lt_mul (by decide), ← Nat.pow_succ]
      exact h
    rw [ulidDigits, positional_concat, ih hdiv]
    omega

theorem encodeUlidPart_eq (value width : Nat) :
    encodeUlidPart value width = (ulidDigits value width).map fun d => ulidAlphabet.getD d 48 := by
  induction width generalizing value with
  | zero => rfl
  | succ width ih => rw [encodeUlidPart, ulidDigits, List.map_append, ih, List.map_singleton]

/-- The alphabet goes up. -/
theorem ulidAlphabet_lt_iff : ∀ i < 32, ∀ j < 32,
    ((ulidAlphabet.getD i 48).toNat < (ulidAlphabet.getD j 48).toNat ↔ i < j) ∧
      ((ulidAlphabet.getD i 48).toNat = (ulidAlphabet.getD j 48).toNat ↔ i = j) := by
  decide +kernel

theorem bigEndian_eq (b : Bytes) : bigEndian b = positional 256 (b.map UInt8.toNat) := by
  rw [bigEndian, positional, List.foldl_map]

theorem bigEndian_lt (b : Bytes) : bigEndian b < 256 ^ b.length := by
  induction b using List.reverseRecOn with
  | nil => exact Nat.one_pos
  | append_singleton b x ih =>
    have hx := x.toNat_lt
    have hconcat : bigEndian (b ++ [x]) = bigEndian b * 256 + x.toNat := by
      rw [bigEndian, List.foldl_append]
      rfl
    rw [hconcat, List.length_append, List.length_singleton, Nat.pow_succ]
    omega

theorem byteDigits_lt (b : Bytes) : ∀ d ∈ b.map UInt8.toNat, d < 256 := by
  intro d hd
  obtain ⟨x, -, rfl⟩ := List.mem_map.mp hd
  exact x.toNat_lt

/-! ## Order and form -/

def UlidSource.digits (s : UlidSource) : List Nat :=
  ulidDigits s.now 10 ++ ulidDigits (bigEndian s.entropy) 16

theorem UlidSource.digits_lt (s : UlidSource) : ∀ d ∈ s.digits, d < 32 := by
  intro d hd
  obtain hd | hd := List.mem_append.mp hd
  · exact ulidDigits_lt _ _ d hd
  · exact ulidDigits_lt _ _ d hd

theorem UlidSource.ulid_eq (s : UlidSource) :
    s.ulid = s.digits.map fun d => ulidAlphabet.getD d 48 := by
  rw [ulid, digits, List.map_append, encodeUlidPart_eq, encodeUlidPart_eq]

theorem UlidSource.now_digits (s : UlidSource) : positional 32 (ulidDigits s.now 10) = s.now :=
  positional_ulidDigits (lt_trans s.inRange (by decide))

theorem UlidSource.entropy_digits (s : UlidSource) :
    positional 32 (ulidDigits (bigEndian s.entropy) 16) = bigEndian s.entropy := by
  refine positional_ulidDigits (lt_of_lt_of_eq (bigEndian_lt s.entropy) ?_)
  rw [s.size]
  decide

theorem UlidSource.digits_lt_iff (s t : UlidSource) : s.digits < t.digits ↔ s.Before t := by
  have hnow : ulidDigits s.now 10 = ulidDigits t.now 10 ↔ s.now = t.now := by
    refine ⟨fun h => ?_, congrArg fun n => ulidDigits n 10⟩
    rw [← s.now_digits, h, t.now_digits]
  have hlength : ∀ m n w, (ulidDigits m w).length = (ulidDigits n w).length := by
    intro m n w
    rw [ulidDigits_length, ulidDigits_length]
  have hbytes : (s.entropy.map UInt8.toNat).length = (t.entropy.map UInt8.toNat).length := by
    rw [List.length_map, List.length_map, s.size, t.size]
  rw [digits, digits, append_lt_append_iff (hlength _ _ _), hnow,
    ← positional_lt_iff (hlength _ _ _) (ulidDigits_lt _ _) (ulidDigits_lt _ _), s.now_digits, t.now_digits,
    ← positional_lt_iff (hlength _ _ _) (ulidDigits_lt _ _) (ulidDigits_lt _ _), s.entropy_digits,
    t.entropy_digits, bigEndian_eq, bigEndian_eq,
    positional_lt_iff hbytes (byteDigits_lt _) (byteDigits_lt _)]
  exact Iff.rfl

/-- ULIDs are ordered as their times, then as their bytes. -/
theorem UlidSource.ulid_lt_iff (s t : UlidSource) : unitLt s.ulid t.ulid ↔ s.Before t := by
  rw [← s.digits_lt_iff, unitLt, s.ulid_eq, t.ulid_eq, List.map_map, List.map_map]
  exact map_lt_map_iff fun d hd e he => ulidAlphabet_lt_iff d (s.digits_lt d hd) e (t.digits_lt e he)

theorem UlidSource.before_total {s t : UlidSource} (hs : ¬s.Before t) (ht : ¬t.Before s) : s = t := by
  unfold Before at hs ht
  have hnow : s.now = t.now := by omega
  have hentropy : s.entropy.map UInt8.toNat = t.entropy.map UInt8.toNat := by
    refine le_antisymm (not_lt.mp fun h => ht (Or.inr ⟨hnow.symm, h⟩)) (not_lt.mp fun h => hs (Or.inr ⟨hnow, h⟩))
  refine UlidSource.ext hnow (List.map_injective_iff.mpr ?_ hentropy)
  exact fun a b h => UInt8.toNat_inj.mp h

theorem UlidSource.ulid_injective {s t : UlidSource} (h : s.ulid = t.ulid) : s = t := by
  have hirrefl : ¬unitLt t.ulid t.ulid := lt_irrefl _
  refine before_total ?_ ?_
  · rw [← s.ulid_lt_iff, h]
    exact hirrefl
  · rw [← t.ulid_lt_iff, h]
    exact hirrefl

theorem UlidSource.ulid_form (s : UlidSource) :
    generateSegmentUlid s.now s.entropy = .ok s.ulid ∧ s.ulid.length = 26 ∧
      ∀ c ∈ s.ulid, c ∈ ulidAlphabet := by
  have hrange : ¬0xffffffffffff < s.now := by
    have h := s.inRange
    omega
  have hgenerate : generateSegmentUlid s.now s.entropy = .ok s.ulid := by
    rw [generateSegmentUlid, if_neg hrange, if_neg (not_not.mpr s.size)]
    rfl
  obtain ⟨hlength, hunits⟩ := generateSegmentUlid_spec hgenerate
  exact ⟨hgenerate, hlength, fun c hc => mem_ulidAlphabet (hunits c hc)⟩

theorem ulidDigits_head (value width : Nat) :
    (ulidDigits value (width + 1)).head? = some (value / 32 ^ width % 32) := by
  induction width generalizing value with
  | zero =>
    rw [Nat.pow_zero, Nat.div_one]
    rfl
  | succ width ih =>
    have hne : ulidDigits (value / 32) (width + 1) ≠ [] := by
      intro h
      rw [← List.head?_eq_none_iff, ih] at h
      cases h
    rw [ulidDigits, List.head?_append_of_ne_nil _ hne, ih, Nat.div_div_eq_div_mul, Nat.pow_succ']

/-- A time below 2^48 leaves the first character at most `7`. -/
theorem UlidSource.ulid_head (s : UlidSource) :
    ∃ c rest, s.ulid = c :: rest ∧ 48 ≤ c.toNat ∧ c.toNat ≤ 55 := by
  have hsmall : ∀ d < 8, 48 ≤ (ulidAlphabet.getD d 48).toNat ∧ (ulidAlphabet.getD d 48).toNat ≤ 55 := by
    decide +kernel
  have hhead : s.digits.head? = some (s.now / 32 ^ 9 % 32) := by
    have hne : ulidDigits s.now (9 + 1) ≠ [] := by
      intro h
      have hlength := ulidDigits_length s.now (9 + 1)
      rw [h] at hlength
      cases hlength
    rw [digits, List.head?_append_of_ne_nil _ hne, ulidDigits_head]
  have hfirst : s.now / 32 ^ 9 % 32 < 8 := by
    have h := s.inRange
    omega
  obtain ⟨rest, hdigits⟩ := List.head?_eq_some_iff.mp hhead
  have hulid := s.ulid_eq
  rw [hdigits, List.map_cons] at hulid
  exact ⟨_, _, hulid, hsmall _ hfirst⟩

theorem UlidSource.ticketId (s : UlidSource) :
    generateTicketId s.now s.entropy = .ok (js "T-" ++ s.ulid) ∧
      isGeneratedTicketId (js "T-" ++ s.ulid) = true := by
  have hrange : ¬0xffffffffffff < s.now := by
    have h := s.inRange
    omega
  have hgenerate : generateTicketId s.now s.entropy = .ok (js "T-" ++ s.ulid) := by
    rw [generateTicketId, if_neg hrange, if_neg (not_not.mpr s.size)]
    rfl
  obtain ⟨hsegment, hlength, -⟩ := s.ulid_form
  have hunits := (generateSegmentUlid_spec hsegment).2
  obtain ⟨c, rest, hulid, hlow, hhigh⟩ := s.ulid_head
  refine ⟨hgenerate, ?_⟩
  rw [hulid] at hlength hunits ⊢
  have hlen : (js "T-" ++ c :: rest).length = 28 := by
    rw [List.length_append, hlength]
    rfl
  have hall : (List.drop 3 (js "T-" ++ c :: rest)).all isUlidUnit = true :=
    List.all_eq_true.mpr fun d hd => hunits d (List.mem_cons_of_mem _ hd)
  have hfirst : ((List.drop 2 (js "T-" ++ c :: rest)).take 1).all (fun c => 48 ≤ c.toNat && c.toNat ≤ 55) =
      true := by
    refine List.all_eq_true.mpr fun d hd => ?_
    rw [List.mem_singleton.mp hd, Bool.and_eq_true, decide_eq_true_eq, decide_eq_true_eq]
    exact ⟨hlow, hhigh⟩
  have hprefix : (js "T-" ++ c :: rest).take 2 = js "T-" := rfl
  rw [isGeneratedTicketId, hall, hfirst, hlen, hprefix]
  decide

/-- ULIDs have their form and their order, and a segment name gives back the one it was built with. -/
theorem ulid_recoverable [Unicode] :
    (∀ s : UlidSource, generateSegmentUlid s.now s.entropy = .ok s.ulid ∧ s.ulid.length = 26 ∧
      ∀ c ∈ s.ulid, c ∈ ulidAlphabet) ∧
    (∀ s : UlidSource, generateTicketId s.now s.entropy = .ok (js "T-" ++ s.ulid) ∧
      isGeneratedTicketId (js "T-" ++ s.ulid) = true) ∧
    (∀ s t : UlidSource, s.ulid = t.ulid → s = t) ∧
    (∀ s t : UlidSource, unitLt s.ulid t.ulid ↔ s.Before t) ∧
    ∀ (branchName : JsString) (s : UlidSource),
      isSegmentName (deriveSlug branchName ++ js "-" ++ s.ulid ++ js ".jsonl") = true ∧
        ulidOf (deriveSlug branchName ++ js "-" ++ s.ulid ++ js ".jsonl") = s.ulid := by
  refine ⟨UlidSource.ulid_form, UlidSource.ticketId, fun _ _ => UlidSource.ulid_injective,
    UlidSource.ulid_lt_iff, ?_⟩
  intro branchName s
  have hparts := mintedName_parts branchName s.ulid_form.1
  exact ⟨(isSegmentName_iff _).mpr ⟨_, _, hparts⟩, hparts.ulidOf⟩

end Adlc.Tickets
