import Adlc.Framework.Lines

namespace Adlc.Framework

/-! What is read of a value's text when the end of it is missing. -/

/-! ## Bytes -/

/-- The bytes of a scalar value that lacks its last ones are read as one U+FFFD. -/
theorem utf8Decode_cutScalar {c n : Nat} (hc : IsScalar c) (hn : 0 < n)
    (hlt : n < (utf8Scalar c).length) : utf8Decode ((utf8Scalar c).take n) = [0xFFFD] := by
  unfold IsScalar at hc
  unfold utf8Scalar at hlt ⊢
  split_ifs at hlt ⊢ with h1 h2 h3
  · simp only [List.length_cons, List.length_nil] at hlt
    omega
  · simp only [List.length_cons, List.length_nil] at hlt
    obtain rfl : n = 1 := by omega
    have e0 : (byte (0xC0 + c / 0x40)).toNat = 0xC0 + c / 0x40 := byte_toNat (by omega)
    have hb : ¬(byte (0xC0 + c / 0x40)).toNat < 0x80 := by omega
    have hr : inRange 0xC2 0xDF (byte (0xC0 + c / 0x40)) = true := (inRange_iff ..).2 (by omega)
    rw [List.take_succ_cons, List.take_zero, utf8Decode.eq_def]
    simp only [hb, hr, if_true, if_false]
  · simp only [List.length_cons, List.length_nil] at hlt
    have e0 : (byte (0xE0 + c / 0x1000)).toNat = 0xE0 + c / 0x1000 := byte_toNat (by omega)
    have e1 : (byte (0x80 + c / 0x40 % 0x40)).toNat = 0x80 + c / 0x40 % 0x40 :=
      byte_toNat (by omega)
    have hb : ¬(byte (0xE0 + c / 0x1000)).toNat < 0x80 := by omega
    have h2 : inRange 0xC2 0xDF (byte (0xE0 + c / 0x1000)) = false := by
      rw [Bool.eq_false_iff, Ne, inRange_iff]
      omega
    have hr : inRange 0xE0 0xEF (byte (0xE0 + c / 0x1000)) = true := (inRange_iff ..).2 (by omega)
    have hs : inRange (secondLow (byte (0xE0 + c / 0x1000))) (secondHigh (byte (0xE0 + c / 0x1000)))
        (byte (0x80 + c / 0x40 % 0x40)) = true := by
      simp only [inRange_iff, secondLow, secondHigh, e0, e1]
      split_ifs <;> omega
    obtain rfl | rfl : n = 1 ∨ n = 2 := by omega
    · rw [List.take_succ_cons, List.take_zero, utf8Decode.eq_def]
      simp only [hb, h2, hr, if_true, if_false, Bool.false_eq_true]
    · rw [List.take_succ_cons, List.take_succ_cons, List.take_zero, utf8Decode.eq_def]
      simp only [hb, h2, hr, hs, if_true, if_false, Bool.false_eq_true]
  · simp only [List.length_cons, List.length_nil] at hlt
    have e0 : (byte (0xF0 + c / 0x40000)).toNat = 0xF0 + c / 0x40000 := byte_toNat (by omega)
    have e1 : (byte (0x80 + c / 0x1000 % 0x40)).toNat = 0x80 + c / 0x1000 % 0x40 :=
      byte_toNat (by omega)
    have e2 : (byte (0x80 + c / 0x40 % 0x40)).toNat = 0x80 + c / 0x40 % 0x40 :=
      byte_toNat (by omega)
    have hb : ¬(byte (0xF0 + c / 0x40000)).toNat < 0x80 := by omega
    have h2 : inRange 0xC2 0xDF (byte (0xF0 + c / 0x40000)) = false := by
      rw [Bool.eq_false_iff, Ne, inRange_iff]
      omega
    have h3 : inRange 0xE0 0xEF (byte (0xF0 + c / 0x40000)) = false := by
      rw [Bool.eq_false_iff, Ne, inRange_iff]
      omega
    have hr : inRange 0xF0 0xF4 (byte (0xF0 + c / 0x40000)) = true := (inRange_iff ..).2 (by omega)
    have hs : inRange (secondLow (byte (0xF0 + c / 0x40000)))
        (secondHigh (byte (0xF0 + c / 0x40000))) (byte (0x80 + c / 0x1000 % 0x40)) = true := by
      simp only [inRange_iff, secondLow, secondHigh, e0, e1]
      split_ifs <;> omega
    have ht : inRange 0x80 0xBF (byte (0x80 + c / 0x40 % 0x40)) = true :=
      (inRange_iff ..).2 (by omega)
    obtain rfl | rfl | rfl : n = 1 ∨ n = 2 ∨ n = 3 := by omega
    · rw [List.take_succ_cons, List.take_zero, utf8Decode.eq_def]
      simp only [hb, h2, h3, hr, if_true, if_false, Bool.false_eq_true]
    · rw [List.take_succ_cons, List.take_succ_cons, List.take_zero, utf8Decode.eq_def]
      simp only [hb, h2, h3, hr, hs, if_true, if_false, Bool.false_eq_true]
    · rw [List.take_succ_cons, List.take_succ_cons, List.take_succ_cons, List.take_zero,
        utf8Decode.eq_def]
      simp only [hb, h2, h3, hr, hs, ht, if_true, if_false, Bool.false_eq_true]

/-- A text that is cut: the characters that are whole, and U+FFFD for one that is not. -/
inductive CutOf (s t : JsString) : Prop where
  | clean (w : JsString) : s = t ++ w → w ≠ [] → CutOf s t
  | broken (p w : JsString) : s = p ++ w → t = p ++ [0xFFFD] → CutOf s t

theorem CutOf.prepend {s t : JsString} (h : CutOf s t) (x : JsString) : CutOf (x ++ s) (x ++ t) := by
  cases h with
  | clean w hs hw => exact .clean w (by rw [hs, List.append_assoc]) hw
  | broken p w hs ht =>
    exact .broken (x ++ p) w (by rw [hs, List.append_assoc]) (by rw [ht, List.append_assoc])

theorem utf8Decode_cut {s : JsString} {n : Nat} (hs : wellFormed s = true)
    (hlt : n < (utf8Encode s).length) : CutOf s (utf8Decode ((utf8Encode s).take n)) := by
  have hscalar : ∀ (c n : Nat) (units r : JsString), IsScalar c → scalarUnits c = units → units ≠ [] →
      n < (utf8Scalar c ++ utf8Encode r).length →
      (∀ m, m < (utf8Encode r).length → CutOf r (utf8Decode ((utf8Encode r).take m))) →
      CutOf (units ++ r) (utf8Decode ((utf8Scalar c ++ utf8Encode r).take n)) := by
    intro c n units r hc hunits hne hn ih
    by_cases h0 : n = 0
    · subst h0
      exact .clean (units ++ r) rfl (by simp [hne])
    · by_cases hcut : n < (utf8Scalar c).length
      · rw [List.take_append_of_le_length (by omega), utf8Decode_cutScalar hc (by omega) hcut]
        exact .broken [] (units ++ r) rfl rfl
      · rw [List.take_append, List.take_of_length_le (by omega), utf8Decode_scalar c hc, hunits]
        rw [List.length_append] at hn
        exact (ih _ (by omega)).prepend units
  fun_induction wellFormed s generalizing n with
  | case1 => cases hlt
  | case2 => cases hs
  | case3 c hc d r ih =>
    rw [Bool.and_eq_true] at hs
    have e : utf8Encode (c :: d :: r) = utf8Scalar (pairScalar c d) ++ utf8Encode r := by
      rw [utf8Encode.eq_def]
      simp [hc, hs.1]
    rw [e] at hlt ⊢
    exact hscalar (pairScalar c d) n [c, d] r (pairScalar_scalar c d hc hs.1)
      (scalarUnits_pairScalar c d hc hs.1) (by simp) hlt fun m hm => ih hs.2 hm
  | case4 c r hc ih =>
    rw [Bool.and_eq_true, Bool.not_eq_true'] at hs
    have hl : ¬isLow c = true := by simp [hs.1]
    have hsc : IsScalar c.toNat := by
      have hlt16 := c.toNat_lt
      simp only [isHigh, isLow, Bool.and_eq_true, decide_eq_true_eq] at hc hl
      unfold IsScalar
      omega
    rw [utf8Encode_plain _ hc hl] at hlt ⊢
    exact hscalar c.toNat n [c] r hsc (scalarUnits_unit c) (by simp) hlt fun m hm => ih hs.2 hm

/-- A byte that begins no character. -/
def isContinuation (b : UInt8) : Bool := b.toNat / 0x40 = 2

theorem isContinuation_byte (n : Nat) : isContinuation (byte (0x80 + n % 0x40)) = true := by
  have hbyte : (byte (0x80 + n % 0x40)).toNat = 0x80 + n % 0x40 := byte_toNat (by omega)
  rw [isContinuation, hbyte, decide_eq_true_eq]
  omega

theorem utf8Scalar_continuation {c i : Nat} {b : UInt8} (hi : 0 < i)
    (h : (utf8Scalar c)[i]? = some b) : isContinuation b = true := by
  have htail : ∀ b ∈ (utf8Scalar c).tail, isContinuation b = true := by
    unfold utf8Scalar
    split_ifs <;> simp [isContinuation_byte]
  obtain ⟨j, rfl⟩ : ∃ j, i = j + 1 := ⟨i - 1, by omega⟩
  rw [← List.getElem?_tail] at h
  exact htail b (List.mem_of_getElem? h)

theorem utf8Scalar_head {c : Nat} {b : UInt8} (hc : c < 0x110000) (h : (utf8Scalar c).head? = some b) :
    isContinuation b = false := by
  have hlead : ∀ n, n < 256 → n / 0x40 ≠ 2 → isContinuation (byte n) = false := by
    intro n hn h
    rw [isContinuation, byte_toNat hn, decide_eq_false_iff_not]
    exact h
  unfold utf8Scalar at h
  split_ifs at h with h1 h2 h3
  all_goals
    obtain rfl := Option.some.inj h
    apply hlead <;> omega

theorem utf8Scalar_ne_nil (c : Nat) : utf8Scalar c ≠ [] := by
  unfold utf8Scalar
  split_ifs <;> exact List.cons_ne_nil _ _

/-- A text begins with a byte that begins a character. -/
theorem utf8Encode_head {s : JsString} {b : UInt8} (h : (utf8Encode s).head? = some b) :
    isContinuation b = false := by
  have happend : ∀ {c : Nat} {r : JsString}, c < 0x110000 →
      (utf8Scalar c ++ utf8Encode r).head? = some b → isContinuation b = false := by
    intro c r hc h
    apply utf8Scalar_head hc
    rwa [List.head?_append_of_ne_nil _ (utf8Scalar_ne_nil c)] at h
  fun_cases utf8Encode s with
  | case1 => cases h
  | case2 c hc =>
    rw [utf8Encode.eq_def] at h
    simp only [hc, if_true] at h
    exact utf8Scalar_head (by omega) h
  | case3 c hc d r hd =>
    rw [utf8Encode.eq_def] at h
    simp only [hc, hd, if_true] at h
    have hpair : pairScalar c d < 0x110000 := by
      have hscalar := pairScalar_scalar c d hc hd
      unfold IsScalar at hscalar
      omega
    exact happend hpair h
  | case4 c hc d r hd =>
    rw [utf8Encode.eq_def] at h
    simp only [hc, hd, if_true] at h
    exact happend (by omega) h
  | case5 c r hc hl =>
    rw [utf8Encode.eq_def] at h
    simp only [hc, hl, if_true] at h
    exact happend (by omega) h
  | case6 c r hc hl =>
    rw [utf8Encode.eq_def] at h
    simp only [hc, hl] at h
    have hlt16 := c.toNat_lt
    exact happend (by omega) h

/-- A cut before a byte that begins a character leaves whole characters. -/
theorem utf8Encode_cutWhole {s : JsString} {n : Nat} (hs : wellFormed s = true)
    (hb : ∀ b ∈ (utf8Encode s)[n]?, isContinuation b = false) :
    ∃ x, x <+: s ∧ wellFormed x = true ∧ (utf8Encode s).take n = utf8Encode x := by
  have hscalar : ∀ (c n : Nat) (units r : JsString), wellFormed units = true →
      (∀ t, utf8Encode (units ++ t) = utf8Scalar c ++ utf8Encode t) →
      (∀ b ∈ (utf8Scalar c ++ utf8Encode r)[n]?, isContinuation b = false) →
      (∀ m, (∀ b ∈ (utf8Encode r)[m]?, isContinuation b = false) →
        ∃ x, x <+: r ∧ wellFormed x = true ∧ (utf8Encode r).take m = utf8Encode x) →
      ∃ x, x <+: units ++ r ∧ wellFormed x = true ∧
        (utf8Scalar c ++ utf8Encode r).take n = utf8Encode x := by
    intro c n units r hwf hencode hn ih
    by_cases h0 : n = 0
    · subst h0
      exact ⟨[], List.nil_prefix, rfl, by rw [List.take_zero, utf8Encode]⟩
    · by_cases hcut : n < (utf8Scalar c).length
      · have hget : (utf8Scalar c ++ utf8Encode r)[n]? = some (utf8Scalar c)[n] := by
          rw [List.getElem?_append_left hcut, List.getElem?_eq_getElem hcut]
        have hwhole := hn _ hget
        rw [utf8Scalar_continuation (Nat.pos_of_ne_zero h0) (List.getElem?_eq_getElem hcut)] at hwhole
        cases hwhole
      · rw [List.getElem?_append_right (by omega)] at hn
        obtain ⟨x, hpart, hx, htake⟩ := ih _ hn
        refine ⟨units ++ x, (List.prefix_append_right_inj units).mpr hpart, ?_, ?_⟩
        · rw [wellFormed_append units x hwf, hx]
        · rw [List.take_append, List.take_of_length_le (by omega), htake, hencode]
  fun_induction wellFormed s generalizing n with
  | case1 => exact ⟨[], List.nil_prefix, rfl, by simp [utf8Encode]⟩
  | case2 => cases hs
  | case3 c hc d r ih =>
    rw [Bool.and_eq_true] at hs
    have e : ∀ t, utf8Encode ([c, d] ++ t) = utf8Scalar (pairScalar c d) ++ utf8Encode t := by
      intro t
      rw [utf8Encode.eq_def]
      simp [hc, hs.1]
    have hwf : wellFormed [c, d] = true := by
      rw [wellFormed_pair [] hc, hs.1]
      rfl
    have e' := e r
    rw [List.cons_append, List.cons_append, List.nil_append] at e'
    rw [e'] at hb ⊢
    exact hscalar (pairScalar c d) n [c, d] r hwf e hb fun m hm => ih hs.2 hm
  | case4 c r hc ih =>
    rw [Bool.and_eq_true, Bool.not_eq_true'] at hs
    have hl : ¬isLow c = true := by simp [hs.1]
    have hwf : wellFormed [c] = true := by
      rw [wellFormed_plain [] hc, hs.1]
      rfl
    rw [utf8Encode_plain _ hc hl] at hb ⊢
    exact hscalar c.toNat n [c] r hwf (fun t => utf8Encode_plain t hc hl) hb fun m hm => ih hs.2 hm

theorem toWellFormed_append {a : JsString} (ha : wellFormed a = true) (b : JsString) :
    toWellFormed (a ++ b) = a ++ toWellFormed b := by
  fun_induction wellFormed a with
  | case1 => rfl
  | case2 => cases ha
  | case3 c hc d r ih =>
    rw [Bool.and_eq_true] at ha
    rw [List.cons_append, List.cons_append, toWellFormed_pair _ hc ha.1, ih ha.2]
    rfl
  | case4 c r hc ih =>
    rw [Bool.and_eq_true, Bool.not_eq_true'] at ha
    rw [List.cons_append, toWellFormed_plain _ hc (by simp [ha.1]), ih ha.2]
    rfl

theorem toWellFormed_break (a b : JsString) :
    toWellFormed (a ++ 10 :: b) = toWellFormed a ++ 10 :: toWellFormed b := by
  have hbreak : toWellFormed (10 :: b) = 10 :: toWellFormed b :=
    toWellFormed_plain b (by decide) (by decide)
  fun_induction toWellFormed a with
  | case1 => exact hbreak
  | case2 c hc =>
    rw [List.cons_append, List.nil_append, toWellFormed_unpaired b hc (by decide), hbreak]
    rfl
  | case3 c hc d r hd ih =>
    rw [List.cons_append, List.cons_append, toWellFormed_pair _ hc hd, ih]
    rfl
  | case4 c hc d r hd ih =>
    rw [List.cons_append, List.cons_append, toWellFormed_unpaired _ hc hd, ← List.cons_append, ih]
    rfl
  | case5 c r hc hl ih =>
    rw [List.cons_append, toWellFormed_low _ hc hl, ih]
    rfl
  | case6 c r hc hl ih =>
    rw [List.cons_append, toWellFormed_plain _ hc hl, ih]
    rfl

/-! ## Values -/

theorem skipSpace_append {s r : JsString} {c : UInt16} (h : skipSpace s = c :: r) (w : JsString) :
    skipSpace (s ++ w) = c :: (r ++ w) := by
  unfold skipSpace at h ⊢
  induction s with
  | nil => cases h
  | cons a s ih =>
    rw [List.cons_append, List.dropWhile_cons]
    rw [List.dropWhile_cons] at h
    split_ifs at h ⊢
    · exact ih h
    · obtain ⟨rfl, rfl⟩ := List.cons.inj h
      rfl

theorem skipSpace_suffix {s r : JsString} {c : UInt16} (h : skipSpace s = c :: r) :
    c :: r <:+ s := by
  rw [← h]
  exact List.dropWhile_suffix _

theorem parseString_hex {a b c d u : UInt16} (h : hex4 a b c d = some u) (r : JsString) :
    parseString (92 :: 117 :: a :: b :: c :: d :: r) =
      (parseString r).map fun p => (u :: p.1, p.2) := by
  rw [parseString.eq_def]
  simp [h]

theorem parseString_append {s r k : JsString} (h : parseString s = some (k, r)) (w : JsString) :
    parseString (s ++ w) = some (k, r ++ w) := by
  fun_induction parseString s generalizing k r with
  | case2 t =>
    obtain ⟨rfl, rfl⟩ := Prod.mk.inj (Option.some.inj h)
    exact parseString_end _
  | case4 a b c d t u hu _ ih =>
    obtain ⟨p, hp, e⟩ := Option.map_eq_some_iff.1 h
    obtain ⟨rfl, rfl⟩ := Prod.mk.inj e
    simp only [List.cons_append]
    rw [parseString_hex hu, ih hp]
    rfl
  | case7 e t he u hu _ ih =>
    obtain ⟨p, hp, e⟩ := Option.map_eq_some_iff.1 h
    obtain ⟨rfl, rfl⟩ := Prod.mk.inj e
    simp only [List.cons_append]
    rw [parseString_escape he hu, ih hp]
    rfl
  | case10 c t h1 h2 h3 ih =>
    obtain ⟨p, hp, e⟩ := Option.map_eq_some_iff.1 h
    obtain ⟨rfl, rfl⟩ := Prod.mk.inj e
    rw [List.cons_append, parseString_plain h1 h2 h3, ih hp]
    rfl
  | _ => cases h

variable {ν : Type} [JsNumber ν]

theorem parseNumber_append {s r : JsString} {v : Json ν} (h : parseNumber s = some (v, r))
    (hr : r ≠ []) (w : JsString) : parseNumber (s ++ w) = some (v, r ++ w) := by
  unfold parseNumber at h ⊢
  simp only at h ⊢
  split_ifs at h with ht
  obtain ⟨rfl, rfl⟩ := Prod.mk.inj (Option.some.inj h)
  have hsplit : s = s.takeWhile isNumUnit ++ s.dropWhile isNumUnit :=
    List.takeWhile_append_dropWhile.symm
  have htake : (s ++ w).takeWhile isNumUnit = s.takeWhile isNumUnit := by
    rw [List.takeWhile_append, if_neg]
    intro hlen
    apply hr
    have hl := congrArg List.length hsplit
    rw [List.length_append] at hl
    exact List.length_eq_zero_iff.1 (by omega)
  have hdrop : (s ++ w).dropWhile isNumUnit = s.dropWhile isNumUnit ++ w := by
    rw [List.dropWhile_append, if_neg]
    simpa using hr
  rw [htake, hdrop, if_pos ht]

omit [JsNumber ν] in
theorem parseWord_append {x s r : JsString} {v u : Json ν} (h : parseWord x v s = some (u, r))
    (w : JsString) : parseWord x v (s ++ w) = some (u, r ++ w) := by
  unfold parseWord at h ⊢
  split_ifs at h with hx
  obtain ⟨rfl, rfl⟩ := Prod.mk.inj (Option.some.inj h)
  rw [if_pos (hx.trans (List.prefix_append s w)), List.drop_append_of_le_length hx.length_le]

/-- What is parsed stays parsed with more fuel and with more text after it, a number only if
something follows it. -/
private theorem parse_append (n : Nat) (w : JsString) :
    (∀ m s r (v : Json ν), n ≤ m → parseValue n s = some (v, r) → (r = [] → ∀ x, v ≠ .num x) →
      parseValue m (s ++ w) = some (v, r ++ w)) ∧
    (∀ m s r (xs : List (Json ν)), n ≤ m → parseElems n s = some (xs, r) →
      parseElems m (s ++ w) = some (xs, r ++ w)) ∧
    (∀ m s r (ms : Members ν), n ≤ m → parseMembers n s = some (ms, r) →
      parseMembers m (s ++ w) = some (ms, r ++ w)) := by
  induction n with
  | zero =>
    refine ⟨?_, ?_, ?_⟩
    · intro m s r v _ h
      cases h
    · intro m s r xs _ h
      cases h
    · intro m s r ms _ h
      cases h
  | succ n ih =>
    obtain ⟨ihv, ihe, ihm⟩ := ih
    have hfuel : ∀ m, n + 1 ≤ m → ∃ m', m = m' + 1 ∧ n ≤ m' := fun m hm => ⟨m - 1, by omega⟩
    refine ⟨?_, ?_, ?_⟩
    · intro m s r v hm h hnum
      obtain ⟨m, rfl, hle⟩ := hfuel m hm
      rw [parseValue] at h ⊢
      split at h
      · cases h
      rename_i c t hs
      rw [skipSpace_append hs]
      simp only
      split_ifs at h ⊢ with h1 h2 h3 h4 h5 h6
      · obtain ⟨p, hp, e⟩ := Option.map_eq_some_iff.mp h
        obtain ⟨rfl, rfl⟩ := Prod.mk.inj e
        rw [parseString_append hp]
        rfl
      · split at h
        · cases h
        rename_i d t' ht
        rw [skipSpace_append ht]
        simp only
        split_ifs at h ⊢
        · obtain ⟨rfl, rfl⟩ := Prod.mk.inj (Option.some.inj h)
          rfl
        · obtain ⟨p, hp, e⟩ := Option.map_eq_some_iff.mp h
          obtain ⟨rfl, rfl⟩ := Prod.mk.inj e
          rw [← List.cons_append, ihe _ _ _ _ hle hp]
          rfl
      · split at h
        · cases h
        rename_i d t' ht
        rw [skipSpace_append ht]
        simp only
        split_ifs at h ⊢
        · obtain ⟨rfl, rfl⟩ := Prod.mk.inj (Option.some.inj h)
          rfl
        · obtain ⟨p, hp, e⟩ := Option.map_eq_some_iff.mp h
          obtain ⟨rfl, rfl⟩ := Prod.mk.inj e
          rw [← List.cons_append, ihm _ _ _ _ hle hp]
          rfl
      · exact parseWord_append h w
      · exact parseWord_append h w
      · exact parseWord_append h w
      · apply parseNumber_append h
        intro hr
        have hn := hnum hr
        unfold parseNumber at h
        simp only at h
        split_ifs at h
        obtain ⟨rfl, -⟩ := Prod.mk.inj (Option.some.inj h)
        exact hn _ rfl
    · intro m s r xs hm h
      obtain ⟨m, rfl, hle⟩ := hfuel m hm
      rw [parseElems] at h ⊢
      split at h
      · cases h
      rename_i v t hv
      split at h
      · cases h
      rename_i c t' ht
      have hne : t = [] → ∀ x, v ≠ .num x := by
        rintro rfl
        cases ht
      rw [ihv _ _ _ _ hle hv hne]
      simp only
      rw [skipSpace_append ht]
      simp only
      split_ifs at h ⊢
      · obtain ⟨p, hp, e⟩ := Option.map_eq_some_iff.mp h
        obtain ⟨rfl, rfl⟩ := Prod.mk.inj e
        rw [ihe _ _ _ _ hle hp]
        rfl
      · obtain ⟨rfl, rfl⟩ := Prod.mk.inj (Option.some.inj h)
        rfl
    · intro m s r ms hm h
      obtain ⟨m, rfl, hle⟩ := hfuel m hm
      rw [parseMembers] at h ⊢
      split at h
      · cases h
      rename_i q s' hs
      rw [skipSpace_append hs]
      simp only
      split_ifs at h ⊢
      split at h
      · cases h
      rename_i k t hk
      rw [parseString_append hk]
      simp only
      split at h
      · cases h
      rename_i c t' ht
      rw [skipSpace_append ht]
      simp only
      split_ifs at h ⊢
      split at h
      · cases h
      rename_i v t'' hv
      split at h
      · cases h
      rename_i d t3 ht3
      have hne : t'' = [] → ∀ x, v ≠ .num x := by
        rintro rfl
        cases ht3
      rw [ihv _ _ _ _ hle hv hne]
      simp only
      rw [skipSpace_append ht3]
      simp only
      split_ifs at h ⊢
      · obtain ⟨p, hp, e⟩ := Option.map_eq_some_iff.mp h
        obtain ⟨rfl, rfl⟩ := Prod.mk.inj e
        rw [ihm _ _ _ _ hle hp]
        rfl
      · obtain ⟨rfl, rfl⟩ := Prod.mk.inj (Option.some.inj h)
        rfl

theorem parseString_suffix {s r k : JsString} (h : parseString s = some (k, r)) : r <:+ s := by
  fun_induction parseString s generalizing k r with
  | case2 t =>
    obtain ⟨-, rfl⟩ := Prod.mk.inj (Option.some.inj h)
    exact List.suffix_cons _ _
  | case4 a b c d t u hu _ ih =>
    obtain ⟨p, hp, e⟩ := Option.map_eq_some_iff.1 h
    obtain ⟨-, rfl⟩ := Prod.mk.inj e
    exact (ih hp).trans (List.suffix_append [92, 117, a, b, c, d] t)
  | case7 e t he u hu _ ih =>
    obtain ⟨p, hp, e'⟩ := Option.map_eq_some_iff.1 h
    obtain ⟨-, rfl⟩ := Prod.mk.inj e'
    exact (ih hp).trans (List.suffix_append [92, e] t)
  | case10 c t h1 h2 h3 ih =>
    obtain ⟨p, hp, e⟩ := Option.map_eq_some_iff.1 h
    obtain ⟨-, rfl⟩ := Prod.mk.inj e
    exact (ih hp).trans (List.suffix_cons c t)
  | _ => cases h

omit [JsNumber ν] in
theorem parseWord_suffix {x s r : JsString} {v u : Json ν} (h : parseWord x v s = some (u, r)) :
    r <:+ s := by
  unfold parseWord at h
  split_ifs at h
  obtain ⟨-, rfl⟩ := Prod.mk.inj (Option.some.inj h)
  exact List.drop_suffix _ _

theorem parseNumber_suffix {s r : JsString} {v : Json ν} (h : parseNumber s = some (v, r)) :
    r <:+ s := by
  unfold parseNumber at h
  simp only at h
  split_ifs at h
  obtain ⟨-, rfl⟩ := Prod.mk.inj (Option.some.inj h)
  exact List.dropWhile_suffix _

/-- What is left is the end of the text, and the members of an object end in its brace. -/
private theorem parse_suffix (n : Nat) :
    (∀ s r (v : Json ν), parseValue n s = some (v, r) → r <:+ s) ∧
    (∀ s r (xs : List (Json ν)), parseElems n s = some (xs, r) → r <:+ s) ∧
    (∀ s r (ms : Members ν), parseMembers n s = some (ms, r) → 125 :: r <:+ s) := by
  induction n with
  | zero =>
    refine ⟨?_, ?_, ?_⟩
    · intro s r v h
      cases h
    · intro s r xs h
      cases h
    · intro s r ms h
      cases h
  | succ n ih =>
    obtain ⟨ihv, ihe, ihm⟩ := ih
    refine ⟨?_, ?_, ?_⟩
    · intro s r v h
      rw [parseValue] at h
      split at h
      · cases h
      rename_i c t hs
      have hct := skipSpace_suffix hs
      have htail := (List.suffix_cons c t).trans hct
      split_ifs at h
      · obtain ⟨p, hp, e⟩ := Option.map_eq_some_iff.mp h
        obtain ⟨-, rfl⟩ := Prod.mk.inj e
        exact (parseString_suffix hp).trans htail
      · split at h
        · cases h
        rename_i d t' ht
        have hdt := (skipSpace_suffix ht).trans htail
        split_ifs at h
        · obtain ⟨-, rfl⟩ := Prod.mk.inj (Option.some.inj h)
          exact (List.suffix_cons d t').trans hdt
        · obtain ⟨p, hp, e⟩ := Option.map_eq_some_iff.mp h
          obtain ⟨-, rfl⟩ := Prod.mk.inj e
          exact (ihe _ _ _ hp).trans hdt
      · split at h
        · cases h
        rename_i d t' ht
        have hdt := (skipSpace_suffix ht).trans htail
        split_ifs at h
        · obtain ⟨-, rfl⟩ := Prod.mk.inj (Option.some.inj h)
          exact (List.suffix_cons d t').trans hdt
        · obtain ⟨p, hp, e⟩ := Option.map_eq_some_iff.mp h
          obtain ⟨-, rfl⟩ := Prod.mk.inj e
          exact ((List.suffix_cons 125 _).trans (ihm _ _ _ hp)).trans hdt
      · exact (parseWord_suffix h).trans hct
      · exact (parseWord_suffix h).trans hct
      · exact (parseWord_suffix h).trans hct
      · exact (parseNumber_suffix h).trans hct
    · intro s r xs h
      rw [parseElems] at h
      split at h
      · cases h
      rename_i v t hv
      split at h
      · cases h
      rename_i c t' ht
      have htail := ((List.suffix_cons c t').trans (skipSpace_suffix ht)).trans (ihv _ _ _ hv)
      split_ifs at h
      · obtain ⟨p, hp, e⟩ := Option.map_eq_some_iff.mp h
        obtain ⟨-, rfl⟩ := Prod.mk.inj e
        exact (ihe _ _ _ hp).trans htail
      · obtain ⟨-, rfl⟩ := Prod.mk.inj (Option.some.inj h)
        exact htail
    · intro s r ms h
      rw [parseMembers] at h
      split at h
      · cases h
      rename_i q s' hs
      split_ifs at h
      split at h
      · cases h
      rename_i k t hk
      split at h
      · cases h
      rename_i c t' ht
      split_ifs at h
      split at h
      · cases h
      rename_i v t'' hv
      split at h
      · cases h
      rename_i d t3 ht3
      have hkey := (parseString_suffix hk).trans
        ((List.suffix_cons q s').trans (skipSpace_suffix hs))
      have hcolon := ((List.suffix_cons c t').trans (skipSpace_suffix ht)).trans hkey
      have hvalue := ((skipSpace_suffix ht3).trans (ihv _ _ _ hv)).trans hcolon
      split_ifs at h with h44 h125
      · obtain ⟨p, hp, e⟩ := Option.map_eq_some_iff.mp h
        obtain ⟨-, rfl⟩ := Prod.mk.inj e
        exact (ihm _ _ _ hp).trans ((List.suffix_cons d t3).trans hvalue)
      · obtain ⟨-, rfl⟩ := Prod.mk.inj (Option.some.inj h)
        rwa [h125] at hvalue

/-- A text that begins with a brace is an object's, and the object ends in a brace. -/
theorem parseValue_brace {n : Nat} {s r : JsString} {v : Json ν}
    (h : parseValue n (123 :: s) = some (v, r)) : (∃ ms, v = .obj ms) ∧ 125 :: r <:+ 123 :: s := by
  cases n with
  | zero => cases h
  | succ n =>
    rw [parseValue, skipSpace_of_head (by decide)] at h
    simp only [show ¬(123 : UInt16) = 34 by decide, show ¬(123 : UInt16) = 91 by decide, if_false,
      if_true] at h
    split at h
    · cases h
    rename_i d t ht
    have hdt := (skipSpace_suffix ht).trans (List.suffix_cons 123 s)
    split_ifs at h with h125
    · obtain ⟨rfl, rfl⟩ := Prod.mk.inj (Option.some.inj h)
      rw [h125] at hdt
      exact ⟨⟨[], rfl⟩, hdt⟩
    · obtain ⟨p, hp, e⟩ := Option.map_eq_some_iff.mp h
      obtain ⟨rfl, rfl⟩ := Prod.mk.inj e
      exact ⟨⟨_, rfl⟩, ((parse_suffix n).2.2 _ _ _ hp).trans hdt⟩

/-- An object's text that is cut is no JSON. -/
theorem parseJson_cut {ms : Members ν} (hj : (Json.obj ms).IsJson) {t : JsString}
    (h : CutOf (stringify (.obj ms)) t) (hne : t ≠ []) : parseJson (ν := ν) t = none := by
  obtain ⟨s, hs⟩ : ∃ s, stringify (.obj ms) = 123 :: s := by
    cases ms with
    | nil => exact ⟨_, rfl⟩
    | cons p ms => exact ⟨_, rfl⟩
  have hall : parseValue ((stringify (.obj ms)).length + 1) (stringify (.obj ms)) =
      some (Json.obj ms, []) := by
    have hsize := size_le_length [] (.obj ms) hj []
    have hread := readsBack Spaces.nil (.obj ms) hj ((stringify (.obj ms)).length + 1) [] []
      Spaces.nil (by simp [Follows]) (by unfold stringify; omega)
    rwa [List.append_nil] at hread
  unfold parseJson
  split
  · rfl
  rename_i v r hv
  rw [if_neg]
  intro hspace
  cases h with
  | clean w hw hne' =>
    cases t with
    | nil => exact hne rfl
    | cons c t =>
      obtain rfl : c = 123 := by
        rw [hs] at hw
        exact (List.cons.inj hw).1.symm
      obtain ⟨⟨ms', rfl⟩, -⟩ := parseValue_brace hv
      have hlen : (123 :: t).length + 1 ≤ (stringify (.obj ms)).length + 1 := by
        rw [hw, List.length_append]
        omega
      have hmore := (parse_append _ w).1 _ _ _ _ hlen hv (fun _ x hx => by cases hx)
      rw [← hw, hall] at hmore
      obtain ⟨-, hr⟩ := Prod.mk.inj (Option.some.inj hmore)
      exact hne' (List.append_eq_nil_iff.1 hr.symm).2
  | broken p w hw ht =>
    have hlast : t.getLast? = some 0xFFFD := by rw [ht, List.getLast?_concat]
    have hend : ∀ c ∈ r, isJsonSpace c = true := by
      intro c hc
      by_contra hn
      have hmem := List.dropWhile_eq_nil_iff.1 hspace c hc
      exact hn hmem
    cases p with
    | nil =>
      rw [ht] at hv
      cases hv
    | cons c p =>
      obtain rfl : c = 123 := by
        rw [hs] at hw
        exact (List.cons.inj hw).1.symm
      rw [ht, List.cons_append] at hv hlast
      obtain ⟨-, q, hq⟩ := parseValue_brace hv
      rw [← hq] at hlast
      cases r with
      | nil =>
        rw [List.getLast?_concat] at hlast
        exact absurd (Option.some.inj hlast) (by decide)
      | cons d r =>
        have hmem : (0xFFFD : UInt16) ∈ d :: r := by
          have he : q ++ 125 :: d :: r = (q ++ [125]) ++ d :: r := by simp
          rw [he, List.getLast?_append_of_ne_nil _ (List.cons_ne_nil d r)] at hlast
          exact List.mem_of_getLast? hlast
        exact absurd (hend _ hmem) (by decide)

/-! ## A file whose last line is cut -/

theorem rawLines_unlines_append {lines : List JsString} (h : ∀ line ∈ lines, LineOk line)
    {t : JsString} (ht : ∀ c ∈ t, c ≠ 10) (hblank : notBlank t = true) :
    rawLines (unlines lines ++ t) = lines ++ [t] := by
  induction lines with
  | nil =>
    have hsplit : splitLines t = [t] := by
      clear hblank
      induction t with
      | nil => rfl
      | cons c t ih =>
        rw [splitLines, if_neg (ht c List.mem_cons_self),
          ih fun d hd => ht d (List.mem_cons_of_mem _ hd)]
    rw [unlines, List.flatMap_nil, List.nil_append, rawLines, hsplit,
      List.filter_cons_of_pos hblank, List.filter_nil, List.nil_append]
  | cons line lines ih =>
    have hl := h line List.mem_cons_self
    have hrest := ih fun l hm => h l (List.mem_cons_of_mem _ hm)
    have e : unlines (line :: lines) ++ t = line ++ 10 :: (unlines lines ++ t) := by
      simp [unlines]
    rw [e, rawLines, splitLines_append hl.noBreak, List.filter_cons_of_pos hl.notBlank]
    rw [rawLines] at hrest
    rw [hrest, List.cons_append]

theorem CutOf.mem {s t : JsString} (h : CutOf s t) {c : UInt16} (hc : c ∈ t) :
    c ∈ s ∨ c = 0xFFFD := by
  cases h with
  | clean w hs _ =>
    rw [hs]
    exact .inl (List.mem_append_left _ hc)
  | broken p w hs ht =>
    rw [ht] at hc
    rcases List.mem_append.1 hc with hc | hc
    · rw [hs]
      exact .inl (List.mem_append_left _ hc)
    · exact .inr (List.mem_singleton.1 hc)

/-- Whole lines and after them the first bytes of an object's: these are a line that is no JSON. -/
theorem rawLines_cutLine {lines : List JsString} (h : ∀ line ∈ lines, LineOk line) {ms : Members ν}
    (hj : (Json.obj ms).IsJson) {n : Nat} (hn : 0 < n)
    (hlt : n < (utf8Encode (stringify (.obj ms))).length) :
    ∃ t, rawLines (utf8Decode (utf8Encode (unlines lines) ++
      (utf8Encode (stringify (.obj ms))).take n)) = lines ++ [t] ∧ parseJson (ν := ν) t = none := by
  have hline := lineOk_stringify (Json.obj ms)
  have hcut := utf8Decode_cut hline.wellFormed hlt
  obtain ⟨s, hs⟩ : ∃ s, stringify (.obj ms) = 123 :: s := by
    cases ms with
    | nil => exact ⟨_, rfl⟩
    | cons p ms => exact ⟨_, rfl⟩
  obtain ⟨m, rfl⟩ : ∃ m, n = m + 1 := ⟨n - 1, by omega⟩
  have hbytes : (utf8Encode (stringify (.obj ms))).take (m + 1) =
      123 :: (utf8Encode s).take m := by
    rw [hs, utf8Encode_plain _ (by decide) (by decide)]
    rfl
  have hhead : utf8Decode ((utf8Encode (stringify (.obj ms))).take (m + 1)) =
      123 :: utf8Decode ((utf8Encode s).take m) := by
    rw [hbytes, utf8Decode_one _ (by decide)]
    rfl
  refine ⟨utf8Decode ((utf8Encode (stringify (.obj ms))).take (m + 1)), ?_, ?_⟩
  · have hjoin : utf8Decode (utf8Encode (unlines lines) ++
        (utf8Encode (stringify (.obj ms))).take (m + 1)) = unlines lines ++
          utf8Decode ((utf8Encode (stringify (.obj ms))).take (m + 1)) := by
      rw [hbytes, utf8Decode_append_ascii _ (by decide),
        utf8Decode_encode_of_wellFormed _ (unlines_wellFormed h)]
    rw [hjoin]
    apply rawLines_unlines_append h
    · intro c hc
      rcases hcut.mem hc with hc | rfl
      · exact hline.noBreak c hc
      · decide
    · rw [hhead, notBlank, List.any_cons]
      rfl
  · apply parseJson_cut hj hcut
    rw [hhead]
    exact List.cons_ne_nil _ _

end Adlc.Framework
