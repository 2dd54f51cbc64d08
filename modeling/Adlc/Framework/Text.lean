import Mathlib.Data.List.Basic
import Mathlib.Tactic.Linarith
import Mathlib.Tactic.IntervalCases

namespace Adlc.Framework

/-- A JavaScript string is its sequence of UTF-16 code units; a surrogate may stand alone. -/
abbrev JsString := List UInt16

instance instLawfulBEqJsString : LawfulBEq JsString := List.instLawfulBEq

/-- File contents. -/
abbrev Bytes := List UInt8

/-- The code units of one Unicode scalar value. -/
def scalarUnits (c : Nat) : JsString :=
  if c < 0x10000 then [UInt16.ofNat c]
  else [UInt16.ofNat (0xD800 + (c - 0x10000) / 0x400), UInt16.ofNat (0xDC00 + c % 0x400)]

/-- A string literal of the source. -/
def js (s : String) : JsString := s.toList.flatMap fun c => scalarUnits c.toNat

theorem js_ofList (l : List Char) : js (String.ofList l) = l.flatMap fun c => scalarUnits c.toNat := by
  rw [js, String.toList_ofList]

theorem js_cons (c : Char) (l : List Char) :
    js (String.ofList (c :: l)) = scalarUnits c.toNat ++ js (String.ofList l) := by
  rw [js_ofList, js_ofList, List.flatMap_cons]

theorem js_all {p : UInt16 → Bool} {l : List Char}
    (h : (l.all fun c => (scalarUnits c.toNat).all p) = true) : (js (String.ofList l)).all p = true := by
  rw [js_ofList, List.all_flatMap]
  exact h

theorem forall_mem_of_all {l : JsString} {P : UInt16 → Prop} [DecidablePred P]
    (h : (l.all fun c => decide (P c)) = true) : ∀ c ∈ l, P c := by
  intro c hc
  exact of_decide_eq_true (List.all_eq_true.mp h c hc)

def isHigh (c : UInt16) : Bool := 0xD800 ≤ c.toNat && c.toNat < 0xDC00
def isLow (c : UInt16) : Bool := 0xDC00 ≤ c.toNat && c.toNat < 0xE000

/-- `String.prototype.isWellFormed`: every surrogate is half of a pair. -/
def wellFormed : JsString → Bool
  | [] => true
  | c :: r =>
    if isHigh c then
      match r with
      | [] => false
      | d :: r' => isLow d && wellFormed r'
    else !isLow c && wellFormed r

/-- `String.prototype.toWellFormed`: an unpaired surrogate becomes U+FFFD. -/
def toWellFormed : JsString → JsString
  | [] => []
  | c :: r =>
    if isHigh c then
      match r with
      | [] => [0xFFFD]
      | d :: r' => if isLow d then c :: d :: toWellFormed r' else 0xFFFD :: toWellFormed (d :: r')
    else if isLow c then 0xFFFD :: toWellFormed r
    else c :: toWellFormed r

theorem isLow_eq_false_of_isHigh {c : UInt16} (h : isHigh c = true) : isLow c = false := by
  simp only [isHigh, isLow, Bool.and_eq_true, decide_eq_true_eq] at h ⊢
  simp only [Bool.and_eq_false_iff, decide_eq_false_iff_not]
  omega

theorem wellFormed_cons (c : UInt16) (r : JsString) :
    wellFormed (c :: r) =
      if isHigh c then
        match r with
        | [] => false
        | d :: r' => isLow d && wellFormed r'
      else !isLow c && wellFormed r := by
  rw [wellFormed.eq_def]
  rfl

theorem toWellFormed_cons (c : UInt16) (r : JsString) :
    toWellFormed (c :: r) =
      if isHigh c then
        match r with
        | [] => [0xFFFD]
        | d :: r' =>
          if isLow d then c :: d :: toWellFormed r' else 0xFFFD :: toWellFormed (d :: r')
      else if isLow c then 0xFFFD :: toWellFormed r
      else c :: toWellFormed r := by
  rw [toWellFormed.eq_def]
  rfl

theorem wellFormed_pair {c d : UInt16} (r : JsString) (hc : isHigh c = true) :
    wellFormed (c :: d :: r) = (isLow d && wellFormed r) := by
  rw [wellFormed_cons]
  simp [hc]

theorem wellFormed_plain {c : UInt16} (r : JsString) (hc : ¬isHigh c = true) :
    wellFormed (c :: r) = (!isLow c && wellFormed r) := by
  rw [wellFormed_cons]
  simp [hc]

theorem toWellFormed_unpaired {c d : UInt16} (r : JsString) (hc : isHigh c = true)
    (hd : ¬isLow d = true) : toWellFormed (c :: d :: r) = 0xFFFD :: toWellFormed (d :: r) := by
  conv_lhs => rw [toWellFormed_cons]
  simp [hc, hd]

theorem toWellFormed_pair {c d : UInt16} (r : JsString) (hc : isHigh c = true)
    (hd : isLow d = true) : toWellFormed (c :: d :: r) = c :: d :: toWellFormed r := by
  rw [toWellFormed_cons]
  simp [hc, hd]

theorem toWellFormed_low {c : UInt16} (r : JsString) (hc : ¬isHigh c = true)
    (hl : isLow c = true) : toWellFormed (c :: r) = 0xFFFD :: toWellFormed r := by
  rw [toWellFormed_cons]
  simp [hc, hl]

theorem toWellFormed_plain {c : UInt16} (r : JsString) (hc : ¬isHigh c = true)
    (hl : ¬isLow c = true) : toWellFormed (c :: r) = c :: toWellFormed r := by
  rw [toWellFormed_cons]
  simp [hc, hl]

theorem wellFormed_append (a b : JsString) (ha : wellFormed a = true) :
    wellFormed (a ++ b) = wellFormed b := by
  fun_induction wellFormed a with
  | case1 => rfl
  | case2 => cases ha
  | case3 c hc d r ih =>
    rw [Bool.and_eq_true] at ha
    rw [List.cons_append, List.cons_append, wellFormed_pair _ hc, ha.1, Bool.true_and]
    exact ih ha.2
  | case4 c r hc ih =>
    rw [Bool.and_eq_true] at ha
    rw [List.cons_append, wellFormed_plain _ hc, ha.1, Bool.true_and]
    exact ih ha.2

theorem toWellFormed_of_wellFormed (a : JsString) (ha : wellFormed a = true) :
    toWellFormed a = a := by
  fun_induction wellFormed a with
  | case1 => rfl
  | case2 => cases ha
  | case3 c hc d r ih =>
    rw [Bool.and_eq_true] at ha
    rw [toWellFormed_pair r hc ha.1, ih ha.2]
  | case4 c r hc ih =>
    rw [Bool.and_eq_true, Bool.not_eq_true'] at ha
    rw [toWellFormed_plain r hc (by simp [ha.1]), ih ha.2]

theorem wellFormed_replacement (r : JsString) : wellFormed (0xFFFD :: r) = wellFormed r := by
  rw [wellFormed_plain r (by decide)]
  simp [show isLow 0xFFFD = false by decide]

theorem wellFormed_toWellFormed (a : JsString) : wellFormed (toWellFormed a) = true := by
  fun_induction toWellFormed a with
  | case1 => rfl
  | case2 => decide
  | case3 c hc d r hd ih => rw [wellFormed_pair _ hc, hd, ih, Bool.and_self]
  | case4 c hc d r hd ih => rw [wellFormed_replacement, ih]
  | case5 c r hc hl ih => rw [wellFormed_replacement, ih]
  | case6 c r hc hl ih =>
    rw [wellFormed_plain _ hc, ih]
    simp [hl]

/-! ## UTF-8 -/

def byte (n : Nat) : UInt8 := UInt8.ofNat n

/-- The UTF-8 bytes of one code point. -/
def utf8Scalar (c : Nat) : Bytes :=
  if c < 0x80 then [byte c]
  else if c < 0x800 then [byte (0xC0 + c / 0x40), byte (0x80 + c % 0x40)]
  else if c < 0x10000 then
    [byte (0xE0 + c / 0x1000), byte (0x80 + c / 0x40 % 0x40), byte (0x80 + c % 0x40)]
  else
    [byte (0xF0 + c / 0x40000), byte (0x80 + c / 0x1000 % 0x40), byte (0x80 + c / 0x40 % 0x40),
      byte (0x80 + c % 0x40)]

/-- The code point of a surrogate pair. -/
def pairScalar (c d : UInt16) : Nat :=
  0x10000 + (c.toNat - 0xD800) * 0x400 + (d.toNat - 0xDC00)

/-- `Buffer.from(s, 'utf8')`: an unpaired surrogate is encoded as U+FFFD. -/
def utf8Encode : JsString → Bytes
  | [] => []
  | c :: r =>
    if isHigh c then
      match r with
      | [] => utf8Scalar 0xFFFD
      | d :: r' =>
        if isLow d then utf8Scalar (pairScalar c d) ++ utf8Encode r'
        else utf8Scalar 0xFFFD ++ utf8Encode (d :: r')
    else if isLow c then utf8Scalar 0xFFFD ++ utf8Encode r
    else utf8Scalar c.toNat ++ utf8Encode r

def inRange (lo hi : Nat) (b : UInt8) : Bool := lo ≤ b.toNat && b.toNat ≤ hi

/-- The lowest and highest second byte that may follow a lead byte (the Unicode standard's
table of well-formed sequences). -/
def secondLow (b : UInt8) : Nat :=
  if b.toNat = 0xE0 then 0xA0 else if b.toNat = 0xF0 then 0x90 else 0x80
def secondHigh (b : UInt8) : Nat :=
  if b.toNat = 0xED then 0x9F else if b.toNat = 0xF4 then 0x8F else 0xBF

def tail6 (b : UInt8) : Nat := b.toNat % 0x40

/-- `buffer.toString('utf8')`: each maximal ill-formed part is read as U+FFFD. -/
def utf8Decode : Bytes → JsString
  | [] => []
  | b :: r =>
    if b.toNat < 0x80 then UInt16.ofNat b.toNat :: utf8Decode r
    else if inRange 0xC2 0xDF b then
      match r with
      | [] => [0xFFFD]
      | b1 :: r1 =>
        if inRange 0x80 0xBF b1 then
          scalarUnits (b.toNat % 0x20 * 0x40 + tail6 b1) ++ utf8Decode r1
        else 0xFFFD :: utf8Decode (b1 :: r1)
    else if inRange 0xE0 0xEF b then
      match r with
      | [] => [0xFFFD]
      | b1 :: r1 =>
        if inRange (secondLow b) (secondHigh b) b1 then
          match r1 with
          | [] => [0xFFFD]
          | b2 :: r2 =>
            if inRange 0x80 0xBF b2 then
              scalarUnits (b.toNat % 0x10 * 0x1000 + tail6 b1 * 0x40 + tail6 b2) ++ utf8Decode r2
            else 0xFFFD :: utf8Decode (b2 :: r2)
        else 0xFFFD :: utf8Decode (b1 :: r1)
    else if inRange 0xF0 0xF4 b then
      match r with
      | [] => [0xFFFD]
      | b1 :: r1 =>
        if inRange (secondLow b) (secondHigh b) b1 then
          match r1 with
          | [] => [0xFFFD]
          | b2 :: r2 =>
            if inRange 0x80 0xBF b2 then
              match r2 with
              | [] => [0xFFFD]
              | b3 :: r3 =>
                if inRange 0x80 0xBF b3 then
                  scalarUnits (b.toNat % 0x8 * 0x40000 + tail6 b1 * 0x1000 + tail6 b2 * 0x40 +
                    tail6 b3) ++ utf8Decode r3
                else 0xFFFD :: utf8Decode (b3 :: r3)
            else 0xFFFD :: utf8Decode (b2 :: r2)
        else 0xFFFD :: utf8Decode (b1 :: r1)
    else 0xFFFD :: utf8Decode r

theorem byte_toNat {n : Nat} (h : n < 256) : (byte n).toNat = n := UInt8.toNat_ofNat_of_lt' h

theorem unit_ofNat_toNat (c : UInt16) : UInt16.ofNat c.toNat = c := UInt16.ofNat_toNat

/-- A scalar value: a code point that is no surrogate. -/
def IsScalar (c : Nat) : Prop := c < 0xD800 ∨ 0xE000 ≤ c ∧ c < 0x110000

/-- The defining equation, stated here once for the sequences below. -/
theorem utf8Decode_def : type_of% @utf8Decode.eq_def := @utf8Decode.eq_def

theorem utf8Decode_one {b : UInt8} (r : Bytes) (h : b.toNat < 0x80) :
    utf8Decode (b :: r) = UInt16.ofNat b.toNat :: utf8Decode r := by
  rw [utf8Decode_def]
  simp only [h, if_true]

theorem inRange_iff (lo hi : Nat) (b : UInt8) :
    inRange lo hi b = true ↔ lo ≤ b.toNat ∧ b.toNat ≤ hi := by
  simp [inRange]

theorem lineFeed_not_mem_scalarUnits {c : Nat} (h : 0x80 ≤ c) (hc : c < 0x110000) :
    10 ∉ scalarUnits c := by
  have hne : ∀ n, 0x80 ≤ n → n < 0x10000 → (10 : UInt16) ≠ UInt16.ofNat n := by
    intro n h1 h2 e
    have e := congrArg UInt16.toNat e
    rw [UInt16.toNat_ofNat_of_lt' h2] at e
    have h10 : (10 : UInt16).toNat = 10 := rfl
    omega
  unfold scalarUnits
  split_ifs with h1
  · simpa using hne c h h1
  · have n1 := hne (0xD800 + (c - 0x10000) / 0x400) (by omega) (by omega)
    have n2 := hne (0xDC00 + c % 0x400) (by omega) (by omega)
    simp only [List.mem_cons, List.not_mem_nil, or_false, not_or]
    exact ⟨n1, n2⟩

/-- A line feed in the text comes from a line feed in the bytes. -/
theorem lineFeed_mem_utf8Decode {xs : Bytes} (h : 10 ∉ xs) : 10 ∉ utf8Decode xs := by
  have htail : ∀ b, tail6 b < 0x40 := fun b => Nat.mod_lt _ (by decide)
  fun_induction utf8Decode xs with
  | case1 => simp
  | case2 b r hb ih =>
    rw [List.mem_cons, not_or] at h ⊢
    refine ⟨?_, ih h.2⟩
    intro e
    apply h.1
    have e := congrArg UInt16.toNat e
    rw [UInt16.toNat_ofNat_of_lt' (show b.toNat < 0x10000 by omega)] at e
    apply UInt8.toNat_inj.mp
    rw [← e]
    rfl
  | case4 b ha h2 b1 r1 h1 ih =>
    rw [inRange_iff] at h2
    have t1 := htail b1
    rw [List.mem_append, not_or]
    refine ⟨lineFeed_not_mem_scalarUnits (by omega) (by omega), ih ?_⟩
    intro hm
    exact h (by simp [hm])
  | case8 b ha h2 h3 b1 h1 b2 r2 hb ih =>
    rw [inRange_iff] at h1 h3
    have t2 := htail b2
    have hhigh : secondHigh b ≤ 0xBF := by
      unfold secondHigh
      split_ifs <;> omega
    have hlow : b.toNat = 0xE0 → 0xA0 ≤ b1.toNat := by
      intro e
      rw [secondLow, if_pos e] at h1
      exact h1.1
    have hscalar : 0x80 ≤ b.toNat % 16 * 4096 + tail6 b1 * 64 + tail6 b2 ∧
        b.toNat % 16 * 4096 + tail6 b1 * 64 + tail6 b2 < 0x110000 := by
      unfold tail6 at t2 ⊢
      omega
    rw [List.mem_append, not_or]
    refine ⟨lineFeed_not_mem_scalarUnits hscalar.1 hscalar.2, ih ?_⟩
    intro hm
    exact h (by simp [hm])
  | case14 b ha h2 h3 h4 b1 h1 b2 hb b3 r3 hc ih =>
    rw [inRange_iff] at h1 h4
    have t2 := htail b2
    have t3 := htail b3
    have hhigh : secondHigh b ≤ 0xBF ∧ (b.toNat = 0xF4 → secondHigh b ≤ 0x8F) := by
      unfold secondHigh
      split_ifs <;> omega
    have hlow : b.toNat = 0xF0 → 0x90 ≤ b1.toNat := by
      intro e
      rw [secondLow, if_neg (by omega), if_pos e] at h1
      exact h1.1
    have hlow' : 0x80 ≤ b1.toNat := by
      have h1 := h1.1
      unfold secondLow at h1
      split_ifs at h1 <;> omega
    have hscalar : 0x80 ≤ b.toNat % 8 * 262144 + tail6 b1 * 4096 + tail6 b2 * 64 + tail6 b3 ∧
        b.toNat % 8 * 262144 + tail6 b1 * 4096 + tail6 b2 * 64 + tail6 b3 < 0x110000 := by
      unfold tail6 at t2 t3 ⊢
      omega
    rw [List.mem_append, not_or]
    refine ⟨lineFeed_not_mem_scalarUnits hscalar.1 hscalar.2, ih ?_⟩
    intro hm
    exact h (by simp [hm])
  | _ => simp_all

/-- An ASCII byte ends whatever sequence comes before it. -/
theorem utf8Decode_append_ascii (xs : Bytes) {c : UInt8} (hc : c.toNat < 0x80) (ys : Bytes) :
    utf8Decode (xs ++ c :: ys) = utf8Decode xs ++ utf8Decode (c :: ys) := by
  have htail : inRange 0x80 0xBF c = false := by
    simp [inRange]
    omega
  have hsecond : ∀ b, inRange (secondLow b) (secondHigh b) c = false := by
    intro b
    have hlow : 0x80 ≤ secondLow b := by
      unfold secondLow
      split_ifs <;> omega
    simp [inRange]
    omega
  fun_induction utf8Decode xs with
  | case1 => rfl
  | case18 b r h1 h2 h3 h4 ih =>
    rw [List.cons_append, utf8Decode_def]
    simp only [if_neg h1, if_neg h2, if_neg h3, if_neg h4, ih]
    rfl
  | _ =>
    rw [List.cons_append, utf8Decode_def]
    simp_all

theorem utf8Decode_two {b b1 : UInt8} (r : Bytes) (h : inRange 0xC2 0xDF b = true)
    (h1 : inRange 0x80 0xBF b1 = true) :
    utf8Decode (b :: b1 :: r) =
      scalarUnits (b.toNat % 0x20 * 0x40 + tail6 b1) ++ utf8Decode r := by
  have hb : ¬b.toNat < 0x80 := by
    simp only [inRange, Bool.and_eq_true, decide_eq_true_eq] at h
    omega
  rw [utf8Decode_def]
  simp only [hb, h, h1, if_true, if_false]

theorem utf8Decode_three {b b1 b2 : UInt8} (r : Bytes) (h : inRange 0xE0 0xEF b = true)
    (h1 : inRange (secondLow b) (secondHigh b) b1 = true) (h2 : inRange 0x80 0xBF b2 = true) :
    utf8Decode (b :: b1 :: b2 :: r) =
      scalarUnits (b.toNat % 0x10 * 0x1000 + tail6 b1 * 0x40 + tail6 b2) ++ utf8Decode r := by
  have hb : ¬b.toNat < 0x80 ∧ inRange 0xC2 0xDF b = false := by
    simp only [inRange, Bool.and_eq_true, decide_eq_true_eq] at h
    simp only [inRange, Bool.and_eq_false_iff, decide_eq_false_iff_not]
    omega
  rw [utf8Decode_def]
  simp only [hb.1, hb.2, h, h1, h2, if_true, if_false, Bool.false_eq_true]

theorem utf8Decode_four {b b1 b2 b3 : UInt8} (r : Bytes) (h : inRange 0xF0 0xF4 b = true)
    (h1 : inRange (secondLow b) (secondHigh b) b1 = true) (h2 : inRange 0x80 0xBF b2 = true)
    (h3 : inRange 0x80 0xBF b3 = true) :
    utf8Decode (b :: b1 :: b2 :: b3 :: r) =
      scalarUnits (b.toNat % 0x8 * 0x40000 + tail6 b1 * 0x1000 + tail6 b2 * 0x40 + tail6 b3) ++
        utf8Decode r := by
  have hb : ¬b.toNat < 0x80 ∧ inRange 0xC2 0xDF b = false ∧ inRange 0xE0 0xEF b = false := by
    simp only [inRange, Bool.and_eq_true, decide_eq_true_eq] at h
    simp only [inRange, Bool.and_eq_false_iff, decide_eq_false_iff_not]
    omega
  rw [utf8Decode_def]
  simp only [hb.1, hb.2.1, hb.2.2, h, h1, h2, h3, if_true, if_false, Bool.false_eq_true]

theorem utf8Decode_scalar (c : Nat) (hc : IsScalar c) (r : Bytes) :
    utf8Decode (utf8Scalar c ++ r) = scalarUnits c ++ utf8Decode r := by
  unfold IsScalar at hc
  unfold utf8Scalar
  split_ifs with h1 h2 h3
  · have e0 : (byte c).toNat = c := byte_toNat (by omega)
    rw [List.cons_append, List.nil_append, utf8Decode_one r (by omega), e0, scalarUnits,
      if_pos (by omega)]
    rfl
  · have e0 : (byte (0xC0 + c / 0x40)).toNat = 0xC0 + c / 0x40 := byte_toNat (by omega)
    have e1 : (byte (0x80 + c % 0x40)).toNat = 0x80 + c % 0x40 := byte_toNat (by omega)
    simp only [List.cons_append, List.nil_append]
    rw [utf8Decode_two r ((inRange_iff ..).mpr (by omega)) ((inRange_iff ..).mpr (by omega))]
    congr 2
    simp only [tail6, e0, e1]
    omega
  · have e0 : (byte (0xE0 + c / 0x1000)).toNat = 0xE0 + c / 0x1000 := byte_toNat (by omega)
    have e1 : (byte (0x80 + c / 0x40 % 0x40)).toNat = 0x80 + c / 0x40 % 0x40 :=
      byte_toNat (by omega)
    have e2 : (byte (0x80 + c % 0x40)).toNat = 0x80 + c % 0x40 := byte_toNat (by omega)
    have hs : inRange (secondLow (byte (0xE0 + c / 0x1000))) (secondHigh (byte (0xE0 + c / 0x1000)))
        (byte (0x80 + c / 0x40 % 0x40)) = true := by
      simp only [inRange_iff, secondLow, secondHigh, e0, e1]
      split_ifs <;> omega
    simp only [List.cons_append, List.nil_append]
    rw [utf8Decode_three r ((inRange_iff ..).mpr (by omega)) hs ((inRange_iff ..).mpr (by omega))]
    congr 2
    simp only [tail6, e0, e1, e2]
    omega
  · have e0 : (byte (0xF0 + c / 0x40000)).toNat = 0xF0 + c / 0x40000 := byte_toNat (by omega)
    have e1 : (byte (0x80 + c / 0x1000 % 0x40)).toNat = 0x80 + c / 0x1000 % 0x40 :=
      byte_toNat (by omega)
    have e2 : (byte (0x80 + c / 0x40 % 0x40)).toNat = 0x80 + c / 0x40 % 0x40 :=
      byte_toNat (by omega)
    have e3 : (byte (0x80 + c % 0x40)).toNat = 0x80 + c % 0x40 := byte_toNat (by omega)
    have hs : inRange (secondLow (byte (0xF0 + c / 0x40000)))
        (secondHigh (byte (0xF0 + c / 0x40000))) (byte (0x80 + c / 0x1000 % 0x40)) = true := by
      simp only [inRange_iff, secondLow, secondHigh, e0, e1]
      split_ifs <;> omega
    simp only [List.cons_append, List.nil_append]
    rw [utf8Decode_four r ((inRange_iff ..).mpr (by omega)) hs ((inRange_iff ..).mpr (by omega))
      ((inRange_iff ..).mpr (by omega))]
    congr 2
    simp only [tail6, e0, e1, e2, e3]
    omega

theorem utf8Scalar_length_le (c : Nat) : (utf8Scalar c).length ≤ 4 := by
  unfold utf8Scalar
  split_ifs <;> simp

theorem utf8Encode_length_le (s : JsString) : (utf8Encode s).length ≤ 4 * s.length := by
  fun_induction utf8Encode s with
  | case1 => simp
  | case2 c hc =>
    have h := utf8Scalar_length_le 0xFFFD
    simpa using h
  | case3 c hc d r hd ih =>
    have h := utf8Scalar_length_le (pairScalar c d)
    rw [List.length_append]
    simp only [List.length_cons] at ih ⊢
    omega
  | case4 c hc d r hd ih =>
    have h := utf8Scalar_length_le 0xFFFD
    rw [List.length_append]
    simp only [List.length_cons] at ih ⊢
    omega
  | case5 c r hc hl ih =>
    have h := utf8Scalar_length_le 0xFFFD
    rw [List.length_append]
    simp only [List.length_cons] at ih ⊢
    omega
  | case6 c r hc hl ih =>
    have h := utf8Scalar_length_le c.toNat
    rw [List.length_append]
    simp only [List.length_cons] at ih ⊢
    omega
theorem pairScalar_scalar (c d : UInt16) (hc : isHigh c = true) (hd : isLow d = true) :
    IsScalar (pairScalar c d) := by
  simp only [isHigh, isLow, Bool.and_eq_true, decide_eq_true_eq] at hc hd
  unfold IsScalar pairScalar
  omega

theorem scalarUnits_pairScalar (c d : UInt16) (hc : isHigh c = true) (hd : isLow d = true) :
    scalarUnits (pairScalar c d) = [c, d] := by
  simp only [isHigh, isLow, Bool.and_eq_true, decide_eq_true_eq] at hc hd
  have hcd : 0xD800 + (pairScalar c d - 0x10000) / 0x400 = c.toNat := by unfold pairScalar; omega
  have hd' : 0xDC00 + pairScalar c d % 0x400 = d.toNat := by unfold pairScalar; omega
  rw [scalarUnits, if_neg (by unfold pairScalar; omega), hcd, hd', unit_ofNat_toNat,
    unit_ofNat_toNat]

theorem scalarUnits_unit (c : UInt16) : scalarUnits c.toNat = [c] := by
  rw [scalarUnits, if_pos c.toNat_lt, unit_ofNat_toNat]

theorem utf8Decode_replacement (r : Bytes) :
    utf8Decode (utf8Scalar 0xFFFD ++ r) = 0xFFFD :: utf8Decode r := by
  rw [utf8Decode_scalar 0xFFFD (by unfold IsScalar; omega),
    show scalarUnits 0xFFFD = [0xFFFD] by decide]
  rfl

theorem utf8Encode_plain {c : UInt16} (r : JsString) (hc : ¬isHigh c = true)
    (hl : ¬isLow c = true) : utf8Encode (c :: r) = utf8Scalar c.toNat ++ utf8Encode r := by
  rw [utf8Encode.eq_def]
  simp [hc, hl]

/-- Decoding what was encoded gives the string with its lone surrogates replaced. -/
theorem utf8Decode_encode (s : JsString) : utf8Decode (utf8Encode s) = toWellFormed s := by
  fun_induction utf8Encode s with
  | case1 => rfl
  | case2 c hc =>
    rw [← List.append_nil (utf8Scalar 0xFFFD), utf8Decode_replacement, toWellFormed, if_pos hc]
    rfl
  | case3 c hc d r hd ih =>
    rw [utf8Decode_scalar _ (pairScalar_scalar c d hc hd), scalarUnits_pairScalar c d hc hd, ih,
      toWellFormed_pair r hc hd]
    rfl
  | case4 c hc d r hd ih => rw [utf8Decode_replacement, ih, toWellFormed_unpaired r hc hd]
  | case5 c r hc hl ih => rw [utf8Decode_replacement, ih, toWellFormed_low r hc hl]
  | case6 c r hc hl ih =>
    have hs : IsScalar c.toNat := by
      have hlt := c.toNat_lt
      simp only [isHigh, isLow, Bool.and_eq_true, decide_eq_true_eq] at hc hl
      unfold IsScalar
      omega
    rw [utf8Decode_scalar _ hs, scalarUnits_unit, ih, toWellFormed_plain r hc hl]
    rfl

theorem utf8Decode_encode_of_wellFormed (s : JsString) (h : wellFormed s = true) :
    utf8Decode (utf8Encode s) = s := by
  rw [utf8Decode_encode, toWellFormed_of_wellFormed s h]

theorem utf8Encode_replacement (r : JsString) :
    utf8Encode (0xFFFD :: r) = utf8Scalar 0xFFFD ++ utf8Encode r := by
  rw [utf8Encode_plain r (by decide) (by decide)]
  rfl

theorem utf8Encode_toWellFormed (s : JsString) : utf8Encode (toWellFormed s) = utf8Encode s := by
  fun_induction utf8Encode s with
  | case1 => rfl
  | case2 c hc =>
    rw [toWellFormed, if_pos hc, utf8Encode_replacement]
    exact List.append_nil _
  | case3 c hc d r hd ih =>
    rw [toWellFormed_pair r hc hd, utf8Encode.eq_def]
    simp [hc, hd, ih]
  | case4 c hc d r hd ih => rw [toWellFormed_unpaired r hc hd, utf8Encode_replacement, ih]
  | case5 c r hc hl ih => rw [toWellFormed_low r hc hl, utf8Encode_replacement, ih]
  | case6 c r hc hl ih => rw [toWellFormed_plain r hc hl, utf8Encode_plain _ hc hl, ih]

/-- Lone surrogates are the only information UTF-8 encoding loses. -/
theorem utf8Encode_eq_iff (s t : JsString) :
    utf8Encode s = utf8Encode t ↔ toWellFormed s = toWellFormed t := by
  constructor
  · intro h
    rw [← utf8Decode_encode, h, utf8Decode_encode]
  · intro h
    rw [← utf8Encode_toWellFormed s, h, utf8Encode_toWellFormed t]

/-- One lowercase hexadecimal digit. -/
def hexDigit (n : Nat) : UInt16 := if n < 10 then UInt16.ofNat (48 + n) else UInt16.ofNat (87 + n)

end Adlc.Framework
