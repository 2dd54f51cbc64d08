import Adlc.Framework.JsonValue

namespace Adlc.Framework

variable {ν : Type} [JsNumber ν]

/-! ## Writing -/

/-- `\uXXXX` with lowercase digits. -/
def unicodeEscape (c : UInt16) : JsString :=
  [92, 117, hexDigit (c.toNat / 4096), hexDigit (c.toNat / 256 % 16), hexDigit (c.toNat / 16 % 16),
    hexDigit (c.toNat % 16)]

def quoteUnit (c : UInt16) : JsString :=
  if c = 8 then [92, 98]
  else if c = 9 then [92, 116]
  else if c = 10 then [92, 110]
  else if c = 12 then [92, 102]
  else if c = 13 then [92, 114]
  else if c = 34 then [92, 34]
  else if c = 92 then [92, 92]
  else if c.toNat < 32 then unicodeEscape c
  else [c]

/-- `QuoteJSONString`: an unpaired surrogate is escaped, a pair stands for itself. -/
def quoteBody : JsString → JsString
  | [] => []
  | c :: r =>
    if isHigh c then
      match r with
      | [] => unicodeEscape c
      | d :: r' =>
        if isLow d then c :: d :: quoteBody r' else unicodeEscape c ++ quoteBody (d :: r')
    else if isLow c then unicodeEscape c ++ quoteBody r
    else quoteUnit c ++ quoteBody r

def quote (s : JsString) : JsString := 34 :: (quoteBody s ++ [34])

def newline (gap ind : JsString) : JsString := if gap = [] then [] else 10 :: ind
def colon (gap : JsString) : JsString := if gap = [] then [58] else [58, 32]

mutual
/-- `SerializeJSONProperty` with indentation `gap`, at indentation `ind`. -/
def Json.write (gap : JsString) : JsString → Json ν → JsString
  | _, .null => js "null"
  | _, .bool b => if b then js "true" else js "false"
  | _, .num n => if JsNumber.isFinite n then JsNumber.text n else js "null"
  | _, .str s => quote s
  | _, .arr [] => js "[]"
  | ind, .arr (x :: xs) =>
    [91] ++ newline gap (ind ++ gap) ++ x.write gap (ind ++ gap) ++ writeElems gap (ind ++ gap) xs ++
      newline gap ind ++ [93]
  | _, .obj [] => js "{}"
  | ind, .obj ((k, v) :: ms) =>
    [123] ++ newline gap (ind ++ gap) ++ quote k ++ colon gap ++ v.write gap (ind ++ gap) ++
      writeMembers gap (ind ++ gap) ms ++ newline gap ind ++ [125]

def writeElems (gap : JsString) : JsString → List (Json ν) → JsString
  | _, [] => []
  | ind, x :: xs => [44] ++ newline gap ind ++ x.write gap ind ++ writeElems gap ind xs

def writeMembers (gap : JsString) : JsString → Members ν → JsString
  | _, [] => []
  | ind, (k, v) :: ms =>
    [44] ++ newline gap ind ++ quote k ++ colon gap ++ v.write gap ind ++ writeMembers gap ind ms
end

/-- `JSON.stringify(v)`. -/
def stringify (v : Json ν) : JsString := v.write [] []

/-- `JSON.stringify(v, null, 2)`. -/
def stringify2 (v : Json ν) : JsString := v.write (js "  ") []

/-! ## Reading -/

def isJsonSpace (c : UInt16) : Bool := c = 32 ∨ c = 9 ∨ c = 10 ∨ c = 13

def skipSpace (s : JsString) : JsString := s.dropWhile isJsonSpace

def hexValue (c : UInt16) : Option Nat :=
  if 48 ≤ c.toNat ∧ c.toNat ≤ 57 then some (c.toNat - 48)
  else if 97 ≤ c.toNat ∧ c.toNat ≤ 102 then some (c.toNat - 87)
  else if 65 ≤ c.toNat ∧ c.toNat ≤ 70 then some (c.toNat - 55)
  else none

def hex4 (a b c d : UInt16) : Option UInt16 :=
  match hexValue a, hexValue b, hexValue c, hexValue d with
  | some a, some b, some c, some d => some (UInt16.ofNat (((a * 16 + b) * 16 + c) * 16 + d))
  | _, _, _, _ => none

/-- The one-letter escapes. -/
def escapeValue (c : UInt16) : Option UInt16 :=
  if c = 34 then some 34
  else if c = 92 then some 92
  else if c = 47 then some 47
  else if c = 98 then some 8
  else if c = 102 then some 12
  else if c = 110 then some 10
  else if c = 114 then some 13
  else if c = 116 then some 9
  else none

/-- A string after its opening quote. -/
def parseString : JsString → Option (JsString × JsString)
  | [] => none
  | c :: r =>
    if c = 34 then some ([], r)
    else if c = 92 then
      match r with
      | [] => none
      | e :: r' =>
        if e = 117 then
          match r' with
          | a :: b :: c' :: d :: r'' =>
            match hex4 a b c' d with
            | some u => (parseString r'').map fun p => (u :: p.1, p.2)
            | none => none
          | _ => none
        else
          match escapeValue e with
          | some u => (parseString r').map fun p => (u :: p.1, p.2)
          | none => none
    else if c.toNat < 32 then none
    else (parseString r).map fun p => (c :: p.1, p.2)

def isNumUnit (c : UInt16) : Bool :=
  isDigit c || c = 43 || c = 45 || c = 46 || c = 69 || c = 101

/-- No JSON token may follow a number directly, so a number is the longest run of its characters. -/
def parseNumber (s : JsString) : Option (Json ν × JsString) :=
  let t := s.takeWhile isNumUnit
  if isNumberText t then some (.num (JsNumber.ofText t), s.dropWhile isNumUnit) else none

def parseWord (w : JsString) (v : Json ν) (s : JsString) : Option (Json ν × JsString) :=
  if w <+: s then some (v, s.drop w.length) else none

mutual
def parseValue : Nat → JsString → Option (Json ν × JsString)
  | 0, _ => none
  | n + 1, s =>
    match skipSpace s with
    | [] => none
    | c :: r =>
      if c = 34 then (parseString r).map fun p => (.str p.1, p.2)
      else if c = 91 then
        match skipSpace r with
        | [] => none
        | d :: r' =>
          if d = 93 then some (.arr [], r')
          else (parseElems n (d :: r')).map fun p => (.arr p.1, p.2)
      else if c = 123 then
        match skipSpace r with
        | [] => none
        | d :: r' =>
          if d = 125 then some (.obj [], r')
          else (parseMembers n (d :: r')).map fun p => (.obj (Members.create p.1), p.2)
      else if c = 116 then parseWord (js "true") (.bool true) (c :: r)
      else if c = 102 then parseWord (js "false") (.bool false) (c :: r)
      else if c = 110 then parseWord (js "null") .null (c :: r)
      else parseNumber (c :: r)

/-- The elements of a nonempty array, up to its closing bracket. -/
def parseElems : Nat → JsString → Option (List (Json ν) × JsString)
  | 0, _ => none
  | n + 1, s =>
    match parseValue n s with
    | none => none
    | some (v, r) =>
      match skipSpace r with
      | [] => none
      | c :: r' =>
        if c = 44 then (parseElems n r').map fun p => (v :: p.1, p.2)
        else if c = 93 then some ([v], r')
        else none

/-- The members of a nonempty object in the order of the text, up to its closing brace. -/
def parseMembers : Nat → JsString → Option (Members ν × JsString)
  | 0, _ => none
  | n + 1, s =>
    match skipSpace s with
    | [] => none
    | q :: s' =>
      if q = 34 then
        match parseString s' with
        | none => none
        | some (k, r) =>
          match skipSpace r with
          | [] => none
          | c :: r' =>
            if c = 58 then
              match parseValue n r' with
              | none => none
              | some (v, r'') =>
                match skipSpace r'' with
                | [] => none
                | d :: t =>
                  if d = 44 then (parseMembers n t).map fun p => ((k, v) :: p.1, p.2)
                  else if d = 125 then some ([(k, v)], t)
                  else none
            else none
      else none
end

/-- `JSON.parse(text)`; `none` is a `SyntaxError`. Every value takes a character at least, so the
text's length is fuel enough. -/
def parseJson (s : JsString) : Option (Json ν) :=
  match parseValue (s.length + 1) s with
  | none => none
  | some (v, r) => if skipSpace r = [] then some v else none

/-! ## What is written is read back -/

theorem hexValue_hexDigit {n : Nat} (h : n < 16) : hexValue (hexDigit n) = some n := by
  interval_cases n <;> decide

theorem hex4_unicodeEscape (c : UInt16) :
    hex4 (hexDigit (c.toNat / 4096)) (hexDigit (c.toNat / 256 % 16)) (hexDigit (c.toNat / 16 % 16))
      (hexDigit (c.toNat % 16)) = some c := by
  have hc := c.toNat_lt
  have e : ((c.toNat / 4096 * 16 + c.toNat / 256 % 16) * 16 + c.toNat / 16 % 16) * 16 +
      c.toNat % 16 = c.toNat := by omega
  simp only [hex4, hexValue_hexDigit (show c.toNat / 4096 < 16 by omega),
    hexValue_hexDigit (Nat.mod_lt _ (by decide : 16 > 0)), e, unit_ofNat_toNat]

theorem parseString_unicodeEscape (c : UInt16) (r : JsString) :
    parseString (unicodeEscape c ++ r) = (parseString r).map fun p => (c :: p.1, p.2) := by
  rw [unicodeEscape]
  simp only [List.cons_append, List.nil_append]
  rw [parseString.eq_def]
  simp [hex4_unicodeEscape]

theorem parseString_escape {e u : UInt16} (he : e ≠ 117) (hu : escapeValue e = some u)
    (r : JsString) : parseString (92 :: e :: r) = (parseString r).map fun p => (u :: p.1, p.2) := by
  rw [parseString.eq_def]
  simp [he, hu]

theorem parseString_plain {c : UInt16} (h1 : c ≠ 34) (h2 : c ≠ 92) (h3 : ¬c.toNat < 32)
    (r : JsString) : parseString (c :: r) = (parseString r).map fun p => (c :: p.1, p.2) := by
  rw [parseString.eq_def]
  simp [h1, h2, h3]

theorem parseString_quoteUnit (c : UInt16) (r : JsString) :
    parseString (quoteUnit c ++ r) = (parseString r).map fun p => (c :: p.1, p.2) := by
  unfold quoteUnit
  split_ifs with h1 h2 h3 h4 h5 h6 h7 h8
  · subst h1
    exact parseString_escape (by decide) (by decide) r
  · subst h2
    exact parseString_escape (by decide) (by decide) r
  · subst h3
    exact parseString_escape (by decide) (by decide) r
  · subst h4
    exact parseString_escape (by decide) (by decide) r
  · subst h5
    exact parseString_escape (by decide) (by decide) r
  · subst h6
    exact parseString_escape (by decide) (by decide) r
  · subst h7
    exact parseString_escape (by decide) (by decide) r
  · exact parseString_unicodeEscape c r
  · exact parseString_plain h6 h7 h8 r

theorem surrogate_plain {c : UInt16} (h : isHigh c = true ∨ isLow c = true) :
    c ≠ 34 ∧ c ≠ 92 ∧ ¬c.toNat < 32 := by
  have hc : 0xD800 ≤ c.toNat := by
    simp only [isHigh, isLow, Bool.and_eq_true, decide_eq_true_eq] at h
    omega
  refine ⟨?_, ?_, by omega⟩
  · rintro rfl
    revert hc
    decide
  · rintro rfl
    revert hc
    decide

theorem parseString_end (r : JsString) : parseString (34 :: r) = some ([], r) := by
  rw [parseString.eq_def]
  rfl

/-- A written string is read back, whatever follows it. -/
theorem parseString_quoteBody (s r : JsString) :
    parseString (quoteBody s ++ 34 :: r) = some (s, r) := by
  fun_induction quoteBody s with
  | case1 => exact parseString_end r
  | case2 c hc =>
    rw [parseString_unicodeEscape, parseString_end]
    rfl
  | case3 c hc d s hd ih =>
    obtain ⟨c1, c2, c3⟩ := surrogate_plain (Or.inl hc)
    obtain ⟨d1, d2, d3⟩ := surrogate_plain (Or.inr hd)
    rw [List.cons_append, List.cons_append, parseString_plain c1 c2 c3, parseString_plain d1 d2 d3,
      ih]
    rfl
  | case4 c hc d s hd ih =>
    rw [List.append_assoc, parseString_unicodeEscape, ih]
    rfl
  | case5 c s hc hl ih =>
    rw [List.append_assoc, parseString_unicodeEscape, ih]
    rfl
  | case6 c s hc hl ih =>
    rw [List.append_assoc, parseString_quoteUnit, ih]
    rfl

theorem digit_isNumUnit {c : UInt16} (h : isDigit c = true) : isNumUnit c = true := by
  simp [isNumUnit, h]

theorem NumState.lead_isNumUnit {q : NumState} {c : UInt16} (h : NumState.lead c = some q) :
    c = 48 ∨ isDigit c = true := by
  unfold NumState.lead at h
  split_ifs at h with h1 h2
  · exact Or.inl h1
  · exact Or.inr h2

theorem NumState.expo_isNumUnit {q : NumState} {c : UInt16} (h : NumState.expo c = some q) :
    isNumUnit c = true := by
  unfold NumState.expo at h
  split_ifs at h with h1
  rcases h1 with rfl | rfl <;> decide

theorem NumState.step_isNumUnit {q q' : NumState} {c : UInt16} (h : q.step c = some q') :
    isNumUnit c = true := by
  have lead : NumState.lead c = some q' → isNumUnit c = true := by
    intro h
    rcases NumState.lead_isNumUnit h with rfl | h
    · decide
    · exact digit_isNumUnit h
  cases q <;> simp only [NumState.step] at h
  case start =>
    split_ifs at h with h1
    · subst h1
      decide
    · exact lead h
  case minus => exact lead h
  case zero =>
    split_ifs at h with h1
    · subst h1
      decide
    · exact NumState.expo_isNumUnit h
  case int =>
    split_ifs at h with h1 h2
    · exact digit_isNumUnit h1
    · subst h2
      decide
    · exact NumState.expo_isNumUnit h
  case frac =>
    split_ifs at h with h1
    · exact digit_isNumUnit h1
    · exact NumState.expo_isNumUnit h
  case e =>
    split_ifs at h with h1 h2
    · rcases h1 with rfl | rfl <;> decide
    · exact digit_isNumUnit h2
  all_goals
    split_ifs at h with h1
    exact digit_isNumUnit h1

theorem numRun_isNumUnit (s : JsString) (q : NumState) (h : numRun q s = true) :
    ∀ c ∈ s, isNumUnit c = true := by
  induction s generalizing q with
  | nil => simp
  | cons c s ih =>
    simp only [numRun] at h
    cases hq : q.step c with
    | none => simp [hq] at h
    | some q' =>
      rw [hq] at h
      intro d hd
      rcases List.mem_cons.mp hd with rfl | hd
      · exact NumState.step_isNumUnit hq
      · exact ih q' h d hd

/-- A number starts with a minus sign or a digit. -/
theorem isNumberText_head {s : JsString} (h : isNumberText s = true) :
    ∃ c t, s = c :: t ∧ (c = 45 ∨ isDigit c = true) := by
  cases s with
  | nil => cases h
  | cons c t =>
    refine ⟨c, t, rfl, ?_⟩
    unfold isNumberText at h
    simp only [numRun, NumState.step] at h
    split_ifs at h with h1
    · exact Or.inl h1
    · right
      cases hl : NumState.lead c with
      | none => simp [hl] at h
      | some q =>
        rcases NumState.lead_isNumUnit hl with rfl | hd
        · decide
        · exact hd

/-- What may follow a value: nothing a number could go on with. -/
def Follows (r : JsString) : Prop := ∀ c ∈ r.head?, isNumUnit c = false

theorem parseNumber_text {t r : JsString} (ht : isNumberText t = true) (hr : Follows r) :
    parseNumber (ν := ν) (t ++ r) = some (.num (JsNumber.ofText t), r) := by
  have hall := numRun_isNumUnit t _ ht
  have htake : r.takeWhile isNumUnit = [] := by
    cases r with
    | nil => rfl
    | cons c r => simp [hr c (by simp)]
  have hdrop : r.dropWhile isNumUnit = r := by
    cases r with
    | nil => rfl
    | cons c r => simp [hr c (by simp)]
  unfold parseNumber
  rw [List.takeWhile_append_of_pos hall, List.dropWhile_append_of_pos hall, htake, hdrop,
    List.append_nil]
  simp [ht]

/-- Indentation. -/
def Spaces (s : JsString) : Prop := ∀ c ∈ s, isJsonSpace c = true

theorem Spaces.nil : Spaces [] := by
  intro c hc
  cases hc

theorem Spaces.append {s t : JsString} (hs : Spaces s) (ht : Spaces t) : Spaces (s ++ t) := by
  intro c hc
  rcases List.mem_append.mp hc with hc | hc
  · exact hs c hc
  · exact ht c hc

theorem Spaces.newline {ind : JsString} (gap : JsString) (hi : Spaces ind) :
    Spaces (newline gap ind) := by
  unfold Adlc.Framework.newline
  split_ifs
  · exact Spaces.nil
  · intro c hc
    rcases List.mem_cons.mp hc with rfl | hc
    · decide
    · exact hi c hc

theorem skipSpace_spaces {w : JsString} (hw : Spaces w) (s : JsString) :
    skipSpace (w ++ s) = skipSpace s := List.dropWhile_append_of_pos hw

theorem skipSpace_of_head {c : UInt16} (hc : isJsonSpace c = false) (r : JsString) :
    skipSpace (c :: r) = c :: r := by simp [skipSpace, hc]

theorem parseValue_spaces {w : JsString} (hw : Spaces w) (n : Nat) (s : JsString) :
    parseValue (ν := ν) n (w ++ s) = parseValue n s := by
  cases n with
  | zero => simp [parseValue]
  | succ n => rw [parseValue, parseValue, skipSpace_spaces hw]

theorem parseElems_spaces {w : JsString} (hw : Spaces w) (n : Nat) (s : JsString) :
    parseElems (ν := ν) n (w ++ s) = parseElems n s := by
  cases n with
  | zero => simp [parseElems]
  | succ n => rw [parseElems, parseElems, parseValue_spaces hw]

theorem parseMembers_spaces {w : JsString} (hw : Spaces w) (n : Nat) (s : JsString) :
    parseMembers (ν := ν) n (w ++ s) = parseMembers n s := by
  cases n with
  | zero => simp [parseMembers]
  | succ n => rw [parseMembers, parseMembers, skipSpace_spaces hw]

mutual
/-- Fuel enough to read a value back. -/
def Json.size : Json ν → Nat
  | .null | .bool _ | .num _ | .str _ => 1
  | .arr xs => 1 + elemsSize xs
  | .obj ms => 1 + membersSize ms

def elemsSize : List (Json ν) → Nat
  | [] => 0
  | x :: xs => 1 + x.size + elemsSize xs

def membersSize : Members ν → Nat
  | [] => 0
  | (_, v) :: ms => 1 + v.size + membersSize ms
end

/-- The value is read back from its text, at any indentation and whatever follows. -/
def ReadsBack (gap : JsString) (v : Json ν) : Prop :=
  ∀ n ind r, Spaces ind → Follows r → v.size ≤ n →
    parseValue n (v.write gap ind ++ r) = some (v, r)

/-- A written value starts with a character that is neither space nor a closing bracket. -/
theorem write_head (gap ind : JsString) {v : Json ν} (hv : v.IsJson) :
    ∃ c t, v.write gap ind = c :: t ∧ isJsonSpace c = false ∧ c ≠ 93 ∧ c ≠ 125 := by
  cases v with
  | null => exact ⟨110, js "ull", by rw [Json.write]; decide, by decide, by decide, by decide⟩
  | bool b =>
    cases b with
    | false => exact ⟨102, js "alse", by rw [Json.write]; decide, by decide, by decide, by decide⟩
    | true => exact ⟨116, js "rue", by rw [Json.write]; decide, by decide, by decide, by decide⟩
  | num n =>
    have hn : JsNumber.isFinite n = true := hv
    obtain ⟨c, t, ht, hc⟩ := isNumberText_head (JsNumber.isNumberText_text n hn)
    refine ⟨c, t, by rw [Json.write, if_pos hn, ht], ?_⟩
    rcases hc with rfl | hc
    · decide
    · have h9 : 48 ≤ c.toNat ∧ c.toNat ≤ 57 := by simpa [isDigit] using hc
      refine ⟨?_, ?_, ?_⟩
      · simp only [isJsonSpace, decide_eq_false_iff_not]
        rintro (rfl | rfl | rfl | rfl) <;> revert h9 <;> decide
      · rintro rfl
        revert h9
        decide
      · rintro rfl
        revert h9
        decide
  | str s => exact ⟨34, quoteBody s ++ [34], by rw [Json.write]; rfl, by decide, by decide, by decide⟩
  | arr xs =>
    cases xs with
    | nil => exact ⟨91, [93], by rw [Json.write]; decide, by decide, by decide, by decide⟩
    | cons x xs => exact ⟨91, _, by rw [Json.write]; rfl, by decide, by decide, by decide⟩
  | obj ms =>
    cases ms with
    | nil => exact ⟨123, [125], by rw [Json.write]; decide, by decide, by decide, by decide⟩
    | cons p ms => exact ⟨123, _, by rw [Json.write]; rfl, by decide, by decide, by decide⟩

/-- What closes a container: the indentation and the bracket. -/
theorem follows_close {w : JsString} (hw : Spaces w) {c : UInt16} (hc : isNumUnit c = false)
    (r : JsString) : Follows (w ++ c :: r) := by
  intro d hd
  cases w with
  | nil =>
    have e : c = d := by simpa using hd
    rw [← e, hc]
  | cons b w =>
    have e : b = d := by simpa using hd
    have hb := hw b (by simp)
    rw [← e]
    simp only [isJsonSpace, decide_eq_true_eq] at hb
    rcases hb with rfl | rfl | rfl | rfl <;> decide

theorem parseElems_write {gap : JsString} (xs : List (Json ν)) :
    ∀ (x : Json ν) (n : Nat) (ind out r : JsString), (∀ y ∈ x :: xs, ReadsBack gap y) →
      Spaces ind → Spaces out → elemsSize (x :: xs) ≤ n →
      parseElems n (x.write gap ind ++ (writeElems gap ind xs ++ (out ++ 93 :: r))) =
        some (x :: xs, r) := by
  induction xs with
  | nil =>
    intro x n ind out r h hi ho hn
    obtain ⟨n, rfl⟩ : ∃ m, n = m + 1 := ⟨n - 1, by simp only [elemsSize] at hn; omega⟩
    have hx := h x (by simp) n ind (out ++ 93 :: r) hi (follows_close ho (by decide) r)
      (by simp only [elemsSize] at hn; omega)
    rw [parseElems, writeElems, List.nil_append, hx]
    simp only [skipSpace_spaces ho]
    rw [skipSpace_of_head (by decide)]
    rfl
  | cons y ys ih =>
    intro x n ind out r h hi ho hn
    obtain ⟨n, rfl⟩ : ∃ m, n = m + 1 := ⟨n - 1, by simp only [elemsSize] at hn; omega⟩
    simp only [elemsSize] at hn ih
    have hx := h x (by simp) n ind (writeElems gap ind (y :: ys) ++ (out ++ 93 :: r)) hi
      (by intro c hc; simp [writeElems] at hc; subst hc; decide) (by omega)
    have hy := ih y n ind out r (fun z hz => h z (List.mem_cons_of_mem _ hz)) hi ho (by omega)
    rw [parseElems, hx]
    simp only [writeElems, List.append_assoc, List.cons_append, List.nil_append]
    rw [skipSpace_of_head (by decide)]
    simp only [if_true]
    rw [parseElems_spaces (Spaces.newline gap hi), hy]
    rfl

theorem parseMembers_write {gap : JsString} (ms : Members ν) :
    ∀ (k : JsString) (v : Json ν) (n : Nat) (ind out r : JsString),
      (∀ p ∈ (k, v) :: ms, ReadsBack gap p.2) → Spaces ind → Spaces out →
      membersSize ((k, v) :: ms) ≤ n →
      parseMembers n (quote k ++ (colon gap ++ (v.write gap ind ++
        (writeMembers gap ind ms ++ (out ++ 125 :: r))))) = some ((k, v) :: ms, r) := by
  have hcolon : ∀ s : JsString, ∃ w, Spaces w ∧ colon gap ++ s = 58 :: (w ++ s) := by
    intro s
    unfold colon
    split_ifs
    · exact ⟨[], Spaces.nil, rfl⟩
    · refine ⟨[32], ?_, rfl⟩
      intro c hc
      rw [List.mem_singleton.mp hc]
      decide
  induction ms with
  | nil =>
    intro k v n ind out r h hi ho hn
    obtain ⟨n, rfl⟩ : ∃ m, n = m + 1 := ⟨n - 1, by simp only [membersSize] at hn; omega⟩
    have hv := h (k, v) (by simp) n ind (out ++ 125 :: r) hi (follows_close ho (by decide) r)
      (by simp only [membersSize] at hn ⊢; omega)
    obtain ⟨w, hw, hc⟩ := hcolon (v.write gap ind ++ (out ++ 125 :: r))
    rw [parseMembers, quote, List.cons_append, skipSpace_of_head (by decide)]
    simp only [if_true, writeMembers, List.nil_append, List.append_assoc, List.cons_append]
    rw [parseString_quoteBody, hc]
    simp only [skipSpace_of_head (show isJsonSpace 58 = false by decide), if_true]
    rw [parseValue_spaces hw, hv]
    simp only [skipSpace_spaces ho]
    rw [skipSpace_of_head (by decide)]
    rfl
  | cons p ms ih =>
    obtain ⟨k', v'⟩ := p
    intro k v n ind out r h hi ho hn
    obtain ⟨n, rfl⟩ : ∃ m, n = m + 1 := ⟨n - 1, by simp only [membersSize] at hn; omega⟩
    simp only [membersSize] at hn ih
    have hv := h (k, v) (by simp) n ind
      (writeMembers gap ind ((k', v') :: ms) ++ (out ++ 125 :: r)) hi
      (by intro c hc; simp [writeMembers] at hc; subst hc; decide) (by simp only; omega)
    have hm := ih k' v' n ind out r (fun z hz => h z (List.mem_cons_of_mem _ hz)) hi ho (by omega)
    obtain ⟨w, hw, hc⟩ := hcolon (v.write gap ind ++
      (writeMembers gap ind ((k', v') :: ms) ++ (out ++ 125 :: r)))
    rw [parseMembers, quote, List.cons_append, skipSpace_of_head (by decide)]
    simp only [if_true, List.append_assoc, List.cons_append, List.nil_append]
    rw [parseString_quoteBody, hc]
    simp only [skipSpace_of_head (show isJsonSpace 58 = false by decide), if_true]
    rw [parseValue_spaces hw, hv]
    simp only [writeMembers, List.append_assoc, List.cons_append, List.nil_append]
    rw [skipSpace_of_head (by decide)]
    simp only [if_true]
    rw [parseMembers_spaces (Spaces.newline gap hi), hm]
    rfl

omit [JsNumber ν] in
theorem parseWord_write (w : JsString) (v : Json ν) (r : JsString) :
    parseWord w v (w ++ r) = some (v, r) := by
  unfold parseWord
  rw [if_pos (List.prefix_append w r), List.drop_left]

/-- Every JSON value reads back from what is written for it. -/
theorem readsBack {gap : JsString} (hg : Spaces gap) (v : Json ν) (hv : v.IsJson) :
    ReadsBack gap v := by
  induction v using Json.ind with
  | null =>
    intro n ind r hi hr hn
    obtain ⟨n, rfl⟩ : ∃ m, n = m + 1 := ⟨n - 1, by simp only [Json.size] at hn; omega⟩
    rw [parseValue, Json.write, show js "null" ++ r = 110 :: (js "ull" ++ r) from rfl,
      skipSpace_of_head (by decide)]
    exact parseWord_write (js "null") .null r
  | bool b =>
    intro n ind r hi hr hn
    obtain ⟨n, rfl⟩ : ∃ m, n = m + 1 := ⟨n - 1, by simp only [Json.size] at hn; omega⟩
    cases b with
    | true =>
      rw [parseValue, Json.write, if_pos rfl, show js "true" ++ r = 116 :: (js "rue" ++ r) from rfl,
        skipSpace_of_head (by decide)]
      exact parseWord_write (js "true") (.bool true) r
    | false =>
      rw [parseValue, Json.write, if_neg (by decide),
        show js "false" ++ r = 102 :: (js "alse" ++ r) from rfl, skipSpace_of_head (by decide)]
      exact parseWord_write (js "false") (.bool false) r
  | num m =>
    intro n ind r hi hr hn
    obtain ⟨n, rfl⟩ : ∃ m, n = m + 1 := ⟨n - 1, by simp only [Json.size] at hn; omega⟩
    have hm : JsNumber.isFinite m = true := hv
    have ht := JsNumber.isNumberText_text m hm
    obtain ⟨c, t, e, hc⟩ := isNumberText_head ht
    obtain ⟨c', t', e', hsp, -⟩ := write_head gap ind (v := .num m) hv
    have hp := parseNumber_text (ν := ν) ht hr
    rw [Json.write, if_pos hm, e] at e'
    obtain ⟨rfl, rfl⟩ := List.cons.inj e'
    rw [JsNumber.ofText_text m hm, e, List.cons_append] at hp
    rw [parseValue, Json.write, if_pos hm, e, List.cons_append, skipSpace_of_head hsp]
    have hne : c ≠ 34 ∧ c ≠ 91 ∧ c ≠ 123 ∧ c ≠ 116 ∧ c ≠ 102 ∧ c ≠ 110 := by
      rcases hc with rfl | hc
      · decide
      · have h9 : 48 ≤ c.toNat ∧ c.toNat ≤ 57 := by simpa [isDigit] using hc
        refine ⟨?_, ?_, ?_, ?_, ?_, ?_⟩ <;> rintro rfl <;> revert h9 <;> decide
    simp only [hne, if_false]
    exact hp
  | str s =>
    intro n ind r hi hr hn
    obtain ⟨n, rfl⟩ : ∃ m, n = m + 1 := ⟨n - 1, by simp only [Json.size] at hn; omega⟩
    rw [parseValue, Json.write, quote, List.cons_append, skipSpace_of_head (by decide)]
    simp only [if_true, List.append_assoc, List.cons_append, List.nil_append]
    rw [parseString_quoteBody]
    rfl
  | arr xs ih =>
    intro n ind r hi hr hn
    obtain ⟨n, rfl⟩ : ∃ m, n = m + 1 := ⟨n - 1, by simp only [Json.size] at hn; omega⟩
    have hxs : ∀ x ∈ xs, x.IsJson := (elemsIsJson_iff xs).mp hv
    cases xs with
    | nil =>
      rw [parseValue, Json.write, show js "[]" ++ r = 91 :: 93 :: r from rfl,
        skipSpace_of_head (by decide)]
      simp only [show ¬(91 : UInt16) = 34 by decide, if_false, if_true]
      rw [skipSpace_of_head (by decide)]
      rfl
    | cons x xs =>
      obtain ⟨c, t, e, hsp, hc, -⟩ := write_head gap (ind ++ gap) (hxs x (by simp))
      have hin := hi.append hg
      have he := parseElems_write xs x n (ind ++ gap) (newline gap ind) r
        (fun y hy => ih y hy (hxs y hy)) hin (Spaces.newline gap hi)
        (by simp only [Json.size] at hn; omega)
      rw [parseValue, Json.write]
      simp only [List.append_assoc, List.cons_append, List.nil_append]
      rw [skipSpace_of_head (by decide)]
      simp only [show ¬(91 : UInt16) = 34 by decide, if_false, if_true]
      rw [skipSpace_spaces (Spaces.newline gap hin)]
      rw [e, List.cons_append] at he ⊢
      rw [skipSpace_of_head hsp]
      simp only [hc, if_false, he, Option.map_some]
  | obj ms ih =>
    intro n ind r hi hr hn
    obtain ⟨n, rfl⟩ : ∃ m, n = m + 1 := ⟨n - 1, by simp only [Json.size] at hn; omega⟩
    obtain ⟨ho, hv⟩ := hv
    have hms := (membersIsJson_iff ms).mp hv
    cases ms with
    | nil =>
      rw [parseValue, Json.write, show js "{}" ++ r = 123 :: 125 :: r from rfl,
        skipSpace_of_head (by decide)]
      simp only [show ¬(123 : UInt16) = 34 by decide, show ¬(123 : UInt16) = 91 by decide, if_false,
        if_true]
      rw [skipSpace_of_head (by decide)]
      rfl
    | cons p ms =>
      obtain ⟨k, v⟩ := p
      have hin := hi.append hg
      have he := parseMembers_write ms k v n (ind ++ gap) (newline gap ind) r
        (fun y hy => ih y hy (hms y hy)) hin (Spaces.newline gap hi)
        (by simp only [Json.size] at hn; omega)
      rw [parseValue, Json.write]
      simp only [List.append_assoc, List.cons_append, List.nil_append]
      rw [skipSpace_of_head (by decide)]
      simp only [show ¬(123 : UInt16) = 34 by decide, show ¬(123 : UInt16) = 91 by decide, if_false,
        if_true]
      rw [skipSpace_spaces (Spaces.newline gap hin)]
      rw [quote, List.cons_append] at he ⊢
      rw [skipSpace_of_head (by decide)]
      simp only [show ¬(34 : UInt16) = 125 by decide, if_false, he, Option.map_some,
        Members.create_of_ordered ho]

/-- A value takes a character of text at least for each unit of its size. -/
theorem size_le_length (gap : JsString) (v : Json ν) (hv : v.IsJson) :
    ∀ ind, v.size ≤ (v.write gap ind).length := by
  induction v using Json.ind with
  | null =>
    intro ind
    rw [Json.write, Json.size]
    decide
  | bool b =>
    intro ind
    rw [Json.write, Json.size]
    cases b <;> decide
  | num n =>
    intro ind
    obtain ⟨c, t, e, -⟩ := write_head gap ind (v := .num n) hv
    rw [e]
    simp [Json.size]
  | str s => intro ind; rw [Json.write, Json.size]; simp [quote]
  | arr xs ih =>
    have hxs : ∀ x ∈ xs, x.IsJson := (elemsIsJson_iff xs).mp hv
    have key : ∀ ind, elemsSize xs ≤ (writeElems gap ind xs).length := by
      clear hv
      intro ind
      induction xs with
      | nil => simp [elemsSize]
      | cons x xs ihxs =>
        have h1 := ih x (by simp) (hxs x (by simp)) ind
        have h2 := ihxs (fun y hy => ih y (List.mem_cons_of_mem _ hy))
          (fun y hy => hxs y (List.mem_cons_of_mem _ hy))
        simp only [elemsSize, writeElems, List.length_append, List.length_cons, List.length_nil]
        omega
    intro ind
    cases xs with
    | nil => rw [Json.write, Json.size, elemsSize]; decide
    | cons x xs =>
      have h := key (ind ++ gap)
      simp only [writeElems, List.length_append, List.length_cons, List.length_nil] at h
      simp only [Json.size, Json.write, List.length_append, List.length_cons, List.length_nil]
      omega
  | obj ms ih =>
    obtain ⟨-, hv⟩ := hv
    have hms := (membersIsJson_iff ms).mp hv
    have key : ∀ ind, membersSize ms ≤ (writeMembers gap ind ms).length := by
      clear hv
      intro ind
      induction ms with
      | nil => simp [membersSize]
      | cons p ms ihms =>
        obtain ⟨k, v⟩ := p
        have h1 := ih (k, v) (by simp) (hms (k, v) (by simp)) ind
        have h2 := ihms (fun y hy => ih y (List.mem_cons_of_mem _ hy))
          (fun y hy => hms y (List.mem_cons_of_mem _ hy))
        simp only at h1
        simp only [membersSize, writeMembers, List.length_append, List.length_cons, List.length_nil]
        omega
    intro ind
    cases ms with
    | nil => rw [Json.write, Json.size, membersSize]; decide
    | cons p ms =>
      have h := key (ind ++ gap)
      simp only [writeMembers, List.length_append, List.length_cons, List.length_nil] at h
      simp only [Json.size, Json.write, List.length_append, List.length_cons, List.length_nil]
      omega

/-- `JSON.parse` inverts `JSON.stringify`, with any indentation and trailing space. -/
theorem parseJson_write {gap w : JsString} (hg : Spaces gap) (hw : Spaces w) {v : Json ν}
    (hv : v.IsJson) : parseJson (v.write gap [] ++ w) = some v := by
  have hr : Follows w := by
    intro c hc
    cases w with
    | nil => cases hc
    | cons d w =>
      have e : d = c := by simpa using hc
      have hd := hw d (by simp)
      simp only [isJsonSpace, decide_eq_true_eq] at hd
      rw [← e]
      rcases hd with rfl | rfl | rfl | rfl <;> decide
  have hn : v.size ≤ (v.write gap [] ++ w).length + 1 := by
    have h := size_le_length gap v hv []
    rw [List.length_append]
    omega
  have hend : skipSpace w = [] := by
    have h := skipSpace_spaces hw []
    rw [List.append_nil] at h
    exact h
  unfold parseJson
  rw [readsBack hg v hv _ [] w Spaces.nil hr hn]
  simp [hend]

theorem parseJson_stringify {v : Json ν} (hv : v.IsJson) : parseJson (stringify v) = some v := by
  have h := parseJson_write Spaces.nil Spaces.nil hv
  rw [List.append_nil] at h
  exact h

/-- A JSON value's text determines the value. -/
theorem stringify_injective {v w : Json ν} (hv : v.IsJson) (hw : w.IsJson)
    (h : stringify v = stringify w) : v = w := by
  have e := parseJson_stringify hv
  rw [h, parseJson_stringify hw] at e
  exact (Option.some.inj e).symm

/-! ## The characters of a written value -/

/-- Neither a control character nor a surrogate that stands alone. -/
def Printable (s : JsString) : Prop := wellFormed s = true ∧ ∀ c ∈ s, 32 ≤ c.toNat

theorem Printable.append {s t : JsString} (hs : Printable s) (ht : Printable t) :
    Printable (s ++ t) := by
  refine ⟨by rw [wellFormed_append s t hs.1]; exact ht.1, ?_⟩
  intro c hc
  rcases List.mem_append.mp hc with hc | hc
  · exact hs.2 c hc
  · exact ht.2 c hc

theorem Printable.nil : Printable [] := ⟨rfl, by intro c hc; cases hc⟩

theorem printable_of_small {s : JsString} (h : ∀ c ∈ s, 32 ≤ c.toNat ∧ c.toNat < 0xD800) :
    Printable s := by
  refine ⟨?_, fun c hc => (h c hc).1⟩
  induction s with
  | nil => rfl
  | cons c s ih =>
    have hc := h c (by simp)
    have h1 : ¬isHigh c = true := by
      simp only [isHigh, Bool.and_eq_true, decide_eq_true_eq]
      omega
    have h2 : isLow c = false := by
      simp only [isLow, Bool.and_eq_false_iff, decide_eq_false_iff_not]
      omega
    rw [wellFormed_plain s h1, h2, ih (fun d hd => h d (List.mem_cons_of_mem _ hd))]
    rfl

theorem hexDigit_small {n : Nat} (h : n < 16) :
    32 ≤ (hexDigit n).toNat ∧ (hexDigit n).toNat < 0xD800 := by
  interval_cases n <;> decide

theorem printable_unicodeEscape (c : UInt16) : Printable (unicodeEscape c) := by
  have hc := c.toNat_lt
  apply printable_of_small
  intro d hd
  simp only [unicodeEscape, List.mem_cons, List.not_mem_nil, or_false] at hd
  rcases hd with rfl | rfl | rfl | rfl | rfl | rfl
  · decide
  · decide
  · exact hexDigit_small (by omega)
  · exact hexDigit_small (by omega)
  · exact hexDigit_small (by omega)
  · exact hexDigit_small (by omega)

theorem printable_quoteUnit {c : UInt16} (hh : ¬isHigh c = true) (hl : ¬isLow c = true) :
    Printable (quoteUnit c) := by
  unfold quoteUnit
  split_ifs with h1 h2 h3 h4 h5 h6 h7 h8
  iterate 7 exact printable_of_small (forall_mem_of_all (by decide))
  · exact printable_unicodeEscape c
  · refine ⟨?_, ?_⟩
    · rw [wellFormed_plain [] hh]
      simp [hl, wellFormed]
    · intro d hd
      rw [List.mem_singleton.mp hd]
      omega

theorem printable_quoteBody (s : JsString) : Printable (quoteBody s) := by
  fun_induction quoteBody s with
  | case1 => exact Printable.nil
  | case2 c hc => exact printable_unicodeEscape c
  | case3 c hc d s hd ih =>
    refine ⟨?_, ?_⟩
    · rw [wellFormed_pair _ hc, hd, ih.1]
      rfl
    · have h1 : 32 ≤ c.toNat := by have := (surrogate_plain (Or.inl hc)).2.2; omega
      have h2 : 32 ≤ d.toNat := by have := (surrogate_plain (Or.inr hd)).2.2; omega
      intro e he
      rcases List.mem_cons.mp he with rfl | he
      · exact h1
      rcases List.mem_cons.mp he with rfl | he
      · exact h2
      · exact ih.2 e he
  | case4 c hc d s hd ih => exact (printable_unicodeEscape c).append ih
  | case5 c s hc hl ih => exact (printable_unicodeEscape c).append ih
  | case6 c s hc hl ih => exact (printable_quoteUnit hc hl).append ih

theorem printable_quote (s : JsString) : Printable (quote s) := by
  have h34 : Printable [34] := printable_of_small (forall_mem_of_all (by decide))
  exact h34.append ((printable_quoteBody s).append h34)

theorem isNumUnit_small {c : UInt16} (h : isNumUnit c = true) :
    32 ≤ c.toNat ∧ c.toNat < 0xD800 := by
  simp only [isNumUnit, isDigit, Bool.or_eq_true, Bool.and_eq_true, decide_eq_true_eq] at h
  rcases h with ((((h | rfl) | rfl) | rfl) | rfl) | rfl
  · omega
  all_goals decide

/-- The first character of a value's text is ASCII and no white space. -/
theorem stringify_head (v : Json ν) :
    ∃ c s, stringify v = c :: s ∧ 32 < c.toNat ∧ c.toNat < 128 := by
  have hnull : ∃ c s, js "null" = c :: s ∧ 32 < c.toNat ∧ c.toNat < 128 :=
    ⟨110, js "ull", by decide, by decide, by decide⟩
  rw [stringify]
  cases v with
  | null =>
    rw [Json.write]
    exact hnull
  | bool b =>
    cases b
    · exact ⟨102, js "alse", by rw [Json.write]; decide, by decide, by decide⟩
    · exact ⟨116, js "rue", by rw [Json.write]; decide, by decide, by decide⟩
  | num n =>
    rw [Json.write]
    split_ifs with hf
    · have ht := JsNumber.isNumberText_text n hf
      have hunit := numRun_isNumUnit _ _ ht
      cases htext : JsNumber.text n with
      | nil =>
        rw [htext] at ht
        cases ht
      | cons c s =>
        have hc : isNumUnit c = true := hunit c (htext ▸ List.mem_cons_self)
        refine ⟨c, s, rfl, ?_⟩
        simp only [isNumUnit, isDigit, Bool.or_eq_true, Bool.and_eq_true, decide_eq_true_eq] at hc
        rcases hc with ((((h | rfl) | rfl) | rfl) | rfl) | rfl
        · omega
        all_goals decide
    · exact hnull
  | str s => exact ⟨34, _, by rw [Json.write]; rfl, by decide, by decide⟩
  | arr xs =>
    cases xs with
    | nil => exact ⟨91, [93], by rw [Json.write]; decide, by decide, by decide⟩
    | cons x xs => exact ⟨91, _, by rw [Json.write]; rfl, by decide, by decide⟩
  | obj ms =>
    cases ms with
    | nil => exact ⟨123, [125], by rw [Json.write]; decide, by decide, by decide⟩
    | cons p ms =>
      obtain ⟨k, v⟩ := p
      exact ⟨123, _, by rw [Json.write]; rfl, by decide, by decide⟩

/-- `JSON.stringify` writes one line, and no lone surrogate. -/
theorem printable_stringify (v : Json ν) : Printable (v.write [] []) := by
  have hn (ind : JsString) : newline [] ind = [] := rfl
  have hg : ([] : JsString) ++ [] = [] := rfl
  have h44 : Printable [44] := printable_of_small (forall_mem_of_all (by decide))
  induction v using Json.ind with
  | null => rw [Json.write]; exact printable_of_small (forall_mem_of_all (by decide))
  | bool b => cases b <;> rw [Json.write] <;> exact printable_of_small (forall_mem_of_all (by decide))
  | num n =>
    rw [Json.write]
    split_ifs with hf
    · exact printable_of_small fun c hc =>
        isNumUnit_small (numRun_isNumUnit _ _ (JsNumber.isNumberText_text n hf) c hc)
    · exact printable_of_small (forall_mem_of_all (by decide))
  | str s => rw [Json.write]; exact printable_quote s
  | arr xs ih =>
    have key : Printable (writeElems [] [] xs) := by
      induction xs with
      | nil => exact Printable.nil
      | cons x xs ihxs =>
        rw [writeElems, hn, List.append_nil]
        exact (h44.append (ih x (by simp))).append
          (ihxs fun y hy => ih y (List.mem_cons_of_mem _ hy))
    cases xs with
    | nil => rw [Json.write]; exact printable_of_small (forall_mem_of_all (by decide))
    | cons x xs =>
      rw [writeElems, hn, List.append_nil, List.append_assoc] at key
      rw [Json.write, hn, hn, hg, List.append_nil, List.append_nil]
      have h2 : Printable (x.write [] [] ++ writeElems [] [] xs) :=
        ⟨by have h := key.1; rwa [wellFormed_append [44] _ h44.1] at h,
          fun c hc => key.2 c (List.mem_cons_of_mem _ hc)⟩
      rw [List.append_assoc [91]]
      exact ((printable_of_small (forall_mem_of_all (by decide))).append h2).append (printable_of_small (forall_mem_of_all (by decide)))
  | obj ms ih =>
    have hc : Printable (colon []) := printable_of_small (forall_mem_of_all (by decide))
    have key : Printable (writeMembers [] [] ms) := by
      induction ms with
      | nil => exact Printable.nil
      | cons p ms ihms =>
        obtain ⟨k, v⟩ := p
        rw [writeMembers, hn, List.append_nil]
        exact (((h44.append (printable_quote k)).append hc).append (ih (k, v) (by simp))).append
          (ihms fun y hy => ih y (List.mem_cons_of_mem _ hy))
    cases ms with
    | nil => rw [Json.write]; exact printable_of_small (forall_mem_of_all (by decide))
    | cons p ms =>
      obtain ⟨k, v⟩ := p
      rw [writeMembers, hn, List.append_nil] at key
      rw [Json.write, hn, hn, hg, List.append_nil, List.append_nil]
      have h2 : Printable (quote k ++ colon [] ++ v.write [] [] ++ writeMembers [] [] ms) :=
        ⟨by have h := key.1; simp only [List.append_assoc] at h ⊢
            rwa [wellFormed_append [44] _ h44.1] at h,
          fun c hc => key.2 c (by simp only [List.append_assoc] at hc ⊢; exact List.mem_cons_of_mem _ hc)⟩
      have e : [123] ++ quote k ++ colon [] ++ v.write [] [] ++ writeMembers [] [] ms ++ [125] =
          [123] ++ (quote k ++ colon [] ++ v.write [] [] ++ writeMembers [] [] ms) ++ [125] := by
        simp only [List.append_assoc]
      rw [e]
      exact ((printable_of_small (forall_mem_of_all (by decide))).append h2).append (printable_of_small (forall_mem_of_all (by decide)))

theorem wellFormed_spaces {s : JsString} (h : Spaces s) : wellFormed s = true := by
  induction s with
  | nil => rfl
  | cons c s ih =>
    have hc := h c (by simp)
    simp only [isJsonSpace, decide_eq_true_eq] at hc
    have hcs : ¬isHigh c = true ∧ isLow c = false := by
      rcases hc with rfl | rfl | rfl | rfl <;> decide
    rw [wellFormed_plain s hcs.1, hcs.2, ih fun d hd => h d (List.mem_cons_of_mem _ hd)]
    rfl

theorem wellFormed_join {s t : JsString} (hs : wellFormed s = true) (ht : wellFormed t = true) :
    wellFormed (s ++ t) = true := by
  rw [wellFormed_append s t hs, ht]

/-- The texts of which a value's text is put together, besides strings, numbers and line ends. -/
def marks : List JsString :=
  [[], js "null", js "true", js "false", js "[]", js "{}", [91], [93], [123], [125], [44]]

/-- What holds of the pieces of a value's text, and of two texts together, holds of the text. `I` is
what is known of an indentation. -/
theorem write_closed {P I : JsString → Prop} {gap : JsString} (hindent : ∀ ind, I ind → I (ind ++ gap))
    (happend : ∀ s t, P s → P t → P (s ++ t)) (hmarks : ∀ s ∈ marks, P s) (hcolon : P (colon gap))
    (hnewline : ∀ ind, I ind → P (newline gap ind)) (hquote : ∀ s, P (quote s))
    (hnumber : ∀ n : ν, JsNumber.isFinite n = true → P (JsNumber.text n)) (v : Json ν) :
    ∀ ind, I ind → P (v.write gap ind) := by
  have hmark : ∀ s, s ∈ marks → P s := hmarks
  induction v using Json.ind with
  | null =>
    intro ind _
    rw [Json.write]
    exact hmark _ (by decide)
  | bool b =>
    intro ind _
    rw [Json.write]
    cases b
    · exact hmark _ (by decide)
    · exact hmark _ (by decide)
  | num n =>
    intro ind _
    rw [Json.write]
    split_ifs with hf
    · exact hnumber n hf
    · exact hmark _ (by decide)
  | str s =>
    intro ind _
    rw [Json.write]
    exact hquote s
  | arr xs ih =>
    have key : ∀ ind, I ind → ∀ ys, (∀ y ∈ ys, y ∈ xs) → P (writeElems gap ind ys) := by
      intro ind hi ys
      induction ys with
      | nil => exact fun _ => hmark [] (by decide)
      | cons y ys ihys =>
        intro hsub
        have hy := ih y (hsub y List.mem_cons_self) ind hi
        have hys := ihys fun z hz => hsub z (List.mem_cons_of_mem _ hz)
        have hcomma := happend _ _ (hmark [44] (by decide)) (hnewline ind hi)
        exact happend _ _ (happend _ _ hcomma hy) hys
    intro ind hi
    cases xs with
    | nil =>
      rw [Json.write]
      exact hmark _ (by decide)
    | cons x xs =>
      have hig := hindent ind hi
      have hopen := happend _ _ (hmark [91] (by decide)) (hnewline _ hig)
      have hx := happend _ _ hopen (ih x List.mem_cons_self _ hig)
      have hxs := happend _ _ hx (key _ hig xs fun y hy => List.mem_cons_of_mem _ hy)
      rw [Json.write]
      exact happend _ _ (happend _ _ hxs (hnewline ind hi)) (hmark [93] (by decide))
  | obj ms ih =>
    have key : ∀ ind, I ind → ∀ ns, (∀ q ∈ ns, q ∈ ms) → P (writeMembers gap ind ns) := by
      intro ind hi ns
      induction ns with
      | nil => exact fun _ => hmark [] (by decide)
      | cons q ns ihns =>
        intro hsub
        have hq := ih q (hsub q List.mem_cons_self) ind hi
        have hns := ihns fun r hr => hsub r (List.mem_cons_of_mem _ hr)
        have hcomma := happend _ _ (hmark [44] (by decide)) (hnewline ind hi)
        have hname := happend _ _ (happend _ _ hcomma (hquote q.1)) hcolon
        exact happend _ _ (happend _ _ hname hq) hns
    intro ind hi
    cases ms with
    | nil =>
      rw [Json.write]
      exact hmark _ (by decide)
    | cons q ms =>
      obtain ⟨k, v⟩ := q
      have hig := hindent ind hi
      have hopen := happend _ _ (hmark [123] (by decide)) (hnewline _ hig)
      have hname := happend _ _ (happend _ _ hopen (hquote k)) hcolon
      have hv := happend _ _ hname (ih (k, v) List.mem_cons_self _ hig)
      have hms := happend _ _ hv (key _ hig ms fun r hr => List.mem_cons_of_mem _ hr)
      rw [Json.write]
      exact happend _ _ (happend _ _ hms (hnewline ind hi)) (hmark [125] (by decide))

/-- Indented text holds no lone surrogate either. -/
theorem wellFormed_write {gap : JsString} (hg : Spaces gap) (v : Json ν) :
    ∀ ind, Spaces ind → wellFormed (v.write gap ind) = true := by
  refine write_closed (P := fun s => wellFormed s = true) (fun ind hi => hi.append hg) ?_ ?_ ?_ ?_ ?_ ?_ v
  · exact fun s t => wellFormed_join
  · decide
  · unfold colon
    split_ifs <;> decide
  · exact fun ind hi => wellFormed_spaces (Spaces.newline gap hi)
  · exact fun s => (printable_quote s).1
  · exact fun n hf => (printable_of_small fun c hc =>
      isNumUnit_small (numRun_isNumUnit _ _ (JsNumber.isNumberText_text n hf) c hc)).1

theorem spaces_two : Spaces (js "  ") := by
  exact forall_mem_of_all (by decide)

/-- The indented text of a value is read back from its UTF-8. -/
theorem parseJson_stringify2 {v : Json ν} (hv : v.IsJson) :
    parseJson (utf8Decode (utf8Encode (stringify2 v ++ [10]))) = some v := by
  have hw : wellFormed (stringify2 v ++ [10]) = true :=
    wellFormed_join (wellFormed_write spaces_two v [] Spaces.nil) (by decide)
  rw [utf8Decode_encode_of_wellFormed _ hw]
  exact parseJson_write spaces_two (forall_mem_of_all (by decide)) hv

/-! ## What is read has its keys in order -/

omit [JsNumber ν] in
theorem Members.set_values {ms : Members ν} {k : JsString} {v : Json ν} {P : Json ν → Prop}
    (h : ∀ p ∈ ms, P p.2) (hv : P v) : ∀ p ∈ ms.set k v, P p.2 := by
  induction ms with
  | nil =>
    intro p hp
    rw [List.mem_singleton.mp hp]
    exact hv
  | cons q ms ih =>
    have hq := h q (by simp)
    have ih := ih fun p hp => h p (List.mem_cons_of_mem _ hp)
    unfold Members.set
    split_ifs
    · intro p hp
      rcases List.mem_cons.mp hp with rfl | hp
      · exact hv
      · exact h p (List.mem_cons_of_mem _ hp)
    · intro p hp
      rcases List.mem_cons.mp hp with rfl | hp
      · exact hv
      · exact h p hp
    · intro p hp
      rcases List.mem_cons.mp hp with rfl | hp
      · exact hq
      · exact ih p hp

omit [JsNumber ν] in
theorem Members.create_values {ps : Members ν} {P : Json ν → Prop} (h : ∀ p ∈ ps, P p.2) :
    ∀ p ∈ Members.create ps, P p.2 := by
  induction ps using List.reverseRecOn with
  | nil => exact h
  | append_singleton ps p ih =>
    rw [Members.create_append]
    exact Members.set_values (ih fun q hq => h q (by simp [hq])) (h p (by simp))

theorem Json.IsJson.set {ms : Members ν} (h : (Json.obj ms).IsJson) {v : Json ν} (hv : v.IsJson)
    (k : JsString) : (Json.obj (ms.set k v)).IsJson := by
  obtain ⟨ho, hm⟩ := h
  rw [membersIsJson_iff] at hm
  rw [Json.IsJson, membersIsJson_iff]
  exact ⟨ho.set k v, Members.set_values hm hv⟩

theorem Json.IsJson.setAll {ms ps : Members ν} (h : (Json.obj ms).IsJson)
    (hp : ∀ p ∈ ps, p.2.IsJson) : (Json.obj (ms.setAll ps)).IsJson := by
  induction ps generalizing ms with
  | nil => exact h
  | cons p ps ih =>
    exact ih (h.set (hp p (by simp)) p.1) fun q hq => hp q (List.mem_cons_of_mem _ hq)

omit [JsNumber ν] in
theorem Json.Ordered.set {ms : Members ν} (h : (Json.obj ms).Ordered) {v : Json ν} (hv : v.Ordered)
    (k : JsString) : (Json.obj (ms.set k v)).Ordered := by
  refine ⟨h.1.set k v, (membersOrdered_iff _).2 ?_⟩
  exact Members.set_values ((membersOrdered_iff ms).1 h.2) hv

omit [JsNumber ν] in
theorem Json.Ordered.get {e v : Json ν} {k : JsString} (h : e.Ordered) (hv : e.get? k = some v) :
    v.Ordered := by
  cases e with
  | obj ms => exact (membersOrdered_iff ms).1 h.2 (k, v) (Members.mem_lookup hv)
  | _ => cases hv

omit [JsNumber ν] in
theorem Json.Ordered.create {ps : Members ν} (h : ∀ p ∈ ps, p.2.Ordered) :
    (Json.obj (Members.create ps)).Ordered :=
  ⟨OrderedKeys.create ps, (membersOrdered_iff _).2 (Members.create_values h)⟩

omit [JsNumber ν] in
theorem Json.Ordered.setAll {ms ps : Members ν} (h : (Json.obj ms).Ordered)
    (hp : ∀ p ∈ ps, p.2.Ordered) : (Json.obj (ms.setAll ps)).Ordered := by
  induction ps generalizing ms with
  | nil => exact h
  | cons p ps ih =>
    exact ih (Json.Ordered.set h (hp p (by simp)) p.1) fun q hq => hp q (List.mem_cons_of_mem _ hq)

theorem parseNumber_ordered {s r : JsString} {v : Json ν} (h : parseNumber s = some (v, r)) :
    v.Ordered := by
  unfold parseNumber at h
  simp only at h
  split_ifs at h
  obtain ⟨rfl, -⟩ := Prod.mk.inj (Option.some.inj h)
  trivial

omit [JsNumber ν] in
theorem parseWord_eq {w s r : JsString} {v u : Json ν} (h : parseWord w v s = some (u, r)) :
    u = v := by
  unfold parseWord at h
  split_ifs at h
  exact (Prod.mk.inj (Option.some.inj h)).1.symm

private theorem parse_ordered (n : Nat) :
    (∀ s r (v : Json ν), parseValue n s = some (v, r) → v.Ordered) ∧
    (∀ s r (xs : List (Json ν)), parseElems n s = some (xs, r) → ∀ x ∈ xs, x.Ordered) ∧
    (∀ s r (ms : Members ν), parseMembers n s = some (ms, r) → ∀ p ∈ ms, p.2.Ordered) := by
  induction n with
  | zero =>
    refine ⟨?_, ?_, ?_⟩
    · intro s r v h
      cases h
    · intro s r xs h
      cases h
    · intro s r ms h
      cases h
  | succ n ih =>
    obtain ⟨ihv, ihe, ihm⟩ := ih
    refine ⟨?_, ?_, ?_⟩
    · intro s r v h
      rw [parseValue] at h
      split at h
      · cases h
      rename_i c t _
      split_ifs at h with h1 h2 h3 h4 h5 h6
      · obtain ⟨p, -, hp⟩ := Option.map_eq_some_iff.mp h
        obtain ⟨rfl, -⟩ := Prod.mk.inj hp
        trivial
      · split at h
        · cases h
        split_ifs at h
        · obtain ⟨rfl, -⟩ := Prod.mk.inj (Option.some.inj h)
          trivial
        · obtain ⟨p, hp, e⟩ := Option.map_eq_some_iff.mp h
          obtain ⟨rfl, -⟩ := Prod.mk.inj e
          exact (elemsOrdered_iff _).mpr (ihe _ _ _ hp)
      · split at h
        · cases h
        split_ifs at h
        · obtain ⟨rfl, -⟩ := Prod.mk.inj (Option.some.inj h)
          simp [Json.Ordered, OrderedKeys, Members.keys, membersOrdered]
        · obtain ⟨p, hp, e⟩ := Option.map_eq_some_iff.mp h
          obtain ⟨rfl, -⟩ := Prod.mk.inj e
          exact ⟨OrderedKeys.create _,
            (membersOrdered_iff _).mpr (Members.create_values (ihm _ _ _ hp))⟩
      · rw [parseWord_eq h]
        trivial
      · rw [parseWord_eq h]
        trivial
      · rw [parseWord_eq h]
        trivial
      · exact parseNumber_ordered h
    · intro s r xs h
      rw [parseElems] at h
      split at h
      · cases h
      rename_i v t hv
      have hv := ihv _ _ _ hv
      split at h
      · cases h
      split_ifs at h
      · obtain ⟨p, hp, e⟩ := Option.map_eq_some_iff.mp h
        obtain ⟨rfl, -⟩ := Prod.mk.inj e
        intro x hx
        rcases List.mem_cons.mp hx with rfl | hx
        · exact hv
        · exact ihe _ _ _ hp x hx
      · obtain ⟨rfl, -⟩ := Prod.mk.inj (Option.some.inj h)
        intro x hx
        rw [List.mem_singleton.mp hx]
        exact hv
    · intro s r ms h
      rw [parseMembers] at h
      split at h
      · cases h
      split_ifs at h
      split at h
      · cases h
      split at h
      · cases h
      split_ifs at h
      split at h
      · cases h
      rename_i hv
      have hv := ihv _ _ _ hv
      split at h
      · cases h
      split_ifs at h
      · obtain ⟨p, hp, e⟩ := Option.map_eq_some_iff.mp h
        obtain ⟨rfl, -⟩ := Prod.mk.inj e
        intro x hx
        rcases List.mem_cons.mp hx with rfl | hx
        · exact hv
        · exact ihm _ _ _ hp x hx
      · obtain ⟨rfl, -⟩ := Prod.mk.inj (Option.some.inj h)
        intro x hx
        rw [List.mem_singleton.mp hx]
        exact hv

theorem parseJson_ordered {s : JsString} {v : Json ν} (h : parseJson s = some v) : v.Ordered := by
  unfold parseJson at h
  split at h
  · cases h
  rename_i w r hw
  split_ifs at h
  rw [← Option.some.inj h]
  exact (parse_ordered _).1 _ _ _ hw

end Adlc.Framework
