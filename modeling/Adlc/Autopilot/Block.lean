import Adlc.TicketSync.BlockRoundTrip

namespace Adlc.Autopilot

open Framework Tickets

open TicketSync (ParsedBlock failBlock countErrors beginSentinel endSentinel matchAll lineOf
  normalizeNewlines firstAtWord versionAttr keyAttr fenced categories)

variable {ν : Type} [JsNumber ν]

/-! The grammar of the block, as it is restated for the autopilot. -/

def supportedBlockVersion : Nat := 1

def isString : Json ν → Bool
  | .str _ => true
  | _ => false

def isStringArray : Json ν → Bool
  | .arr xs => xs.all isString
  | _ => false

/-- What is wrong with the edge at a place. -/
def edgeErrors (i : Nat) : Json ν → List JsString
  | .obj e =>
    let at_ := js "edges[" ++ natText i ++ js "]."
    (match e.lookup (js "to") with
    | some (.str _) => []
    | some _ => [at_ ++ js "to: expected string"]
    | none => [at_ ++ js "to: required"]) ++
    (match e.lookup (js "contract") with
    | none => []
    | some contract => if isString contract then [] else [at_ ++ js "contract: expected string"]) ++
    ((Members.keys e).filter fun k => k ≠ js "to" ∧ k ≠ js "contract").map fun k =>
      at_ ++ k ++ js ": unknown key"
  | _ => [js "edges[" ++ natText i ++ js "]: expected object"]

/-- `typeof v === 'number' && Number.isFinite(v) && v > 0` -/
def isHint : Json ν → Bool
  | .num n => JsNumber.isFinite n && JsNumber.lt (JsNumber.ofNat 0) n
  | _ => false

def isCategory : Json ν → Bool
  | .str s => decide (s ∈ categories)
  | _ => false

/-- The error of a field that is present and fails its check. -/
def checkField (fields : Members ν) (name : JsString) (check : Json ν → Bool) (message : JsString) :
    List JsString :=
  match fields.lookup name with
  | none => []
  | some v => if check v then [] else [name ++ js ": " ++ message]

def validateBlockFields (fields : Members ν) : List JsString :=
  checkField fields (js "$schema") isString (js "expected string") ++
  checkField fields (js "scope") isStringArray (js "expected array of strings") ++
  checkField fields (js "rails") isStringArray (js "expected array of strings") ++
  (match fields.lookup (js "edges") with
  | none => []
  | some (.arr edges) => edges.zipIdx.flatMap fun p => edgeErrors p.2 p.1
  | some _ => [js "edges: expected array"]) ++
  checkField fields (js "duration") isHint (js "must be > 0") ++
  checkField fields (js "budget") isHint (js "must be > 0") ++
  checkField fields (js "category") isCategory (js "must be one of " ++ joinComma categories)

/-- The version and the key of a begin sentinel; an older version is refused too. -/
def blockAttrs (attrs : JsString) (line : Nat) : Except (List JsString) (Nat × Option JsString) :=
  match firstAtWord versionAttr false attrs with
  | none => .error [js "'adlc:begin' (line " ++ natText line ++
      js ") is missing the required v=<n> version"]
  | some digits =>
    let version := readNat digits
    if version < supportedBlockVersion then
      .error [js "block version v=" ++ natText version ++ js " (line " ++ natText line ++
        js ") is not supported (only v=" ++ natText supportedBlockVersion ++ js ")"]
    else if supportedBlockVersion < version then
      .error [js "block version v=" ++ natText version ++ js " (line " ++ natText line ++
        js ") is newer than supported (max " ++ natText supportedBlockVersion ++ js ")"]
    else .ok (version, firstAtWord keyAttr false attrs)

def blockFields (syntaxError : JsString → JsString) (inner : JsString) (line : Nat) :
    Except (List JsString) (Members ν) :=
  let jsonText := trim ((fenced inner).getD inner)
  if jsonText = [] then
    .error [js "no JSON found between the adlc sentinels (line " ++ natText line ++ js ")"]
  else
    match parseJson jsonText with
    | none => .error [js "invalid JSON in the adlc block (line " ++ natText line ++ js "): " ++
        syntaxError jsonText]
    | some (.obj fields) =>
      match validateBlockFields fields with
      | [] => .ok fields
      | fieldErrors => .error (fieldErrors.map (js "block field " ++ ·))
    | some _ => .error [js "the adlc block must be a JSON object (line " ++ natText line ++ js ")"]

def parseBlock (syntaxError : JsString → JsString) (rawBody : JsString) : ParsedBlock ν :=
  let body := normalizeNewlines rawBody
  match matchAll beginSentinel body, matchAll endSentinel body with
  | [], [] => ⟨true, none, body, [], none, none, []⟩
  | [begins], [ends] =>
    if ends.index < begins.index then
      failBlock body [js "'adlc:end' (line " ++ natText (lineOf body ends.index) ++
        js ") appears before 'adlc:begin' (line " ++ natText (lineOf body begins.index) ++ js ")"]
    else
      match blockAttrs begins.groups (lineOf body begins.index) with
      | .error errors => failBlock body errors
      | .ok (version, key) =>
        let inner := (body.take ends.index).drop begins.stop
        match blockFields syntaxError inner (lineOf body begins.stop) with
        | .error errors => failBlock body errors
        | .ok fields => ⟨true, some fields, body.take begins.index, body.drop ends.stop, some version,
            key, []⟩
  | begins, ends =>
    failBlock body (countErrors (js "adlc:begin") body begins ++ countErrors (js "adlc:end") body ends)

def serializeBlock (prefixText suffixText : JsString) (fields : Json ν) (version : Nat)
    (key : Option JsString) : JsString :=
  let attrs := js "v=" ++ natText version ++ (key.filter (· ≠ [])).elim [] fun key => js " key=" ++ key
  prefixText ++ js "<!-- adlc:begin " ++ attrs ++ js " -->\n```json\n" ++ stringify2 fields ++
    js "\n```\n<!-- adlc:end -->" ++ suffixText

/-! ## Fields of the right shape -/

/-- The edge has a target, and nothing that an edge does not declare. -/
structure ShapedEdge (e : Members ν) : Prop where
  target : ∃ s, e.lookup (js "to") = some (.str s)
  contract : ∀ v ∈ e.lookup (js "contract"), isString v = true
  hint : ∀ v ∈ e.lookup (js "type"), isString v = true
  declared : ∀ k ∈ Members.keys e, k = js "to" ∨ k = js "contract" ∨ k = js "type"

structure ShapedFields (fields : Members ν) : Prop where
  schema : ∀ v ∈ fields.lookup (js "$schema"), isString v = true
  scope : ∀ v ∈ fields.lookup (js "scope"), isStringArray v = true
  rails : ∀ v ∈ fields.lookup (js "rails"), isStringArray v = true
  edges : ∀ v ∈ fields.lookup (js "edges"), ∃ es, v = .arr es ∧ ∀ x ∈ es, ∃ e, x = .obj e ∧ ShapedEdge e
  duration : ∀ v ∈ fields.lookup (js "duration"), ∃ n, v = .num n ∧ JsNumber.lt (JsNumber.ofNat 0) n = true
  budget : ∀ v ∈ fields.lookup (js "budget"), ∃ n, v = .num n ∧ JsNumber.lt (JsNumber.ofNat 0) n = true
  category : ∀ v ∈ fields.lookup (js "category"), isCategory v = true

/-- No edge says its type, and no number is too large to be finite. -/
structure Portable (fields : Members ν) : Prop where
  edges : ∀ es, fields.lookup (js "edges") = some (.arr es) → ∀ e, .obj e ∈ es → js "type" ∉ Members.keys e
  duration : ∀ n, fields.lookup (js "duration") = some (.num n) → JsNumber.isFinite n = true
  budget : ∀ n, fields.lookup (js "budget") = some (.num n) → JsNumber.isFinite n = true

/-- The body has one block, of this version, whose text is that of the fields. -/
def Carries (rawBody : JsString) (version : Nat) (fields : Members ν) : Prop :=
  let body := normalizeNewlines rawBody
  ∃ begins ends digits, matchAll beginSentinel body = [begins] ∧ matchAll endSentinel body = [ends] ∧
    begins.index ≤ ends.index ∧ firstAtWord versionAttr false begins.groups = some digits ∧
    readNat digits = version ∧
    parseJson (trim ((fenced ((body.take ends.index).drop begins.stop)).getD
      ((body.take ends.index).drop begins.stop))) = some (.obj fields)

/-- The body has one block, and the block names a version below the supported one. -/
def BelowSupported (rawBody : JsString) : Prop :=
  let body := normalizeNewlines rawBody
  ∃ begins ends digits, matchAll beginSentinel body = [begins] ∧ matchAll endSentinel body = [ends] ∧
    begins.index ≤ ends.index ∧ firstAtWord versionAttr false begins.groups = some digits ∧
    readNat digits < supportedBlockVersion

/-- Both accept, with the same results, or neither does. -/
structure Agree (p q : ParsedBlock ν) : Prop where
  ok : p.ok = q.ok
  same : p.ok = true → p.fields = q.fields ∧ p.prefixText = q.prefixText ∧ p.suffixText = q.suffixText ∧
    p.version = q.version ∧ p.key = q.key

/-! ## The two validators -/

omit [JsNumber ν] in
theorem checkField_nil_iff (fields : Members ν) (name : JsString) (check : Json ν → Bool)
    (message : JsString) :
    checkField fields name check message = [] ↔ ∀ v ∈ fields.lookup name, check v = true := by
  unfold checkField
  cases fields.lookup name with
  | none => simp
  | some v => simp

omit [JsNumber ν] in
theorem isString_iff (v : Json ν) : isString v = true ↔ ∃ s, v = .str s := by
  cases v <;> simp [isString]

omit [JsNumber ν] in
theorem isStringArray_iff (v : Json ν) :
    isStringArray v = true ↔ ∃ xs, v = .arr xs ∧ ∀ x ∈ xs, isString x = true := by
  cases v <;> simp [isStringArray]

theorem isHint_iff (v : Json ν) :
    isHint v = true ↔
      ∃ n, v = .num n ∧ JsNumber.lt (JsNumber.ofNat 0) n = true ∧ JsNumber.isFinite n = true := by
  cases v <;> simp [isHint, and_comm]

omit [JsNumber ν] in
theorem isCategory_iff (v : Json ν) : isCategory v = true ↔ ∃ s, v = .str s ∧ s ∈ categories := by
  cases v <;> simp [isCategory]

omit [JsNumber ν] in
theorem edgeErrors_nil_iff (i : Nat) (v : Json ν) :
    edgeErrors i v = [] ↔ ∃ e, v = .obj e ∧ ShapedEdge e ∧ js "type" ∉ Members.keys e := by
  cases v with
  | obj e =>
    have hto : (match e.lookup (js "to") with
        | some (.str _) => []
        | some _ => [js "edges[" ++ natText i ++ js "]." ++ js "to: expected string"]
        | none => [js "edges[" ++ natText i ++ js "]." ++ js "to: required"]) = [] ↔
        ∃ s, e.lookup (js "to") = some (.str s) := by
      cases e.lookup (js "to") with
      | none => simp
      | some x => cases x <;> simp
    have hcontract : (match e.lookup (js "contract") with
        | none => []
        | some contract =>
          if isString contract then []
          else [js "edges[" ++ natText i ++ js "]." ++ js "contract: expected string"]) = [] ↔
        ∀ x ∈ e.lookup (js "contract"), isString x = true := by
      cases e.lookup (js "contract") <;> simp
    have hkeys : ((Members.keys e).filter fun k => k ≠ js "to" ∧ k ≠ js "contract") = [] ↔
        ∀ k ∈ Members.keys e, k = js "to" ∨ k = js "contract" := by
      simp only [List.filter_eq_nil_iff, decide_eq_true_eq, not_and_or, not_not]
    simp only [edgeErrors, List.append_eq_nil_iff, hto, hcontract, List.map_eq_nil_iff, hkeys,
      Json.obj.injEq, exists_eq_left']
    constructor
    · rintro ⟨⟨htarget, hcontract⟩, hdeclared⟩
      have htype : js "type" ∉ Members.keys e := by
        intro hmem
        obtain h | h := hdeclared _ hmem <;> exact absurd h (by decide)
      refine ⟨⟨htarget, hcontract, ?_, ?_⟩, htype⟩
      · intro v hv
        exact absurd (List.mem_map_of_mem (Members.mem_lookup hv)) htype
      · intro k hk
        obtain h | h := hdeclared k hk
        · exact .inl h
        · exact .inr (.inl h)
    · rintro ⟨h, htype⟩
      refine ⟨⟨h.target, h.contract⟩, fun k hk => ?_⟩
      obtain rfl | rfl | rfl := h.declared k hk
      · exact .inl rfl
      · exact .inr rfl
      · exact absurd hk htype
  | _ => simp [edgeErrors]

theorem admits_str_iff (v : Json ν) : TicketSync.Admits TicketSync.str v ↔ isString v = true := by
  simp [TicketSync.Admits, TicketSync.str, isString_iff]

theorem admits_strings_iff (v : Json ν) :
    TicketSync.Admits (.array TicketSync.str) v ↔ isStringArray v = true := by
  simp only [TicketSync.Admits, admits_str_iff, isStringArray_iff]

/-- An edge is admitted by the definition exactly when it has the shape. -/
theorem admits_edge_iff (v : Json ν) :
    TicketSync.Admits TicketSync.edge v ↔ ∃ e, v = .obj e ∧ ShapedEdge e := by
  simp only [TicketSync.edge, TicketSync.Admits, TicketSync.AdmitsFields, admits_str_iff]
  refine exists_congr fun e => and_congr_right fun _ => ⟨?_, ?_⟩
  · rintro ⟨⟨hto, htarget, -, hcontract, -, htype, -⟩, hdeclared⟩
    obtain ⟨x, hx⟩ := Option.ne_none_iff_exists'.mp (hto trivial)
    obtain ⟨s, rfl⟩ := (isString_iff x).mp (htarget x hx)
    refine ⟨⟨s, hx⟩, hcontract, htype, fun k hk => ?_⟩
    have h := hdeclared trivial k hk
    simpa [TicketSync.Fields.names] using h
  · rintro ⟨⟨s, hs⟩, hcontract, htype, hdeclared⟩
    have hstring : ∀ x ∈ e.lookup (js "to"), isString x = true := by
      intro x hx
      rw [hs] at hx
      rw [← Option.some.inj hx]
      rfl
    have hto : e.lookup (js "to") ≠ none := by
      rw [hs]
      exact Option.some_ne_none _
    have hnames : ∀ k ∈ Members.keys e, k ∈ (TicketSync.Fields.cons (js "to") true TicketSync.str
        (.cons (js "contract") false TicketSync.str (.cons (js "type") false TicketSync.str .nil))).names := by
      intro k hk
      simpa [TicketSync.Fields.names] using hdeclared k hk
    exact ⟨⟨fun _ => hto, hstring, fun h => absurd h Bool.false_ne_true, hcontract,
      fun h => absurd h Bool.false_ne_true, htype, trivial⟩, fun _ => hnames⟩

/-- The definition of the block admits exactly the fields of the right shape. -/
theorem validateBlock_nil_iff (fields : Members ν) :
    TicketSync.validateBlock (.obj fields) = [] ↔ ShapedFields fields := by
  have hnumber : ∀ v : Json ν, TicketSync.Admits (.number (some 0)) v ↔
      ∃ n, v = .num n ∧ JsNumber.lt (JsNumber.ofNat 0) n = true := by
    intro v
    simp [TicketSync.Admits]
  have hcategory : ∀ v : Json ν, TicketSync.Admits (.string 0 (some categories)) v ↔
      isCategory v = true := by
    intro v
    simp [TicketSync.Admits, isCategory_iff]
  have hedges : ∀ v : Json ν, TicketSync.Admits (.array TicketSync.edge) v ↔
      ∃ es, v = .arr es ∧ ∀ x ∈ es, ∃ e, x = .obj e ∧ ShapedEdge e := by
    intro v
    simp only [TicketSync.Admits, admits_edge_iff]
  have hfields : TicketSync.Admits (.object TicketSync.blockDef true) (.obj fields) ↔
      TicketSync.AdmitsFields TicketSync.blockDef fields := by
    simp [TicketSync.Admits]
  rw [TicketSync.validateBlock, TicketSync.validate, TicketSync.validateField_nil_iff, hfields]
  simp only [TicketSync.blockDef, TicketSync.executionFields, TicketSync.AdmitsFields, admits_str_iff,
    admits_strings_iff, hnumber, hcategory, hedges]
  constructor
  · rintro ⟨-, hschema, -, hscope, -, hrails, -, hedges, -, hduration, -, hcategory, -, hbudget, -⟩
    exact ⟨hschema, hscope, hrails, hedges, hduration, hbudget, hcategory⟩
  · intro h
    have hoptional : false = true → ∀ name : JsString, fields.lookup name ≠ none :=
      fun e => absurd e Bool.false_ne_true
    exact ⟨fun e => hoptional e _, h.schema, fun e => hoptional e _, h.scope, fun e => hoptional e _, h.rails,
      fun e => hoptional e _, h.edges, fun e => hoptional e _, h.duration, fun e => hoptional e _, h.category,
      fun e => hoptional e _, h.budget, trivial⟩

/-- The other validator asks for the same shape, and for more. -/
theorem validateBlockFields_nil_iff (fields : Members ν) :
    validateBlockFields fields = [] ↔ ShapedFields fields ∧ Portable fields := by
  have hedges : (match fields.lookup (js "edges") with
      | none => []
      | some (.arr edges) => edges.zipIdx.flatMap fun p => edgeErrors p.2 p.1
      | some _ => [js "edges: expected array"]) = [] ↔
      ∀ v ∈ fields.lookup (js "edges"), ∃ es, v = .arr es ∧
        ∀ x ∈ es, ∃ e, x = .obj e ∧ ShapedEdge e ∧ js "type" ∉ Members.keys e := by
    cases fields.lookup (js "edges") with
    | none => simp
    | some v =>
      cases v with
      | arr es =>
        simp only [List.flatMap_eq_nil_iff, edgeErrors_nil_iff, Option.mem_some_iff, forall_eq',
          Json.arr.injEq, exists_eq_left']
        exact TicketSync.forall_mem_zipIdx (P := fun x => ∃ e, x = .obj e ∧ ShapedEdge e ∧
          js "type" ∉ Members.keys e) es
      | _ => simp
  simp only [validateBlockFields, List.append_eq_nil_iff, checkField_nil_iff, hedges, isHint_iff]
  constructor
  · rintro ⟨⟨⟨⟨⟨⟨hschema, hscope⟩, hrails⟩, hedges⟩, hduration⟩, hbudget⟩, hcategory⟩
    refine ⟨⟨hschema, hscope, hrails, ?_, ?_, ?_, hcategory⟩, ?_, ?_, ?_⟩
    · intro v hv
      obtain ⟨es, rfl, hes⟩ := hedges v hv
      refine ⟨es, rfl, fun x hx => ?_⟩
      obtain ⟨e, rfl, he, -⟩ := hes x hx
      exact ⟨e, rfl, he⟩
    · intro v hv
      obtain ⟨n, rfl, hpos, -⟩ := hduration v hv
      exact ⟨n, rfl, hpos⟩
    · intro v hv
      obtain ⟨n, rfl, hpos, -⟩ := hbudget v hv
      exact ⟨n, rfl, hpos⟩
    · intro es hes e he
      obtain ⟨es', e', hall⟩ := hedges (.arr es) hes
      rw [← Json.arr.inj e'] at hall
      obtain ⟨e'', heq, -, htype⟩ := hall (.obj e) he
      rwa [← Json.obj.inj heq] at htype
    · intro n hn
      obtain ⟨n', heq, -, hfinite⟩ := hduration (.num n) hn
      rwa [← Json.num.inj heq] at hfinite
    · intro n hn
      obtain ⟨n', heq, -, hfinite⟩ := hbudget (.num n) hn
      rwa [← Json.num.inj heq] at hfinite
  · rintro ⟨h, hportable⟩
    refine ⟨⟨⟨⟨⟨⟨h.schema, h.scope⟩, h.rails⟩, ?_⟩, ?_⟩, ?_⟩, h.category⟩
    · intro v hv
      obtain ⟨es, rfl, hes⟩ := h.edges v hv
      refine ⟨es, rfl, fun x hx => ?_⟩
      obtain ⟨e, rfl, he⟩ := hes x hx
      exact ⟨e, rfl, he, hportable.edges es hv e hx⟩
    · intro v hv
      obtain ⟨n, rfl, hpos⟩ := h.duration v hv
      exact ⟨n, rfl, hpos, hportable.duration n hv⟩
    · intro v hv
      obtain ⟨n, rfl, hpos⟩ := h.budget v hv
      exact ⟨n, rfl, hpos, hportable.budget n hv⟩

/-! ## The two parsers -/

theorem parseJson_nil : (parseJson [] : Option (Json ν)) = none := by
  rfl

theorem blockFields_ok_iff (syntaxError : JsString → JsString) (inner : JsString) (line : Nat)
    (fields : Members ν) :
    blockFields syntaxError inner line = .ok fields ↔
      parseJson (trim ((fenced inner).getD inner)) = some (.obj fields) ∧ validateBlockFields fields = [] := by
  unfold blockFields
  dsimp only
  by_cases hempty : trim ((fenced inner).getD inner) = []
  · rw [if_pos hempty, hempty, parseJson_nil]
    simp
  · rw [if_neg hempty]
    cases (parseJson (trim ((fenced inner).getD inner)) : Option (Json ν)) with
    | none => simp
    | some v =>
      cases v with
      | obj ms =>
        dsimp only
        cases hvalid : validateBlockFields ms with
        | nil =>
          simp only [Except.ok.injEq, Option.some.injEq, Json.obj.injEq]
          exact ⟨fun h => ⟨h, h ▸ hvalid⟩, fun h => h.1⟩
        | cons e es =>
          simp only [reduceCtorEq, Option.some.injEq, Json.obj.injEq, false_iff, not_and]
          rintro rfl h
          rw [hvalid] at h
          cases h
      | _ => simp

theorem syncFields_ok_iff (syntaxError : JsString → JsString) (inner : JsString) (line : Nat)
    (fields : Members ν) :
    TicketSync.blockFields syntaxError inner line = .ok fields ↔
      parseJson (trim ((fenced inner).getD inner)) = some (.obj fields) ∧
        TicketSync.validateBlock (.obj fields) = [] := by
  unfold TicketSync.blockFields
  dsimp only
  by_cases hempty : trim ((fenced inner).getD inner) = []
  · rw [if_pos hempty, hempty, parseJson_nil]
    simp
  · rw [if_neg hempty]
    cases (parseJson (trim ((fenced inner).getD inner)) : Option (Json ν)) with
    | none => simp
    | some v =>
      cases v with
      | obj ms =>
        dsimp only
        cases hvalid : TicketSync.validateBlock (.obj ms) with
        | nil =>
          simp only [Except.ok.injEq, Option.some.injEq, Json.obj.injEq]
          exact ⟨fun h => ⟨h, h ▸ hvalid⟩, fun h => h.1⟩
        | cons e es =>
          simp only [reduceCtorEq, Option.some.injEq, Json.obj.injEq, false_iff, not_and]
          rintro rfl h
          rw [hvalid] at h
          cases h
      | _ => simp

omit [JsNumber ν] in
theorem agree_fail (body : JsString) (errors errors' : List JsString) :
    Agree (failBlock body errors : ParsedBlock ν) (failBlock body errors') :=
  ⟨rfl, fun h => absurd h Bool.false_ne_true⟩

/-- Without one sentinel of each kind, in order, the bodies are treated alike. -/
theorem agree_of_not_single (syntaxError : JsString → JsString) (rawBody : JsString)
    (h : ¬∃ begins ends, matchAll beginSentinel (normalizeNewlines rawBody) = [begins] ∧
      matchAll endSentinel (normalizeNewlines rawBody) = [ends] ∧ begins.index ≤ ends.index) :
    Agree (parseBlock syntaxError rawBody : ParsedBlock ν) (TicketSync.parseBlock syntaxError rawBody) := by
  have hsame : (parseBlock syntaxError rawBody : ParsedBlock ν) = TicketSync.parseBlock syntaxError rawBody := by
    unfold parseBlock TicketSync.parseBlock
    dsimp only
    rcases hb : matchAll beginSentinel (normalizeNewlines rawBody) with _ | ⟨b, _ | ⟨b', bs⟩⟩ <;>
      rcases he : matchAll endSentinel (normalizeNewlines rawBody) with _ | ⟨e, _ | ⟨e', es⟩⟩
    case cons.nil.cons.nil =>
      have horder : e.index < b.index := not_le.mp fun hle => h ⟨b, e, hb, he, hle⟩
      dsimp only
      rw [if_pos horder, if_pos horder]
    all_goals rfl
  rw [hsame]
  exact ⟨rfl, fun _ => ⟨rfl, rfl, rfl, rfl, rfl⟩⟩

/-- The text between the sentinels. -/
def innerText (rawBody : JsString) (begins : Match JsString) (ends : Match Unit) : JsString :=
  ((normalizeNewlines rawBody).take ends.index).drop begins.stop

/-- What the parsers make of the fields of a block of the supported version. -/
def accepted (rawBody : JsString) (begins : Match JsString) (ends : Match Unit) :
    Except (List JsString) (Members ν) → ParsedBlock ν
  | .error errors => failBlock (normalizeNewlines rawBody) errors
  | .ok fields => ⟨true, some fields, (normalizeNewlines rawBody).take begins.index,
      (normalizeNewlines rawBody).drop ends.stop, some supportedBlockVersion,
      firstAtWord keyAttr false begins.groups, []⟩

section Single

variable {rawBody : JsString} {begins : Match JsString} {ends : Match Unit}

/-- At a block of the supported version, all that is left to each parser are the fields. -/
theorem parse_supported (syntaxError : JsString → JsString) {digits : JsString}
    (hb : matchAll beginSentinel (normalizeNewlines rawBody) = [begins])
    (he : matchAll endSentinel (normalizeNewlines rawBody) = [ends]) (hle : begins.index ≤ ends.index)
    (hv : firstAtWord versionAttr false begins.groups = some digits)
    (hversion : readNat digits = supportedBlockVersion) :
    (parseBlock syntaxError rawBody : ParsedBlock ν) =
        accepted rawBody begins ends (blockFields syntaxError (innerText rawBody begins ends)
          (lineOf (normalizeNewlines rawBody) begins.stop)) ∧
      (TicketSync.parseBlock syntaxError rawBody : ParsedBlock ν) =
        accepted rawBody begins ends (TicketSync.blockFields syntaxError (innerText rawBody begins ends)
          (lineOf (normalizeNewlines rawBody) begins.stop)) := by
  have horder : ¬ends.index < begins.index := not_lt.mpr hle
  have hattrs : ∀ line, blockAttrs begins.groups line =
      .ok (supportedBlockVersion, firstAtWord keyAttr false begins.groups) := by
    intro line
    rw [blockAttrs, hv]
    dsimp only
    rw [hversion, if_neg (lt_irrefl _), if_neg (lt_irrefl _)]
  have hsyncAttrs : ∀ line, TicketSync.blockAttrs begins.groups line =
      .ok (supportedBlockVersion, firstAtWord keyAttr false begins.groups) := by
    intro line
    rw [TicketSync.blockAttrs, hv]
    dsimp only
    rw [hversion, if_neg (by decide)]
  constructor
  · unfold parseBlock
    simp only [hb, he, if_neg horder, hattrs]
    rfl
  · unfold TicketSync.parseBlock
    simp only [hb, he, if_neg horder, hsyncAttrs]
    rfl

/-- A version that is missing or newer is refused by both. -/
theorem parse_unsupported (syntaxError : JsString → JsString)
    (hb : matchAll beginSentinel (normalizeNewlines rawBody) = [begins])
    (he : matchAll endSentinel (normalizeNewlines rawBody) = [ends]) (hle : begins.index ≤ ends.index)
    (hv : ∀ digits ∈ firstAtWord versionAttr false begins.groups, supportedBlockVersion < readNat digits) :
    Agree (parseBlock syntaxError rawBody : ParsedBlock ν) (TicketSync.parseBlock syntaxError rawBody) := by
  have horder : ¬ends.index < begins.index := not_lt.mpr hle
  have hattrs : ∀ line, ∃ errors errors', blockAttrs begins.groups line = .error errors ∧
      TicketSync.blockAttrs begins.groups line = .error errors' := by
    intro line
    unfold blockAttrs TicketSync.blockAttrs
    cases hdigits : firstAtWord versionAttr false begins.groups with
    | none => exact ⟨_, _, rfl, rfl⟩
    | some digits =>
      have hnewer := hv digits hdigits
      have hsyncNewer : TicketSync.supportedBlockVersion < readNat digits := hnewer
      dsimp only
      rw [if_neg (not_lt.mpr hnewer.le), if_pos hnewer, if_pos hsyncNewer]
      exact ⟨_, _, rfl, rfl⟩
  obtain ⟨errors, errors', h, h'⟩ := hattrs (lineOf (normalizeNewlines rawBody) begins.index)
  unfold parseBlock TicketSync.parseBlock
  simp only [hb, he, if_neg horder, h, h']
  exact agree_fail _ _ _

omit [JsNumber ν] in
theorem carries_iff [JsNumber ν] {digits : JsString} {version : Nat} {fields : Members ν}
    (hb : matchAll beginSentinel (normalizeNewlines rawBody) = [begins])
    (he : matchAll endSentinel (normalizeNewlines rawBody) = [ends]) (hle : begins.index ≤ ends.index)
    (hv : firstAtWord versionAttr false begins.groups = some digits) :
    Carries rawBody version fields ↔ readNat digits = version ∧
      parseJson (trim ((fenced (innerText rawBody begins ends)).getD (innerText rawBody begins ends))) =
        some (.obj fields) := by
  constructor
  · rintro ⟨begins', ends', digits', hb', he', -, hv', hversion, hparse⟩
    obtain rfl := (List.cons.inj (hb.symm.trans hb')).1
    obtain rfl := (List.cons.inj (he.symm.trans he')).1
    obtain rfl := Option.some.inj (hv.symm.trans hv')
    exact ⟨hversion, hparse⟩
  · rintro ⟨hversion, hparse⟩
    exact ⟨begins, ends, digits, hb, he, hle, hv, hversion, hparse⟩

end Single

omit [JsNumber ν] in
theorem accepted_agree_iff {rawBody : JsString} {begins : Match JsString} {ends : Match Unit}
    (x y : Except (List JsString) (Members ν)) :
    Agree (accepted rawBody begins ends x) (accepted rawBody begins ends y) ↔
      ∀ fields, x = .ok fields ↔ y = .ok fields := by
  cases x with
  | error errors =>
    cases y with
    | error errors' => exact ⟨fun _ _ => by simp, fun _ => agree_fail _ errors errors'⟩
    | ok fields => exact ⟨fun h => absurd h.ok Bool.false_ne_true, fun h => by simpa using h fields⟩
  | ok fields =>
    cases y with
    | error errors => exact ⟨fun h => absurd h.ok.symm Bool.false_ne_true, fun h => by simpa using h fields⟩
    | ok fields' =>
      constructor
      · intro h
        obtain rfl := Option.some.inj (h.same rfl).1
        exact fun _ => Iff.rfl
      · intro h
        have e : fields' = fields := by simpa using (h fields).mp rfl
        rw [e]
        exact ⟨rfl, fun _ => ⟨rfl, rfl, rfl, rfl, rfl⟩⟩

theorem parseBlock_agree_iff (syntaxError : JsString → JsString) (rawBody : JsString) :
    (¬BelowSupported rawBody →
      Agree (parseBlock syntaxError rawBody : ParsedBlock ν) (TicketSync.parseBlock syntaxError rawBody)) ↔
      ∀ fields : Members ν, Carries rawBody supportedBlockVersion fields → ShapedFields fields →
        Portable fields := by
  by_cases hsingle : ∃ begins ends, matchAll beginSentinel (normalizeNewlines rawBody) = [begins] ∧
      matchAll endSentinel (normalizeNewlines rawBody) = [ends] ∧ begins.index ≤ ends.index
  · obtain ⟨begins, ends, hb, he, hle⟩ := hsingle
    by_cases hnewer : ∀ digits ∈ firstAtWord versionAttr false begins.groups,
        supportedBlockVersion < readNat digits
    · refine ⟨fun _ fields hcarries => ?_, fun _ _ => parse_unsupported syntaxError hb he hle hnewer⟩
      obtain ⟨begins', ends', digits, hb', -, -, hv, hversion, -⟩ := hcarries
      obtain rfl := (List.cons.inj (hb.symm.trans hb')).1
      exact absurd hversion (hnewer digits hv).ne'
    · push Not at hnewer
      obtain ⟨digits, hv, hversion⟩ := hnewer
      obtain hbelow | hversion := hversion.lt_or_eq
      · refine ⟨fun _ fields hcarries => ?_, fun _ h => absurd ⟨begins, ends, digits, hb, he, hle, hv, hbelow⟩ h⟩
        exact absurd ((carries_iff hb he hle hv).mp hcarries).1 hbelow.ne
      · obtain ⟨hparse, hsyncParse⟩ := parse_supported (ν := ν) syntaxError hb he hle hv hversion
        have hnotBelow : ¬BelowSupported rawBody := by
          rintro ⟨begins', ends', digits', hb', -, -, hv', hbelow⟩
          obtain rfl := (List.cons.inj (hb.symm.trans hb')).1
          obtain rfl := Option.some.inj (hv.symm.trans hv')
          exact absurd hversion hbelow.ne
        simp only [hnotBelow, not_false_eq_true, true_imp_iff, hparse, hsyncParse, accepted_agree_iff,
          blockFields_ok_iff, syncFields_ok_iff, validateBlockFields_nil_iff, validateBlock_nil_iff,
          carries_iff hb he hle hv, hversion, true_and]
        refine forall_congr' fun fields => ⟨fun h hcarries hshaped => ?_, fun h => ?_⟩
        · exact (h.mpr ⟨hcarries, hshaped⟩).2.2
        · exact ⟨fun h' => ⟨h'.1, h'.2.1⟩, fun h' => ⟨h'.1, h'.2, h h'.1 h'.2⟩⟩
  · refine ⟨fun _ fields hcarries => ?_, fun _ _ => agree_of_not_single syntaxError rawBody hsingle⟩
    obtain ⟨begins, ends, digits, hb, he, hle, -⟩ := hcarries
    exact absurd ⟨begins, ends, hb, he, hle⟩ hsingle

theorem serializeBlock_same (prefixText suffixText : JsString) (fields : Json ν) (key : Option JsString) :
    serializeBlock prefixText suffixText fields supportedBlockVersion key =
      TicketSync.serializeBlock prefixText suffixText fields key := by
  have hbegin : js "<!-- adlc:begin v=" = js "<!-- adlc:begin " ++ js "v=" := rfl
  have hfence : js " -->\n```json\n" = js " -->" ++ TicketSync.fenceOpen := rfl
  have hend : js "\n```\n<!-- adlc:end -->" = TicketSync.fenceClose ++ TicketSync.closingText := rfl
  have hversion : TicketSync.supportedBlockVersion = supportedBlockVersion := rfl
  unfold serializeBlock TicketSync.serializeBlock TicketSync.blockText TicketSync.openingText
  simp only [hbegin, hfence, hend, hversion, List.append_assoc]

/-- The parsers agree on a body, be it serialized or not, exactly where the fields that it carries at the
supported version, if they have the right shape, name no type of an edge and have no number that is not
finite; and both modules serialize to the same body. -/
theorem blockCodecs_agree_iff (syntaxError : JsString → JsString) :
    (∀ rawBody, (¬BelowSupported rawBody →
      Agree (parseBlock syntaxError rawBody : ParsedBlock ν) (TicketSync.parseBlock syntaxError rawBody)) ↔
      ∀ fields : Members ν, Carries rawBody supportedBlockVersion fields → ShapedFields fields →
        Portable fields) ∧
    ∀ (prefixText suffixText : JsString) (fields : Json ν) (key : Option JsString),
      serializeBlock prefixText suffixText fields supportedBlockVersion key =
        TicketSync.serializeBlock prefixText suffixText fields key :=
  ⟨parseBlock_agree_iff syntaxError, serializeBlock_same⟩

def typedFields : Json Int :=
  .obj [(js "edges", .arr [.obj [(js "to", .str (js "T2")), (js "type", .str (js "before"))]])]

def typedBody : JsString := TicketSync.serializeBlock [] [] typedFields none

omit [JsNumber ν] in
/-- An edge with a type, as ticket-sync writes it, is refused by the autopilot. -/
theorem typed_edge_refused :
    (TicketSync.parseBlock (fun _ => []) typedBody : ParsedBlock Int).ok = true ∧
      (parseBlock (fun _ => []) typedBody : ParsedBlock Int).ok = false ∧ ¬BelowSupported typedBody ∧
      ¬Agree (parseBlock (fun _ => []) typedBody : ParsedBlock Int)
        (TicketSync.parseBlock (fun _ => []) typedBody) := by
  have hsync : (TicketSync.parseBlock (fun _ => []) typedBody : ParsedBlock Int).ok = true := by
    decide +kernel
  have hrefused : (parseBlock (fun _ => []) typedBody : ParsedBlock Int).ok = false := by
    decide +kernel
  have hversion : ((matchAll beginSentinel (normalizeNewlines typedBody)).all fun begins =>
      (firstAtWord versionAttr false begins.groups).all fun digits =>
        decide (supportedBlockVersion ≤ readNat digits)) = true := by
    decide +kernel
  refine ⟨hsync, hrefused, ?_, ?_⟩
  · rintro ⟨begins, ends, digits, hb, -, -, hv, hbelow⟩
    rw [hb, List.all_cons, hv, Bool.and_eq_true] at hversion
    exact absurd (of_decide_eq_true hversion.1) (not_le.mpr hbelow)
  · intro h
    have e := h.ok
    rw [hsync, hrefused] at e
    cases e

end Adlc.Autopilot
