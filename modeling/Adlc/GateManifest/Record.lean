import Adlc.GateManifest.Verify
import Adlc.Tickets.SignedValue

namespace Adlc.GateManifest

open Adlc.Framework Adlc.Tickets

variable {ν : Type} [JsNumber ν]

def reservedChainFields : List JsString :=
  [js "seq", js "prev", js "sig", js "sigVersion", js "segment", js "anchor", js "branch"]

/-- `a ?? b` -/
def orElse (value : Option (Json ν)) (other : Json ν) : Json ν :=
  match value with
  | none | some .null => other
  | some v => v

/-- `{ ...payload, gate, ts, files }` -/
def normalized (payload : Members ν) (isoNow : JsString) : Members ν :=
  let get := fun k => payload.lookup k
  let gate := orElse (get (js "gate")) (orElse (get (js "type")) (.str (js "evidence")))
  let ts := orElse (get (js "ts")) (.str isoNow)
  let files := orElse (get (js "files")) (.obj [])
  ((payload.set (js "gate") gate).set (js "ts") ts).set (js "files") files

/-- `{ seq, ...fields, prev }` -/
def chainFields (seq : ν) (fields : Members ν) (prevRawLine : Option JsString) : Members ν :=
  let prev : Json ν := match prevRawLine with
    | none => .null
    | some line => .str (sha256 line)
  (Members.setAll [(js "seq", .num seq)] fields).set (js "prev") prev

/-- The entry with its signature, when there is a key. -/
def sign (key : Option JsString) (signatureVersion : Nat) (chained : Members ν) :
    Except TicketStoreError (Members ν) :=
  match key with
  | none => .ok chained
  | some key =>
    let versioned := if signatureVersion = 2 then
      chained.set (js "sigVersion") (.num (JsNumber.ofNat 2)) else chained
    (signEntry key (.obj versioned)).map fun sig => versioned.set (js "sig") (.str sig)

/-! ## What is written -/

/-- The three fields an entry always has. -/
def defaultedFields : List JsString := [js "gate", js "ts", js "files"]

theorem orElse_isJson {value : Option (Json ν)} {other : Json ν} (h : ∀ v ∈ value, v.IsJson)
    (ho : other.IsJson) : (orElse value other).IsJson := by
  unfold orElse
  split
  · exact ho
  · exact ho
  · exact h _ rfl

omit [JsNumber ν] in
theorem orElse_ordered {v : Option (Json ν)} {other : Json ν} (h : ∀ w, v = some w → w.Ordered)
    (ho : other.Ordered) : (orElse v other).Ordered := by
  unfold orElse
  split
  · exact ho
  · exact ho
  · exact h _ rfl

theorem lookup_isJson {ms : Members ν} (h : (Json.obj ms).IsJson) (k : JsString) :
    ∀ v ∈ ms.lookup k, v.IsJson := by
  intro v hv
  exact (membersIsJson_iff ms).mp h.2 (k, v) (Members.mem_lookup hv)

theorem normalized_isJson {payload : Members ν} (h : (Json.obj payload).IsJson) (isoNow : JsString) :
    (Json.obj (normalized payload isoNow)).IsJson := by
  have hg := lookup_isJson h
  have hstr : ∀ s : JsString, (Json.str s : Json ν).IsJson := fun _ => trivial
  have hobj : (Json.obj [] : Json ν).IsJson := ⟨⟨List.nodup_nil, List.Pairwise.nil⟩, trivial⟩
  exact ((h.set (orElse_isJson (hg _) (orElse_isJson (hg _) (hstr _))) _).set
    (orElse_isJson (hg _) (hstr _)) _).set (orElse_isJson (hg _) hobj) _

omit [JsNumber ν] in
theorem normalized_ordered {payload : Members ν} (h : (Json.obj payload).Ordered) (isoNow : JsString) :
    (Json.obj (normalized payload isoNow)).Ordered := by
  have hget : ∀ k v, payload.lookup k = some v → v.Ordered := fun k v => Json.Ordered.get h
  have hstr : ∀ s : JsString, (Json.str s : Json ν).Ordered := fun _ => trivial
  have hobj : (Json.obj [] : Json ν).Ordered := ⟨⟨List.nodup_nil, List.Pairwise.nil⟩, trivial⟩
  apply Json.Ordered.set
  · apply Json.Ordered.set
    · apply Json.Ordered.set h
      exact orElse_ordered (hget _) (orElse_ordered (hget _) (hstr _))
    · exact orElse_ordered (hget _) (hstr _)
  · exact orElse_ordered (hget _) hobj

omit [JsNumber ν] in
/-- A field of the payload is kept, but for one of the three that is null. -/
theorem lookup_normalized {payload : Members ν} {isoNow k : JsString}
    (h : k ∉ defaultedFields ∨ ∃ v, payload.lookup k = some v ∧ v ≠ .null) :
    (normalized payload isoNow).lookup k = payload.lookup k := by
  have hor : ∀ {other : Json ν}, (∃ v, payload.lookup k = some v ∧ v ≠ .null) →
      some (orElse (payload.lookup k) other) = payload.lookup k := by
    rintro other ⟨v, hv, hn⟩
    rw [hv]
    cases v with
    | null => exact absurd rfl hn
    | _ => rfl
  simp only [normalized, Members.lookup_set]
  split_ifs with h1 h2 h3
  · subst h1
    exact hor (h.resolve_left (by simp [defaultedFields]))
  · subst h2
    exact hor (h.resolve_left (by simp [defaultedFields]))
  · subst h3
    exact hor (h.resolve_left (by simp [defaultedFields]))
  · rfl

/-- The fields an append writes beside those of the payload; `extra` are those of a segment's first
entry. -/
structure Written (key : Option JsString) (fields extra : Members ν) (seq : ν)
    (prevRawLine : Option JsString) (entry : Members ν) : Prop where
  isJson : (Json.obj entry).IsJson
  seq : entry.lookup (js "seq") = some (.num seq)
  prev : linksTo (entry.lookup (js "prev")) prevRawLine = true
  anchor : entry.lookup (js "anchor") = extra.lookup (js "anchor")
  sig : ∀ k ∈ key, entrySigValid k (.obj entry) = .ok true
  rest : ∀ k, k ∉ reservedChainFields → entry.lookup k = fields.lookup k

/-- No field of the payload is the writer's own. -/
def Unreserved (fields : Members ν) : Prop := ∀ k ∈ reservedChainFields, fields.lookup k = none

omit [JsNumber ν] in
theorem lookup_chainFields {fields : Members ν} (hn : (Members.keys fields).Nodup) (seq : ν)
    (prevRawLine : Option JsString) (k : JsString) :
    (chainFields seq fields prevRawLine).lookup k =
      if k = js "prev" then
        some (match prevRawLine with
          | none => .null
          | some line => .str (sha256 line))
      else (fields.lookup k).or (if k = js "seq" then some (.num seq) else none) := by
  unfold chainFields
  rw [Members.lookup_set]
  congr 1
  rw [Members.lookup_setAll _ hn]
  congr 1
  by_cases h : k = js "seq"
  · simp [h]
  · simp [List.lookup_cons, h, beq_eq_false_iff_ne.mpr h]

omit [JsNumber ν] in
theorem chainFields_ordered {fields : Members ν} (h : (Json.obj fields).Ordered) (seq : ν)
    (prevRawLine : Option JsString) : (Json.obj (chainFields seq fields prevRawLine)).Ordered := by
  have hseq : (Json.obj [(js "seq", .num seq)] : Json ν).Ordered :=
    ⟨⟨by simp [Members.keys], by simp [Members.keys]⟩, trivial, trivial⟩
  apply Json.Ordered.set
  · exact hseq.setAll ((membersOrdered_iff fields).mp h.2)
  · cases prevRawLine <;> exact trivial

theorem chainFields_isJson {fields : Members ν} (h : (Json.obj fields).IsJson) {seq : ν}
    (hs : JsNumber.isFinite seq = true) (prevRawLine : Option JsString) :
    (Json.obj (chainFields seq fields prevRawLine)).IsJson := by
  have h0 : (Json.obj [(js "seq", .num seq)] : Json ν).IsJson :=
    ⟨⟨by simp [Members.keys], by simp [Members.keys]⟩, hs, trivial⟩
  apply Json.IsJson.set
  · exact h0.setAll ((membersIsJson_iff fields).mp h.2)
  · cases prevRawLine <;> exact trivial

theorem signEntry_ok {key : JsString} {ms : Members ν} {sig : JsString}
    (h : signEntry key (.obj ms) = .ok sig) (hs : js "sig" ∉ ms.keys) :
    entrySigValid key (.obj (ms.set (js "sig") (.str sig))) = .ok true := by
  have hne : sig ≠ [] := by
    unfold signEntry at h
    cases hc : canonicalEntryBytes (Json.obj ms) with
    | error e =>
      rw [hc] at h
      cases h
    | ok text =>
      rw [hc] at h
      rw [← Except.ok.inj h]
      exact hmacSha256Hex_ne_nil _ _
  have hg : (Json.obj (ms.set (js "sig") (.str sig))).get? (js "sig") = some (.str sig) := by
    rw [Json.get?, Members.lookup_set, if_pos rfl]
  have hb : signEntry key (.obj (ms.set (js "sig") (.str sig))) = .ok sig := by
    rw [signEntry, canonicalEntryBytes_set hs]
    exact h
  unfold entrySigValid
  rw [hg]
  simp only [if_neg hne, hb, Except.map, decide_true]

omit [JsNumber ν] in
theorem not_mem_keys_of_lookup {ms : Members ν} {k : JsString} (h : ms.lookup k = none) :
    k ∉ ms.keys := by
  intro hk
  obtain ⟨p, hp, rfl⟩ := List.mem_map.mp hk
  have hx := List.lookup_eq_none_iff.mp h p hp
  simp at hx

theorem canonicalEntryBytes_of_valid {key : JsString} {entry : Json ν}
    (h : entrySigValid key entry = .ok true) : ∃ text, canonicalEntryBytes entry = .ok text := by
  unfold entrySigValid at h
  split at h
  · split_ifs at h
    · cases h
    · obtain ⟨sig, hs, -⟩ := map_eq_ok.mp h
      obtain ⟨text, ht, -⟩ := map_eq_ok.mp hs
      exact ⟨text, ht⟩
  · cases h

/-- A signature that was made is valid in what is read back. -/
theorem entrySigValid_finitize {ms : Members ν} {key : JsString}
    (h : entrySigValid key (.obj ms) = .ok true) : entrySigValid key (finitize (.obj ms)) = .ok true := by
  obtain ⟨text, htext⟩ := canonicalEntryBytes_of_valid h
  have hsign : signEntry key (finitize (.obj ms)) = signEntry key (.obj ms) := by
    rw [signEntry, signEntry, canonicalEntryBytes_finitize htext, htext]
  have hsig : ∀ s, (Json.obj ms).get? (js "sig") = some (.str s) →
      (finitize (.obj ms)).get? (js "sig") = some (.str s) := by
    intro s hs
    rw [get?_finitize, hs]
    rfl
  unfold entrySigValid at h ⊢
  cases hget : (Json.obj ms).get? (js "sig") with
  | none =>
    rw [hget] at h
    cases h
  | some v =>
    cases v with
    | str s =>
      rw [hget] at h
      rw [hsig s hget, hsign]
      exact h
    | _ =>
      rw [hget] at h
      cases h

/-- Signing adds to a chained entry its two fields, and the signature is valid. -/
theorem sign_ok {key : Option JsString} {version : Nat} {chained entry : Members ν}
    (hj : (Json.obj chained).IsJson) (h0 : chained.lookup (js "sig") = none)
    (h : sign key version chained = .ok entry) :
    (Json.obj entry).IsJson ∧
      (∀ k, k ≠ js "sigVersion" → k ≠ js "sig" → entry.lookup k = chained.lookup k) ∧
      ∀ k ∈ key, entrySigValid k (.obj entry) = .ok true := by
  cases key with
  | none =>
    rw [sign, Except.ok.injEq] at h
    subst h
    exact ⟨hj, fun _ _ _ => rfl, by simp⟩
  | some key =>
    unfold sign at h
    generalize hv : (if version = 2 then
      chained.set (js "sigVersion") (.num (JsNumber.ofNat 2)) else chained) = versioned at h
    have hvl : ∀ k, k ≠ js "sigVersion" → versioned.lookup k = chained.lookup k := by
      intro k hk
      rw [← hv]
      split_ifs
      · rw [Members.lookup_set, if_neg hk]
      · rfl
    have h2 : (Json.num (JsNumber.ofNat 2) : Json ν).IsJson :=
      JsNumber.finite_of_integer _ (JsNumber.integer_ofNat 2 (by decide))
    have hvj : (Json.obj versioned).IsJson := by
      rw [← hv]
      split_ifs
      · exact hj.set h2 _
      · exact hj
    have hnot : js "sig" ∉ Members.keys versioned :=
      not_mem_keys_of_lookup (by rw [hvl _ (by decide), h0])
    simp only at h
    cases hg : signEntry key (.obj versioned) with
    | error e =>
      rw [hg] at h
      cases h
    | ok sig =>
      rw [hg] at h
      have e := Except.ok.inj h
      simp only at e
      rw [← e]
      refine ⟨hvj.set (show (Json.str sig).IsJson from trivial) _, ?_, ?_⟩
      · intro k h1 h2
        rw [Members.lookup_set, if_neg h2, hvl k h1]
      · intro k hk
        rw [← Option.some.inj hk]
        exact signEntry_ok hg hnot

/-- The signature is the last field, and it is valid. -/
theorem sign_spec {key : Option JsString} {version : Nat} {chained entry : Members ν}
    (ho : (Json.obj chained).Ordered) (h0 : chained.lookup (js "sig") = none)
    (h : sign key version chained = .ok entry) :
    (Json.obj entry).Ordered ∧
      (∀ k, k ≠ js "sigVersion" → k ≠ js "sig" → entry.lookup k = chained.lookup k) ∧
      ∀ k ∈ key, entrySigValid k (.obj entry) = .ok true := by
  cases key with
  | none =>
    rw [sign, Except.ok.injEq] at h
    subst h
    exact ⟨ho, fun _ _ _ => rfl, by simp⟩
  | some key =>
    unfold sign at h
    generalize hv : (if version = 2 then
      chained.set (js "sigVersion") (.num (JsNumber.ofNat 2)) else chained) = versioned at h
    have hvl : ∀ k, k ≠ js "sigVersion" → versioned.lookup k = chained.lookup k := by
      intro k hk
      rw [← hv]
      split_ifs
      · rw [Members.lookup_set, if_neg hk]
      · rfl
    have hvo : (Json.obj versioned).Ordered := by
      rw [← hv]
      split_ifs
      · exact Json.Ordered.set ho (show (Json.num _ : Json ν).Ordered from trivial) _
      · exact ho
    have hnot : js "sig" ∉ Members.keys versioned :=
      not_mem_keys_of_lookup (by rw [hvl _ (by decide), h0])
    obtain ⟨sig, hsig, rfl⟩ := map_eq_ok.1 h
    refine ⟨Json.Ordered.set hvo (show (Json.str sig : Json ν).Ordered from trivial) _, ?_, ?_⟩
    · intro k h1 h2
      rw [Members.lookup_set, if_neg h2, hvl k h1]
    · intro k hk
      rw [← Option.some.inj hk]
      exact signEntry_ok hsig hnot

theorem sign_written {key : Option JsString} {version : Nat} {fields extra entry : Members ν} {seq : ν}
    {prevRawLine : Option JsString} (hu : Unreserved fields)
    (he : (Json.obj (fields.setAll extra)).IsJson) (hn : (Members.keys extra).Nodup)
    (hx : ∀ k, extra.lookup k ≠ none → k = js "anchor" ∨ k = js "branch")
    (hs : JsNumber.isFinite seq = true)
    (h : sign key version (chainFields seq (fields.setAll extra) prevRawLine) = .ok entry) :
    Written key fields extra seq prevRawLine entry := by
  have hall := Members.lookup_setAll fields hn
  have hextra : ∀ k, k ≠ js "anchor" → k ≠ js "branch" → extra.lookup k = none := by
    intro k h1 h2
    by_contra hk
    rcases hx k hk with h | h
    · exact h1 h
    · exact h2 h
  have hc := lookup_chainFields he.1.1 seq prevRawLine
  have h0 : (chainFields seq (fields.setAll extra) prevRawLine).lookup (js "sig") = none := by
    rw [hc, if_neg (by decide), hall, hextra _ (by decide) (by decide), hu _ (by decide),
      if_neg (by decide)]
    rfl
  obtain ⟨hj, hl, hsig⟩ := sign_ok (chainFields_isJson he hs prevRawLine) h0 h
  refine ⟨hj, ?_, ?_, ?_, hsig, ?_⟩
  · rw [hl _ (by decide) (by decide), hc, if_neg (by decide), hall, hextra _ (by decide) (by decide),
      hu _ (by decide)]
    rfl
  · rw [hl _ (by decide) (by decide), hc, if_pos rfl]
    cases prevRawLine with
    | none => rfl
    | some line => simp [linksTo, eqStr]
  · rw [hl _ (by decide) (by decide), hc, if_neg (by decide), hall, hu _ (by decide),
      if_neg (by decide)]
    simp
  · intro k hk
    simp only [reservedChainFields, List.mem_cons, List.not_mem_nil, or_false, not_or] at hk
    obtain ⟨k1, k2, k3, k4, k5, k6, k7⟩ := hk
    rw [hl k k4 k3, hc, if_neg k2, hall, hextra k k6 k7, if_neg k1]
    simp

/-- A call of `appendManifestEntry`, with what it finds outside the manifest. -/
structure AppendCall (ν : Type) where
  payload : Json ν
  signatureVersion : Nat
  checkout : Checkout

/-- The `seq` after the last entry's, or the refusal of a chain whose last entry has no positive
one. -/
def nextSeq (entries : List (Json ν)) (label : JsString) : Except TicketStoreError ν :=
  let refusal := unexpected (label ++
    js " tail is not hash-chain compatible: missing positive seq")
  match entries.getLast? with
  | none => .ok (JsNumber.ofNat 1)
  | some previous =>
    if truthy previous then
      match previous.get? (js "seq") with
      | some (.num seq) =>
        if JsNumber.isInteger seq && !JsNumber.lt seq (JsNumber.ofNat 1) then
          .ok (JsNumber.add seq (JsNumber.ofNat 1))
        else .error refusal
      | _ => .error refusal
    else .ok (JsNumber.ofNat 1)

/-- The values of a file's lines. -/
def parseLines (label : JsString) : List (JsString × Nat) → Except TicketStoreError (List (Json ν))
  | [] => .ok []
  | (line, lineNo) :: lines =>
    match parseJson line with
    | none => .error (unexpected (label ++ js " contains malformed JSON at line " ++ natText lineNo))
    | some entry => (parseLines label lines).map (entry :: ·)

/-! ## Segments -/

/-- The fields only the first entry of a segment has. -/
def mintedFields : OpenSegment ν → Members ν
  | .existing _ => []
  | .minted _ anchor branch =>
    (js "anchor", anchor) :: (branch.map fun b => (js "branch", .str b)).toList

/-- A new segment has no lines yet, and an open one has some. -/
def expectLines (resolved : OpenSegment ν) (lines : List JsString) : Except TicketStoreError Unit :=
  match resolved with
  | .minted name _ _ =>
    if lines = [] then .ok ()
    else .error (unexpected (js "segment " ++ name ++
      js " was expected to be new but already has content — refusing to append"))
  | .existing name =>
    if lines = [] then
      .error (unexpected (js "segment " ++ name ++
        js " was expected to already be open with content but is empty or missing — refusing to append without an anchor"))
    else .ok ()

/-- A segment's first entry is signed with version 2, whatever the caller asked for. -/
def effectiveSignatureVersion (resolved : OpenSegment ν) (signatureVersion : Nat) : Nat :=
  match resolved with
  | .minted .. => 2
  | .existing _ => signatureVersion

def appendLockedEntry (key : Option JsString) (call : AppendCall ν) (payload : Members ν)
    (resolved : OpenSegment ν) (files : ManifestFiles) :
    Except TicketStoreError (Json ν × ManifestFiles) := do
  let label := js "segment " ++ resolved.name
  let file := files.segmentFile resolved.name
  let lines := linesOf file
  expectLines resolved lines
  let entries ← parseLines label (lines.zipIdx 1)
  let seq ← nextSeq entries label
  let fields := (normalized payload call.checkout.isoNow).setAll (mintedFields resolved)
  let entry ← sign key (effectiveSignatureVersion resolved call.signatureVersion)
    (chainFields seq fields lines.getLast?)
  return (.obj entry,
    files.writeSegmentFile resolved.name (appendLine file (stringify (.obj entry))))

variable [Unicode]

/-- The result of a call and the files it leaves: a refusal can leave a new lineage token. -/
abbrev Outcome (ν : Type) := Except TicketStoreError (Json ν) × ManifestFiles

def appendToSegment (key : Option JsString) (call : AppendCall ν) (payload : Members ν)
    (files : ManifestFiles) : Outcome ν :=
  let files := withDirectory files
  match verify (ν := ν) files false false key with
  | .error e => (.error e, files)
  | .ok integrity =>
    if integrity.valid = false then
      (.error (unexpected (js "manifest forest is invalid: " ++ integrity.message)), files)
    else
      match resolveOpenSegment (ν := ν) call.checkout key files with
      | .error e => (.error e, files)
      | .ok (resolved, files') =>
        match appendLockedEntry key call payload resolved files' with
        | .error e => (.error e, files')
        | .ok (entry, files'') => (.ok entry, files'')

/-! ## The root -/

/-- The root is appended to when it verifies, and created when no segment is there. -/
def expectRoot (ν : Type) [JsNumber ν] (key : Option JsString) (files : ManifestFiles) :
    Except TicketStoreError Unit :=
  if readRawLines files.root ≠ [] then
    match verify (ν := ν) files false false key with
    | .error e => .error e
    | .ok integrity =>
      if integrity.valid then .ok ()
      else .error (unexpected (js "manifest chain is invalid: " ++ integrity.message))
  else
    let existing := (discoverSegments ν files).valid
    if existing = [] then .ok ()
    else .error (unexpected (js "refusing to create the root manifest: manifest.d/ already holds " ++
      natText existing.length ++ js " segment(s) anchored to nothing (anchor: null), legal only in a rootless forest — creating a root now would make every one of them invalid (spec §4.4). This usually means the activation marker (.adlc/manifest.d/.store.json) was lost or corrupted; restore it rather than appending to root."))

def appendToRoot (key : Option JsString) (call : AppendCall ν) (payload : Members ν)
    (files : ManifestFiles) : Except TicketStoreError (Json ν × ManifestFiles) := do
  let lines := readRawLines files.root
  let entries ← parseLines (js "manifest") lines
  expectRoot ν key files
  let seq ← nextSeq entries (js "manifest")
  let entry ← sign key call.signatureVersion
    (chainFields seq (normalized payload call.checkout.isoNow) (lines.map Prod.fst).getLast?)
  return (.obj entry, { files with root := some (appendLine files.root (stringify (.obj entry))) })

def appendManifestEntry (keyParam : Option JsString) (call : AppendCall ν) (files : ManifestFiles) :
    Outcome ν :=
  match validateKeyParam keyParam, call.payload with
  | .error e, _ => (.error e, files)
  | .ok key, .obj payload =>
    match reservedChainFields.find? fun field => decide (field ∈ Members.keys payload) with
    | some field =>
      (.error (unexpected (js "manifest payload must not provide reserved chain field: " ++ field)),
        files)
    | none =>
      if isSegmentedRepo ν files then appendToSegment key call payload files
      else
        match appendToRoot key call payload files with
        | .error e => (.error e, files)
        | .ok (entry, files') => (.ok entry, files')
  | .ok _, _ => (.error (unexpected (js "manifest payload must be an object")), files)

end Adlc.GateManifest
