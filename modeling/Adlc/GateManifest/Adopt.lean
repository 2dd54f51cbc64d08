import Adlc.GateManifest.ForestOrder
import Adlc.GateManifest.SegmentIdentity

namespace Adlc.GateManifest

open Adlc.Framework Adlc.Tickets

variable {ν : Type} [JsNumber ν]

/-! ## Adopting a lineage -/

/-- A segment's lines, its first entry and the value on its last line. -/
structure ParsedSegment (ν : Type) where
  lines : List (JsString × Nat)
  first : Members ν
  last : Json ν

def readSegment (files : ManifestFiles) (name : JsString) : Option (ParsedSegment ν) :=
  let lines := readRawLines (files.segmentFile name)
  match lines.head?.bind fun l => parseJson (ν := ν) l.1,
      lines.getLast?.bind fun l => parseJson (ν := ν) l.1 with
  | some (.obj first), some last =>
    match last with
    | .obj _ | .arr _ => some ⟨lines, first, last⟩
    | _ => some ⟨lines, first, .obj []⟩
  | _, _ => none

/-- With a key, a chain that verifies and whose first entry carries a version-2 signature. -/
def authenticate (parsed : ParsedSegment ν) (key : Option JsString) (allowChainOnly : Bool) :
    Except TicketStoreError Bool := do
  let chain ← verifyChain (ν := ν) parsed.lines ⟨key, false, true⟩
  if !chain.valid then return false
  else
    match key with
    | none => return allowChainOnly
    | some key => if isV2 (.obj parsed.first) then entrySigValid key (.obj parsed.first) else return false

structure AdoptCandidate (ν : Type) where
  name : JsString
  entries : Nat
  firstTs : Json ν
  lastTs : Json ν
  authenticated : Bool

def describeCandidate (key : Option JsString) (allowChainOnly : Bool)
    (candidate : JsString × ParsedSegment ν) : Except TicketStoreError (AdoptCandidate ν) :=
  let (name, parsed) := candidate
  (authenticate parsed key allowChainOnly).map fun authenticated =>
    ⟨name, parsed.lines.length, (parsed.first.lookup (js "ts")).getD .null,
      (parsed.last.get? (js "ts")).getD .null, authenticated⟩

inductive AdoptRefusal where
  | notSegmented | detachedHead | keyedForest | undeterminedAuth | nonconformingStore
  | unreadableSegment | unknownSegment | wrongBranch | unauthenticated

inductive AdoptPlan (ν : Type) where
  | refused (decision : AdoptRefusal) (reason : JsString) (branch : Option JsString)
      (candidates : Option (List (AdoptCandidate ν)))
  | list (branch : JsString) (candidates : List (AdoptCandidate ν))
  | adopted (branch segment : JsString) (token : LineageToken)

section

variable [Unicode]

/-- The segments that could be read, by name. -/
def parsedByName (ν : Type) [JsNumber ν] (files : ManifestFiles) : List (JsString × ParsedSegment ν) :=
  (discoverSegments ν files).valid.filterMap fun name =>
    (readSegment files name).map fun parsed => (name, parsed)

/-- The plan for one segment, or the list of those that declare the branch. -/
def planSegment (files : ManifestFiles) (key : Option JsString) (allowChainOnly : Bool)
    (branch : JsString) (segment : Option JsString) : Except TicketStoreError (AdoptPlan ν) := do
  let mine := (parsedByName ν files).filter fun p => eqStr (p.2.first.lookup (js "branch")) branch
  match segment with
  | none => return .list branch (← mine.mapM (describeCandidate key allowChainOnly))
  | some segment =>
    match (parsedByName ν files).find? fun p => p.1 = segment with
    | none => return .refused .unknownSegment (js "no segment named " ++ segment ++
        js " exists in this store") branch (← mine.mapM (describeCandidate key allowChainOnly))
    | some (_, parsed) =>
      let declared := (parsed.first.lookup (js "branch")).getD .null
      if !eqStr (parsed.first.lookup (js "branch")) branch then
        return .refused .wrongBranch (js "segment " ++ segment ++ js " declares branch " ++
          stringify declared ++ js ", not " ++ stringify (.str branch : Json ν) ++
          js " — adopting it would bind this checkout to a different lineage") branch none
      else if !(← authenticate parsed key allowChainOnly) then
        return .refused .unauthenticated (js "segment " ++ segment ++
          js " cannot be authenticated with the available key (broken chain, or its branch-bearing first entry lacks a verified v2 signature) — a token makes downstream readers trust it without re-verifying, so adopt refuses") branch none
      else if ulidOf segment = [] then
        return .refused .unknownSegment (js "segment " ++ segment ++
          js " has no readable lineage ULID in its name") branch none
      else return .adopted branch segment ⟨segment, ulidOf segment, branch⟩

def planAdopt (ν : Type) [JsNumber ν] (co : Checkout) (files : ManifestFiles)
    (key segment : Option JsString) : Except TicketStoreError (AdoptPlan ν) :=
  if !isSegmentedRepo ν files then
    .ok (.refused .notSegmented
      (js "this repository is not in forest mode — there is no lineage to adopt") none none)
  else
    match co.currentBranch with
    | none => .ok (.refused .detachedHead
        (js "detached HEAD has no branch identity to bind a lineage token to — check out the branch first")
        none none)
    | some branch =>
      let declaredAuth := (readBoundedJson (ν := ν) (files.segmentFile storeMarker)).get? (js "auth")
      -- without the key nothing here can be authenticated
      if eqStr declaredAuth (js "keyed") ∧ key = none then
        .ok (.refused .keyedForest (js "this forest was activated in keyed mode, but no signing key is available to authenticate the segment being adopted; configure the manifest key") branch none)
      else
        let allowChainOnly := eqStr declaredAuth (js "keyless")
        if allowChainOnly = false ∧ key = none then
          .ok (.refused .undeterminedAuth (js "this forest does not declare an authentication mode (no activation marker), so an unsigned segment cannot be told apart from a legitimately keyless one — supply the manifest key to adopt here") branch none)
        else
          let found := discoverSegments ν files
          let unreadable := found.valid.filter fun name => (readSegment (ν := ν) files name).isNone
          if found.invalid ≠ [] then
            .ok (.refused .nonconformingStore (js "manifest.d/ contains " ++
              natText found.invalid.length ++ js " non-conforming filesystem object(s) (" ++
              joinComma ((found.invalid.map Prod.fst).mergeSort unitLe) ++
              js ") — one could be a disguised or tampered segment belonging to this branch, so adopting a lineage now would hide it from every later write and read on this checkout; repair the store first") branch none)
          else if unreadable ≠ [] then
            .ok (.refused .unreadableSegment (js "segment(s) " ++
              joinComma (unreadable.mergeSort unitLe) ++
              js " have an unreadable or malformed first entry, so their branch cannot be determined — they can be neither listed as candidates nor safely excluded from the choice; repair them first") branch none)
          else planSegment files key allowChainOnly branch segment

/-- What a run of the command leaves: the files, the token it published and its answer. -/
structure Adoption (ν : Type) where
  files : ManifestFiles
  wrote : Option LineageToken
  result : Except TicketStoreError (AdoptPlan ν × Bool)

def adopt (ν : Type) [JsNumber ν] (co : Checkout) (files : ManifestFiles)
    (key segment : Option JsString) (write : Bool) : Adoption ν :=
  match planAdopt ν co files key segment with
  | .error e => ⟨files, none, .error e⟩
  | .ok plan =>
    match plan, write with
    | .adopted branch segment token, true =>
      let files' := writeLineageToken ν files token
      let peeked := peekOpenSegment ν files' co.currentBranch
      -- the token is read back, and one that does not resolve stays where it is
      if peeked = some segment then ⟨files', some token, .ok (.adopted branch segment token, true)⟩
      else
        let found := match peeked with
          | some name => js "resolves to " ++ name
          | none => js "resolves to nothing"
        ⟨files', some token, .error (unexpected (js "wrote a lineage token for " ++ segment ++
          js " that does not resolve (" ++ found ++
          js ") — the token at .adlc/manifest.d/.lineage is inert; remove it and re-run"))⟩
    | plan, _ => ⟨files, none, .ok (plan, false)⟩

omit [Unicode] in
/-- The store without the files. -/
def remove (files : ManifestFiles) (names : List JsString) : ManifestFiles :=
  { files with segments := files.segments.map fun dir =>
      names.foldl (fun dir name => dir.erase name) dir }

/-- The other segments that declare the token's branch. -/
def rivals (ν : Type) [JsNumber ν] (files : ManifestFiles) (token : LineageToken) : List JsString :=
  ((parsedByName ν files).filter fun p => decide (p.1 ≠ token.segment) &&
    eqStr (p.2.first.lookup (js "branch")) token.branch).map Prod.fst

/-- The store without a lineage token, and without the other segments that declare the branch. -/
def withoutRivals (ν : Type) [JsNumber ν] (files : ManifestFiles) (token : LineageToken) :
    ManifestFiles :=
  remove files (lineageName :: rivals ν files token)

end

/-! ## Removing files -/

theorem lookup_foldl_erase (dir : Dir) (names : List JsString) (k : JsString) :
    (names.foldl (fun dir name => dir.erase name) dir).lookup k =
      if k ∈ names then none else dir.lookup k := by
  induction names generalizing dir with
  | nil => rfl
  | cons name names ih =>
    rw [List.foldl_cons, ih]
    by_cases hm : k ∈ names
    · rw [if_pos hm, if_pos (List.mem_cons_of_mem name hm)]
    · rw [if_neg hm]
      by_cases he : k = name
      · subst he
        rw [if_pos List.mem_cons_self]
        exact AList.lookup_erase _ _
      · have hn : k ∉ name :: names := by
          rw [List.mem_cons, not_or]
          exact ⟨he, hm⟩
        rw [if_neg hn]
        exact AList.lookup_erase_ne he

theorem keys_foldl_erase (dir : Dir) (names : List JsString) :
    (names.foldl (fun dir name => dir.erase name) dir).keys =
      dir.keys.filter fun k => k ∉ names := by
  induction names generalizing dir with
  | nil => simp
  | cons name names ih =>
    have hn : dir.keys.Nodup := dir.nodupKeys
    have he := @List.Nodup.erase_eq_filter JsString instBEqOfDecidableEq _ _ hn name
    rw [List.foldl_cons, ih, AList.keys_erase, he, List.filter_filter]
    apply List.filter_congr
    intro k _
    by_cases hk : k = name
    · simp [hk]
    · simp [hk]

theorem segmentFile_remove (files : ManifestFiles) (names : List JsString) (k : JsString) :
    (remove files names).segmentFile k = if k ∈ names then none else files.segmentFile k := by
  rw [ManifestFiles.segmentFile, ManifestFiles.segmentFile, remove]
  cases files.segments with
  | none => simp
  | some dir => simp [lookup_foldl_erase]

section

variable [Unicode]

theorem discoverName_grows (dir : Dir) (found : Discovery) (name : JsString) :
    found.valid ⊆ (discoverName ν dir found name).valid ∧
      ((discoverName ν dir found name).invalid = [] → found.invalid = []) := by
  unfold discoverName Discovery.reject
  split_ifs
  · simp
  · simp
  · simp
  · split <;> simp
  · simp

theorem foldl_discoverName_invalid {dir : Dir} {names : List JsString} {found : Discovery}
    (h : (names.foldl (discoverName ν dir) found).invalid = []) : found.invalid = [] := by
  induction names generalizing found with
  | nil => exact h
  | cons name names ih => exact (discoverName_grows dir found name).2 (ih h)

/-- A name in its place stays so when some of the names before it are gone. -/
theorem discoverName_fewer {dir dir' : Dir} {found found' : Discovery} {name : JsString}
    (hl : dir'.lookup name = dir.lookup name) (hv : found'.valid ⊆ found.valid)
    (hi : found'.invalid = []) (h : (discoverName ν dir found name).invalid = []) :
    (discoverName ν dir' found' name).invalid = [] ∧
      (discoverName ν dir' found' name).valid ⊆ (discoverName ν dir found name).valid := by
  unfold discoverName Discovery.reject at *
  rw [hl]
  split_ifs at h ⊢ with h1 h2 h3 h4
  · exact ⟨hi, hv⟩
  · exact ⟨hi, hv⟩
  · simp at h
  · cases hf : found.valid.find? fun seen => Unicode.toLowerCase seen = Unicode.toLowerCase name with
    | some seen =>
      rw [hf] at h
      simp at h
    | none =>
      have hf' : (found'.valid.find? fun seen =>
          Unicode.toLowerCase seen = Unicode.toLowerCase name) = none := by
        rw [List.find?_eq_none] at hf ⊢
        intro seen hs
        exact hf seen (hv hs)
      rw [hf']
      exact ⟨hi, List.append_subset.mpr ⟨List.Subset.trans hv (List.subset_append_left _ _),
        List.subset_append_right _ _⟩⟩
  · simp at h

theorem foldl_discoverName_fewer {dir dir' : Dir} {names names' : List JsString}
    (hs : names'.Sublist names) (hl : ∀ n ∈ names', dir'.lookup n = dir.lookup n)
    {found found' : Discovery} (hv : found'.valid ⊆ found.valid) (hi : found'.invalid = [])
    (h : (names.foldl (discoverName ν dir) found).invalid = []) :
    (names'.foldl (discoverName ν dir') found').invalid = [] := by
  induction hs generalizing found found' with
  | slnil => exact hi
  | @cons l1 l2 name _ ih =>
    exact ih hl (List.Subset.trans hv (discoverName_grows dir found name).1) hi h
  | @cons_cons l1 l2 name _ ih =>
    have hstep : (discoverName ν dir found name).invalid = [] := foldl_discoverName_invalid h
    obtain ⟨hi', hv'⟩ := discoverName_fewer (hl name List.mem_cons_self) hv hi hstep
    exact ih (fun n hn => hl n (List.mem_cons_of_mem name hn)) hv' hi' h

theorem discoverSegments_remove_invalid {files : ManifestFiles} (names : List JsString)
    (h : (discoverSegments ν files).invalid = []) :
    (discoverSegments ν (remove files names)).invalid = [] := by
  unfold discoverSegments remove at *
  cases e : files.segments with
  | none => rfl
  | some dir =>
    rw [e] at h
    simp only [Option.map_some] at h ⊢
    rw [keys_foldl_erase, ← filter_mergeSort unitLe_trans unitLe_total]
    refine foldl_discoverName_fewer List.filter_sublist ?_ (List.Subset.refl _) rfl h
    intro n hn
    have hm : n ∉ names := by simpa using (List.mem_filter.mp hn).2
    rw [lookup_foldl_erase, if_neg hm]

theorem discoverSegments_remove_valid (files : ManifestFiles) (names : List JsString) :
    (discoverSegments ν (remove files names)).valid =
      (discoverSegments ν files).valid.filter fun n => n ∉ names := by
  cases e : files.segments with
  | none => simp [discoverSegments, remove, e]
  | some dir =>
    have e' : (remove files names).segments =
        some (names.foldl (fun dir name => dir.erase name) dir) := by
      rw [remove, e]
      rfl
    rw [discoverSegments_valid e, discoverSegments_valid e', keys_foldl_erase,
      ← filter_mergeSort unitLe_trans unitLe_total, List.filter_filter, List.filter_filter]
    apply List.filter_congr
    intro n _
    exact Bool.and_comm _ _

end

/-! ## The first line -/

/-- A first line that is not blank, and that ends within 65536 bytes. -/
def FirstLineRead : Option Bytes → Prop
  | none => False
  | some bytes => (10 ∈ bytes.take 65536 ∨ bytes.length < 65536) ∧
      notBlank ((utf8Decode bytes).takeWhile fun c => c ≠ 10) = true

theorem splitLines_head (s : JsString) :
    ∃ rest, splitLines s = s.takeWhile (fun c => c ≠ 10) :: rest := by
  induction s with
  | nil => exact ⟨[], rfl⟩
  | cons c s ih =>
    obtain ⟨rest, h⟩ := ih
    rw [splitLines]
    by_cases hc : c = 10
    · rw [if_pos hc]
      exact ⟨splitLines s, by simp [hc]⟩
    · rw [if_neg hc, h]
      exact ⟨rest, by simp [hc]⟩

/-- The bounded read finds the first entry there is exactly when the first line can be read. -/
theorem firstEntryOf_iff {file : Option Bytes} {line : JsString} {lines : List JsString}
    {first : Json ν} (hl : linesOf file = line :: lines) (hp : parseJson line = some first) :
    firstEntryOf file = .entry first ↔ FirstLineRead file := by
  cases file with
  | none => cases hl
  | some bytes =>
    have hcap : (10 ∉ utf8Decode (bytes.take 65536) ∧ 65536 ≤ bytes.length) ↔
        ¬(10 ∈ bytes.take 65536 ∨ bytes.length < 65536) := by
      rw [lineFeed_mem_utf8Decode_iff, not_or, Nat.not_lt]
    unfold firstEntryOf FirstLineRead
    simp only
    by_cases hc : 10 ∈ bytes.take 65536 ∨ bytes.length < 65536
    · have hn : ¬(10 ∉ utf8Decode (bytes.take 65536) ∧ 65536 ≤ bytes.length) :=
        fun h => hcap.mp h hc
      obtain ⟨rest, hs⟩ := splitLines_chunk hn
      obtain ⟨rest', hs'⟩ := splitLines_head (utf8Decode bytes)
      have hfirst : (utf8Decode (bytes.take 65536)).takeWhile (fun c => c ≠ 10) =
          (utf8Decode bytes).takeWhile (fun c => c ≠ 10) := by
        rw [hs'] at hs
        exact (List.cons.inj hs).1.symm
      rw [if_neg hn, hfirst]
      by_cases hb : notBlank ((utf8Decode bytes).takeWhile fun c => c ≠ 10) = true
      · have he : (utf8Decode bytes).takeWhile (fun c => c ≠ 10) = line := by
          rw [linesOf, rawLines, hs', List.filter_cons_of_pos hb] at hl
          exact (List.cons.inj hl).1
        rw [if_pos hb, he, hp]
        exact ⟨fun _ => ⟨hc, he ▸ hb⟩, fun _ => rfl⟩
      · rw [if_neg hb]
        exact ⟨fun h => (by cases h), fun h => absurd h.2 hb⟩
    · rw [if_pos (hcap.mpr hc)]
      exact ⟨fun h => (by cases h), fun h => absurd h.1 hc⟩

/-- What the bounded read takes for an entry is the first entry there is. -/
theorem firstEntryOf_unique {file : Option Bytes} {line : JsString} {lines : List JsString}
    {first other : Json ν} (hl : linesOf file = line :: lines) (hp : parseJson line = some first)
    (h : firstEntryOf file = .entry other) : other = first := by
  obtain ⟨line', rest, hl', hp'⟩ := firstEntryOf_entry h
  rw [hl] at hl'
  rw [← (List.cons.inj hl').1, hp] at hp'
  exact (Option.some.inj hp').symm

theorem readSegment_first {files : ManifestFiles} {name : JsString} {parsed : ParsedSegment ν}
    (h : readSegment files name = some parsed) :
    parsed.lines = readRawLines (files.segmentFile name) ∧
      ∃ line lines, linesOf (files.segmentFile name) = line :: lines ∧
        parseJson line = some (.obj parsed.first) := by
  have hlines : linesOf (files.segmentFile name) = (readRawLines (files.segmentFile name)).map Prod.fst :=
    (map_fst_readRawLines _).symm
  unfold readSegment at h
  simp only at h
  split at h
  · rename_i first last hf hlast
    obtain ⟨l, hl, hp⟩ := Option.bind_eq_some_iff.mp hf
    obtain ⟨rest, e⟩ := List.head?_eq_some_iff.mp hl
    rw [e, List.map_cons] at hlines
    have hparsed : parsed.lines = readRawLines (files.segmentFile name) ∧ parsed.first = first := by
      split at h
      all_goals
        obtain rfl := Option.some.inj h
        exact ⟨rfl, rfl⟩
    rw [hparsed.2]
    exact ⟨hparsed.1, l.1, rest.map Prod.fst, hlines, hp⟩
  · cases h

/-! ## The two gates -/

theorem authenticate_ok_iff {files : ManifestFiles} {name key : JsString} {allowChainOnly : Bool}
    {parsed : ParsedSegment ν} (hl : parsed.lines = readRawLines (files.segmentFile name)) :
    authenticate parsed (some key) allowChainOnly = .ok true ↔
      ChainOk ν ⟨some key, false, true⟩ (linesOf (files.segmentFile name)) ∧
        isV2 (.obj parsed.first) = true ∧ entrySigValid key (.obj parsed.first) = .ok true := by
  rw [← verifyChain_valid_iff, authenticate, hl]
  constructor
  · intro h
    obtain ⟨chain, hc, h⟩ := bind_eq_ok.mp h
    by_cases hv : chain.valid = true
    · simp only [hv, Bool.not_true, Bool.false_eq_true, if_false] at h
      by_cases h2 : isV2 (.obj parsed.first) = true
      · rw [if_pos h2] at h
        exact ⟨⟨chain, hc, hv⟩, h2, h⟩
      · rw [if_neg h2] at h
        cases h
    · simp only [hv] at h
      cases h
  · rintro ⟨⟨chain, hc, hv⟩, h2, hs⟩
    rw [hc]
    simp only [bind, Except.bind, hv, Bool.not_true, Bool.false_eq_true, if_false, h2, if_true, hs]

theorem isChainIntactFrom_cons {key line : JsString} {state next : ChainState ν} {ms : Members ν}
    (lines : List JsString) (seen : Bool) (ha : Accepts ⟨some key, false, true⟩ state line ms next)
    (hv : entrySigValid key (.obj ms : Json ν) = .ok true)
    (hq : next.prevSeq = JsNumber.add state.prevSeq (JsNumber.ofNat 1)) :
    isChainIntactFrom (some key) state.prevRawLine state.prevSeq seen (line :: lines) =
      isChainIntactFrom (some key) (some line) next.prevSeq true lines := by
  have hsig : ∃ v, (Json.obj ms).get? (js "sig") = some v := by
    have hh := hasSig_of_valid hv
    unfold hasSig at hh
    cases hg : (Json.obj ms).get? (js "sig") with
    | none =>
      rw [hg] at hh
      cases hh
    | some v => exact ⟨v, rfl⟩
  obtain ⟨v, hv'⟩ := hsig
  have hanchor : ((Json.obj ms).get? (js "anchor")).isSome = state.prevRawLine.isNone := by
    have h := ha.anchor
    rwa [Bool.and_true] at h
  have hprev : linksTo ((Json.obj ms).get? (js "prev")) state.prevRawLine = true := ha.prev
  have hseq : eqNum ((Json.obj ms).get? (js "seq"))
      (JsNumber.add state.prevSeq (JsNumber.ofNat 1)) = true := by
    rw [← hq]
    exact eqNum_iff.mpr ha.seq
  rw [isChainIntactFrom, ha.parsed]
  simp only [hanchor, hprev, hseq, hv', hv, ne_eq, not_true_eq_false, if_false, Bool.not_true,
    Bool.false_eq_true, hq]

/-- After a signed entry a chain that verifies is intact: every entry of it is signed. -/
theorem isChainIntactFrom_of_acceptsAll {key : JsString} {lines : List JsString}
    {state last : ChainState ν} (hp : state.prevRawLine.isNone = false)
    (hs : state.seenSignedEntry = true) (h : AcceptsAll ⟨some key, false, true⟩ state lines last) :
    isChainIntactFrom (some key) state.prevRawLine state.prevSeq true lines = .ok true := by
  induction lines generalizing state with
  | nil => rfl
  | cons line lines ih =>
    obtain ⟨ms, next, ha, hrest⟩ := h
    have hsigned : entrySigValid key (.obj ms : Json ν) = .ok true ∧ next.seenSignedEntry = true := by
      rcases ha.signature with hv | ⟨-, -, hseen, -⟩
      · exact hv
      · rw [hs] at hseen
        cases hseen
    have hq : next.prevSeq = JsNumber.add state.prevSeq (JsNumber.ofNat 1) := by
      have hc := ha.contiguous
      rwa [hp] at hc
    have hnext : next.prevRawLine.isNone = false := by
      rw [ha.line]
      rfl
    have hrest := ih hnext hsigned.2 hrest
    rw [ha.line] at hrest
    rw [isChainIntactFrom_cons lines true ha hsigned.1 hq]
    exact hrest

/-- A chain that verifies and whose first entry carries the key's version-2 signature passes the
gate of recovery. -/
theorem segmentAuthenticated_of_chainOk {files : ManifestFiles} {name key line : JsString}
    {lines : List JsString} {first : Members ν} (hl : linesOf (files.segmentFile name) = line :: lines)
    (hp : parseJson line = some (.obj first))
    (hc : ChainOk ν ⟨some key, false, true⟩ (linesOf (files.segmentFile name)))
    (h2 : isV2 (.obj first : Json ν) = true) (hs : entrySigValid key (.obj first : Json ν) = .ok true) :
    segmentAuthenticated (ν := ν) files key name = .ok true := by
  have hintact : isChainIntact ν (linesOf (files.segmentFile name)) (some key) = .ok true := by
    obtain ⟨-, last, ha⟩ := hc
    rw [hl] at ha ⊢
    obtain ⟨ms, next, ha, hrest⟩ := ha
    obtain rfl : ms = first := by
      have h := ha.parsed
      rw [hp] at h
      exact (Json.obj.inj (Option.some.inj h)).symm
    have hq : next.prevSeq = JsNumber.add (ChainState.init : ChainState ν).prevSeq (JsNumber.ofNat 1) := by
      have h01 : JsNumber.add (JsNumber.ofNat 0 : ν) (JsNumber.ofNat 1) = JsNumber.ofNat 1 :=
        JsNumber.add_ofNat 0 1 (by decide)
      have hc : next.prevSeq = JsNumber.ofNat 1 := ha.contiguous
      rw [hc, ChainState.init, h01]
    have hseen : next.seenSignedEntry = true := by
      rcases ha.signature with hv | ⟨hn, -⟩
      · exact hv.2
      · rw [hasSig_of_valid hs] at hn
        cases hn
    have hnext : next.prevRawLine.isNone = false := by
      rw [ha.line]
      rfl
    have hrest := isChainIntactFrom_of_acceptsAll hnext hseen hrest
    rw [ha.line] at hrest
    have hcons := isChainIntactFrom_cons lines false ha hs hq
    rw [isChainIntact, if_neg (List.cons_ne_nil _ _)]
    exact hcons.trans hrest
  rw [segmentAuthenticated, hintact, hl]
  simp only [List.head?_cons, Option.bind_some, hp, Option.getD_some, h2, if_true, hs]
  rfl

section

variable [Unicode]

/-- What the command asks before it publishes a token for the segment. -/
structure Adoptable (ν : Type) [JsNumber ν] (co : Checkout) (files : ManifestFiles) (key : JsString)
    (token : LineageToken) : Prop where
  segmented : isSegmentedRepo ν files = true
  branch : co.currentBranch = some token.branch
  conforming : (discoverSegments ν files).invalid = []
  readable : ∀ name ∈ (discoverSegments ν files).valid,
    ∃ parsed : ParsedSegment ν, readSegment files name = some parsed
  ulid : ulidOf token.segment = token.ulid ∧ token.ulid ≠ []
  segment : ∃ parsed : ParsedSegment ν, token.segment ∈ (discoverSegments ν files).valid ∧
    readSegment files token.segment = some parsed ∧
    parsed.first.lookup (js "branch") = some (.str token.branch) ∧
    ChainOk ν ⟨some key, false, true⟩ (linesOf (files.segmentFile token.segment)) ∧
    isV2 (.obj parsed.first) = true ∧ entrySigValid key (.obj parsed.first) = .ok true

theorem mem_parsedByName {files : ManifestFiles} {name : JsString} {parsed : ParsedSegment ν} :
    (name, parsed) ∈ parsedByName ν files ↔
      name ∈ (discoverSegments ν files).valid ∧ readSegment files name = some parsed := by
  unfold parsedByName
  rw [List.mem_filterMap]
  constructor
  · rintro ⟨n, hn, h⟩
    obtain ⟨p, hp, e⟩ := Option.map_eq_some_iff.mp h
    obtain ⟨rfl, rfl⟩ := Prod.mk.inj e
    exact ⟨hn, hp⟩
  · rintro ⟨hn, hp⟩
    refine ⟨name, hn, ?_⟩
    rw [hp]
    rfl

theorem find?_parsedByName {files : ManifestFiles} {name : JsString} {parsed : ParsedSegment ν} :
    (parsedByName ν files).find? (fun p => p.1 = name) = some (name, parsed) ↔
      name ∈ (discoverSegments ν files).valid ∧ readSegment files name = some parsed := by
  rw [← mem_parsedByName]
  constructor
  · exact List.mem_of_find?_eq_some
  · intro h
    cases hf : (parsedByName ν files).find? fun p => p.1 = name with
    | none =>
      have hne := List.find?_eq_none.mp hf _ h
      simp at hne
    | some p =>
      have hname : p.1 = name := by simpa using List.find?_some hf
      have hm : (name, p.2) ∈ parsedByName ν files := hname ▸ List.mem_of_find?_eq_some hf
      have e := (mem_parsedByName.mp hm).2
      rw [(mem_parsedByName.mp h).2] at e
      rw [Option.some.inj e, ← hname]

theorem planSegment_adopted_iff {files : ManifestFiles} {key branch : JsString}
    {segment : Option JsString} {allowChainOnly : Bool} {b s : JsString} {token : LineageToken} :
    planSegment (ν := ν) files (some key) allowChainOnly branch segment = .ok (.adopted b s token) ↔
      b = branch ∧ segment = some s ∧ token = ⟨s, ulidOf s, branch⟩ ∧ ulidOf s ≠ [] ∧
      ∃ parsed : ParsedSegment ν, s ∈ (discoverSegments ν files).valid ∧
        readSegment files s = some parsed ∧
        parsed.first.lookup (js "branch") = some (.str branch) ∧
        authenticate parsed (some key) allowChainOnly = .ok true := by
  unfold planSegment
  cases segment with
  | none =>
    constructor
    · intro h
      obtain ⟨candidates, -, h⟩ := bind_eq_ok.mp h
      cases h
    · rintro ⟨-, h, -⟩
      cases h
  | some name =>
    simp only
    cases hf : (parsedByName ν files).find? fun p => p.1 = name with
    | none =>
      constructor
      · intro h
        obtain ⟨candidates, -, h⟩ := bind_eq_ok.mp h
        cases h
      · rintro ⟨-, h, -, -, parsed, hm, hr, -⟩
        obtain rfl := Option.some.inj h
        rw [find?_parsedByName.mpr ⟨hm, hr⟩] at hf
        cases hf
    | some p =>
      obtain ⟨n, parsed⟩ := p
      obtain rfl : n = name := by simpa using List.find?_some hf
      obtain ⟨hm, hr⟩ := find?_parsedByName.mp hf
      simp only
      by_cases hb : eqStr (parsed.first.lookup (js "branch")) branch = true
      swap
      · rw [Bool.not_eq_true] at hb
        simp only [hb, Bool.not_false, if_true]
        constructor
        · intro h
          cases h
        · rintro ⟨-, h, -, -, parsed', -, hr', hb', -⟩
          obtain rfl := Option.some.inj h
          rw [hr, Option.some.injEq] at hr'
          rw [hr', eqStr_iff.mpr hb'] at hb
          cases hb
      simp only [hb, Bool.not_true, Bool.false_eq_true, if_false]
      constructor
      · intro h
        obtain ⟨ok, hok, h⟩ := bind_eq_ok.mp h
        cases ok
        · cases h
        · simp only [Bool.not_true, Bool.false_eq_true, if_false] at h
          by_cases hu : ulidOf n = []
          · rw [if_pos hu] at h
            cases h
          · rw [if_neg hu] at h
            cases h
            exact ⟨rfl, rfl, rfl, hu, parsed, hm, hr, eqStr_iff.mp hb, hok⟩
      · rintro ⟨rfl, h, rfl, hu, parsed', -, hr', -, hok⟩
        obtain rfl := Option.some.inj h
        rw [hr] at hr'
        obtain rfl := Option.some.inj hr'
        simp only [hok, bind, Except.bind, Bool.not_true, Bool.false_eq_true, if_false, if_neg hu]
        rfl

theorem planAdopt_adopted_iff {co : Checkout} {files : ManifestFiles} {key : JsString}
    {segment : Option JsString} {b s : JsString} {token : LineageToken} :
    planAdopt ν co files (some key) segment = .ok (.adopted b s token) ↔
      b = token.branch ∧ s = token.segment ∧ segment = some token.segment ∧
        Adoptable ν co files key token := by
  have hunread : (discoverSegments ν files).valid.filter
      (fun name => (readSegment (ν := ν) files name).isNone) = [] ↔
      ∀ name ∈ (discoverSegments ν files).valid,
        ∃ parsed : ParsedSegment ν, readSegment files name = some parsed := by
    simp [List.filter_eq_nil_iff, Option.ne_none_iff_exists']
  unfold planAdopt
  cases hs : isSegmentedRepo ν files
  · constructor
    · intro h
      cases h
    · rintro ⟨-, -, -, h⟩
      rw [h.segmented] at hs
      cases hs
  cases hc : co.currentBranch with
  | none =>
    constructor
    · intro h
      cases h
    · rintro ⟨-, -, -, h⟩
      rw [h.branch] at hc
      cases hc
  | some branch =>
    simp only [Bool.not_true, Bool.false_eq_true, if_false, reduceCtorEq, and_false]
    by_cases hi : (discoverSegments ν files).invalid = []
    swap
    · rw [if_pos hi]
      constructor
      · intro h
        cases h
      · rintro ⟨-, -, -, h⟩
        exact absurd h.conforming hi
    rw [if_neg (fun h => h hi)]
    by_cases hr : (discoverSegments ν files).valid.filter
        (fun name => (readSegment (ν := ν) files name).isNone) = []
    swap
    · rw [if_pos hr]
      constructor
      · intro h
        cases h
      · rintro ⟨-, -, -, h⟩
        exact absurd (hunread.mpr h.readable) hr
    rw [if_neg (fun h => h hr), planSegment_adopted_iff]
    constructor
    · rintro ⟨rfl, rfl, rfl, hu, parsed, hm, hp, hb, ha⟩
      obtain ⟨hchain, h2, hv⟩ := (authenticate_ok_iff (readSegment_first hp).1).mp ha
      exact ⟨rfl, rfl, rfl, hs, hc, hi, hunread.mp hr, ⟨rfl, hu⟩, parsed, hm, hp, hb, hchain, h2, hv⟩
    · rintro ⟨rfl, rfl, rfl, h⟩
      obtain ⟨parsed, hm, hp, hb, hchain, h2, hv⟩ := h.segment
      obtain ⟨rfl⟩ : branch = token.branch := Option.some.inj (hc.symm.trans h.branch)
      refine ⟨rfl, rfl, ?_, ?_, parsed, hm, hp, hb,
        (authenticate_ok_iff (readSegment_first hp).1).mpr ⟨hchain, h2, hv⟩⟩
      · rw [h.ulid.1]
      · rw [h.ulid.1]
        exact h.ulid.2

/-- A token is published exactly for a segment that passes the gate. -/
theorem adopt_wrote_iff {co : Checkout} {files : ManifestFiles} {key : JsString}
    {segment : Option JsString} {write : Bool} {token : LineageToken} :
    (adopt ν co files (some key) segment write).wrote = some token ↔
      write = true ∧ segment = some token.segment ∧ Adoptable ν co files key token := by
  have hplan := fun b s => @planAdopt_adopted_iff ν _ _ co files key segment b s token
  unfold adopt
  cases hp : planAdopt ν co files (some key) segment with
  | error e =>
    constructor
    · intro h
      cases h
    · rintro ⟨-, hs, h⟩
      have e := (hplan token.branch token.segment).mpr ⟨rfl, rfl, hs, h⟩
      rw [hp] at e
      cases e
  | ok plan =>
    have hadopted : plan = .adopted token.branch token.segment token ↔
        segment = some token.segment ∧ Adoptable ν co files key token := by
      have h := hplan token.branch token.segment
      rw [hp, Except.ok.injEq] at h
      rw [h]
      simp
    have hof : ∀ b s, plan = .adopted b s token → b = token.branch ∧ s = token.segment := by
      intro b s e
      have h := (hplan b s).mp (hp.trans (congrArg Except.ok e))
      exact ⟨h.1, h.2.1⟩
    rw [← hadopted]
    simp only
    split
    · rename_i b s t
      have hwrote : t = token ↔ (AdoptPlan.adopted b s t : AdoptPlan ν) =
          .adopted token.branch token.segment token := by
        constructor
        · rintro rfl
          obtain ⟨rfl, rfl⟩ := hof b s rfl
          rfl
        · intro e
          cases e
          rfl
      split_ifs <;> simp [← hwrote]
    · rename_i hne
      constructor
      · intro h
        cases h
      · rintro ⟨rfl, e⟩
        exact absurd rfl (hne token.branch token.segment token e)

/-! ## Recovery after adoption -/

omit [Unicode] in
def declares (files : ManifestFiles) (branch name : JsString) : Bool :=
  match readSegment (ν := ν) files name with
  | none => false
  | some parsed => eqStr (parsed.first.lookup (js "branch")) branch

omit [Unicode] in
/-- Recovery decides among segments that adoption could read exactly when it can read the first
line of each. -/
theorem branchCandidates_iff {files files' : ManifestFiles} {branch : JsString} {names : List JsString}
    (hfile : ∀ n ∈ names, files'.segmentFile n = files.segmentFile n)
    (hread : ∀ n ∈ names, ∃ parsed : ParsedSegment ν, readSegment files n = some parsed)
    {candidates : List JsString} :
    branchCandidates ν files' branch names = .ok candidates ↔
      (∀ n ∈ names, FirstLineRead (files.segmentFile n)) ∧
        candidates = names.filter (declares (ν := ν) files branch) := by
  induction names generalizing candidates with
  | nil => simp [branchCandidates, eq_comm]
  | cons n names ih =>
    obtain ⟨parsed, hp⟩ := hread n List.mem_cons_self
    obtain ⟨-, line, lines, hl, hparse⟩ := readSegment_first hp
    have hfirst := firstEntryOf_iff (ν := ν) hl hparse
    have hrest := fun c => @ih (fun m hm => hfile m (List.mem_cons_of_mem n hm))
      (fun m hm => hread m (List.mem_cons_of_mem n hm)) c
    have hdeclares : declares (ν := ν) files branch n =
        eqStr ((Json.obj parsed.first).get? (js "branch")) branch := by
      rw [declares, hp]
      rfl
    rw [branchCandidates, hfile n List.mem_cons_self, List.forall_mem_cons]
    constructor
    · intro h
      split at h
      · cases h
      · cases h
      · rename_i first hf
        obtain rfl := firstEntryOf_unique hl hparse hf
        obtain ⟨rest, hr, e⟩ := map_eq_ok.mp h
        obtain ⟨hall, rfl⟩ := (hrest rest).mp hr
        refine ⟨⟨hfirst.mp hf, hall⟩, ?_⟩
        rw [← e, List.filter_cons, hdeclares]
    · rintro ⟨⟨hn, hall⟩, rfl⟩
      rw [hfirst.mpr hn, List.filter_cons, hdeclares]
      simp only
      rw [(hrest _).mpr ⟨hall, rfl⟩]
      rfl

theorem mem_rivals {files : ManifestFiles} {token : LineageToken} {name : JsString} :
    name ∈ rivals ν files token ↔ name ≠ token.segment ∧ name ∈ (discoverSegments ν files).valid ∧
      declares (ν := ν) files token.branch name = true := by
  unfold rivals declares
  simp only [List.mem_map, List.mem_filter, Prod.exists, mem_parsedByName, Bool.and_eq_true,
    decide_eq_true_eq]
  constructor
  · rintro ⟨n, parsed, ⟨⟨hm, hp⟩, hne, hb⟩, rfl⟩
    rw [hp]
    exact ⟨hne, hm, hb⟩
  · rintro ⟨hne, hm, hb⟩
    split at hb
    · cases hb
    · rename_i parsed hp
      exact ⟨name, parsed, ⟨⟨hm, hp⟩, hne, hb⟩, rfl⟩

/-- Of a store without rivals, the token's segment is the one that declares the branch. -/
theorem filter_declares_withoutRivals {co : Checkout} {files : ManifestFiles} {key : JsString}
    {token : LineageToken} (h : Adoptable ν co files key token) :
    (discoverSegments ν (withoutRivals ν files token)).valid.filter
      (declares (ν := ν) files token.branch) = [token.segment] := by
  obtain ⟨parsed, hm, hp, hb, -⟩ := h.segment
  have hnodup : ((discoverSegments ν (withoutRivals ν files token)).valid.filter
      (declares (ν := ν) files token.branch)).Nodup := (discoverSegments_nodup (ν := ν)).filter _
  apply List.perm_singleton.mp
  rw [List.perm_ext_iff_of_nodup hnodup (List.nodup_singleton _)]
  intro name
  rw [withoutRivals, discoverSegments_remove_valid, List.mem_filter, List.mem_filter,
    List.mem_singleton]
  simp only [decide_eq_true_eq, List.mem_cons, mem_rivals, not_or]
  constructor
  · rintro ⟨⟨hn, -, hr⟩, hd⟩
    by_contra hne
    exact hr ⟨hne, hn, hd⟩
  · rintro rfl
    have hlineage : token.segment ≠ lineageName := by
      intro e
      have hs := (mem_discoverSegments.mp hm).2
      rw [e, isSegmentName_reserved.2] at hs
      cases hs
    refine ⟨⟨hm, hlineage, fun hr => hr.1 rfl⟩, ?_⟩
    rw [declares, hp]
    exact eqStr_iff.mpr hb

theorem segmentFile_withoutRivals {files : ManifestFiles} {token : LineageToken} {name : JsString}
    (h : name ∈ (discoverSegments ν (withoutRivals ν files token)).valid) :
    (withoutRivals ν files token).segmentFile name = files.segmentFile name := by
  rw [withoutRivals, discoverSegments_remove_valid, List.mem_filter, decide_eq_true_eq] at h
  rw [withoutRivals, segmentFile_remove, if_neg h.2]

/-- Recovery decides on a store without rivals as it decides among the segments left. -/
theorem branchCandidates_adoptable {co : Checkout} {files : ManifestFiles} {key : JsString}
    {token : LineageToken} (h : Adoptable ν co files key token) (candidates : List JsString) :
    branchCandidates ν (withoutRivals ν files token) token.branch
        (discoverSegments ν (withoutRivals ν files token)).valid = .ok candidates ↔
      (∀ name ∈ (discoverSegments ν (withoutRivals ν files token)).valid,
        FirstLineRead (files.segmentFile name)) ∧ candidates = [token.segment] := by
  rw [← filter_declares_withoutRivals h]
  apply branchCandidates_iff (fun n hn => segmentFile_withoutRivals hn)
  intro n hn
  rw [withoutRivals, discoverSegments_remove_valid] at hn
  exact h.readable n (List.mem_filter.mp hn).1

theorem continueSegment_adoptable {co : Checkout} {files : ManifestFiles} {key : JsString}
    {token : LineageToken} (h : Adoptable ν co files key token) (found : Option JsString) :
    continueSegment ν (withoutRivals ν files token) (some key) (some token.branch) = .ok found ↔
      (∀ name ∈ (discoverSegments ν (withoutRivals ν files token)).valid,
        FirstLineRead (files.segmentFile name)) ∧ found = some token.segment := by
  obtain ⟨parsed, hm, hp, hb, hchain, h2, hv⟩ := h.segment
  obtain ⟨-, line, lines, hl, hparse⟩ := readSegment_first hp
  have hpeek : peekOpenSegment ν (withoutRivals ν files token) (some token.branch) = none := by
    have hlineage : (withoutRivals ν files token).segmentFile lineageName = none := by
      rw [withoutRivals, segmentFile_remove, if_pos List.mem_cons_self]
    unfold peekOpenSegment
    rw [readLineageToken, hlineage]
    rfl
  have hinvalid : (discoverSegments ν (withoutRivals ν files token)).invalid = [] :=
    discoverSegments_remove_invalid _ h.conforming
  have hmem : token.segment ∈ (discoverSegments ν (withoutRivals ν files token)).valid := by
    have hs : token.segment ∈ [token.segment] := List.mem_singleton_self _
    rw [← filter_declares_withoutRivals h] at hs
    exact (List.mem_filter.mp hs).1
  have hauth : segmentAuthenticated (ν := ν) (withoutRivals ν files token) key token.segment = .ok true := by
    have hfile := segmentFile_withoutRivals hmem
    rw [← hfile] at hl hchain
    exact segmentAuthenticated_of_chainOk hl hparse hchain h2 hv
  have hcandidates := branchCandidates_adoptable h
  unfold continueSegment recoverOpenSegment
  simp only [hpeek, hinvalid, ne_eq, not_true_eq_false, if_false]
  cases hc : branchCandidates ν (withoutRivals ν files token) token.branch
      (discoverSegments ν (withoutRivals ν files token)).valid with
  | error e =>
    constructor
    · intro hres
      cases hres
    · rintro ⟨hall, -⟩
      have hok := (hcandidates [token.segment]).mpr ⟨hall, rfl⟩
      rw [hc] at hok
      cases hok
  | ok candidates =>
    obtain ⟨hall, rfl⟩ := (hcandidates candidates).mp hc
    simp only [bind, Except.bind, hauth, if_true, pure, Except.pure, Except.ok.injEq]
    exact ⟨fun e => ⟨hall, e.symm⟩, fun e => e.2.symm⟩

/-- Recovery of an adopted segment, when there is no token and no rival, returns the segment or
throws; it returns exactly when the first line of every segment left can be read. -/
theorem resolveOpenSegment_adoptable {co : Checkout} {files : ManifestFiles} {key : JsString}
    {token : LineageToken} (h : Adoptable ν co files key token) (r : OpenSegment ν × ManifestFiles) :
    resolveOpenSegment co (some key) (withoutRivals ν files token) = .ok r ↔
      (∀ name ∈ (discoverSegments ν (withoutRivals ν files token)).valid,
        FirstLineRead (files.segmentFile name)) ∧
        r = (OpenSegment.existing token.segment, withoutRivals ν files token) := by
  have hcontinue := continueSegment_adoptable h
  unfold resolveOpenSegment
  simp only [h.branch, reduceCtorEq, and_false, if_false]
  constructor
  · intro hres
    obtain ⟨found, hfound, hres⟩ := bind_eq_ok.mp hres
    obtain ⟨hall, rfl⟩ := (hcontinue found).mp hfound
    exact ⟨hall, (Except.ok.inj hres).symm⟩
  · rintro ⟨hall, rfl⟩
    rw [(hcontinue (some token.segment)).mpr ⟨hall, rfl⟩]
    rfl

/-- A segment that was adopted is one that recovery returns, when there is no token and no rival,
exactly when the first line of every segment left is not blank and within the bounded read. -/
theorem adopt_recovered_iff {co : Checkout} {files : ManifestFiles} {key : JsString}
    {segment : Option JsString} {write : Bool} {token : LineageToken}
    (h : (adopt ν co files (some key) segment write).wrote = some token) :
    resolveOpenSegment co (some key) (withoutRivals ν files token) =
        .ok (OpenSegment.existing (ν := ν) token.segment, withoutRivals ν files token) ↔
      ∀ name ∈ (discoverSegments ν (withoutRivals ν files token)).valid,
        FirstLineRead (files.segmentFile name) := by
  obtain ⟨-, -, hadoptable⟩ := adopt_wrote_iff.mp h
  rw [resolveOpenSegment_adoptable hadoptable]
  exact ⟨fun hr => hr.1, fun hall => ⟨hall, rfl⟩⟩

end

/-! ### A segment that is adopted, and one that recovery refuses -/

def mainCheckout : Checkout := ⟨some (js "main"), .clear, [], 0, []⟩

def mainToken : LineageToken := ⟨emptySegmentName, ulidOf emptySegmentName, victimBranch⟩

/-- The signed segment after a blank line. -/
def afterBlankLine : ManifestFiles :=
  ManifestFiles.writeSegmentFile (segmentOf branchEntry) emptySegmentName
    (10 :: appendLine none (stringify (.obj branchEntry)))

theorem segmentFile_afterBlankLine (name : JsString) :
    afterBlankLine.segmentFile name =
      if name = emptySegmentName then some (10 :: appendLine none (stringify (.obj branchEntry)))
      else (segmentOf branchEntry).segmentFile name := segmentFile_writeSegmentFile _ _ _ _

theorem linesOf_afterBlankLine :
    linesOf (afterBlankLine.segmentFile emptySegmentName) = [stringify (.obj branchEntry)] := by
  have hascii : (10 : UInt8).toNat < 0x80 := by decide
  have hsplit : ∀ s : JsString, rawLines (10 :: s) = rawLines s := by
    intro s
    rw [rawLines, rawLines, splitLines, if_pos rfl, List.filter_cons_of_neg (by decide)]
  have hlines := linesOf_segmentOf branchEntry
  rw [segmentFile_segmentOf branchEntry _ (by decide), if_pos rfl] at hlines
  rw [segmentFile_afterBlankLine, if_pos rfl, linesOf, utf8Decode_one _ hascii]
  exact (hsplit _).trans hlines

theorem discoverSegments_afterBlankLine :
    @discoverSegments Int _ asciiUnicode afterBlankLine = ⟨[emptySegmentName], []⟩ := by
  have hdir : ∀ dir ∈ afterBlankLine.segments, SegmentDir dir :=
    segmentDir_writeSegmentFile _ (Or.inr (Or.inr isSegmentName_emptySegmentName))
      (segmentDir_segmentOf branchEntry)
  apply discoverSegments_only hdir _ isSegmentName_emptySegmentName
  intro name hn
  rw [segmentFile_afterBlankLine, segmentFile_segmentOf _ _ (isSegmentName_ne hn).1]
  by_cases hne : name = emptySegmentName
  · simp [hne]
  · simp [hne]

/-- The signed entry alone is a chain. -/
theorem chainOk_branchEntry :
    ChainOk Int ⟨some chainKey, false, true⟩ [stringify (.obj branchEntry)] := by
  refine ⟨fun _ => List.cons_ne_nil _ _,
    ⟨some (stringify (.obj branchEntry)), 1, some .null, true⟩, branchEntry, _, ?_, rfl⟩
  exact ⟨parseJson_stringify branchEntry_isJson, rfl, rfl, rfl, linksTo_iff.mpr rfl, rfl, rfl, rfl,
    Or.inl ⟨branchEntry_valid, rfl⟩, rfl⟩

/-- A store whose one segment holds the signed entry can be adopted. -/
theorem adoptable_branchEntry {files : ManifestFiles}
    (hsegmented : isSegmentedRepo Int files = true)
    (hfound : @discoverSegments Int _ asciiUnicode files = ⟨[emptySegmentName], []⟩)
    (hlines : linesOf (files.segmentFile emptySegmentName) = [stringify (.obj branchEntry)]) :
    @Adoptable asciiUnicode Int _ mainCheckout files chainKey mainToken := by
  have hparse := parseJson_stringify branchEntry_isJson
  obtain ⟨parsed, hp, hfirst⟩ : ∃ parsed : ParsedSegment Int,
      readSegment files emptySegmentName = some parsed ∧ parsed.first = branchEntry := by
    obtain ⟨p, hraw⟩ : ∃ p, readRawLines (files.segmentFile emptySegmentName) = [p] := by
      rw [← map_fst_readRawLines] at hlines
      exact List.length_eq_one_iff.mp (by simpa using congrArg List.length hlines)
    have hline : p.1 = stringify (.obj branchEntry) := by
      rw [← map_fst_readRawLines, hraw] at hlines
      exact (List.cons.inj hlines).1
    refine ⟨⟨[p], branchEntry, .obj branchEntry⟩, ?_, rfl⟩
    rw [readSegment, hraw]
    simp only [List.head?_cons, List.getLast?_singleton, Option.bind_some, hline, hparse]
  refine @Adoptable.mk asciiUnicode Int _ _ _ _ _ hsegmented (by decide) ?_ ?_ (by decide) ⟨parsed, ?_⟩
  · rw [hfound]
  · rw [hfound]
    intro name hn
    rw [List.mem_singleton.mp hn]
    exact ⟨parsed, hp⟩
  · rw [hfound, hfirst]
    refine ⟨List.mem_singleton_self _, hp, rfl, ?_, rfl, branchEntry_valid⟩
    exact hlines ▸ chainOk_branchEntry

theorem adopt_recovered_branchEntry :
    @resolveOpenSegment Int _ asciiUnicode mainCheckout (some chainKey)
        (@withoutRivals asciiUnicode Int _ (segmentOf branchEntry) mainToken) =
          .ok (.existing emptySegmentName,
            @withoutRivals asciiUnicode Int _ (segmentOf branchEntry) mainToken) ↔
      ∀ name ∈ (@discoverSegments Int _ asciiUnicode
          (@withoutRivals asciiUnicode Int _ (segmentOf branchEntry) mainToken)).valid,
        FirstLineRead ((segmentOf branchEntry).segmentFile name) := by
  have hadoptable := adoptable_branchEntry (activate_segmented _ _)
    (discoverSegments_segmentOf branchEntry) (linesOf_segmentOf branchEntry)
  exact @adopt_recovered_iff Int _ asciiUnicode mainCheckout (segmentOf branchEntry) chainKey
    (some emptySegmentName) true mainToken
    ((@adopt_wrote_iff Int _ asciiUnicode _ _ _ _ _ _).mpr ⟨rfl, rfl, hadoptable⟩)

/-- A segment that is adopted, and that recovery refuses. -/
theorem blank_line_adopted :
    (@adopt asciiUnicode Int _ mainCheckout afterBlankLine (some chainKey) (some emptySegmentName)
      true).wrote = some mainToken ∧
    ∀ r, ¬@resolveOpenSegment Int _ asciiUnicode mainCheckout (some chainKey)
      (@withoutRivals asciiUnicode Int _ afterBlankLine mainToken) = .ok r := by
  have hsegmented : isSegmentedRepo Int afterBlankLine = true := by
    have h : isSegmentedRepo Int (segmentOf branchEntry) = true := activate_segmented _ _
    have hmarker : afterBlankLine.segmentFile storeMarker =
        (segmentOf branchEntry).segmentFile storeMarker := by
      rw [segmentFile_afterBlankLine, if_neg (by decide)]
    have hroot : afterBlankLine.root = (segmentOf branchEntry).root := rfl
    rw [isSegmentedRepo, hasActivationMarker, rootEndsInCutover] at h ⊢
    rw [hmarker, hroot]
    exact h
  have hadoptable := adoptable_branchEntry hsegmented discoverSegments_afterBlankLine
    linesOf_afterBlankLine
  refine ⟨(@adopt_wrote_iff Int _ asciiUnicode _ _ _ _ _ _).mpr ⟨rfl, rfl, hadoptable⟩, ?_⟩
  intro r hr
  obtain ⟨hall, -⟩ := (@resolveOpenSegment_adoptable Int _ asciiUnicode _ _ _ _ hadoptable r).mp hr
  have hmem : emptySegmentName ∈ (@discoverSegments Int _ asciiUnicode
      (@withoutRivals asciiUnicode Int _ afterBlankLine mainToken)).valid := by
    have hs : emptySegmentName ∈ [mainToken.segment] := List.mem_singleton_self _
    rw [← @filter_declares_withoutRivals Int _ asciiUnicode _ _ _ _ hadoptable] at hs
    exact (List.mem_filter.mp hs).1
  have hread := hall _ hmem
  rw [segmentFile_afterBlankLine, if_pos rfl] at hread
  have hascii : (10 : UInt8).toNat < 0x80 := by decide
  have hblank := hread.2
  rw [utf8Decode_one _ hascii, List.takeWhile_cons_of_neg (by decide)] at hblank
  cases hblank

end Adlc.GateManifest
