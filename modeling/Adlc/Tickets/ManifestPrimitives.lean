import Adlc.Framework.IntNumber
import Adlc.Framework.Lines
import Adlc.Tickets.EntryBytes
import Adlc.Tickets.SegmentNames
import Adlc.Tickets.Store

namespace Adlc.Tickets

open Adlc.Framework

/-- `.adlc/manifest.jsonl` and the regular files of `.adlc/manifest.d`. -/
structure ManifestFiles where
  root : Option Bytes
  segments : Option Dir

def lineageName : JsString := js ".lineage"
def lockSuffix : JsString := js ".lock"

/-- The order of `Array.prototype.sort` on strings. -/
def unitLe (a b : JsString) : Bool := decide (a.map UInt16.toNat ≤ b.map UInt16.toNat)

theorem unitLe_trans (a b c : JsString) (hab : unitLe a b = true) (hbc : unitLe b c = true) :
    unitLe a c = true := by
  rw [unitLe, decide_eq_true_eq] at *
  exact le_trans hab hbc

theorem unitLe_total (a b : JsString) : (unitLe a b || unitLe b a) = true := by
  rw [unitLe, unitLe, Bool.or_eq_true, decide_eq_true_eq, decide_eq_true_eq]
  exact le_total _ _

theorem unitLe_antisymm (a b : JsString) (hab : unitLe a b = true) (hba : unitLe b a = true) :
    a = b := by
  rw [unitLe, decide_eq_true_eq] at hab hba
  refine List.map_injective_iff.mpr ?_ (le_antisymm hab hba)
  intro c d h
  exact UInt16.toNat_inj.mp h

def joinComma (names : List JsString) : JsString := (js ", ").intercalate names

/-! ## Bounded reads -/

variable {ν : Type} [JsNumber ν]

/-- `Boolean(value)` -/
def truthy : Json ν → Bool
  | .null | .bool false => false
  | .num n => decide (n ≠ JsNumber.ofNat 0)
  | .str s => decide (s ≠ [])
  | _ => true

def str? (value : Json ν) (k : JsString) : Option JsString :=
  match value.get? k with
  | some (.str s) => some s
  | _ => none

/-- `{ format, version }` of the activation marker. -/
def markerFormat : JsString := js "adlc-manifest-segments"

/-- Null for a file of 4096 bytes or more, and for one that is no JSON. -/
def readBoundedJson (file : Option Bytes) : Json ν :=
  match file with
  | none => .null
  | some bytes => if 4096 ≤ bytes.length then .null else (parseJson (utf8Decode bytes)).getD .null

def ManifestFiles.segmentFile (files : ManifestFiles) (name : JsString) : Option Bytes :=
  files.segments.bind fun dir => dir.lookup name

def hasActivationMarker (ν : Type) [JsNumber ν] (files : ManifestFiles) : Bool :=
  let parsed : Json ν := readBoundedJson (files.segmentFile storeMarker)
  eqStr (parsed.get? (js "format")) markerFormat &&
    eqNum (parsed.get? (js "version")) (JsNumber.ofNat 1)

/-- The lines of a file that may be missing. -/
def linesOf (file : Option Bytes) : List JsString :=
  match file with
  | none => []
  | some bytes => rawLines (utf8Decode bytes)

def rootEndsInCutover (ν : Type) [JsNumber ν] (files : ManifestFiles) : Bool :=
  match (linesOf files.root).getLast? with
  | none => false
  | some line =>
    match parseJson (ν := ν) line with
    | none => false
    | some last => eqStr (last.get? (js "gate")) (js "manifest-cutover")

def isSegmentedRepo (ν : Type) [JsNumber ν] (files : ManifestFiles) : Bool :=
  hasActivationMarker ν files || rootEndsInCutover ν files

/-! ## Discovery -/

def looksLikeGenuineLedgerLock (ν : Type) [JsNumber ν] (content : Bytes) : Bool :=
  if content = [] then true
  else if 512 ≤ content.length then false
  else
    match parseJson (ν := ν) (trim (utf8Decode content)) with
    | none => false
    | some parsed =>
      (str? parsed (js "token")).isSome &&
        (match parsed.get? (js "pid") with
          | some (.num _) => true
          | _ => false) &&
        (str? parsed (js "hostname")).isSome && (str? parsed (js "startedAt")).isSome

structure Discovery where
  valid : List JsString
  invalid : List (JsString × JsString)

def Discovery.reject (found : Discovery) (name reason : JsString) : Discovery :=
  { found with invalid := found.invalid ++ [(name, reason)] }

def discoverName (ν : Type) [JsNumber ν] [Unicode] (dir : Dir) (found : Discovery)
    (name : JsString) : Discovery :=
  if name = storeMarker ∨ name = lineageName then found
  else if lockSuffix <:+ name then
    if looksLikeGenuineLedgerLock ν ((dir.lookup name).getD []) then found
    else found.reject name (js "lock-suffixed object is not a genuine advisory lock")
  else if isSegmentName name then
    match found.valid.find? fun seen => Unicode.toLowerCase seen = Unicode.toLowerCase name with
    | some seen => found.reject name (js "case-colliding with " ++ seen)
    | none => { found with valid := found.valid ++ [name] }
  else found.reject name (js "bad filename grammar")

def discoverSegments (ν : Type) [JsNumber ν] [Unicode] (files : ManifestFiles) : Discovery :=
  match files.segments with
  | none => ⟨[], []⟩
  | some dir => (dir.keys.mergeSort unitLe).foldl (discoverName ν dir) ⟨[], []⟩

/-! ## What a directory of segments holds -/

/-- Every file of the directory is the marker, the lineage token or a segment. -/
def SegmentDir (dir : Dir) : Prop :=
  ∀ name ∈ dir.keys, name = storeMarker ∨ name = lineageName ∨ isSegmentName name = true

theorem isSegmentName_reserved :
    isSegmentName storeMarker = false ∧ isSegmentName lineageName = false := by decide

theorem not_lockSuffix {name : JsString} (h : isSegmentName name = true) : ¬lockSuffix <:+ name := by
  obtain ⟨slug, ulid, hp⟩ := (isSegmentName_iff name).mp h
  intro hs
  have hj : js ".jsonl" <:+ name := by
    rw [hp.eq, ← List.append_assoc, ← List.append_assoc]
    exact List.suffix_append _ _
  have hle : lockSuffix.length ≤ (js ".jsonl").length := by decide
  have h2 : lockSuffix <:+ js ".jsonl" := List.suffix_of_suffix_length_le hs hj hle
  exact absurd h2 (by decide)

section

variable [Unicode]

theorem discoverName_segment {dir : Dir} {found : Discovery} {name : JsString}
    (h : isSegmentName name = true) (hv : ∀ seen ∈ found.valid, isSegmentName seen = true)
    (hn : name ∉ found.valid) :
    discoverName ν dir found name = { found with valid := found.valid ++ [name] } := by
  have hr : ¬(name = storeMarker ∨ name = lineageName) := by
    rintro (rfl | rfl)
    · exact absurd h (by simp [isSegmentName_reserved.1])
    · exact absurd h (by simp [isSegmentName_reserved.2])
  have hfind : (found.valid.find? fun seen =>
      decide (Unicode.toLowerCase seen = Unicode.toLowerCase name)) = none := by
    rw [List.find?_eq_none]
    intro seen hs
    rw [decide_eq_true_eq]
    intro e
    exact hn (toLowerCase_segmentName_inj (hv seen hs) h e ▸ hs)
  rw [discoverName, if_neg hr, if_neg (not_lockSuffix h), if_pos h, hfind]

theorem discoverName_reserved {dir : Dir} {found : Discovery} {name : JsString}
    (h : name = storeMarker ∨ name = lineageName) : discoverName ν dir found name = found := by
  rw [discoverName, if_pos h]

/-- Among reserved names and segments, discovery finds the segments and rejects nothing. -/
theorem foldl_discoverName {dir : Dir} (names : List JsString) (found : Discovery)
    (hnames : ∀ name ∈ names, name = storeMarker ∨ name = lineageName ∨ isSegmentName name = true)
    (hv : ∀ seen ∈ found.valid, isSegmentName seen = true)
    (hd : (found.valid ++ names).Nodup) :
    names.foldl (discoverName ν dir) found =
      { found with valid := found.valid ++ names.filter isSegmentName } := by
  induction names generalizing found with
  | nil => simp
  | cons name names ih =>
    have hrest := fun n hn => hnames n (List.mem_cons_of_mem name hn)
    rw [List.foldl_cons]
    by_cases hs : isSegmentName name = true
    · have hn : name ∉ found.valid := by
        intro hm
        have h := List.disjoint_of_nodup_append hd
        exact h hm List.mem_cons_self
      rw [discoverName_segment hs hv hn, ih _ hrest, List.filter_cons_of_pos hs]
      · simp
      · intro seen hseen
        rcases List.mem_append.mp hseen with hseen | hseen
        · exact hv seen hseen
        · rw [List.mem_singleton.mp hseen]
          exact hs
      · simpa using hd
    · have hr : name = storeMarker ∨ name = lineageName := by
        rcases hnames name List.mem_cons_self with h | h | h
        · exact Or.inl h
        · exact Or.inr h
        · exact absurd h hs
      rw [discoverName_reserved hr, ih _ hrest hv, List.filter_cons_of_neg hs]
      exact hd.sublist ((List.sublist_cons_self _ _).append_left _)

theorem discoverSegments_eq {files : ManifestFiles} {dir : Dir} (h : files.segments = some dir)
    (hd : SegmentDir dir) :
    discoverSegments ν files = ⟨(dir.keys.mergeSort unitLe).filter isSegmentName, []⟩ := by
  have hp := List.mergeSort_perm dir.keys unitLe
  have hn : ([] ++ dir.keys.mergeSort unitLe).Nodup := hp.nodup_iff.mpr dir.nodupKeys
  have hnames : ∀ name ∈ dir.keys.mergeSort unitLe,
      name = storeMarker ∨ name = lineageName ∨ isSegmentName name = true := by
    intro name hm
    exact hd name (hp.mem_iff.mp hm)
  rw [discoverSegments, h]
  simp only
  rw [foldl_discoverName _ _ hnames (by simp) hn, List.nil_append]

/-- Whatever else stands in the directory, the segments found are the names of a segment's form. -/
theorem foldl_discoverName_valid {dir : Dir} (names : List JsString) (found : Discovery)
    (hv : ∀ seen ∈ found.valid, isSegmentName seen = true) (hd : (found.valid ++ names).Nodup) :
    (names.foldl (discoverName ν dir) found).valid = found.valid ++ names.filter isSegmentName := by
  induction names generalizing found with
  | nil => simp
  | cons name names ih =>
    have hn : name ∉ found.valid := fun hm => List.disjoint_of_nodup_append hd hm List.mem_cons_self
    rw [List.foldl_cons]
    by_cases hs : isSegmentName name = true
    · rw [discoverName_segment hs hv hn, ih, List.filter_cons_of_pos hs]
      · simp
      · intro seen hseen
        rcases List.mem_append.mp hseen with hseen | hseen
        · exact hv seen hseen
        · rw [List.mem_singleton.mp hseen]
          exact hs
      · simpa using hd
    · have hkept : (discoverName ν dir found name).valid = found.valid := by
        unfold discoverName
        split_ifs <;> rfl
      rw [ih, hkept, List.filter_cons_of_neg hs]
      · rw [hkept]
        exact hv
      · rw [hkept]
        exact hd.sublist ((List.sublist_cons_self _ _).append_left _)

theorem discoverSegments_valid {files : ManifestFiles} {dir : Dir} (h : files.segments = some dir) :
    (discoverSegments ν files).valid = (dir.keys.mergeSort unitLe).filter isSegmentName := by
  have hn : ([] ++ dir.keys.mergeSort unitLe).Nodup :=
    (List.mergeSort_perm dir.keys unitLe).nodup_iff.mpr dir.nodupKeys
  rw [discoverSegments, h]
  simp only
  rw [foldl_discoverName_valid _ _ (by simp) hn, List.nil_append]

/-- The segments discovered are the files with a segment's name. -/
theorem mem_discoverSegments {files : ManifestFiles} {name : JsString} :
    name ∈ (discoverSegments ν files).valid ↔
      (files.segmentFile name).isSome = true ∧ isSegmentName name = true := by
  cases e : files.segments with
  | none => simp [discoverSegments, ManifestFiles.segmentFile, e]
  | some dir =>
    rw [discoverSegments_valid e, List.mem_filter, (List.mergeSort_perm _ _).mem_iff,
      ManifestFiles.segmentFile, e]
    simp [AList.lookup_isSome, AList.mem_keys]

theorem discoverSegments_nodup {files : ManifestFiles} : (discoverSegments ν files).valid.Nodup := by
  cases e : files.segments with
  | none => simp [discoverSegments, e]
  | some dir =>
    rw [discoverSegments_valid e]
    exact ((List.mergeSort_perm _ _).nodup_iff.mpr dir.nodupKeys).filter _

theorem discoverSegments_invalid {files : ManifestFiles}
    (h : ∀ dir ∈ files.segments, SegmentDir dir) : (discoverSegments ν files).invalid = [] := by
  cases e : files.segments with
  | none => simp [discoverSegments, e]
  | some dir => rw [discoverSegments_eq e (h dir e)]

end

/-! ## Signatures -/

def signEntry (key : JsString) (entry : Json ν) : Except TicketStoreError JsString :=
  (canonicalEntryBytes entry).map fun text => hmacSha256Hex (utf8Encode key) (utf8Encode text)

def entrySigValid (key : JsString) (entry : Json ν) : Except TicketStoreError Bool :=
  match entry.get? (js "sig") with
  | some (.str sig) =>
    if sig = [] then .ok false
    else (signEntry key entry).map fun expected => decide (utf8Encode sig = utf8Encode expected)
  | _ => .ok false

/-- `prev === (prevRawLine === null ? null : sha256(prevRawLine))` -/
def linksTo (prev : Option (Json ν)) (prevRawLine : Option JsString) : Bool :=
  match prevRawLine with
  | none => (prev matches some .null)
  | some line => eqStr prev (sha256 line)

/-- The loop of `isChainIntact`, from the line after `prevLine` on. -/
def isChainIntactFrom (key : Option JsString) (prevLine : Option JsString) (prevSeq : ν)
    (seenSignedEntry : Bool) : List JsString → Except TicketStoreError Bool
  | [] => .ok true
  | line :: lines =>
    match parseJson (ν := ν) line with
    | some (.obj ms) =>
      let entry : Json ν := .obj ms
      let seq : ν := JsNumber.add prevSeq (JsNumber.ofNat 1)
      let hasAnchor := (entry.get? (js "anchor")).isSome
      if hasAnchor ≠ prevLine.isNone then .ok false
      else if !linksTo (entry.get? (js "prev")) prevLine then .ok false
      else if !eqNum (entry.get? (js "seq")) seq then .ok false
      else
        match key, entry.get? (js "sig") with
        | none, _ => isChainIntactFrom key (some line) seq seenSignedEntry lines
        | some key', some _ =>
          match entrySigValid key' entry with
          | .error e => .error e
          | .ok false => .ok false
          | .ok true => isChainIntactFrom key (some line) seq true lines
        | some _, none =>
          if seenSignedEntry then .ok false
          else isChainIntactFrom key (some line) seq seenSignedEntry lines
    | _ => .ok false

def isChainIntact (ν : Type) [JsNumber ν] (lines : List JsString) (key : Option JsString) :
    Except TicketStoreError Bool :=
  if lines = [] then .ok false
  else isChainIntactFrom key none (JsNumber.ofNat 0 : ν) false lines

/-! ## Lineage -/

/-- What `git check-ignore` says of a segment's path. -/
inductive CheckIgnore where
  | outside | ignored | clear | failed
  deriving DecidableEq

/-- What a call finds outside the manifest's files: the output of
`git rev-parse --abbrev-ref HEAD`, the answer of `git check-ignore`, the clock and the randomness. -/
structure Checkout where
  head : Option JsString
  checkIgnore : CheckIgnore
  isoNow : JsString
  now : Nat
  entropy : Bytes

def Checkout.currentBranch (co : Checkout) : Option JsString :=
  match co.head.map trim with
  | none => none
  | some out => if out = [] ∨ out = js "HEAD" then none else some out

structure LineageToken where
  segment : JsString
  ulid : JsString
  branch : JsString

def LineageToken.toJson (token : LineageToken) : Json ν :=
  .obj [(js "segment", .str token.segment), (js "ulid", .str token.ulid),
    (js "branch", .str token.branch)]

def readLineageToken (ν : Type) [JsNumber ν] (files : ManifestFiles) : Option LineageToken :=
  let token : Json ν := readBoundedJson (files.segmentFile lineageName)
  match str? token (js "segment"), str? token (js "ulid"), str? token (js "branch") with
  | some segment, some ulid, some branch => some ⟨segment, ulid, branch⟩
  | _, _, _ => none

def ManifestFiles.writeSegmentFile (files : ManifestFiles) (name : JsString) (bytes : Bytes) :
    ManifestFiles :=
  { files with segments := some ((files.segments.getD ∅).insert name bytes) }

/-- `mkdirSync(dirname(target), { recursive: true })` -/
def withDirectory (files : ManifestFiles) : ManifestFiles :=
  { files with segments := some (files.segments.getD ∅) }

def writeLineageToken (ν : Type) [JsNumber ν] (files : ManifestFiles) (token : LineageToken) :
    ManifestFiles :=
  files.writeSegmentFile lineageName (utf8Encode (stringify (token.toJson : Json ν)))

variable [Unicode]

def peekOpenSegment (ν : Type) [JsNumber ν] (files : ManifestFiles) (branch : Option JsString) :
    Option JsString :=
  match branch, readLineageToken ν files with
  | some branch, some token =>
    if token.branch = branch ∧ token.segment ∈ (discoverSegments ν files).valid ∧
        ulidOf token.segment = token.ulid then some token.segment
    else none
  | _, _ => none

inductive FirstEntry (ν : Type) where
  | oversized | malformed
  | entry (value : Json ν)

omit [Unicode] in
/-- The first line of a segment, when it ends within 65536 bytes. -/
def firstEntryOf (file : Option Bytes) : FirstEntry ν :=
  match file with
  | none => .malformed
  | some bytes =>
    let chunk := utf8Decode (bytes.take 65536)
    if 10 ∉ chunk ∧ 65536 ≤ bytes.length then .oversized
    else
      let firstLine := chunk.takeWhile fun c => c ≠ 10
      if notBlank firstLine then
        match parseJson firstLine with
        | none => .malformed
        | some value => .entry value
      else .malformed

/-- The segments whose first entry names the branch, or the refusal to decide. -/
def branchCandidates (ν : Type) [JsNumber ν] (files : ManifestFiles) (branch : JsString) :
    List JsString → Except TicketStoreError (List JsString)
  | [] => .ok []
  | name :: names =>
    match firstEntryOf (ν := ν) (files.segmentFile name) with
    | .oversized => .error (unexpected (js "segment " ++ name ++
        js "'s first entry exceeds the 65536-byte bounded-read cap — its branch cannot be determined, so it cannot be safely excluded as a candidate either; refusing to guess"))
    | .malformed => .error (unexpected (js "segment " ++ name ++
        js "'s first entry could not be read or parsed — its branch cannot be determined, so it cannot be safely excluded as a candidate either; refusing to guess"))
    | .entry first =>
      (branchCandidates ν files branch names).map fun rest =>
        if eqStr (first.get? (js "branch")) branch then name :: rest else rest

def recoverOpenSegment (ν : Type) [JsNumber ν] (files : ManifestFiles) (branch : Option JsString) :
    Except TicketStoreError (Option JsString) :=
  match peekOpenSegment ν files branch, branch with
  | some peeked, _ => .ok (some peeked)
  | none, none => .ok none
  | none, some branch =>
    let discovered := discoverSegments ν files
    if discovered.invalid ≠ [] then
      .error (unexpected (js "manifest.d/ contains " ++ natText discovered.invalid.length ++
        js " non-conforming filesystem object(s) (" ++
        joinComma ((discovered.invalid.map Prod.fst).mergeSort unitLe) ++
        js ") — one could be a disguised or tampered segment belonging to this branch, so recovery refuses rather than guess"))
    else
      match branchCandidates ν files branch discovered.valid with
      | .error e => .error e
      | .ok [] => .ok none
      | .ok [name] => .ok (some name)
      | .ok candidates => .error (unexpected (js "ambiguous: " ++ natText candidates.length ++
          js " committed segments declare branch \"" ++ branch ++ js "\" as their own (" ++
          joinComma (candidates.mergeSort unitLe) ++
          js ") and no local .lineage token disambiguates them — refusing to guess; run \x60adlc gate-manifest adopt\x60 to see the candidates and choose which lineage this checkout continues"))

/-- The segment an append goes to. -/
inductive OpenSegment (ν : Type) where
  | existing (name : JsString)
  | minted (name : JsString) (anchor : Json ν) (branch : Option JsString)

def OpenSegment.name : OpenSegment ν → JsString
  | .existing name | .minted name _ _ => name

/-- The anchor of a new segment: the root's last entry, if there is one. -/
def rootAnchor (root : Option Bytes) : Json ν :=
  match (linesOf root).getLast? with
  | none => .null
  | some rootLast =>
    match parseJson (ν := ν) rootLast with
    | none => .null
    | some lastEntry =>
      if truthy lastEntry then
        -- an absent `seq` is not written
        .obj ([(js "segment", .str (js "root"))] ++
          ((lastEntry.get? (js "seq")).map fun seq => (js "seq", seq)).toList ++
          [(js "lineHash", .str (sha256 rootLast))])
      else .null

def assertSegmentPathCommittable (co : Checkout) (name : JsString) : Except TicketStoreError Unit :=
  match co.checkIgnore with
  | .outside | .clear => .ok ()
  | .ignored => .error (unexpected (js "refusing to mint segment " ++ name ++
      js ": .gitignore would ignore its file, so evidence recorded there would exist only in this checkout — never in CI or any other clone; fix the ignore rules (gate-manifest enable names the required negation lines) and retry"))
  | .failed => .error (unexpected (js "git check-ignore failed while probing segment " ++ name ++
      js " — cannot verify the segment is committable, refusing to record evidence blindly"))

/-- Whether a recovered segment carries the key's signatures from its first entry on. -/
def segmentAuthenticated (files : ManifestFiles) (key name : JsString) :
    Except TicketStoreError Bool := do
  let lines := linesOf (files.segmentFile name)
  let first : Json ν := (lines.head?.bind parseJson).getD .null
  let firstAuthenticated ← if isV2 first then entrySigValid key first else .ok false
  let intact ← isChainIntact ν lines (some key)
  return intact && firstAuthenticated

/-- The segment of this branch that is already there. -/
def continueSegment (ν : Type) [JsNumber ν] (files : ManifestFiles) (key branch : Option JsString) :
    Except TicketStoreError (Option JsString) :=
  match peekOpenSegment ν files branch, key with
  | some peeked, _ => .ok (some peeked)
  | none, some key => do
    match ← recoverOpenSegment ν files branch with
    | none => return none
    | some recovered =>
      if ← segmentAuthenticated (ν := ν) files key recovered then return some recovered
      else .error (unexpected (js "segment " ++ recovered ++
        js " declares this branch but cannot be authenticated with the configured key (broken chain, or its branch-bearing first entry lacks a verified v2 signature) — refusing to extend it, and refusing to mint a duplicate past it (that would silently fork this branch's lineage)"))
  | none, none =>
    match recoverOpenSegment ν files branch with
    | .ok none => .ok none
    | _ => .error (unexpected (js "a committed segment already declares this branch, and with no signing key this writer can neither authenticate and extend it nor safely mint alongside it (a fresh token would shadow the committed evidence from every later read) — configure the manifest key, or restore the local .lineage token"))

def mintSegment (co : Checkout) (files : ManifestFiles) :
    Except TicketStoreError (OpenSegment ν × ManifestFiles) := do
  let ulid ← generateSegmentUlid co.now co.entropy
  let name := deriveSlug (co.currentBranch.getD []) ++ js "-" ++ ulid ++ js ".jsonl"
  assertSegmentPathCommittable co name
  let files' := match co.currentBranch with
    | none => files
    | some branch => writeLineageToken ν files ⟨name, ulid, branch⟩
  return (.minted name (rootAnchor files.root) co.currentBranch, files')

def resolveOpenSegment (co : Checkout) (key : Option JsString) (files : ManifestFiles) :
    Except TicketStoreError (OpenSegment ν × ManifestFiles) := do
  let markerDoc : Json ν := readBoundedJson (files.segmentFile storeMarker)
  if eqStr (markerDoc.get? (js "auth")) (js "keyed") ∧ key = none then
    .error (unexpected (js "this forest was activated in keyed mode, but no signing key was provided for this write — an unsigned entry here would permanently strand every keyed clone of this branch; configure the manifest key"))
  else
    match ← continueSegment ν files key co.currentBranch with
    | some name => return (.existing name, files)
    | none => mintSegment co files

/-! ## Where an append goes -/

theorem peekOpenSegment_mem {files : ManifestFiles} {branch : Option JsString} {name : JsString}
    (h : peekOpenSegment ν files branch = some name) : name ∈ (discoverSegments ν files).valid := by
  unfold peekOpenSegment at h
  split at h
  · split_ifs at h with hc
    rw [← Option.some.inj h]
    exact hc.2.1
  · cases h

omit [Unicode] in
theorem branchCandidates_subset {files : ManifestFiles} {branch : JsString}
    {names candidates : List JsString}
    (h : branchCandidates ν files branch names = .ok candidates) : candidates ⊆ names := by
  induction names generalizing candidates with
  | nil =>
    rw [branchCandidates, Except.ok.injEq] at h
    rw [← h]
    exact fun _ h => h
  | cons name names ih =>
    rw [branchCandidates] at h
    cases hf : firstEntryOf (ν := ν) (files.segmentFile name) with
    | oversized | malformed =>
      rw [hf] at h
      cases h
    | entry first =>
      rw [hf] at h
      cases hr : branchCandidates ν files branch names with
      | error e =>
        rw [hr] at h
        cases h
      | ok rest =>
        rw [hr] at h
        have e := Except.ok.inj h
        have hsub := ih hr
        intro a ha
        rw [← e] at ha
        split_ifs at ha
        · rcases List.mem_cons.mp ha with rfl | ha
          · exact List.mem_cons_self
          · exact List.mem_cons_of_mem _ (hsub ha)
        · exact List.mem_cons_of_mem _ (hsub ha)

theorem recoverOpenSegment_mem {files : ManifestFiles} {branch : Option JsString} {name : JsString}
    (h : recoverOpenSegment ν files branch = .ok (some name)) :
    name ∈ (discoverSegments ν files).valid := by
  unfold recoverOpenSegment at h
  split at h
  · rename_i peeked hp
    rw [Except.ok.injEq, Option.some.injEq] at h
    rw [← h]
    exact peekOpenSegment_mem hp
  · cases h
  · simp only at h
    split_ifs at h
    split at h
    · cases h
    · cases h
    · rename_i candidate hc
      rw [Except.ok.injEq, Option.some.injEq] at h
      rw [← h]
      exact branchCandidates_subset hc List.mem_cons_self
    · cases h

theorem continueSegment_mem {files : ManifestFiles} {key branch : Option JsString} {name : JsString}
    (h : continueSegment ν files key branch = .ok (some name)) :
    name ∈ (discoverSegments ν files).valid := by
  unfold continueSegment at h
  split at h
  · rename_i peeked hp
    rw [Except.ok.injEq, Option.some.injEq] at h
    rw [← h]
    exact peekOpenSegment_mem hp
  · rename_i key' hp
    cases hr : recoverOpenSegment ν files branch with
    | error e =>
      rw [hr] at h
      cases h
    | ok found =>
      cases found with
      | none =>
        rw [hr] at h
        cases h
      | some recovered =>
        rw [hr] at h
        simp only [bind, Except.bind] at h
        cases ha : segmentAuthenticated (ν := ν) files key' recovered with
        | error e =>
          rw [ha] at h
          cases h
        | ok b =>
          rw [ha] at h
          simp only at h
          split_ifs at h
          have e := Option.some.inj (Except.ok.inj h)
          rw [← e]
          exact recoverOpenSegment_mem hr
  · split at h
    · cases h
    · cases h

/-- An append continues a segment that is there, or mints one whose anchor is the root's last entry;
it then leaves a lineage token, unless the checkout is on no branch. -/
theorem resolveOpenSegment_ok {co : Checkout} {key : Option JsString} {files files' : ManifestFiles}
    {resolved : OpenSegment ν} (h : resolveOpenSegment co key files = .ok (resolved, files')) :
    (∃ name ∈ (discoverSegments ν files).valid, resolved = .existing name ∧ files' = files) ∨
      ∃ name, isSegmentName name = true ∧
        resolved = .minted name (rootAnchor files.root) co.currentBranch ∧
        (files' = files ∨ ∃ bytes, files' = files.writeSegmentFile lineageName bytes) := by
  unfold resolveOpenSegment at h
  simp only at h
  split_ifs at h
  cases hc : continueSegment ν files key co.currentBranch with
  | error e =>
    rw [hc] at h
    cases h
  | ok found =>
    rw [hc] at h
    cases found with
    | some name =>
      obtain ⟨rfl, rfl⟩ := Prod.mk.inj (Except.ok.inj h)
      exact Or.inl ⟨name, continueSegment_mem hc, rfl, rfl⟩
    | none =>
      right
      simp only [bind, Except.bind, mintSegment] at h
      cases hu : generateSegmentUlid co.now co.entropy with
      | error e =>
        rw [hu] at h
        cases h
      | ok ulid =>
        rw [hu] at h
        simp only at h
        have hparts := mintedName_parts (co.currentBranch.getD []) hu
        cases ha : assertSegmentPathCommittable co
            (deriveSlug (co.currentBranch.getD []) ++ js "-" ++ ulid ++ js ".jsonl") with
        | error e =>
          rw [ha] at h
          cases h
        | ok _ =>
          rw [ha] at h
          obtain ⟨hr, hf⟩ := Prod.mk.inj (Except.ok.inj h)
          refine ⟨_, (isSegmentName_iff _).mpr ⟨_, _, hparts⟩, hr.symm, ?_⟩
          cases hb : co.currentBranch with
          | none =>
            rw [hb] at hf
            exact Or.inl hf.symm
          | some branch =>
            rw [hb] at hf
            exact Or.inr ⟨_, hf.symm⟩

end Adlc.Tickets
