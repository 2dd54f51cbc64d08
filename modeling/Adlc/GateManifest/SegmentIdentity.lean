import Adlc.GateManifest.Agreement
import Adlc.GateManifest.Runs
import Adlc.GateManifest.Tamper
import Adlc.Tickets.OwnChains

namespace Adlc.GateManifest

open Adlc.Framework Adlc.Tickets

variable {ν : Type} [JsNumber ν]

/-! ## What covers a branch -/

/-- The entry is signed with the key, and no entry with another branch signs the same text. -/
structure BranchSigned (key : JsString) (first : Json ν) : Prop where
  valid : entrySigValid key first = .ok true
  covered : ∀ (other : Json ν) (text : JsString), other.Ordered →
    canonicalEntryBytes first = .ok text → canonicalEntryBytes other = .ok text →
    other.get? (js "branch") = first.get? (js "branch")

theorem get?_sigVersion_signedValue {entry : Json ν} (ho : entry.Ordered) :
    (signedValue entry).get? (js "sigVersion") =
      if isV2 entry then some (.num (JsNumber.ofNat 2)) else none := by
  unfold signedValue
  split_ifs with hv
  · rw [get?_normal (signedFields_ordered ho) (by decide), get?_signedFields entry (by decide)
      (by decide), eqNum_iff.mp hv]
    rfl
  · rw [get?_finitize, get?_v1Object]
    rfl

/-- A version-2 signature covers the branch. -/
theorem branch_eq_of_v2 {e1 e2 : Json ν} {text branch : JsString} (o1 : e1.Ordered) (o2 : e2.Ordered)
    (hv : isV2 e1 = true) (hb : e1.get? (js "branch") = some (.str branch))
    (h1 : canonicalEntryBytes e1 = .ok text) (h2 : canonicalEntryBytes e2 = .ok text) :
    e2.get? (js "branch") = some (.str branch) := by
  have e := signedValue_eq o1 o2 h1 h2
  have hv2 : isV2 e2 = true := by
    have g1 := get?_sigVersion_signedValue o1
    have g2 := get?_sigVersion_signedValue o2
    rw [e, g2, hv] at g1
    by_contra hn
    rw [Bool.not_eq_true] at hn
    rw [hn] at g1
    cases g1
  have g1 : (signedValue e1).get? (js "branch") = some (.str branch) := by
    rw [signedValue, if_pos hv, get?_normal (signedFields_ordered o1) (by decide),
      get?_signedFields e1 (by decide) (by decide), hb]
    rfl
  rw [e, signedValue, if_pos hv2, get?_normal (signedFields_ordered o2) (by decide),
    get?_signedFields e2 (by decide) (by decide)] at g1
  obtain ⟨v, hg, hn⟩ := Option.map_eq_some_iff.mp g1
  cases v with
  | str s => rw [hg, ← hn, normal]
  | null | bool | num | arr | obj => cases hn

/-- A version-1 signature does not. -/
theorem branch_open_of_v1 {ms : Members ν} {text : JsString} (ho : (Json.obj ms).Ordered)
    (hv : isV2 (.obj ms) = false) (ht : canonicalEntryBytes (.obj ms) = .ok text) (branch : JsString) :
    ∃ other : Json ν, other.Ordered ∧ canonicalEntryBytes other = .ok text ∧
      other.get? (js "branch") = some (.str branch) := by
  have hget : ∀ k, k ≠ js "branch" →
      (Json.obj (ms.set (js "branch") (.str branch))).get? k = (Json.obj ms).get? k := by
    intro k hk
    rw [Json.get?, Json.get?, Members.lookup_set, if_neg hk]
  have hv' : isV2 (.obj (ms.set (js "branch") (.str branch))) = false := by
    rw [isV2, hget _ (by decide)]
    exact hv
  have h1 : v1Object (.obj (ms.set (js "branch") (.str branch))) = v1Object (.obj ms) := by
    have hne : ∀ k ∈ v1Fields, k ≠ js "branch" := by decide
    rw [v1Object, v1Object]
    congr 1
    apply List.filterMap_congr
    intro k hk
    rw [hget k (hne k hk)]
  refine ⟨.obj (ms.set (js "branch") (.str branch)), ⟨ho.1.set _ _, ?_⟩, ?_, ?_⟩
  · rw [membersOrdered_iff]
    exact Members.set_values ((membersOrdered_iff ms).mp ho.2) trivial
  · simp only [canonicalEntryBytes, hv, hv', h1] at ht ⊢
    exact ht
  · rw [Json.get?, Members.lookup_set, if_pos rfl]

/-- The branch of an entry is signed exactly when a version-2 signature of the key's is on it. -/
theorem branchSigned_iff {key branch : JsString} {first : Json ν} (ho : first.Ordered)
    (hb : first.get? (js "branch") = some (.str branch)) :
    BranchSigned key first ↔ isV2 first = true ∧ entrySigValid key first = .ok true := by
  constructor
  · intro h
    refine ⟨?_, h.valid⟩
    by_contra hv
    rw [Bool.not_eq_true] at hv
    obtain ⟨text, ht⟩ := canonicalEntryBytes_of_valid h.valid
    cases first with
    | obj ms =>
      obtain ⟨other, ho', ht', hb'⟩ := branch_open_of_v1 ho hv ht (branch ++ [0])
      have e := h.covered other text ho' ht ht'
      rw [hb, hb', Option.some.injEq, Json.str.injEq] at e
      exact absurd (congrArg List.length e) (by simp)
    | null | bool | num | str | arr => cases hb
  · rintro ⟨hv, hs⟩
    refine ⟨hs, ?_⟩
    intro other text ho' ht ht'
    rw [branch_eq_of_v2 ho ho' hv hb ht ht', hb]

/-! ## Recovery -/

section

variable [Unicode]

omit [Unicode] in
theorem branchCandidates_mem {files : ManifestFiles} {branch : JsString} {names candidates : List JsString}
    (h : branchCandidates ν files branch names = .ok candidates) {name : JsString}
    (hm : name ∈ candidates) : ∃ first : Json ν, firstEntryOf (files.segmentFile name) = .entry first ∧
      first.get? (js "branch") = some (.str branch) := by
  induction names generalizing candidates with
  | nil =>
    rw [branchCandidates, Except.ok.injEq] at h
    subst h
    cases hm
  | cons n names ih =>
    rw [branchCandidates] at h
    split at h
    · cases h
    · cases h
    · rename_i first hf
      obtain ⟨rest, hr, e⟩ := map_eq_ok.mp h
      by_cases hb : eqStr (first.get? (js "branch")) branch = true
      · rw [if_pos hb] at e
        rw [← e] at hm
        rcases List.mem_cons.mp hm with rfl | hm
        · exact ⟨first, hf, eqStr_iff.mp hb⟩
        · exact ih hr hm
      · rw [if_neg hb] at e
        rw [← e] at hm
        exact ih hr hm

theorem recoverOpenSegment_first {files : ManifestFiles} {branch name : JsString}
    (hp : peekOpenSegment ν files (some branch) = none)
    (h : recoverOpenSegment ν files (some branch) = .ok (some name)) :
    ∃ first : Json ν, firstEntryOf (files.segmentFile name) = .entry first ∧
      first.get? (js "branch") = some (.str branch) := by
  unfold recoverOpenSegment at h
  rw [hp] at h
  simp only at h
  split_ifs at h
  split at h
  · cases h
  · cases h
  · rename_i only hc
    obtain rfl := Option.some.inj (Except.ok.inj h)
    exact branchCandidates_mem hc List.mem_cons_self
  · cases h

omit [Unicode] in
/-- In a chain that is intact, a first entry that carries a signature carries the key's. -/
theorem first_valid_iff {key line : JsString} {lines : List JsString} {first : Json ν}
    (h : chainIsIntactFrom (some key) none (JsNumber.ofNat 0 : ν) false (line :: lines) = .ok true)
    (hp : parseJson line = some first) :
    entrySigValid key first = .ok true ↔ (first.get? (js "sig")).isSome = true := by
  obtain ⟨hl, hn⟩ := chainIsIntactFrom_iff.mp h
  obtain ⟨ms, signed, hp', -, -, hs, -⟩ := hl
  rw [hp] at hp'
  obtain rfl := Option.some.inj hp'
  have hnull : (Json.obj ms).get? (js "sig") ≠ some .null := by
    have h := hn rfl line List.mem_cons_self
    rw [fieldOf_eq hp] at h
    exact h
  constructor
  · intro hv
    have hh := hasSig_of_valid hv
    unfold hasSig at hh
    cases hg : (Json.obj ms).get? (js "sig") with
    | none =>
      rw [hg] at hh
      cases hh
    | some v => rfl
  · intro hg
    rcases hs with hs | ⟨hs, -⟩
    · exact hs.1
    · obtain ⟨v, hv⟩ := Option.isSome_iff_exists.mp hg
      unfold hasSig at hs
      rw [hv] at hs hnull
      cases v with
      | null => exact absurd rfl hnull
      | bool | num | str | arr | obj => cases hs

/-- A segment that is adopted as the branch's own chain, because its first entry names the branch,
has that branch signed exactly when its first entry says `sigVersion: 2` and carries a signature. -/
theorem recovered_branch_signed_iff {files : ManifestFiles} {key branch : JsString}
    {root own : List (Json ν)} (hp : peekOpenSegment ν files (some branch) = none)
    (h : readOwnChains files (some branch) true (some key) = .ok [root, own]) :
    ∃ (name : JsString) (first : Json ν),
      recoverOpenSegment ν files (some branch) = .ok (some name) ∧
      recoveredChain files key name = .ok own ∧
      firstEntryOf (files.segmentFile name) = .entry first ∧
      first.get? (js "branch") = some (.str branch) ∧
      (BranchSigned key first ↔ isV2 first = true ∧ (first.get? (js "sig")).isSome = true) := by
  unfold readOwnChains at h
  obtain ⟨root', -, h⟩ := bind_eq_ok.mp h
  by_cases hsegmented : isSegmentedRepo ν files = true
  swap
  · simp only [hsegmented] at h
    cases h
  · simp only [hsegmented, hp, Bool.not_true, Bool.false_eq_true, if_false] at h
    obtain ⟨recovered, hr, h⟩ := bind_eq_ok.mp h
    cases recovered with
    | none => cases h
    | some name =>
      obtain ⟨own', hown, h⟩ := bind_eq_ok.mp h
      obtain ⟨rfl, rfl⟩ : root' = root ∧ own' = own := by
        have e := Except.ok.inj h
        exact ⟨(List.cons.inj e).1, (List.cons.inj (List.cons.inj e).2).1⟩
      obtain ⟨first, hfirst, hb⟩ := recoverOpenSegment_first hp hr
      obtain ⟨line, rest, hlines, hparse⟩ := firstEntryOf_entry hfirst
      have hintact : chainIsIntactFrom (some key) none (JsNumber.ofNat 0 : ν) false (line :: rest) =
          .ok true := by
        obtain ⟨signed, hs, -⟩ := map_eq_ok.mp hown
        unfold authenticatedLines at hs
        obtain ⟨intact, hi, hs⟩ := bind_eq_ok.mp hs
        rw [hlines] at hi
        cases intact
        · cases hs
        · exact hi
      refine ⟨name, first, hr, hown, hfirst, hb, ?_⟩
      rw [branchSigned_iff (parseJson_ordered hparse) hb, first_valid_iff hintact hparse]

end

/-! ## One-entry segments -/

def victimBranch : JsString := js "main"

/-- A segmented repository without a root, whose one segment holds the entry. -/
def segmentOf (entry : Members Int) : ManifestFiles :=
  activate Int .keyed (ManifestFiles.writeSegmentFile ⟨none, none⟩ emptySegmentName
    (appendLine none (stringify (.obj entry))))

theorem segmentFile_segmentOf (entry : Members Int) (name : JsString) (hm : name ≠ storeMarker) :
    (segmentOf entry).segmentFile name =
      if name = emptySegmentName then some (appendLine none (stringify (.obj entry))) else none := by
  rw [segmentOf, activate, segmentFile_writeSegmentFile, if_neg hm, segmentFile_writeSegmentFile]
  rfl

theorem linesOf_segmentOf (entry : Members Int) :
    linesOf ((segmentOf entry).segmentFile emptySegmentName) = [stringify (.obj entry)] := by
  rw [segmentFile_segmentOf entry _ (by decide), if_pos rfl]
  exact linesOf_rootOf entry

theorem isSegmentName_emptySegmentName : isSegmentName emptySegmentName = true := by decide

/-- A store in which nothing is out of place and one file has a segment's name. -/
theorem discoverSegments_only {files : ManifestFiles} {only : JsString}
    (hdir : ∀ dir ∈ files.segments, SegmentDir dir)
    (hfile : ∀ name, isSegmentName name = true →
      ((files.segmentFile name).isSome = true ↔ name = only))
    (hname : isSegmentName only = true) :
    @discoverSegments Int _ asciiUnicode files = ⟨[only], []⟩ := by
  have hmem : ∀ name, name ∈ (@discoverSegments Int _ asciiUnicode files).valid ↔
      name ∈ [only] := by
    intro name
    rw [@mem_discoverSegments Int _ asciiUnicode, List.mem_singleton]
    constructor
    · rintro ⟨hs, hn⟩
      exact (hfile name hn).mp hs
    · rintro rfl
      exact ⟨(hfile name hname).mpr rfl, hname⟩
  have hvalid : (@discoverSegments Int _ asciiUnicode files).valid = [only] := by
    apply List.perm_singleton.mp
    exact (List.perm_ext_iff_of_nodup (@discoverSegments_nodup Int _ asciiUnicode _)
      (List.nodup_singleton _)).mpr hmem
  have hinvalid := @discoverSegments_invalid Int _ asciiUnicode _ hdir
  calc @discoverSegments Int _ asciiUnicode files
      = ⟨(@discoverSegments Int _ asciiUnicode files).valid,
          (@discoverSegments Int _ asciiUnicode files).invalid⟩ := rfl
    _ = ⟨[only], []⟩ := by rw [hvalid, hinvalid]

theorem segmentDir_segmentOf (entry : Members Int) :
    ∀ dir ∈ (segmentOf entry).segments, SegmentDir dir := by
  apply segmentDir_writeSegmentFile _ (Or.inl rfl)
  apply segmentDir_writeSegmentFile _ (Or.inr (Or.inr isSegmentName_emptySegmentName))
  intro dir hd
  cases hd

theorem discoverSegments_segmentOf (entry : Members Int) :
    @discoverSegments Int _ asciiUnicode (segmentOf entry) = ⟨[emptySegmentName], []⟩ := by
  apply discoverSegments_only (segmentDir_segmentOf entry) _ isSegmentName_emptySegmentName
  intro name hn
  rw [segmentFile_segmentOf entry _ (isSegmentName_ne hn).1]
  by_cases hne : name = emptySegmentName
  · simp [hne]
  · simp [hne]

theorem firstEntryOf_line {entry : Json Int} (hj : entry.IsJson)
    (hlen : (appendLine none (stringify entry)).length < 65536) :
    firstEntryOf (some (appendLine none (stringify entry))) = .entry entry := by
  have hl := lineOk_stringify entry
  have hchunk : utf8Decode ((appendLine none (stringify entry)).take 65536) =
      stringify entry ++ [10] := by
    rw [List.take_of_length_le (by omega), utf8Decode_appendLine]
    rfl
  have htake : (stringify entry ++ [10]).takeWhile (fun c => c ≠ 10) = stringify entry := by
    rw [List.takeWhile_append_of_pos (by simpa using hl.noBreak)]
    simp
  unfold firstEntryOf
  simp only [hchunk, htake, hl.notBlank, if_true, parseJson_stringify hj]
  rw [if_neg (by simp)]

/-- What recovery takes of a one-entry segment that names the branch and is signed. -/
theorem recover_segmentOf {entry : Members Int} (hj : (Json.obj entry).IsJson)
    (hlen : (appendLine none (stringify (.obj entry))).length < 65536)
    (hb : entry.lookup (js "branch") = some (.str victimBranch)) :
    @peekOpenSegment asciiUnicode Int _ (segmentOf entry) (some victimBranch) = none ∧
    @recoverOpenSegment asciiUnicode Int _ (segmentOf entry) (some victimBranch) =
      .ok (some emptySegmentName) := by
  have hlineage : (segmentOf entry).segmentFile lineageName = none := by
    rw [segmentFile_segmentOf entry _ (by decide), if_neg (by decide)]
  have hpeek : @peekOpenSegment asciiUnicode Int _ (segmentOf entry) (some victimBranch) = none := by
    unfold peekOpenSegment
    rw [readLineageToken, hlineage]
    rfl
  refine ⟨hpeek, ?_⟩
  have hfirst : firstEntryOf ((segmentOf entry).segmentFile emptySegmentName) =
      .entry (Json.obj entry) := by
    rw [segmentFile_segmentOf entry _ (by decide), if_pos rfl]
    exact firstEntryOf_line hj hlen
  have hc : branchCandidates Int (segmentOf entry) victimBranch [emptySegmentName] =
      .ok [emptySegmentName] := by
    have he : eqStr ((Json.obj entry).get? (js "branch")) victimBranch = true := eqStr_iff.mpr hb
    rw [branchCandidates, hfirst]
    simp only [he, if_true]
    rfl
  unfold recoverOpenSegment
  rw [hpeek]
  simp only [discoverSegments_segmentOf, hc]
  rfl

theorem readOwnChains_segmentOf {entry : Members Int} (hj : (Json.obj entry).IsJson)
    (hlen : (appendLine none (stringify (.obj entry))).length < 65536)
    (hb : entry.lookup (js "branch") = some (.str victimBranch))
    (hq : entry.lookup (js "seq") = some (.num 1)) (hp : entry.lookup (js "prev") = some .null)
    (hs : entrySigValid chainKey (.obj entry) = .ok true) :
    @readOwnChains Int _ asciiUnicode (segmentOf entry) (some victimBranch) true (some chainKey) =
      .ok [[], [.obj entry]] := by
  obtain ⟨hpeek, hrecover⟩ := recover_segmentOf hj hlen hb
  have hsegmented : isSegmentedRepo Int (segmentOf entry) = true := activate_segmented _ _
  have hparse := parseJson_stringify hj
  have hintact : chainIsIntactFrom (some chainKey) none (JsNumber.ofNat 0 : Int) false
      [stringify (.obj entry)] = .ok true := by
    apply chainIsIntactFrom_iff.mpr
    refine ⟨⟨entry, true, hparse, linksTo_iff.mpr hp, hq, Or.inl ⟨hs, rfl⟩, trivial⟩, ?_⟩
    intro _ line hl hn
    rw [List.mem_singleton.mp hl, fieldOf_eq hparse] at hn
    have hsig := hasSig_of_valid hs
    have hget : (Json.obj entry).get? (js "sig") = some .null := hn
    rw [hasSig, hget] at hsig
    cases hsig
  have hsigned : signedEntriesOnly Int chainKey [stringify (.obj entry)] =
      .ok [stringify (.obj entry)] := by
    rw [signedEntriesOnly, hparse]
    simp only [hs, bind, Except.bind, pure, Except.pure, signedEntriesOnly, if_true]
  have hown : recoveredChain (segmentOf entry) chainKey emptySegmentName = .ok [Json.obj entry] := by
    rw [recoveredChain, linesOf_segmentOf, authenticatedLines]
    simp only [hintact, hsigned, bind, Except.bind, pure, Except.pure, Bool.not_true,
      Bool.false_eq_true, if_false, List.cons_ne_nil, false_and, Except.map, parseTruthy,
      List.filterMap_cons, List.filterMap_nil, hparse]
    rfl
  have hroot : rootChain (segmentOf entry) (some chainKey) = .ok ([] : List (Json Int)) := rfl
  unfold readOwnChains
  rw [hroot]
  simp only [hsegmented, hpeek, hrecover, hown, bind, Except.bind, pure, Except.pure, Bool.not_true,
    Bool.false_eq_true, if_false]

/-! ### One with its branch signed, and one without -/

/-- The fields in the order in which they are signed. -/
def branchFields : Members Int :=
  [(js "anchor", .null), (js "branch", .str victimBranch), (js "files", .obj []),
    (js "gate", .str (js "g")), (js "prev", .null), (js "seq", .num 1), (js "sigVersion", .num 2),
    (js "ts", .str (js "t"))]

def v2Signature : JsString :=
  hmacSha256Hex (utf8Encode chainKey) (utf8Encode (stringify (.obj branchFields)))

def branchEntry : Members Int := branchFields ++ [(js "sig", .str v2Signature)]

theorem branchFields_isJson : (Json.obj branchFields).IsJson := by
  refine ⟨by decide, trivial, trivial, ⟨by decide, trivial⟩, trivial, trivial, rfl, rfl, trivial,
    trivial⟩

theorem branchEntry_isJson : (Json.obj branchEntry).IsJson := by
  refine ⟨by decide, trivial, trivial, ⟨by decide, trivial⟩, trivial, trivial, rfl, rfl, trivial,
    trivial, trivial⟩

theorem normal_branchFields : normal (signedFields (.obj branchFields)) = .obj branchFields := by
  have hempty : assignAll (sortByKey ([] : Members Int)) = [] := by
    rw [sortByKey, List.mergeSort_nil]
    rfl
  have hfields : signedFields (.obj branchFields) = .obj branchFields := rfl
  have hmembers : normalMembers branchFields = branchFields := by
    simp only [branchFields, normalMembers, normal, hempty]
  have hsorted : sortByKey branchFields = branchFields := by
    apply List.mergeSort_of_pairwise
    decide +kernel
  rw [hfields, normal, hmembers, hsorted]
  rfl

theorem branchEntry_valid : entrySigValid chainKey (.obj branchEntry) = .ok true := by
  have hs : signEntry chainKey (.obj branchFields) = .ok v2Signature := by
    rw [signEntry, canonicalEntryBytes_v2 branchFields_isJson rfl, normal_branchFields]
    rfl
  have hset : branchFields.set (js "sig") (.str v2Signature) = branchEntry := rfl
  rw [← hset]
  exact signEntry_ok hs (by decide)

theorem length_of_short {entry : Json Int} (h : (stringify entry).length < 1000) :
    (appendLine none (stringify entry)).length < 65536 := by
  have hle := utf8Encode_length_le (stringify entry ++ [10])
  rw [List.length_append, List.length_singleton] at hle
  rw [appendLine, Option.getD_none, List.nil_append]
  omega

theorem recovered_branch_signed_branchEntry :
    ∃ (name : JsString) (first : Json Int),
      @recoverOpenSegment asciiUnicode Int _ (segmentOf branchEntry) (some victimBranch) =
        .ok (some name) ∧
      recoveredChain (segmentOf branchEntry) chainKey name = .ok [Json.obj branchEntry] ∧
      firstEntryOf ((segmentOf branchEntry).segmentFile name) = .entry first ∧
      first.get? (js "branch") = some (.str victimBranch) ∧
      (BranchSigned chainKey first ↔ isV2 first = true ∧ (first.get? (js "sig")).isSome = true) := by
  have hshort : (stringify (.obj branchEntry)).length < 1000 := by decide +kernel
  have hlen := length_of_short hshort
  exact @recovered_branch_signed_iff Int _ asciiUnicode (segmentOf branchEntry) chainKey victimBranch
    [] [.obj branchEntry] (recover_segmentOf branchEntry_isJson hlen rfl).1
    (readOwnChains_segmentOf branchEntry_isJson hlen rfl rfl rfl branchEntry_valid)

/-- A version-1 entry of another chain, with a branch that was never signed. -/
def replayedEntry : Members Int :=
  plainFields ++ [(js "anchor", .null), (js "branch", .str victimBranch),
    (js "sig", .str v1Signature)]

theorem replayedEntry_isJson : (Json.obj replayedEntry).IsJson := by
  refine ⟨by decide, rfl, trivial, trivial, ⟨by decide, trivial⟩, trivial, trivial, trivial, trivial,
    trivial⟩

/-- The replayed entry makes its segment the branch's own chain. -/
theorem replayed_segment_adopted :
    @recoverOpenSegment asciiUnicode Int _ (segmentOf replayedEntry) (some victimBranch) =
      .ok (some emptySegmentName) ∧
    @readOwnChains Int _ asciiUnicode (segmentOf replayedEntry) (some victimBranch) true
      (some chainKey) = .ok [[], [.obj replayedEntry]] ∧
    ¬BranchSigned chainKey (.obj replayedEntry) := by
  have hshort : (stringify (.obj replayedEntry)).length < 1000 := by decide +kernel
  have hlen := length_of_short hshort
  have hs : entrySigValid chainKey (.obj replayedEntry) = .ok true := entrySigValid_v1 rfl rfl rfl
  refine ⟨(recover_segmentOf replayedEntry_isJson hlen rfl).2,
    readOwnChains_segmentOf replayedEntry_isJson hlen rfl rfl rfl hs, ?_⟩
  intro h
  have hv := ((branchSigned_iff ((Json.isJson_iff _).mp replayedEntry_isJson).1 rfl).mp h).1
  cases hv

end Adlc.GateManifest
