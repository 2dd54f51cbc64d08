import Adlc.Framework.StableSort
import Adlc.GateManifest.Recording
import Adlc.GateManifest.Valid
import Mathlib.Logic.Relation
import Mathlib.Data.List.Forall2

namespace Adlc.GateManifest

open Adlc.Framework Adlc.Tickets Relation

variable {ν : Type} [JsNumber ν]

/-! ## The entries of a forest and their links -/

/-- An entry's place: the name of its chain, and the number of entries before it there. -/
abbrev Place := JsString × Nat

def lineAt (files : ManifestFiles) (place : Place) : Option JsString :=
  (linesIn files place.1)[place.2]?

/-- What `readManifestForest` returns for a place. -/
def ReadAt (files : ManifestFiles) (place : Place) (entry : Json ν) : Prop :=
  ∃ line ms, lineAt files place = some line ∧ parseJson line = some (.obj ms) ∧
    entry = annotate place.1 ms

/-- An entry leads to the one before it in its chain, and the first of a segment to those of the
chain it is anchored in that have the anchor's `seq`. -/
inductive Link (ν : Type) [JsNumber ν] (files : ManifestFiles) : Place → Place → Prop where
  | prev (label : JsString) (i : Nat) : Link ν files (label, i + 1) (label, i)
  | anchor {name target line line' : JsString} {anchor seq : Json ν} {k : Nat} :
      lineAt files (name, 0) = some line → fieldOf ν line (js "anchor") = some anchor →
      anchorTarget anchor = some target → anchor.get? (js "seq") = some seq →
      lineAt files (target, k) = some line' → fieldOf ν line' (js "seq") = some seq →
      Link ν files (name, 0) (target, k)

/-- The same files, with the directory of the segments listed in another order. -/
def Relisted (files files' : ManifestFiles) : Prop :=
  files'.root = files.root ∧
    Option.Rel (fun dir dir' : Dir => dir.entries.Perm dir'.entries) files.segments files'.segments

/-! ## Anchors without a cycle -/

/-- The segment has an anchor in the target. -/
def AnchoredTo (anchors : List (JsString × Json ν)) (target name : JsString) : Prop :=
  ∃ anchor, anchors.lookup name = some anchor ∧ anchorTarget anchor = some target

theorem mem_of_lookup {α : Type} {l : List (JsString × α)} {name : JsString} {value : α}
    (h : l.lookup name = some value) : (name, value) ∈ l := by
  obtain ⟨l1, l2, e, -⟩ := List.lookup_eq_some_iff.mp h
  rw [e]
  simp

omit [JsNumber ν] in
theorem acc_of_lookup_none {anchors : List (JsString × Json ν)} {name : JsString}
    (h : anchors.lookup name = none) : Acc (AnchoredTo anchors) name := by
  constructor
  rintro target ⟨anchor, hanchor, -⟩
  rw [h] at hanchor
  cases hanchor

omit [JsNumber ν] in
/-- A walk that meets no segment twice ends where all anchors are known to end, and so do those of
the segments walked. -/
theorem walkAnchors_acc {anchors : List (JsString × Json ν)} {done : List JsString}
    (hdone : ∀ name ∈ done, Acc (AnchoredTo anchors) name) {fuel : Nat} {path path' : List JsString}
    {current : Option JsString} (hfuel : anchors.length + 1 ≤ path.length + fuel)
    (hnodup : path.Nodup) (hkeys : path ⊆ anchors.map Prod.fst)
    (hpath : (∀ name ∈ current, Acc (AnchoredTo anchors) name) →
      ∀ name ∈ path, Acc (AnchoredTo anchors) name)
    (h : walkAnchors anchors done fuel path current = .ok path') :
    path ⊆ path' ∧ (∀ name ∈ path', Acc (AnchoredTo anchors) name) ∧
      ∀ name ∈ current, Acc (AnchoredTo anchors) name := by
  induction fuel generalizing path current with
  | zero =>
    have hle := (hnodup.subperm hkeys).length_le
    rw [List.length_map] at hle
    omega
  | succ fuel ih =>
    cases current with
    | none =>
      obtain rfl := Except.ok.inj h
      exact ⟨List.Subset.refl _, hpath (by simp), by simp⟩
    | some name =>
      rw [walkAnchors] at h
      split_ifs at h with hmet hknown
      · obtain rfl := Except.ok.inj h
        have hacc : ∀ n ∈ some name, Acc (AnchoredTo anchors) n := by
          rintro n ⟨⟩
          exact hdone _ hknown
        exact ⟨List.Subset.refl _, hpath hacc, hacc⟩
      · cases hl : anchors.lookup name with
        | none =>
          rw [hl] at h
          obtain rfl := Except.ok.inj h
          have hacc : ∀ n ∈ some name, Acc (AnchoredTo anchors) n := by
            rintro n ⟨⟩
            exact acc_of_lookup_none hl
          exact ⟨List.Subset.refl _, hpath hacc, hacc⟩
        | some anchor =>
          rw [hl] at h
          have hkey : name ∈ anchors.map Prod.fst := List.mem_map_of_mem (mem_of_lookup hl)
          have hup : (∀ n ∈ anchorTarget anchor, Acc (AnchoredTo anchors) n) →
              Acc (AnchoredTo anchors) name := by
            intro htarget
            constructor
            rintro target ⟨anchor', hanchor, ht⟩
            rw [hl] at hanchor
            obtain rfl := Option.some.inj hanchor
            exact htarget target ht
          have hlonger : anchors.length + 1 ≤ (name :: path).length + fuel := by
            rw [List.length_cons]
            omega
          have hwalked : (∀ n ∈ anchorTarget anchor, Acc (AnchoredTo anchors) n) →
              ∀ n ∈ name :: path, Acc (AnchoredTo anchors) n := by
            intro htarget
            refine List.forall_mem_cons.mpr ⟨hup htarget, hpath ?_⟩
            rintro n ⟨⟩
            exact hup htarget
          obtain ⟨hsub, hall, htarget⟩ := ih hlonger (List.nodup_cons.mpr ⟨hmet, hnodup⟩)
            (List.cons_subset.mpr ⟨hkey, hkeys⟩) hwalked h
          refine ⟨fun n hn => hsub (List.mem_cons_of_mem _ hn), hall, ?_⟩
          rintro n ⟨⟩
          exact hup htarget

omit [JsNumber ν] in
theorem detectAnchorCycleFrom_acc {anchors : List (JsString × Json ν)} {starts done : List JsString}
    (hdone : ∀ name ∈ done, Acc (AnchoredTo anchors) name)
    (h : detectAnchorCycleFrom anchors done starts = .ok ()) :
    ∀ name ∈ starts, Acc (AnchoredTo anchors) name := by
  induction starts generalizing done with
  | nil => simp
  | cons start starts ih =>
    rw [detectAnchorCycleFrom] at h
    rw [List.forall_mem_cons]
    split_ifs at h with hknown
    · exact ⟨hdone start hknown, ih hdone h⟩
    · cases hw : walkAnchors anchors done (anchors.length + 1) [] (some start) with
      | error name =>
        rw [hw] at h
        cases h
      | ok path =>
        rw [hw] at h
        obtain ⟨-, hpath, hstart⟩ := walkAnchors_acc hdone (by simp) List.nodup_nil (by simp)
          (by simp) hw
        refine ⟨hstart start rfl, ih ?_ h⟩
        intro name hname
        rcases List.mem_append.mp hname with hname | hname
        · exact hpath name hname
        · exact hdone name hname

omit [JsNumber ν] in
/-- Where no cycle is detected, all chains of anchors end. -/
theorem wellFounded_anchoredTo {anchors : List (JsString × Json ν)}
    (h : detectAnchorCycle anchors = .ok ()) : WellFounded (AnchoredTo anchors) := by
  constructor
  intro name
  cases hl : anchors.lookup name with
  | none => exact acc_of_lookup_none hl
  | some anchor =>
    apply detectAnchorCycleFrom_acc (by simp) h
    exact List.mem_map_of_mem (mem_of_lookup hl)

/-! ## The depth of a segment -/

/-- The anchors of the segments, by name. -/
def anchorsOf (bySegment : List (SegmentEntries ν)) : List (JsString × Json ν) :=
  bySegment.map fun s => (s.name, s.anchor)

omit [JsNumber ν] in
theorem lookup_anchorsOf (bySegment : List (SegmentEntries ν)) (name : JsString) :
    (anchorsOf bySegment).lookup name =
      (bySegment.find? fun s => s.name = name).map SegmentEntries.anchor := by
  induction bySegment with
  | nil => rfl
  | cons s bySegment ih =>
    rw [anchorsOf, List.map_cons, List.lookup_cons, List.find?_cons]
    by_cases h : s.name = name
    · simp [h]
    · have hne : (name == s.name) = false := beq_eq_false_iff_ne.mpr (Ne.symm h)
      simp only [hne, h, decide_false]
      exact ih

omit [JsNumber ν] in
/-- More fuel than there are segments changes no depth: on the way up no segment is met twice. -/
theorem depthOf_fuel {bySegment : List (SegmentEntries ν)}
    (hwf : WellFounded (AnchoredTo (anchorsOf bySegment))) {fuel : Nat} {path : List JsString}
    {name : JsString} (hfuel : bySegment.length ≤ path.length + fuel) (hnodup : path.Nodup)
    (hkeys : path ⊆ bySegment.map SegmentEntries.name)
    (hbelow : ∀ n ∈ path, TransGen (AnchoredTo (anchorsOf bySegment)) name n) :
    depthOf bySegment (fuel + 1) name = depthOf bySegment fuel name := by
  have hmet : name ∉ path := by
    intro hm
    exact hwf.transGen.irrefl.irrefl name (hbelow name hm)
  induction fuel generalizing path name with
  | zero =>
    have hsub := hnodup.subperm hkeys
    have hall : bySegment.map SegmentEntries.name ⊆ path := by
      refine (hsub.perm_of_length_le ?_).symm.subset
      rw [List.length_map]
      omega
    have hfind : (bySegment.find? fun s => s.name = name) = none := by
      rw [List.find?_eq_none]
      intro s hs
      rw [decide_eq_true_eq]
      rintro rfl
      exact hmet (hall (List.mem_map_of_mem hs))
    rw [depthOf, depthOf, hfind]
  | succ fuel ih =>
    rw [depthOf, depthOf]
    cases hfind : bySegment.find? fun s => s.name = name with
    | none => rfl
    | some s =>
      cases ht : anchorTarget s.anchor with
      | none => simp only [ht]
      | some target =>
        have hname : name ∈ bySegment.map SegmentEntries.name := by
          have hs := List.find?_some hfind
          rw [decide_eq_true_eq] at hs
          exact hs ▸ List.mem_map_of_mem (List.mem_of_find?_eq_some hfind)
        have hanchored : AnchoredTo (anchorsOf bySegment) target name := by
          refine ⟨s.anchor, ?_, ht⟩
          rw [lookup_anchorsOf, hfind, Option.map_some]
        have hup : ∀ n ∈ name :: path, TransGen (AnchoredTo (anchorsOf bySegment)) target n := by
          refine List.forall_mem_cons.mpr ⟨.single hanchored, ?_⟩
          exact fun n hn => .head hanchored (hbelow n hn)
        have hrest := ih (by rw [List.length_cons]; omega) (List.nodup_cons.mpr ⟨hmet, hnodup⟩)
          (List.cons_subset.mpr ⟨hname, hkeys⟩) hup
          (fun hm => hwf.transGen.irrefl.irrefl target (hup target hm))
        simp only [ht, hrest]

/-- The depth by which `segmentLe` sorts. -/
def depthIn (bySegment : List (SegmentEntries ν)) (name : JsString) : Nat :=
  depthOf bySegment (bySegment.length + 1) name

omit [JsNumber ν] in
/-- A segment is deeper than the one it is anchored in. -/
theorem depthIn_lt {bySegment : List (SegmentEntries ν)}
    (hwf : WellFounded (AnchoredTo (anchorsOf bySegment))) {target name : JsString}
    (h : AnchoredTo (anchorsOf bySegment) target name)
    (hmem : target ∈ bySegment.map SegmentEntries.name) (hne : target ≠ [])
    (hroot : target ≠ rootLabel) : depthIn bySegment target < depthIn bySegment name := by
  obtain ⟨anchor, hlookup, ht⟩ := h
  rw [lookup_anchorsOf, Option.map_eq_some_iff] at hlookup
  obtain ⟨s, hfind, rfl⟩ := hlookup
  have htarget : depthIn bySegment target = depthOf bySegment bySegment.length target :=
    depthOf_fuel hwf (by simp) List.nodup_nil (by simp) (by simp)
  have hname : depthIn bySegment name = depthOf bySegment bySegment.length target + 1 := by
    rw [depthIn, depthOf, hfind]
    simp only [ht]
    rw [if_pos ⟨hne, hroot, hmem⟩]
  omega

theorem segmentLe_of_ne {bySegment : List (SegmentEntries ν)} {a b : SegmentEntries ν}
    (h : depthIn bySegment a.name ≠ depthIn bySegment b.name) :
    segmentLe bySegment a b = decide (depthIn bySegment a.name < depthIn bySegment b.name) :=
  if_pos h

theorem depthIn_le_of_segmentLe {bySegment : List (SegmentEntries ν)} (a b : SegmentEntries ν)
    (h : segmentLe bySegment a b = true) : depthIn bySegment a.name ≤ depthIn bySegment b.name := by
  by_cases hne : depthIn bySegment a.name = depthIn bySegment b.name
  · exact hne.le
  · rw [segmentLe_of_ne hne, decide_eq_true_eq] at h
    exact h.le

theorem depthIn_ge_of_not_segmentLe {bySegment : List (SegmentEntries ν)} (a b : SegmentEntries ν)
    (h : segmentLe bySegment a b = false) : depthIn bySegment b.name ≤ depthIn bySegment a.name := by
  by_cases hne : depthIn bySegment a.name = depthIn bySegment b.name
  · exact hne.ge
  · rw [segmentLe_of_ne hne, decide_eq_false_iff_not, not_lt] at h
    exact h

/-! ## What is read of a chain that verifies -/

theorem ChainOk.parsed {opts : ChainOptions} {lines : List JsString} (h : ChainOk ν opts lines)
    {line : JsString} (hline : line ∈ lines) :
    ∃ ms : Members ν, parseJson line = some (.obj ms) := by
  obtain ⟨-, last, hall⟩ := h
  obtain ⟨state, ms, next, haccepts⟩ := hall.each hline
  exact ⟨ms, haccepts.parsed⟩

/-- The places of a chain. -/
def placesOf (files : ManifestFiles) (label : JsString) : List Place :=
  (List.range (linesIn files label).length).map fun i => (label, i)

theorem lineAt_isSome_iff {files : ManifestFiles} {place : Place} :
    (lineAt files place).isSome = true ↔ place ∈ placesOf files place.1 := by
  obtain ⟨label, i⟩ := place
  simp [lineAt, placesOf]

theorem mem_placesOf {files : ManifestFiles} {label : JsString} {place : Place}
    (h : place ∈ placesOf files label) : place.1 = label := by
  obtain ⟨i, -, rfl⟩ := List.mem_map.mp h
  rfl

theorem nodup_placesOf (files : ManifestFiles) (label : JsString) :
    (placesOf files label).Nodup := by
  apply List.nodup_range.map
  intro i j h
  exact (Prod.mk.inj h).2

theorem range_prev {i n : Nat} (h : i + 1 < n) : [i, i + 1].Sublist (List.range n) := by
  apply sublist_pair_of_ascending List.pairwise_le_range
  · exact List.mem_range.mpr (by omega)
  · exact List.mem_range.mpr h
  · exact Nat.lt_succ_self i

theorem placesOf_prev {files : ManifestFiles} {label : JsString} {i : Nat}
    (h : (lineAt files (label, i + 1)).isSome = true) :
    [(label, i), (label, i + 1)].Sublist (placesOf files label) := by
  have hlt : i + 1 < (linesIn files label).length := by
    simpa [lineAt] using h
  exact (range_prev hlt).map fun i => (label, i)

/-- When every line holds an entry, none is skipped. -/
theorem parseLenient_entries {files : ManifestFiles} {label : JsString}
    {raw : List (JsString × Nat)} (hraw : raw.map Prod.fst = linesIn files label)
    (h : ∀ line ∈ linesIn files label, ∃ ms : Members ν, parseJson line = some (.obj ms)) :
    List.Forall₂ (ReadAt files) (placesOf files label)
      (parseLenient (ν := ν) label raw).entries := by
  have hentries : ∀ raw : List (JsString × Nat),
      (∀ line ∈ raw.map Prod.fst, ∃ ms : Members ν, parseJson line = some (.obj ms)) →
      List.Forall₂ (fun (p : JsString × Nat) (entry : Json ν) => ∃ ms : Members ν,
        parseJson p.1 = some (.obj ms) ∧ entry = annotate label ms) raw
        (parseLenient label raw).entries := by
    intro raw
    induction raw with
    | nil => exact fun _ => .nil
    | cons p raw ih =>
      intro hall
      rw [List.map_cons, List.forall_mem_cons] at hall
      obtain ⟨⟨ms, hms⟩, hrest⟩ := hall
      rw [parseLenient, hms]
      exact .cons ⟨ms, hms, rfl⟩ (ih hrest)
  have hall := List.forall₂_iff_get.mp (hentries raw (by rw [hraw]; exact h))
  have hlen : raw.length = (linesIn files label).length := by rw [← hraw, List.length_map]
  rw [List.forall₂_iff_get]
  refine ⟨?_, ?_⟩
  · rw [placesOf, List.length_map, List.length_range, ← hlen, hall.1]
  · intro i h1 h2
    have hi : i < raw.length := by rw [hall.1]; exact h2
    obtain ⟨ms, hms, he⟩ := hall.2 i hi h2
    have hplace : (placesOf files label).get ⟨i, h1⟩ = (label, i) := by simp [placesOf]
    have hline : lineAt files (label, i) = some (raw.get ⟨i, hi⟩).1 := by
      simp [lineAt, ← hraw, hi]
    rw [hplace]
    exact ⟨_, ms, hline, hms, he⟩

/-! ## The order of the listing -/

theorem Relisted.dirs {files files' : ManifestFiles} (h : Relisted files files') :
    (files.segments = none ∧ files'.segments = none) ∨
      ∃ dir dir' : Dir, files.segments = some dir ∧ files'.segments = some dir' ∧
        dir.entries.Perm dir'.entries := by
  have hdirs := h.2
  generalize files.segments = segments at hdirs ⊢
  generalize files'.segments = segments' at hdirs ⊢
  cases hdirs with
  | none => exact Or.inl ⟨rfl, rfl⟩
  | some hperm => exact Or.inr ⟨_, _, rfl, rfl, hperm⟩

theorem Relisted.segmentFile {files files' : ManifestFiles}
    (h : Relisted files files') (name : JsString) :
    files'.segmentFile name = files.segmentFile name := by
  obtain ⟨hnone, hnone'⟩ | ⟨dir, dir', hdir, hdir', hperm⟩ := h.dirs
  · rw [ManifestFiles.segmentFile, ManifestFiles.segmentFile, hnone, hnone']
  · rw [ManifestFiles.segmentFile, ManifestFiles.segmentFile, hdir, hdir']
    exact (AList.perm_lookup hperm).symm

theorem Relisted.discoverSegments [Unicode] {files files' : ManifestFiles}
    (h : Relisted files files') :
    discoverSegments ν files' = discoverSegments ν files := by
  unfold Tickets.discoverSegments
  obtain ⟨hnone, hnone'⟩ | ⟨dir, dir', hdir, hdir', hperm⟩ := h.dirs
  · rw [hnone, hnone']
  · rw [hdir, hdir']
    have hname : discoverName ν dir' = discoverName ν dir := by
      funext found name
      have hlookup : dir'.lookup name = dir.lookup name := (AList.perm_lookup hperm).symm
      unfold discoverName
      rw [hlookup]
    have hkeys : dir.keys.Perm dir'.keys := hperm.map Sigma.fst
    have hsorted : dir'.keys.mergeSort unitLe = dir.keys.mergeSort unitLe :=
      mergeSort_eq_of_perm unitLe_trans unitLe_total unitLe_antisymm hkeys.symm
    simp only [hname, hsorted]

theorem readManifestForest_relisted [Unicode] {files files' : ManifestFiles}
    (h : Relisted files files') :
    (readManifestForest files' : Parsed ν) = readManifestForest files := by
  unfold readManifestForest
  simp only [h.1, h.discoverSegments, h.segmentFile]

/-! ## The sequence -/

theorem verify_without_required_entries [Unicode] {files : ManifestFiles} {key : Option JsString}
    {requireSignatures requireEntries : Bool} {result : VerifyResult ν}
    (h : verify files requireSignatures requireEntries key = .ok result)
    (hvalid : result.valid = true) : verify files requireSignatures false key = .ok result := by
  cases requireEntries with
  | false => exact h
  | true =>
    unfold verify at h ⊢
    cases hk : validateKeyParam key with
    | error e =>
      rw [hk] at h
      cases h
    | ok key =>
      rw [hk] at h
      simp only [bind, Except.bind, pure, Except.pure] at h ⊢
      cases hd : (discoverSegments ν files).invalid with
      | cons p rest =>
        rw [hd] at h
        exact h
      | nil =>
        rw [hd] at h
        simp only [true_and] at h ⊢
        split_ifs at h with hempty
        · obtain rfl := Except.ok.inj h
          cases hvalid
        · rw [if_neg (by simp)]
          exact h

theorem forestOk_of_verify [Unicode] {files : ManifestFiles} {key : Option JsString}
    {requireSignatures requireEntries : Bool} {result : VerifyResult ν}
    (h : verify files requireSignatures requireEntries key = .ok result)
    (hvalid : result.valid = true) : ForestOk ν files key requireSignatures :=
  verify_valid_iff.mp ⟨result, verify_without_required_entries h hvalid, hvalid⟩

/-- The segments, in the order of their discovery. -/
def segmentsFound (ν : Type) [JsNumber ν] [Unicode] (files : ManifestFiles) :
    List (SegmentEntries ν) :=
  (discoverSegments ν files).valid.map fun name =>
    SegmentEntries.of name (parseLenient name (readRawLines (files.segmentFile name)))

theorem names_segmentsFound [Unicode] (files : ManifestFiles) :
    (segmentsFound ν files).map SegmentEntries.name = (discoverSegments ν files).valid := by
  rw [segmentsFound, List.map_map]
  exact List.map_id _

theorem linesIn_segment {files : ManifestFiles} {name : JsString}
    (h : isSegmentName name = true) : linesIn files name = linesOf (files.segmentFile name) := by
  rw [linesIn, if_neg (isSegmentName_ne_root h), if_pos h]

omit [JsNumber ν] in
theorem annotate_get? (label : JsString) (ms : Members ν) (field : JsString) :
    (annotate label ms).get? field =
      if field = js "segment" then some (.str label) else ms.lookup field :=
  Members.lookup_set ms (js "segment") (.str label) field

/-- The anchors that order the segments are those that `verify` has resolved. -/
theorem anchorsOf_segmentsFound [Unicode] {files : ManifestFiles} {key : Option JsString}
    {requireSignatures : Bool} (h : ForestOk ν files key requireSignatures) :
    anchorsOf (segmentsFound ν files) =
      forestAnchors ν files (discoverSegments ν files).valid := by
  rw [anchorsOf, segmentsFound, List.map_map, forestAnchors]
  apply List.map_congr_left
  intro name hname
  have hchain := h.segments name hname
  obtain ⟨line, lines, hlines⟩ := List.exists_cons_of_ne_nil (hchain.1 rfl)
  obtain ⟨ms, hms⟩ := hchain.parsed (by rw [hlines]; exact List.mem_cons_self)
  have hfirst : firstAnchor ν (linesOf (files.segmentFile name)) =
      (ms.lookup (js "anchor")).getD .null := by
    rw [firstAnchor, hlines, List.head?_cons, Option.bind_some, fieldOf_eq hms]
  have hraw := map_fst_readRawLines (files.segmentFile name)
  rw [hlines] at hraw
  obtain ⟨p, raw, hp, hline, -⟩ := List.map_eq_cons_iff.mp hraw
  have hread : (SegmentEntries.of name (parseLenient (ν := ν) name
      (readRawLines (files.segmentFile name)))).anchor = (ms.lookup (js "anchor")).getD .null := by
    obtain ⟨l, lineNo⟩ := p
    obtain rfl : l = line := hline
    have hanchor : (annotate name ms).get? (js "anchor") = ms.lookup (js "anchor") := by
      rw [annotate_get?, if_neg (by decide)]
    rw [hp, parseLenient, hms]
    exact congrArg (fun anchor => Option.getD anchor .null) hanchor
  rw [Function.comp_apply, hread, hfirst]
  rfl

/-- The places in the order of the sequence. -/
def placesInOrder (ν : Type) [JsNumber ν] [Unicode] (files : ManifestFiles) : List Place :=
  placesOf files rootLabel ++
    ((segmentsFound ν files).mergeSort (segmentLe (segmentsFound ν files))).flatMap
      fun s => placesOf files s.name

variable [Unicode] {files : ManifestFiles} {key : Option JsString} {requireSignatures : Bool}

theorem mem_sorted_segments {s : SegmentEntries ν}
    (h : s ∈ (segmentsFound ν files).mergeSort (segmentLe (segmentsFound ν files))) :
    s = SegmentEntries.of s.name
        (parseLenient s.name (readRawLines (files.segmentFile s.name))) ∧
      s.name ∈ (discoverSegments ν files).valid := by
  rw [List.mem_mergeSort, segmentsFound, List.mem_map] at h
  obtain ⟨name, hname, rfl⟩ := h
  exact ⟨rfl, hname⟩

theorem exists_sorted_segment {name : JsString} (h : name ∈ (discoverSegments ν files).valid) :
    ∃ s ∈ (segmentsFound ν files).mergeSort (segmentLe (segmentsFound ν files)), s.name = name := by
  rw [← names_segmentsFound, List.mem_map] at h
  obtain ⟨s, hs, hname⟩ := h
  exact ⟨s, List.mem_mergeSort.mpr hs, hname⟩

theorem readAt_placesInOrder (h : ForestOk ν files key requireSignatures) :
    List.Forall₂ (ReadAt files) (placesInOrder ν files)
      (readManifestForest (ν := ν) files).entries := by
  have hentries : (readManifestForest (ν := ν) files).entries =
      (parseLenient rootLabel (readRawLines files.root)).entries ++
        ((segmentsFound ν files).mergeSort (segmentLe (segmentsFound ν files))).flatMap
          SegmentEntries.entries := by
    simp only [readManifestForest, List.map_map]
    rfl
  rw [hentries, placesInOrder]
  apply List.rel_append
  · have hroot : linesIn files rootLabel = linesOf files.root := if_pos rfl
    apply parseLenient_entries
    · rw [hroot, map_fst_readRawLines]
    · rw [hroot]
      exact fun line => h.root.parsed
  · have hall : ∀ sorted : List (SegmentEntries ν),
        (∀ s ∈ sorted, s = SegmentEntries.of s.name (parseLenient s.name
          (readRawLines (files.segmentFile s.name))) ∧ s.name ∈ (discoverSegments ν files).valid) →
        List.Forall₂ (ReadAt files) (sorted.flatMap fun s => placesOf files s.name)
          (sorted.flatMap SegmentEntries.entries) := by
      intro sorted
      induction sorted with
      | nil => exact fun _ => .nil
      | cons s sorted ih =>
        intro hsorted
        rw [List.forall_mem_cons] at hsorted
        obtain ⟨⟨hs, hname⟩, hrest⟩ := hsorted
        have hlines : linesIn files s.name = _ := linesIn_segment (mem_discoverSegments.mp hname).2
        have hsegment : List.Forall₂ (ReadAt files) (placesOf files s.name) s.entries := by
          rw [hs]
          apply parseLenient_entries
          · rw [← hs, hlines, map_fst_readRawLines]
          · rw [← hs, hlines]
            exact fun line => (h.segments s.name hname).parsed
        rw [List.flatMap_cons, List.flatMap_cons]
        exact List.rel_append hsegment (ih hrest)
    exact hall _ fun s => mem_sorted_segments

theorem mem_placesInOrder {place : Place} :
    place ∈ placesInOrder ν files ↔ (lineAt files place).isSome = true := by
  rw [lineAt_isSome_iff, placesInOrder, List.mem_append, List.mem_flatMap]
  constructor
  · rintro (h | ⟨s, -, h⟩)
    · rw [mem_placesOf h]
      exact h
    · rw [mem_placesOf h]
      exact h
  · intro h
    by_cases hroot : place.1 = rootLabel
    · rw [hroot] at h
      exact Or.inl h
    · right
      have hname : place.1 ∈ (discoverSegments ν files).valid := by
        have hne : linesIn files place.1 ≠ [] := by
          intro hnil
          rw [placesOf, hnil] at h
          cases h
        rw [linesIn, if_neg hroot] at hne
        rw [mem_discoverSegments]
        split_ifs at hne with hseg
        · refine ⟨?_, hseg⟩
          cases hfile : files.segmentFile place.1 with
          | none =>
            rw [hfile] at hne
            exact absurd rfl hne
          | some bytes => rfl
        · exact absurd rfl hne
      obtain ⟨s, hs, hsname⟩ := exists_sorted_segment hname
      exact ⟨s, hs, by rw [hsname]; exact h⟩

theorem nodup_placesInOrder : (placesInOrder ν files).Nodup := by
  have hnames : ((segmentsFound ν files).mergeSort (segmentLe (segmentsFound ν files))).Pairwise
      fun s t => s.name ≠ t.name := by
    rw [← List.pairwise_map]
    have hperm := (List.mergeSort_perm (segmentsFound ν files)
      (segmentLe (segmentsFound ν files))).map SegmentEntries.name
    rw [names_segmentsFound] at hperm
    exact hperm.nodup_iff.mpr discoverSegments_nodup
  rw [placesInOrder, List.nodup_append']
  refine ⟨nodup_placesOf _ _, ?_, ?_⟩
  · rw [List.nodup_flatMap]
    refine ⟨fun s _ => nodup_placesOf _ _, hnames.imp ?_⟩
    intro s t hne place hs ht
    exact hne ((mem_placesOf hs).symm.trans (mem_placesOf ht))
  · intro place hroot hsegment
    obtain ⟨s, hs, hplace⟩ := List.mem_flatMap.mp hsegment
    have hname := (mem_discoverSegments.mp (mem_sorted_segments hs).2).2
    exact isSegmentName_ne_root hname ((mem_placesOf hplace).symm.trans (mem_placesOf hroot))

theorem placesOf_sublist {place : Place} (h : place ∈ placesInOrder ν files) :
    (placesOf files place.1).Sublist (placesInOrder ν files) := by
  rcases List.mem_append.mp h with hroot | hsegment
  · rw [mem_placesOf hroot]
    exact List.sublist_append_left _ _
  · obtain ⟨s, hs, hplace⟩ := List.mem_flatMap.mp hsegment
    have hblock := (List.singleton_sublist.mpr hs).flatMap fun s => placesOf files s.name
    rw [List.flatMap_cons, List.flatMap_nil, List.append_nil] at hblock
    rw [mem_placesOf hplace]
    exact hblock.trans (List.sublist_append_right _ _)

theorem wellFounded_anchors (h : ForestOk ν files key requireSignatures) :
    WellFounded (AnchoredTo (anchorsOf (segmentsFound ν files))) := by
  rw [anchorsOf_segmentsFound h]
  exact wellFounded_anchoredTo h.anchors.acyclic

/-- No entry of the root has an anchor. -/
theorem named_of_anchored (h : ForestOk ν files key requireSignatures) {name line : JsString}
    {anchor : Json ν} (hline : lineAt files (name, 0) = some line)
    (hanchor : fieldOf ν line (js "anchor") = some anchor) :
    name ∈ (discoverSegments ν files).valid := by
  have hplace : (name, 0) ∈ placesInOrder ν files := mem_placesInOrder.mpr (by rw [hline]; rfl)
  rcases List.mem_append.mp hplace with hroot | hsegment
  · obtain rfl : name = rootLabel := mem_placesOf hroot
    obtain ⟨-, last, hall⟩ := h.root
    have hmem : line ∈ linesOf files.root := List.mem_of_getElem? hline
    obtain ⟨state, ms, next, haccepts⟩ := hall.each hmem
    have hnone := haccepts.anchor
    rw [fieldOf_eq haccepts.parsed] at hanchor
    rw [hanchor, Bool.and_false] at hnone
    cases hnone
  · obtain ⟨s, hs, hplace⟩ := List.mem_flatMap.mp hsegment
    obtain rfl : name = s.name := mem_placesOf hplace
    exact (mem_sorted_segments hs).2

theorem firstAnchor_of_line {name line : JsString} {anchor : Json ν}
    (hname : name ∈ (discoverSegments ν files).valid) (hline : lineAt files (name, 0) = some line)
    (hanchor : fieldOf ν line (js "anchor") = some anchor) :
    firstAnchor ν (linesOf (files.segmentFile name)) = anchor := by
  rw [lineAt, linesIn_segment (mem_discoverSegments.mp hname).2] at hline
  rw [firstAnchor, List.head?_eq_getElem?, hline, Option.bind_some, hanchor, Option.getD_some]

theorem anchoredTo_of_line (h : ForestOk ν files key requireSignatures)
    {name target line : JsString} {anchor : Json ν}
    (hname : name ∈ (discoverSegments ν files).valid) (hline : lineAt files (name, 0) = some line)
    (hanchor : fieldOf ν line (js "anchor") = some anchor)
    (htarget : anchorTarget anchor = some target) :
    AnchoredTo (anchorsOf (segmentsFound ν files)) target name := by
  refine ⟨anchor, ?_, htarget⟩
  have hfirst := firstAnchor_of_line hname hline hanchor
  have hlookup : ∀ names : List JsString, name ∈ names →
      (forestAnchors ν files names).lookup name = some anchor := by
    intro names
    induction names with
    | nil => exact fun hm => by cases hm
    | cons n names ih =>
      intro hm
      rw [forestAnchors, List.map_cons, List.lookup_cons]
      by_cases he : name = n
      · subst he
        simp [hfirst]
      · rw [beq_eq_false_iff_ne.mpr he]
        exact ih ((List.mem_cons.mp hm).resolve_left he)
  rw [anchorsOf_segmentsFound h]
  exact hlookup _ hname

/-- A link leads from an entry to an earlier one. -/
theorem Link.earlier (h : ForestOk ν files key requireSignatures) {a b : Place}
    (hlink : Link ν files a b) (ha : (lineAt files a).isSome = true) :
    (lineAt files b).isSome = true ∧ [b, a].Sublist (placesInOrder ν files) := by
  cases hlink with
  | prev label i =>
    have hlt : i + 1 < (linesIn files label).length := by simpa [lineAt] using ha
    have hb : (lineAt files (label, i)).isSome = true := by simp [lineAt]; omega
    exact ⟨hb, (placesOf_prev ha).trans (placesOf_sublist (mem_placesInOrder.mpr ha))⟩
  | @anchor name target line line' anchor seq k hline hanchor htarget hseq hline' hseq' =>
    have hb : (lineAt files (target, k)).isSome = true := by rw [hline']; rfl
    refine ⟨hb, ?_⟩
    have hname := named_of_anchored h hline hanchor
    have hanchored := anchoredTo_of_line h hname hline hanchor htarget
    obtain ⟨s, hs, hsname⟩ := exists_sorted_segment hname
    have ha' : (name, 0) ∈ placesOf files s.name := by
      rw [hsname]
      exact lineAt_isSome_iff.mp ha
    have hb' := lineAt_isSome_iff.mp hb
    obtain hroot | ⟨t, ht, hbt⟩ := List.mem_append.mp (mem_placesInOrder (ν := ν).mpr hb) |>.imp_right
      List.mem_flatMap.mp
    · have hrest : (name, 0) ∈ ((segmentsFound ν files).mergeSort
          (segmentLe (segmentsFound ν files))).flatMap fun s => placesOf files s.name :=
        List.mem_flatMap.mpr ⟨s, hs, ha'⟩
      exact (List.singleton_sublist.mpr hroot).append (List.singleton_sublist.mpr hrest)
    · have htname : target = t.name := mem_placesOf hbt
      have hdeeper : depthIn (segmentsFound ν files) t.name <
          depthIn (segmentsFound ν files) s.name := by
        have htsegment := (mem_discoverSegments.mp (mem_sorted_segments ht).2).2
        rw [hsname, ← htname]
        rw [← htname] at htsegment
        apply depthIn_lt (wellFounded_anchors h) hanchored
        · rw [names_segmentsFound, htname]
          exact (mem_sorted_segments ht).2
        · rintro rfl
          cases htsegment
        · exact isSegmentName_ne_root htsegment
      have hpair : [t, s].Sublist ((segmentsFound ν files).mergeSort
          (segmentLe (segmentsFound ν files))) :=
        sublist_pair_of_ascending (pairwise_mergeSort_measure depthIn_le_of_segmentLe
          depthIn_ge_of_not_segmentLe _) ht hs hdeeper
      have hblocks := hpair.flatMap fun s => placesOf files s.name
      rw [List.flatMap_cons, List.flatMap_cons, List.flatMap_nil, List.append_nil] at hblocks
      have hboth := (List.singleton_sublist.mpr hbt).append (List.singleton_sublist.mpr ha')
      exact hboth.trans (hblocks.trans (List.sublist_append_right _ _))

omit [Unicode] in
/-- In a list where each link leads to an earlier place, so does each way along links. -/
theorem idxOf_lt_of_reach {order : List Place} (hnodup : order.Nodup)
    (hpair : ∀ a ∈ order, ∀ b, Link ν files a b → [b, a].Sublist order) {a b : Place}
    (ha : a ∈ order) (hreach : TransGen (Link ν files) a b) :
    b ∈ order ∧ order.idxOf b < order.idxOf a := by
  induction hreach with
  | single hlink =>
    have h := hpair a ha _ hlink
    exact ⟨h.subset (by simp), idxOf_lt_of_sublist_pair hnodup h⟩
  | tail _ hlink ih =>
    obtain ⟨hb, hlt⟩ := ih
    have h := hpair _ hb _ hlink
    exact ⟨h.subset (by simp), (idxOf_lt_of_sublist_pair hnodup h).trans hlt⟩

/-- However the segments are listed, the forest is read as the same sequence: each entry of the root
and of the segments once, after all those it leads to through the entries before it and through the
anchors. -/
theorem readManifestForest_order {requireEntries : Bool} {result : VerifyResult ν}
    (h : verify files requireSignatures requireEntries key = .ok result)
    (hvalid : result.valid = true) :
    (∀ files', Relisted files files' →
      (readManifestForest files' : Parsed ν) = readManifestForest files) ∧
    ∃ order : List Place, order.Nodup ∧
      (∀ place, place ∈ order ↔ (lineAt files place).isSome = true) ∧
      List.Forall₂ (ReadAt files) order (readManifestForest (ν := ν) files).entries ∧
      ∀ a ∈ order, ∀ b, TransGen (Link ν files) a b → b ∈ order ∧ order.idxOf b < order.idxOf a := by
  have hforest := forestOk_of_verify h hvalid
  refine ⟨fun files' => readManifestForest_relisted, placesInOrder ν files, nodup_placesInOrder,
    fun place => mem_placesInOrder, readAt_placesInOrder hforest, ?_⟩
  intro a ha b hreach
  apply idxOf_lt_of_reach nodup_placesInOrder _ ha hreach
  exact fun a ha b hlink => (hlink.earlier hforest (mem_placesInOrder.mp ha)).2

/-- One entry in the root, and one in a segment that is minted after the repository is switched to
segments. -/
def forkedForest : ManifestFiles :=
  @run Int _ asciiUnicode none
    [.append nullGateCall, .activate .keyless, .append nullGateCall]

omit [JsNumber ν] [Unicode] in
theorem forkedForest_good : Good Int none forkedForest := by
  apply @run_good Int _ asciiUnicode
  intro call hc
  have hcall : call = nullGateCall := by simpa using hc
  rw [hcall]
  exact ⟨⟨by decide, by decide⟩, trivial, trivial⟩

omit [JsNumber ν] [Unicode] in
theorem readManifestForest_order_forked :
    (∀ files', Relisted forkedForest files' →
      (@readManifestForest Int _ asciiUnicode files') =
        @readManifestForest Int _ asciiUnicode forkedForest) ∧
    ∃ order : List Place, order.Nodup ∧
      (∀ place, place ∈ order ↔ (lineAt forkedForest place).isSome = true) ∧
      List.Forall₂ (ReadAt forkedForest) order
        (@readManifestForest Int _ asciiUnicode forkedForest).entries ∧
      ∀ a ∈ order, ∀ b, TransGen (Link Int forkedForest) a b →
        b ∈ order ∧ order.idxOf b < order.idxOf a := by
  obtain ⟨result, hverify, hvalid⟩ := @Good.verify Int _ asciiUnicode _ _ forkedForest_good (by simp)
  exact @readManifestForest_order Int _ asciiUnicode _ _ _ _ _ hverify hvalid

end Adlc.GateManifest
