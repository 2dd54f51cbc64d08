import Adlc.GateManifest.ForestOrder
import Adlc.GateManifest.SegmentIdentity
import Adlc.TicketSync.Migration

namespace Adlc.GateManifest

open Adlc.Framework Adlc.Tickets Adlc.TicketSync Relation

variable {ν : Type} [JsNumber ν]

/-! ## Reading this checkout's own chain -/

/-- A segment's first entry from its first line, or why it could not be read. -/
def rawFirstEntry (files : ManifestFiles) (name : JsString) : Except JsString (Members ν) :=
  match firstEntryOf (files.segmentFile name) with
  | .oversized => .error (js "its first line exceeds the size cap")
  | .malformed => .error (js "its first line is missing or malformed")
  | .entry (.obj first) => .ok first
  | .entry _ => .error (js "its first line is not an entry object")

/-- A segment of the ancestry, and the `seq` at which its child forked off. -/
structure Hop (ν : Type) where
  name : JsString
  bound : Option ν

/-- An entry of `skipped`; the refusals name no line. -/
inductive OwnSkipped where
  | line (skipped : Skipped)
  | identity (error : JsString)

structure OwnManifestChain (ν : Type) where
  entries : List (Json ν)
  skipped : List OwnSkipped
  ownSegment : Option JsString
  identityError : Option JsString

omit [JsNumber ν] in
theorem unseen_lt {α : Type} {firstOf : List (JsString × α)} {hops : List (Hop ν)} {hop : Hop ν}
    {first : α} (hmem : (hop.name, first) ∈ firstOf) (hseen : hop.name ∉ hops.map Hop.name) :
    (firstOf.filter fun p => p.1 ∉ (hop :: hops).map Hop.name).length <
      (firstOf.filter fun p => p.1 ∉ hops.map Hop.name).length := by
  have hboth : (firstOf.filter fun p => p.1 ∉ (hop :: hops).map Hop.name) =
      (firstOf.filter fun p => p.1 ∉ hops.map Hop.name).filter fun p => p.1 ≠ hop.name := by
    rw [List.filter_filter]
    apply List.filter_congr
    intro p _
    simp
  rw [hboth, List.length_filter_lt_length_iff_exists]
  exact ⟨_, List.mem_filter.mpr ⟨hmem, by simpa using hseen⟩, by simp⟩

/-- The walk from a segment to its parent and on, with the segments walked, the last first; and the
`seq` at which it has reached the root, if it has. -/
def climb (firstOf : List (JsString × Except JsString (Members ν))) (hops : List (Hop ν))
    (cursor : JsString) (childBound : Option ν) : Except JsString (List (Hop ν) × Option ν) :=
  if _hseen : cursor ∈ hops.map Hop.name then
    .error (js "anchor cycle through segment '" ++ cursor ++ js "'")
  else
    match _hfirst : firstOf.lookup cursor with
    | none => .error (js "segment '" ++ cursor ++
        js "' has no readable first entry, so its anchor cannot be resolved")
    | some (.error reason) => .error (js "segment '" ++ cursor ++
        js "' has an unreadable first line (" ++ reason ++ js "), so its anchor cannot be resolved")
    | some (.ok first) =>
      match (first.lookup (js "anchor")).getD .null with
      | .null => .ok (⟨cursor, childBound⟩ :: hops, none)
      | anchor =>
        match str? anchor (js "segment"), anchor.get? (js "seq") with
        | some segment, some (.num seq) =>
          if !JsNumber.isInteger seq then .error (malformed cursor)
          else if segment = rootLabel then .ok (⟨cursor, childBound⟩ :: hops, some seq)
          else if (firstOf.lookup segment).isNone then
            .error (js "segment '" ++ cursor ++ js "' anchors to '" ++ segment ++
              js "', which is not a segment in this forest")
          else climb firstOf (⟨cursor, childBound⟩ :: hops) segment (some seq)
        | _, _ => .error (malformed cursor)
termination_by (firstOf.filter fun p => p.1 ∉ hops.map Hop.name).length
decreasing_by
  exact unseen_lt (mem_of_lookup _hfirst) _hseen
where
  malformed (cursor : JsString) : JsString :=
    js "segment '" ++ cursor ++ js "' has a malformed anchor, so its ancestry cannot be established"

def seqOf (entry : Json ν) : Option ν :=
  match entry.get? (js "seq") with
  | some (.num n) => if JsNumber.isInteger n then some n else none
  | _ => none

def upTo (entries : List (Json ν)) (bound : Option ν) : List (Json ν) :=
  match bound with
  | none => entries
  | some bound => entries.filter fun entry =>
      match seqOf entry with
      | none => true
      | some seq => !JsNumber.lt bound seq

def inSegment (entries : List (Json ν)) (name : JsString) : List (Json ν) :=
  entries.filter fun entry => eqStr (entry.get? (js "segment")) name

section

variable [Unicode]

def refuseOwn (skipped : List OwnSkipped) (reason : JsString) : OwnManifestChain ν :=
  let identityError := js "cannot establish this checkout's own causal chain: " ++ reason
  ⟨[], skipped ++ [.identity identityError], none, some identityError⟩

def readOwnManifestChain (files : ManifestFiles) (branch : Option JsString) : OwnManifestChain ν :=
  let forest : Parsed ν := readManifestForest files
  let skipped := forest.skipped.map OwnSkipped.line
  let discovered := discoverSegments ν files
  if (discovered.valid ≠ [] ∨ discovered.invalid ≠ []) ∧ branch = none then
    refuseOwn skipped
      (js "detached HEAD has no branch identity to recover by, and committed segments exist — refusing to treat them as absent")
  else
    match recoverOpenSegment ν files branch with
    | .error err => refuseOwn skipped err.message
    -- A branch that owns no segment: the root is the whole of its chain.
    | .ok none => ⟨inSegment forest.entries rootLabel, skipped, none, none⟩
    | .ok (some own) =>
      match climb (discovered.valid.map fun name => (name, rawFirstEntry files name)) [] own none with
      | .error reason => refuseOwn skipped reason
      | .ok (hops, rootBound) =>
        let root := match rootBound with
          | none => []
          | some bound => upTo (inSegment forest.entries rootLabel) (some bound)
        ⟨root ++ hops.flatMap fun hop => upTo (inSegment forest.entries hop.name) hop.bound,
          skipped, some own, none⟩

end

/-! ## The past of an entry -/

theorem links_of_succ {files : ManifestFiles} {label : JsString} {i : Nat} {b : Place}
    (h : Link ν files (label, i + 1) b) : b = (label, i) := by
  generalize ha : ((label, i + 1) : Place) = a at h
  cases h with
  | prev label' i' =>
    obtain ⟨rfl, hi⟩ := Prod.mk.inj ha
    rw [Nat.succ.inj hi]
  | anchor => cases (Prod.mk.inj ha).2

theorem isSome_of_link_zero {files : ManifestFiles} {label : JsString} {b : Place}
    (h : Link ν files (label, 0) b) : (lineAt files (label, 0)).isSome = true := by
  generalize ha : ((label, 0) : Place) = a at h ⊢
  cases h with
  | prev => cases (Prod.mk.inj ha).2
  | anchor hline =>
    rw [hline]
    rfl

/-- An entry leads to those before it in its chain, and to what the chain's first leads to. -/
theorem reach_iff {files : ManifestFiles} {label : JsString} {k : Nat} {p : Place} :
    ReflTransGen (Link ν files) (label, k) p ↔
      (p.1 = label ∧ p.2 ≤ k) ∨
        ∃ b, Link ν files (label, 0) b ∧ ReflTransGen (Link ν files) b p := by
  induction k with
  | zero =>
    rw [ReflTransGen.cases_head_iff]
    apply or_congr_left
    constructor
    · rintro rfl
      exact ⟨rfl, le_rfl⟩
    · rintro ⟨rfl, hle⟩
      rw [← Nat.le_zero.mp hle]
  | succ k ih =>
    rw [ReflTransGen.cases_head_iff]
    constructor
    · rintro (rfl | ⟨b, hlink, hreach⟩)
      · exact Or.inl ⟨rfl, le_rfl⟩
      · rw [links_of_succ hlink, ih] at hreach
        obtain ⟨hlabel, hle⟩ | hup := hreach
        · exact Or.inl ⟨hlabel, by omega⟩
        · exact Or.inr hup
    · intro h
      by_cases htop : p = (label, k + 1)
      · exact Or.inl htop.symm
      · right
        refine ⟨(label, k), .prev label k, ih.mpr ?_⟩
        obtain ⟨rfl, hle⟩ | hup := h
        · have hne : p.2 ≠ k + 1 := fun e => htop (Prod.ext rfl e)
          exact Or.inl ⟨rfl, by omega⟩
        · exact Or.inr hup

/-- The first entries of a chain. -/
def placesTo (label : JsString) (k : Nat) : List Place :=
  (List.range (k + 1)).map fun i => (label, i)

theorem mem_placesTo {label : JsString} {k : Nat} {p : Place} :
    p ∈ placesTo label k ↔ p.1 = label ∧ p.2 ≤ k := by
  obtain ⟨l, i⟩ := p
  simp [placesTo, eq_comm, and_comm]

theorem placesTo_prev {label : JsString} {i k : Nat} (h : i + 1 ≤ k) :
    [(label, i), (label, i + 1)].Sublist (placesTo label k) := by
  have hrange := range_prev (Nat.lt_succ_of_le h)
  exact hrange.map fun i => (label, i)

/-- What an entry leads to, and the entry, the earliest first: its chain up to it, after the past of
the entry that the chain is anchored to, if there is one. -/
inductive Past (ν : Type) [JsNumber ν] (files : ManifestFiles) : Place → List Place → Prop where
  | ground {label : JsString} {k : Nat} : (∀ b, ¬Link ν files (label, 0) b) →
      Past ν files (label, k) (placesTo label k)
  | forked {label : JsString} {k : Nat} {b : Place} {upper : List Place} :
      Link ν files (label, 0) b → (∀ b', Link ν files (label, 0) b' → b' = b) →
      Past ν files b upper → Past ν files (label, k) (upper ++ placesTo label k)

section

variable {files : ManifestFiles} {top : Place} {order : List Place}

/-- The past of an entry is what is reached from it. -/
theorem Past.mem_iff (h : Past ν files top order) (p : Place) :
    p ∈ order ↔ ReflTransGen (Link ν files) top p := by
  induction h with
  | @ground label k hnone =>
    rw [mem_placesTo, reach_iff]
    constructor
    · exact Or.inl
    · rintro (hmem | ⟨b, hlink, -⟩)
      · exact hmem
      · exact absurd hlink (hnone b)
  | @forked label k b upper hlink honly _ ih =>
    rw [List.mem_append, ih, mem_placesTo, or_comm, reach_iff (k := k)]
    apply or_congr_right
    constructor
    · exact fun hreach => ⟨b, hlink, hreach⟩
    · rintro ⟨b', hlink', hreach⟩
      rwa [← honly b' hlink']

theorem Past.nodup (h : Past ν files top order)
    (hacyclic : ∀ a, (lineAt files a).isSome = true → ¬TransGen (Link ν files) a a) :
    order.Nodup := by
  have hblock : ∀ label k, (placesTo label k).Nodup := by
    intro label k
    apply List.nodup_range.map
    intro i j h
    exact (Prod.mk.inj h).2
  induction h with
  | ground => exact hblock _ _
  | @forked label k b upper hlink honly hpast ih =>
    rw [List.nodup_append']
    refine ⟨ih, hblock _ _, ?_⟩
    intro p hupper hown
    have hdown : ReflTransGen (Link ν files) p (label, 0) := by
      obtain ⟨rfl, -⟩ := mem_placesTo.mp hown
      exact reach_iff.mpr (Or.inl ⟨rfl, Nat.zero_le _⟩)
    have hcycle := (TransGen.head' hlink ((hpast.mem_iff p).mp hupper)).trans_left hdown
    exact hacyclic _ (isSome_of_link_zero hlink) hcycle

/-- In the past of an entry, each link leads to an earlier place. -/
theorem Past.pair (h : Past ν files top order) {a b : Place} (ha : a ∈ order)
    (hlink : Link ν files a b) : [b, a].Sublist order := by
  have hown : ∀ {label : JsString} {k i : Nat}, (label, i + 1) ∈ placesTo label k →
      ∀ {b : Place}, Link ν files (label, i + 1) b →
        [b, (label, i + 1)].Sublist (placesTo label k) := by
    intro label k i hmem b hlink
    rw [links_of_succ hlink]
    exact placesTo_prev (mem_placesTo.mp hmem).2
  induction h with
  | @ground label k hnone =>
    obtain ⟨l, i⟩ := a
    obtain rfl : l = label := (mem_placesTo.mp ha).1
    cases i with
    | zero => exact absurd hlink (hnone b)
    | succ i => exact hown ha hlink
  | @forked label k c upper hlink' honly hpast ih =>
    obtain hupper | hmem := List.mem_append.mp ha
    · exact (ih hupper).trans (List.sublist_append_left _ _)
    · obtain ⟨l, i⟩ := a
      obtain rfl : l = label := (mem_placesTo.mp hmem).1
      cases i with
      | zero =>
        obtain rfl := honly b hlink
        have htop := (hpast.mem_iff b).mpr .refl
        exact (List.singleton_sublist.mpr htop).append (List.singleton_sublist.mpr hmem)
      | succ i => exact (hown hmem hlink).trans (List.sublist_append_right _ _)

end

/-! ## The numbers of a chain that verifies -/

/-- The lines of each chain are an array. -/
def ArraySized (files : ManifestFiles) : Prop := ∀ label, (linesIn files label).length < 2 ^ 32

section

variable [Unicode] {files : ManifestFiles} {key : Option JsString} {requireSignatures : Bool}

theorem acyclic_links (h : ForestOk ν files key requireSignatures) {a : Place}
    (ha : (lineAt files a).isSome = true) : ¬TransGen (Link ν files) a a := by
  intro hcycle
  have hlt := idxOf_lt_of_reach (nodup_placesInOrder (ν := ν))
    (fun a ha b hlink => (Link.earlier h hlink (mem_placesInOrder.mp ha)).2)
    (mem_placesInOrder.mpr ha) hcycle
  exact lt_irrefl _ hlt.2

/-- A chain of the forest: the root's, or a segment's. -/
def Chained (ν : Type) [JsNumber ν] (files : ManifestFiles) (label : JsString) : Prop :=
  label = rootLabel ∨ label ∈ (discoverSegments ν files).valid

theorem chained_of_line {place : Place} (h : (lineAt files place).isSome = true) :
    Chained ν files place.1 := by
  rcases List.mem_append.mp (mem_placesInOrder (ν := ν).mpr h) with hroot | hsegment
  · exact Or.inl (mem_placesOf hroot)
  · obtain ⟨s, hs, hplace⟩ := List.mem_flatMap.mp hsegment
    rw [mem_placesOf hplace]
    exact Or.inr (mem_sorted_segments hs).2

/-- Each entry has the number of its place. -/
theorem numbered (h : ForestOk ν files key requireSignatures) (hsize : ArraySized files)
    (label : JsString) : NumberedLines ν (linesIn files label) := by
  intro i line hline
  have hplace : lineAt files (label, i) = some line := hline
  have hsize' := hsize label
  have hthere : (lineAt files (label, i)).isSome = true := by
    rw [hplace]
    rfl
  rcases chained_of_line (ν := ν) hthere with hroot | hname
  · have hroot' : label = rootLabel := hroot
    subst hroot'
    exact numberedLines_of_chainOk hsize' h.root i line hline
  · have hlines : linesIn files _ = _ := linesIn_segment (mem_discoverSegments.mp hname).2
    have hlines' : linesIn files label = linesOf (files.segmentFile label) := hlines
    rw [hlines'] at hsize' hline
    exact numberedLines_of_chainOk hsize' (h.segments label hname) i line hline

theorem seq_of_line (h : ForestOk ν files key requireSignatures) (hsize : ArraySized files)
    {label line : JsString} {i : Nat} (hline : lineAt files (label, i) = some line) :
    fieldOf ν line (js "seq") = some (.num (JsNumber.ofNat (i + 1))) ∧ i + 1 ≤ 2 ^ 53 := by
  obtain ⟨ms, hms, hseq, hle⟩ := numbered h hsize label i line hline
  rw [fieldOf_eq hms]
  exact ⟨hseq, hle⟩

/-! ## The anchors of a forest that verifies -/

omit [Unicode] in
theorem line_of_seqMap {lines : List JsString} {seq : ν} {line : JsString}
    (h : (seqMap lines).lookup seq = some line) :
    line ∈ lines ∧ fieldOf ν line (js "seq") = some (.num seq) := by
  have hmem : ∀ (lines : List JsString) (m : List (ν × JsString)), (seq, line) ∈ lines.foldl
      (fun m line => match (parseJson (ν := ν) line).bind fun entry => entry.get? (js "seq") with
        | some (.num n) => if JsNumber.isInteger n then (n, line) :: m else m
        | _ => m) m → (seq, line) ∈ m ∨
          (line ∈ lines ∧ fieldOf ν line (js "seq") = some (.num seq)) := by
    intro lines
    induction lines with
    | nil => exact fun m hm => Or.inl hm
    | cons l lines ih =>
      intro m hm
      rw [List.foldl_cons] at hm
      obtain hm | ⟨hin, hseq⟩ := ih _ hm
      · split at hm
        · next n hn =>
          split_ifs at hm
          · obtain he | hm := List.mem_cons.mp hm
            · obtain ⟨rfl, rfl⟩ := Prod.mk.inj he
              exact Or.inr ⟨List.mem_cons_self, hn⟩
            · exact Or.inl hm
          · exact Or.inl hm
        · exact Or.inl hm
      · exact Or.inr ⟨List.mem_cons_of_mem _ hin, hseq⟩
  obtain ⟨l1, l2, e, -⟩ := List.lookup_eq_some_iff.mp h
  have hin : (seq, line) ∈ seqMap lines := by
    rw [e]
    simp
  exact (hmem lines [] hin).resolve_left List.not_mem_nil

omit [Unicode] in
theorem resolveAnchor_ok {anchor : Json ν} {chains : Chains ν} {rootExists : Bool}
    {target : JsString} (h : resolveAnchor anchor chains rootExists = .ok ())
    (ht : anchorTarget anchor = some target) :
    ∃ seq chain line, anchor.get? (js "seq") = some (.num seq) ∧
      JsNumber.isInteger seq = true ∧ chains.lookup target = some chain ∧
      chain.lookup seq = some line := by
  have hsegment : anchor.get? (js "segment") = some (.str target) := by
    unfold anchorTarget str? at ht
    split at ht
    · next s hs =>
      obtain rfl := Option.some.inj ht
      exact hs
    · cases ht
  cases anchor with
  | obj ms =>
    unfold resolveAnchor at h
    simp only [hsegment] at h
    split_ifs at h
    split at h
    · next seq hseq =>
      split_ifs at h with hinteger
      rw [Bool.not_eq_true, Bool.or_eq_false_iff, Bool.not_eq_false'] at hinteger
      split at h
      · split_ifs at h
        split at h
        · cases h
        · next chain hchain =>
          split at h
          · cases h
          · next line hline => exact ⟨seq, chain, line, hseq, hinteger.1, hchain, hline⟩
      · cases h
    · cases h
  | _ => cases hsegment

omit [Unicode] in
theorem resolveAnchor_of_danglingAnchor {chains : Chains ν} {rootExists : Bool}
    {anchors : List (JsString × Json ν)} (h : danglingAnchor chains rootExists anchors = none)
    {p : JsString × Json ν} (hp : p ∈ anchors) : resolveAnchor p.2 chains rootExists = .ok () := by
  induction anchors with
  | nil => cases hp
  | cons q anchors ih =>
    rw [danglingAnchor] at h
    split at h
    · cases h
    · next hq =>
      obtain rfl | hp := List.mem_cons.mp hp
      · exact hq
      · exact ih h hp

/-- The anchor of a segment leads to an entry of the forest. -/
theorem anchor_resolves (h : ForestOk ν files key requireSignatures) {name target line : JsString}
    {anchor : Json ν} (hname : name ∈ (discoverSegments ν files).valid)
    (hline : lineAt files (name, 0) = some line)
    (hanchor : fieldOf ν line (js "anchor") = some anchor)
    (htarget : anchorTarget anchor = some target) :
    ∃ seq k line', anchor.get? (js "seq") = some (.num seq) ∧ JsNumber.isInteger seq = true ∧
      lineAt files (target, k) = some line' ∧
      fieldOf ν line' (js "seq") = some (.num seq) := by
  have hmem : (name, anchor) ∈ forestAnchors ν files (discoverSegments ν files).valid := by
    obtain ⟨anchor', hlookup, -⟩ := anchoredTo_of_line h hname hline hanchor htarget
    have hfirst := firstAnchor_of_line hname hline hanchor
    rw [forestAnchors, ← hfirst]
    exact List.mem_map_of_mem hname
  obtain ⟨seq, chain, line', hseq, hinteger, hchain, hline'⟩ :=
    resolveAnchor_ok (resolveAnchor_of_danglingAnchor h.anchors.resolved hmem) htarget
  have htargetLines : chain = seqMap (linesIn files target) := by
    obtain hin | hin := List.mem_append.mp (mem_of_lookup hchain)
    · obtain ⟨n, hn, he⟩ := List.mem_map.mp (List.mem_reverse.mp hin)
      obtain ⟨rfl, rfl⟩ := Prod.mk.inj he
      rw [linesIn_segment (mem_discoverSegments.mp hn).2]
    · obtain ⟨rfl, rfl⟩ := Prod.mk.inj (List.mem_singleton.mp hin)
      rfl
  rw [htargetLines] at hline'
  obtain ⟨hin, hfield⟩ := line_of_seqMap hline'
  obtain ⟨k, hk, hget⟩ := List.mem_iff_getElem.mp hin
  refine ⟨seq, k, line', hseq, hinteger, ?_, hfield⟩
  rw [lineAt, List.getElem?_eq_getElem hk, hget]

/-! ## What the reads return -/

theorem filter_placesInOrder {label : JsString} (hlabel : Chained ν files label) :
    (placesInOrder ν files).filter (fun place => decide (place.1 = label)) = placesOf files label := by
  have hsub : (placesOf files label).Sublist (placesInOrder ν files) := by
    cases hblock : placesOf files label with
    | nil => exact List.nil_sublist _
    | cons place rest =>
      have hplace : place ∈ placesOf files label := by rw [hblock]; exact List.mem_cons_self
      have hname := mem_placesOf hplace
      rw [← hname] at hplace
      have hsub := placesOf_sublist (mem_placesInOrder (ν := ν).mpr (lineAt_isSome_iff.mpr hplace))
      rwa [hname, hblock] at hsub
  have hown : (placesOf files label).filter (fun place => decide (place.1 = label)) =
      placesOf files label := by
    rw [List.filter_eq_self]
    exact fun place hplace => decide_eq_true (mem_placesOf hplace)
  have hfilter := hsub.filter fun place => decide (place.1 = label)
  rw [hown] at hfilter
  refine (hfilter.eq_of_length ?_).symm
  apply List.Perm.length_eq
  rw [List.perm_ext_iff_of_nodup (nodup_placesOf _ _) (nodup_placesInOrder.filter _)]
  intro place
  rw [List.mem_filter, mem_placesInOrder, lineAt_isSome_iff, decide_eq_true_eq]
  constructor
  · intro hplace
    have hname := mem_placesOf hplace
    rw [hname]
    exact ⟨hplace, rfl⟩
  · rintro ⟨hplace, rfl⟩
    exact hplace

theorem readAt_inSegment (h : ForestOk ν files key requireSignatures) {label : JsString}
    (hlabel : Chained ν files label) :
    List.Forall₂ (ReadAt files) (placesOf files label)
      (inSegment (readManifestForest (ν := ν) files).entries label) := by
  rw [← filter_placesInOrder hlabel]
  apply List.rel_filter _ (readAt_placesInOrder h)
  rintro place entry ⟨line, ms, -, -, rfl⟩
  have hsegment : (annotate place.1 ms).get? (js "segment") = some (.str place.1) := by
    rw [annotate_get?, if_pos rfl]
  simp only [decide_eq_true_eq, eqStr_iff, hsegment, Option.some.injEq, Json.str.injEq]

/-- A chain is read up to the given place, its last or that of the bound. -/
inductive CutAt (ν : Type) [JsNumber ν] (files : ManifestFiles) : Place → Option ν → Prop where
  | last {label : JsString} {k : Nat} : (linesIn files label).length = k + 1 →
      CutAt ν files (label, k) none
  | bound {label : JsString} {k : Nat} : (lineAt files (label, k)).isSome = true →
      CutAt ν files (label, k) (some (JsNumber.ofNat (k + 1)))

omit [Unicode] in
theorem filter_placesOf {label : JsString} {k : Nat} (hk : k < (linesIn files label).length) :
    (placesOf files label).filter (fun place => decide (place.2 ≤ k)) = placesTo label k := by
  obtain ⟨rest, hrest⟩ := Nat.exists_eq_add_of_lt hk
  rw [placesOf, placesTo, List.filter_map, hrest, show k + rest + 1 = k + 1 + rest by omega,
    List.range_add, List.filter_append]
  have hall : ((List.range (k + 1)).filter ((fun place : Place => decide (place.2 ≤ k)) ∘
      fun i => (label, i))) = List.range (k + 1) := by
    rw [List.filter_eq_self]
    intro i hi
    exact decide_eq_true (Nat.lt_succ_iff.mp (List.mem_range.mp hi))
  have hnone : (((List.range rest).map fun i => k + 1 + i).filter
      ((fun place : Place => decide (place.2 ≤ k)) ∘ fun i => (label, i))) = [] := by
    rw [List.filter_eq_nil_iff]
    intro i hi
    obtain ⟨j, -, rfl⟩ := List.mem_map.mp hi
    simp
    omega
  rw [hall, hnone, List.append_nil]

theorem readAt_upTo (h : ForestOk ν files key requireSignatures) (hsize : ArraySized files)
    {label : JsString} {k : Nat} {bound : Option ν} (hlabel : Chained ν files label)
    (hcut : CutAt ν files (label, k) bound) :
    List.Forall₂ (ReadAt files) (placesTo label k)
      (upTo (inSegment (readManifestForest (ν := ν) files).entries label) bound) := by
  have hread := readAt_inSegment h hlabel
  generalize htop : ((label, k) : Place) = top at hcut
  cases hcut with
  | last hlast =>
    obtain ⟨rfl, rfl⟩ := Prod.mk.inj htop
    rw [placesOf, hlast] at hread
    exact hread
  | @bound label' k' hsome =>
    obtain ⟨rfl, rfl⟩ := Prod.mk.inj htop
    obtain ⟨line, hline⟩ := Option.isSome_iff_exists.mp hsome
    have hk : k < (linesIn files label).length := (List.getElem?_eq_some_iff.mp hline).1
    obtain ⟨-, hkle⟩ := seq_of_line h hsize hline
    rw [← filter_placesOf hk]
    apply List.rel_filter _ hread
    rintro ⟨name, i⟩ entry ⟨line', ms, hline', hms, rfl⟩
    obtain ⟨hseq, hile⟩ := seq_of_line h hsize hline'
    have hseqOf : seqOf (annotate name ms) = some (JsNumber.ofNat (i + 1)) := by
      have hfield : (annotate name ms).get? (js "seq") = some (.num (JsNumber.ofNat (i + 1))) := by
        rw [annotate_get?, if_neg (by decide), ← fieldOf_eq hms]
        exact hseq
      rw [seqOf, hfield]
      exact if_pos (JsNumber.integer_ofNat _ hile)
    simp only [decide_eq_true_eq, hseqOf, JsNumber.lt_ofNat _ _ hkle hile, Bool.not_eq_true',
      decide_eq_false_iff_not, not_lt, Nat.succ_le_succ_iff]

/-! ## The walk -/

/-- The first entries by which the walk finds its way. -/
def firstsOf (ν : Type) [JsNumber ν] (files : ManifestFiles) :
    List (JsString × Except JsString (Members ν)) :=
  (discoverSegments ν files).valid.map fun name => (name, rawFirstEntry files name)

theorem line_of_firstsOf {name : JsString} {first : Members ν}
    (h : (firstsOf ν files).lookup name = some (.ok first)) :
    name ∈ (discoverSegments ν files).valid ∧
      ∃ line, lineAt files (name, 0) = some line ∧ parseJson line = some (.obj first) := by
  obtain ⟨n, hn, he⟩ := List.mem_map.mp (mem_of_lookup h)
  obtain ⟨rfl, hfirst⟩ := Prod.mk.inj he
  have hentry : firstEntryOf (files.segmentFile n) = .entry (Json.obj first) := by
    unfold rawFirstEntry at hfirst
    split at hfirst
    · cases hfirst
    · cases hfirst
    · next hentry =>
      obtain rfl := Except.ok.inj hfirst
      exact hentry
    · cases hfirst
  obtain ⟨line, rest, hlines, hparse⟩ := firstEntryOf_entry hentry
  refine ⟨hn, line, ?_, hparse⟩
  rw [lineAt, linesIn_segment (mem_discoverSegments.mp hn).2, hlines]
  rfl

omit [Unicode] in
theorem not_link_of_null {name line : JsString} {first : Members ν}
    (hline : lineAt files (name, 0) = some line) (hparse : parseJson line = some (.obj first))
    (hnull : (first.lookup (js "anchor")).getD .null = .null) (b : Place) :
    ¬Link ν files (name, 0) b := by
  intro hlink
  generalize ha : ((name, 0) : Place) = a at hlink
  cases hlink with
  | prev => cases (Prod.mk.inj ha).2
  | anchor hline' hanchor htarget =>
    obtain ⟨rfl, -⟩ := Prod.mk.inj ha
    rw [hline] at hline'
    obtain rfl := Option.some.inj hline'
    rw [fieldOf_eq hparse] at hanchor
    rw [hanchor, Option.getD_some] at hnull
    rw [hnull] at htarget
    cases htarget

theorem not_link_root (h : ForestOk ν files key requireSignatures) (b : Place) :
    ¬Link ν files (rootLabel, 0) b := by
  intro hlink
  generalize ha : ((rootLabel, 0) : Place) = a at hlink
  cases hlink with
  | prev => cases (Prod.mk.inj ha).2
  | anchor hline hanchor =>
    obtain ⟨rfl, -⟩ := Prod.mk.inj ha
    have hname := (mem_discoverSegments.mp (named_of_anchored h hline hanchor)).2
    exact isSegmentName_ne_root hname rfl

theorem link_unique (h : ForestOk ν files key requireSignatures) (hsize : ArraySized files)
    {name line target line' : JsString} {anchor : Json ν} {k : Nat} {seq : ν}
    (hline : lineAt files (name, 0) = some line)
    (hanchor : fieldOf ν line (js "anchor") = some anchor)
    (htarget : anchorTarget anchor = some target)
    (hseq : anchor.get? (js "seq") = some (.num seq))
    (hline' : lineAt files (target, k) = some line')
    (hfield : fieldOf ν line' (js "seq") = some (.num seq)) (b : Place)
    (hlink : Link ν files (name, 0) b) : b = (target, k) := by
  generalize ha : ((name, 0) : Place) = a at hlink
  cases hlink with
  | prev => cases (Prod.mk.inj ha).2
  | @anchor _ target' _ line'' anchor' seq' i hl ha' ht hs hl' hf =>
    obtain ⟨rfl, -⟩ := Prod.mk.inj ha
    rw [hline] at hl
    obtain rfl := Option.some.inj hl
    rw [hanchor] at ha'
    obtain rfl := Option.some.inj ha'
    rw [htarget] at ht
    obtain rfl := Option.some.inj ht
    rw [hseq] at hs
    obtain rfl := Option.some.inj hs
    obtain ⟨hi, hile⟩ := seq_of_line h hsize hl'
    obtain ⟨hk, hkle⟩ := seq_of_line h hsize hline'
    rw [hf] at hi
    rw [hfield] at hk
    have heq := hi.symm.trans hk
    simp only [Option.some.injEq, Json.num.injEq] at heq
    rw [Nat.succ.inj (ofNat_inj hile hkle heq)]

/-- The root's part of an ancestry. -/
def rootPart (entries : List (Json ν)) (rootBound : Option ν) : List (Json ν) :=
  match rootBound with
  | none => []
  | some bound => upTo (inSegment entries rootLabel) (some bound)

/-- From a segment up, the walk gathers the past of the entry at which the segment is cut. -/
theorem climb_past (h : ForestOk ν files key requireSignatures) (hsize : ArraySized files)
    {hops hops' : List (Hop ν)} {cursor : JsString} {childBound rootBound : Option ν} {k : Nat}
    (hcut : CutAt ν files (cursor, k) childBound)
    (hclimb : climb (firstsOf ν files) hops cursor childBound = .ok (hops', rootBound)) :
    ∃ upper order, hops' = upper ++ hops ∧ Past ν files (cursor, k) order ∧
      List.Forall₂ (ReadAt files) order
        (rootPart (readManifestForest (ν := ν) files).entries rootBound ++ upper.flatMap fun hop =>
          upTo (inSegment (readManifestForest (ν := ν) files).entries hop.name) hop.bound) := by
  generalize hn : ((firstsOf ν files).filter fun p => p.1 ∉ hops.map Hop.name).length = n
  induction n using Nat.strong_induction_on generalizing hops cursor childBound k with
  | _ n ih =>
    rw [climb] at hclimb
    split_ifs at hclimb with hseen
    split at hclimb
    · cases hclimb
    · cases hclimb
    · next first hfirst =>
      obtain ⟨hname, line, hline, hparse⟩ := line_of_firstsOf hfirst
      have hown := readAt_upTo h hsize (Or.inr hname) hcut
      split at hclimb
      · next hnull =>
        obtain ⟨rfl, rfl⟩ := Prod.mk.inj (Except.ok.inj hclimb)
        refine ⟨[⟨cursor, childBound⟩], _, rfl, .ground (not_link_of_null hline hparse hnull), ?_⟩
        simpa [rootPart] using hown
      · next hne =>
        split at hclimb
        · next segment seq hsegment hseq =>
          obtain ⟨anchor, hfield⟩ : ∃ anchor, first.lookup (js "anchor") = some anchor := by
            cases hl : first.lookup (js "anchor") with
            | none => exact absurd (by rw [hl]; rfl) hne
            | some anchor => exact ⟨anchor, rfl⟩
          rw [hfield, Option.getD_some] at hsegment hseq
          rw [← fieldOf_eq hparse] at hfield
          obtain ⟨seq', i, line', hseq', -, hline', hnumber⟩ :=
            anchor_resolves h hname hline hfield hsegment
          rw [hseq] at hseq'
          obtain rfl : seq = seq' := by simpa using hseq'
          have hlink : Link ν files (cursor, 0) (segment, i) :=
            .anchor hline hfield hsegment hseq hline' hnumber
          have honly := link_unique h hsize hline hfield hsegment hseq hline' hnumber
          have hcut' : CutAt ν files (segment, i) (some seq) := by
            have hplace := (seq_of_line h hsize hline').1
            rw [hnumber] at hplace
            obtain rfl : seq = JsNumber.ofNat (i + 1) := by simpa using hplace
            exact .bound (by rw [hline']; rfl)
          split_ifs at hclimb with hinteger hroot hmissing
          · subst hroot
            obtain ⟨rfl, rfl⟩ := Prod.mk.inj (Except.ok.inj hclimb)
            have hground : Past ν files (rootLabel, i) (placesTo rootLabel i) :=
              .ground (not_link_root h)
            refine ⟨[⟨cursor, childBound⟩], _, rfl, .forked hlink honly hground, ?_⟩
            have hreadRoot := readAt_upTo h hsize (Or.inl rfl) hcut'
            simpa [rootPart] using List.rel_append hreadRoot hown
          · have hlt := @unseen_lt ν _ _ hops ⟨cursor, childBound⟩ _ (mem_of_lookup hfirst) hseen
            rw [hn] at hlt
            obtain ⟨upper, order, rfl, hpast, hread⟩ := ih _ hlt hcut' hclimb rfl
            refine ⟨upper ++ [⟨cursor, childBound⟩], _, by simp, .forked hlink honly hpast, ?_⟩
            simpa using List.rel_append hread hown
        · cases hclimb

/-! ## The own chain -/

omit [Unicode] in
theorem branchCandidates_subset {branch : JsString} {names candidates : List JsString}
    (h : branchCandidates ν files branch names = .ok candidates) : candidates ⊆ names := by
  induction names generalizing candidates with
  | nil =>
    obtain rfl := Except.ok.inj h
    exact List.Subset.refl _
  | cons name names ih =>
    rw [branchCandidates] at h
    split at h
    · cases h
    · cases h
    · obtain ⟨rest, hrest, rfl⟩ := map_eq_ok.mp h
      have hsub := ih hrest
      split_ifs
      · exact List.cons_subset_cons _ hsub
      · exact List.subset_cons_of_subset _ hsub

theorem recoverOpenSegment_mem {branch : Option JsString} {own : JsString}
    (h : recoverOpenSegment ν files branch = .ok (some own)) :
    own ∈ (discoverSegments ν files).valid := by
  unfold recoverOpenSegment at h
  split at h
  · next peeked hpeek =>
    obtain rfl := Option.some.inj (Except.ok.inj h)
    unfold peekOpenSegment at hpeek
    split at hpeek
    · split_ifs at hpeek with htoken
      obtain rfl := Option.some.inj hpeek
      exact htoken.2.1
    · cases hpeek
  · cases h
  · simp only at h
    split_ifs at h
    split at h
    · cases h
    · cases h
    · next name hcandidates =>
      obtain rfl := Option.some.inj (Except.ok.inj h)
      exact branchCandidates_subset hcandidates List.mem_cons_self
    · cases h

/-- What the own chain comes to: a refusal without entries; the root, for a branch that owns no
segment; or the past of the last entry of the branch's segment. -/
inductive OwnChainRead (ν : Type) [JsNumber ν] (files : ManifestFiles) (branch : Option JsString) :
    OwnManifestChain ν → Prop where
  | refused {skipped : List OwnSkipped} {identityError : JsString} :
      OwnChainRead ν files branch ⟨[], skipped, none, some identityError⟩
  | root {entries : List (Json ν)} {skipped : List OwnSkipped} :
      recoverOpenSegment ν files branch = .ok none →
      List.Forall₂ (ReadAt files) (placesOf files rootLabel) entries →
      OwnChainRead ν files branch ⟨entries, skipped, none, none⟩
  | own {own : JsString} {k : Nat} {order : List Place} {entries : List (Json ν)}
      {skipped : List OwnSkipped} :
      recoverOpenSegment ν files branch = .ok (some own) → (linesIn files own).length = k + 1 →
      order.Nodup → (∀ place, place ∈ order ↔ ReflTransGen (Link ν files) (own, k) place) →
      (∀ a ∈ order, ∀ b, TransGen (Link ν files) a b → order.idxOf b < order.idxOf a) →
      List.Forall₂ (ReadAt files) order entries →
      OwnChainRead ν files branch ⟨entries, skipped, some own, none⟩

theorem Past.chain (h : ForestOk ν files key requireSignatures) {own : JsString} {k : Nat}
    {order : List Place} {entries : List (Json ν)} {skipped : List OwnSkipped}
    {branch : Option JsString} (hown : recoverOpenSegment ν files branch = .ok (some own))
    (hlast : (linesIn files own).length = k + 1) (hpast : Past ν files (own, k) order)
    (hread : List.Forall₂ (ReadAt files) order entries) :
    OwnChainRead ν files branch ⟨entries, skipped, some own, none⟩ := by
  have hnodup := hpast.nodup fun a => acyclic_links h
  refine .own hown hlast hnodup hpast.mem_iff ?_ hread
  exact fun a ha b hreach =>
    (idxOf_lt_of_reach hnodup (fun a ha b hlink => hpast.pair ha hlink) ha hreach).2

end

/-! ### A branch with a segment, and one without -/

theorem forestOk_segmentOf :
    @ForestOk Int _ asciiUnicode (segmentOf branchFields) none true := by
  have hlines : linesOf ((segmentOf branchFields).segmentFile emptySegmentName) =
      [stringify (.obj branchFields)] := linesOf_segmentOf branchFields
  have hparse := parseJson_stringify branchFields_isJson
  have haccepts : Accepts ⟨none, true, true⟩ .init (stringify (.obj branchFields)) branchFields
      (⟨some (stringify (.obj branchFields)), 1, some .null, false⟩ : ChainState Int) :=
    ⟨hparse, rfl, rfl, rfl, linksTo_iff.mpr rfl, rfl, rfl, rfl, rfl, rfl⟩
  have hchain : ChainOk Int ⟨none, true, true⟩ [stringify (.obj branchFields)] :=
    ⟨fun _ => List.cons_ne_nil _ _, _, branchFields, _, haccepts, rfl⟩
  have hanchor : firstAnchor Int [stringify (.obj branchFields)] = .null := by
    rw [firstAnchor, List.head?_cons, Option.bind_some, fieldOf_eq hparse]
    rfl
  have hanchors : forestAnchors Int (segmentOf branchFields) [emptySegmentName] =
      [(emptySegmentName, .null)] := by
    rw [forestAnchors, List.map_singleton, hlines, hanchor]
  refine @ForestOk.mk Int _ asciiUnicode _ _ _ (by simp) ?_ ?_ ?_ ?_
  · rw [discoverSegments_segmentOf]
  · exact ⟨(fun h => by cases h), .init, rfl⟩
  · rw [discoverSegments_segmentOf]
    intro name hname
    rw [List.mem_singleton.mp hname, hlines]
    exact hchain
  · rw [discoverSegments_segmentOf]
    exact ⟨by rw [hanchors]; rfl, by rw [hanchors]; rfl⟩

theorem arraySized_segmentOf (entry : Members Int) : ArraySized (segmentOf entry) := by
  intro label
  unfold linesIn
  split_ifs with hroot hname
  · exact Nat.two_pow_pos 32
  · rw [segmentFile_segmentOf entry _ (isSegmentName_ne hname).1]
    split_ifs
    · have hone : linesOf (some (appendLine none (stringify (.obj entry)))) = [stringify (.obj entry)] :=
        linesOf_rootOf entry
      rw [hone, List.length_singleton]
      norm_num
    · exact Nat.two_pow_pos 32
  · exact Nat.two_pow_pos 32

end Adlc.GateManifest
