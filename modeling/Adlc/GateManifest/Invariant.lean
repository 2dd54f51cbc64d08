import Adlc.GateManifest.Append

namespace Adlc.GateManifest

open Adlc.Framework Adlc.Tickets

variable {ν : Type} [JsNumber ν]

/-! ## A good forest -/

/-- A segment's file: a chain that is not empty, forked off the root as it stands. -/
def SegmentGood (ν : Type) [JsNumber ν] (key : Option JsString) (root file : Option Bytes) : Prop :=
  ∃ (lines : List JsString) (last : ChainState ν) (anchor : Json ν),
    ChainFile ⟨key, true, true⟩ file lines last ∧ lines ≠ [] ∧ last.firstAnchor = some anchor ∧
      AtRoot (linesOf root) anchor

/-- The state of the manifest that appends preserve. Once there is a segment, the repository is
segmented, so that the root no longer grows. -/
structure Good (ν : Type) [JsNumber ν] (key : Option JsString) (files : ManifestFiles) : Prop where
  names : ∀ dir ∈ files.segments, SegmentDir dir
  root : ∃ (lines : List JsString) (last : ChainState ν),
    ChainFile ⟨key, true, false⟩ files.root lines last
  segments : ∀ name, isSegmentName name = true → (files.segmentFile name).isSome = true →
    SegmentGood ν key files.root (files.segmentFile name)
  frozen : ∀ name, isSegmentName name = true → (files.segmentFile name).isSome = true →
    isSegmentedRepo ν files = true

def emptyRepository : ManifestFiles := ⟨none, none⟩

theorem good_empty (key : Option JsString) : Good ν key emptyRepository where
  names := by simp [emptyRepository]
  root := ⟨[], .init, rfl, by simp, rfl⟩
  segments := by simp [emptyRepository, ManifestFiles.segmentFile]
  frozen := by simp [emptyRepository, ManifestFiles.segmentFile]

/-- A good forest verifies. -/
theorem Good.verify [Unicode] {key : Option JsString} {files : ManifestFiles} (h : Good ν key files)
    (hkey : key ≠ some []) :
    ∃ result : VerifyResult ν, verify files true false key = .ok result ∧ result.valid = true := by
  obtain ⟨rootLines, rootLast, hroot⟩ := h.root
  have hmem : ∀ name, name ∈ (discoverSegments ν files).valid ↔
      (files.segmentFile name).isSome = true ∧ isSegmentName name = true :=
    fun name => mem_discoverSegments
  apply verify_valid hkey (discoverSegments_invalid h.names)
  · intro hl
    have hs := ((hmem rootLabel).mp hl).2
    exact absurd hs (by decide)
  · rw [map_fst_readRawLines, hroot.linesOf]
    exact hroot.chain
  · intro name hname
    obtain ⟨hsome, hs⟩ := (hmem name).mp hname
    obtain ⟨lines, last, anchor, hc, hne, ha, hat⟩ := h.segments name hs hsome
    have hl := map_fst_readRawLines (files.segmentFile name)
    rw [hc.linesOf] at hl
    refine ⟨last, anchor, ?_, ?_, ha, ?_⟩
    · rw [hl]
      exact hc.chain
    · intro e
      rw [e] at hl
      exact hne hl.symm
    · rw [map_fst_readRawLines]
      exact hat

/-! ## Steps -/

/-- Nothing but the lineage token and the directory itself differs. -/
structure Quiet (before after : ManifestFiles) : Prop where
  root : after.root = before.root
  file : ∀ name, name ≠ lineageName → after.segmentFile name = before.segmentFile name
  names : (∀ dir ∈ before.segments, SegmentDir dir) → ∀ dir ∈ after.segments, SegmentDir dir

theorem Quiet.refl (files : ManifestFiles) : Quiet files files := ⟨rfl, fun _ _ => rfl, id⟩

theorem Quiet.trans {a b c : ManifestFiles} (h1 : Quiet a b) (h2 : Quiet b c) : Quiet a c where
  root := h2.root.trans h1.root
  file name hn := (h2.file name hn).trans (h1.file name hn)
  names h := h2.names (h1.names h)

theorem segmentFile_writeSegmentFile (files : ManifestFiles) (name : JsString) (bytes : Bytes)
    (other : JsString) :
    (files.writeSegmentFile name bytes).segmentFile other =
      if other = name then some bytes else files.segmentFile other := by
  rw [ManifestFiles.segmentFile, ManifestFiles.writeSegmentFile, Option.bind_some]
  split_ifs with h
  · subst h
    rw [AList.lookup_insert]
  · rw [AList.lookup_insert_ne h, ManifestFiles.segmentFile]
    cases files.segments <;> rfl

theorem segmentDir_writeSegmentFile {files : ManifestFiles} {name : JsString} (bytes : Bytes)
    (hn : name = storeMarker ∨ name = lineageName ∨ isSegmentName name = true)
    (h : ∀ dir ∈ files.segments, SegmentDir dir) :
    ∀ dir ∈ (files.writeSegmentFile name bytes).segments, SegmentDir dir := by
  intro dir hd other ho
  rw [← Option.some.inj hd, ← AList.mem_keys, AList.mem_insert] at ho
  rcases ho with rfl | ho
  · exact hn
  · cases e : files.segments with
    | none =>
      rw [e] at ho
      exact absurd ho (AList.notMem_empty _)
    | some dir' =>
      rw [e] at ho
      exact h dir' e other (AList.mem_keys.mp ho)

theorem quiet_lineage (files : ManifestFiles) (bytes : Bytes) :
    Quiet files (files.writeSegmentFile lineageName bytes) where
  root := rfl
  file name hn := by rw [segmentFile_writeSegmentFile, if_neg hn]
  names := segmentDir_writeSegmentFile bytes (Or.inr (Or.inl rfl))

theorem quiet_withDirectory (files : ManifestFiles) :
    Quiet files (withDirectory files) where
  root := rfl
  file name _ := by
    rw [withDirectory, ManifestFiles.segmentFile, ManifestFiles.segmentFile]
    cases files.segments <;> rfl
  names h := by
    intro dir hd
    cases e : files.segments with
    | none =>
      rw [withDirectory, e] at hd
      rw [← Option.some.inj hd]
      intro name hn
      exact absurd hn (by simp)
    | some dir' =>
      rw [withDirectory, e] at hd
      exact h dir (e.trans hd)

theorem isSegmentName_ne {name : JsString} (h : isSegmentName name = true) :
    name ≠ storeMarker ∧ name ≠ lineageName := by
  constructor
  · rintro rfl
    exact absurd h (by simp [isSegmentName_reserved.1])
  · rintro rfl
    exact absurd h (by simp [isSegmentName_reserved.2])

theorem Quiet.isSegmentedRepo {before after : ManifestFiles} (h : Quiet before after) :
    isSegmentedRepo ν after = isSegmentedRepo ν before := by
  have hm := h.file storeMarker (by decide)
  simp only [Tickets.isSegmentedRepo, hasActivationMarker, rootEndsInCutover, hm, h.root]

theorem Good.quiet {key : Option JsString} {before after : ManifestFiles} (hg : Good ν key before)
    (h : Quiet before after) : Good ν key after where
  names := h.names hg.names
  root := by
    rw [h.root]
    exact hg.root
  segments name hs := by
    rw [h.root, h.file name (isSegmentName_ne hs).2]
    exact hg.segments name hs
  frozen name hs := by
    rw [h.file name (isSegmentName_ne hs).2, h.isSegmentedRepo]
    exact hg.frozen name hs

/-- A segment of a segmented repository is written to its end, or begun. -/
theorem Good.writeSegment {key : Option JsString} {files : ManifestFiles} {name : JsString}
    {bytes : Bytes} (hg : Good ν key files) (hn : isSegmentName name = true)
    (hseg : isSegmentedRepo ν files = true) (h : SegmentGood ν key files.root (some bytes)) :
    Good ν key (files.writeSegmentFile name bytes) where
  names := segmentDir_writeSegmentFile bytes (Or.inr (Or.inr hn)) hg.names
  root := hg.root
  segments other ho hs := by
    rw [segmentFile_writeSegmentFile] at hs ⊢
    split_ifs at hs ⊢ with he
    · exact h
    · exact hg.segments other ho hs
  frozen _ _ _ := by
    have hm : (files.writeSegmentFile name bytes).segmentFile storeMarker =
        files.segmentFile storeMarker := by
      rw [segmentFile_writeSegmentFile, if_neg (isSegmentName_ne hn).1.symm]
    simp only [Tickets.isSegmentedRepo, hasActivationMarker, hm] at hseg ⊢
    exact hseg

/-- While there is no segment, the root grows. -/
theorem Good.writeRoot {key : Option JsString} {files : ManifestFiles} {bytes : Bytes}
    {lines : List JsString} {last : ChainState ν} (hg : Good ν key files)
    (hseg : isSegmentedRepo ν files = false)
    (h : ChainFile ⟨key, true, false⟩ (some bytes) lines last) :
    Good ν key { files with root := some bytes } where
  names := hg.names
  root := ⟨lines, last, h⟩
  segments name hn hs := by
    have hf := hg.frozen name hn hs
    rw [hseg] at hf
    cases hf
  frozen name hn hs := by
    have hf := hg.frozen name hn hs
    rw [hseg] at hf
    cases hf

end Adlc.GateManifest
