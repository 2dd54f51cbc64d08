import Adlc.Core.Ledger
import Adlc.GateManifest.Invariant
import Adlc.Tickets.Evidence

namespace Adlc.GateManifest

open Adlc.Framework Adlc.Tickets

variable {ν : Type} [JsNumber ν]

/-- The line was appended to one of the manifest's files, here before and after. -/
inductive AppendedTo (before after : ManifestFiles) (line : JsString) :
    Option Bytes → Option Bytes → Prop where
  | root : after.root = some (appendLine before.root line) →
      AppendedTo before after line before.root after.root
  | segment (name : JsString) :
      after.segmentFile name = some (appendLine (before.segmentFile name) line) →
      AppendedTo before after line (before.segmentFile name) (after.segmentFile name)

/-- The lines of the file are those it had and the new one. -/
def KeepsLines (before after : Option Bytes) (line : JsString) : Prop :=
  linesOf after = linesOf before ++ [line]

theorem linesOf_eq (file : Option Bytes) : linesOf file = rawLines (utf8Decode (file.getD [])) := by
  cases file <;> rfl

/-- The law of the three writers: an entry's line becomes a line of its own exactly when the file was
terminated. -/
theorem keepsLines_appendLine_iff (file : Option Bytes) (entry : Json ν) :
    KeepsLines file (some (appendLine file (stringify entry))) (stringify entry) ↔
      Terminated file := by
  have h : linesOf (some (appendLine file (stringify entry))) =
      rawLines (utf8Decode (file.getD []) ++ (stringify entry ++ [10])) := by
    rw [linesOf, utf8Decode_appendLine]
  rw [KeepsLines, h, linesOf_eq file]
  exact rawLines_append_iff (lineOk_stringify entry)

theorem AppendedTo.keepsLines_iff {before after : ManifestFiles} {entry : Json ν}
    {old new : Option Bytes} (h : AppendedTo before after (stringify entry) old new) :
    KeepsLines old new (stringify entry) ↔ Terminated old := by
  cases h with
  | root e =>
    rw [e]
    exact keepsLines_appendLine_iff _ _
  | segment name e =>
    rw [e]
    exact keepsLines_appendLine_iff _ _

/-! ## The writers append one line -/

/-- What precedes an append to a segment leaves the segment's file as it was. -/
theorem segmentFile_resolved {co : Checkout} {key : Option JsString} {files files' : ManifestFiles}
    {resolved : OpenSegment ν} [Unicode]
    (h : resolveOpenSegment co key (withDirectory files) = .ok (resolved, files')) :
    files'.segmentFile resolved.name = files.segmentFile resolved.name ∧ files'.root = files.root := by
  have hd := quiet_withDirectory files
  have hsame : ∀ name, (withDirectory files).segmentFile name = files.segmentFile name := by
    intro name
    rw [withDirectory, ManifestFiles.segmentFile, ManifestFiles.segmentFile]
    cases files.segments <;> rfl
  rcases resolveOpenSegment_ok h with ⟨name, -, rfl, rfl⟩ | ⟨name, hn, rfl, rfl | ⟨bytes, rfl⟩⟩
  · exact ⟨hsame _, hd.root⟩
  · exact ⟨hsame _, hd.root⟩
  · have hl : name ≠ lineageName := (isSegmentName_ne hn).2
    have hq := hd.trans (quiet_lineage (withDirectory files) bytes)
    exact ⟨hq.file name hl, hq.root⟩

section

variable [Unicode]

omit [Unicode] in
theorem appendLockedEntry_file {key : Option JsString} {call : AppendCall ν} {payload : Members ν}
    {resolved : OpenSegment ν} {files files' : ManifestFiles} {entry : Json ν}
    (h : appendLockedEntry key call payload resolved files = .ok (entry, files')) :
    files'.segmentFile resolved.name =
      some (appendLine (files.segmentFile resolved.name) (stringify entry)) := by
  unfold appendLockedEntry at h
  obtain ⟨_, -, h⟩ := bind_eq_ok.mp h
  obtain ⟨_, -, h⟩ := bind_eq_ok.mp h
  obtain ⟨_, -, h⟩ := bind_eq_ok.mp h
  obtain ⟨_, -, h⟩ := bind_eq_ok.mp h
  obtain ⟨rfl, rfl⟩ := Prod.mk.inj (Except.ok.inj h)
  rw [segmentFile_writeSegmentFile, if_pos rfl]

theorem appendToSegment_appends {key : Option JsString} {call : AppendCall ν}
    {payload : Members ν} {files files' : ManifestFiles} {entry : Json ν}
    (h : appendToSegment key call payload files = (.ok entry, files')) :
    ∃ old new, AppendedTo files files' (stringify entry) old new := by
  unfold appendToSegment at h
  simp only at h
  split at h
  · cases h
  · split_ifs at h
    · cases h
    · split at h
      · cases h
      · rename_i resolved middle hres
        obtain ⟨hfile, -⟩ := segmentFile_resolved hres
        split at h
        · cases h
        · rename_i entry' after happ
          obtain ⟨he, rfl⟩ := Prod.mk.inj h
          obtain rfl := Except.ok.inj he
          have hf := appendLockedEntry_file happ
          rw [hfile] at hf
          exact ⟨_, _, .segment resolved.name hf⟩

theorem appendToRoot_appends {key : Option JsString} {call : AppendCall ν} {payload : Members ν}
    {files files' : ManifestFiles} {entry : Json ν}
    (h : appendToRoot key call payload files = .ok (entry, files')) :
    ∃ old new, AppendedTo files files' (stringify entry) old new := by
  unfold appendToRoot at h
  obtain ⟨_, -, h⟩ := bind_eq_ok.mp h
  obtain ⟨_, -, h⟩ := bind_eq_ok.mp h
  obtain ⟨_, -, h⟩ := bind_eq_ok.mp h
  obtain ⟨_, -, h⟩ := bind_eq_ok.mp h
  obtain ⟨rfl, rfl⟩ := Prod.mk.inj (Except.ok.inj h)
  exact ⟨_, _, .root rfl⟩

/-- A successful append of the gate manifest puts one line at the end of one file. -/
theorem appendManifestEntry_appends {keyParam : Option JsString} {call : AppendCall ν}
    {files files' : ManifestFiles} {entry : Json ν}
    (h : appendManifestEntry keyParam call files = (.ok entry, files')) :
    ∃ old new, AppendedTo files files' (stringify entry) old new := by
  unfold appendManifestEntry at h
  split at h
  · cases h
  · split at h
    · cases h
    · split_ifs at h
      · exact appendToSegment_appends h
      · split at h
        · cases h
        · rename_i happ
          obtain ⟨he, rfl⟩ := Prod.mk.inj h
          obtain rfl := Except.ok.inj he
          exact appendToRoot_appends happ
  · cases h

omit [Unicode] in
theorem appendToOpenSegment_file {key : Option JsString} {e : Evidence ν} {isoNow : JsString}
    {resolved : OpenSegment ν} {files files' : ManifestFiles} {entry : Json ν}
    (h : appendToOpenSegment key e isoNow resolved files = .ok (entry, files')) :
    files'.segmentFile resolved.name =
      some (appendLine (files.segmentFile resolved.name) (stringify entry)) := by
  unfold appendToOpenSegment at h
  simp only at h
  split_ifs at h
  obtain ⟨_, -, h⟩ := bind_eq_ok.mp h
  obtain ⟨_, -, h⟩ := bind_eq_ok.mp h
  obtain ⟨rfl, rfl⟩ := Prod.mk.inj (Except.ok.inj h)
  rw [segmentFile_writeSegmentFile, if_pos rfl]

theorem recordSegmentedTicketEvidence_appends {key : Option JsString} {checkout : Checkout}
    {e : Evidence ν} {files files' : ManifestFiles} {entry : Json ν}
    (h : recordSegmentedTicketEvidence key checkout e files = (.ok entry, files')) :
    Quiet files files' ∨ ∃ old new, AppendedTo files files' (stringify entry) old new := by
  unfold recordSegmentedTicketEvidence at h
  simp only at h
  split at h
  · cases h
  · cases h
  · split at h
    · cases h
    · obtain ⟨-, rfl⟩ := Prod.mk.inj h
      exact Or.inl (quiet_withDirectory files)
    · split at h
      · cases h
      · rename_i resolved middle hres
        obtain ⟨hfile, -⟩ := segmentFile_resolved hres
        split at h
        · cases h
        · rename_i entry' after happ
          obtain ⟨he, rfl⟩ := Prod.mk.inj h
          obtain rfl := Except.ok.inj he
          have hf := appendToOpenSegment_file happ
          rw [hfile] at hf
          exact Or.inr ⟨_, _, .segment resolved.name hf⟩

theorem recordRootTicketEvidence_appends {key : Option JsString} {checkout : Checkout}
    {e : Evidence ν} {files files' : ManifestFiles} {entry : Json ν}
    (h : recordRootTicketEvidence key checkout e files = (.ok entry, files')) :
    Quiet files files' ∨ ∃ old new, AppendedTo files files' (stringify entry) old new := by
  unfold recordRootTicketEvidence at h
  simp only at h
  split at h
  · cases h
  · obtain ⟨-, rfl⟩ := Prod.mk.inj h
    exact Or.inl (Quiet.refl files)
  · split_ifs at h
    · cases h
    · split at h
      · cases h
      · obtain ⟨he, rfl⟩ := Prod.mk.inj h
        obtain rfl := Except.ok.inj he
        exact Or.inr ⟨_, _, .root rfl⟩

/-- Recording evidence finds it among the entries that are there, or puts one line at the end of one
file. -/
theorem recordTicketEvidence_appends {keyParam : Option JsString} {checkout : Checkout}
    {e : Evidence ν} {files files' : ManifestFiles} {entry : Json ν}
    (h : recordTicketEvidence keyParam checkout e files = (.ok entry, files')) :
    Quiet files files' ∨ ∃ old new, AppendedTo files files' (stringify entry) old new := by
  unfold recordTicketEvidence at h
  split at h
  · cases h
  · split_ifs at h
    · exact recordSegmentedTicketEvidence_appends h
    · exact recordRootTicketEvidence_appends h

/-- A successful append of any of the three writers keeps the file's lines and adds its own exactly
when the file it goes to is empty or ends in a line feed. -/
theorem append_keeps_lines_iff :
    (∀ shapes name (entry result : Json ν) file file',
      Core.appendEntry shapes name entry file = .ok (result, file') →
        (KeepsLines file file' (stringify result) ↔ Terminated file)) ∧
    (∀ keyParam (call : AppendCall ν) files entry files',
      appendManifestEntry keyParam call files = (.ok entry, files') →
        ∃ old new, AppendedTo files files' (stringify entry) old new ∧
          (KeepsLines old new (stringify entry) ↔ Terminated old)) ∧
    (∀ keyParam checkout (e : Evidence ν) files entry files',
      recordTicketEvidence keyParam checkout e files = (.ok entry, files') →
        Quiet files files' ∨ ∃ old new, AppendedTo files files' (stringify entry) old new ∧
          (KeepsLines old new (stringify entry) ↔ Terminated old)) := by
  refine ⟨?_, ?_, ?_⟩
  · intro shapes name entry result file file' h
    obtain ⟨rfl, rfl⟩ := Core.appendEntry_file h
    exact keepsLines_appendLine_iff file result
  · intro keyParam call files entry files' h
    obtain ⟨old, new, ha⟩ := appendManifestEntry_appends h
    exact ⟨old, new, ha, ha.keepsLines_iff⟩
  · intro keyParam checkout e files entry files' h
    rcases recordTicketEvidence_appends h with hq | ⟨old, new, ha⟩
    · exact Or.inl hq
    · exact Or.inr ⟨old, new, ha, ha.keepsLines_iff⟩

end

/-- A ledger whose one line has no line feed at its end. -/
def cutText : JsString := js "\x7b\x22seq\x22:1\x7d"

def cutLedger : Bytes := utf8Encode cutText

theorem cutLedger_not_terminated : ¬Terminated (some cutLedger) := by
  have hw : wellFormed cutText = true := by decide +kernel
  have hd : utf8Decode cutLedger = cutText := utf8Decode_encode_of_wellFormed _ hw
  intro h
  rw [Terminated, Option.getD_some, hd] at h
  exact absurd (h 125 (by decide)) (by decide)

/-- The next entry is glued to the last line of such a ledger. -/
theorem cut_ledger_glues :
    ∃ file', Core.appendEntry ⟨[], fun _ => false⟩ (js "routing") (.obj [] : Json Int)
        (some cutLedger) = .ok (.obj [], file') ∧
      ¬KeepsLines (some cutLedger) file' (stringify (.obj [] : Json Int)) := by
  have hne : ¬js "routing" = Core.findingsLedger := by decide
  refine ⟨some (appendLine (some cutLedger) (stringify (.obj [] : Json Int))), ?_, ?_⟩
  · unfold Core.appendEntry Core.appendEntries
    simp only [hne, bind, Except.bind, if_false, pure, Except.pure, Except.map, List.cons_ne_nil]
    simp only [Core.appendAll, appendLine, unlines, List.map_cons, List.map_nil, List.flatMap_cons,
      List.flatMap_nil, List.append_nil]
  · rw [keepsLines_appendLine_iff]
    exact cutLedger_not_terminated

end Adlc.GateManifest
