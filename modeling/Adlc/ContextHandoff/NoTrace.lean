import Adlc.ContextHandoff.Consumption

namespace Adlc.ContextHandoff

open Adlc.Framework Adlc.Tickets

variable {ν : Type} [JsNumber ν]

/-! ## A command that fails -/

/-- A handoff directory that no process has changed since the command began. -/
def found (files : HandoffFile → Option Bytes) : HandoffDisk where
  bytes := files
  touched := fun _ => false
  ours := fun _ => false

/-- The files are as they were found, but for those that other processes changed, and no resume-auth of
the command is left. -/
structure NoTrace (files : HandoffFile → Option Bytes) (disk : HandoffDisk) : Prop where
  kept : ∀ f, disk.touched f = false → disk.bytes f = files f
  unauthorized : ∀ session, ¬(disk.ours (.resumeAuth session) = true ∧
    (disk.bytes (.resumeAuth session)).isSome = true)

section Commands

variable {env : ConsumeEnv ν} {S : HandoffFile → Prop} {files : HandoffFile → Option Bytes}
  {disk disk' : HandoffDisk} {session key : JsString} {record expected : Json ν} {auth : Authorization}
  {fault : HandoffFault}

/-- From the first disk to the second one a command has put back the files that it changed, and holds
none of the resume-auths among them. -/
structure Undone (S : HandoffFile → Prop) (disk disk' : HandoffDisk) : Prop where
  only : OnlyIn S disk disk'
  kept : ∀ f, S f → Intact f disk disk'
  unauthorized : ∀ session, S (.resumeAuth session) → ¬(disk'.ours (.resumeAuth session) = true ∧
    (disk'.bytes (.resumeAuth session)).isSome = true)

omit [JsNumber ν] in
theorem NoTrace.of_undone (hread : OnlyIn (fun _ => False) (found files) disk) (h : Undone S disk disk') :
    NoTrace files disk' := by
  have honly : OnlyIn S (found files) disk' := (hread.mono fun _ h => h.elim).trans h.only
  constructor
  · intro f htouched
    have hbefore := hread.kept f id (h.only.touched f htouched)
    by_cases hf : S f
    · exact (h.kept f hf htouched).trans hbefore
    · exact honly.kept f hf htouched
  · intro session
    by_cases hf : S (.resumeAuth session)
    · exact h.unauthorized session hf
    · rintro ⟨hours, -⟩
      have hfound := (honly.ours _ hf hours).1
      cases hfound

omit [JsNumber ν] in
theorem NoTrace.of_read (hread : OnlyIn (fun _ => False) (found files) disk) : NoTrace files disk :=
  NoTrace.of_undone (S := fun _ => False) hread ⟨OnlyIn.refl _ disk, fun _ h => h.elim, fun _ h => h.elim⟩

variable (ν session) in
theorem readFinal_only (turn : Step → Turn HandoffFile) :
    OnlyIn S disk (readFinal turn session disk : Option (Json ν) × HandoffDisk).2 := currentBytes_only

theorem readResumeAuth_only : OnlyIn S disk (readResumeAuth env session key disk).2 :=
  OnlyIn.readFileSync _ (.resumeAuth session) _

omit [JsNumber ν] in
variable (env) in
theorem evidenceOk_only : OnlyIn S disk (evidenceOk env disk).2 := OnlyIn.before _ _

/-- A record that is not written leaves the marker as it is. -/
theorem writeDenyRecord_failed {turn : Turn HandoffFile}
    (h : (writeDenyRecord turn record disk).1.isSome ≠ true) :
    OnlyIn S disk (writeDenyRecord turn record disk).2 := by
  rw [writeDenyRecord.eq_def] at h ⊢
  cases hsession : safeSessionId? (record.get? (js "session_id")) with
  | none => exact OnlyIn.refl S disk
  | some session =>
    rw [hsession] at h
    dsimp only at h ⊢
    split_ifs at h ⊢ with hstatus hwrote
    · exact absurd rfl h
    · rw [Bool.not_eq_true] at hwrote
      exact writeTextAtomic_failed hwrote
    · exact OnlyIn.refl S disk

/-! ### Continuing -/

/-- The resume-auth that is created. -/
def authText (env : ConsumeEnv ν) (key : JsString) (auth : Authorization) : JsString :=
  jsonFile (buildResumeAuthDoc env key auth)

theorem authText_wellFormed (env : ConsumeEnv ν) (key : JsString) (auth : Authorization) :
    wellFormed (authText env key auth) = true := jsonFile_wellFormed _

/-- A successor is refused where its resume-auth was not created, or that resume-auth is undone. -/
theorem authorizeSuccessor_failed
    (h : (authorizeSuccessor env key auth expected disk).1 = .error fault) :
    ((writeTextExclusive (env.turns .mint .writes) (.resumeAuth auth.consumerSessionId)
        (authText env key auth) disk).1 ≠ .created ∧
      (authorizeSuccessor env key auth expected disk).2 =
        (writeTextExclusive (env.turns .mint .writes) (.resumeAuth auth.consumerSessionId)
          (authText env key auth) disk).2) ∨
    ((writeTextExclusive (env.turns .mint .writes) (.resumeAuth auth.consumerSessionId)
        (authText env key auth) disk).1 = .created ∧
      ∃ disk', OnlyIn (fun _ => False) (writeTextExclusive (env.turns .mint .writes)
          (.resumeAuth auth.consumerSessionId) (authText env key auth) disk).2 disk' ∧
        (authorizeSuccessor env key auth expected disk).2 =
          (restoreIfOurs (env.turns .undoAuth) (.resumeAuth auth.consumerSessionId)
            (some (authText env key auth)) none disk').2) := by
  rw [authorizeSuccessor.eq_def] at h ⊢
  dsimp only at h ⊢
  rw [← authText] at h ⊢
  set wrote := writeTextExclusive (env.turns .mint .writes) (.resumeAuth auth.consumerSessionId)
    (authText env key auth) disk with hwrote
  cases hcreated : wrote.1 with
  | alreadyThere => exact Or.inl ⟨by simp, rfl⟩
  | failed => exact Or.inl ⟨by simp, rfl⟩
  | created =>
    right
    rw [hcreated] at h
    dsimp only at h ⊢
    have hread : OnlyIn (fun _ => False) wrote.2 (readResumeAuth env auth.consumerSessionId key wrote.2).2 :=
      readResumeAuth_only
    refine ⟨rfl, ?_⟩
    split at h
    · rename_i hverified
      rw [if_pos hverified]
      cases hconsume : consumeDenyRecord expected auth.consumerSessionId
          (readResumeAuth env auth.consumerSessionId key wrote.2).1 (env.now .consume) with
      | error fault => exact ⟨_, hread, rfl⟩
      | ok consumed =>
        rw [hconsume] at h
        dsimp only at h ⊢
        have hevidence := hread.trans (evidenceOk_only env)
        split at h
        · rename_i hrecorded
          rw [if_pos hrecorded]
          have hours := hevidence.trans (markerUnchanged_only (env.turns .recheck) auth.denySessionId
            expected)
          cases hunchanged : (markerUnchanged (env.turns .recheck) auth.denySessionId expected
              (evidenceOk env (readResumeAuth env auth.consumerSessionId key wrote.2).2).2).1 with
          | error fault => exact ⟨_, hours, rfl⟩
          | ok _ =>
            rw [hunchanged] at h
            dsimp only at h ⊢
            split_ifs at h ⊢ with hpersisted
            exact ⟨_, hours.trans (writeDenyRecord_failed hpersisted), rfl⟩
        · rename_i hrecorded
          rw [if_neg hrecorded]
          exact ⟨_, hevidence, rfl⟩
    · rename_i hverified
      rw [if_neg hverified]
      exact ⟨_, hread, rfl⟩

/-- A refused successor holds no resume-auth of the command. -/
theorem authorizeSuccessor_undone (hfails : (authorizeSuccessor env key auth expected disk).1 = .error fault)
    (htorn : ∀ n, (env.turns .mint .writes).outcome ≠ .torn n) (hundo : UndoDone (env.turns .undoAuth))
    (hours : disk.ours (.resumeAuth auth.consumerSessionId) = false) :
    Undone (· = .resumeAuth auth.consumerSessionId) disk
      (authorizeSuccessor env key auth expected disk).2 := by
  obtain ⟨hnot, heq⟩ | ⟨hcreated, disk', hread, heq⟩ := authorizeSuccessor_failed hfails
  · have honly : ∀ S, OnlyIn S disk (authorizeSuccessor env key auth expected disk).2 := by
      intro S
      rw [heq]
      exact writeTextExclusive_not htorn hnot
    refine ⟨honly _, fun f _ => (honly fun _ => False).kept f id, ?_⟩
    rintro session hsession ⟨hmine, -⟩
    rw [hsession] at hmine
    rw [((honly fun _ => False).ours _ id hmine).1] at hours
    cases hours
  · obtain ⟨hbytes, hnone⟩ := writeTextExclusive_created hcreated
    have hwrote : OnlyIn (· = .resumeAuth auth.consumerSessionId) disk
        (writeTextExclusive (env.turns .mint .writes) (.resumeAuth auth.consumerSessionId)
          (authText env key auth) disk).2 := by
      apply OnlyIn.writeTextExclusive
      rfl
    have hundone : OnlyIn (· = .resumeAuth auth.consumerSessionId) disk'
        (restoreIfOurs (env.turns .undoAuth) (.resumeAuth auth.consumerSessionId)
          (some (authText env key auth)) none disk').2 := restoreIfOurs_only rfl
    rw [heq]
    refine ⟨(hwrote.trans (hread.mono fun _ h => h.elim)).trans hundone, ?_, ?_⟩
    · rintro f rfl htouched
      have hrestored := restoreIfOurs_restores hundo (authText_wellFormed env key auth)
        (fun h => (hread.kept _ id h).trans hbytes) htouched
      rw [hrestored, hnone (hread.touched _ (hundone.touched _ htouched)), Option.map_none]
    · intro session hsession
      rw [hsession]
      exact restoreIfOurs_removes hundo (authText_wellFormed env key auth)
        fun h => ((hread.ours _ id h).2).trans hbytes

omit [JsNumber ν] in
/-- Where nothing was written, an undoing changes nothing. -/
theorem restoreIfOurs_none {turn : Step → Turn HandoffFile} {f : HandoffFile} {prior : Option JsString}
    (hturn : UndoDone turn)
    (hprior : disk.touched f = false → prior.map utf8Encode = disk.bytes f) :
    Intact f disk (restoreIfOurs turn f none prior disk).2 := by
  intro htouched
  have hnow : OnlyIn (fun _ => False) disk (currentBytes turn f disk).2 := currentBytes_only
  have hafter : OnlyIn (fun _ => True) (currentBytes turn f disk).2
      (restoreIfOurs turn f none prior disk).2 := restoreIfOurs_after trivial
  have hsame := hnow.kept f id (hafter.touched f htouched)
  have hbefore := hprior (hnow.touched f (hafter.touched f htouched))
  have heq := currentBytes_eq f disk hturn.looks hturn.reads
  rw [restoreIfOurs.eq_def]
  dsimp only
  by_cases hother : (currentBytes turn f disk).1 = none
  · rw [if_neg (not_not_intro hother)]
    cases prior with
    | none =>
      dsimp only
      rw [if_pos hother]
      exact hsame
    | some text =>
      rw [heq, hsame, ← hbefore] at hother
      cases hother
  · rw [if_pos hother]
    exact hsame

/-- No call of a reading back fails. -/
structure ReadsBack (turn : Step → Turn HandoffFile) : Prop where
  looks : (turn .looks).outcome = .done
  sizes : (turn .sizes).outcome = .done
  looksAgain : (turn .looksAgain).outcome = .done
  reads : (turn .reads).outcome = .done

omit [JsNumber ν] in
theorem readVerifiedCapture_only {hash : JsString} :
    OnlyIn S disk (readVerifiedCapture env session hash disk).2 := by
  have hfound := OnlyIn.existsSync (S := S) (env.turns .readBack .looks) (.capture session) disk
  have hsized := hfound.trans (OnlyIn.before (env.turns .readBack .sizes) _)
  have hagain := hsized.trans (OnlyIn.existsSync (env.turns .readBack .looksAgain) (.capture session) _)
  rw [readVerifiedCapture]
  split_ifs
  · exact OnlyIn.refl S disk
  · exact hfound
  · exact hsized
  · exact hagain
  · exact hagain.trans (OnlyIn.readFileSync (env.turns .readBack .reads) (.capture session) _)

omit [JsNumber ν] in
/-- A capture that stands as it was written is verified. -/
theorem readVerifiedCapture_written {stored : JsString} (hreads : ReadsBack (env.turns .readBack))
    (hsize : (utf8Encode stored).length ≤ maxCaptureBytes) (hwf : wellFormed stored = true)
    (hbytes : disk.bytes (.capture session) = some (utf8Encode stored))
    (htouched : (readVerifiedCapture env session (env.hashCaptureBody stored) disk).2.touched
      (.capture session) = false) :
    (readVerifiedCapture env session (env.hashCaptureBody stored) disk).1 = true := by
  have hfound := OnlyIn.existsSync (S := fun _ => False) (env.turns .readBack .looks) (.capture session) disk
  have hsized := hfound.trans (OnlyIn.before (env.turns .readBack .sizes) _)
  have hagain := hsized.trans (OnlyIn.existsSync (env.turns .readBack .looksAgain) (.capture session) _)
  have hread := hagain.trans (OnlyIn.readFileSync (env.turns .readBack .reads) (.capture session) _)
  rw [readVerifiedCapture, if_neg (env.hashCaptureBody_ne stored)] at htouched ⊢
  split_ifs at htouched ⊢ with hlooks hsizes hlooksAgain
  · rw [Bool.not_eq_true', ] at hlooks
    have hgone := existsSync_false hreads.looks hlooks
    rw [hfound.kept _ id htouched, hbytes] at hgone
    cases hgone
  · exfalso
    rw [hsized.kept _ id htouched, hbytes, Option.map_some, Option.any_some] at hsizes
    simp [hreads.sizes, hsize] at hsizes
  · rw [Bool.not_eq_true'] at hlooksAgain
    have hgone := existsSync_false hreads.looksAgain hlooksAgain
    rw [hagain.kept _ id htouched, hbytes] at hgone
    cases hgone
  · rw [readFileSync_eq hreads.reads, hread.kept _ id htouched, hbytes, Option.map_some,
      utf8Decode_encode_of_wellFormed stored hwf, Option.any_some]
    exact decide_eq_true rfl

/-- What the capture needs, to be written or to leave no trace. -/
structure CaptureReady (env : ConsumeEnv ν) (session body : JsString) (disk : HandoffDisk) : Prop where
  prior : Restorable (env.turns .priorCapture) (.capture session) disk
  text : (env.turns .writeCapture .writes).outcome = .done → wellFormed (capCaptureBody body) = true
  readBack : (env.turns .writeCapture .writes).outcome = .done → ReadsBack (env.turns .readBack)
  undo : UndoDone (env.turns .undoCapture)

omit [JsNumber ν] in
variable (env session disk) in
/-- A capture is stored as it was written, or the file has other bytes only where another process put
them. -/
theorem writeVerifiedCapture_spec {body : JsString}
    (htext : (env.turns .writeCapture .writes).outcome = .done → wellFormed (capCaptureBody body) = true)
    (hreads : (env.turns .writeCapture .writes).outcome = .done → ReadsBack (env.turns .readBack)) :
    OnlyIn (· = .capture session) disk (writeVerifiedCapture env session body disk).2 ∧
    (∀ fault, (writeVerifiedCapture env session body disk).1 = .error fault →
      Intact (.capture session) disk (writeVerifiedCapture env session body disk).2) ∧
    ∀ stored, (writeVerifiedCapture env session body disk).1 = .ok stored → wellFormed stored = true ∧
      ((writeVerifiedCapture env session body disk).2.touched (.capture session) = false →
        (writeVerifiedCapture env session body disk).2.bytes (.capture session) = some (utf8Encode stored)) := by
  rw [writeVerifiedCapture]
  set stored := capCaptureBody body with hstored
  by_cases hwrote : (writeTextAtomic (env.turns .writeCapture .writes) (.capture session) stored disk).1 = true
  · rw [if_pos hwrote]
    set written := (writeTextAtomic (env.turns .writeCapture .writes) (.capture session) stored disk).2
    have hbytes : written.bytes (.capture session) = some (utf8Encode stored) := writeTextAtomic_ok hwrote
    have hdone := writeTextAtomic_turn hwrote
    have hwrite : OnlyIn (· = .capture session) disk written := OnlyIn.writeTextAtomic_self _ _ _ _
    have hread : OnlyIn (fun _ => False) written
        (readVerifiedCapture env session (env.hashCaptureBody stored) written).2 := readVerifiedCapture_only
    dsimp only
    by_cases hverified : (readVerifiedCapture env session (env.hashCaptureBody stored) written).1 = true
    · rw [if_pos hverified]
      refine ⟨hwrite.trans (hread.mono fun _ h => h.elim), fun fault h => (by cases h), fun s h => ?_⟩
      obtain rfl := Except.ok.inj h
      exact ⟨htext hdone, fun htouched => (hread.kept _ id htouched).trans hbytes⟩
    · rw [if_neg hverified]
      refine ⟨hwrite.trans (hread.mono fun _ h => h.elim), fun fault _ htouched => ?_,
        fun s h => (by cases h)⟩
      exact absurd (readVerifiedCapture_written (hreads hdone) (capCaptureBody_length body) (htext hdone)
        hbytes htouched) hverified
  · rw [if_neg hwrote]
    rw [Bool.not_eq_true] at hwrote
    have honly : ∀ S, OnlyIn S disk
        (writeTextAtomic (env.turns .writeCapture .writes) (.capture session) stored disk).2 :=
      fun S => writeTextAtomic_failed hwrote
    exact ⟨honly _, fun fault _ htouched => (honly fun _ => False).kept _ id htouched,
      fun s h => (by cases h)⟩

omit [JsNumber ν] in
theorem Made.after {before : HandoffDisk} {checkpoint : Checkpoint}
    (h : Made session before disk checkpoint) (honly : OnlyIn S disk disk') (hfinal : ¬S (.final session))
    (hmarker : ¬S (.marker session)) : Made session before disk' checkpoint := by
  refine ⟨h.finalText, fun ht => ?_, fun ht => h.priorFinal (honly.touched _ ht), fun hunbound => ?_,
    fun prior text hrebound => ⟨(h.rebound prior text hrebound).1, fun ht => ?_⟩⟩
  · rw [honly.kept _ hfinal ht]
    exact h.final (honly.touched _ ht)
  · exact (h.unbound hunbound).trans (honly.kept _ hmarker) honly
  · rw [honly.kept _ hmarker ht]
    exact (h.rebound prior text hrebound).2 (honly.touched _ ht)

/-- The files of the denied session, which `continue` writes. -/
def DenyFile (session : JsString) (f : HandoffFile) : Prop := f = .capture session ∨ CheckpointFile session f

theorem denyFile_resumeAuth (session other : JsString) : ¬DenyFile session (.resumeAuth other) := by
  rintro (h | h | h)
  · cases h
  · cases h
  · cases h

/-- What `continue` needs once the deny is claimed, to end well or to leave no trace. -/
structure ContinueReady (env : ConsumeEnv ν) (opts : ContinueOpts) (disk : HandoffDisk) : Prop where
  capture : CaptureReady env opts.denySession (capCaptureBody opts.brief) disk
  checkpoint : (env.turns .writeCapture .writes).outcome = .done → CheckpointReady env opts.denySession disk
  marker : (env.turns .writeFinal .writes).outcome = .done → UndoDone (env.turns .undoMarker)
  mint : (env.turns .writeFinal .writes).outcome = .done →
    (∀ n, (env.turns .mint .writes).outcome ≠ .torn n) ∧ UndoDone (env.turns .undoAuth)

omit [JsNumber ν] in
/-- The files of a denied session that are all back are no trace of the command. -/
theorem Undone.of_denied (honly : OnlyIn (DenyFile session) disk disk')
    (hcapture : Intact (.capture session) disk disk') (hfinal : Intact (.final session) disk disk')
    (hmarker : Intact (.marker session) disk disk') : Undone (DenyFile session) disk disk' := by
  refine ⟨honly, ?_, ?_⟩
  · rintro f (rfl | rfl | rfl)
    · exact hcapture
    · exact hfinal
    · exact hmarker
  · exact fun other h => absurd h (denyFile_resumeAuth session other)

omit [JsNumber ν] in
variable (env) in
/-- What `continue` made is undone, whatever came in between with the resume-auth. -/
theorem undoFiles_undone {claimed captured checkpointed : HandoffDisk} {stored : JsString}
    {prior : Option JsString} {made : Checkpoint}
    (hcaptured : OnlyIn (· = .capture session) claimed captured)
    (hstored : wellFormed stored = true ∧ (captured.touched (.capture session) = false →
      captured.bytes (.capture session) = some (utf8Encode stored)))
    (hprior : captured.touched (.capture session) = false →
      prior.map utf8Encode = claimed.bytes (.capture session))
    (hcheckpointed : OnlyIn (CheckpointFile session) captured checkpointed)
    (hmade : Made session captured checkpointed made)
    (hbetween : OnlyIn S checkpointed disk) (hS : ∀ f, DenyFile session f → ¬S f)
    (hcapture : UndoDone (env.turns .undoCapture)) (hfinal : UndoDone (env.turns .undoFinal))
    (hmarker : UndoDone (env.turns .undoMarker)) :
    OnlyIn (DenyFile session) disk
      (rollbackCapture env session (some stored) prior (rollbackCheckpoint env session made disk)) ∧
    ∀ f, DenyFile session f → Intact f claimed
      (rollbackCapture env session (some stored) prior (rollbackCheckpoint env session made disk)) := by
  have hfinalFile : ¬S (.final session) := hS _ (Or.inr (Or.inl rfl))
  have hmarkerFile : ¬S (.marker session) := hS _ (Or.inr (Or.inr rfl))
  obtain ⟨hrolled, hkeptFinal, hkeptMarker⟩ :=
    rollbackCheckpoint_spec (hmade.after hbetween hfinalFile hmarkerFile) hfinal hmarker
  set rolled := rollbackCheckpoint env session made disk
  have hundo : OnlyIn (· = .capture session) rolled (rollbackCapture env session (some stored) prior rolled) :=
    restoreIfOurs_only rfl
  have hne : ¬CheckpointFile session (.capture session) := by
    rintro (h | h)
    · cases h
    · cases h
  have hother : ∀ f, f ≠ .capture session → Intact f captured rolled →
      Intact f claimed (rollbackCapture env session (some stored) prior rolled) := by
    intro f hf hkept htouched
    rw [hundo.kept f hf htouched, hkept (hundo.touched f htouched)]
    have hlater := ((hcheckpointed.mono fun _ _ => trivial).trans (hbetween.mono fun _ _ => trivial)).trans
      (hrolled.mono fun _ _ => (trivial : (fun _ => True) f))
    exact hcaptured.kept f hf (hlater.touched f (hundo.touched f htouched))
  refine ⟨(hrolled.mono fun f h => Or.inr h).trans (hundo.mono fun f h => Or.inl h), ?_⟩
  rintro f (rfl | rfl | rfl)
  · intro htouched
    have hkept := (hcheckpointed.kept _ hne)
    have hours : rolled.touched (.capture session) = false →
        rolled.bytes (.capture session) = some (utf8Encode stored) := by
      intro ht
      have ht' := hrolled.touched _ ht
      rw [hrolled.kept _ hne ht, hbetween.kept _ (hS _ (Or.inl rfl)) ht', hkept (hbetween.touched _ ht')]
      exact hstored.2 (hcheckpointed.touched _ (hbetween.touched _ ht'))
    rw [← hprior (hcheckpointed.touched _ (hbetween.touched _ (hrolled.touched _ (hundo.touched _ htouched))))]
    exact restoreIfOurs_restores hcapture hstored.1 hours htouched
  · exact hother _ (by simp) hkeptFinal
  · exact hother _ (by simp) hkeptMarker

omit [JsNumber ν] in
/-- A resume-auth that the command never held is among the files that are back. -/
theorem Undone.or_auth {successor : JsString} (h : Undone (DenyFile session) disk disk')
    (hours : disk.ours (.resumeAuth successor) = false) :
    Undone (fun f => DenyFile session f ∨ f = .resumeAuth successor) disk disk' := by
  have hother := denyFile_resumeAuth session successor
  refine ⟨h.only.mono fun f hf => Or.inl hf, ?_, ?_⟩
  · rintro f (hf | rfl)
    · exact h.kept f hf
    · exact h.only.kept _ hother
  · rintro other (hf | hf)
    · exact h.unauthorized other hf
    · rintro ⟨hmine, -⟩
      rw [hf] at hmine
      rw [(h.only.ours _ hother hmine).1] at hours
      cases hours

omit [JsNumber ν] in
theorem writeVerifiedCapture_turn {body stored : JsString}
    (h : (writeVerifiedCapture env session body disk).1 = .ok stored) :
    (env.turns .writeCapture .writes).outcome = .done := by
  by_contra hnot
  rw [writeVerifiedCapture, writeTextAtomic, if_neg hnot] at h
  cases h

theorem writeCheckpoint_turn {bind : Bind} {checkpoint : Checkpoint}
    (h : (writeCheckpoint env session bind expected disk).1 = .ok checkpoint) :
    (env.turns .writeFinal .writes).outcome = .done := by
  by_contra hnot
  rw [writeCheckpoint, writeTextAtomic, if_neg hnot] at h
  cases h

omit [JsNumber ν] in
theorem currentBytes_prior {f : HandoffFile} {turn : Step → Turn HandoffFile}
    (hprior : Restorable turn f disk) (honly : OnlyIn S (currentBytes turn f disk).2 disk') :
    disk'.touched f = false → (currentBytes turn f disk).1.map utf8Encode = disk.bytes f :=
  fun htouched => hprior.snapshot (honly.touched f htouched)

/-- A `continue` that fails after the claim has put back the files of the denied session and of its
successor. -/
theorem continueClaimed_undone {opts : ContinueOpts} {claim : Claim ν}
    (hfails : (continueClaimed env opts claim disk).1 = .error fault)
    (hready : ContinueReady env opts disk) (hvalid : ValidMarker ν opts.denySession disk)
    (hours : disk.ours (.resumeAuth opts.successor) = false) :
    Undone (fun f => DenyFile opts.denySession f ∨ f = .resumeAuth opts.successor) disk
      (continueClaimed env opts claim disk).2 := by
  set deny := opts.denySession with hdeny
  set prior := currentBytes (env.turns .priorCapture) (.capture deny) disk with hprior
  set capture := writeVerifiedCapture env deny (capCaptureBody opts.brief) prior.2 with hcapture
  have hread : OnlyIn (fun _ => False) disk prior.2 := currentBytes_only
  obtain ⟨hcapOnly, hcapError, hcapOk⟩ := writeVerifiedCapture_spec env prior.2 deny hready.capture.text hready.capture.readBack
  rw [← hcapture] at hcapOnly hcapError hcapOk
  have hcaptured : OnlyIn (· = .capture deny) disk capture.2 := (hread.mono fun _ h => h.elim).trans hcapOnly
  have hsnapshot : capture.2.touched (.capture deny) = false →
      prior.1.map utf8Encode = disk.bytes (.capture deny) := currentBytes_prior hready.capture.prior hcapOnly
  have hother := denyFile_resumeAuth deny opts.successor
  have hne : ∀ f, CheckpointFile deny f → f ≠ .capture deny := by
    rintro f (rfl | rfl)
    · simp
    · simp
  rw [continueClaimed.eq_def] at hfails ⊢
  dsimp only at hfails ⊢
  rw [← hdeny, ← hprior, ← hcapture] at hfails ⊢
  cases hstored : capture.1 with
  | error fault =>
    dsimp only
    have hundo : OnlyIn (· = .capture deny) capture.2 (rollbackCapture env deny none prior.1 capture.2) :=
      restoreIfOurs_only rfl
    have honly := hcaptured.trans hundo
    have hkept : Intact (.capture deny) disk capture.2 :=
      Intact.trans (hread.kept _ id) (hcapError fault hstored) hcapOnly
    have hback : Intact (.capture deny) capture.2 (rollbackCapture env deny none prior.1 capture.2) := by
      refine restoreIfOurs_none hready.capture.undo fun htouched => ?_
      rw [hsnapshot htouched, hkept htouched]
    refine Undone.or_auth (Undone.of_denied (honly.mono fun f h => Or.inl h) ?_ ?_ ?_) hours
    · exact hkept.trans hback hundo
    · exact honly.kept _ (by simp)
    · exact honly.kept _ (by simp)
  | ok stored =>
    rw [hstored] at hfails
    dsimp only at hfails ⊢
    obtain ⟨hwf, hbytes⟩ := hcapOk stored hstored
    obtain ⟨hfinal, hmarker, hensure, hundoFinal⟩ := hready.checkpoint (writeVerifiedCapture_turn hstored)
    have hcheckpointReady : CheckpointReady env deny capture.2 :=
      ⟨hfinal.after hcaptured (hne _ (Or.inl rfl)), hmarker.after hcaptured (hne _ (Or.inr rfl)), hensure,
        hundoFinal⟩
    have hvalid' := hvalid.after hcaptured (hne _ (Or.inr rfl))
    set bind : Bind := ⟨claim.ticketId, claim.contentHash, js "capture", opts.host⟩
    obtain ⟨hcpOnly, hcpError, hcpOk⟩ := writeCheckpoint_spec bind claim.record
      hcheckpointReady hvalid'
    set checkpoint := writeCheckpoint env deny bind claim.record capture.2 with hcheckpoint
    have hcapOther : ¬CheckpointFile deny (.capture deny) := fun h => hne _ h rfl
    have hdenied := (hcaptured.mono fun f h => Or.inl h).trans (hcpOnly.mono fun f h => Or.inr h)
    cases hmade : checkpoint.1 with
    | error fault =>
      dsimp only
      have hundo : OnlyIn (· = .capture deny) checkpoint.2
          (rollbackCapture env deny (some stored) prior.1 checkpoint.2) := restoreIfOurs_only rfl
      obtain ⟨hkeptFinal, hkeptMarker⟩ := hcpError fault hmade
      refine Undone.or_auth (Undone.of_denied (hdenied.trans (hundo.mono fun f h => Or.inl h)) ?_ ?_ ?_) hours
      · intro htouched
        rw [← hsnapshot (hcpOnly.touched _ (hundo.touched _ htouched))]
        refine restoreIfOurs_restores hready.capture.undo hwf (fun ht => ?_) htouched
        rw [hcpOnly.kept _ hcapOther ht, hbytes (hcpOnly.touched _ ht)]
      · exact (Intact.trans (hcaptured.kept _ (by simp)) hkeptFinal hcpOnly).trans
          (hundo.kept _ (by simp)) hundo
      · exact (Intact.trans (hcaptured.kept _ (by simp)) hkeptMarker hcpOnly).trans
          (hundo.kept _ (by simp)) hundo
    | ok made =>
      rw [hmade] at hfails
      dsimp only at hfails ⊢
      have hfinalDone := writeCheckpoint_turn hmade
      have hundo : ∀ {S : HandoffFile → Prop} {disk'}, OnlyIn S checkpoint.2 disk' →
          (∀ f, DenyFile deny f → ¬S f) → _ := fun hbetween hS =>
        undoFiles_undone env hcaptured ⟨hwf, hbytes⟩ hsnapshot hcpOnly (hcpOk made hmade) hbetween hS
          hready.capture.undo hundoFinal (hready.marker hfinalDone)
      have hbound : OnlyIn (fun _ => False) checkpoint.2
          (readDenyMarker (env.turns .boundRead) deny checkpoint.2 :
            Except MarkerFault (Json ν) × HandoffDisk).2 := readDenyMarker_only
      cases hexpected : (readDenyMarker (env.turns .boundRead) deny checkpoint.2 :
          Except MarkerFault (Json ν) × HandoffDisk).1 with
      | error fault =>
        obtain ⟨honly, hkept⟩ := hundo hbound fun _ _ h => h
        have hall := hdenied.trans ((hbound.mono fun _ h => h.elim).trans honly)
        refine Undone.or_auth (Undone.of_denied hall ?_ ?_ ?_) hours
        · exact hkept _ (Or.inl rfl)
        · exact hkept _ (Or.inr (Or.inl rfl))
        · exact hkept _ (Or.inr (Or.inr rfl))
      | ok expected =>
        rw [hexpected] at hfails
        dsimp only at hfails ⊢
        have hreached := hdenied.trans (hbound.mono fun _ h => h.elim)
        set bound := (readDenyMarker (env.turns .boundRead) deny checkpoint.2 :
          Except MarkerFault (Json ν) × HandoffDisk).2
        have hmine : bound.ours (.resumeAuth opts.successor) = false := by
          by_contra hmine
          rw [Bool.not_eq_false] at hmine
          rw [(hreached.ours _ hother hmine).1] at hours
          cases hours
        set auth : Authorization := ⟨claim.ticketId, claim.contentHash, deny, opts.successor⟩
        cases hauthorized : (authorizeSuccessor env claim.key auth expected bound).1 with
        | ok _ =>
          rw [hauthorized] at hfails
          cases hfails
        | error fault =>
          dsimp only
          obtain ⟨htorn, hundoAuth⟩ := hready.mint hfinalDone
          have hrefused : Undone (· = .resumeAuth opts.successor) bound
              (authorizeSuccessor env claim.key auth expected bound).2 :=
            authorizeSuccessor_undone hauthorized htorn hundoAuth hmine
          obtain ⟨honly, hkept⟩ := hundo (hbound.mono (fun _ h => h.elim) |>.trans hrefused.only)
            fun f hf h => hother (h ▸ hf)
          refine ⟨?_, ?_, ?_⟩
          · exact ((hreached.mono fun f h => Or.inl h).trans (hrefused.only.mono fun f h => Or.inr h)).trans
              (honly.mono fun f h => Or.inl h)
          · rintro f (hf | rfl)
            · exact hkept f hf
            · exact (Intact.trans (hreached.kept _ hother) (hrefused.kept _ rfl) hrefused.only).trans
                (honly.kept _ hother) honly
          · rintro session (hf | hf)
            · exact absurd hf (denyFile_resumeAuth deny session)
            · rw [hf]
              rintro ⟨hheld, hsome⟩
              obtain ⟨hheld', hsame⟩ := honly.ours _ hother hheld
              rw [hsame] at hsome
              exact hrefused.unauthorized _ rfl ⟨hheld', hsome⟩

/-! ### Resuming -/

/-- What `resume` needs once the deny is claimed. -/
structure ResumeReady (env : ConsumeEnv ν) (opts : ResumeOpts) (disk : HandoffDisk) : Prop where
  absent : disk.touched (.resumeAuth opts.consumer) = false → disk.bytes (.resumeAuth opts.consumer) = none
  looks : (env.turns .undoAuth .looks).outcome = .done
  removes : (env.turns .undoAuth .removes).outcome = .done

/-- A `resume` that fails after the claim fails before its write of the resume-auth, or it removes that. -/
theorem resumeClaimed_failed {opts : ResumeOpts}
    (h : (resumeClaimed env opts key auth record disk).1 = .error fault) :
    OnlyIn (fun _ => False) disk (resumeClaimed env opts key auth record disk).2 ∨
    ((env.turns .mint .writes).outcome = .done ∧
      ∃ disk', OnlyIn (· = .resumeAuth opts.consumer) disk disk' ∧
        (resumeClaimed env opts key auth record disk).2 =
          removeResumeAuth (env.turns .undoAuth) opts.consumer disk') := by
  rw [resumeClaimed.eq_def] at h ⊢
  dsimp only at h ⊢
  rw [← authText] at h ⊢
  set wrote := writeTextAtomic (env.turns .mint .writes) (.resumeAuth opts.consumer) (authText env key auth)
    disk with hwrote
  by_cases hdone : wrote.1 = true
  · rw [if_pos hdone] at h ⊢
    refine Or.inr ⟨writeTextAtomic_turn hdone, ?_⟩
    have hwrite : OnlyIn (· = .resumeAuth opts.consumer) disk wrote.2 := OnlyIn.writeTextAtomic_self _ _ _ _
    have hread : OnlyIn (· = .resumeAuth opts.consumer) disk
        (readResumeAuth env opts.consumer key wrote.2).2 := hwrite.trans readResumeAuth_only
    split at h
    · rename_i hverified
      rw [if_pos hverified]
      cases hconsume : consumeDenyRecord record opts.consumer
          (readResumeAuth env opts.consumer key wrote.2).1 (env.now .consume) with
      | error fault => exact ⟨_, hread, rfl⟩
      | ok consumed =>
        rw [hconsume] at h
        dsimp only at h ⊢
        have hevidence := hread.trans (evidenceOk_only env)
        split at h
        · rename_i hrecorded
          rw [if_pos hrecorded]
          have hours := hevidence.trans (markerUnchanged_only (env.turns .recheck) opts.denySession record)
          cases hunchanged : (markerUnchanged (env.turns .recheck) opts.denySession record
              (evidenceOk env (readResumeAuth env opts.consumer key wrote.2).2).2).1 with
          | error fault => exact ⟨_, hours, rfl⟩
          | ok _ =>
            rw [hunchanged] at h
            dsimp only at h ⊢
            split_ifs at h ⊢ with hpersisted
            exact ⟨_, hours.trans (writeDenyRecord_failed hpersisted), rfl⟩
        · rename_i hrecorded
          rw [if_neg hrecorded]
          exact ⟨_, hevidence, rfl⟩
    · rename_i hverified
      rw [if_neg hverified]
      exact ⟨_, hread, rfl⟩
  · rw [if_neg hdone]
    rw [Bool.not_eq_true] at hdone
    exact Or.inl (writeTextAtomic_failed hdone)

omit [JsNumber ν] in
variable (session disk) in
theorem removeResumeAuth_removes (turn : Step → Turn HandoffFile) (hlooks : (turn .looks).outcome = .done)
    (hremoves : (turn .removes).outcome = .done) :
    OnlyIn (· = .resumeAuth session) disk (removeResumeAuth turn session disk) ∧
      (removeResumeAuth turn session disk).bytes (.resumeAuth session) = none := by
  have hfound : OnlyIn (· = .resumeAuth session) disk
      (existsSync (turn .looks) (.resumeAuth session) disk).2 := OnlyIn.existsSync _ _ _
  rw [removeResumeAuth]
  split_ifs with hthere
  · refine ⟨hfound.trans ?_, ?_⟩
    · apply OnlyIn.unlinkSync
      rfl
    · obtain ⟨hgone, -⟩ | ⟨hsame, hgone⟩ := unlinkSync_done
        (existsSync (turn .looks) (.resumeAuth session) disk).2 (.resumeAuth session) hremoves
      · exact hgone
      · rw [hsame]
        exact hgone
  · rw [Bool.not_eq_true] at hthere
    exact ⟨hfound, existsSync_false hlooks hthere⟩

/-- Where there was no resume-auth, a `resume` that fails leaves none. -/
theorem resumeClaimed_undone {opts : ResumeOpts}
    (hfails : (resumeClaimed env opts key auth record disk).1 = .error fault)
    (hready : (env.turns .mint .writes).outcome = .done → ResumeReady env opts disk)
    (hours : disk.ours (.resumeAuth opts.consumer) = false) :
    Undone (· = .resumeAuth opts.consumer) disk (resumeClaimed env opts key auth record disk).2 := by
  obtain honly | ⟨hdone, disk', hbetween, heq⟩ := resumeClaimed_failed hfails
  · refine ⟨honly.mono fun _ h => h.elim, fun f _ => honly.kept f id, ?_⟩
    rintro session hsession ⟨hmine, -⟩
    rw [hsession] at hmine
    rw [(honly.ours _ id hmine).1] at hours
    cases hours
  · obtain ⟨habsent, hlooks, hremoves⟩ := hready hdone
    have hremoved := removeResumeAuth_removes disk' opts.consumer (env.turns .undoAuth) hlooks hremoves
    rw [heq]
    refine ⟨hbetween.trans hremoved.1, ?_, ?_⟩
    · rintro f rfl htouched
      rw [hremoved.2, habsent (hbetween.touched _ (hremoved.1.touched _ htouched))]
    · rintro session hsession ⟨-, hsome⟩
      rw [hsession, hremoved.2] at hsome
      cases hsome

/-! ### The commands -/

theorem resumeClaim_only {opts : ResumeOpts} : OnlyIn S disk (resumeClaim env opts disk).2 := by
  have hmarker : OnlyIn S disk (readDenyMarker (env.turns .preflight) opts.denySession disk :
    Except MarkerFault (Json ν) × HandoffDisk).2 := readDenyMarker_only
  have hfinal := hmarker.trans (readFinal_only ν opts.denySession (env.turns .preflightFinal))
  rw [resumeClaim.eq_def]
  dsimp only
  split
  · exact OnlyIn.refl S disk
  · split
    · exact hmarker
    · split
      · exact hfinal
      · split
        · exact hfinal
        · exact hfinal
        · split
          · exact hfinal
          · split
            · exact hfinal
            · split
              · exact hfinal
              · split
                · exact hfinal
                · split
                  · exact hfinal.trans (markerUnchanged_only _ _ _)
                  · exact hfinal.trans (markerUnchanged_only _ _ _)

variable (env disk) in
/-- Before a `continue` has claimed the deny it only reads. -/
theorem continueClaim_only (opts : ContinueOpts) : OnlyIn S disk (continueClaim env opts disk).2 ∧
    ∀ claim, (continueClaim env opts disk).1 = .ok (some claim) →
      ValidMarker ν opts.denySession (continueClaim env opts disk).2 := by
  have hheld : ∀ S, OnlyIn S disk (existsSync (env.turns .priorAuth .looks) (.resumeAuth opts.successor)
    disk).2 := fun S => OnlyIn.existsSync _ _ _
  have hmarker : ∀ S, OnlyIn S disk (readDenyMarker (env.turns .preflight) opts.denySession
    (existsSync (env.turns .priorAuth .looks) (.resumeAuth opts.successor) disk).2 :
    Except MarkerFault (Json ν) × HandoffDisk).2 := fun S => (hheld S).trans readDenyMarker_only
  rw [continueClaim.eq_def]
  dsimp only
  split
  · exact ⟨OnlyIn.refl S disk, fun claim h => by cases h⟩
  · split
    · exact ⟨OnlyIn.refl S disk, fun claim h => by cases h⟩
    · split
      · exact ⟨hheld S, fun claim h => by cases h⟩
      · split
        · exact ⟨hmarker S, fun claim h => by cases h⟩
        · rename_i record hrecord
          have hvalid : ValidMarker ν opts.denySession (readDenyMarker (env.turns .preflight) opts.denySession
              (existsSync (env.turns .priorAuth .looks) (.resumeAuth opts.successor) disk).2 :
              Except MarkerFault (Json ν) × HandoffDisk).2 := by
            intro _
            obtain ⟨b, hb, htext⟩ := readDenyMarker_ok hrecord
            exact ⟨b, record, hb, htext⟩
          split
          · exact ⟨hmarker S, fun claim h => by cases h⟩
          · split
            · exact ⟨hmarker S, fun claim h => by cases h⟩
            · split
              · exact ⟨hmarker S, fun claim h => by cases h⟩
              · split
                · exact ⟨hmarker S, fun claim h => by cases h⟩
                · split
                  · exact ⟨hmarker S, fun claim h => by cases h⟩
                  · split
                    · exact ⟨hmarker S, fun claim h => by cases h⟩
                    · have hclaimed : ∀ S, OnlyIn S _ (markerUnchanged (env.turns .claim) opts.denySession record
                          (readDenyMarker (env.turns .preflight) opts.denySession
                            (existsSync (env.turns .priorAuth .looks) (.resumeAuth opts.successor) disk).2 :
                            Except MarkerFault (Json ν) × HandoffDisk).2).2 := fun S => markerUnchanged_only _ _ _
                      split
                      · exact ⟨(hmarker S).trans (hclaimed S), fun claim h => by cases h⟩
                      · refine ⟨(hmarker S).trans (hclaimed S), fun claim _ => ?_⟩
                        exact hvalid.after (hclaimed fun _ => False) id

end Commands

/-- A command that consumes a deny. -/
inductive Consumption where
  | resume (opts : ResumeOpts)
  | continue_ (opts : ContinueOpts)

def Consumption.run (command : Consumption) (env : ConsumeEnv ν) (disk : HandoffDisk) :
    Except HandoffFault Unit × HandoffDisk :=
  match command with
  | .resume opts => ContextHandoff.resume env opts disk
  | .continue_ opts => ContextHandoff.continue_ env opts disk

/-- The condition under which a command that fails leaves no trace, on what the lock and the checks before
the first write leave. -/
def Consumption.Ready (command : Consumption) (env : ConsumeEnv ν) (disk : HandoffDisk) : Prop :=
  match command with
  | .resume opts => ∀ claim : Claim ν, (resumeClaim env opts disk).1 = .ok (some claim) →
      (env.turns .mint .writes).outcome = .done → ResumeReady env opts (resumeClaim env opts disk).2
  | .continue_ opts => ∀ claim : Claim ν, (continueClaim env opts disk).1 = .ok (some claim) →
      ContinueReady env opts (continueClaim env opts disk).2

/-- Whatever fails and whatever other processes do, a command that fails leaves no trace. -/
theorem consumption_noTrace {env : ConsumeEnv ν} {command : Consumption}
    {files : HandoffFile → Option Bytes} {fault : HandoffFault}
    (hready : command.Ready env (found files)) (hfails : (command.run env (found files)).1 = .error fault) :
    NoTrace files (command.run env (found files)).2 := by
  have hfresh : ∀ {disk : HandoffDisk} {session}, OnlyIn (fun _ => False) (found files) disk →
      disk.ours (.resumeAuth session) = false := by
    intro disk session honly
    by_contra hmine
    rw [Bool.not_eq_false] at hmine
    have hfound := (honly.ours _ id hmine).1
    cases hfound
  cases command with
  | resume opts =>
    have honly : OnlyIn (fun _ => False) (found files) (resumeClaim env opts (found files)).2 :=
      resumeClaim_only
    rw [Consumption.run, resume.eq_def] at hfails ⊢
    dsimp only at hfails ⊢
    cases hclaim : (resumeClaim env opts (found files)).1 with
    | error fault => exact NoTrace.of_read honly
    | ok claim =>
      cases claim with
      | none =>
        rw [hclaim] at hfails
        cases hfails
      | some claim =>
        rw [hclaim] at hfails
        exact NoTrace.of_undone honly (resumeClaimed_undone hfails (hready claim hclaim) (hfresh honly))
  | continue_ opts =>
    obtain ⟨honly, hvalid⟩ := continueClaim_only (S := fun _ => False) env (found files) opts
    rw [Consumption.run, continue_.eq_def] at hfails ⊢
    dsimp only at hfails ⊢
    cases hclaim : (continueClaim env opts (found files)).1 with
    | error fault => exact NoTrace.of_read honly
    | ok claim =>
      cases claim with
      | none =>
        rw [hclaim] at hfails
        cases hfails
      | some claim =>
        rw [hclaim] at hfails
        exact NoTrace.of_undone honly (continueClaimed_undone hfails (hready claim hclaim)
          (hvalid claim hclaim) (hfresh honly))

/-! ### A resume-auth of an earlier run -/

def deniedMarker : JsString :=
  js "\x7b\"session_id\":\"d\",\"status\":\"open\",\"ticket_id\":\"T1\",\"content_hash\":\"h\"\x7d"

def deniedFinal : JsString :=
  js "\x7b\"schema\":1,\"session_id\":\"d\",\"ticket_id\":\"T1\",\"content_hash\":\"h\"\x7d"

/-- The open deny of session `d`, and the resume-auth of session `c` where there is one. -/
def deniedFiles (resumeAuth : Option Bytes) : HandoffFile → Option Bytes
  | .marker session => if session = js "d" then some (utf8Encode deniedMarker) else none
  | .final session => if session = js "d" then some (utf8Encode deniedFinal) else none
  | .resumeAuth session => if session = js "c" then resumeAuth else none
  | .capture _ => none

/-- Only the reading back of the resume-auth fails. -/
def unreadableEnv : ConsumeEnv Int where
  turns := fun call _ => if call = .mintRead then ⟨[], .fails⟩ else Turn.quiet
  locked := true
  key := some (js "k")
  signResumeAuth := fun _ _ => js "s"
  hashCaptureBody := fun _ => js "h"
  hashCaptureBody_ne := fun _ => by decide
  hashFinalBody := fun _ => js "h"
  now := fun _ => js "t"
  writer := .null

def resumeOpts : ResumeOpts := ⟨js "c", js "d", true⟩

def isClaimed (claim : Except HandoffFault (Option (Claim ν))) : Bool :=
  match claim with
  | .ok (some _) => true
  | _ => false

omit [JsNumber ν] in
theorem isClaimed_some {claim : Except HandoffFault (Option (Claim ν))} (h : isClaimed claim = true) :
    ∃ claimed, claim = .ok (some claimed) := by
  match claim with
  | .ok (some claimed) => exact ⟨claimed, rfl⟩

/-- A `resume` whose resume-auth cannot be read back removes it. -/
theorem resume_unreadable {files : HandoffFile → Option Bytes}
    (hclaim : isClaimed (resumeClaim unreadableEnv resumeOpts (found files)).1 = true) :
    ∃ disk, disk.touched = (resumeClaim unreadableEnv resumeOpts (found files)).2.touched ∧
      (Consumption.resume resumeOpts).run unreadableEnv (found files) =
        (.error .authReadBack, removeResumeAuth (unreadableEnv.turns .undoAuth) (js "c") disk) := by
  obtain ⟨claim, hclaim⟩ := isClaimed_some hclaim
  have hunread : ∀ disk : HandoffDisk, (readResumeAuth unreadableEnv (js "c") claim.key disk).1 = none := by
    intro disk
    have hnone : (readFileSync (unreadableEnv.turns .mintRead .reads) (.resumeAuth (js "c")) disk).1 = none :=
      rfl
    rw [readResumeAuth]
    dsimp only
    rw [hnone, ite_self]
    rfl
  have hwrote : ∀ text, (writeTextAtomic (unreadableEnv.turns .mint .writes) (.resumeAuth (js "c")) text
      (resumeClaim unreadableEnv resumeOpts (found files)).2).1 = true := fun _ => rfl
  have hconsumer : resumeOpts.consumer = js "c" := rfl
  have hunverified : strictEq (fieldOf (none : Option (Json Int)) "verified") (some (.bool true)) = false := rfl
  rw [Consumption.run, resume.eq_def]
  dsimp only
  rw [hclaim]
  dsimp only
  rw [resumeClaimed.eq_def]
  dsimp only
  rw [hconsumer, if_pos (hwrote _), hunread, hunverified, if_neg Bool.false_ne_true]
  refine ⟨_, ?_, rfl⟩
  rfl

theorem resume_unreadable_noTrace :
    NoTrace (deniedFiles none)
      ((Consumption.resume resumeOpts).run unreadableEnv (found (deniedFiles none))).2 := by
  have hclaim : isClaimed (resumeClaim unreadableEnv resumeOpts (found (deniedFiles none))).1 = true := by
    decide +kernel
  obtain ⟨disk, -, hrun⟩ := resume_unreadable hclaim
  refine consumption_noTrace (fun claim _ _ => ⟨fun htouched => ?_, rfl, rfl⟩) (congrArg Prod.fst hrun)
  have honly : OnlyIn (fun _ => False) (found (deniedFiles none))
      (resumeClaim unreadableEnv resumeOpts (found (deniedFiles none))).2 := resumeClaim_only
  rw [honly.kept _ id htouched]
  rfl

/-- The resume-auth that an earlier run left is removed with the one that replaced it. -/
theorem resume_removes_earlier :
    ((Consumption.resume resumeOpts).run unreadableEnv
      (found (deniedFiles (some (utf8Encode (js "earlier")))))).1 = .error .authReadBack ∧
    ¬NoTrace (deniedFiles (some (utf8Encode (js "earlier"))))
      ((Consumption.resume resumeOpts).run unreadableEnv
        (found (deniedFiles (some (utf8Encode (js "earlier")))))).2 := by
  set files := deniedFiles (some (utf8Encode (js "earlier")))
  have hclaim : isClaimed (resumeClaim unreadableEnv resumeOpts (found files)).1 = true := by decide +kernel
  have huntouched : (resumeClaim unreadableEnv resumeOpts (found files)).2.touched (.resumeAuth (js "c")) =
      false := by decide +kernel
  obtain ⟨disk, htouched, hrun⟩ := resume_unreadable hclaim
  rw [hrun]
  refine ⟨rfl, fun hkept => ?_⟩
  have hgone := (removeResumeAuth_removes disk (js "c") (unreadableEnv.turns .undoAuth) rfl rfl).2
  have hquiet : (removeResumeAuth (unreadableEnv.turns .undoAuth) (js "c") disk).touched = disk.touched := by
    rw [removeResumeAuth]
    split_ifs
    · rw [unlinkSync]
      split_ifs
      · rfl
      · rfl
    · rfl
  have hsame := hkept.kept (.resumeAuth (js "c")) (by rw [hquiet, htouched, huntouched])
  rw [hgone] at hsame
  cases hsame

end Adlc.ContextHandoff
