import Adlc.Autopilot.Terminal

namespace Adlc.Autopilot.Quarantine

open Adlc.Framework

variable {principal : JsString} {issue : Nat} {w w' : IssueWorld} {record : RunRecord}

/-! ## Visibility -/

/-- The label of a quarantined record was put on its target since the state was entered, or the next
recovery puts it, or acts on a removal since then; unless the record has an effect pending or the
process is about to persist one. -/
def Visible (issue : Nat) (w : IssueWorld) : Prop :=
  ∀ record label, w.record = some record → quarantineLabel record.state = some label →
    pendingEffects record = [] → (∀ call, w.phase ≠ .begun call) →
      (recoverTarget issue record, label) ∈ w.put ∨ ∀ reads,
        recoverDecision issue w.github record label reads = .reapply ∨
        ∃ event, recoverDecision issue w.github record label reads = .act event ∧ w.entryAt ≤ event

/-- The label is not there, and no maintainer was the last to remove it. -/
def Unreleased (w : IssueWorld) (n : Nat) (label : JsString) : Prop :=
  (n, label) ∉ w.github.labels ∧ ∀ event, latestRemoval w.github.removals n label ≠ some (event, true)

/-- Nothing left from before the state was entered stands in the way of the label: the intent does not
count it as applied and the target does not carry it; and at a crash between the write of the state
and that of the intent no maintainer was the last to remove it. -/
def Clear (issue : Nat) (w : IssueWorld) : IssueEvent → Prop
  | .settles _ => ∀ call, w.phase = .begun call → call.outcome.state.isSome = true →
    (intentOf (w.record.getD newRecord) call).labelApplied = false ∧
      ((intentOf (w.record.getD newRecord) call).target, call.label) ∉ w.github.labels
  | .crash => ∀ call, w.phase = .begun call → call.outcome.writes = .before →
    ∀ record, w.record = some record → Unreleased w (recoverTarget issue record) call.label
  | _ => True

/-! ## Records and their intents -/

theorem lookup_set (effects : Effects) (o o' : TerminalOutcome) (i : EffectIntent) :
    (effects.set o i).lookup o' = if o' = o then some i else effects.lookup o' := by
  induction effects with
  | nil =>
    by_cases h : o' = o
    · simp [Effects.set, h]
    · have hb : (o' == o) = false := by simp [h]
      simp [Effects.set, List.lookup_cons, hb, h]
  | cons p ps ih =>
    obtain ⟨q, j⟩ := p
    by_cases hq : q = o
    · subst hq
      by_cases h : o' = q
      · simp [Effects.set, h]
      · have hb : (o' == q) = false := by simp [h]
        simp [Effects.set, List.lookup_cons, hb, h]
    · by_cases h : o' = q
      · subst h
        simp [Effects.set, hq]
      · have hb : (o' == q) = false := by simp [h]
        simp [Effects.set, hq, List.lookup_cons, hb, ih]

theorem outcome_of_quarantineLabel {state : RunState} {label : JsString}
    (h : quarantineLabel state = some label) : ∃ o, state.outcome = some o ∧ o.label = label := by
  cases state with
  | clarify => exact ⟨.clarify, rfl, Option.some.inj h⟩
  | blocked => exact ⟨.blocked, rfl, Option.some.inj h⟩
  | stale => exact ⟨.stale, rfl, Option.some.inj h⟩
  | ciRed => exact ⟨.ciRed, rfl, Option.some.inj h⟩
  | oidMismatch => exact ⟨.oidMismatch, rfl, Option.some.inj h⟩
  | _ => exact absurd h (by simp [quarantineLabel])

theorem outcome_of_state {o : TerminalOutcome} {state : RunState} (h : o.state = some state) :
    state.outcome = some o := by
  cases o with
  | prClosed => exact absurd h (by simp [TerminalOutcome.state])
  | _ =>
    cases Option.some.inj h
    rfl

theorem outcome_ne_prClosed (state : RunState) : state.outcome ≠ some .prClosed := by
  cases state <;> simp [RunState.outcome]

theorem clarify_of_withIntent {o : TerminalOutcome} (h : o.writes = .withIntent) : o = .clarify := by
  cases o <;> first | rfl | exact absurd h (by simp [TerminalOutcome.writes])

theorem state_of_before {o : TerminalOutcome} (h : o.writes = .before) : o.state.isSome = true := by
  cases o <;> first | rfl | exact absurd h (by simp [TerminalOutcome.writes])

theorem prClosed_of_writes {o : TerminalOutcome} (h : o.writes ≠ .before) (h' : o.writes ≠ .withIntent) :
    o = .prClosed := by
  cases o <;> first | rfl | exact absurd rfl h | exact absurd rfl h'

theorem flags_of_pending (h : pendingEffects record = []) {o : TerminalOutcome} {i : EffectIntent}
    (hi : record.effects.lookup o = some i) : i.labelApplied = true := by
  have hfilter := List.map_eq_nil_iff.1 h
  obtain ⟨front, rest, heffects, -⟩ := List.lookup_eq_some_iff.1 hi
  have hmem : (o, i) ∈ record.effects := by simp [heffects]
  have hflags := List.filter_eq_nil_iff.1 hfilter (o, i) hmem
  simp only [Bool.or_eq_true, Bool.not_eq_true', not_or, Bool.not_eq_false] at hflags
  exact hflags.2

/-- The record's own effect is still to be labelled. -/
def Unlabelled (record : RunRecord) : Prop :=
  ∃ o i, record.state.outcome = some o ∧ record.effects.lookup o = some i ∧ i.labelApplied = false

theorem recoverTarget_of_lookup (issue : Nat) {o : TerminalOutcome} {i : EffectIntent} (ho : record.state.outcome = some o)
    (hi : record.effects.lookup o = some i) : recoverTarget issue record = i.target := by
  simp [recoverTarget, ho, hi]

/-- An effect of another outcome does not matter to the record's state. -/
theorem withEffect_other (issue : Nat) {o : TerminalOutcome} (i : EffectIntent) (h : record.state.outcome ≠ some o) :
    recoverTarget issue (record.withEffect o i) = recoverTarget issue record ∧
      (Unlabelled record → Unlabelled (record.withEffect o i)) := by
  have hlookup : ∀ q, record.state.outcome = some q →
      (record.effects.set o i).lookup q = record.effects.lookup q := by
    intro q hq
    have hne : q ≠ o := fun heq => h (heq ▸ hq)
    rw [lookup_set, if_neg hne]
  constructor
  · cases hq : record.state.outcome with
    | none => simp [recoverTarget, RunRecord.withEffect, hq]
    | some q => simp [recoverTarget, RunRecord.withEffect, hq, hlookup q hq]
  · rintro ⟨q, j, hq, hj, happlied⟩
    exact ⟨q, j, hq, (hlookup q hq).trans hj, happlied⟩

/-! ## What a run keeps -/

/-- The removal of that number was by a maintainer. -/
def ByMaintainer (removals : List Removal) (event : Nat) : Prop :=
  ∃ r, removals.reverse[event]? = some r ∧ r.byMaintainer = true

theorem ByMaintainer.cons {removals : List Removal} {event : Nat} (h : ByMaintainer removals event)
    (r : Removal) : ByMaintainer (r :: removals) event := by
  obtain ⟨found, hfound, hby⟩ := h
  refine ⟨found, ?_, hby⟩
  rw [List.reverse_cons]
  exact List.getElem?_append_left (List.getElem?_eq_some_iff.1 hfound).1 ▸ hfound

theorem latestRemoval_byMaintainer {removals : List Removal} {n event : Nat} {label : JsString} {byWhom : Bool}
    (h : latestRemoval removals n label = some (event, byWhom)) :
    ∃ r, removals.reverse[event]? = some r ∧ r.byMaintainer = byWhom := by
  induction removals with
  | nil => exact absurd h (by simp [latestRemoval])
  | cons r rs ih =>
    rw [latestRemoval] at h
    split_ifs at h with hr
    · cases Option.some.inj h
      refine ⟨r, ?_, rfl⟩
      simp
    · obtain ⟨found, hfound, hby⟩ := ih h
      refine ⟨found, ?_, hby⟩
      rw [List.reverse_cons, List.getElem?_append_left (List.getElem?_eq_some_iff.1 hfound).1]
      exact hfound

/-- The label of a quarantined record was put since the state was entered; or it is not there, and is
still to be put or was last removed by no maintainer. -/
def Kept (issue : Nat) (w : IssueWorld) : Prop :=
  ∀ record label, w.record = some record → quarantineLabel record.state = some label →
    (recoverTarget issue record, label) ∈ w.put ∨
      ((recoverTarget issue record, label) ∉ w.github.labels ∧
        (Unlabelled record ∨ Unreleased w (recoverTarget issue record) label))

/-- What every run keeps whose steps are clear. -/
structure Sound (issue : Nat) (w : IssueWorld) : Prop where
  intents : ∀ record, w.record = some record → ∀ o i, record.effects.lookup o = some i → i.label = o.label
  recorded : ∀ record event, w.record = some record → record.unlabeledEventId = some event →
    ByMaintainer w.github.removals event
  acted : ∀ event, w.phase = .acted event → ByMaintainer w.github.removals event
  entered : ∀ call, w.phase = .begun call → call.outcome.writes = .before → ∃ record,
    w.record = some record ∧ record.state.outcome = some call.outcome
  labelled : ∀ o todo record, w.phase = .labelled o todo → w.record = some record →
    record.state.outcome = some o → (recoverTarget issue record, o.label) ∈ w.put
  kept : (∀ call, w.phase = .begun call → call.outcome.writes ≠ .before) → Kept issue w

def plain : Phase → Bool
  | .begun _ | .labelled _ _ | .acted _ => false
  | _ => true

theorem plain_replayNext (todo : List TerminalOutcome) : plain (replayNext todo) = true := by
  cases todo <;> rfl

/-- Between the steps that have something to persist only the record and its label count. -/
theorem Sound.of_plain (hphase : plain w.phase = true)
    (hintents : ∀ record, w.record = some record → ∀ o i, record.effects.lookup o = some i → i.label = o.label)
    (hrecorded : ∀ record event, w.record = some record → record.unlabeledEventId = some event →
      ByMaintainer w.github.removals event)
    (hkept : Kept issue w) : Sound issue w := by
  refine ⟨hintents, hrecorded, ?_, ?_, ?_, fun _ => hkept⟩
  · intro event h
    rw [h] at hphase
    exact absurd hphase (by simp [plain])
  · intro call h
    rw [h] at hphase
    exact absurd hphase (by simp [plain])
  · intro o todo record h
    rw [h] at hphase
    exact absurd hphase (by simp [plain])

theorem Kept.congr (h : Kept issue w) (hrecord : w'.record = w.record)
    (hlabels : w'.github.labels = w.github.labels) (hremovals : w'.github.removals = w.github.removals)
    (hput : w'.put = w.put) : Kept issue w' := by
  intro record label hr hl
  rw [hrecord] at hr
  unfold Unreleased
  rw [hput, hlabels, hremovals]
  exact h record label hr hl

/-- What changes neither the record nor the labels and their history leaves a sound world sound. -/
theorem Sound.congr (h : Sound issue w) (hkept : Kept issue w) (hphase : plain w'.phase = true)
    (hrecord : w'.record = w.record) (hlabels : w'.github.labels = w.github.labels)
    (hremovals : w'.github.removals = w.github.removals) (hput : w'.put = w.put) : Sound issue w' := by
  refine Sound.of_plain hphase ?_ ?_ (hkept.congr hrecord hlabels hremovals hput)
  · rw [hrecord]
    exact h.intents
  · rw [hrecord, hremovals]
    exact h.recorded

/-! ## The label -/

theorem labelOn_cases (w : IssueWorld) (n : Nat) (label : JsString) (answer : GhAnswer) :
    ((labelOn w n label answer).1 = w ∧
        ((labelOn w n label answer).2 = true → (n, label) ∈ w.github.labels)) ∨
      (labelOn w n label answer).1 = w.putLabel n label := by
  by_cases hthere : (n, label) ∈ w.github.labels
  · left
    cases answer <;> simp [labelOn, hthere]
  · cases answer with
    | failed => exact .inl ⟨rfl, fun h => absurd h (by simp [labelOn])⟩
    | ok => exact .inr (by simp [labelOn, hthere])
    | lost => exact .inr (by simp [labelOn, hthere])

theorem Kept.putLabel (h : Kept issue w) (n : Nat) (label : JsString) : Kept issue (w.putLabel n label) := by
  intro record own hr hl
  by_cases hown : (recoverTarget issue record, own) = (n, label)
  · exact .inl (hown ▸ List.mem_cons_self)
  · rcases h record own hr hl with hput | ⟨habsent, hrest⟩
    · exact .inl (List.mem_cons_of_mem _ hput)
    · have hstill : (recoverTarget issue record, own) ∉ (w.putLabel n label).github.labels := by
        intro hmem
        rcases List.mem_cons.1 hmem with heq | hmem
        · exact hown heq
        · exact habsent hmem
      exact .inr ⟨hstill, hrest.imp_right fun hlast => ⟨hstill, hlast.2⟩⟩

theorem Kept.labelOn (h : Kept issue w) (n : Nat) (label : JsString) (answer : GhAnswer) :
    Kept issue (labelOn w n label answer).1 := by
  rcases labelOn_cases w n label answer with ⟨hsame, -⟩ | hput
  · rw [hsame]
    exact h
  · rw [hput]
    exact h.putLabel n label

theorem labelOn_record (w : IssueWorld) (n : Nat) (label : JsString) (answer : GhAnswer) :
    (labelOn w n label answer).1.record = w.record ∧
      (labelOn w n label answer).1.github.removals = w.github.removals ∧
      (labelOn w n label answer).1.phase = w.phase := by
  rcases labelOn_cases w n label answer with ⟨hsame, -⟩ | hput
  · rw [hsame]
    exact ⟨rfl, rfl, rfl⟩
  · rw [hput]
    exact ⟨rfl, rfl, rfl⟩

/-- A label that is confirmed was put since the state was entered. -/
theorem put_of_confirmed (h : Kept issue w) {label : JsString} (hr : w.record = some record)
    (hl : quarantineLabel record.state = some label) {answer : GhAnswer}
    (hdone : (labelOn w (recoverTarget issue record) label answer).2 = true) :
    (recoverTarget issue record, label) ∈ (labelOn w (recoverTarget issue record) label answer).1.put := by
  rcases labelOn_cases w (recoverTarget issue record) label answer with ⟨hsame, hthere⟩ | hput
  · rw [hsame]
    rcases h record label hr hl with hmem | ⟨habsent, -⟩
    · exact hmem
    · exact absurd (hthere hdone) habsent
  · rw [hput]
    exact List.mem_cons_self

theorem quarantineLabel_of_outcome {state : RunState} {o : TerminalOutcome} (h : state.outcome = some o) :
    quarantineLabel state = some o.label := by
  cases state <;> cases o <;> first | rfl | exact absurd h (by simp [RunState.outcome])

/-! ## The steps of the process -/

/-- An effect that is written back with other flags: its target is the record's still, and it is to be
labelled still unless the flag says otherwise. -/
theorem Kept.withEffect (h : Kept issue w) (hr : w.record = some record) {o : TerminalOutcome}
    {i j : EffectIntent} (hi : record.effects.lookup o = some i) (htarget : j.target = i.target)
    (hflag : j.labelApplied = i.labelApplied ∨
      (record.state.outcome = some o → (recoverTarget issue record, o.label) ∈ w.put)) :
    Kept issue { w with record := some (record.withEffect o j) } := by
  intro changed label hc hl
  cases Option.some.inj hc
  have hold := h record label hr hl
  by_cases ho : record.state.outcome = some o
  · have hj : (record.withEffect o j).effects.lookup o = some j := by
      simp [RunRecord.withEffect, lookup_set]
    have ho' : (record.withEffect o j).state.outcome = some o := ho
    have hsame : recoverTarget issue (record.withEffect o j) = recoverTarget issue record := by
      rw [recoverTarget_of_lookup issue ho hi, recoverTarget_of_lookup issue ho' hj, htarget]
    rw [hsame]
    rcases hflag with hflag | hput
    · refine hold.imp_right fun hrest => ⟨hrest.1, hrest.2.imp_left ?_⟩
      rintro ⟨q, k, hq, hk, happlied⟩
      have hqo : q = o := Option.some.inj (hq.symm.trans ho)
      rw [hqo, hi] at hk
      refine ⟨o, j, ho, hj, ?_⟩
      rw [hflag, Option.some.inj hk]
      exact happlied
    · have hlabel : label = o.label := Option.some.inj (hl.symm.trans (quarantineLabel_of_outcome ho))
      rw [hlabel]
      exact .inl (hput ho)
  · obtain ⟨hsame, hstill⟩ := withEffect_other issue j ho
    rw [hsame]
    exact hold.imp_right fun hrest => ⟨hrest.1, hrest.2.imp_left hstill⟩

theorem intents_withEffect (h : ∀ o i, record.effects.lookup o = some i → i.label = o.label)
    {o : TerminalOutcome} {j : EffectIntent} (hj : j.label = o.label) (q : TerminalOutcome) (i : EffectIntent)
    (hi : (record.withEffect o j).effects.lookup q = some i) : i.label = q.label := by
  have hlookup : (record.effects.set o j).lookup q = some i := hi
  rw [lookup_set] at hlookup
  split_ifs at hlookup with hq
  · rw [← Option.some.inj hlookup, hj, hq]
  · exact h q i hlookup

theorem intentOf_label (h : ∀ o i, record.effects.lookup o = some i → i.label = o.label) (call : TerminalCall) :
    (intentOf record call).label = call.outcome.label := by
  unfold intentOf
  split
  · rename_i existing hexisting
    split_ifs
    · exact h _ _ hexisting
    · exact call.labelled
  · exact call.labelled

/-- The flags of an effect are written back. -/
theorem Sound.writes (h : Sound issue w) (hkept : Kept issue w) (hr : w.record = some record)
    {o : TerminalOutcome} {i j : EffectIntent} (hi : record.effects.lookup o = some i)
    (htarget : j.target = i.target) (hlabel : j.label = i.label)
    (hflag : j.labelApplied = i.labelApplied ∨
      (record.state.outcome = some o → (recoverTarget issue record, o.label) ∈ w.put))
    {phase : Phase} (hphase : plain phase = true) :
    Sound issue { w with record := some (record.withEffect o j), phase := phase } := by
  refine Sound.of_plain hphase ?_ ?_ ?_
  · intro changed hc q k hk
    cases Option.some.inj hc
    exact intents_withEffect (h.intents record hr) (hlabel.trans (h.intents record hr o i hi)) q k hk
  · intro changed event hc hevent
    cases Option.some.inj hc
    exact h.recorded record event hr hevent
  · exact (hkept.withEffect hr hi htarget hflag).congr rfl rfl rfl rfl

/-- The effect of the record's own state is to be labelled, and the target does not carry the label. -/
theorem kept_of_unlabelled {o : TerminalOutcome} {i : EffectIntent} (hr : w.record = some record)
    (ho : record.state.outcome = some o) (hi : record.effects.lookup o = some i)
    (happlied : i.labelApplied = false) (habsent : (i.target, o.label) ∉ w.github.labels) : Kept issue w := by
  intro own label hown hl
  cases Option.some.inj (hr.symm.trans hown)
  have hlabel : label = o.label := Option.some.inj (hl.symm.trans (quarantineLabel_of_outcome ho))
  rw [recoverTarget_of_lookup issue ho hi, hlabel]
  exact .inr ⟨habsent, .inl ⟨o, i, ho, hi, happlied⟩⟩

/-- The label of an effect is asked for. -/
theorem Sound.labels (h : Sound issue w) (hkept : Kept issue w) (hr : w.record = some record)
    {o : TerminalOutcome} {i : EffectIntent} (hi : record.effects.lookup o = some i) {answer : GhAnswer}
    {todo : List TerminalOutcome} :
    Sound issue { (labelOn w i.target i.label answer).1 with
      phase := if (labelOn w i.target i.label answer).2 then .labelled o todo else replayNext todo } := by
  obtain ⟨hrecord, hremovals, -⟩ := labelOn_record w i.target i.label answer
  refine ⟨?_, ?_, ?_, ?_, ?_, fun _ => (hkept.labelOn _ _ _).congr rfl rfl rfl rfl⟩
  · show ∀ changed, (labelOn w i.target i.label answer).1.record = some changed → _
    rw [hrecord]
    exact h.intents
  · show ∀ changed event, (labelOn w i.target i.label answer).1.record = some changed → _ →
      ByMaintainer (labelOn w i.target i.label answer).1.github.removals event
    rw [hrecord, hremovals]
    exact h.recorded
  · intro event hphase
    split_ifs at hphase with hdone
    cases todo <;> exact absurd hphase (by simp [replayNext])
  · intro call hphase
    split_ifs at hphase with hdone
    cases todo <;> exact absurd hphase (by simp [replayNext])
  · intro q rest changed hphase hc ho
    split_ifs at hphase with hdone
    · cases hphase
      have hsame : record = changed := Option.some.inj (hr.symm.trans (hrecord.symm.trans hc))
      subst hsame
      have hlabel := h.intents record hr o i hi
      rw [hlabel] at hdone ⊢
      rw [← recoverTarget_of_lookup issue ho hi] at hdone ⊢
      exact put_of_confirmed hkept hr (quarantineLabel_of_outcome ho) hdone
    · cases todo <;> exact absurd hphase (by simp [replayNext])

theorem Sound.persistIntent (h : Sound issue w) {call : TerminalCall} (hphase : w.phase = .begun call)
    (hclear : call.outcome.state.isSome = true →
      (intentOf (w.record.getD newRecord) call).labelApplied = false ∧
        ((intentOf (w.record.getD newRecord) call).target, call.label) ∉ w.github.labels)
    (hstep : persistIntent w call = some w') : Sound issue w' := by
  have hintents : ∀ o i, (w.record.getD newRecord).effects.lookup o = some i → i.label = o.label := by
    cases hr : w.record with
    | none => exact fun o i hi => absurd hi (by simp [newRecord])
    | some record => exact h.intents record hr
  have hlabel := intentOf_label hintents call
  rw [call.labelled] at hclear
  have hnew : ∀ changed : RunRecord, changed.effects =
      (w.record.getD newRecord).effects.set call.outcome (intentOf (w.record.getD newRecord) call) →
      (∀ o i, changed.effects.lookup o = some i → i.label = o.label) ∧
      changed.effects.lookup call.outcome = some (intentOf (w.record.getD newRecord) call) := by
    intro changed hchanged
    rw [hchanged]
    exact ⟨intents_withEffect hintents hlabel, by simp [lookup_set]⟩
  unfold Autopilot.persistIntent at hstep
  split at hstep
  · rename_i hwrites
    have hclarify := clarify_of_withIntent hwrites
    cases Option.some.inj hstep
    obtain ⟨hset, hlookup⟩ := hnew (RunRecord.withEffect { w.record.getD newRecord with state := .clarify } call.outcome
      (intentOf (w.record.getD newRecord) call)) rfl
    obtain ⟨happlied, habsent⟩ := hclear (by rw [hclarify]; rfl)
    refine Sound.of_plain rfl ?_ ?_ ?_
    · intro changed hc
      cases Option.some.inj hc
      exact hset
    · intro changed event hc hevent
      cases Option.some.inj hc
      cases hr : w.record with
      | none =>
        rw [hr] at hevent
        exact absurd hevent (by simp [RunRecord.withEffect, newRecord])
      | some record =>
        rw [hr] at hevent
        exact h.recorded record event hr hevent
    · exact kept_of_unlabelled rfl (by rw [hclarify]; rfl) hlookup happlied habsent
  · rename_i record hr hwrites
    cases Option.some.inj hstep
    rw [hr] at hnew hclear
    obtain ⟨hset, hlookup⟩ := hnew (record.withEffect call.outcome (intentOf record call)) rfl
    refine Sound.of_plain rfl ?_ ?_ ?_
    · intro changed hc
      cases Option.some.inj hc
      exact hset
    · intro changed event hc hevent
      cases Option.some.inj hc
      exact h.recorded record event hr hevent
    · by_cases hbefore : call.outcome.writes = .before
      · obtain ⟨found, hfound, hstate⟩ := h.entered call hphase hbefore
        cases Option.some.inj (hr.symm.trans hfound)
        obtain ⟨happlied, habsent⟩ := hclear (state_of_before hbefore)
        exact kept_of_unlabelled rfl hstate hlookup happlied habsent
      · have hclosed := prClosed_of_writes hbefore hwrites
        have hkept := h.kept fun other hother => by
          cases hphase.symm.trans hother
          exact hbefore
        intro changed label hc hl
        cases Option.some.inj hc
        have hother : record.state.outcome ≠ some call.outcome := by
          rw [hclosed]
          exact outcome_ne_prClosed _
        obtain ⟨hsame, hstill⟩ := withEffect_other issue (intentOf record call) hother
        rw [hsame]
        exact (hkept record label hr hl).imp_right fun hrest => ⟨hrest.1, hrest.2.imp_left hstill⟩
  · exact absurd hstep (by simp)

theorem commentOn_cases (principal : JsString) (w : IssueWorld) (i : EffectIntent) (answer : GhAnswer) :
    (commentOn principal w i answer).1 = w ∨
      ((commentOn principal w i answer).1 = w.postComment principal i ∧
        hasComment principal w.github i.target i.commentSentinel = false) := by
  cases hhas : hasComment principal w.github i.target i.commentSentinel <;> cases answer <;>
    simp [commentOn, hhas]

/-- The last answer of an effect is written back, or the label is to be asked for. -/
theorem Sound.settle (h : Sound issue w) {answer : GhAnswer} (hclear : Clear issue w (.settles answer))
    (hstep : w.settle principal answer = some w') : Sound issue w' := by
  unfold IssueWorld.settle at hstep
  split at hstep
  · exact absurd hstep (by simp)
  · rename_i call hphase
    exact h.persistIntent hphase (hclear call hphase) hstep
  · rename_i o todo hphase
    have hkept := h.kept fun call hcall => absurd (hphase.symm.trans hcall) (by simp)
    split at hstep
    · exact absurd hstep (by simp)
    · rename_i i hi
      split_ifs at hstep with hposted
      · cases Option.some.inj hstep
        exact h.congr hkept rfl rfl rfl rfl rfl
      · cases Option.some.inj hstep
        have hrest : ∀ phase, plain phase = true →
            Sound issue { (commentOn principal w i answer).1 with phase := phase } := by
          intro phase hplain
          rcases commentOn_cases principal w i answer with hsame | ⟨hpost, -⟩
          · rw [hsame]
            exact h.congr hkept hplain rfl rfl rfl rfl
          · rw [hpost]
            exact h.congr hkept hplain rfl rfl rfl rfl
        split_ifs
        · exact hrest _ rfl
        · exact hrest _ rfl
  · rename_i o todo hphase
    have hkept := h.kept fun call hcall => absurd (hphase.symm.trans hcall) (by simp)
    obtain ⟨record, hr, hstep⟩ := Option.bind_eq_some_iff.1 hstep
    obtain ⟨i, hi, hworld⟩ := Option.map_eq_some_iff.1 hstep
    cases hworld
    have hplain : plain (.label o todo) = true := rfl
    exact h.writes (j := { i with commentPosted := true }) hkept hr hi rfl rfl (.inl rfl) hplain
  · rename_i o todo hphase
    have hkept := h.kept fun call hcall => absurd (hphase.symm.trans hcall) (by simp)
    split at hstep
    · exact absurd hstep (by simp)
    · rename_i i hi
      obtain ⟨record, hr, hi⟩ := Option.bind_eq_some_iff.1 hi
      split_ifs at hstep with happlied
      · cases Option.some.inj hstep
        exact h.congr hkept (plain_replayNext todo) rfl rfl rfl rfl
      · cases Option.some.inj hstep
        exact h.labels hkept hr hi
  · rename_i o todo hphase
    have hkept := h.kept fun call hcall => absurd (hphase.symm.trans hcall) (by simp)
    obtain ⟨record, hr, hstep⟩ := Option.bind_eq_some_iff.1 hstep
    obtain ⟨i, hi, hworld⟩ := Option.map_eq_some_iff.1 hstep
    cases hworld
    exact h.writes (j := { i with labelApplied := true }) hkept hr hi rfl rfl
      (.inr fun ho => h.labelled o todo record hphase hr ho) (plain_replayNext todo)
  · rename_i event hphase
    have hkept := h.kept fun call hcall => absurd (hphase.symm.trans hcall) (by simp)
    cases Option.some.inj hstep
    refine Sound.of_plain rfl ?_ ?_ ?_
    · intro changed hc
      obtain ⟨record, hr, hchanged⟩ := Option.map_eq_some_iff.1 hc
      cases hchanged
      exact h.intents record hr
    · intro changed found hc hfound
      obtain ⟨record, hr, hchanged⟩ := Option.map_eq_some_iff.1 hc
      cases hchanged
      cases Option.some.inj hfound
      exact h.acted event hphase
    · intro changed label hc hl
      obtain ⟨record, hr, hchanged⟩ := Option.map_eq_some_iff.1 hc
      cases hchanged
      exact hkept record label hr hl

/-! ## Recovery, and the steps of others -/

theorem latestRemoval_of_act {github : Github} {label : JsString} {reads : RecoverReads} {event : Nat}
    (h : recoverDecision issue github record label reads = .act event) :
    latestRemoval github.removals (recoverTarget issue record) label = some (event, true) := by
  unfold recoverDecision at h
  split_ifs at h with hthere hread
  split at h
  · exact absurd h (by simp)
  · rename_i found byWhom hlatest
    split_ifs at h with hacted hauth
    cases h
    simp only [Bool.and_eq_true] at hauth
    rw [hlatest, hauth.2]

theorem Sound.recovers (h : Sound issue w) (hidle : w.phase = .idle) {reads : RecoverReads} {answer : GhAnswer}
    {hasPr : Bool} {retired : Retired}
    (hstep : recoverQuarantined issue w reads answer hasPr retired = some w') : Sound issue w' := by
  have hkept := h.kept fun call hcall => absurd (hidle.symm.trans hcall) (by simp)
  have hplain : plain w.phase = true := by
    rw [hidle]
    rfl
  unfold recoverQuarantined at hstep
  split at hstep
  · exact absurd hstep (by simp)
  · rename_i record hr
    split at hstep
    · exact absurd hstep (by simp)
    · rename_i label hl
      split at hstep
      · cases Option.some.inj hstep
        exact h
      · split at hstep
        · cases Option.some.inj hstep
          exact h
        · cases Option.some.inj hstep
          exact h
        · cases Option.some.inj hstep
          obtain ⟨hrecord, hremovals, hphase⟩ := labelOn_record w (recoverTarget issue record) label answer
          refine Sound.of_plain ?_ ?_ ?_ (hkept.labelOn _ _ _)
          · rw [hphase]
            exact hplain
          · rw [hrecord]
            exact h.intents
          · rw [hrecord, hremovals]
            exact h.recorded
        · rename_i event hact
          obtain ⟨removal, hremoval, hby⟩ := latestRemoval_byMaintainer (latestRemoval_of_act hact)
          split_ifs at hstep with hrearm
          · cases Option.some.inj hstep
            refine Sound.of_plain hplain ?_ ?_ ?_
            · intro changed hc
              cases Option.some.inj hc
              exact h.intents record hr
            · intro changed found hc hfound
              cases Option.some.inj hc
              cases Option.some.inj hfound
              exact ⟨removal, hremoval, hby⟩
            · intro changed own hc hown
              cases Option.some.inj hc
              exact absurd hown (by simp [rearmRun, quarantineLabel])
          · cases Option.some.inj hstep
            refine ⟨?_, ?_, ?_, fun call hcall => absurd hcall (by simp), fun o todo _ hcall => absurd hcall (by simp),
              fun _ => ?_⟩
            · intro changed hc
              cases retired with
              | removed => exact absurd hc (by simp [Retired.record])
              | moved state hstate =>
                cases Option.some.inj hc
                exact h.intents record hr
              | left =>
                cases Option.some.inj hc
                exact h.intents record hr
            · intro changed found hc hfound
              cases retired with
              | removed => exact absurd hc (by simp [Retired.record])
              | moved state hstate =>
                cases Option.some.inj hc
                exact h.recorded record found hr hfound
              | left =>
                cases Option.some.inj hc
                exact h.recorded record found hr hfound
            · intro found hfound
              cases hfound
              exact ⟨removal, hremoval, hby⟩
            · intro changed own hc hown
              cases retired with
              | removed => exact absurd hc (by simp [Retired.record])
              | moved state hstate =>
                cases Option.some.inj hc
                exact absurd (hstate.symm.trans hown) (by simp)
              | left =>
                cases Option.some.inj hc
                exact hkept record own hr hown

/-- A removal of a label that is there leaves every label that is not there with its last removal. -/
theorem Kept.unlabel (h : Kept issue w) {n : Nat} {label : JsString} (hthere : (n, label) ∈ w.github.labels)
    (byMaintainer : Bool) : Kept issue { w with github := { w.github with
      labels := w.github.labels.filter fun p => p ≠ (n, label)
      removals := ⟨n, label, byMaintainer⟩ :: w.github.removals } } := by
  intro record own hr hl
  refine (h record own hr hl).imp_right ?_
  rintro ⟨habsent, hrest⟩
  have hstill : (recoverTarget issue record, own) ∉ w.github.labels.filter fun p => p ≠ (n, label) :=
    fun hmem => habsent (List.mem_filter.1 hmem).1
  refine ⟨hstill, hrest.imp_right fun hlast => ⟨hstill, fun event hevent => hlast.2 event ?_⟩⟩
  have hother : ¬(n = recoverTarget issue record ∧ label = own) := by
    rintro ⟨hn, hlabel⟩
    exact habsent (hn ▸ hlabel ▸ hthere)
  rw [latestRemoval, if_neg hother] at hevent
  exact hevent

theorem Sound.unlabel (h : Sound issue w) {n : Nat} {label : JsString} (hthere : (n, label) ∈ w.github.labels)
    (byMaintainer : Bool) : Sound issue { w with github := { w.github with
      labels := w.github.labels.filter fun p => p ≠ (n, label)
      removals := ⟨n, label, byMaintainer⟩ :: w.github.removals } } :=
  ⟨h.intents, fun record event hr hevent => (h.recorded record event hr hevent).cons _,
    fun event hphase => (h.acted event hphase).cons _, h.entered, h.labelled,
    fun hphase => (h.kept hphase).unlabel hthere byMaintainer⟩

theorem Sound.begins (h : Sound issue w) (hidle : w.phase = .idle) {call : TerminalCall}
    (hstep : beginCall w call = some w') : Sound issue w' := by
  have hkept := h.kept fun other hother => absurd (hidle.symm.trans hother) (by simp)
  have hbegun : call.outcome.writes ≠ .before → Sound issue { w with phase := .begun call } := fun _ =>
    ⟨h.intents, h.recorded, fun event hphase => absurd hphase (by simp), fun other hother hbefore => by
      cases hother
      contradiction, fun o todo _ hphase => absurd hphase (by simp), fun _ => hkept.congr rfl rfl rfl rfl⟩
  unfold beginCall at hstep
  split at hstep
  · rename_i state record hwrites hstate hr
    cases Option.some.inj hstep
    refine ⟨?_, ?_, fun event hphase => absurd hphase (by simp), ?_, fun o todo _ hphase => absurd hphase (by simp), ?_⟩
    · intro changed hc
      cases Option.some.inj hc
      exact h.intents record hr
    · intro changed event hc hevent
      cases Option.some.inj hc
      exact h.recorded record event hr hevent
    · intro other hother _
      cases hother
      exact ⟨_, rfl, outcome_of_state hstate⟩
    · intro hnot
      exact absurd hwrites (hnot call rfl)
  · rename_i hwrites
    cases Option.some.inj hstep
    exact hbegun (by simp [hwrites])
  · rename_i record hwrites hr
    cases Option.some.inj hstep
    exact hbegun (by simp [hwrites])
  · exact absurd hstep (by simp)

theorem Sound.crash (h : Sound issue w) (hclear : Clear issue w .crash) :
    Sound issue { w with phase := .idle } := by
  refine Sound.of_plain rfl h.intents h.recorded ?_
  by_cases hbegun : ∃ call, w.phase = .begun call ∧ call.outcome.writes = .before
  · obtain ⟨call, hphase, hbefore⟩ := hbegun
    intro record label hr hl
    obtain ⟨found, hfound, hstate⟩ := h.entered call hphase hbefore
    cases Option.some.inj (hfound.symm.trans hr)
    have hlast := hclear call hphase hbefore _ hfound
    rw [call.labelled] at hlast
    have hlabel : label = call.outcome.label :=
      Option.some.inj (hl.symm.trans (quarantineLabel_of_outcome hstate))
    rw [hlabel]
    exact .inr ⟨hlast.1, .inr hlast⟩
  · exact (h.kept fun call hphase hbefore => hbegun ⟨call, hphase, hbefore⟩).congr rfl rfl rfl rfl

theorem Sound.step (h : Sound issue w) {e : IssueEvent} (hclear : Clear issue w e)
    (hstep : w.step principal issue e = some w') : Sound issue w' := by
  cases e with
  | begins call =>
    simp only [IssueWorld.step] at hstep
    split at hstep
    · rename_i hphase
      exact h.begins hphase hstep
    · exact absurd hstep (by simp)
  | reconciles =>
    simp only [IssueWorld.step] at hstep
    split at hstep
    · rename_i record hphase hr
      have hkept := h.kept fun other hother => absurd (hphase.symm.trans hother) (by simp)
      cases Option.some.inj hstep
      exact h.congr hkept (plain_replayNext _) rfl rfl rfl rfl
    · exact absurd hstep (by simp)
  | recovers reads answer hasPr retired =>
    simp only [IssueWorld.step] at hstep
    split at hstep
    · rename_i hphase
      exact h.recovers hphase hstep
    · exact absurd hstep (by simp)
  | settles answer => exact h.settle hclear hstep
  | crash =>
    cases Option.some.inj hstep
    exact h.crash hclear
  | unlabel number label byMaintainer =>
    simp only [IssueWorld.step] at hstep
    split_ifs at hstep with hthere
    cases Option.some.inj hstep
    exact h.unlabel hthere byMaintainer
  | comments c =>
    simp only [IssueWorld.step] at hstep
    split_ifs at hstep
    cases Option.some.inj hstep
    exact ⟨h.intents, h.recorded, h.acted, h.entered, h.labelled,
      fun hphase => (h.kept hphase).congr rfl rfl rfl rfl⟩
  | advances state =>
    simp only [IssueWorld.step] at hstep
    split at hstep
    · rename_i record hphase hr
      split_ifs at hstep with hstate
      cases Option.some.inj hstep
      refine Sound.of_plain (by simp [hphase, plain]) ?_ ?_ ?_
      · intro changed hc
        cases Option.some.inj hc
        exact h.intents record hr
      · intro changed event hc hevent
        cases Option.some.inj hc
        exact h.recorded record event hr hevent
      · intro changed label hc hl
        cases Option.some.inj hc
        have hl : quarantineLabel state = some label := hl
        rw [hl] at hstate
        exact absurd hstate (by simp)
    · exact absurd hstep (by simp)
  | creates =>
    simp only [IssueWorld.step] at hstep
    split at hstep
    · rename_i hphase hr
      cases Option.some.inj hstep
      refine Sound.of_plain (by simp [hphase, plain]) ?_ ?_ ?_
      · intro changed hc
        cases Option.some.inj hc
        exact fun o i hi => absurd hi (by simp [newRecord])
      · intro changed event hc hevent
        cases Option.some.inj hc
        exact absurd hevent (by simp [newRecord])
      · intro changed label hc hl
        cases Option.some.inj hc
        exact absurd hl (by simp [newRecord, quarantineLabel])
    · exact absurd hstep (by simp)

theorem Sound.visible (h : Sound issue w) : Visible issue w := by
  intro record label hr hl hpending hphase
  have hkept := h.kept fun call hcall => absurd hcall (hphase call)
  refine (hkept record label hr hl).imp_right fun ⟨habsent, hrest⟩ reads => .inl ?_
  have hlast : Unreleased w (recoverTarget issue record) label := by
    rcases hrest with ⟨o, i, ho, hi, happlied⟩ | hlast
    · rw [flags_of_pending hpending hi] at happlied
      exact absurd happlied (by simp)
    · exact hlast
  unfold recoverDecision
  rw [if_neg habsent]
  split_ifs
  · rfl
  · split
    · rfl
    · rename_i event byWhom hlatest
      cases byWhom with
      | true => exact absurd hlatest (hlast.2 event)
      | false =>
        obtain ⟨removal, hremoval, hby⟩ := latestRemoval_byMaintainer hlatest
        have hacted : record.unlabeledEventId ≠ some event := by
          intro hevent
          obtain ⟨found, hfound, hmaintainer⟩ := h.recorded record event hr hevent
          rw [hremoval] at hfound
          rw [← Option.some.inj hfound, hby] at hmaintainer
          exact absurd hmaintainer (by simp)
        rw [if_neg hacted]
        simp

/-! ## Comments -/

/-- Each comment posted is there, with its sentinel, and was posted once. -/
structure Posted (principal : JsString) (w : IssueWorld) : Prop where
  there : ∀ p ∈ w.posts, hasComment principal w.github p.1 p.2 = true
  once : w.posts.Nodup

theorem Posted.congr (h : Posted principal w) (hcomments : w'.github.comments = w.github.comments)
    (hposts : w'.posts = w.posts) : Posted principal w' := by
  refine ⟨?_, hposts ▸ h.once⟩
  rw [hposts]
  intro p hp
  rw [hasComment, hcomments]
  exact h.there p hp

theorem hasComment_cons (c : Comment) {github github' : Github} {n : Nat} {sentinel : JsString}
    (hcomments : github'.comments = c :: github.comments)
    (h : hasComment principal github n sentinel = true) : hasComment principal github' n sentinel = true := by
  rw [hasComment, hcomments, List.any_cons, Bool.or_eq_true]
  exact .inr h

theorem Posted.postComment (h : Posted principal w) {i : EffectIntent}
    (hnew : hasComment principal w.github i.target i.commentSentinel = false) :
    Posted principal (w.postComment principal i) := by
  constructor
  · intro p hp
    rcases List.mem_cons.1 hp with rfl | hp
    · have hinfix : i.commentSentinel <:+: commentBody i.commentSentinel i.body := by
        rw [commentBody, List.append_assoc]
        exact (List.prefix_append _ _).isInfix
      simp [hasComment, IssueWorld.postComment, hinfix]
    · exact hasComment_cons _ rfl (h.there p hp)
  · refine List.nodup_cons.2 ⟨fun hmem => ?_, h.once⟩
    rw [h.there _ hmem] at hnew
    exact absurd hnew (by simp)

theorem Posted.labelOn (h : Posted principal w) (n : Nat) (label : JsString) (answer : GhAnswer) :
    Posted principal (labelOn w n label answer).1 := by
  rcases labelOn_cases w n label answer with ⟨hsame, -⟩ | hput
  · rw [hsame]
    exact h
  · rw [hput]
    exact h.congr rfl rfl

theorem Posted.settle (h : Posted principal w) {answer : GhAnswer}
    (hstep : w.settle principal answer = some w') : Posted principal w' := by
  unfold IssueWorld.settle at hstep
  split at hstep
  · exact absurd hstep (by simp)
  · unfold persistIntent at hstep
    split at hstep
    · cases Option.some.inj hstep
      exact h.congr rfl rfl
    · cases Option.some.inj hstep
      exact h.congr rfl rfl
    · exact absurd hstep (by simp)
  · split at hstep
    · exact absurd hstep (by simp)
    · rename_i i hi
      split_ifs at hstep
      · cases Option.some.inj hstep
        exact h.congr rfl rfl
      · cases Option.some.inj hstep
        have hdone : Posted principal (commentOn principal w i answer).1 := by
          rcases commentOn_cases principal w i answer with hsame | ⟨hpost, hnew⟩
          · rw [hsame]
            exact h
          · rw [hpost]
            exact h.postComment hnew
        exact hdone.congr rfl rfl
  · obtain ⟨record, hr, hstep⟩ := Option.bind_eq_some_iff.1 hstep
    obtain ⟨i, hi, hworld⟩ := Option.map_eq_some_iff.1 hstep
    cases hworld
    exact h.congr rfl rfl
  · split at hstep
    · exact absurd hstep (by simp)
    · split_ifs at hstep
      · cases Option.some.inj hstep
        exact h.congr rfl rfl
      · cases Option.some.inj hstep
        exact (h.labelOn _ _ _).congr rfl rfl
  · obtain ⟨record, hr, hstep⟩ := Option.bind_eq_some_iff.1 hstep
    obtain ⟨i, hi, hworld⟩ := Option.map_eq_some_iff.1 hstep
    cases hworld
    exact h.congr rfl rfl
  · cases Option.some.inj hstep
    exact h.congr rfl rfl

theorem Posted.recovers (h : Posted principal w) {reads : RecoverReads} {answer : GhAnswer}
    {hasPr : Bool} {retired : Retired}
    (hstep : recoverQuarantined issue w reads answer hasPr retired = some w') : Posted principal w' := by
  unfold recoverQuarantined at hstep
  split at hstep
  · exact absurd hstep (by simp)
  · split at hstep
    · exact absurd hstep (by simp)
    · split at hstep
      · cases Option.some.inj hstep
        exact h
      · split at hstep
        · cases Option.some.inj hstep
          exact h
        · cases Option.some.inj hstep
          exact h
        · cases Option.some.inj hstep
          exact h.labelOn _ _ _
        · split_ifs at hstep
          · cases Option.some.inj hstep
            exact h.congr rfl rfl
          · cases Option.some.inj hstep
            exact h.congr rfl rfl

theorem Posted.begins (h : Posted principal w) {call : TerminalCall} (hstep : beginCall w call = some w') :
    Posted principal w' := by
  unfold beginCall at hstep
  split at hstep
  · cases Option.some.inj hstep
    exact h.congr rfl rfl
  · cases Option.some.inj hstep
    exact h.congr rfl rfl
  · cases Option.some.inj hstep
    exact h.congr rfl rfl
  · exact absurd hstep (by simp)

theorem Posted.step (h : Posted principal w) {e : IssueEvent} (hstep : w.step principal issue e = some w') :
    Posted principal w' := by
  cases e with
  | begins call =>
    simp only [IssueWorld.step] at hstep
    split at hstep
    · exact h.begins hstep
    · exact absurd hstep (by simp)
  | recovers reads answer hasPr retired =>
    simp only [IssueWorld.step] at hstep
    split at hstep
    · exact h.recovers hstep
    · exact absurd hstep (by simp)
  | settles answer => exact h.settle hstep
  | comments c =>
    simp only [IssueWorld.step] at hstep
    split_ifs at hstep
    cases Option.some.inj hstep
    exact ⟨fun p hp => hasComment_cons c rfl (h.there p hp), h.once⟩
  | crash =>
    cases Option.some.inj hstep
    exact h.congr rfl rfl
  | unlabel number label byMaintainer =>
    simp only [IssueWorld.step] at hstep
    split_ifs at hstep
    cases Option.some.inj hstep
    exact h.congr rfl rfl
  | _ =>
    simp only [IssueWorld.step] at hstep
    split at hstep <;> try split_ifs at hstep
    all_goals
      cases hstep
      try exact h.congr rfl rfl

/-! ## The results -/

/-- In every run the principal posts a comment at most once for a target and a sentinel. Where nothing
left from before a state was entered stands in the way of its label, a quarantined record with no effect
pending has its label put since, or the next recovery puts it or acts on a removal since. -/
theorem quarantine_visible (principal : JsString) (issue : Nat) (github : Github) (w : IssueWorld) :
    (Reaches (IssueWorld.step principal issue) (fun _ _ => True) (.start github) w → w.posts.Nodup) ∧
    (Reaches (IssueWorld.step principal issue) (Clear issue) (.start github) w → Visible issue w) := by
  constructor
  · intro hrun
    have hposted := hrun.invariant (Posted principal) ⟨fun p hp => absurd hp (by simp [IssueWorld.start]), .nil⟩
      fun t e u h _ hstep => h.step hstep
    exact hposted.once
  · intro hrun
    have hstart : Sound issue (.start github) := Sound.of_plain rfl (fun record hr => absurd hr (by simp [IssueWorld.start]))
      (fun record event hr => absurd hr (by simp [IssueWorld.start])) fun record label hr => absurd hr (by simp [IssueWorld.start])
    have hsound := hrun.invariant (Sound issue) hstart fun t e u h hclear hstep => h.step hclear hstep
    exact hsound.visible

/-! ### Runs of one issue -/

def clear (issue : Nat) (w : IssueWorld) : IssueEvent → Bool
  | .settles _ => match w.phase with
    | .begun call => !call.outcome.state.isSome ||
      (!(intentOf (w.record.getD newRecord) call).labelApplied &&
        decide (((intentOf (w.record.getD newRecord) call).target, call.label) ∉ w.github.labels))
    | _ => true
  | .crash => match w.phase, w.record with
    | .begun call, some record => decide (call.outcome.writes ≠ .before) ||
      (decide ((recoverTarget issue record, call.label) ∉ w.github.labels) &&
        !(latestRemoval w.github.removals (recoverTarget issue record) call.label).any Prod.snd)
    | _, _ => true
  | _ => true

theorem clear_of_clear {e : IssueEvent} (h : clear issue w e = true) : Clear issue w e := by
  cases e with
  | settles answer =>
    intro call hphase hstate
    simp only [clear, hphase, hstate, Bool.not_true, Bool.false_or, Bool.and_eq_true, Bool.not_eq_true',
      decide_eq_true_eq] at h
    exact h
  | crash =>
    intro call hphase hbefore record hr
    simp only [clear, hphase, hr, hbefore, ne_eq, not_true_eq_false, decide_false, Bool.false_or, Bool.and_eq_true,
      decide_eq_true_eq, Bool.not_eq_true'] at h
    refine ⟨h.1, fun event hevent => ?_⟩
    rw [hevent] at h
    exact absurd h.2 (by simp)
  | _ => trivial

def autopilot : JsString := js "adlc-autopilot"

def sampleBlock : TerminalCall := block 7 (js "strikes") (js "3 of 3 strikes used")

/-- The issue is blocked, and both effects are confirmed. -/
def blocks : List IssueEvent := .begins sampleBlock :: List.replicate 5 (.settles .ok)

/-- A maintainer removes the label, the run is armed again and blocked for the same reason. -/
def blocksAgain : List IssueEvent :=
  .creates :: blocks ++ [.unlabel 7 (js "adlc:autopilot-blocked") true, .recovers ⟨true, true, true⟩ .ok true .left,
    .begins sampleBlock] ++ List.replicate 3 (.settles .ok)

/-- A record that is blocked, with no effect pending and no label put since. -/
def unlabelled (w : IssueWorld) : Bool :=
  match w.phase, w.record with
  | .idle, some record => decide (record.state = .blocked) && decide (pendingEffects record = []) &&
    decide (w.put = []) && decide (recoverDecision 7 w.github record (js "adlc:autopilot-blocked")
      ⟨true, true, true⟩ = .alreadyActed)
  | _, _ => false

def labelPut (w : IssueWorld) : Bool := decide (w.put = [(7, js "adlc:autopilot-blocked")])

theorem quarantine_visible_blocked : ∃ w, labelPut w = true ∧ w.posts.Nodup ∧ Visible 7 w := by
  have hplay : (play (IssueWorld.step autopilot 7) (fun w e => clear 7 w e = true) (.start ⟨[], [], []⟩)
      (.creates :: blocks)).any labelPut = true := by decide +kernel
  obtain ⟨w, hrun, hput⟩ := exists_reaches_of_play hplay
  have hvisible := quarantine_visible autopilot 7 ⟨[], [], []⟩ w
  exact ⟨w, hput, hvisible.1 (hrun.weaken fun _ _ _ => trivial), hvisible.2 (hrun.weaken fun _ _ => clear_of_clear)⟩

/-- Of the second time neither the intent nor recovery knows: the label is not put again, and the removal
was acted on before. -/
theorem blocked_again_unlabelled : ¬∀ principal issue github w,
    Reaches (IssueWorld.step principal issue) (fun _ _ => True) (.start github) w → Visible issue w := by
  intro hall
  have hplay : (play (IssueWorld.step autopilot 7) (fun _ _ => True) (.start ⟨[], [], []⟩) blocksAgain).any
      unlabelled = true := by decide +kernel
  obtain ⟨w, hrun, hunlabelled⟩ := exists_reaches_of_play hplay
  have hvisible := hall autopilot 7 ⟨[], [], []⟩ w hrun
  unfold unlabelled at hunlabelled
  split at hunlabelled
  case h_2 => exact absurd hunlabelled (by simp)
  rename_i record hphase hr
  simp only [Bool.and_eq_true, decide_eq_true_eq] at hunlabelled
  obtain ⟨⟨⟨hstate, hpending⟩, hput⟩, hdecision⟩ := hunlabelled
  have hlabel : quarantineLabel record.state = some (js "adlc:autopilot-blocked") := by
    rw [hstate]
    rfl
  rcases hvisible record _ hr hlabel hpending (fun call hcall => by simp [hphase] at hcall) with hmem | hnext
  · rw [hput] at hmem
    exact absurd hmem (by simp)
  · rcases hnext ⟨true, true, true⟩ with hreapply | ⟨event, hact, -⟩
    · exact absurd (hdecision.symm.trans hreapply) (by simp)
    · exact absurd (hdecision.symm.trans hact) (by simp)

end Adlc.Autopilot.Quarantine
