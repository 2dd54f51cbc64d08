import Adlc.Autopilot.Authorize

namespace Adlc.Autopilot

open Framework

/-! That an authorization binds the revision, and when. -/

variable {w : AuthorizeContext} {engine : SortEngine} {req : AuthorRequest} {mode : JsString}
  {events : List TimelineEvent} {edits : BodyEdits} {r : Eligibility}

theorem Readable.revision (h : Readable req mode events edits) :
    (revisionOf w engine req.issue req.edits).editsReadable = true ∧
      (revisionOf w engine req.issue req.edits).lastEditedAt = edits.lastEditedAt ∧
        (revisionOf w engine req.issue req.edits).editors = normalizeEditors w engine edits.editors := by
  have hkept : req.edits.filter (fun e => e.ok ≠ some false) = some edits := by
    rw [h.history, Option.filter_some, if_pos (decide_eq_true h.ok)]
  simp only [revisionOf, hkept, Option.bind_some, Option.elim_some, Option.isSome_some, and_self]

theorem revisionByAuthor_iff (h : Readable req mode events edits) :
    (authorClassAdmitted mode (associationOf req.issue) &&
      revisionByAuthor (authorOf req.issue) (revisionOf w engine req.issue req.edits) events) = true ↔
        BoundByAuthor req mode events edits := by
  have hmem : ∀ e, e ∈ normalizeEditors w engine edits.editors ↔ e ∈ edits.editors := fun e =>
    (engine.editors.perm _ _).mem_iff
  rw [Bool.and_eq_true, revisionByAuthor, h.revision.2.2]
  by_cases hknown : authorOf req.issue = none ∨ authorOf req.issue = some []
  · rw [if_pos hknown]
    refine ⟨fun hfalse => Bool.noConfusion hfalse.2, fun hbound => ?_⟩
    exact absurd hknown (not_or.mpr hbound.known)
  · rw [if_neg hknown, Bool.and_eq_true, List.all_eq_true, List.all_eq_true]
    simp only [decide_eq_true_eq, hmem]
    constructor
    · rintro ⟨hadmitted, hedits, hrenames⟩
      exact ⟨hadmitted, not_or.mp hknown, hedits, hrenames⟩
    · rintro ⟨hadmitted, -, hedits, hrenames⟩
      exact ⟨hadmitted, hedits, hrenames⟩

theorem labelClause_ok_iff {issue : AuthoredIssue} {revision : IssueRevision} :
    labelClause w engine issue events revision = .ok ↔ autopilotLabel ∈ labelNames issue ∧
      ∃ e t, (engine.events.sort (notAfter w) (labelEvents events)).getLast? = some e ∧
        Approves w events revision.lastEditedAt e t := by
  rw [labelClause]
  constructor
  · intro h
    split at h
    · cases h
    rename_i hpresent
    split at h
    · cases h
    rename_i e hlast
    split at h
    · cases h
    rename_i hlabeled
    split at h
    · cases h
    rename_i hmaintainer
    split at h
    · cases h
    rename_i t ht
    split at h
    · cases h
    rename_i hedit
    split at h
    · cases h
    rename_i hrename
    refine ⟨not_not.mp hpresent, e, t, hlast, not_not.mp hlabeled, ?_, ht, ?_, ?_⟩
    · simpa using hmaintainer
    · intro text htext
      obtain e := Option.mem_def.mp htext
      rw [e] at hedit
      simpa using hedit
    · intro x hx
      by_contra hnot
      obtain ⟨hoff, hlate⟩ := not_or.mp hnot
      refine hrename (List.any_eq_true.mpr ⟨x, hx, ?_⟩)
      rw [Bool.and_eq_true, Bool.not_eq_true', Bool.not_eq_true']
      refine ⟨Bool.eq_false_iff.mpr hoff, ?_⟩
      cases hs : eventTime w x with
      | none => rfl
      | some s =>
        refine decide_eq_false fun hlt => hlate ⟨s, hs, hlt⟩
  · rintro ⟨hpresent, e, t, hlast, happroves⟩
    have hedit : (revision.lastEditedAt.any fun text => !isBefore w text t) = false := by
      cases htext : revision.lastEditedAt with
      | none => rfl
      | some text =>
        have hbefore := happroves.edited text htext
        rw [Option.any_some, hbefore]
        rfl
    have hrename : ((renames events).any fun r =>
        !isMaintainer w r.actor && !(eventTime w r).any fun s => s < t) = false := by
      refine List.any_eq_false.mpr ?_
      intro x hx
      obtain hmaintainer | ⟨s, hs, hlt⟩ := happroves.renamed x hx
      · simp [hmaintainer]
      · simp [hs, hlt]
    rw [if_neg (not_not.mpr hpresent)]
    simp only [hlast, happroves.labeled, ne_eq, not_true_eq_false, if_false, happroves.maintainer,
      Bool.not_true, Bool.false_eq_true, happroves.dated, hedit, hrename]

/-- A refusal, or one of the clauses on what could be read. -/
theorem eligibleAuthor_cases (h : eligibleAuthor w engine req = .ok r) :
    (r.ok = false ∧ r.clause = none) ∨ ∃ mode events edits, Readable req mode events edits ∧
      ((r.clause = some .author ∧ BoundByAuthor req mode events edits) ∨
        (r.clause = some .label ∧ ¬BoundByAuthor req mode events edits ∧ autopilotLabel ∈ labelNames req.issue ∧
          ∃ e t, (engine.events.sort (notAfter w) (labelEvents events)).getLast? = some e ∧
            Approves w events edits.lastEditedAt e t)) := by
  rw [eligibleAuthor] at h
  split at h
  · cases h
  rename_i mode hmode
  simp only at h
  split at h
  · obtain rfl := Except.ok.inj h
    exact .inl ⟨rfl, rfl⟩
  rename_i events hevents
  split at h
  · obtain rfl := Except.ok.inj h
    exact .inl ⟨rfl, rfl⟩
  rename_i hreadable
  obtain ⟨edits, hedits, hok⟩ : ∃ edits, req.edits = some edits ∧ edits.ok ≠ some false := by
    have hsome : (req.edits.filter fun e => e.ok ≠ some false).isSome = true := by
      simpa [revisionOf] using hreadable
    obtain ⟨edits, hkept⟩ := Option.isSome_iff_exists.mp hsome
    obtain ⟨hedits, hok⟩ := Option.filter_eq_some_iff.mp hkept
    exact ⟨edits, hedits, of_decide_eq_true hok⟩
  have hread : Readable req mode events edits := ⟨hmode, hevents, hedits, hok⟩
  split at h
  · rename_i hclause
    obtain rfl := Except.ok.inj h
    exact .inr ⟨mode, events, edits, hread, .inl ⟨rfl, (revisionByAuthor_iff hread).mp hclause⟩⟩
  rename_i hclause
  have hauthor := mt (@revisionByAuthor_iff w engine req mode events edits hread).mpr hclause
  split at h
  · rename_i hlabel
    obtain rfl := Except.ok.inj h
    obtain ⟨hpresent, e, t, hlast, happroves⟩ := labelClause_ok_iff.mp hlabel
    rw [hread.revision.2.1] at happroves
    exact .inr ⟨mode, events, edits, hread, .inr ⟨rfl, hauthor, hpresent, e, t, hlast, happroves⟩⟩
  · left
    split at h
    · obtain rfl := Except.ok.inj h
      exact ⟨rfl, rfl⟩
    split at h
    · obtain rfl := Except.ok.inj h
      exact ⟨rfl, rfl⟩
    split at h
    all_goals
      obtain rfl := Except.ok.inj h
      exact ⟨rfl, rfl⟩

theorem eligibleAuthor_label (hread : Readable req mode events edits)
    (hauthor : ¬BoundByAuthor req mode events edits) (hpresent : autopilotLabel ∈ labelNames req.issue)
    {e : TimelineEvent} {t : Int}
    (hlast : (engine.events.sort (notAfter w) (labelEvents events)).getLast? = some e)
    (happroves : Approves w events edits.lastEditedAt e t) :
    ∃ r, eligibleAuthor w engine req = .ok r ∧ r.ok = true ∧ r.clause = some .label := by
  obtain ⟨hreadable, hedited, -⟩ := @Readable.revision w engine req mode events edits hread
  have hclause := mt (@revisionByAuthor_iff w engine req mode events edits hread).mp hauthor
  have hlabel : labelClause w engine req.issue events (revisionOf w engine req.issue req.edits) = .ok := by
    refine labelClause_ok_iff.mpr ⟨hpresent, e, t, hlast, ?_⟩
    rw [hedited]
    exact happroves
  refine ⟨⟨true, none, some .label, none, revisionOf w engine req.issue req.edits⟩, ?_, rfl, rfl⟩
  rw [eligibleAuthor, hread.mode]
  simp only [hread.timeline, hreadable, Bool.not_true, Bool.false_eq_true, if_false, hclause, hlabel]

theorem Readable.unique {mode' : JsString} {events' : List TimelineEvent} {edits' : BodyEdits}
    (h : Readable req mode events edits) (h' : Readable req mode' events' edits') :
    mode = mode' ∧ events = events' ∧ edits = edits' :=
  ⟨Except.ok.inj (h.mode.symm.trans h'.mode), Option.some.inj (h.timeline.symm.trans h'.timeline),
    Option.some.inj (h.history.symm.trans h'.history)⟩

theorem mem_labelEvents_of_last {e : TimelineEvent}
    (h : (engine.events.sort (notAfter w) (labelEvents events)).getLast? = some e) :
    e ∈ labelEvents events := (engine.events.mayComeLast h).1

/-- An edit of a complete history is before what passes. -/
theorem Approves.edit_before {e : TimelineEvent} {t : Int} (h : Approves w events edits.lastEditedAt e t)
    (hcomplete : CompleteHistory w edits) {edit : Editor} (hedit : edit ∈ edits.editors) :
    ∃ s, edit.editedAt.bind w.dateParse = some s ∧ s < t := by
  obtain ⟨s, hs⟩ := hcomplete.dated edit hedit
  obtain ⟨last, hlast, hle⟩ := hcomplete.latest edit hedit s hs
  obtain ⟨text, htext, hparse⟩ := Option.bind_eq_some_iff.mp hlast
  have hbefore := h.edited text htext
  rw [isBefore, hparse, Option.any_some, decide_eq_true_eq] at hbefore
  exact ⟨s, hs, lt_of_le_of_lt hle hbefore⟩

theorem IsLatest.le {all : List TimelineEvent} {d e : TimelineEvent} {s t : Int} (h : IsLatest w all e t)
    (hd : d ∈ all) (hs : eventTime w d = some s) : s ≤ t := by
  obtain hlt | ⟨rfl, -⟩ := h.latest d hd s hs
  · exact hlt.le
  · exact le_rfl

/-- With one more rename by an outsider, at the latest label event or after it, nothing authorizes. -/
theorem refused_renamed {req' : AuthorRequest} {x : TimelineEvent} (h : Renamed req req' x)
    (hrenamed : x.event = some (js "renamed")) (hevents : req.timeline = some events)
    (houtsider : Outsider w req x.actor) (hlate : AtOrAfter w (labelEvents events) (eventTime w x)) :
    Refused w engine req' := by
  obtain ⟨front, back, htimeline, rfl⟩ := h
  obtain rfl := Option.some.inj (hevents.symm.trans htimeline)
  have hmem : x ∈ renames (front ++ x :: back) :=
    List.mem_filter.mpr ⟨List.mem_append_right _ List.mem_cons_self, decide_eq_true hrenamed⟩
  have hskip : labelEvents (x :: back) = labelEvents back := by
    refine List.filter_cons_of_neg ?_
    rw [hrenamed]
    exact Bool.false_ne_true
  have hlabels : labelEvents (front ++ x :: back) = labelEvents (front ++ back) := by
    rw [labelEvents, List.filter_append, ← labelEvents, ← labelEvents, hskip, labelEvents, labelEvents,
      ← List.filter_append, ← labelEvents]
  intro r hr
  obtain ⟨hok, -⟩ | ⟨mode, events, edits, hread, hclause⟩ := eligibleAuthor_cases hr
  · exact hok
  obtain rfl := Option.some.inj hread.timeline
  obtain ⟨-, hauthor⟩ | ⟨-, -, -, e, t, hlast, happroves⟩ := hclause
  · exact absurd (hauthor.renames x hmem) houtsider.1
  · obtain hmaintainer | ⟨s, hs, hlt⟩ := happroves.renamed x hmem
    · rw [houtsider.2] at hmaintainer
      cases hmaintainer
    · have he := mem_labelEvents_of_last hlast
      rw [hlabels] at he
      exact absurd hlt (hlate e he t s happroves.dated hs).not_gt

theorem refused_edited {req' : AuthorRequest} {edit : Editor} {edits' : BodyEdits} (h : Edited req req' edit)
    (hedits : req'.edits = some edits') (hcomplete : CompleteHistory w edits')
    (hevents : req.timeline = some events) (houtsider : Outsider w req edit.login)
    (hlate : AtOrAfter w (labelEvents events) (edit.editedAt.bind w.dateParse)) : Refused w engine req' := by
  obtain ⟨edits, front, back, lastEditedAt, -, -, rfl⟩ := h
  obtain rfl := Option.some.inj hedits
  have hmem : edit ∈ front ++ edit :: back := List.mem_append_right _ List.mem_cons_self
  intro r hr
  obtain ⟨hok, -⟩ | ⟨mode, events', edits', hread, hclause⟩ := eligibleAuthor_cases hr
  · exact hok
  obtain rfl := Option.some.inj (hevents.symm.trans hread.timeline)
  obtain rfl := Option.some.inj hread.history
  obtain ⟨-, hauthor⟩ | ⟨-, -, -, e, t, hlast, happroves⟩ := hclause
  · exact absurd (hauthor.edits edit hmem) houtsider.1
  · obtain ⟨s, hs, hlt⟩ := happroves.edit_before hcomplete hmem
    exact absurd hlt (hlate e (mem_labelEvents_of_last hlast) t s happroves.dated hs).not_gt

/-- Exactly when an authorization binds the revision. -/
theorem eligibleAuthor_binds_iff
    (hcomplete : ∀ edits, req.edits = some edits → edits.ok ≠ some false → CompleteHistory w edits) :
    BindsRevision w req ↔ Determined w req := by
  constructor
  · intro h mode events edits hread
    by_contra hnot
    obtain ⟨hauthor, hnot⟩ := not_or.mp hnot
    obtain ⟨hpresent, hnot⟩ := not_or.mp hnot
    obtain ⟨hsettled, hnot⟩ := not_or.mp hnot
    push Not at hnot
    obtain ⟨e, t, hlast, happroves⟩ := hnot
    obtain ⟨s, hs⟩ := exists_sort_getLast hlast
    have hsorted : ((⟨s, .insertion⟩ : SortEngine).events.sort (notAfter w) (labelEvents events)).getLast? =
        some e := hs
    obtain ⟨r, hr, -, hclause⟩ := eligibleAuthor_label hread hauthor (not_not.mp hpresent) hsorted happroves
    obtain ⟨events', edits', hevents, -, hbound⟩ := h.label _ r hr hclause
    obtain rfl := Option.some.inj (hread.timeline.symm.trans hevents)
    obtain ⟨d, hd, u, hlabeled, hmaintainer, hlatest, -⟩ := hbound.labeling
    exact hsettled ⟨d, hd, u, hlabeled, hmaintainer, hlatest⟩
  · intro h
    refine ⟨?_, ?_, ?_, ?_⟩
    · intro engine r hr hlabel
      obtain ⟨-, hnone⟩ | ⟨mode, events, edits, hread, hclause⟩ := eligibleAuthor_cases hr
      · cases hnone.symm.trans hlabel
      obtain ⟨hauthor, -⟩ | ⟨-, hauthor, hpresent, e, t, hlast, happroves⟩ := hclause
      · cases hauthor.symm.trans hlabel
      obtain hbound | habsent | ⟨d, hd, u, hlabeled, hmaintainer, hlatest⟩ | hnone := h mode events edits hread
      · exact absurd hbound hauthor
      · exact absurd hpresent habsent
      · -- What passes is not after the latest, so the latest passes too.
        have hle : t ≤ u := hlatest.le (mem_labelEvents_of_last hlast) happroves.dated
        have hhistory := hcomplete edits hread.history hread.ok
        refine ⟨events, edits, hread.timeline, hread.history, hpresent, d, hd, u, hlabeled, hmaintainer,
          hlatest, ?_, ?_⟩
        · intro edit hedit
          obtain ⟨s, hs, hlt⟩ := happroves.edit_before hhistory hedit
          exact ⟨s, hs, lt_of_lt_of_le hlt hle⟩
        · intro x hx
          obtain hx | ⟨s, hs, hlt⟩ := happroves.renamed x hx
          · exact .inl hx
          · exact .inr ⟨s, hs, lt_of_lt_of_le hlt hle⟩
      · exact absurd happroves (hnone e t (engine.events.mayComeLast hlast))
    · intro engine r hr hauthor
      obtain ⟨-, hnone⟩ | ⟨mode, events, edits, hread, hclause⟩ := eligibleAuthor_cases hr
      · cases hnone.symm.trans hauthor
      obtain ⟨-, hbound⟩ | ⟨hlabel, -⟩ := hclause
      · exact ⟨mode, events, edits, hread.mode, hread.timeline, hread.history, hbound⟩
      · cases hlabel.symm.trans hauthor
    · intro req' x events hrenamed hevent hevents houtsider hlate engine engine' _
      exact refused_renamed hrenamed hevent hevents houtsider hlate
    · intro req' edit events edits' hedited hedits hhistory hevents houtsider hlate engine engine' _
      exact refused_edited hedited hedits hhistory hevents houtsider hlate

/-! ## Dated labels -/

theorem notAfter_iff {a b : TimelineEvent} {s t : Int} (ha : eventTime w a = some s)
    (hb : eventTime w b = some t) :
    notAfter w a b = true ↔ s < t ∨ s = t ∧ eventId a ≤ eventId b := by
  rw [notAfter, decide_eq_true_eq, byTime, ha, hb]
  simp only
  split
  · rename_i hne
    have hcast : ((s : Rat) - t ≤ 0) ↔ s ≤ t := by
      rw [sub_nonpos]
      exact Int.cast_le
    rw [hcast]
    omega
  · rename_i heq
    have hst : s = t := by omega
    rw [sub_nonpos]
    constructor
    · intro h
      exact .inr ⟨hst, h⟩
    · rintro (h | ⟨-, h⟩)
      · omega
      · exact h

theorem ordersOn_of_dated {all : List TimelineEvent} (h : ∀ e ∈ all, ∃ t, eventTime w e = some t) :
    OrdersOn (notAfter w) all := by
  constructor
  · intro a ha b hb
    obtain ⟨s, hs⟩ := h a ha
    obtain ⟨t, ht⟩ := h b hb
    rw [notAfter_iff hs ht, notAfter_iff ht hs]
    obtain hlt | rfl | hlt := lt_trichotomy s t
    · exact .inl (.inl hlt)
    · exact (le_total (eventId a) (eventId b)).imp (fun h => .inr ⟨rfl, h⟩) fun h => .inr ⟨rfl, h⟩
    · exact .inr (.inl hlt)
  · intro a ha b hb c hc hab hbc
    obtain ⟨s, hs⟩ := h a ha
    obtain ⟨t, ht⟩ := h b hb
    obtain ⟨u, hu⟩ := h c hc
    rw [notAfter_iff hs ht] at hab
    rw [notAfter_iff ht hu] at hbc
    rw [notAfter_iff hs hu]
    obtain hst | ⟨rfl, hidab⟩ := hab <;> obtain htu | ⟨rfl, hidbc⟩ := hbc
    · exact .inl (hst.trans htu)
    · exact .inl hst
    · exact .inl htu
    · exact .inr ⟨rfl, hidab.trans hidbc⟩

/-- Enough: the label's events have times, and no unlabeling ties with a labeling. -/
theorem determined_of_dated
    (hdated : ∀ events, req.timeline = some events → ∀ e ∈ labelEvents events, ∃ t, eventTime w e = some t)
    (hties : ∀ events, req.timeline = some events → ∀ d ∈ labelEvents events, ∀ e ∈ labelEvents events,
      d.event = some (js "unlabeled") → e.event = some (js "labeled") → eventTime w d = eventTime w e →
        eventId d ≠ eventId e) : Determined w req := by
  intro mode events edits hread
  refine .inr (.inr ?_)
  by_contra hnot
  obtain ⟨hsettled, hnot⟩ := not_or.mp hnot
  push Not at hnot
  obtain ⟨e, t, hlast, happroves⟩ := hnot
  have hall := hdated events hread.timeline
  have hgreatest : ∀ d ∈ labelEvents events, notAfter w d e = true := by
    have hmem := List.mem_of_getLast? (hlast.2 (ordersOn_of_dated hall))
    exact List.all_eq_true.mp (List.mem_filter.mp hmem).2
  refine hsettled ⟨e, hlast.1, t, happroves.labeled, happroves.maintainer, happroves.dated, ?_, ?_⟩
  · intro d hd s hs
    exact (notAfter_iff hs happroves.dated).mp (hgreatest d hd)
  · intro d hd hunlabeled
    obtain ⟨s, hs⟩ := hall d hd
    refine ⟨s, hs, ?_⟩
    obtain hlt | ⟨rfl, hid⟩ := (notAfter_iff hs happroves.dated).mp (hgreatest d hd)
    · exact .inl hlt
    · have hne := hties events hread.timeline d hd e hlast.1 hunlabeled happroves.labeled
        (hs.trans happroves.dated.symm)
      exact .inr ⟨rfl, lt_of_le_of_ne hid hne⟩

def firstDay : JsString := js "2026-01-01T00:00:00Z"

def secondDay : JsString := js "2026-01-02T00:00:00Z"

/-- Two days, and one maintainer. -/
def smallRepository : AuthorizeContext where
  dateParse text :=
    if text = firstDay then some 1767225600000 else if text = secondDay then some 1767312000000 else none
  localeCompare _ _ := 0
  sha256 text := sha256Hex (utf8Encode text)
  permissionOf login := if login = js "maintainer" then some (js "maintain") else none

def labelEvent (event : JsString) (actor : JsString) (created_at : Option JsString) (id : Rat) : TimelineEvent :=
  ⟨some event, some autopilotLabel, some actor, created_at, none, .number id⟩

def labelledBy (events : List TimelineEvent) : AuthorRequest where
  issue := ⟨none, none, some (js "outsider"), none, some (js "NONE"), none, [.text autopilotLabel]⟩
  timeline := some events
  edits := some ⟨none, none, []⟩
  mode := none

theorem labelledBy_complete (events : List TimelineEvent) (edits : BodyEdits)
    (h : (labelledBy events).edits = some edits) : CompleteHistory smallRepository edits := by
  obtain rfl := Option.some.inj h
  exact ⟨fun e he => (nomatch he), fun e he => (nomatch he), fun text htext => (nomatch htext)⟩

def relabelled : List TimelineEvent :=
  [labelEvent (js "unlabeled") (js "outsider") (some firstDay) 1,
    labelEvent (js "labeled") (js "maintainer") (some secondDay) 2]

theorem eligibleAuthor_binds_relabelled :
    (labelledBy relabelled).timeline = some relabelled ∧ BindsRevision smallRepository (labelledBy relabelled) := by
  refine ⟨rfl, ?_⟩
  refine (eligibleAuthor_binds_iff fun edits h _ => labelledBy_complete relabelled edits h).mpr ?_
  refine determined_of_dated ?_ ?_
  · intro events h
    obtain rfl := Option.some.inj h
    have hall : ∀ e ∈ labelEvents relabelled, (eventTime smallRepository e).isSome = true := by decide +kernel
    intro e he
    exact Option.isSome_iff_exists.mp (hall e he)
  · intro events h
    obtain rfl := Option.some.inj h
    decide +kernel

def unlabelledOnce : TimelineEvent := labelEvent (js "unlabeled") (js "maintainer") none 1

def labeledFirst : TimelineEvent := labelEvent (js "labeled") (js "maintainer") (some firstDay) 2

/-- A label with an unlabeling that has no time. -/
def undated : List TimelineEvent := [unlabelledOnce, labeledFirst]

/-- The label authorizes although it may have been removed later. -/
theorem undated_unlabeling_ignored :
    (∀ edits, (labelledBy undated).edits = some edits → CompleteHistory smallRepository edits) ∧
      unlabelledOnce ∈ labelEvents undated ∧ eventTime smallRepository unlabelledOnce = none ∧
        (∃ r, eligibleAuthor smallRepository ⟨.insertion, .insertion⟩ (labelledBy undated) = .ok r ∧
          r.ok = true ∧ r.clause = some .label) ∧ ¬BindsRevision smallRepository (labelledBy undated) := by
  have hmem : unlabelledOnce ∈ labelEvents undated := List.mem_cons_self
  have htime : eventTime smallRepository unlabelledOnce = none := by decide +kernel
  have hlabel : ∃ r, eligibleAuthor smallRepository ⟨.insertion, .insertion⟩ (labelledBy undated) = .ok r ∧
      r.ok = true ∧ r.clause = some .label := by
    have hread : Readable (labelledBy undated) (js "owner-or-label") undated ⟨none, none, []⟩ :=
      ⟨by decide +kernel, rfl, rfl, by decide⟩
    have hauthor : ¬BoundByAuthor (labelledBy undated) (js "owner-or-label") undated ⟨none, none, []⟩ := by
      intro hbound
      exact absurd hbound.admitted (by decide +kernel)
    refine eligibleAuthor_label hread hauthor (by decide +kernel) (e := labeledFirst) (t := 1767225600000) ?_ ?_
    · decide +kernel
    · refine ⟨rfl, by decide +kernel, by decide +kernel, fun text htext => (nomatch htext), ?_⟩
      decide +kernel
  refine ⟨labelledBy_complete undated, hmem, htime, hlabel, ?_⟩
  intro h
  obtain ⟨r, hr, -, hclause⟩ := hlabel
  obtain ⟨events, edits, hevents, -, hbound⟩ := h.label _ r hr hclause
  obtain rfl := Option.some.inj hevents
  obtain ⟨e, -, t, -, -, hlatest, -⟩ := hbound.labeling
  obtain ⟨s, hs, -⟩ := hlatest.unlabelings unlabelledOnce hmem rfl
  cases htime.symm.trans hs

end Adlc.Autopilot
