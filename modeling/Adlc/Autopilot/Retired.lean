import Adlc.Autopilot.Retire
import Adlc.Framework.Trace

namespace Adlc.Autopilot.Retire

open Adlc.Framework Adlc.Framework.Event

/-! ## The repository -/

/-- A worktree on disk. -/
structure Tree where
  id : Nat
  clean : Bool
  head : JsString
  branch : Option JsString

/-- The branch of the issue, the same branch of the remote, the worktrees on disk at the places of the
run and at others, and what `git worktree list` has. -/
structure Repo where
  tip : Option JsString
  remote : Option JsString
  trees : Place ⊕ Nat → Option Tree
  listed : Place → Bool

def Repo.tree (repo : Repo) (place : Place) : Option Tree := repo.trees (.inl place)

def Repo.Holds (repo : Repo) (id : Nat) : Prop := ∃ place tree, repo.trees place = some tree ∧ tree.id = id

abbrev Ev := Event Fault Repo RetireCall RetireCall.Answer

/-- A call that takes no branch and no worktree away; worktrees may move and change. -/
def Repo.Keeps (before after : Repo) : Prop :=
  after.tip = before.tip ∧ after.remote = before.remote ∧ ∀ id, before.Holds id → after.Holds id

/-- What a call does, whether it raises or not. -/
def Effect (e : Ev) : Prop :=
  match e.call with
  | .git (.deleteRef head) =>
    (e.before.tip = some head ∧ e.after = { e.before with tip := none }) ∨ e.after = e.before
  | .git (.remove place) =>
    (∃ tree, e.before.tree place = some tree ∧ tree.clean = true ∧ e.after.tip = e.before.tip ∧
      e.after.remote = e.before.remote ∧
      e.after.trees = Function.update e.before.trees (.inl place) none) ∨ e.after = e.before
  | .pushDelete lease =>
    (e.before.remote = some lease ∧ e.after = { e.before with remote := none }) ∨ e.after = e.before
  | .pushRestore oid =>
    (e.before.remote = none ∧ e.after = { e.before with remote := some oid }) ∨ e.after = e.before
  | _ => e.before.Keeps e.after

/-- What an answer says is there is there. -/
def Truthful (e : Ev) : Prop :=
  match e with
  | ⟨before, .git (.status place), .ok r, _⟩ =>
    r.ok = true → r.out = [] → ∃ tree, before.tree place = some tree ∧ tree.clean = true
  | ⟨before, .git (.head place), .ok r, _⟩ =>
    r.ok = true → ∃ tree, before.tree place = some tree ∧ tree.head = r.out
  | ⟨before, .git (.symbolicRef place), .ok r, _⟩ =>
    r.ok = true → ∃ tree, before.tree place = some tree ∧ tree.branch = some r.out
  | ⟨before, .git .revParse, .ok r, _⟩ => ∀ oid, tipOf r = some oid → before.tip = some oid
  | ⟨before, .lsRemote, .ok r, _⟩ => r.ok = true → ∀ oid, remoteOf r.out = some oid → before.remote = some oid
  | ⟨before, .onDisk place, .ok there, _⟩ => there = true → (before.tree place).isSome = true
  | _ => True

/-- What an answer is read as not to be there is not there: `rev-parse` fails for no other reason than
that the branch does not exist, `symbolic-ref` for none but a detached head, and so on. -/
def Honest (path : JsString) (e : Ev) : Prop :=
  match e with
  | ⟨before, .git (.symbolicRef place), .ok r, _⟩ =>
    r.ok = false → ∀ tree, before.tree place = some tree → tree.branch = none
  | ⟨before, .git .revParse, .ok r, _⟩ => tipOf r = none → before.tip = none
  | ⟨before, .git .listWorktrees, .ok r, _⟩ => listsIssue path r = false → before.listed .issue = false
  | ⟨before, .lsRemote, .ok r, _⟩ => r.ok = true → remoteOf r.out = none → before.remote = none
  | ⟨before, .onDisk .issue, .ok there, _⟩ => there = false → before.tree .issue = none
  | ⟨before, .onDisk (.retiring token), .ok there, _⟩ =>
    there = false → before.tree (.retiring token) = none ∧ before.listed (.retiring token) = false
  | _ => True

/-- The repository, as it answers while other parties do what they like between the calls. -/
def Allows (path : JsString) (honest : Prop) (e : Ev) : Prop :=
  Effect e ∧ Truthful e ∧ (honest → Honest path e)

/-! ## What retirement may do -/

/-- A call that takes something away, or pushes. -/
def Acts : RetireCall → Prop
  | .git (.deleteRef _) => True
  | .git (.remove _) => True
  | .git .unsetMarker => True
  | .pushDelete _ => True
  | .pushRestore _ => True
  | .removeRecord _ => True
  | _ => False

def Pushes : RetireCall → Prop
  | .pushDelete _ => True
  | .pushRestore _ => True
  | _ => False

/-- The run is marked as an orphan. -/
def Refuses : RetireCall → Prop
  | .update (.orphan _) => True
  | .append (.orphan _ _) => True
  | _ => False

def Calm (log : List Ev) : Prop := ∀ e ∈ log, ¬Refuses e.call

/-- The worktree at a place was seen clean. -/
def SeenClean (place : Place) (log : List Ev) : Prop :=
  ∃ e ∈ log, e.call = .git (.status place) ∧ ∃ tree, e.before.tree place = some tree ∧ tree.clean = true

/-- The worktree that was renamed aside was seen at the head, and on no branch. -/
def SeenDetached (place : Place) (head : JsString) (log : List Ev) : Prop :=
  (∃ e ∈ log, e.call = .git (.head place) ∧ ∃ tree, e.before.tree place = some tree ∧ tree.head = head) ∧
    ∃ e ∈ log, e.call = .git (.symbolicRef place) ∧
      ∀ tree, e.before.tree place = some tree → tree.branch = none

/-- The remote branch, the local branch and the worktrees of the record were each seen absent. -/
structure SeenAbsent (record : RunRecord) (log : List Ev) : Prop where
  remote : ∃ e ∈ log, e.call = .lsRemote ∧ e.before.remote = none
  branch : ∃ e ∈ log, e.call = .git .revParse ∧ e.before.tip = none
  worktree : ∃ e ∈ log, e.call = .onDisk .issue ∧ e.before.tree .issue = none
  listed : ∃ e ∈ log, e.call = .git .listWorktrees ∧ e.before.listed .issue = false
  aside : ∀ token, record.token = some token → isToken token = true → ∃ e ∈ log,
    e.call = .onDisk (.retiring token) ∧ e.before.tree (.retiring token) = none ∧
      e.before.listed (.retiring token) = false

/-- What is right of an event, after the earlier ones, wherever others interfere: a branch is deleted at
an expected head only, nothing is deleted or pushed after a refusal, and nothing is pushed at all unless
`push`. -/
structure Owned (push : Prop) (expects : List Ev → JsString → Prop) (e : Ev) (earlier : List Ev) : Prop where
  branch : e.before.tip ≠ none → e.after.tip = none → ∃ head, e.before.tip = some head ∧ expects earlier head
  refused : Acts e.call → Calm earlier
  pushed : Pushes e.call → push

/-- And what is right when absence is not misread: a worktree goes when it was seen clean and detached
at an expected head, and the record when all of its run was seen absent. -/
structure Observed (expects : List Ev → JsString → Prop) (e : Ev) (earlier : List Ev) : Prop where
  worktree : ∀ id, e.before.Holds id → ¬e.after.Holds id → ∃ token head tree, expects earlier head ∧
    e.before.tree (.retiring token) = some tree ∧ tree.id = id ∧ tree.clean = true ∧
    SeenClean .issue earlier ∧ SeenDetached (.retiring token) head earlier
  record : ∀ record, e.call = .removeRecord record → SeenAbsent record earlier

/-- The two together, the second only for a world where absence is not misread. -/
def Right (honest push : Prop) (expects : List Ev → JsString → Prop) (e : Ev) (earlier : List Ev) : Prop :=
  Owned push expects e earlier ∧ (honest → Observed expects e earlier)

variable {path : JsString} {honest push : Prop} {expects : List Ev → JsString → Prop} {e : Ev}
  {log earlier : List Ev}

/-! ## The calls -/

/-- Only two commands take a branch or a worktree away. -/
theorem keeps_of_effect (h : Effect e) (hcall : ∀ head place, e.call ≠ .git (.deleteRef head) ∧
    e.call ≠ .git (.remove place)) :
    e.after.tip = e.before.tip ∧ ∀ id, e.before.Holds id → e.after.Holds id := by
  obtain ⟨before, c, answer, after⟩ := e
  cases c with
  | git command =>
    cases command with
    | deleteRef head => exact absurd rfl (hcall head .issue).1
    | remove place => exact absurd rfl (hcall [] place).2
    | _ =>
      obtain ⟨htip, -, hholds⟩ : before.Keeps after := h
      exact ⟨htip, hholds⟩
  | pushDelete lease =>
    rcases h with ⟨-, hafter⟩ | hafter
    · have hafter : after = { before with remote := none } := hafter
      subst hafter
      exact ⟨rfl, fun _ hid => hid⟩
    · have hafter : after = before := hafter
      subst hafter
      exact ⟨rfl, fun _ hid => hid⟩
  | pushRestore oid =>
    rcases h with ⟨-, hafter⟩ | hafter
    · have hafter : after = { before with remote := some oid } := hafter
      subst hafter
      exact ⟨rfl, fun _ hid => hid⟩
    · have hafter : after = before := hafter
      subst hafter
      exact ⟨rfl, fun _ hid => hid⟩
  | _ =>
    obtain ⟨htip, -, hholds⟩ : before.Keeps after := h
    exact ⟨htip, hholds⟩

/-- A call that takes nothing from the repository is right when it is not made after a refusal, and
takes no record away that was not seen to stand for nothing. -/
theorem right_of_keeps (h : Effect e) (hcall : ∀ head place, e.call ≠ .git (.deleteRef head) ∧
      e.call ≠ .git (.remove place)) (hcalm : Acts e.call → Calm earlier) (hpush : Pushes e.call → push)
    (hrecord : honest → ∀ record, e.call = .removeRecord record → SeenAbsent record earlier) :
    Right honest push expects e earlier := by
  obtain ⟨htip, hholds⟩ := keeps_of_effect h hcall
  refine ⟨⟨fun hbefore hafter => ?_, hcalm, hpush⟩, fun hh => ⟨fun id hid hgone => ?_, hrecord hh⟩⟩
  · rw [htip] at hafter
    exact absurd hafter hbefore
  · exact absurd (hholds id hid) hgone

theorem acts_of_pushes {c : RetireCall} (h : Pushes c) : Acts c := by
  cases c <;> first | exact trivial | exact absurd h id

theorem right_of_harmless (h : Allows path honest e) (hharmless : ¬Acts e.call) :
    Right honest push expects e earlier := by
  refine right_of_keeps h.1 (fun head place => ⟨fun hc => ?_, fun hc => ?_⟩) (fun hc => absurd hc hharmless)
    (fun hc => absurd (acts_of_pushes hc) hharmless) ?_
  · rw [hc] at hharmless
    exact hharmless trivial
  · rw [hc] at hharmless
    exact hharmless trivial
  · intro _ record hc
    rw [hc] at hharmless
    exact absurd trivial hharmless

theorem right_deleteRef {head : JsString} {before after : Repo} {r : Except Fault GitResult}
    (h : Allows path honest ⟨before, .git (.deleteRef head), r, after⟩) (hexpects : expects earlier head)
    (hcalm : Calm earlier) :
    Right honest push expects ⟨before, .git (.deleteRef head), r, after⟩ earlier := by
  refine ⟨⟨fun hbefore hafter => ?_, fun _ => hcalm, fun hc => absurd hc id⟩, fun _ => ⟨fun id hid hgone => ?_, fun _ hc => nomatch hc⟩⟩
  · rcases h.1 with ⟨htip, -⟩ | hsame
    · exact ⟨head, htip, hexpects⟩
    · have hsame : after = before := hsame
      subst hsame
      exact absurd hafter hbefore
  · rcases h.1 with ⟨-, hsame⟩ | hsame
    · have hsame : after = { before with tip := none } := hsame
      subst hsame
      exact absurd hid hgone
    · have hsame : after = before := hsame
      subst hsame
      exact absurd hid hgone

/-- `git worktree remove` takes only the worktree at its place, and only when it is clean. -/
theorem right_remove {token head : JsString} {before after : Repo} {r : Except Fault GitResult}
    (h : Allows path honest ⟨before, .git (.remove (.retiring token)), r, after⟩) (hcalm : Calm earlier)
    (hseen : honest → expects earlier head ∧ SeenClean .issue earlier ∧
      SeenDetached (.retiring token) head earlier) :
    Right honest push expects ⟨before, .git (.remove (.retiring token)), r, after⟩ earlier := by
  refine ⟨⟨fun hbefore hafter => ?_, fun _ => hcalm, fun hc => absurd hc id⟩, fun hh => ⟨fun id hid hgone => ?_, fun _ hc => nomatch hc⟩⟩
  · rcases h.1 with ⟨tree, -, -, htip, -⟩ | hsame
    · exact absurd (htip.symm.trans hafter) hbefore
    · have hsame : after = before := hsame
      subst hsame
      exact absurd hafter hbefore
  · rcases h.1 with ⟨tree, htree, hclean, -, -, htrees⟩ | hsame
    · obtain ⟨place, other, hother, hid⟩ := hid
      have hplace : place = .inl (.retiring token) := by
        by_contra hne
        refine hgone ⟨place, other, ?_, hid⟩
        show after.trees place = some other
        rw [htrees, Function.update_of_ne hne]
        exact hother
      subst hplace
      have hsame : tree = other := Option.some.inj (htree.symm.trans hother)
      subst hsame
      obtain ⟨hexpects, hstatus, hdetached⟩ := hseen hh
      exact ⟨token, head, tree, hexpects, htree, hid, hclean, hstatus, hdetached⟩
    · have hsame : after = before := hsame
      subst hsame
      exact absurd hid hgone

/-! ## The steps -/

variable {α β : Type} {post : α → List Ev → Prop}

variable (path honest push expects) in
/-- A part of a retirement whose every call is right. -/
abbrev Steps (post : α → List Ev → Prop) (p : Retirement α) (log : List Ev) : Prop :=
  Comes (Allows path honest) (Right honest push expects) post p log

variable (honest push expects) in
abbrev AllRight (log : List Ev) : Prop := Always (Right honest push expects) log

/-- The log after a call, which deletes nothing and refuses nothing. -/
def Asked (path : JsString) (honest : Prop) (log : List Ev) (c : RetireCall) (a : c.Answer)
    (log' : List Ev) : Prop :=
  ∃ before after, Allows path honest ⟨before, c, .ok a, after⟩ ∧ log' = ⟨before, c, .ok a, after⟩ :: log

theorem call_steps {c : RetireCall} (h : AllRight honest push expects log) (hc : ¬Acts c) :
    Steps path honest push expects (Asked path honest log c) (call c) log := by
  refine comes_make h fun before r after hallows => ⟨right_of_harmless hallows hc, fun a ha => ?_⟩
  subst ha
  exact ⟨before, after, hallows, rfl⟩

theorem Asked.calm {c : RetireCall} {a : c.Answer} {log' : List Ev} (h : Asked path honest log c a log')
    (hcalm : Calm log) (hc : ¬Refuses c) : Calm log' := by
  obtain ⟨before, after, -, hlog⟩ := h
  subst hlog
  intro e he
  rcases List.mem_cons.1 he with he | he
  · rw [he]
    exact hc
  · exact hcalm e he

theorem Asked.mem {c : RetireCall} {a : c.Answer} {log' : List Ev} (h : Asked path honest log c a log')
    {e : Ev} (he : e ∈ log) : e ∈ log' := by
  obtain ⟨before, after, -, hlog⟩ := h
  subst hlog
  exact List.mem_cons_of_mem _ he

/-- A part of the log before another: nothing was refused in between. -/
structure Further (log log' : List Ev) : Prop where
  calm : Calm log'
  mem : ∀ e ∈ log, e ∈ log'

theorem Asked.further {c : RetireCall} {a : c.Answer} {log' : List Ev} (h : Asked path honest log c a log')
    (hcalm : Calm log) (hc : ¬Refuses c) : Further log log' := ⟨h.calm hcalm hc, fun _ => h.mem⟩

theorem Further.asked {c : RetireCall} {a : c.Answer} {mid log' : List Ev} (h : Further log mid)
    (hasked : Asked path honest mid c a log') (hc : ¬Refuses c) : Further log log' :=
  ⟨hasked.calm h.calm hc, fun e he => hasked.mem (h.mem e he)⟩

/-- A call and what follows it. -/
theorem ask_steps {c : RetireCall} {f : c.Answer → Retirement α} (h : AllRight honest push expects log)
    (hc : ¬Acts c) (hf : ∀ a log', AllRight honest push expects log' → Asked path honest log c a log' →
      Steps path honest push expects post (f a) log') :
    Steps path honest push expects post (call c >>= f) log :=
  (call_steps h hc).bind hf

theorem localBranchTip_steps {f : Option JsString → Retirement α} (h : AllRight honest push expects log)
    (hf : ∀ r log', AllRight honest push expects log' → Asked path honest log (.git .revParse) r log' →
      Steps path honest push expects post (f (tipOf r)) log') :
    Steps path honest push expects post (localBranchTip >>= f) log := by
  have hmid : Steps path honest push expects
      (fun tip log' => ∃ r, tip = tipOf r ∧ Asked path honest log (.git .revParse) r log') localBranchTip log :=
    ask_steps h id fun r log' h' hasked => comes_pure h' ⟨r, rfl, hasked⟩
  refine hmid.bind fun tip log' h' ⟨r, htip, hasked⟩ => ?_
  rw [htip]
  exact hf r log' h' hasked

theorem updateIf_steps {loaded : Option RunRecord} {patch : Patch} {f : Unit → Retirement α}
    (h : AllRight honest push expects log) (hf : ∀ log', AllRight honest push expects log' →
      (Calm log → ¬Refuses (.update patch) → Calm log') → Steps path honest push expects post (f ()) log') :
    Steps path honest push expects post (updateIf loaded patch >>= f) log := by
  have hmid : Steps path honest push expects
      (fun _ log' => Calm log → ¬Refuses (.update patch) → Calm log') (updateIf loaded patch) log := by
    unfold updateIf
    split
    · exact (call_steps h id).mono fun _ _ hasked hcalm hc => hasked.calm hcalm hc
    · exact comes_pure h fun hcalm _ => hcalm
  exact hmid.bind fun _ log' h' hcalm => hf log' h' hcalm

/-- Marking deletes nothing. -/
theorem markOrphan_steps {reason : JsString} (h : AllRight honest push expects log) :
    Steps path honest push expects (fun l _ => ∃ reason, l = .orphan reason) (markOrphan reason) log := by
  refine localBranchTip_steps h fun r log1 h1 _ => ?_
  refine ask_steps h1 id fun loaded log2 h2 _ => ?_
  refine updateIf_steps h2 fun log3 h3 _ => ?_
  refine ask_steps h3 id fun _ log4 h4 _ => ?_
  exact comes_pure h4 ⟨reason, rfl⟩

/-- A local retirement that has not refused. -/
def Leaves (l : StepL) (log : List Ev) : Prop := (∀ reason, l ≠ .orphan reason) → Calm log

theorem orphan_leaves {reason : JsString} (h : AllRight honest push expects log) :
    Steps path honest push expects Leaves (markOrphan reason) log :=
  (markOrphan_steps h).mono fun _ _ ⟨reason, hl⟩ hne => absurd hl (hne reason)

theorem moveBack_steps {retiring : Place} {moved : Bool} {f : Unit → Retirement α}
    (h : AllRight honest push expects log)
    (hf : ∀ log', AllRight honest push expects log' → Steps path honest push expects post (f ()) log') :
    Steps path honest push expects post (moveBack retiring moved >>= f) log := by
  have hmove : Steps path honest push expects (fun _ _ => True) (moveBack retiring moved) log := by
    unfold moveBack
    split
    · exact ask_steps h id fun r log' h' _ => comes_pure h' trivial
    · exact comes_pure h trivial
  exact hmove.bind fun _ log' h' _ => hf log' h'

/-- A call that deletes, with what makes its event right. -/
theorem delete_steps {c : RetireCall} {f : c.Answer → Retirement α} (h : AllRight honest push expects log)
    (hright : ∀ before r after, Allows path honest ⟨before, c, r, after⟩ →
      Right honest push expects ⟨before, c, r, after⟩ log)
    (hf : ∀ a log', AllRight honest push expects log' → Asked path honest log c a log' →
      Steps path honest push expects post (f a) log') :
    Steps path honest push expects post (call c >>= f) log := by
  have hcall : Steps path honest push expects (Asked path honest log c) (call c) log := by
    refine comes_make h fun before r after hallows => ⟨hright before r after hallows, fun a ha => ?_⟩
    subst ha
    exact ⟨before, after, hallows, rfl⟩
  exact hcall.bind hf

theorem unsetMarker_steps {quarantined : List Place} (h : AllRight honest push expects log) (hcalm : Calm log) :
    Steps path honest push expects Leaves (do
      let _ ← runGit .unsetMarker
      pure (.retired quarantined)) log := by
  refine delete_steps h ?_ fun _ log' h' hasked => comes_pure h' fun _ => hasked.calm hcalm id
  intro before r after hallows
  exact right_of_keeps hallows.1 (fun head place => ⟨fun hc => (by cases hc), fun hc => (by cases hc)⟩)
    (fun _ => hcalm) (fun hc => absurd hc id) (fun _ _ hc => nomatch hc)

/-- What the log grows by keeps what was seen. -/
theorem SeenClean.asked {place : Place} {c : RetireCall} {a : c.Answer} {log' : List Ev}
    (h : SeenClean place log) (hasked : Asked path honest log c a log') : SeenClean place log' := by
  obtain ⟨e, he, hseen⟩ := h
  exact ⟨e, hasked.mem he, hseen⟩

theorem Asked.event {c : RetireCall} {a : c.Answer} {log' : List Ev} (h : Asked path honest log c a log') :
    ∃ before after, Allows path honest ⟨before, c, .ok a, after⟩ ∧
      (⟨before, c, .ok a, after⟩ : Ev) ∈ log' := by
  obtain ⟨before, after, hallows, hlog⟩ := h
  exact ⟨before, after, hallows, hlog ▸ List.mem_cons_self⟩

/-- An answer of `git status` without output is that of a clean worktree. -/
theorem seenClean_of_status {st : GitResult} {log' : List Ev}
    (hasked : Asked path honest log (.git (.status .issue)) st log') (hok : st.ok = true) (hout : st.out = []) :
    SeenClean .issue log' := by
  obtain ⟨before, after, hallows, hmem⟩ := hasked.event
  obtain ⟨tree, htree, hclean⟩ := hallows.2.1 hok hout
  exact ⟨⟨before, .git (.status .issue), .ok st, after⟩, hmem, rfl, tree, htree, hclean⟩

/-- Nothing was refused, and the head is one that is expected. -/
structure Ready (expects : List Ev → JsString → Prop) (head : JsString) (log : List Ev) : Prop where
  calm : Calm log
  expected : expects log head

variable (hgrows : ∀ log log' head, (∀ e ∈ log, e ∈ log') → expects log head → expects log' head)

include hgrows

theorem Ready.asked {head : JsString} {c : RetireCall} {a : c.Answer} {log' : List Ev}
    (h : Ready expects head log) (hasked : Asked path honest log c a log') (hc : ¬Refuses c) :
    Ready expects head log' :=
  ⟨hasked.calm h.calm hc, hgrows log log' head (fun _ => hasked.mem) h.expected⟩

/-- The worktree that was renamed aside goes when it is seen at the head and detached. -/
theorem removeAside_steps {token head : JsString} (h : AllRight honest push expects log)
    (hready : Ready expects head log) (hclean : SeenClean .issue log) :
    Steps path honest push expects Leaves (do
      let h ← runGit (.head (.retiring token))
      let s ← runGit (.symbolicRef (.retiring token))
      if !h.ok || h.out ≠ head || s.ok then markOrphan (js "quarantined-worktree-moved")
      else
        let rm ← runGit (.remove (.retiring token))
        if !rm.ok then
          call (.append (.quarantined (.retiring token)))
          let _ ← runGit .unsetMarker
          pure (.retired [.retiring token])
        else
          let _ ← runGit .unsetMarker
          pure (.retired [])) log := by
  refine ask_steps h id fun r log1 h1 hhead => ?_
  refine ask_steps h1 id fun s log2 h2 hsym => ?_
  split
  · exact orphan_leaves h2
  · rename_i hdetached
    have hready2 := (hready.asked hgrows hhead id).asked hgrows hsym id
    have hclean2 := (hclean.asked hhead).asked hsym
    obtain ⟨hok, hout, hsymbolic⟩ : r.ok = true ∧ r.out = head ∧ s.ok = false := by
      simpa [and_assoc] using hdetached
    have hseen : honest → expects log2 head ∧ SeenClean .issue log2 ∧
        SeenDetached (.retiring token) head log2 := by
      intro hh
      refine ⟨hready2.expected, hclean2, ?_, ?_⟩
      · obtain ⟨before, after, hallows, hmem⟩ := hhead.event
        obtain ⟨tree, htree, hat⟩ := hallows.2.1 hok
        exact ⟨⟨before, .git (.head (.retiring token)), .ok r, after⟩, hsym.mem hmem, rfl, tree, htree,
          hat.trans hout⟩
      · obtain ⟨before, after, hallows, hmem⟩ := hsym.event
        exact ⟨⟨before, .git (.symbolicRef (.retiring token)), .ok s, after⟩, hmem, rfl,
          hallows.2.2 hh hsymbolic⟩
    refine delete_steps h2 (fun _ _ _ hallows => right_remove hallows hready2.calm hseen) ?_
    intro rm log3 h3 hremoved
    have hcalm3 := hremoved.calm hready2.calm id
    split
    · refine ask_steps h3 id fun _ log4 h4 happended => ?_
      exact unsetMarker_steps h4 (happended.calm hcalm3 id)
    · exact unsetMarker_steps h3 hcalm3

/-- The branch goes at an expected head. -/
theorem deleteLocal_steps {token head : JsString} {moved : Bool} (h : AllRight honest push expects log)
    (hready : Ready expects head log) (hclean : moved = true → SeenClean .issue log) :
    Steps path honest push expects Leaves (deleteLocal token head moved) log := by
  refine delete_steps h (fun _ _ _ hallows => right_deleteRef hallows hready.expected hready.calm) ?_
  intro del log' h' hasked
  have hready' := hready.asked hgrows hasked id
  split
  · exact moveBack_steps h' fun log' h' => orphan_leaves h'
  · split
    · rename_i hmoved
      exact removeAside_steps hgrows h' hready' ((hclean hmoved).asked hasked)
    · exact unsetMarker_steps h' hready'.calm

theorem renameAside_steps {ctx : Context} {token head : JsString} (h : AllRight honest push expects log)
    (hready : Ready expects head log) (hclean : SeenClean .issue log) :
    Steps path honest push expects Leaves (renameAside ctx token head) log := by
  refine ask_steps h id fun wtHead log1 h1 hhead => ?_
  refine ask_steps h1 id fun sym log2 h2 hsym => ?_
  split
  · exact orphan_leaves h2
  · refine ask_steps h2 id fun mv log3 h3 hmove => ?_
    split
    · exact orphan_leaves h3
    · refine ask_steps h3 id fun det log4 h4 hdetach => ?_
      split
      · exact moveBack_steps h4 fun log' h' => orphan_leaves h'
      · have hready4 := (((hready.asked hgrows hhead id).asked hgrows hsym id).asked hgrows hmove id).asked
          hgrows hdetach id
        have hclean4 := (((hclean.asked hhead).asked hsym).asked hmove).asked hdetach
        exact deleteLocal_steps hgrows h4 hready4 fun _ => hclean4

theorem cleanTree_steps {ctx : Context} {record : RunRecord} {discard : Bool} {token head : JsString}
    (h : AllRight honest push expects log) (hready : Ready expects head log) :
    Steps path honest push expects Leaves (cleanTree ctx record discard token head) log := by
  refine ask_steps h id fun st log1 h1 hst => ?_
  have hready1 := hready.asked hgrows hst id
  split
  · exact orphan_leaves h1
  · rename_i hok
    have hok : st.ok = true := by simpa using hok
    split
    · refine ask_steps h1 id fun reset log2 h2 hreset => ?_
      refine ask_steps h2 id fun clean log3 h3 hclean => ?_
      have hready3 := (hready1.asked hgrows hreset id).asked hgrows hclean id
      split
      · exact orphan_leaves h3
      · refine ask_steps h3 id fun again log4 h4 hagain => ?_
        split
        · exact orphan_leaves h4
        · rename_i hok4
          split
          · exact orphan_leaves h4
          · rename_i hout
            have hclean4 := seenClean_of_status hagain (by simpa using hok4) (not_not.1 hout)
            exact renameAside_steps hgrows h4 (hready3.asked hgrows hagain id) hclean4
    · split
      · exact orphan_leaves h1
      · rename_i hout
        exact renameAside_steps hgrows h1 hready1 (seenClean_of_status hst hok (not_not.1 hout))

omit hgrows in
theorem ancestry_steps {record : RunRecord} {required : Bool} {start : List Ev}
    {f : Option JsString → Retirement α} (h : AllRight honest push expects log) (hfurther : Further start log)
    (hf : ∀ reason log', AllRight honest push expects log' → Further start log' →
      Steps path honest push expects post (f reason) log') :
    Steps path honest push expects post (ancestry record required >>= f) log := by
  have hmid : Steps path honest push expects (fun _ log' => Further start log') (ancestry record required) log := by
    unfold ancestry
    split
    · split
      · exact comes_pure h hfurther
      · split
        · exact comes_pure h hfurther
        · refine ask_steps h id fun mb log' h' hasked => ?_
          have hfurther' := hfurther.asked hasked id
          split <;> exact comes_pure h' hfurther'
    · exact comes_pure h hfurther
  exact hmid.bind hf

theorem stepL_steps {ctx : Context} {record : RunRecord} {options : Options}
    (h : AllRight honest push expects log) (hcalm : Calm log)
    (hexpects : ∀ head, expected record options = some head → expects log head) :
    Steps path honest push expects Leaves (stepL ctx record options) log := by
  unfold stepL
  split
  · exact orphan_leaves h
  · split
    · exact orphan_leaves h
    · refine ask_steps h id fun marker log1 h1 hmarker => ?_
      have hfurther1 := hmarker.further hcalm id
      split
      · exact orphan_leaves h1
      · refine ask_steps h1 id fun prs log2 h2 hprs => ?_
        have hfurther2 := hfurther1.asked hprs id
        split
        · exact orphan_leaves h2
        · refine localBranchTip_steps h2 fun r log3 h3 htip => ?_
          have hfurther3 := hfurther2.asked htip id
          refine ask_steps h3 id fun wtExists log4 h4 hthere => ?_
          have hfurther4 := hfurther3.asked hthere id
          split
          · split
            · exact orphan_leaves h4
            · exact comes_pure h4 fun _ => hfurther4.calm
          · refine ancestry_steps h4 hfurther4 fun reason log5 h5 hfurther5 => ?_
            split
            · exact orphan_leaves h5
            · split
              · exact orphan_leaves h5
              · rename_i head hhead
                have hready : Ready expects head log5 :=
                  ⟨hfurther5.calm, hgrows log log5 head hfurther5.mem (hexpects head hhead)⟩
                split
                · exact orphan_leaves h5
                · split
                  · exact cleanTree_steps hgrows h5 hready
                  · exact deleteLocal_steps hgrows h5 hready fun hno => nomatch hno

omit hgrows

/-! ## The record -/

theorem remoteRefOid_steps {f : Option JsString → Retirement α} (h : AllRight honest push expects log)
    (hf : ∀ r log', AllRight honest push expects log' → Asked path honest log .lsRemote r log' → r.ok = true →
      Steps path honest push expects post (f (remoteOf r.out)) log') :
    Steps path honest push expects post (remoteRefOid >>= f) log := by
  have hmid : Steps path honest push expects (fun oid log' => ∃ r, oid = remoteOf r.out ∧
      Asked path honest log .lsRemote r log' ∧ r.ok = true) remoteRefOid log := by
    refine ask_steps h id fun r log' h' hasked => ?_
    split
    · rename_i hok
      exact comes_pure h' ⟨r, rfl, hasked, hok⟩
    · exact comes_fail h'
  refine hmid.bind fun oid log' h' ⟨r, hoid, hasked, hok⟩ => ?_
  rw [hoid]
  exact hf r log' h' hasked hok

theorem worktreePresent_steps (h : AllRight honest push expects log) (hcalm : Calm log) :
    Steps path honest push expects (fun present log' => Further log log' ∧ (honest → present = false →
        (∃ e ∈ log', e.call = .onDisk .issue ∧ e.before.tree .issue = none) ∧
        ∃ e ∈ log', e.call = .git .listWorktrees ∧ e.before.listed .issue = false))
      (worktreePresent path) log := by
  refine ask_steps h id fun there log1 h1 hthere => ?_
  split
  · exact comes_pure h1 ⟨hthere.further hcalm id, fun _ hno => nomatch hno⟩
  · rename_i hno
    refine ask_steps h1 id fun r log2 h2 hlist => comes_pure h2 ⟨?_, fun hh hunlisted => ⟨?_, ?_⟩⟩
    · exact ⟨hlist.calm (hthere.calm hcalm id) id, fun e he => hlist.mem (hthere.mem he)⟩
    · obtain ⟨before, after, hallows, hmem⟩ := hthere.event
      have hnone := hallows.2.2 hh (by simpa using hno)
      exact ⟨⟨before, .onDisk .issue, .ok there, after⟩, hlist.mem hmem, rfl, hnone⟩
    · obtain ⟨before, after, hallows, hmem⟩ := hlist.event
      have hnone := hallows.2.2 hh hunlisted
      exact ⟨⟨before, .git .listWorktrees, .ok r, after⟩, hmem, rfl, hnone⟩

theorem renamedAside_steps {record : RunRecord} (h : AllRight honest push expects log) (hcalm : Calm log) :
    Steps path honest push expects (fun present log' => Further log log' ∧ (honest → present = false →
        ∀ token, record.token = some token → isToken token = true → ∃ e ∈ log',
          e.call = .onDisk (.retiring token) ∧ e.before.tree (.retiring token) = none ∧
            e.before.listed (.retiring token) = false))
      (renamedAside record) log := by
  unfold renamedAside
  split
  · rename_i hnone
    refine comes_pure h ⟨⟨hcalm, fun _ he => he⟩, fun _ _ token htoken => ?_⟩
    rw [hnone] at htoken
    exact absurd htoken (by simp)
  · rename_i token hsome
    split
    · refine (call_steps h id).mono fun there log' hthere => ⟨hthere.further hcalm id, ?_⟩
      intro hh hno other hother _
      rw [hsome] at hother
      cases hother
      obtain ⟨before, after, hallows, hmem⟩ := hthere.event
      obtain ⟨htree, hlisted⟩ := hallows.2.2 hh hno
      exact ⟨⟨before, .onDisk (.retiring token), .ok there, after⟩, hmem, rfl, htree, hlisted⟩
    · rename_i hinvalid
      refine comes_pure h ⟨⟨hcalm, fun _ he => he⟩, fun _ _ other hother hvalid => ?_⟩
      rw [hsome] at hother
      cases hother
      exact absurd hvalid hinvalid

/-- The record goes when all that the run may have left was seen absent. -/
theorem canonicalDeletion_steps {ctx : Context} {record : RunRecord} (h : AllRight honest push expects log)
    (hcalm : Calm log) :
    Steps path honest push expects (fun _ log' => Calm log') (canonicalDeletion ctx path record) log := by
  refine remoteRefOid_steps h fun r log1 h1 hremote hok => ?_
  have hcalm1 := hremote.calm hcalm id
  split
  · refine ask_steps h1 id fun loaded log2 h2 hload => ?_
    refine updateIf_steps h2 fun log3 h3 hupdate => ?_
    refine ask_steps h3 id fun _ log4 h4 happend => ?_
    exact comes_pure h4 (happend.calm (hupdate (hload.calm hcalm1 id) id) id)
  · rename_i hnone
    refine localBranchTip_steps h1 fun tip log2 h2 htip => ?_
    have hcalm2 := htip.calm hcalm1 id
    split
    · exact comes_pure h2 hcalm2
    · rename_i hgone
      refine (worktreePresent_steps h2 hcalm2).bind fun present log3 h3 ⟨hfurther3, hworktree⟩ => ?_
      split
      · exact comes_pure h3 hfurther3.calm
      · rename_i hpresent
        refine (renamedAside_steps h3 hfurther3.calm).bind fun aside log4 h4 ⟨hfurther4, haside⟩ => ?_
        split
        · exact comes_pure h4 hfurther4.calm
        · rename_i hnoaside
          have hseen : honest → SeenAbsent record log4 := by
            intro hh
            obtain ⟨⟨e, he, hcall, htree⟩, e', he', hcall', hlisted⟩ := hworktree hh (by simpa using hpresent)
            refine ⟨?_, ?_, ⟨e, hfurther4.mem e he, hcall, htree⟩, ⟨e', hfurther4.mem e' he', hcall', hlisted⟩,
              haside hh (by simpa using hnoaside)⟩
            · obtain ⟨before, after, hallows, hmem⟩ := hremote.event
              have habsent := hallows.2.2 hh hok hnone
              exact ⟨_, hfurther4.mem _ (hfurther3.mem _ (htip.mem hmem)), rfl, habsent⟩
            · obtain ⟨before, after, hallows, hmem⟩ := htip.event
              have habsent := hallows.2.2 hh (by simpa using hgone)
              exact ⟨_, hfurther4.mem _ (hfurther3.mem _ hmem), rfl, habsent⟩
          refine delete_steps h4 ?_ fun _ log5 h5 hremoved => comes_pure h5 (hremoved.calm hfurther4.calm id)
          intro before answer after hallows
          refine right_of_keeps hallows.1
            (fun head place => ⟨fun hc => (by cases hc), fun hc => (by cases hc)⟩) (fun _ => hfurther4.calm)
            (fun hc => absurd hc id) ?_
          intro hh other hc
          cases hc
          exact hseen hh

include hgrows

/-- Automatic retirement: the steps, and the record when none has refused. -/
theorem retireRun_steps {ctx : Context} {record : RunRecord} {options : Options}
    (h : AllRight honest push expects log) (hcalm : Calm log)
    (hexpects : ∀ head, expected record options = some head → expects log head) :
    Steps path honest push expects (fun r log' => (∀ reason, r.step ≠ .orphan reason) → Calm log')
      (retireRun ctx path record options) log := by
  have hstep : Steps path honest push expects Leaves
      ((stepL ctx record options).tryCatch fun e => markOrphan (js "error:" ++ e.code.getD e.message)) log :=
    (stepL_steps hgrows h hcalm hexpects).tryCatch fun e log' h' => orphan_leaves h'
  refine hstep.bind fun l log1 h1 hleaves => ?_
  split
  · exact comes_pure h1 fun hne => absurd rfl (hne _)
  · rename_i hne
    have hcalm1 := hleaves hne
    split
    · exact comes_pure h1 fun _ => hcalm1
    · refine ask_steps h1 id fun first log2 h2 hload => ?_
      have hcalm2 := hload.calm hcalm1 id
      split
      · exact comes_pure h2 fun _ => hcalm2
      · refine ask_steps h2 id fun loaded log3 h3 hload' => ?_
        have hcalm3 := hload'.calm hcalm2 id
        refine (canonicalDeletion_steps h3 hcalm3).bind fun c log4 h4 hcalm4 => ?_
        exact comes_pure h4 fun _ => hcalm4

omit hgrows

/-! ## Reset -/

/-- The record store has answered with a record. -/
def Loaded (record : RunRecord) (log : List Ev) : Prop :=
  ∃ before after, (⟨before, .load, .ok (some record), after⟩ : Ev) ∈ log

/-- The heads at which a reset may delete the branch: the one that was confirmed, or that of a record. -/
def Confirmed (confirm : JsString) (log : List Ev) (head : JsString) : Prop :=
  head = confirm ∨ ∃ record, Loaded record log ∧ record.localHead = some head

theorem Loaded.mono {record : RunRecord} {log' : List Ev} (h : Loaded record log) (hmem : ∀ e ∈ log, e ∈ log') :
    Loaded record log' := by
  obtain ⟨before, after, hload⟩ := h
  exact ⟨before, after, hmem _ hload⟩

theorem confirmed_grows {confirm : JsString} (log log' : List Ev) (head : JsString)
    (hmem : ∀ e ∈ log, e ∈ log') (h : Confirmed confirm log head) : Confirmed confirm log' head := by
  rcases h with h | ⟨record, hload, hhead⟩
  · exact Or.inl h
  · exact Or.inr ⟨record, hload.mono hmem, hhead⟩

theorem Asked.loaded {record : RunRecord} {log' : List Ev} (h : Asked path honest log .load (some record) log') :
    Loaded record log' := by
  obtain ⟨before, after, -, hmem⟩ := h.event
  exact ⟨before, after, hmem⟩

theorem validateOid_steps {s : JsString} {f : JsString → Retirement α} (h : AllRight honest push expects log)
    (hf : Steps path honest push expects post (f s) log) :
    Steps path honest push expects post (validateOid s >>= f) log := by
  unfold validateOid
  split
  · exact hf
  · exact comes_fail h

theorem orphan_then {reason : JsString} {f : StepL → Retirement α} (h : AllRight honest push expects log)
    (hf : ∀ l log', AllRight honest push expects log' → Steps path honest push expects post (f l) log') :
    Steps path honest push expects post (markOrphan reason >>= f) log :=
  (markOrphan_steps h).bind fun l log' h' _ => hf l log' h'

/-- The results of a reset that goes on only when nothing was refused. -/
def Goes (r : ResetResult) (log : List Ev) : Prop := r.exitCode = 0 → Calm log

theorem refuse_goes {code : JsString} (h : AllRight honest push expects log) :
    Steps path honest push expects Goes (pure (refuse code)) log :=
  comes_pure h fun hzero => absurd hzero (by simp [refuse])

/-- A push, which is made when nothing was refused. -/
theorem push_steps {c : RetireCall} (h : AllRight honest True expects log) (hcalm : Calm log)
    (hc : Pushes c) : Steps path honest True expects (Asked path honest log c) (call c) log := by
  refine comes_make h fun before r after hallows => ⟨?_, fun a ha => ?_⟩
  · refine right_of_keeps hallows.1 (fun head place => ⟨fun heq => ?_, fun heq => ?_⟩) (fun _ => hcalm)
      (fun _ => trivial) fun _ record heq => ?_
    · subst heq
      exact hc
    · subst heq
      exact hc
    · have heq : c = .removeRecord record := heq
      subst heq
      exact absurd hc id
  · subst ha
    exact ⟨before, after, hallows, rfl⟩

theorem restoreRef_steps {record : RunRecord} {number : Nat} (h : AllRight honest True expects log)
    (hcalm : Calm log) : Steps path honest True expects Goes (restoreRef record number) log := by
  refine validateOid_steps h ?_
  have hpush : Steps path honest True expects (fun _ _ => True)
      ((call (.pushRestore (record.lastPushedOid.getD []))).tryCatch fun _ => pure ⟨false, []⟩) log :=
    ((push_steps (c := .pushRestore (record.lastPushedOid.getD [])) h hcalm trivial).mono
      fun _ _ _ => trivial).tryCatch fun _ _ h' => comes_pure h' trivial
  refine hpush.bind fun r log1 h1 _ => ?_
  refine ask_steps h1 id fun loaded log2 h2 _ => ?_
  refine updateIf_steps h2 fun log3 h3 _ => ?_
  have hlabel : Steps path honest True expects (fun _ _ => True)
      ((call .labelNeedsHuman).tryCatch fun _ => pure ()) log3 :=
    ((call_steps h3 id).mono fun _ _ _ => trivial).tryCatch fun _ _ h' => comes_pure h' trivial
  exact hlabel.bind fun _ log4 h4 _ => refuse_goes h4

theorem watch_steps {record : RunRecord} {known : List Nat} {oid : JsString} {delays : List Nat}
    (h : AllRight honest True expects log) (hcalm : Calm log) :
    Steps path honest True expects Goes (watch record known oid delays) log := by
  induction delays generalizing log with
  | nil => exact comes_pure h fun _ => hcalm
  | cons delay rest ih =>
    have hsleep : Steps path honest True expects (fun _ log' => Calm log') (pause delay) log := by
      unfold pause
      split
      · exact comes_pure h hcalm
      · exact (call_steps h id).mono fun _ _ hasked => hasked.calm hcalm id
    refine hsleep.bind fun _ log1 h1 hcalm1 => ?_
    refine ask_steps h1 id fun prs log2 h2 hprs => ?_
    have hcalm2 := hprs.calm hcalm1 id
    split
    · refine ask_steps h2 id fun loaded log3 h3 hload => ?_
      exact restoreRef_steps h3 (hload.calm hcalm2 id)
    · exact ih h2 hcalm2

/-- `try { … } catch (e) { … }` around what leaves the log calm. -/
theorem attempt_steps {p : Retirement β} {f : Except Fault β → Retirement α}
    (hp : Steps path honest push expects (fun _ log' => Further log log') p log)
    (herror : ∀ e log', AllRight honest push expects log' → Steps path honest push expects post (f (.error e)) log')
    (hok : ∀ b log', AllRight honest push expects log' → Further log log' →
      Steps path honest push expects post (f (.ok b)) log') :
    Steps path honest push expects post
      (((p.bind fun b => pure (Except.ok b)).tryCatch fun e => pure (Except.error e)) >>= f) log := by
  have hmid : Steps path honest push expects (fun (r : Except Fault β) log' => ∀ b, r = .ok b → Further log log')
      ((p.bind fun b => pure (Except.ok b)).tryCatch fun e => pure (Except.error e)) log := by
    have hdone : Steps path honest push expects (fun (r : Except Fault β) log' => ∀ b, r = .ok b → Further log log')
        (p >>= fun b => pure (Except.ok b)) log :=
      hp.bind fun b log' h' hfurther => comes_pure h' fun _ _ => hfurther
    exact Comes.tryCatch hdone fun e log' h' => comes_pure h' fun _ hno => nomatch hno
  refine hmid.bind fun r log' h' hfurther => ?_
  cases r with
  | error e => exact herror e log' h'
  | ok b => exact hok b log' h' (hfurther b rfl)

theorem deleteRemote_steps {record : RunRecord} {oid : JsString} (h : AllRight honest True expects log)
    (hcalm : Calm log) : Steps path honest True expects Goes (deleteRemote record oid) log := by
  refine ask_steps h id fun known log1 h1 hknown => ?_
  refine ask_steps h1 id fun _ log2 h2 hupdate => ?_
  have hcalm2 := hupdate.calm (hknown.calm hcalm id) id
  have hpush : Steps path honest True expects (fun _ log' => Further log2 log')
      (call (.pushDelete oid)) log2 :=
    (push_steps (c := .pushDelete oid) h2 hcalm2 trivial).mono fun _ _ hasked => hasked.further hcalm2 id
  refine attempt_steps hpush ?_ ?_
  · intro e log3 h3
    exact orphan_then h3 fun _ log4 h4 => refuse_goes h4
  · intro r log3 h3 hfurther
    dsimp only
    split
    · exact orphan_then h3 fun _ log4 h4 => refuse_goes h4
    · exact watch_steps h3 hfurther.calm

theorem tooFresh_steps {ctx : Context} {record : RunRecord} {f : Bool → Retirement α}
    (h : AllRight honest push expects log) (hcalm : Calm log)
    (hf : ∀ fresh log', AllRight honest push expects log' → Calm log' →
      Steps path honest push expects post (f fresh) log') :
    Steps path honest push expects post (tooFresh ctx record >>= f) log := by
  have hmid : Steps path honest push expects (fun _ log' => Calm log') (tooFresh ctx record) log := by
    unfold tooFresh
    split
    · exact comes_pure h hcalm
    · exact ask_steps h id fun now log' h' hasked => comes_pure h' (hasked.calm hcalm id)
  exact hmid.bind hf

theorem stepR_steps {ctx : Context} {record : RunRecord} (h : AllRight honest True expects log)
    (hcalm : Calm log) : Steps path honest True expects Goes (stepR ctx record) log := by
  unfold stepR
  split
  · exact refuse_goes h
  · refine validateOid_steps h ?_
    refine tooFresh_steps h hcalm fun fresh log1 h1 hcalm1 => ?_
    split
    · exact refuse_goes h1
    · refine ask_steps h1 id fun observed log2 h2 hobserved => ?_
      have hcalm2 := hobserved.calm hcalm1 id
      split
      · exact orphan_then h2 fun _ log' h' => refuse_goes h'
      · refine ask_steps h2 id fun prs log3 h3 hprs => ?_
        have hcalm3 := hprs.calm hcalm2 id
        split
        · exact orphan_then h3 fun _ log' h' => refuse_goes h'
        · have hremote : Steps path honest True expects (fun _ log' => Further log3 log') remoteRefOid log3 := by
            refine ask_steps h3 id fun r log' h' hasked => ?_
            split
            · exact comes_pure h' (hasked.further hcalm3 id)
            · exact comes_fail h'
          refine attempt_steps hremote ?_ ?_
          · intro e log4 h4
            exact orphan_then h4 fun _ log' h' => refuse_goes h'
          · intro remote log4 h4 hfurther
            dsimp only
            split
            · exact orphan_then h4 fun _ log' h' => refuse_goes h'
            · exact deleteRemote_steps h4 hfurther.calm

section Confirm

variable {oid : JsString}

theorem recordlessEnd_steps {deleteRemote : Bool} {command : JsString}
    (h : AllRight honest push expects log) :
    Steps path honest push expects (fun _ _ => True) (resetRecordless.recordlessEnd deleteRemote command) log := by
  refine remoteRefOid_steps h fun r log' h' _ _ => ?_
  split <;> exact comes_pure h' trivial

theorem resetRecordless_steps {ctx : Context} {deleteRemote : Bool} {record : Option RunRecord}
    (h : AllRight honest push (Confirmed oid) log) (hcalm : Calm log) :
    Steps path honest push (Confirmed oid) (fun _ _ => True)
      (resetRecordless ctx path oid deleteRemote record) log := by
  refine ask_steps h id fun marker log1 h1 hmarker => ?_
  have hcalm1 := hmarker.calm hcalm id
  dsimp only
  split
  · exact comes_pure h1 trivial
  · refine localBranchTip_steps h1 fun r log2 h2 htip => ?_
    have hcalm2 := htip.calm hcalm1 id
    split
    · exact comes_pure h2 trivial
    · rename_i tip htipOf
      split
      · exact comes_pure h2 trivial
      · rename_i hconfirmed
        refine ask_steps h2 id fun prs log3 h3 hprs => ?_
        have hcalm3 := hprs.calm hcalm2 id
        split
        · exact comes_pure h3 trivial
        · have hexpects : ∀ head, expected ⟨some ((marker.map trim).getD []), some tip,
              record.bind (·.baseOid), none, none, none⟩ ⟨some tip, false, true, false⟩ = some head →
              Confirmed oid log3 head := by
            intro head hhead
            obtain ⟨hhead, -⟩ := Option.filter_eq_some_iff.1 hhead
            have hsame : tip = head := by simpa using hhead
            exact Or.inl (hsame.symm.trans (not_not.1 hconfirmed).symm)
          refine (retireRun_steps confirmed_grows h3 hcalm3 hexpects).bind fun l log4 h4 hleaves => ?_
          split
          · exact comes_pure h4 trivial
          · rename_i hne
            have hcalm4 := hleaves hne
            cases record with
            | none => exact recordlessEnd_steps h4
            | some record =>
              refine ask_steps h4 id fun loaded log5 h5 hload => ?_
              refine (canonicalDeletion_steps h5 (hload.calm hcalm4 id)).bind fun c log6 h6 _ => ?_
              exact recordlessEnd_steps h6

theorem finish_steps {ctx : Context} {deleteRemote : Bool} {record : RunRecord}
    (h : AllRight honest push expects log) (hcalm : Calm log) :
    Steps path honest push expects (fun _ _ => True)
      (resetOwned.finish ctx path record deleteRemote) log := by
  unfold resetOwned.finish
  split
  · exact comes_pure h trivial
  · refine ask_steps h id fun loaded log1 h1 hload => ?_
    refine (canonicalDeletion_steps h1 (hload.calm hcalm id)).bind fun c log2 h2 _ => ?_
    cases c <;> exact comes_pure h2 trivial

theorem resetOwned_steps {ctx : Context} {deleteRemote : Bool} {record : RunRecord}
    {tip : Option JsString} (h : AllRight honest push (Confirmed oid) log) (hcalm : Calm log)
    (htip : ∀ t, tip = some t → t = oid) (hloaded : Loaded record log) :
    Steps path honest push (Confirmed oid) (fun _ _ => True)
      (resetOwned ctx path record tip deleteRemote) log := by
  have hthere : Steps path honest push (Confirmed oid) (fun _ log' => Further log log')
      (anythingLocal tip) log := by
    unfold anythingLocal
    split
    · exact comes_pure h ⟨hcalm, fun _ he => he⟩
    · exact (call_steps h id).mono fun _ _ hasked => hasked.further hcalm id
  refine hthere.bind fun there log1 h1 hfurther1 => ?_
  split
  · refine ask_steps h1 id fun loaded log2 h2 hload => ?_
    have hfurther2 := hfurther1.asked hload id
    have hsource : Loaded (loaded.getD record) log2 := by
      cases loaded with
      | none => exact hloaded.mono hfurther2.mem
      | some other => exact hload.loaded
    have hexpects : ∀ head, expected (loaded.getD record) ⟨tip, true, true, false⟩ = some head →
        Confirmed oid log2 head := by
      intro head hhead
      obtain ⟨hhead, -⟩ := Option.filter_eq_some_iff.1 hhead
      cases tip with
      | none => exact Or.inr ⟨_, hsource, hhead⟩
      | some t =>
        have hsame : t = head := by simpa using hhead
        exact Or.inl (hsame ▸ htip t rfl)
    refine (retireRun_steps confirmed_grows h2 hfurther2.calm hexpects).bind fun l log3 h3 hleaves => ?_
    split
    · exact comes_pure h3 trivial
    · rename_i hne
      exact finish_steps h3 (hleaves hne)
  · exact finish_steps h1 hfurther1.calm

end Confirm

theorem resetCommand_steps {ctx : Context} {confirm : Option JsString} {deleteRemote : Bool} :
    Steps path honest True (Confirmed (confirm.getD [])) (fun _ _ => True)
      (resetCommand ctx path confirm deleteRemote) [] := by
  have h : AllRight honest True (Confirmed (confirm.getD [])) [] := trivial
  have hcalm : Calm [] := fun e he => absurd he (by simp)
  unfold resetCommand
  split
  · exact comes_pure h trivial
  · refine validateOid_steps h ?_
    refine ask_steps h id fun record log1 h1 hload => ?_
    have hfurther1 := hload.further hcalm id
    refine ask_steps h1 id fun marker log2 h2 hmarker => ?_
    have hfurther2 := hfurther1.asked hmarker id
    refine localBranchTip_steps h2 fun r log3 h3 htip => ?_
    have hfurther3 := hfurther2.asked htip id
    dsimp only
    split
    · exact resetRecordless_steps h3 hfurther3.calm
    · rename_i owned howned
      obtain ⟨hrecord, -⟩ := Option.filter_eq_some_iff.1 howned
      subst hrecord
      have hloaded : Loaded owned log3 := (hload.loaded.mono fun _ => hmarker.mem).mono fun _ => htip.mem
      split
      · exact comes_pure h3 trivial
      · rename_i head hhead
        split
        · exact comes_pure h3 trivial
        · rename_i hconfirmed
          have htipOid : ∀ t, tipOf r = some t → t = confirm.getD [] := by
            intro t ht
            rw [ht] at hhead
            have hsame : t = head := by simpa using hhead
            exact hsame.trans (not_not.1 hconfirmed).symm
          refine ask_steps h3 id fun prs log4 h4 hprs => ?_
          have hfurther4 := hfurther3.asked hprs id
          have hloaded4 := hloaded.mono fun _ => hprs.mem
          split
          · exact comes_pure h4 trivial
          · split
            · refine (stepR_steps h4 hfurther4.calm).grows.bind fun remote log5 h5 ⟨hgoes, hmem⟩ => ?_
              split
              · exact comes_pure h5 trivial
              · rename_i hzero
                exact resetOwned_steps h5 (hgoes (not_not.1 hzero)) htipOid (hloaded4.mono hmem)
            · exact resetOwned_steps h4 hfurther4.calm htipOid hloaded4

/-! ## The results -/

/-- The runs of a program from an empty log, which may stop anywhere. -/
abbrev Reaches (path : JsString) (honest : Prop) (p : Retirement α) (log : List Ev) : Prop :=
  ∃ q, Dialogue.Runs (serves (Allows path honest)) p [] q log

/-- Retirement deletes only what it owns: in every run of `retireRun` and of the reset, wherever it stops
and whatever others do between its calls, a branch is deleted at an expected head only, nothing is
deleted after a refusal, and `retireRun` pushes nothing. Where no answer is misread as absence, a
worktree goes only when it was seen clean and detached at an expected head, and a record only when all of
its run was seen absent. -/
theorem retirement_deletes_own (ctx : Context) (path : JsString) (honest : Prop) (log : List Ev) :
    (∀ record options, Reaches path honest (retireRun ctx path record options) log →
      Always (Owned False fun _ head => expected record options = some head) log ∧
      (honest → Always (Observed fun _ head => expected record options = some head) log)) ∧
    ∀ confirm deleteRemote, Reaches path honest (resetCommand ctx path confirm deleteRemote) log →
      Always (Owned True (Confirmed (confirm.getD []))) log ∧
      (honest → Always (Observed (Confirmed (confirm.getD []))) log) := by
  constructor
  · intro record options ⟨q, hruns⟩
    have hsteps : Steps path honest False (fun _ head => expected record options = some head)
        (fun r log' => (∀ reason, r.step ≠ .orphan reason) → Calm log') (retireRun ctx path record options) [] :=
      retireRun_steps (fun _ _ _ _ h => h) trivial (fun e he => absurd he (by simp)) fun _ h => h
    have hright := hsteps.always trivial hruns
    exact ⟨hright.mono fun _ _ h => h.1, fun hh => hright.mono fun _ _ h => h.2 hh⟩
  · intro confirm deleteRemote ⟨q, hruns⟩
    have hright := resetCommand_steps.always trivial hruns
    exact ⟨hright.mono fun _ _ h => h.1, fun hh => hright.mono fun _ _ h => h.2 hh⟩

/-! ### A run of which only the branch is left -/

def sampleContext : Context := ⟨js "issue-7", js "fetch", js "push", none, fun _ => none⟩

def sampleRecord : RunRecord := ⟨some (List.replicate 64 97), some (List.replicate 40 97), none, none, none, none⟩

def sampleOptions : Options := ⟨none, true, false, false⟩

def bareRepo (tip : Option JsString) : Repo := ⟨tip, none, fun _ => none, fun _ => false⟩

/-- No command of git succeeds, but for the listing of the remote and that of the worktrees. -/
def bareAnswer : (c : RetireCall) → c.Answer
  | .marker => sampleRecord.token
  | .observedUrl => none
  | .openPrs => []
  | .allPrs => []
  | .git .listWorktrees => ⟨true, []⟩
  | .git _ => ⟨false, []⟩
  | .lsRemote => ⟨true, []⟩
  | .pushDelete _ => ⟨false, []⟩
  | .pushRestore _ => ⟨false, []⟩
  | .onDisk _ => false
  | .load => some sampleRecord
  | .update _ => ()
  | .append _ => ()
  | .removeRecord _ => ()
  | .labelNeedsHuman => ()
  | .sleep _ => ()
  | .now => 0

def bareWorld (tip : Option JsString) (log : List Ev) (c : RetireCall) : Except Fault c.Answer × List Ev :=
  (.ok (bareAnswer c), ⟨bareRepo tip, c, .ok (bareAnswer c), bareRepo tip⟩ :: log)

theorem allows_bare {tip : Option JsString} {honest : Prop} (htip : honest → tip = none) (c : RetireCall) :
    Allows (js "path") honest ⟨bareRepo tip, c, .ok (bareAnswer c), bareRepo tip⟩ := by
  have hkeeps : (bareRepo tip).Keeps (bareRepo tip) := ⟨rfl, rfl, fun _ hid => hid⟩
  refine ⟨?_, ?_, fun hh => ?_⟩
  · cases c with
    | git command => cases command <;> first | exact hkeeps | exact Or.inr rfl
    | pushDelete lease => exact Or.inr rfl
    | pushRestore oid => exact Or.inr rfl
    | _ => exact hkeeps
  · cases c with
    | git command =>
      cases command with
      | status place => exact fun hok => absurd hok (by simp [bareAnswer])
      | head place => exact fun hok => absurd hok (by simp [bareAnswer])
      | symbolicRef place => exact fun hok => absurd hok (by simp [bareAnswer])
      | revParse => exact fun _ hno => absurd hno (by simp [bareAnswer, tipOf])
      | _ => trivial
    | lsRemote =>
      have hempty : remoteOf [] = none := by decide
      exact fun _ _ hno => absurd (hempty.symm.trans hno) (by simp)
    | onDisk place => exact fun hno => nomatch hno
    | _ => trivial
  · cases c with
    | git command =>
      cases command with
      | revParse => exact fun _ => htip hh
      | symbolicRef place => exact fun _ tree htree => absurd htree (by simp [bareRepo, Repo.tree])
      | listWorktrees => exact fun _ => rfl
      | _ => trivial
    | lsRemote => exact fun _ _ => rfl
    | onDisk place => cases place <;> first | exact fun _ => rfl | exact fun _ => ⟨rfl, rfl⟩
    | _ => trivial

def bareLog (tip : Option JsString) : List Ev :=
  (Dialogue.drive (bareWorld tip) 20 (retireRun sampleContext (js "path") sampleRecord sampleOptions) []).2

theorem reaches_bare {tip : Option JsString} {honest : Prop} (htip : honest → tip = none) :
    Reaches (js "path") honest (retireRun sampleContext (js "path") sampleRecord sampleOptions) (bareLog tip) :=
  ⟨_, Dialogue.runs_drive (fun _ c => ⟨bareRepo tip, bareRepo tip, allows_bare htip c, rfl⟩) 20 _ []⟩

def removesRecord : RetireCall → Bool
  | .removeRecord _ => true
  | _ => false

/-- Where nothing is left of a run its record is removed. -/
theorem retirement_deletes_own_record : ((bareLog none).any fun e => removesRecord e.call) = true ∧
    Always (Owned False fun _ head => expected sampleRecord sampleOptions = some head) (bareLog none) ∧
    Always (Observed fun _ head => expected sampleRecord sampleOptions = some head) (bareLog none) := by
  obtain ⟨hrun, -⟩ := retirement_deletes_own sampleContext (js "path") True (bareLog none)
  obtain ⟨howned, hobserved⟩ := hrun sampleRecord sampleOptions (reaches_bare fun _ => rfl)
  exact ⟨by decide +kernel, howned, hobserved trivial⟩

/-- When `rev-parse` fails while the branch is there, the record is removed and the branch stays. -/
theorem record_removed_before_branch : ¬∀ ctx path record options log,
    Reaches path False (retireRun ctx path record options) log →
      Always (Observed fun _ head => expected record options = some head) log := by
  intro hall
  have hbare : False → (some (List.replicate 40 97) : Option JsString) = none := False.elim
  have hobserved := hall _ _ _ _ _ (reaches_bare hbare)
  have hstands : ((bareLog (some (List.replicate 40 97))).all fun e => e.before.tip.isSome) = true := by
    decide +kernel
  have hlast : ((bareLog (some (List.replicate 40 97))).head?.any fun e => removesRecord e.call) = true := by
    decide +kernel
  revert hobserved hstands hlast
  generalize bareLog (some (List.replicate 40 97)) = log
  intro hobserved hstands hlast
  cases log with
  | nil => exact absurd hlast (by simp)
  | cons e earlier =>
    obtain ⟨before, c, answer, after⟩ := e
    cases c with
    | removeRecord record =>
      obtain ⟨o, ho, -, hgone⟩ := (hobserved.1.record record rfl).branch
      have hthere := List.all_eq_true.1 hstands o (List.mem_cons_of_mem _ ho)
      rw [hgone] at hthere
      exact absurd hthere (by simp)
    | _ => exact absurd hlast (by simp [removesRecord])

end Adlc.Autopilot.Retire
