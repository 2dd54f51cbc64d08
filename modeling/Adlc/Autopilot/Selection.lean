import Adlc.Autopilot.Select

namespace Adlc.Autopilot

open Framework

/-! Selection for the loop: the cheap rules for every candidate, the expensive ones by rank. -/

/-- The facts of one call, and the answers of the checks that ask elsewhere. -/
structure SelectionContext (ρ : Type) where
  denylist : List JsString
  openPrs : List PullRequest
  localBranches : List JsString
  records : Nat → Option IssueRecord
  /-- Failed attempts in the last day; for a ledger that cannot be read, `none`: the cap is reached. -/
  attempts : Nat → Option Nat
  authorization : Candidate → Authorization ρ
  remoteRefExists : Nat → Option Bool
  dateParse : JsString → Option Int
  now : Int
  syntaxError : JsString → JsString

structure Selection (ρ : Type) where
  picked : Option Nat
  issue : Option Candidate
  authorization : Option (Authorization ρ)
  revision : Option (Option ρ × Option JsString)
  excludedRule : Option JsString
  ranked : List RankedIssue
  reason : Option JsString

variable (ν : Type) [JsNumber ν] {ρ : Type}

def entryOf : Json ν → ScopeEntry
  | .str s => .glob s
  | v => .malformed (stringify v)

/-- The scope of the block in a body. -/
def scopeBlockOf (syntaxError : JsString → JsString) (body : JsString) : Option (List ScopeEntry) :=
  let parsed : TicketSync.ParsedBlock ν := parseBlock syntaxError body
  if parsed.ok then
    match parsed.fields.bind fun fields => fields.lookup (js "scope") with
    | some (.arr xs) => some (xs.map (entryOf ν))
    | _ => none
  else none

/-- The rules with the expensive checks answered in favour of the issue. -/
def cheapExclusions (w : SelectionContext ρ) (issue : Candidate) : List Exclusion :=
  hardExclusions (ρ := ρ) issue ⟨true, none, none, none⟩ w.openPrs w.localBranches (some false)
    (w.records issue.number) (scopeBlockOf ν w.syntaxError issue.body) w.denylist (w.attempts issue.number)

/-- All rules. -/
def fullExclusions (w : SelectionContext ρ) (issue : Candidate) : List Exclusion :=
  hardExclusions issue (w.authorization issue) w.openPrs w.localBranches (w.remoteRefExists issue.number)
    (w.records issue.number) (scopeBlockOf ν w.syntaxError issue.body) w.denylist (w.attempts issue.number)

/-- What of the full exclusions is left once those that the first stage lifted are carried over. -/
def carries (force : Bool) (ranked : List RankedIssue) (n : Nat) (x : Exclusion) : Bool :=
  force && (ranked.find? fun s => s.number = n).any fun s => s.lifted.any fun l => decide (l.rule = x.rule)

/-- One round of the second stage. -/
def evaluateRow (w : SelectionContext ρ) (candidates : List Candidate) (force : Bool)
    (stage1 : List RankedIssue) (st : List RankedIssue × Option (Candidate × Authorization ρ))
    (r : RankedIssue) : List RankedIssue × Option (Candidate × Authorization ρ) :=
  if st.2.isSome || !r.excluded.isEmpty then (st.1 ++ [r], st.2)
  else
    match candidates.find? fun c => c.number = r.number with
    | none => (st.1 ++ [r], st.2)
    | some issue =>
      let exclusions := fullExclusions ν w issue
      let excluded := exclusions.filter fun x => !carries force stage1 r.number x
      let lifted := r.lifted ++ exclusions.filter (carries force stage1 r.number)
      (st.1 ++ [{ r with excluded := excluded, lifted := lifted }],
        if excluded.isEmpty then some (issue, w.authorization issue) else none)

def selectForLoop (s : ComparatorSort RankedIssue) (w : SelectionContext ρ) (candidates : List Candidate)
    (pinned : Option Nat) (force : Bool) (top : Option Nat) : Except JsString (Selection ρ) :=
  let evaluate := fun issue => (cheapExclusions ν w issue, scoreIssue w.dateParse issue w.now)
  match selectIssue s candidates evaluate pinned force with
  | .error e => .error e
  | .ok stage1 =>
    if stage1.reason = some (js "issue-not-found") then
      .ok ⟨none, none, none, none, some (js "issue-not-found"), [], stage1.reason⟩
    else
      let (ranked, choice) := stage1.ranked.foldl (evaluateRow ν w candidates force stage1.ranked) ([], none)
      let limited := match top with
        | some n => if n = 0 then ranked else ranked.take n
        | none => ranked
      match choice with
      | none =>
        let refused := if pinned = none then js "no-eligible-candidate" else js "excluded"
        let first := if pinned = none then none else ranked.head?
        let excludedRule := (first.bind fun r => r.excluded.head?.map Exclusion.rule).getD refused
        .ok ⟨none, none, none, none, some excludedRule, limited, some refused⟩
      | some (issue, authorization) =>
        .ok ⟨some issue.number, some issue, some authorization,
          some (authorization.issueRevision, issue.updatedAt), none, limited, none⟩

/-! ## Selection in full -/

/-- No rule is left when all are evaluated, but those that force lifts. -/
def Eligible (w : SelectionContext ρ) (force : Bool) (issue : Candidate) : Prop :=
  ∀ x ∈ fullExclusions ν w issue, force = true ∧ x.rule ∈ forceLiftableRules

/-- A higher score, or the same and a lower number. -/
def Beats (w : SelectionContext ρ) (c d : Candidate) : Prop :=
  ∃ x y, scoreIssue w.dateParse c w.now = some x ∧ scoreIssue w.dateParse d w.now = some y ∧
    (y < x ∨ x = y ∧ c.number < d.number)

/-- The pick is the best of those that are eligible, and is none only where none is. -/
structure SelectsBest (w : SelectionContext ρ) (candidates : List Candidate) (pinned : Option Nat)
    (force : Bool) (picked : Option Nat) : Prop where
  best : ∀ n, picked = some n → ∃ c ∈ poolOf candidates pinned, c.number = n ∧ Eligible ν w force c ∧
    ∀ d ∈ poolOf candidates pinned, Eligible ν w force d → d.number ≠ n → Beats w c d
  none : picked = none → ∀ d ∈ poolOf candidates pinned, ¬Eligible ν w force d

/-- The rows of the first stage, before they are sorted. -/
def stageRows (w : SelectionContext ρ) (candidates : List Candidate) (pinned : Option Nat)
    (force : Bool) : List RankedIssue :=
  (poolOf candidates pinned).map
    (rankIssue (fun issue => (cheapExclusions ν w issue, scoreIssue w.dateParse issue w.now)) force)

/-! ## The two stages -/

theorem find?_key {α β : Type} [DecidableEq β] {key : α → β} {l : List α} (hnodup : (l.map key).Nodup)
    {x : α} (hx : x ∈ l) : l.find? (fun y => decide (key y = key x)) = some x := by
  obtain ⟨y, hy⟩ : ∃ y, l.find? (fun y => decide (key y = key x)) = some y := by
    rw [← Option.isSome_iff_exists, List.find?_isSome]
    exact ⟨x, hx, decide_eq_true rfl⟩
  have hkey : key y = key x := by simpa using List.find?_some hy
  rw [hy, List.inj_on_of_nodup_map hnodup (List.mem_of_find?_eq_some hy) hx hkey]

section Stages

variable {ν} {w : SelectionContext ρ} {force : Bool}

theorem mem_cheap_of_liftable {c : Candidate} {x : Exclusion} (h : x ∈ fullExclusions ν w c)
    (hrule : x.rule ∈ forceLiftableRules) : x ∈ cheapExclusions ν w c := by
  have hauthorization : x ∉ authorizationExclusion (w.authorization c) := by
    intro hx
    unfold authorizationExclusion at hx
    split_ifs at hx with hok
    · cases hx
    · rw [List.mem_singleton.mp hx] at hrule
      revert hrule
      dsimp only
      cases (w.authorization c).rule with
      | none => decide
      | some rule => cases rule <;> decide
  have hremote : x ∉ remoteExclusion c.number (w.remoteRefExists c.number) := by
    intro hx
    unfold remoteExclusion at hx
    split at hx
    · rw [List.mem_singleton.mp hx] at hrule
      revert hrule
      dsimp only
      decide
    · cases hx
    · rw [List.mem_singleton.mp hx] at hrule
      revert hrule
      dsimp only
      decide
  simp only [fullExclusions, hardExclusions, List.mem_append, hauthorization, hremote, false_or,
    or_false] at h
  simp only [cheapExclusions, hardExclusions, List.mem_append]
  tauto

theorem cheap_subset_full (c : Candidate) : ∀ x ∈ cheapExclusions ν w c, x ∈ fullExclusions ν w c := by
  intro x hx
  have hauthorization : authorizationExclusion (⟨true, none, none, none⟩ : Authorization ρ) = [] := rfl
  have hremote : remoteExclusion c.number (some false) = [] := rfl
  simp only [cheapExclusions, hardExclusions, hauthorization, hremote, List.mem_append, List.not_mem_nil,
    false_or, or_false] at hx
  simp only [fullExclusions, hardExclusions, List.mem_append]
  tauto

/-- The row of a candidate in the first stage. -/
def stageRow (ν : Type) [JsNumber ν] (w : SelectionContext ρ) (force : Bool) (c : Candidate) : RankedIssue :=
  rankIssue (fun issue => (cheapExclusions ν w issue, scoreIssue w.dateParse issue w.now)) force c

/-- A candidate survives both stages exactly when it is eligible in full. -/
theorem survives_iff {ranked : List RankedIssue} {c : Candidate}
    (hfind : ranked.find? (fun s => s.number = c.number) = some (stageRow ν w force c)) :
    ((stageRow ν w force c).excluded.isEmpty = true ∧
      ((fullExclusions ν w c).filter fun x => !carries force ranked c.number x).isEmpty = true) ↔
      Eligible ν w force c := by
  have hcarries : ∀ x, carries force ranked c.number x = true ↔
      force = true ∧ ∃ l ∈ cheapExclusions ν w c, l.rule ∈ forceLiftableRules ∧ l.rule = x.rule := by
    intro x
    unfold carries
    rw [hfind]
    simp only [stageRow, rankIssue, forceLifts, Option.any_some, List.any_eq_true, List.mem_filter,
      Bool.and_eq_true, decide_eq_true_eq]
    constructor
    · rintro ⟨hforce, l, ⟨hl, -, hrule⟩, e⟩
      exact ⟨hforce, l, hl, hrule, e⟩
    · rintro ⟨hforce, l, hl, hrule, e⟩
      exact ⟨hforce, l, ⟨hl, hforce, hrule⟩, e⟩
  constructor
  · rintro ⟨-, hsecond⟩ x hx
    rw [List.isEmpty_iff, List.filter_eq_nil_iff] at hsecond
    have h := hsecond x hx
    rw [Bool.not_eq_true', Bool.not_eq_false, hcarries] at h
    obtain ⟨hforce, l, -, hrule, e⟩ := h
    exact ⟨hforce, e ▸ hrule⟩
  · intro h
    constructor
    · rw [List.isEmpty_iff, stageRow, rankIssue, List.filter_eq_nil_iff]
      intro x hx
      obtain ⟨hforce, hrule⟩ := h x (cheap_subset_full c x hx)
      simp [forceLifts, hforce, hrule]
    · rw [List.isEmpty_iff, List.filter_eq_nil_iff]
      intro x hx
      obtain ⟨hforce, hrule⟩ := h x hx
      rw [Bool.not_eq_true', Bool.not_eq_false, hcarries]
      exact ⟨hforce, x, mem_cheap_of_liftable hx hrule, hrule, rfl⟩

end Stages

/-! ## The run of the second stage -/

/-- What the second stage finds at one row. -/
def tryRow (w : SelectionContext ρ) (candidates : List Candidate) (force : Bool)
    (stage1 : List RankedIssue) (r : RankedIssue) : Option (Candidate × Authorization ρ) :=
  if r.excluded.isEmpty then
    (candidates.find? fun c => c.number = r.number).bind fun issue =>
      if ((fullExclusions ν w issue).filter fun x => !carries force stage1 r.number x).isEmpty then
        some (issue, w.authorization issue)
      else none
  else none

section Run

variable {ν} {w : SelectionContext ρ} {candidates : List Candidate} {force : Bool}
  {stage1 : List RankedIssue}

theorem evaluateRow_choice (st : List RankedIssue × Option (Candidate × Authorization ρ)) (r : RankedIssue) :
    (evaluateRow ν w candidates force stage1 st r).2 = st.2.or (tryRow ν w candidates force stage1 r) := by
  unfold evaluateRow tryRow
  cases hst : st.2 with
  | some choice => simp
  | none =>
    cases r.excluded.isEmpty with
    | false => simp
    | true =>
      cases candidates.find? fun c => decide (c.number = r.number) with
      | none => simp
      | some issue => simp

theorem foldl_choice (rows : List RankedIssue) (st : List RankedIssue × Option (Candidate × Authorization ρ)) :
    (rows.foldl (evaluateRow ν w candidates force stage1) st).2 =
      st.2.or (rows.findSome? (tryRow ν w candidates force stage1)) := by
  induction rows generalizing st with
  | nil => simp
  | cons r rows ih =>
    rw [List.foldl_cons, ih, evaluateRow_choice, List.findSome?_cons, Option.or_assoc]
    cases tryRow ν w candidates force stage1 r with
    | none => rfl
    | some choice => rfl

theorem tryRow_stageRow (hnodup : (candidates.map Candidate.number).Nodup) {c : Candidate}
    (hc : c ∈ candidates)
    (hfind : stage1.find? (fun s => s.number = c.number) = some (stageRow ν w force c)) :
    (Eligible ν w force c → tryRow ν w candidates force stage1 (stageRow ν w force c) =
        some (c, w.authorization c)) ∧
      (¬Eligible ν w force c → tryRow ν w candidates force stage1 (stageRow ν w force c) = none) := by
  have hcandidate : candidates.find? (fun d => decide (d.number = (stageRow ν w force c).number)) = some c :=
    find?_key hnodup hc
  have hnumber : (stageRow ν w force c).number = c.number := rfl
  have hsurvives := survives_iff hfind
  unfold tryRow
  rw [hcandidate, Option.bind_some, hnumber]
  constructor
  · intro h
    obtain ⟨hfirst, hsecond⟩ := hsurvives.mpr h
    rw [if_pos hfirst, if_pos hsecond]
  · intro h
    by_cases hfirst : (stageRow ν w force c).excluded.isEmpty = true
    · rw [if_pos hfirst, if_neg fun hsecond => h (hsurvives.mp ⟨hfirst, hsecond⟩)]
    · rw [if_neg hfirst]

end Run

section Choice

variable {ν} {w : SelectionContext ρ} {candidates : List Candidate} {pinned : Option Nat} {force : Bool}

theorem mem_poolOf {c : Candidate} (h : c ∈ poolOf candidates pinned) : c ∈ candidates := by
  cases pinned with
  | none => exact h
  | some pin => exact (List.mem_filter.mp h).1

omit [JsNumber ν] in
theorem selectIssue_notFound (s : ComparatorSort RankedIssue)
    (evaluate : Candidate → List Exclusion × Option Nat) (hforce : ¬(force = true ∧ pinned = none))
    (hpool : pinned ≠ none ∧ (poolOf candidates pinned).isEmpty = true) :
    selectIssue s candidates evaluate pinned force = .ok ⟨none, [], some (js "issue-not-found"), []⟩ := by
  unfold selectIssue
  rw [if_neg hforce]
  dsimp only
  rw [if_pos hpool]

omit [JsNumber ν] in
theorem selectIssue_ranked (s : ComparatorSort RankedIssue)
    (evaluate : Candidate → List Exclusion × Option Nat) (hforce : ¬(force = true ∧ pinned = none))
    (hpool : ¬(pinned ≠ none ∧ (poolOf candidates pinned).isEmpty = true)) :
    ∃ pick, selectIssue s candidates evaluate pinned force = .ok pick ∧
      pick.ranked = s.sort rankLe ((poolOf candidates pinned).map (rankIssue evaluate force)) ∧
      pick.reason ≠ some (js "issue-not-found") := by
  unfold selectIssue
  rw [if_neg hforce]
  dsimp only
  rw [if_neg hpool]
  split
  · exact ⟨_, rfl, rfl, Option.some_ne_none _ |>.symm⟩
  · refine ⟨_, rfl, rfl, ?_⟩
    dsimp only
    split_ifs <;> decide

theorem selectForLoop_refused (s : ComparatorSort RankedIssue) (top : Option Nat)
    (hforce : force = true ∧ pinned = none) :
    selectForLoop ν s w candidates pinned force top = .error (js "--force requires --issue") := by
  have hselect : ∀ evaluate, selectIssue s candidates evaluate pinned force =
      .error (js "--force requires --issue") := fun _ => if_pos hforce
  unfold selectForLoop
  dsimp only
  rw [hselect]

theorem selectForLoop_picked (s : ComparatorSort RankedIssue) (top : Option Nat)
    (hforce : ¬(force = true ∧ pinned = none)) :
    ∃ result, selectForLoop ν s w candidates pinned force top = .ok result ∧
      result.picked = ((s.sort rankLe (stageRows ν w candidates pinned force)).findSome?
        (tryRow ν w candidates force (s.sort rankLe (stageRows ν w candidates pinned force)))).map
          fun choice => choice.1.number := by
  by_cases hempty : pinned ≠ none ∧ (poolOf candidates pinned).isEmpty = true
  · have hrows : stageRows ν w candidates pinned force = [] := by
      rw [stageRows, List.isEmpty_iff.mp hempty.2, List.map_nil]
    have hsorted : s.sort rankLe ([] : List RankedIssue) = [] := (s.perm rankLe []).eq_nil
    unfold selectForLoop
    dsimp only
    rw [selectIssue_notFound s _ hforce hempty, hrows, hsorted]
    dsimp only
    rw [if_pos rfl]
    exact ⟨_, rfl, rfl⟩
  · obtain ⟨pick, hpick, hranked, hreason⟩ := selectIssue_ranked s
      (fun issue => (cheapExclusions ν w issue, scoreIssue w.dateParse issue w.now)) hforce hempty
    have hchoice := @foldl_choice ν _ ρ w candidates force pick.ranked pick.ranked ([], none)
    rw [Option.none_or] at hchoice
    have hrows : (poolOf candidates pinned).map (rankIssue
        (fun issue => (cheapExclusions ν w issue, scoreIssue w.dateParse issue w.now)) force) =
        stageRows ν w candidates pinned force := rfl
    rw [hrows] at hranked
    unfold selectForLoop
    dsimp only
    rw [hpick]
    dsimp only
    rw [if_neg hreason]
    rcases hfold : pick.ranked.foldl (evaluateRow ν w candidates force pick.ranked) ([], none) with
      ⟨ranked, choice⟩
    rw [hfold, hranked] at hchoice
    dsimp only at hchoice ⊢
    rw [← hchoice]
    cases choice with
    | none => exact ⟨_, rfl, rfl⟩
    | some choice => exact ⟨_, rfl, rfl⟩

theorem poolOf_inj (hnodup : (candidates.map Candidate.number).Nodup) {c d : Candidate}
    (hc : c ∈ poolOf candidates pinned) (hd : d ∈ poolOf candidates pinned) (h : c.number = d.number) :
    c = d :=
  List.inj_on_of_nodup_map hnodup (mem_poolOf hc) (mem_poolOf hd) h

section Ranked

variable {ranked : List RankedIssue} (hnodup : (candidates.map Candidate.number).Nodup)
  (hperm : ranked.Perm (stageRows ν w candidates pinned force))

include hnodup hperm

theorem find_stageRow {c : Candidate} (hc : c ∈ poolOf candidates pinned) :
    ranked.find? (fun s => s.number = c.number) = some (stageRow ν w force c) := by
  have hnumbers : (stageRows ν w candidates pinned force).map RankedIssue.number =
      (poolOf candidates pinned).map Candidate.number := by
    rw [stageRows, List.map_map]
    rfl
  have hpool : ((poolOf candidates pinned).map Candidate.number).Nodup := by
    cases pinned with
    | none => exact hnodup
    | some pin => exact hnodup.sublist (List.filter_sublist.map _)
  have hranked : (ranked.map RankedIssue.number).Nodup := by
    rw [(hperm.map _).nodup_iff, hnumbers]
    exact hpool
  have hmem : stageRow ν w force c ∈ ranked := hperm.mem_iff.mpr (List.mem_map_of_mem hc)
  exact find?_key hranked hmem

theorem tryRow_ranked {c : Candidate} (hc : c ∈ poolOf candidates pinned) :
    (Eligible ν w force c → tryRow ν w candidates force ranked (stageRow ν w force c) =
        some (c, w.authorization c)) ∧
      (¬Eligible ν w force c → tryRow ν w candidates force ranked (stageRow ν w force c) = none) :=
  tryRow_stageRow hnodup (mem_poolOf hc) (find_stageRow hnodup hperm hc)

/-- What is found is eligible, and no eligible row stands before it. -/
theorem found_eligible {c : Candidate} {a : Authorization ρ}
    (h : ranked.findSome? (tryRow ν w candidates force ranked) = some (c, a)) :
    c ∈ poolOf candidates pinned ∧ Eligible ν w force c ∧ ∃ front back,
      ranked = front ++ stageRow ν w force c :: back ∧
        ∀ d ∈ poolOf candidates pinned, Eligible ν w force d → stageRow ν w force d ∉ front := by
  obtain ⟨front, r, back, hranked, hr, hfront⟩ := List.findSome?_eq_some_iff.mp h
  have hmem : r ∈ ranked := by
    rw [hranked]
    exact List.mem_append_right front List.mem_cons_self
  obtain ⟨e, he, rfl⟩ := List.mem_map.mp (hperm.mem_iff.mp hmem)
  obtain ⟨hfound, hskipped⟩ := tryRow_ranked hnodup hperm he
  by_cases heligible : Eligible ν w force e
  · have hsame := Option.some.inj ((hfound heligible).symm.trans hr)
    obtain ⟨rfl, -⟩ := Prod.mk.inj hsame
    refine ⟨he, heligible, front, back, hranked, ?_⟩
    intro d hd hdeligible hin
    have hnone := hfront _ hin
    rw [(tryRow_ranked hnodup hperm hd).1 hdeligible] at hnone
    cases hnone
  · have hnone := (hskipped heligible).symm.trans hr
    cases hnone

theorem notFound_ineligible (h : ranked.findSome? (tryRow ν w candidates force ranked) = none) :
    ∀ d ∈ poolOf candidates pinned, ¬Eligible ν w force d := by
  intro d hd hdeligible
  have hmem : stageRow ν w force d ∈ ranked := hperm.mem_iff.mpr (List.mem_map_of_mem hd)
  have hnone := List.findSome?_eq_none_iff.mp h _ hmem
  rw [(tryRow_ranked hnodup hperm hd).1 hdeligible] at hnone
  cases hnone

/-- An eligible row that stands first is found. -/
theorem found_first {c : Candidate} {rest : List RankedIssue} (hc : c ∈ poolOf candidates pinned)
    (heligible : Eligible ν w force c) (hranked : ranked = stageRow ν w force c :: rest) :
    ranked.findSome? (tryRow ν w candidates force ranked) = some (c, w.authorization c) := by
  have htry := (tryRow_ranked hnodup hperm hc).1 heligible
  have hlist : ranked.findSome? (tryRow ν w candidates force ranked) =
      (stageRow ν w force c :: rest).findSome? (tryRow ν w candidates force ranked) := by
    rw [← hranked]
  rw [hlist, List.findSome?_cons, htry]

end Ranked

/-! ## The law of selection -/

/-- The ranking leaves no doubt about the best candidate: there is one at most, or each eligible one has
a number for a score and the comparison orders the candidates. -/
def ClearlyRanked (ν : Type) [JsNumber ν] (w : SelectionContext ρ) (candidates : List Candidate)
    (pinned : Option Nat) (force : Bool) : Prop :=
  (∀ c ∈ poolOf candidates pinned, ∀ d ∈ poolOf candidates pinned, Eligible ν w force c →
    Eligible ν w force d → c = d) ∨
  (∀ c ∈ poolOf candidates pinned, Eligible ν w force c → (scoreIssue w.dateParse c w.now).isSome = true) ∧
    OrdersOn rankLe (stageRows ν w candidates pinned force)

theorem beats_of_rankLe {c d : Candidate} {x y : Nat} (hx : scoreIssue w.dateParse c w.now = some x)
    (hy : scoreIssue w.dateParse d w.now = some y) (hne : d.number ≠ c.number)
    (h : rankLe (stageRow ν w force c) (stageRow ν w force d) = true) : Beats w c d := by
  have hrank : rankLe (stageRow ν w force c) (stageRow ν w force d) =
      if x = y then decide (c.number ≤ d.number) else decide (y < x) := by
    simp only [rankLe, stageRow, rankIssue, hx, hy]
  rw [hrank] at h
  refine ⟨x, y, hx, hy, ?_⟩
  split_ifs at h with hscore
  · have hle : c.number ≤ d.number := of_decide_eq_true h
    exact .inr ⟨hscore, by omega⟩
  · exact .inl (of_decide_eq_true h)

theorem Beats.asymm {c d : Candidate} (h : Beats w c d) (h' : Beats w d c) : False := by
  obtain ⟨x, y, hx, hy, hlt⟩ := h
  obtain ⟨y', x', hy', hx', hlt'⟩ := h'
  obtain rfl := Option.some.inj (hx.symm.trans hx')
  obtain rfl := Option.some.inj (hy.symm.trans hy')
  omega

theorem selectsBest_of_clearlyRanked (hnodup : (candidates.map Candidate.number).Nodup)
    (h : ClearlyRanked ν w candidates pinned force) (s : ComparatorSort RankedIssue) {picked : Option Nat}
    (hpicked : picked = ((s.sort rankLe (stageRows ν w candidates pinned force)).findSome?
      (tryRow ν w candidates force (s.sort rankLe (stageRows ν w candidates pinned force)))).map
        fun choice => choice.1.number) :
    SelectsBest ν w candidates pinned force picked := by
  have hperm := s.perm rankLe (stageRows ν w candidates pinned force)
  have hsorted := s.sorted rankLe (stageRows ν w candidates pinned force)
  generalize s.sort rankLe (stageRows ν w candidates pinned force) = ranked at hperm hsorted hpicked
  cases hfind : ranked.findSome? (tryRow ν w candidates force ranked) with
  | none =>
    rw [hfind] at hpicked
    refine ⟨fun n hn => ?_, fun _ => notFound_ineligible hnodup hperm hfind⟩
    rw [hpicked] at hn
    cases hn
  | some choice =>
    obtain ⟨c, a⟩ := choice
    rw [hfind] at hpicked
    obtain ⟨hc, heligible, front, back, hranked, hfront⟩ := found_eligible hnodup hperm hfind
    refine ⟨fun n hn => ?_, fun hn => ?_⟩
    · rw [hpicked] at hn
      obtain rfl := Option.some.inj hn
      refine ⟨c, hc, rfl, heligible, fun d hd hdeligible hne => ?_⟩
      dsimp only at hne
      obtain hunique | ⟨hnumeric, horders⟩ := h
      · exact absurd (congrArg Candidate.number (hunique d hd c hc hdeligible heligible)) hne
      · obtain ⟨x, hx⟩ := Option.isSome_iff_exists.mp (hnumeric c hc heligible)
        obtain ⟨y, hy⟩ := Option.isSome_iff_exists.mp (hnumeric d hd hdeligible)
        have hmem : stageRow ν w force d ∈ ranked := hperm.mem_iff.mpr (List.mem_map_of_mem hd)
        have hback : stageRow ν w force d ∈ back := by
          rw [hranked, List.mem_append, List.mem_cons] at hmem
          obtain hin | hsame | hin := hmem
          · exact absurd hin (hfront d hd hdeligible)
          · exact absurd (congrArg RankedIssue.number hsame) hne
          · exact hin
        have hordered := hsorted horders
        rw [hranked, List.pairwise_append] at hordered
        exact beats_of_rankLe hx hy hne ((List.pairwise_cons.mp hordered.2.1).1 _ hback)
    · rw [hpicked] at hn
      cases hn

/-- The two stages pick as the full evaluation does, whatever the sort does with what is not ordered,
exactly where the candidates are clearly ranked. -/
theorem selectForLoop_selectsBest_iff (ν : Type) [JsNumber ν] (w : SelectionContext ρ)
    (candidates : List Candidate) (hnodup : (candidates.map Candidate.number).Nodup) (pinned : Option Nat)
    (force : Bool) (top : Option Nat) :
    (∀ s result, selectForLoop ν s w candidates pinned force top = .ok result →
      SelectsBest ν w candidates pinned force result.picked) ↔
      (force = true ∧ pinned = none) ∨ ClearlyRanked ν w candidates pinned force := by
  constructor
  · intro h
    by_contra hnot
    obtain ⟨hforce, hunclear⟩ := not_or.mp hnot
    rw [ClearlyRanked, not_or] at hunclear
    obtain ⟨hseveral, hunranked⟩ := hunclear
    push Not at hseveral
    obtain ⟨a, ha, b, hb, haeligible, hbeligible, hab⟩ := hseveral
    have hnumbers : a.number ≠ b.number := fun e => hab (poolOf_inj hnodup ha hb e)
    -- Of two eligible candidates, each has a score once some sort picks the best.
    have hnumeric : ∀ c ∈ poolOf candidates pinned, Eligible ν w force c →
        (scoreIssue w.dateParse c w.now).isSome = true := by
      obtain ⟨result, hresult, -⟩ := selectForLoop_picked (ν := ν) (w := w) .insertion top hforce
      have hbest := h .insertion result hresult
      cases hpicked : result.picked with
      | none => exact absurd haeligible (hbest.none hpicked a ha)
      | some n =>
        obtain ⟨c, hc, rfl, hceligible, hbeats⟩ := hbest.best n hpicked
        obtain ⟨e, he, heeligible, hne⟩ : ∃ e ∈ poolOf candidates pinned, Eligible ν w force e ∧
            e.number ≠ c.number := by
          by_cases hac : a.number = c.number
          · exact ⟨b, hb, hbeligible, fun e => hnumbers (hac.trans e.symm)⟩
          · exact ⟨a, ha, haeligible, hac⟩
        intro d hd hdeligible
        by_cases hdc : d.number = c.number
        · obtain ⟨x, -, hx, -, -⟩ := hbeats e he heeligible hne
          rw [poolOf_inj hnodup hd hc hdc, hx]
          rfl
        · obtain ⟨-, y, -, hy, -⟩ := hbeats d hd hdeligible hdc
          rw [hy]
          rfl
    -- What is not ordered may be arranged with either of the two in front.
    refine hunranked ⟨hnumeric, ?_⟩
    by_contra hunordered
    have hfront : ∀ c ∈ poolOf candidates pinned, Eligible ν w force c →
        ∀ d ∈ poolOf candidates pinned, Eligible ν w force d → d.number ≠ c.number → Beats w c d := by
      intro c hc hceligible d hd hdeligible hne
      obtain ⟨s, rest, hsort⟩ := ComparatorSort.exists_first hunordered
        (List.mem_map_of_mem hc : stageRow ν w force c ∈ stageRows ν w candidates pinned force)
      obtain ⟨result, hresult, hpicked⟩ := selectForLoop_picked (ν := ν) (w := w) s top hforce
      rw [found_first hnodup (s.perm _ _) hc hceligible hsort] at hpicked
      obtain ⟨c', hc', hnumber, -, hbeats⟩ := (h s result hresult).best c.number hpicked
      rw [poolOf_inj hnodup hc' hc hnumber] at hbeats
      exact hbeats d hd hdeligible hne
    exact (hfront a ha haeligible b hb hbeligible hnumbers.symm).asymm
      (hfront b hb hbeligible a ha haeligible hnumbers)
  · rintro (hforce | hclear) s result hresult
    · rw [selectForLoop_refused s top hforce] at hresult
      cases hresult
    · by_cases hforce : force = true ∧ pinned = none
      · rw [selectForLoop_refused s top hforce] at hresult
        cases hresult
      · obtain ⟨result', hresult', hpicked⟩ := selectForLoop_picked (ν := ν) (w := w) s top hforce
        obtain rfl := Except.ok.inj (hresult.symm.trans hresult')
        exact selectsBest_of_clearlyRanked hnodup hclear s hpicked

end Choice

/-! ## Labels that are named like something inherited -/

theorem pointsOf_isSome (points : List (JsString × Nat)) {n : JsString} (h : n ∉ Fleet.inheritedNames) :
    ∃ k, pointsOf points n = some k := ⟨_, if_neg h⟩

theorem mapM_pointsOf (points : List (JsString × Nat)) {names : List JsString}
    (h : ∀ n ∈ names, n ∉ Fleet.inheritedNames) : ∃ ks, names.mapM (pointsOf points) = some ks := by
  induction names with
  | nil => exact ⟨[], rfl⟩
  | cons n names ih =>
    obtain ⟨k, hk⟩ := pointsOf_isSome points (h n List.mem_cons_self)
    obtain ⟨ks, hks⟩ := ih fun m hm => h m (List.mem_cons_of_mem n hm)
    refine ⟨k :: ks, ?_⟩
    rw [List.mapM_cons, hk, hks]
    rfl

theorem scoreIssue_isSome (dateParse : JsString → Option Int) (nowMs : Int) {c : Candidate}
    (h : ∀ n ∈ c.labels, n ∉ Fleet.inheritedNames) : (scoreIssue dateParse c nowMs).isSome = true := by
  obtain ⟨priorities, hpriorities⟩ := mapM_pointsOf priorityPoints h
  obtain ⟨kinds, hkinds⟩ := mapM_pointsOf kindPoints h
  simp [scoreIssue, hpriorities, hkinds]

/-- Rows with numbers for scores are ordered by them. -/
theorem ordersOn_of_scores {rows : List RankedIssue} (h : ∀ r ∈ rows, r.score.isSome = true) :
    OrdersOn rankLe rows := by
  have hrank : ∀ a b : RankedIssue, ∀ x y, a.score = some x → b.score = some y →
      (rankLe a b = true ↔ y < x ∨ x = y ∧ a.number ≤ b.number) := by
    intro a b x y hx hy
    simp only [rankLe, hx, hy]
    split_ifs with e
    · rw [decide_eq_true_eq]
      omega
    · rw [decide_eq_true_eq]
      omega
  constructor
  · intro a ha b hb
    obtain ⟨x, hx⟩ := Option.isSome_iff_exists.mp (h a ha)
    obtain ⟨y, hy⟩ := Option.isSome_iff_exists.mp (h b hb)
    rw [hrank a b x y hx hy, hrank b a y x hy hx]
    omega
  · intro a ha b hb c hc
    obtain ⟨x, hx⟩ := Option.isSome_iff_exists.mp (h a ha)
    obtain ⟨y, hy⟩ := Option.isSome_iff_exists.mp (h b hb)
    obtain ⟨z, hz⟩ := Option.isSome_iff_exists.mp (h c hc)
    rw [hrank a b x y hx hy, hrank b c y z hy hz, hrank a c x z hx hz]
    omega

theorem clearlyRanked_of_labels {w : SelectionContext ρ} {candidates : List Candidate} {pinned : Option Nat}
    {force : Bool}
    (h : ∀ c ∈ poolOf candidates pinned, ∀ n ∈ c.labels, n ∉ Fleet.inheritedNames) :
    ClearlyRanked ν w candidates pinned force := by
  refine .inr ⟨fun c hc _ => scoreIssue_isSome w.dateParse w.now (h c hc), ordersOn_of_scores fun r hr => ?_⟩
  obtain ⟨c, hc, rfl⟩ := List.mem_map.mp hr
  exact scoreIssue_isSome w.dateParse w.now (h c hc)

def openIssue (number : Nat) (labels : List JsString) : Candidate := ⟨number, labels, none, [], none, none⟩

def quietContext : SelectionContext Unit :=
  ⟨[], [], [], fun _ => none, fun _ => some 0, fun _ => ⟨true, none, none, some ()⟩, fun _ => some false,
    fun _ => none, 0, fun _ => []⟩

def labelledIssues : List Candidate := [openIssue 7 [js "bug"], openIssue 9 [js "P1-high"]]

theorem selectForLoop_selectsBest_labels :
    (labelledIssues.map Candidate.number).Nodup ∧ ∀ s result,
      selectForLoop Int s quietContext labelledIssues none false none = .ok result →
        SelectsBest Int quietContext labelledIssues none false result.picked := by
  have hnodup : (labelledIssues.map Candidate.number).Nodup := by decide
  refine ⟨hnodup, ?_⟩
  refine (selectForLoop_selectsBest_iff Int quietContext _ hnodup none false none).mpr (.inr ?_)
  refine clearlyRanked_of_labels Int ?_
  decide

/-- An excluded issue between two others, with a label named like what every object inherits. -/
def shadowedIssues : List Candidate :=
  [openIssue 1 [js "enhancement"], openIssue 2 [js "constructor", js "question"], openIssue 3 [js "P3-low"]]

/-- The lower of two scores is picked where an excluded issue stands between. -/
theorem constructor_label_misranks :
    (shadowedIssues.map Candidate.number).Nodup ∧ ∃ result,
      selectForLoop Int .insertion quietContext shadowedIssues none false none = .ok result ∧
        result.picked = some 1 ∧ ¬SelectsBest Int quietContext shadowedIssues none false result.picked := by
  refine ⟨by decide, _, rfl, rfl, ?_⟩
  intro h
  obtain ⟨c, hc, hnumber, -, hbeats⟩ := h.best 1 rfl
  have heligible : Eligible Int quietContext false (openIssue 3 [js "P3-low"]) := by
    have hnone : fullExclusions Int quietContext (openIssue 3 [js "P3-low"]) = [] := by rfl
    intro x hx
    rw [hnone] at hx
    cases hx
  have hfirst : c = openIssue 1 [js "enhancement"] := by
    have hone : ∀ d ∈ poolOf shadowedIssues none, d.number = 1 → d = openIssue 1 [js "enhancement"] := by
      decide
    exact hone c hc hnumber
  obtain ⟨x, y, hx, hy, hlt⟩ := hbeats _ (by decide) heligible (by decide)
  rw [hfirst] at hx hlt
  obtain rfl := Option.some.inj ((rfl : some 10 = _).trans hx)
  obtain rfl := Option.some.inj ((rfl : some 100 = _).trans hy)
  obtain hlt | ⟨e, -⟩ := hlt
  · exact absurd hlt (by decide)
  · exact absurd e (by decide)

end Adlc.Autopilot
