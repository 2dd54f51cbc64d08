import Adlc.Framework.Paths
import Adlc.Tickets.Evidence

namespace Adlc.ContextHandoff

open Adlc.Framework Adlc.Tickets

variable {ν : Type} [JsNumber ν]

/-! ## Session ids and deny records -/

/-- `basename(path)` -/
def basename (path : JsString) : JsString :=
  ((path.rdropWhile fun c => c = slash).splitOn slash).getLast?.getD []

/-- `isSafeSessionId` of a string -/
def isSafeSessionId (sessionId : JsString) : Bool :=
  decide (sessionId ≠ []) && decide (trim sessionId ≠ []) && decide (trim sessionId = sessionId) &&
    !(sessionId.contains slash || sessionId.contains 92 || decide (js ".." <:+: sessionId)) &&
    decide (basename sessionId = sessionId)

/-- The id itself where a value is a safe one. -/
def safeSessionId? (value : Option (Json ν)) : Option JsString :=
  match value with
  | some (.str s) => if isSafeSessionId s then some s else none
  | _ => none

/-- The string itself where a value is one that is not blank. -/
def nonBlank? (value : Option (Json ν)) : Option JsString :=
  match value with
  | some (.str s) => if trim s = [] then none else some s
  | _ => none

def isBoundField (value : Option (Json ν)) : Bool := (nonBlank? value).isSome

/-- `value.key`; absent is `undefined`. -/
def fieldOf (value : Option (Json ν)) (key : String) : Option (Json ν) :=
  value.bind fun v => v.get? (js key)

def isTruthy (value : Option (Json ν)) : Bool := value.any truthy

def isValidDenyRecord (record : Option (Json ν)) : Bool :=
  isTruthy record && (safeSessionId? (fieldOf record "session_id")).isSome &&
    (strictEq (fieldOf record "status") (some (.str (js "open"))) ||
      strictEq (fieldOf record "status") (some (.str (js "consumed"))))

/-! ## Credentials -/

structure Grant where
  active : Bool
  allowUnbound : Bool
  sessionId : Option JsString
  deriving DecidableEq

def noGrant : Grant := ⟨false, false, none⟩

def normalizeBypassGrant (bypassForSession : Option (Json ν)) (currentSessionId : Option JsString) :
    Grant :=
  match bypassForSession with
  | some (.bool true) => ⟨true, false, currentSessionId⟩
  | some (.obj grant) =>
    let unbound := isBoundField (fieldOf (some (.obj grant)) "unboundReason")
    let explicitSid := nonBlank? (fieldOf (some (.obj grant)) "sessionId")
    if !unbound && explicitSid.isNone then noGrant
    else
      match explicitSid.or currentSessionId with
      | some sid => if trim sid = [] then noGrant else ⟨true, unbound, some sid⟩
      | none => noGrant
  | _ => noGrant

structure AuthorizedOpts (ν : Type) where
  record : Option (Json ν)
  resumeAuth : Option (Json ν)
  bypassForSession : Option (Json ν)
  manifestVerifyFailed : Bool
  currentSessionId : Option JsString

/-- The resume-auth is verified and bound to this record. -/
def resumes (resumeAuth record : Option (Json ν)) : Bool :=
  strictEq (fieldOf resumeAuth "verified") (some (.bool true)) &&
    strictEq (fieldOf resumeAuth "ticket_id") (fieldOf record "ticket_id") &&
    strictEq (fieldOf resumeAuth "content_hash") (fieldOf record "content_hash") &&
    (isBoundField (fieldOf resumeAuth "deny_session_id") &&
      strictEq (fieldOf resumeAuth "deny_session_id") (fieldOf record "session_id"))

def authorized (opts : AuthorizedOpts ν) : Bool :=
  if !isTruthy opts.record then false
  else if opts.manifestVerifyFailed then false
  else
    let grant := normalizeBypassGrant opts.bypassForSession opts.currentSessionId
    let unbound := !isBoundField (fieldOf opts.record "ticket_id") ||
      !isBoundField (fieldOf opts.record "content_hash")
    if grant.active then
      if opts.currentSessionId.getD [] = [] ∨ grant.sessionId ≠ opts.currentSessionId then false
      else if unbound then
        -- a session's own record needs no unbound grant
        grant.allowUnbound ||
          strictEq (fieldOf opts.record "session_id") (opts.currentSessionId.map Json.str)
      else true
    else if unbound then false
    else resumes opts.resumeAuth opts.record

/-! ## The gate -/

structure GateInput (ν : Type) where
  processStickyDeny : Bool
  currentSessionId : Option (Json ν)
  /-- Nothing stands for a value that is no array. -/
  denyRecords : Option (List (Option (Json ν)))
  resumeAuth : Option (Json ν)
  bypassForSession : Option (Json ν)
  manifestVerifyFailed : Bool
  denyStoreUnavailable : Bool

structure GateVerdict where
  deny : Bool
  reasons : List JsString
  deriving DecidableEq

/-- The grant of this session; a failed manifest makes every grant inert. -/
def GateInput.grant (input : GateInput ν) (sid : JsString) : Grant :=
  let grant := if input.manifestVerifyFailed then noGrant
    else normalizeBypassGrant input.bypassForSession (some sid)
  if grant.active && decide (grant.sessionId ≠ some sid) then
    { grant with active := false, allowUnbound := false }
  else grant

def Grant.overrides (grant : Grant) : Bool := grant.active && grant.allowUnbound

def invalidLabel (record : Option (Json ν)) : JsString :=
  match fieldOf record "session_id" with
  | some (.str s) => if s = [] then js "?" else s
  | _ => js "?"

def GateInput.authorizes (input : GateInput ν) (sid : JsString) (record : Option (Json ν)) : Bool :=
  authorized
    { record := record
      resumeAuth := if input.manifestVerifyFailed then none else input.resumeAuth
      bypassForSession := if (input.grant sid).active then input.bypassForSession
        else some (.bool false)
      manifestVerifyFailed := input.manifestVerifyFailed
      currentSessionId := some sid }

/-- The reasons one record gives. -/
def GateInput.recordReasons (input : GateInput ν) (sid : JsString) (record : Option (Json ν)) :
    List JsString :=
  if !isTruthy record then [js "D3:invalid_record:?"]
  else if !isValidDenyRecord record then
    if (input.grant sid).overrides then [] else [js "D3:invalid_record:" ++ invalidLabel record]
  else if !strictEq (fieldOf record "status") (some (.str (js "open"))) then []
  else if input.authorizes sid record then []
  else [js "D3:unauthorized_open:" ++ (safeSessionId? (fieldOf record "session_id")).getD []]

def isSelf (sid : JsString) (record : Option (Json ν)) : Bool :=
  isTruthy record && strictEq (fieldOf record "session_id") (some (.str sid))

def verdictOf (reasons : List JsString) : GateVerdict := ⟨decide (0 < reasons.length), reasons⟩

def evaluateMutationGate (input : GateInput ν) : GateVerdict :=
  let sticky := if input.processStickyDeny then [js "D1:process_sticky"] else []
  let unavailable := [js "D0:deny_store_unavailable"]
  match safeSessionId? input.currentSessionId with
  | none => ⟨true, sticky ++ [js "D0:invalid_session_id"] ++
      if input.denyStoreUnavailable then unavailable else []⟩
  | some sid =>
    match input.denyRecords with
    | none => ⟨true, sticky ++ [js "D0:invalid_deny_records"]⟩
    | some records =>
      verdictOf (sticky ++
        (if input.denyStoreUnavailable && !(input.grant sid).overrides then unavailable else []) ++
        (if records.any (isSelf sid) && !(input.grant sid).active then [js "D2:denier_session"]
          else []) ++
        records.flatMap (input.recordReasons sid))

/-! ## What a credential grants -/

/-- The grant is one for this session. -/
def ActiveGrant (bypassForSession : Option (Json ν)) (sid : JsString) : Prop :=
  bypassForSession = some (.bool true) ∨
    ∃ grant, bypassForSession = some (.obj grant) ∧
      (nonBlank? (fieldOf (some (.obj grant)) "sessionId") = some sid ∨
        nonBlank? (fieldOf (some (.obj grant)) "sessionId") = none ∧
          isBoundField (fieldOf (some (.obj grant)) "unboundReason") = true)

/-- The grant is one for this session, and an operator gave it a reason. -/
def UnboundGrant (bypassForSession : Option (Json ν)) (sid : JsString) : Prop :=
  ∃ grant, bypassForSession = some (.obj grant) ∧
    isBoundField (fieldOf (some (.obj grant)) "unboundReason") = true ∧
    (nonBlank? (fieldOf (some (.obj grant)) "sessionId")).getD sid = sid

/-- The grant names a session other than this one. -/
def NamesOther (bypassForSession : Option (Json ν)) (sid : JsString) : Prop :=
  ∃ grant other, bypassForSession = some (.obj grant) ∧
    nonBlank? (fieldOf (some (.obj grant)) "sessionId") = some other ∧ other ≠ sid

omit [JsNumber ν] in
theorem UnboundGrant.active {bypass : Option (Json ν)} {sid : JsString}
    (h : UnboundGrant bypass sid) : ActiveGrant bypass sid := by
  obtain ⟨grant, hgrant, hreason, hsid⟩ := h
  refine Or.inr ⟨grant, hgrant, ?_⟩
  cases hname : nonBlank? (fieldOf (some (.obj grant)) "sessionId") with
  | none => exact Or.inr ⟨rfl, hreason⟩
  | some name =>
    rw [hname, Option.getD_some] at hsid
    exact Or.inl (congrArg some hsid)

omit [JsNumber ν] in
theorem NamesOther.not_active {bypass : Option (Json ν)} {sid : JsString}
    (h : NamesOther bypass sid) : ¬ActiveGrant bypass sid := by
  obtain ⟨grant, other, rfl, hname, hne⟩ := h
  intro hactive
  obtain heq | ⟨grant', heq, hsession⟩ := hactive
  · cases heq
  · obtain rfl := Json.obj.inj (Option.some.inj heq)
    rw [hname] at hsession
    obtain heq | ⟨heq, -⟩ := hsession
    · exact hne (Option.some.inj heq)
    · cases heq

theorem trim_ne_nil_of_safe {sid : JsString} (h : isSafeSessionId sid = true) : trim sid ≠ [] := by
  simp only [isSafeSessionId, Bool.and_eq_true, decide_eq_true_eq] at h
  exact h.1.1.1.2

omit [JsNumber ν] in
theorem trim_of_safeSessionId {value : Option (Json ν)} {sid : JsString}
    (h : safeSessionId? value = some sid) : trim sid ≠ [] := by
  unfold safeSessionId? at h
  split at h
  · split_ifs at h with hsafe
    obtain rfl := Option.some.inj h
    exact trim_ne_nil_of_safe hsafe
  · cases h

omit [JsNumber ν] in
theorem trim_of_nonBlank {value : Option (Json ν)} {s : JsString} (h : nonBlank? value = some s) :
    trim s ≠ [] := by
  unfold nonBlank? at h
  split at h
  · split_ifs at h with hblank
    obtain rfl := Option.some.inj h
    exact hblank
  · cases h

omit [JsNumber ν] in
theorem normalizeBypassGrant_obj {sid : JsString} (hsid : trim sid ≠ []) (grant : Members ν) :
    normalizeBypassGrant (some (.obj grant)) (some sid) =
      if isBoundField (fieldOf (some (.obj grant)) "unboundReason") = false ∧
          nonBlank? (fieldOf (some (.obj grant)) "sessionId") = none then noGrant
      else ⟨true, isBoundField (fieldOf (some (.obj grant)) "unboundReason"),
        some ((nonBlank? (fieldOf (some (.obj grant)) "sessionId")).getD sid)⟩ := by
  simp only [normalizeBypassGrant]
  cases hname : nonBlank? (fieldOf (some (.obj grant)) "sessionId") with
  | none => simp [hsid]
  | some name => simp [trim_of_nonBlank hname]

omit [JsNumber ν] in
theorem grant_of_failed {input : GateInput ν} (h : input.manifestVerifyFailed = true)
    (sid : JsString) : input.grant sid = noGrant := by
  simp [GateInput.grant, h, noGrant]

omit [JsNumber ν] in
theorem grant_of_verified {input : GateInput ν} (h : input.manifestVerifyFailed = false)
    (sid : JsString) : input.grant sid =
      if (normalizeBypassGrant input.bypassForSession (some sid)).active = true ∧
          (normalizeBypassGrant input.bypassForSession (some sid)).sessionId ≠ some sid then
        { normalizeBypassGrant input.bypassForSession (some sid) with
          active := false, allowUnbound := false }
      else normalizeBypassGrant input.bypassForSession (some sid) := by
  simp [GateInput.grant, h]

omit [JsNumber ν] in
theorem grant_active_iff {input : GateInput ν} {sid : JsString} (hsid : trim sid ≠ []) :
    (input.grant sid).active = true ↔
      input.manifestVerifyFailed = false ∧ ActiveGrant input.bypassForSession sid := by
  cases hfailed : input.manifestVerifyFailed with
  | true => simp [grant_of_failed hfailed, noGrant]
  | false =>
    rw [grant_of_verified hfailed]
    match hbypass : input.bypassForSession with
    | none => simp [normalizeBypassGrant, noGrant, ActiveGrant]
    | some (.bool true) => simp [normalizeBypassGrant, ActiveGrant]
    | some (.obj grant) =>
      rw [normalizeBypassGrant_obj hsid]
      cases hname : nonBlank? (fieldOf (some (.obj grant)) "sessionId") with
      | none =>
        cases hreason : isBoundField (fieldOf (some (.obj grant)) "unboundReason") <;>
          simp [noGrant, ActiveGrant, hname, hreason]
      | some name =>
        by_cases hsame : name = sid <;> simp [ActiveGrant, hname, hsame]
    | some .null | some (.bool false) | some (.num _) | some (.str _) | some (.arr _) =>
      simp [normalizeBypassGrant, noGrant, ActiveGrant]

omit [JsNumber ν] in
theorem grant_overrides_iff {input : GateInput ν} {sid : JsString} (hsid : trim sid ≠ []) :
    (input.grant sid).overrides = true ↔
      input.manifestVerifyFailed = false ∧ UnboundGrant input.bypassForSession sid := by
  cases hfailed : input.manifestVerifyFailed with
  | true => simp [grant_of_failed hfailed, noGrant, Grant.overrides]
  | false =>
    rw [grant_of_verified hfailed]
    match hbypass : input.bypassForSession with
    | none => simp [normalizeBypassGrant, noGrant, UnboundGrant, Grant.overrides]
    | some (.bool true) => simp [normalizeBypassGrant, UnboundGrant, Grant.overrides]
    | some (.obj grant) =>
      rw [normalizeBypassGrant_obj hsid]
      cases hname : nonBlank? (fieldOf (some (.obj grant)) "sessionId") with
      | none =>
        cases hreason : isBoundField (fieldOf (some (.obj grant)) "unboundReason") <;>
          simp [noGrant, UnboundGrant, Grant.overrides, hname, hreason]
      | some name =>
        by_cases hsame : name = sid <;> simp [UnboundGrant, Grant.overrides, hname, hsame]
    | some .null | some (.bool false) | some (.num _) | some (.str _) | some (.arr _) =>
      simp [normalizeBypassGrant, noGrant, UnboundGrant, Grant.overrides]

/-! ## What authorizes an open record -/

def IsBound (record : Option (Json ν)) : Prop :=
  isBoundField (fieldOf record "ticket_id") = true ∧
    isBoundField (fieldOf record "content_hash") = true

def IsOpen (record : Option (Json ν)) : Prop :=
  isValidDenyRecord record = true ∧
    strictEq (fieldOf record "status") (some (.str (js "open"))) = true

/-- An active grant covers the bound records and the session's own; an unbound one covers every
record; a resume-auth covers the bound record that it names. -/
def Authorized (input : GateInput ν) (sid : JsString) (record : Option (Json ν)) : Prop :=
  input.manifestVerifyFailed = false ∧
    (ActiveGrant input.bypassForSession sid ∧
        (IsBound record ∨ UnboundGrant input.bypassForSession sid ∨ isSelf sid record = true) ∨
      IsBound record ∧ resumes input.resumeAuth record = true)

theorem authorizes_iff {input : GateInput ν} {sid : JsString} (hsid : trim sid ≠ [])
    {record : Option (Json ν)} (hrecord : isTruthy record = true) :
    input.authorizes sid record = true ↔ Authorized input sid record := by
  have hactive : (input.grant sid).active = true ↔ _ := grant_active_iff hsid
  have hunbound : (input.grant sid).overrides = true ↔ _ := grant_overrides_iff hsid
  have hne : sid ≠ [] := by
    rintro rfl
    exact hsid rfl
  cases hfailed : input.manifestVerifyFailed with
  | true => simp [GateInput.authorizes, authorized, hfailed, Authorized]
  | false =>
    simp only [hfailed, true_and] at hactive hunbound
    cases hgrant : (input.grant sid).active with
    | false =>
      have hnot : ¬ActiveGrant input.bypassForSession sid := by simp [← hactive, hgrant]
      simp only [GateInput.authorizes, authorized, hrecord, hfailed, hgrant, Authorized, hnot]
      simp [normalizeBypassGrant, noGrant, IsBound]
    | true =>
      have hyes : ActiveGrant input.bypassForSession sid := hactive.1 hgrant
      have hsame : input.grant sid = normalizeBypassGrant input.bypassForSession (some sid) ∧
          (normalizeBypassGrant input.bypassForSession (some sid)).sessionId = some sid := by
        rw [grant_of_verified hfailed] at hgrant ⊢
        split_ifs at hgrant ⊢ with hother
        simpa [hgrant] using hother
      have hallow : (input.grant sid).allowUnbound = true ↔
          UnboundGrant input.bypassForSession sid := by
        rw [← hunbound, Grant.overrides, hgrant, Bool.true_and]
      rw [hsame.1] at hgrant hallow
      have hself : strictEq (fieldOf record "session_id") (some (Json.str sid)) = true ↔
          isSelf sid record = true := by simp [isSelf, hrecord]
      simp only [GateInput.authorizes, authorized, hrecord, hfailed, hsame.1, hgrant,
        Authorized, hyes]
      by_cases hbound : IsBound record
      · simp [hbound, hne, hgrant, hsame.2, hbound.1, hbound.2]
      · have hbound' : (!isBoundField (fieldOf record "ticket_id") ||
            !isBoundField (fieldOf record "content_hash")) = true := by
          simpa [IsBound, imp_iff_not_or] using hbound
        simp [hbound, hbound', hne, hgrant, hsame.2, hallow, hself]

/-! ## What the gate allows -/

/-- The conditions under which a session may mutate; `repairable` says which malformed records an
unbound grant lifts. -/
structure Allows (repairable : Option (Json ν) → Prop) (input : GateInput ν) (sid : JsString)
    (records : List (Option (Json ν))) : Prop where
  sticky : input.processStickyDeny = false
  store : input.denyStoreUnavailable = true →
    input.manifestVerifyFailed = false ∧ UnboundGrant input.bypassForSession sid
  self : ∀ r ∈ records, isSelf sid r = true →
    input.manifestVerifyFailed = false ∧ ActiveGrant input.bypassForSession sid
  authorized : ∀ r ∈ records, IsOpen r → Authorized input sid r
  malformed : ∀ r ∈ records, isValidDenyRecord r = false → repairable r ∧
    input.manifestVerifyFailed = false ∧ UnboundGrant input.bypassForSession sid

theorem isTruthy_of_valid {record : Option (Json ν)} (h : isValidDenyRecord record = true) :
    isTruthy record = true := by
  simp only [isValidDenyRecord, Bool.and_eq_true] at h
  exact h.1.1

theorem recordReasons_nil_iff {input : GateInput ν} {sid : JsString} (hsid : trim sid ≠ [])
    (record : Option (Json ν)) :
    input.recordReasons sid record = [] ↔
      (IsOpen record → Authorized input sid record) ∧
        (isValidDenyRecord record = false → isTruthy record = true ∧
          input.manifestVerifyFailed = false ∧ UnboundGrant input.bypassForSession sid) := by
  unfold GateInput.recordReasons
  cases htruthy : isTruthy record with
  | false =>
    have hinvalid : isValidDenyRecord record = false := by simp [isValidDenyRecord, htruthy]
    simp [hinvalid]
  | true =>
    rw [← authorizes_iff hsid htruthy, ← grant_overrides_iff hsid]
    cases hvalid : isValidDenyRecord record with
    | false => simp [IsOpen, hvalid]
    | true =>
      cases hopen : strictEq (fieldOf record "status") (some (.str (js "open"))) <;>
        simp [IsOpen, hvalid, hopen]

/-- The gate allows exactly under these conditions; a record that is falsy is never repairable. -/
theorem evaluateMutationGate_allows_iff (input : GateInput ν) :
    (evaluateMutationGate input).deny = false ↔
      ∃ sid records, safeSessionId? input.currentSessionId = some sid ∧
        input.denyRecords = some records ∧
        Allows (fun r => isTruthy r = true) input sid records := by
  unfold evaluateMutationGate
  cases hsafe : safeSessionId? input.currentSessionId with
  | none => simp
  | some sid =>
    cases hrecords : input.denyRecords with
    | none => simp
    | some records =>
      have hsid := trim_of_safeSessionId hsafe
      have hempty : (verdictOf ((if input.processStickyDeny then [js "D1:process_sticky"] else []) ++
          (if input.denyStoreUnavailable && !(input.grant sid).overrides then
            [js "D0:deny_store_unavailable"] else []) ++
          (if records.any (isSelf sid) && !(input.grant sid).active then [js "D2:denier_session"]
            else []) ++ records.flatMap (input.recordReasons sid))).deny = false ↔
          input.processStickyDeny = false ∧
          (input.denyStoreUnavailable = true → (input.grant sid).overrides = true) ∧
          (records.any (isSelf sid) = true → (input.grant sid).active = true) ∧
          ∀ r ∈ records, input.recordReasons sid r = [] := by
        simp only [verdictOf, decide_eq_false_iff_not, not_lt, Nat.le_zero, List.length_eq_zero_iff,
          List.append_eq_nil_iff, List.flatMap_eq_nil_iff, and_assoc]
        cases input.processStickyDeny <;> cases input.denyStoreUnavailable <;>
          cases records.any (isSelf sid) <;> simp
      simp only [hempty, grant_overrides_iff hsid, grant_active_iff hsid,
        recordReasons_nil_iff hsid, Option.some.injEq, exists_and_left, exists_eq_left']
      constructor
      · rintro ⟨hsticky, hstore, hself, hrec⟩
        exact ⟨hsticky, hstore, fun r hr h => hself (List.any_eq_true.2 ⟨r, hr, h⟩),
          fun r hr => (hrec r hr).1, fun r hr => (hrec r hr).2⟩
      · rintro ⟨hsticky, hstore, hself, hopen, hmalformed⟩
        refine ⟨hsticky, hstore, ?_, fun r hr => ⟨hopen r hr, hmalformed r hr⟩⟩
        intro h
        obtain ⟨r, hr, h⟩ := List.any_eq_true.1 h
        exact hself r hr h

/-! ## Hardening an input -/

/-- One more record, one more failure flag, or one credential less. -/
inductive Hardens (input : GateInput ν) : GateInput ν → Prop where
  | record (before after : List (Option (Json ν))) (r : Option (Json ν))
      (h : input.denyRecords = some (before ++ after)) :
      Hardens input { input with denyRecords := some (before ++ r :: after) }
  | manifest : Hardens input { input with manifestVerifyFailed := true }
  | store : Hardens input { input with denyStoreUnavailable := true }
  | sticky : Hardens input { input with processStickyDeny := true }
  | resumeAuth : Hardens input { input with resumeAuth := none }
  | grant : Hardens input { input with bypassForSession := none }

omit [JsNumber ν] in
theorem not_activeGrant_none (sid : JsString) : ¬ActiveGrant (none : Option (Json ν)) sid := by
  simp [ActiveGrant]

/-- What is allowed stays allowed when flags are cleared, credentials added and records removed. -/
theorem Allows.weaken {repairable : Option (Json ν) → Prop} {input harder : GateInput ν}
    {sid : JsString} {records more : List (Option (Json ν))} (h : Allows repairable harder sid more)
    (hrecords : records ⊆ more)
    (hsticky : harder.processStickyDeny = false → input.processStickyDeny = false)
    (hstore : input.denyStoreUnavailable = true → harder.denyStoreUnavailable = true)
    (hmanifest : harder.manifestVerifyFailed = false → input.manifestVerifyFailed = false)
    (hgrant : harder.bypassForSession = input.bypassForSession ∨ harder.bypassForSession = none)
    (hresume : ∀ r, resumes harder.resumeAuth r = true → resumes input.resumeAuth r = true) :
    Allows repairable input sid records := by
  have hactive : ActiveGrant harder.bypassForSession sid →
      ActiveGrant input.bypassForSession sid := by
    intro hactive
    obtain heq | hnone := hgrant
    · rwa [heq] at hactive
    · rw [hnone] at hactive
      exact absurd hactive (not_activeGrant_none sid)
  have hunbound : UnboundGrant harder.bypassForSession sid →
      UnboundGrant input.bypassForSession sid := by
    intro hunbound
    obtain heq | hnone := hgrant
    · rwa [heq] at hunbound
    · rw [hnone] at hunbound
      exact absurd hunbound.active (not_activeGrant_none sid)
  constructor
  · exact hsticky h.sticky
  · intro hi
    obtain ⟨hfailed, hover⟩ := h.store (hstore hi)
    exact ⟨hmanifest hfailed, hunbound hover⟩
  · intro r hr hself
    obtain ⟨hfailed, hon⟩ := h.self r (hrecords hr) hself
    exact ⟨hmanifest hfailed, hactive hon⟩
  · intro r hr hopen
    obtain ⟨hfailed, hon | hon⟩ := h.authorized r (hrecords hr) hopen
    · exact ⟨hmanifest hfailed, Or.inl ⟨hactive hon.1, hon.2.imp id (Or.imp hunbound id)⟩⟩
    · exact ⟨hmanifest hfailed, Or.inr ⟨hon.1, hresume r hon.2⟩⟩
  · intro r hr hinvalid
    obtain ⟨hrep, hfailed, hover⟩ := h.malformed r (hrecords hr) hinvalid
    exact ⟨hrep, hmanifest hfailed, hunbound hover⟩

theorem allows_of_hardens {input harder : GateInput ν} (h : Hardens input harder)
    (hallow : (evaluateMutationGate harder).deny = false) :
    (evaluateMutationGate input).deny = false := by
  rw [evaluateMutationGate_allows_iff] at hallow ⊢
  obtain ⟨sid, more, hsafe, hmore, hallows⟩ := hallow
  have hnoAuth : ∀ r, resumes (none : Option (Json ν)) r = true →
      resumes input.resumeAuth r = true := by
    intro r hr
    simp [resumes, fieldOf, strictEq] at hr
  cases h with
  | record before after r hlist =>
    obtain rfl := Option.some.inj hmore
    have hsub : before ++ after ⊆ before ++ r :: after := by
      apply List.append_subset.2
      exact ⟨List.subset_append_left _ _,
        List.Subset.trans (List.subset_cons_self r after) (List.subset_append_right _ _)⟩
    exact ⟨sid, before ++ after, hsafe, hlist, hallows.weaken hsub id id id (Or.inl rfl) fun _ => id⟩
  | manifest =>
    have hfailed : (true : Bool) = false → input.manifestVerifyFailed = false := nofun
    exact ⟨sid, more, hsafe, hmore, hallows.weaken (List.Subset.refl _) id id hfailed (Or.inl rfl)
      fun _ => id⟩
  | store =>
    exact ⟨sid, more, hsafe, hmore, hallows.weaken (List.Subset.refl _) id (fun _ => rfl) id
      (Or.inl rfl) fun _ => id⟩
  | sticky =>
    have hsticky : (true : Bool) = false → input.processStickyDeny = false := nofun
    exact ⟨sid, more, hsafe, hmore, hallows.weaken (List.Subset.refl _) hsticky id id (Or.inl rfl)
      fun _ => id⟩
  | resumeAuth =>
    exact ⟨sid, more, hsafe, hmore, hallows.weaken (List.Subset.refl _) id id id (Or.inl rfl)
      hnoAuth⟩
  | grant =>
    exact ⟨sid, more, hsafe, hmore, hallows.weaken (List.Subset.refl _) id id id (Or.inr rfl)
      fun _ => id⟩

/-! ## Credentials are not transferable -/

/-- The gate reads a grant through what it lifts, and the other credential through the reasons of
each record. -/
theorem evaluateMutationGate_congr {input other : GateInput ν}
    (hsticky : other.processStickyDeny = input.processStickyDeny)
    (hsession : other.currentSessionId = input.currentSessionId)
    (hrecords : other.denyRecords = input.denyRecords)
    (hstore : other.denyStoreUnavailable = input.denyStoreUnavailable)
    (hsame : ∀ sid records, safeSessionId? input.currentSessionId = some sid →
      input.denyRecords = some records →
      (other.grant sid).active = (input.grant sid).active ∧
      (other.grant sid).overrides = (input.grant sid).overrides ∧
      ∀ r ∈ records, other.recordReasons sid r = input.recordReasons sid r) :
    evaluateMutationGate other = evaluateMutationGate input := by
  unfold evaluateMutationGate
  rw [hsticky, hsession, hrecords, hstore]
  cases hsafe : safeSessionId? input.currentSessionId with
  | none => rfl
  | some sid =>
    cases hlist : input.denyRecords with
    | none => rfl
    | some records =>
      obtain ⟨hactive, hover, hreasons⟩ := hsame sid records hsafe hlist
      have hflat : records.flatMap (other.recordReasons sid) =
          records.flatMap (input.recordReasons sid) := by
        rw [List.flatMap_def, List.flatMap_def, List.map_congr_left hreasons]
      simp only [hactive, hover, hflat]

/-- The resume-auth differs from the record in what binds it. -/
def BoundElsewhere (resumeAuth record : Option (Json ν)) : Prop :=
  strictEq (fieldOf resumeAuth "deny_session_id") (fieldOf record "session_id") = false ∨
    strictEq (fieldOf resumeAuth "ticket_id") (fieldOf record "ticket_id") = false ∨
    strictEq (fieldOf resumeAuth "content_hash") (fieldOf record "content_hash") = false

theorem resumes_of_boundElsewhere {resumeAuth record : Option (Json ν)}
    (h : BoundElsewhere resumeAuth record) : resumes resumeAuth record = false := by
  obtain h | h | h := h <;> simp [resumes, h]

/-- A grant that is not this session's lifts nothing. -/
theorem evaluateMutationGate_of_namesOther {input : GateInput ν} {sid : JsString}
    (hsafe : safeSessionId? input.currentSessionId = some sid)
    (hother : NamesOther input.bypassForSession sid) :
    evaluateMutationGate { input with bypassForSession := none } = evaluateMutationGate input := by
  have hsid := trim_of_safeSessionId hsafe
  refine evaluateMutationGate_congr (by rfl) (by rfl) (by rfl) (by rfl) ?_
  intro sid' records hsafe' _
  obtain rfl := Option.some.inj (hsafe.symm.trans hsafe')
  have hnone : ∀ i : GateInput ν, ¬ActiveGrant i.bypassForSession sid →
      (i.grant sid).active = false ∧ (i.grant sid).overrides = false := by
    intro i hi
    have h1 : (i.grant sid).active = false :=
      Bool.eq_false_iff.2 fun h => hi ((grant_active_iff hsid).1 h).2
    exact ⟨h1, by simp [Grant.overrides, h1]⟩
  have hthis := hnone input hother.not_active
  have hthat := hnone { input with bypassForSession := none } (not_activeGrant_none sid)
  refine ⟨hthat.1.trans hthis.1.symm, hthat.2.trans hthis.2.symm, ?_⟩
  intro r _
  simp only [GateInput.recordReasons, GateInput.authorizes, hthis, hthat, Bool.false_eq_true,
    if_false]

theorem recordReasons_of_boundElsewhere {input : GateInput ν} {sid : JsString}
    (hsid : trim sid ≠ []) {record : Option (Json ν)}
    (h : IsOpen record → BoundElsewhere input.resumeAuth record) :
    ({ input with resumeAuth := none } : GateInput ν).recordReasons sid record =
      input.recordReasons sid record := by
  have hgrant : ({ input with resumeAuth := none } : GateInput ν).grant sid = input.grant sid := rfl
  unfold GateInput.recordReasons
  rw [hgrant]
  cases htruthy : isTruthy record with
  | false => rfl
  | true =>
    by_cases hopen : IsOpen record
    · have hsame : ({ input with resumeAuth := none } : GateInput ν).authorizes sid record =
          input.authorizes sid record := by
        apply Bool.eq_iff_iff.2
        rw [authorizes_iff hsid htruthy, authorizes_iff hsid htruthy]
        have hnone : resumes (none : Option (Json ν)) record = false := by
          simp [resumes, fieldOf, strictEq]
        simp [Authorized, resumes_of_boundElsewhere (h hopen), hnone]
      rw [hsame]
    · cases hvalid : isValidDenyRecord record with
      | false => rfl
      | true =>
        have hstatus : strictEq (fieldOf record "status") (some (.str (js "open"))) = false :=
          Bool.eq_false_iff.2 fun hs => hopen ⟨hvalid, hs⟩
        simp [hstatus]

/-- The gate never allows more when its input is hardened; a grant of another session and a
resume-auth of another record change nothing; and it allows exactly under `Allows`, where no grant
lifts a record that is falsy. -/
theorem evaluateMutationGate_law (input : GateInput ν) :
    (∀ harder, Hardens input harder → (evaluateMutationGate input).deny = true →
      (evaluateMutationGate harder).deny = true) ∧
    (∀ sid, safeSessionId? input.currentSessionId = some sid →
      (NamesOther input.bypassForSession sid →
        evaluateMutationGate { input with bypassForSession := none } = evaluateMutationGate input) ∧
      (∀ record, IsOpen record → BoundElsewhere input.resumeAuth record →
        ({ input with resumeAuth := none } : GateInput ν).recordReasons sid record =
          input.recordReasons sid record) ∧
      (∀ records, input.denyRecords = some records →
        (∀ r ∈ records, IsOpen r → BoundElsewhere input.resumeAuth r) →
        evaluateMutationGate { input with resumeAuth := none } = evaluateMutationGate input)) ∧
    ((evaluateMutationGate input).deny = false ↔
      ∃ sid records, safeSessionId? input.currentSessionId = some sid ∧
        input.denyRecords = some records ∧
        Allows (fun r => isTruthy r = true) input sid records) := by
  refine ⟨?_, ?_, evaluateMutationGate_allows_iff input⟩
  · intro harder hharder hdeny
    by_contra hallow
    have hfalse := allows_of_hardens hharder (Bool.eq_false_iff.2 hallow)
    rw [hfalse] at hdeny
    cases hdeny
  · intro sid hsafe
    have hsid := trim_of_safeSessionId hsafe
    refine ⟨evaluateMutationGate_of_namesOther hsafe, ?_, ?_⟩
    · intro record _ hbound
      exact recordReasons_of_boundElsewhere hsid fun _ => hbound
    · intro records hlist hbound
      refine evaluateMutationGate_congr (by rfl) (by rfl) (by rfl) (by rfl) ?_
      intro sid' records' hsafe' hlist'
      obtain rfl := Option.some.inj (hsafe.symm.trans hsafe')
      obtain rfl := Option.some.inj (hlist.symm.trans hlist')
      exact ⟨rfl, rfl, fun r hr => recordReasons_of_boundElsewhere hsid (hbound r hr)⟩

/-- An open deny, a resume-auth for another one and a grant for another session. -/
def strangersOnly : GateInput Int where
  processStickyDeny := false
  currentSessionId := some (.str (js "fresh"))
  denyRecords := some [some (.obj [(js "session_id", .str (js "d1")), (js "ticket_id", .str (js "T1")),
    (js "content_hash", .str (js "h")), (js "status", .str (js "open"))])]
  resumeAuth := some (.obj [(js "ticket_id", .str (js "T1")), (js "content_hash", .str (js "h")),
    (js "deny_session_id", .str (js "d2")), (js "verified", .bool true)])
  bypassForSession := some (.obj [(js "sessionId", .str (js "other"))])
  manifestVerifyFailed := false
  denyStoreUnavailable := false

theorem evaluateMutationGate_law_strangersOnly :
    (evaluateMutationGate { strangersOnly with manifestVerifyFailed := true }).deny = true ∧
    evaluateMutationGate { strangersOnly with bypassForSession := none } =
      evaluateMutationGate strangersOnly ∧
    evaluateMutationGate { strangersOnly with resumeAuth := none } =
      evaluateMutationGate strangersOnly := by
  have hsafe : safeSessionId? strangersOnly.currentSessionId = some (js "fresh") := by
    decide +kernel
  have hother : NamesOther strangersOnly.bypassForSession (js "fresh") :=
    ⟨_, js "other", rfl, by decide +kernel, by decide⟩
  obtain ⟨hharder, hstrange, -⟩ := evaluateMutationGate_law strangersOnly
  refine ⟨hharder _ .manifest (by decide +kernel), (hstrange _ hsafe).1 hother,
    (hstrange _ hsafe).2.2 _ rfl ?_⟩
  intro r hr _
  obtain rfl := List.mem_singleton.1 hr
  exact Or.inl (by decide +kernel)

/-- An operator's grant, and a list whose only record is no value. -/
def nullRecord : GateInput Int where
  processStickyDeny := false
  currentSessionId := some (.str (js "op"))
  denyRecords := some [some .null]
  resumeAuth := none
  bypassForSession := some (.obj [(js "unboundReason", .str (js "host-repair"))])
  manifestVerifyFailed := false
  denyStoreUnavailable := false

theorem safeSessionId_op : safeSessionId? (nullRecord.currentSessionId) = some (js "op") := by
  decide +kernel

theorem unboundGrant_nullRecord : UnboundGrant nullRecord.bypassForSession (js "op") :=
  ⟨[(js "unboundReason", .str (js "host-repair"))], rfl, by decide +kernel, by decide +kernel⟩

/-- An unbound grant does not lift a record that is null. -/
theorem null_record_denied : ¬∀ input : GateInput Int, (evaluateMutationGate input).deny = false ↔
    ∃ sid records, safeSessionId? input.currentSessionId = some sid ∧
      input.denyRecords = some records ∧ Allows (fun _ => True) input sid records := by
  intro h
  have hallow := (h nullRecord).2 ⟨js "op", [some .null], safeSessionId_op, rfl, ?_⟩
  · revert hallow
    decide +kernel
  · have hgrant := unboundGrant_nullRecord
    have hinvalid : ¬IsOpen (some (Json.null : Json Int)) := by
      intro hopen
      cases hopen.1
    constructor
    · rfl
    · exact nofun
    · intro r hr hself
      obtain rfl := List.mem_singleton.1 hr
      cases hself
    · intro r hr hopen
      obtain rfl := List.mem_singleton.1 hr
      exact absurd hopen hinvalid
    · intro r _ _
      exact ⟨trivial, rfl, hgrant⟩

end Adlc.ContextHandoff
