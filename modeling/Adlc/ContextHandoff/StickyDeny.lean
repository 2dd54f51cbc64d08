import Adlc.Framework.IntNumber
import Adlc.ContextHandoff.DenyMarker

namespace Adlc.ContextHandoff

open Adlc.Framework Adlc.Tickets

variable {ν : Type} [JsNumber ν]

/-! ## What the sentinel lists -/

theorem stringify_obj_braces (ms : Members ν) :
    (∃ s, stringify (.obj ms) = 123 :: s) ∧ ∃ s, stringify (.obj ms) = s ++ [125] := by
  unfold stringify
  cases ms with
  | nil =>
    rw [Json.write]
    exact ⟨⟨[125], by decide⟩, ⟨[123], by decide⟩⟩
  | cons p ms =>
    obtain ⟨k, v⟩ := p
    rw [Json.write]
    exact ⟨⟨_, rfl⟩, ⟨_, rfl⟩⟩

theorem trim_stringify_line (ms : Members ν) :
    trim (stringify (.obj ms) ++ [10]) = stringify (.obj ms) := by
  obtain ⟨⟨s, hs⟩, t, ht⟩ := stringify_obj_braces ms
  have hdrop : (stringify (.obj ms) ++ [10]).dropWhile isTrimmed = stringify (.obj ms) ++ [10] := by
    rw [hs, List.cons_append, List.dropWhile_cons_of_neg (by decide)]
  rw [trim, hdrop, List.rdropWhile_concat_pos _ _ _ (by decide), ht,
    List.rdropWhile_concat_neg _ _ _ (by decide)]

omit [JsNumber ν] in
theorem safe_of_mem_sessionsOf {parsed : Json ν} {s : JsString} (h : s ∈ sessionsOf parsed) :
    isSafeSessionId s = true := by
  unfold sessionsOf at h
  split at h
  · obtain ⟨x, -, hx⟩ := List.mem_filterMap.1 h
    unfold safeSessionId? at hx
    split at hx
    · split_ifs at hx with hsafe
      obtain rfl := Option.some.inj hx
      exact hsafe
    · cases hx
  · cases h

theorem safe_of_mem_read {raw : JsString} {fromLegacy : Bool} {s : JsString}
    (h : s ∈ (readSentinelText ν raw fromLegacy).sessions) : isSafeSessionId s = true := by
  unfold readSentinelText at h
  split_ifs at h
  · cases h
  · split at h
    · exact safe_of_mem_sessionsOf h
    · cases h

/-- The sentinel that is written lists what was to be listed. -/
theorem readSentinelText_body {next : List JsString} (h : ∀ s ∈ next, isSafeSessionId s = true) :
    readSentinelText ν (sentinelBody ν next) false = ⟨true, next, false⟩ := by
  have hjson : (Json.obj [(js "schema", .num (JsNumber.ofNat 1)),
      (js "sessions", .arr (next.map Json.str))] : Json ν).IsJson := by
    have hkeys : Members.keys [(js "schema", .num (JsNumber.ofNat 1)),
        (js "sessions", (.arr (next.map Json.str) : Json ν))] = [js "schema", js "sessions"] := rfl
    refine ⟨⟨by rw [hkeys]; decide, by rw [hkeys]; decide⟩, ?_⟩
    rw [membersIsJson_iff]
    intro p hp
    simp only [List.mem_cons, List.not_mem_nil, or_false] at hp
    obtain rfl | rfl := hp
    · exact JsNumber.finite_of_integer _ (JsNumber.integer_ofNat 1 (by norm_num))
    · rw [Json.IsJson, elemsIsJson_iff]
      intro x hx
      obtain ⟨s, -, rfl⟩ := List.mem_map.1 hx
      trivial
  have hsessions : sessionsOf (Json.obj [(js "schema", .num (JsNumber.ofNat 1)),
      (js "sessions", .arr (next.map Json.str))] : Json ν) = next := by
    have hget : (Json.obj [(js "schema", .num (JsNumber.ofNat 1)),
        (js "sessions", .arr (next.map Json.str))] : Json ν).get? (js "sessions") =
        some (.arr (next.map Json.str)) := rfl
    rw [sessionsOf, hget]
    simp only [List.filterMap_map]
    have hid : ∀ s ∈ next, ((fun x : Json ν => safeSessionId? (some x)) ∘ Json.str) s = some s := by
      intro s hs
      simp [safeSessionId?, h s hs]
    rw [List.filterMap_congr hid, List.filterMap_some]
  obtain ⟨s, hs⟩ := (stringify_obj_braces (ν := ν) [(js "schema", .num (JsNumber.ofNat 1)),
      (js "sessions", .arr (next.map Json.str))]).1
  have hne : ¬(trim (sentinelBody ν next) = js "1" ∨ trim (sentinelBody ν next) = []) := by
    rw [sentinelBody, trim_stringify_line, hs]
    have hone : js "1" = [49] := by decide
    rw [hone]
    simp
  rw [readSentinelText, if_neg hne, sentinelBody, trim_stringify_line, parseJson_stringify hjson]
  simp only [hsessions]

theorem mem_nextSessions {cur : SentinelInfo} {sessionId : Option JsString} {s : JsString} :
    s ∈ nextSessions cur sessionId ↔
      s ∈ cur.sessions ∨ sessionId = some s ∧ isSafeSessionId s = true := by
  simp [nextSessions]

/-- Where the members stay, the session was among them. -/
theorem mem_of_keeps {cur : SentinelInfo} {s : JsString} (hsafe : isSafeSessionId s = true)
    (h : cur.keeps (nextSessions cur (some s)) = true) : s ∈ cur.sessions := by
  simp only [SentinelInfo.keeps, Bool.and_eq_true, decide_eq_true_eq] at h
  have hmem : s ∈ nextSessions cur (some s) := mem_nextSessions.2 (Or.inr ⟨rfl, hsafe⟩)
  rw [h.2] at hmem
  exact List.mem_mergeSort.1 hmem

/-! ## What every step keeps -/

/-- The sessions returned before the call are returned still. -/
def Load.Late (store : DenyStore) (load : Load ν) : Prop := load.before ⊆ store.returned

/-- The call has read that they are registered. -/
def Load.Seen (load : Load ν) : Prop := load.before ⊆ load.registered

def AfterEnsure.Good (store : DenyStore) (sessionId : Option JsString) : AfterEnsure ν → Prop
  | .marker sid _ => sessionId = some sid ∧ isSafeSessionId sid = true
  | .migrate load => load.Late store
  | .heal load _ => load.Late store

def AfterRead.Good (store : DenyStore) : AfterRead ν → Prop
  | .ensure sessionId k => k.Good store sessionId
  | .first load | .registered load | .healed load => load.Late store

/-- The call began before any session was returned. -/
def AfterRead.Early : AfterRead ν → Prop
  | .ensure _ _ => True
  | .first load | .registered load | .healed load => load.before = []

def DenyPoint.Good (store : DenyStore) : DenyPoint ν → Prop
  | .idle => True
  | .markerExists _ opts | .markerRead _ opts | .quarantineExists opts _
  | .quarantineRename opts _ | .markerMkdir opts | .markerWrite opts | .markerRename opts =>
    isSafeSessionId opts.sessionId = true
  | .sentinelExists k => k.Good store
  | .sentinelRead k => k.Good store ∧ store.sentinel ≠ none
  | .legacyExists k | .legacyRead k => k.Good store ∧ k.Early
  | .ensureMkdir sessionId k => k.Good store sessionId
  | .ensureExists cur sessionId k =>
    k.Good store sessionId ∧ cur.sessions ⊆ store.registered ν ∧
      cur.keeps (nextSessions cur sessionId) = true
  | .ensureWrite cur sessionId k | .ensureRename cur sessionId k =>
    k.Good store sessionId ∧ ∀ s ∈ cur.sessions, isSafeSessionId s = true
  | .deniesExists load | .deniesList load | .entryExists load _ _ | .entryRead load _ _
  | .healExists load => load.Late store ∧ load.Seen

/-- Every session returned is registered; and each session of the run stands well. -/
structure Session.Good (store : DenyStore) (session : Session ν) : Prop where
  point : session.point.Good store
  loads : ∀ r ∈ session.loads, r.1 ⊆ r.2.registeredSessions

variable (ν) in
/-- Neither the sessions returned nor the registered ones become fewer. -/
structure StoreLe (store store' : DenyStore) : Prop where
  returned : store.returned ⊆ store'.returned
  registered : store.registered ν ⊆ store'.registered ν
  sentinel : store.sentinel ≠ none → store'.sentinel ≠ none

variable {store store' : DenyStore}

theorem StoreLe.of_sentinel (hs : store'.sentinel = store.sentinel)
    (hr : store.returned ⊆ store'.returned) : StoreLe ν store store' := by
  refine ⟨hr, ?_, ?_⟩
  · rw [DenyStore.registered, DenyStore.registered, hs]
    exact List.Subset.refl _
  · rw [hs]
    exact id

theorem Load.Late.mono {load : Load ν} (h : load.Late store) (hle : StoreLe ν store store') :
    load.Late store' := List.Subset.trans h hle.returned

theorem AfterEnsure.Good.mono {sessionId : Option JsString} {k : AfterEnsure ν}
    (h : k.Good store sessionId) (hle : StoreLe ν store store') : k.Good store' sessionId := by
  cases k with
  | marker => exact h
  | migrate load => exact Load.Late.mono h hle
  | heal load rest => exact Load.Late.mono h hle

theorem AfterRead.Good.mono {k : AfterRead ν} (h : k.Good store) (hle : StoreLe ν store store') :
    k.Good store' := by
  cases k with
  | ensure sessionId k => exact AfterEnsure.Good.mono h hle
  | first load => exact Load.Late.mono h hle
  | registered load => exact Load.Late.mono h hle
  | healed load => exact Load.Late.mono h hle

theorem DenyPoint.Good.mono {point : DenyPoint ν} (h : point.Good store)
    (hle : StoreLe ν store store') : point.Good store' := by
  cases point with
  | idle => trivial
  | markerExists | markerRead | quarantineExists | quarantineRename | markerMkdir | markerWrite
  | markerRename => exact h
  | sentinelExists k => exact AfterRead.Good.mono h hle
  | sentinelRead k => exact ⟨AfterRead.Good.mono h.1 hle, hle.sentinel h.2⟩
  | legacyExists k | legacyRead k => exact ⟨AfterRead.Good.mono h.1 hle, h.2⟩
  | ensureMkdir sessionId k => exact AfterEnsure.Good.mono h hle
  | ensureExists cur sessionId k =>
    exact ⟨AfterEnsure.Good.mono h.1 hle, List.Subset.trans h.2.1 hle.registered, h.2.2⟩
  | ensureWrite cur sessionId k | ensureRename cur sessionId k =>
    exact ⟨AfterEnsure.Good.mono h.1 hle, h.2⟩
  | deniesExists load | deniesList load | entryExists load | entryRead load | healExists load =>
    exact ⟨Load.Late.mono h.1 hle, h.2⟩

variable {session : Session ν}

theorem Session.Good.goto (h : session.Good store) {point : DenyPoint ν} (hp : point.Good store) :
    (session.goto point).Good store := ⟨hp, h.loads⟩

theorem Session.Good.returns (h : session.Good store) (ok : Bool) (reason : JsString) :
    (session.returns ok reason).Good store := ⟨trivial, h.loads⟩

theorem Session.Good.loaded (h : session.Good store) {before : List JsString}
    {result : LoadResult ν} (hr : before ⊆ result.registeredSessions) :
    (session.loaded before result).Good store := by
  refine ⟨trivial, ?_⟩
  intro r hmem
  obtain rfl | hmem := List.mem_cons.1 hmem
  · exact hr
  · exact h.loads r hmem

theorem Load.conclude_registered (load : Load ν) :
    load.conclude.registeredSessions = load.registered := by
  unfold Load.conclude
  split_ifs <;> rfl

theorem afterMarker_good (h : session.Good store) {written : Bool} {opts : MarkerOpts ν}
    (hsafe : isSafeSessionId opts.sessionId = true) (check : Except MarkerFault (Json ν)) :
    (afterMarker session written opts check).Good store := by
  cases check with
  | ok record => exact h.goto ⟨rfl, hsafe⟩
  | error fault =>
    cases written with
    | true => exact h.returns _ _
    | false =>
      cases fault with
      | unreadableMarker | sessionIdMismatch | invalidStatus => exact h.returns _ _
      | corruptJson | invalidShape | missingMarker => exact h.goto hsafe

theorem startHeal_good (h : session.Good store) {load : Load ν} (hlate : load.Late store)
    (hseen : load.Seen) : (startHeal session load).Good store := by
  unfold startHeal
  split
  · exact h.loaded (load.conclude_registered ▸ hseen)
  · exact h.goto hlate

theorem nextEntry_good (h : session.Good store) {load : Load ν} (hlate : load.Late store)
    (hseen : load.Seen) (names : List JsString) : (nextEntry session load names).Good store := by
  cases names with
  | cons sid rest => exact h.goto ⟨hlate, hseen⟩
  | nil =>
    rw [nextEntry]
    split_ifs
    · exact h.loaded (load.conclude_registered ▸ hseen)
    · exact startHeal_good h hlate hseen
    · exact h.goto ⟨hlate, hseen⟩

/-- What is read before the code goes on: safe ids, all of them registered unless they come from the
legacy sentinel, and at least those returned before the call. -/
theorem afterRead_good (h : session.Good store) {info : SentinelInfo} {k : AfterRead ν}
    (hk : k.Good store) (hsafe : ∀ s ∈ info.sessions, isSafeSessionId s = true)
    (hregistered : info.legacy = false → info.sessions ⊆ store.registered ν)
    (hread : ∀ load, k = .registered load ∨ k = .healed load → load.before ⊆ info.sessions) :
    (afterRead session info k).Good store := by
  cases k with
  | ensure sessionId k =>
    rw [afterRead]
    split_ifs with hkeeps
    · have hnot : info.legacy = false := by
        simp only [SentinelInfo.keeps, Bool.and_eq_true, Bool.not_eq_true'] at hkeeps
        exact hkeeps.1.1.2
      exact h.goto ⟨hk, hregistered hnot, hkeeps⟩
    · exact h.goto ⟨hk, hsafe⟩
  | first load =>
    rw [afterRead]
    split_ifs
    · exact h.goto hk
    · exact h.goto hk
  | registered load => exact h.goto ⟨hk, hread load (Or.inl rfl)⟩
  | healed load =>
    apply h.loaded
    rw [Load.conclude_registered]
    exact hread load (Or.inr rfl)

/-- A session that is returned ok is registered. -/
theorem afterEnsure_good (h : session.Good store) (hall : store.returned ⊆ store.registered ν)
    {sessionId : Option JsString} {k : AfterEnsure ν} (hk : k.Good store sessionId) {ok : Bool}
    (hok : ok = true → ∀ s, sessionId = some s → isSafeSessionId s = true →
      s ∈ store.registered ν) {r : DenyStore × Session ν}
    (hr : afterEnsure store session ok k = r) :
    StoreLe ν store r.1 ∧ r.1.returned ⊆ r.1.registered ν ∧ r.2.Good r.1 := by
  have hsame : StoreLe ν store store := StoreLe.of_sentinel rfl (List.Subset.refl _)
  subst hr
  cases k with
  | marker sid reason =>
    cases ok with
    | false => exact ⟨hsame, hall, h.returns _ _⟩
    | true =>
      refine ⟨StoreLe.of_sentinel rfl (List.subset_cons_self _ _), ?_, trivial, h.loads⟩
      intro s hs
      obtain rfl | hs := List.mem_cons.1 hs
      · exact hok rfl s hk.1 hk.2
      · exact hall hs
  | migrate load => exact ⟨hsame, hall, h.goto hk⟩
  | heal load rest =>
    cases rest with
    | nil => exact ⟨hsame, hall, h.goto hk⟩
    | cons id rest => exact ⟨hsame, hall, h.goto hk⟩

theorem Session.Good.mono (h : session.Good store) (hle : StoreLe ν store store') :
    session.Good store' := ⟨h.point.mono hle, h.loads⟩

/-- A sentinel is renamed into place only when every session that the one before it lists was read
by this call, or is its own. -/
def KeepsRegistrations {ι : Type} (c : Config ι DenyStore (Session ν)) (p : ι)
    (event : DenyEvent ν) : Prop :=
  match (c.loc p).point, event with
  | .ensureRename cur sessionId _, .works =>
    ∀ s ∈ c.shared.registered ν, s ∈ cur.sessions ∨ sessionId = some s
  | _, _ => True

variable (ν) in
structure Kept (store : DenyStore) (r : DenyStore × Session ν) : Prop where
  le : StoreLe ν store r.1
  all : r.1.returned ⊆ r.1.registered ν
  session : r.2.Good r.1

theorem Kept.same (hall : store.returned ⊆ store.registered ν) (h : session.Good store) :
    Kept ν store (store, session) := ⟨StoreLe.of_sentinel rfl (List.Subset.refl _), hall, h⟩

/-- A step on the markers leaves the sentinel alone. -/
theorem Kept.markers (hall : store.returned ⊆ store.registered ν)
    (denies : Option (List (JsString × Entry))) {session : Session ν} (h : session.Good store) :
    Kept ν store ({ store with denies := denies }, session) :=
  ⟨StoreLe.of_sentinel rfl (List.Subset.refl _), hall,
    h.mono (StoreLe.of_sentinel rfl (List.Subset.refl _))⟩

theorem Kept.ensured (hall : store.returned ⊆ store.registered ν) (h : session.Good store)
    {sessionId : Option JsString} {k : AfterEnsure ν} (hk : k.Good store sessionId) {ok : Bool}
    (hok : ok = true → ∀ s, sessionId = some s → isSafeSessionId s = true →
      s ∈ store.registered ν) : Kept ν store (afterEnsure store session ok k) := by
  obtain ⟨hle, hall', hgood⟩ := afterEnsure_good h hall hk hok rfl
  exact ⟨hle, hall', hgood⟩

theorem registered_of_sentinel {raw : JsString} (h : store.sentinel = some raw) :
    store.registered ν = (readSentinelText ν raw false).sessions := by
  simp only [DenyStore.registered, h]

theorem safe_of_registered {s : JsString} (h : s ∈ store.registered ν) :
    isSafeSessionId s = true := by
  unfold DenyStore.registered at h
  split at h
  · exact safe_of_mem_read h
  · cases h

/-- The rename lists every session that was listed, and the caller's own. -/
theorem kept_of_rename (hall : store.returned ⊆ store.registered ν) (h : session.Good store)
    {cur : SentinelInfo} {sessionId : Option JsString} {k : AfterEnsure ν}
    (hk : k.Good store sessionId) (hsafe : ∀ s ∈ cur.sessions, isSafeSessionId s = true)
    (hkeeps : ∀ s ∈ store.registered ν, s ∈ cur.sessions ∨ sessionId = some s)
    (hsentinel : store'.sentinel = some (sentinelBody ν (nextSessions cur sessionId)))
    (hreturned : store'.returned = store.returned) :
    Kept ν store (afterEnsure store' session true k) := by
  have hnext : ∀ s ∈ nextSessions cur sessionId, isSafeSessionId s = true := by
    intro s hs
    obtain hs | ⟨-, hs⟩ := mem_nextSessions.1 hs
    · exact hsafe s hs
    · exact hs
  have hregistered : store'.registered ν = nextSessions cur sessionId := by
    rw [registered_of_sentinel hsentinel, readSentinelText_body hnext]
  have hle : StoreLe ν store store' := by
    refine ⟨hreturned ▸ List.Subset.refl _, ?_, ?_⟩
    · intro s hs
      rw [hregistered, mem_nextSessions]
      exact (hkeeps s hs).imp id fun heq => ⟨heq, safe_of_registered hs⟩
    · intro _
      rw [hsentinel]
      exact Option.some_ne_none _
  have hall' : store'.returned ⊆ store'.registered ν := by
    rw [hreturned]
    exact List.Subset.trans hall hle.registered
  have hown : true = true → ∀ s, sessionId = some s → isSafeSessionId s = true →
      s ∈ store'.registered ν := by
    intro _ s hs hsafe
    rw [hregistered, mem_nextSessions]
    exact Or.inr ⟨hs, hsafe⟩
  have hkept := Kept.ensured hall' (h.mono hle) (hk.mono hle) hown
  exact ⟨⟨List.Subset.trans hle.returned hkept.le.returned,
    List.Subset.trans hle.registered hkept.le.registered,
    fun hs => hkept.le.sentinel (hle.sentinel hs)⟩, hkept.all, hkept.session⟩

/-- A legacy sentinel that is not marked as one lists nothing. -/
theorem read_legacy (raw : JsString) (h : (readSentinelText ν raw true).legacy = false) :
    (readSentinelText ν raw true).sessions = [] := by
  unfold readSentinelText at h ⊢
  split_ifs at h ⊢
  split at h
  · cases h
  · rfl

omit [JsNumber ν] in
theorem AfterRead.Early.before_eq {k : AfterRead ν} (h : k.Early) :
    ∀ load, k = .registered load ∨ k = .healed load → load.before = [] := by
  intro load hload
  obtain rfl | rfl := hload
  · exact h
  · exact h

omit [JsNumber ν] in
theorem AfterRead.Good.before_subset {k : AfterRead ν} (hk : k.Good store) :
    ∀ load, k = .registered load ∨ k = .healed load → load.before ⊆ store.returned := by
  intro load h
  obtain rfl | rfl := h
  · exact hk
  · exact hk

/-- What one step of one session keeps. -/
theorem denyStep_kept {ι : Type} {p : ι} {event : DenyEvent ν} {r : DenyStore × Session ν}
    (hstep : denyStep p event store session = some r)
    (hall : store.returned ⊆ store.registered ν) (h : session.Good store)
    (hkeeps : ∀ cur sessionId k, session.point = .ensureRename cur sessionId k → event = .works →
      ∀ s ∈ store.registered ν, s ∈ cur.sessions ∨ sessionId = some s) :
    Kept ν store r := by
  have hpoint := h.point
  cases event with
  | tamper denies =>
    have hr : some (({ store with denies := denies } : DenyStore), session) = some r := by
      cases hp : session.point <;> simpa only [denyStep, hp] using hstep
    obtain rfl := Option.some.inj hr
    exact Kept.markers hall denies h
  | ensureDenyMarker opts =>
    cases hp : session.point <;> simp only [denyStep, hp, reduceCtorEq] at hstep
    split_ifs at hstep with hsafe <;> obtain rfl := Option.some.inj hstep
    · exact Kept.same hall (h.goto hsafe)
    · exact Kept.same hall h
  | loadDenyRecords storeExpected =>
    cases hp : session.point <;> simp only [denyStep, hp, reduceCtorEq] at hstep
    obtain rfl := Option.some.inj hstep
    exact Kept.same hall (h.goto (List.Subset.refl _))
  | fails code =>
    cases hp : session.point <;> rw [hp] at hpoint <;>
      simp only [denyStep, hp, reduceCtorEq] at hstep <;> obtain rfl := Option.some.inj hstep
    case quarantineRename | markerMkdir | markerWrite | markerRename =>
      exact Kept.same hall (h.returns _ _)
    case ensureMkdir => exact Kept.ensured hall h hpoint nofun
    case ensureWrite | ensureRename => exact Kept.ensured hall h hpoint.1 nofun
    case deniesList load => exact Kept.same hall (h.loaded hpoint.2)
  | works =>
    cases hp : session.point <;> rw [hp] at hpoint <;>
      simp only [denyStep, hp, reduceCtorEq] at hstep
    case markerExists written opts =>
      split_ifs at hstep <;> obtain rfl := Option.some.inj hstep
      · exact Kept.same hall (h.goto hpoint)
      · exact Kept.same hall (afterMarker_good h hpoint _)
    case markerRead written opts =>
      obtain rfl := Option.some.inj hstep
      exact Kept.same hall (afterMarker_good h hpoint _)
    case quarantineExists opts fault =>
      split_ifs at hstep <;> obtain rfl := Option.some.inj hstep
      · exact Kept.same hall (h.goto hpoint)
      · exact Kept.same hall (h.goto hpoint)
    case quarantineRename opts fault =>
      obtain rfl := Option.some.inj hstep
      exact Kept.markers hall _ (h.goto hpoint)
    case markerMkdir opts =>
      obtain rfl := Option.some.inj hstep
      exact Kept.markers hall _ (h.goto hpoint)
    case markerWrite opts =>
      split_ifs at hstep
      obtain rfl := Option.some.inj hstep
      exact Kept.same hall (h.goto hpoint)
    case markerRename opts =>
      split_ifs at hstep
      obtain rfl := Option.some.inj hstep
      exact Kept.markers hall _ (h.goto hpoint)
    case sentinelExists k =>
      obtain rfl := Option.some.inj hstep
      cases hs : store.sentinel with
      | some raw => exact Kept.same hall (h.goto ⟨hpoint, by rw [hs]; exact Option.some_ne_none _⟩)
      | none =>
        have hnone : store.returned = [] := by
          apply List.eq_nil_of_subset_nil
          simpa only [DenyStore.registered, hs] using hall
        have hearly : k.Early := by
          cases k with
          | ensure => trivial
          | first load | registered load | healed load =>
            apply List.eq_nil_of_subset_nil
            rw [← hnone]
            exact hpoint
        exact Kept.same hall (h.goto ⟨hpoint, hearly⟩)
    case sentinelRead k =>
      obtain rfl := Option.some.inj hstep
      obtain ⟨raw, hraw⟩ := Option.ne_none_iff_exists'.1 hpoint.2
      rw [hraw, Option.map_some, Option.getD_some]
      apply Kept.same hall
      apply afterRead_good h hpoint.1 fun s hs => safe_of_mem_read hs
      · intro _
        rw [registered_of_sentinel hraw]
        exact List.Subset.refl _
      · intro load hload
        rw [← registered_of_sentinel hraw]
        exact List.Subset.trans (hpoint.1.before_subset load hload) hall
    case legacyExists k =>
      split_ifs at hstep <;> obtain rfl := Option.some.inj hstep
      · exact Kept.same hall (h.goto hpoint)
      · apply Kept.same hall
        apply afterRead_good h hpoint.1 (fun _ hs => absurd hs List.not_mem_nil)
          fun _ => List.nil_subset _
        intro load hload
        rw [hpoint.2.before_eq load hload]
        exact List.nil_subset _
    case legacyRead k =>
      obtain rfl := Option.some.inj hstep
      apply Kept.same hall
      have hbefore : ∀ info : SentinelInfo, ∀ load, k = .registered load ∨ k = .healed load →
          load.before ⊆ info.sessions := by
        intro info load hload
        rw [hpoint.2.before_eq load hload]
        exact List.nil_subset _
      cases hlegacy : store.legacy with
      | none =>
        exact afterRead_good h hpoint.1 (fun _ hs => absurd hs List.not_mem_nil)
          (fun _ => List.nil_subset _) (hbefore _)
      | some raw =>
        apply afterRead_good h hpoint.1 (fun s hs => safe_of_mem_read hs) _ (hbefore _)
        intro hnot
        rw [read_legacy raw hnot]
        exact List.nil_subset _
    case ensureMkdir sessionId k =>
      obtain rfl := Option.some.inj hstep
      exact Kept.same hall (h.goto hpoint)
    case ensureExists cur sessionId k =>
      split_ifs at hstep <;> obtain rfl := Option.some.inj hstep
      · apply Kept.ensured hall h hpoint.1
        intro _ s hs hsafe
        subst hs
        exact hpoint.2.1 (mem_of_keeps hsafe hpoint.2.2)
      · exact Kept.same hall
          (h.goto ⟨hpoint.1, fun s hs => safe_of_registered (hpoint.2.1 hs)⟩)
    case ensureWrite cur sessionId k =>
      obtain rfl := Option.some.inj hstep
      exact Kept.same hall (h.goto hpoint)
    case ensureRename cur sessionId k =>
      obtain rfl := Option.some.inj hstep
      exact kept_of_rename hall h hpoint.1 hpoint.2 (hkeeps cur sessionId k hp rfl) rfl rfl
    case deniesExists load =>
      split_ifs at hstep <;> obtain rfl := Option.some.inj hstep
      · exact Kept.same hall (h.goto hpoint)
      · exact Kept.same hall (h.loaded hpoint.2)
      · exact Kept.same hall (h.loaded hpoint.2)
    case deniesList load =>
      split at hstep <;> obtain rfl := Option.some.inj hstep
      · exact Kept.same hall (nextEntry_good h hpoint.1 hpoint.2 _)
      · exact Kept.same hall (h.loaded hpoint.2)
    case entryExists load sid rest =>
      split_ifs at hstep <;> obtain rfl := Option.some.inj hstep
      · exact Kept.same hall (h.goto hpoint)
      · exact Kept.same hall (nextEntry_good h hpoint.1 hpoint.2 _)
    case entryRead load sid rest =>
      have hload : ∀ load' : Load ν, load'.before = load.before →
          load'.registered = load.registered → (nextEntry session load' rest).Good store := by
        intro load' hbefore hregistered
        apply nextEntry_good h
        · rw [Load.Late, hbefore]
          exact hpoint.1
        · rw [Load.Seen, hbefore, hregistered]
          exact hpoint.2
      split at hstep <;> obtain rfl := Option.some.inj hstep
      · exact Kept.same hall (hload _ rfl rfl)
      · exact Kept.same hall (hload _ rfl rfl)
    case healExists load =>
      obtain rfl := Option.some.inj hstep
      split_ifs
      · exact Kept.same hall (h.loaded (load.conclude_registered ▸ hpoint.2))
      · exact Kept.same hall (startHeal_good h hpoint.1 hpoint.2)

/-! ## A registered session is denied -/

theorem denies_of_registered {loaded : LoadResult ν} {sid : JsString}
    (hsid : sid ∈ loaded.registeredSessions) {opts : GateOpts ν}
    (hself : opts.currentSessionId = some (.str sid))
    (hgrant : ¬ActiveGrant opts.bypassForSession sid) :
    (evaluateMutationGate (mutationGateInputFromLoad loaded opts)).deny = true := by
  by_contra hallow
  rw [Bool.not_eq_true, evaluateMutationGate_allows_iff] at hallow
  obtain ⟨sid', records, hsafe, hrecords, hallows⟩ := hallow
  have hsame : sid' = sid := by
    have hcur : (mutationGateInputFromLoad loaded opts).currentSessionId = some (.str sid) := hself
    rw [hcur, safeSessionId?] at hsafe
    split_ifs at hsafe
    exact (Option.some.inj hsafe).symm
  subst hsame
  have hfound : (loaded.records ++ loaded.invalidRecords.filter fun r =>
      !namesSession denyStoreId r).any (fun r =>
      strictEq (r.get? (js "session_id")) (some (.str sid'))) = true := by
    have hsticky := hallows.sticky
    have hcontains : loaded.registeredSessions.contains sid' = true := by simpa using hsid
    simp only [mutationGateInputFromLoad, hself, hcontains, Bool.true_and, Bool.or_eq_false_iff,
      Bool.not_eq_false'] at hsticky
    exact hsticky.2
  obtain ⟨r, hr, heq⟩ := List.any_eq_true.1 hfound
  have hmem : some r ∈ records := by
    obtain rfl := Option.some.inj hrecords
    exact List.mem_map_of_mem hr
  have hobj : isSelf sid' (some r) = true := by
    cases r with
    | obj ms =>
      rw [isSelf]
      exact heq
    | _ => cases heq
  exact hgrant (hallows.self (some r) hmem hobj).2

/-! ## The runs -/

def idleSession : Session ν := ⟨.idle, [], []⟩

/-- No session has called anything yet. -/
def noSession {ι : Type} (store : DenyStore) : Config ι DenyStore (Session ν) :=
  ⟨store, fun _ => idleSession⟩

/-- In a run in which no rename of the sentinel drops a registration, a session that was returned ok
is denied on every load that begins later. -/
theorem deny_is_sticky {ι : Type} [DecidableEq ι] {store : DenyStore}
    {c : Config ι DenyStore (Session ν)} (hstart : store.returned = [])
    (hrun : Runs denyStep KeepsRegistrations (noSession store) c) (p : ι)
    {before : List JsString} {result : LoadResult ν} (hload : (before, result) ∈ (c.loc p).loads)
    {sid : JsString} (hsid : sid ∈ before) {opts : GateOpts ν}
    (hself : opts.currentSessionId = some (.str sid))
    (hgrant : ¬ActiveGrant opts.bypassForSession sid) :
    (evaluateMutationGate (mutationGateInputFromLoad result opts)).deny = true := by
  have hinv : c.shared.returned ⊆ c.shared.registered ν ∧
      ∀ q, (c.loc q).Good c.shared := by
    apply Runs.invariant (fun c => c.shared.returned ⊆ c.shared.registered ν ∧
      ∀ q, (c.loc q).Good c.shared) hrun
    · refine ⟨?_, fun q => ⟨trivial, nofun⟩⟩
      have hnone : (noSession store : Config ι DenyStore (Session ν)).shared.returned = [] := hstart
      rw [hnone]
      exact List.nil_subset _
    · intro d q event r hd hok hstep
      have hkept := denyStep_kept hstep hd.1 (hd.2 q) fun cur sessionId k hp he s hs => by
        unfold KeepsRegistrations at hok
        rw [hp, he] at hok
        exact hok s hs
      refine ⟨hkept.all, ?_⟩
      intro q'
      by_cases hq : q' = q
      · rw [hq, Config.put_loc, Function.update_self]
        exact hkept.session
      · rw [Config.put_loc, Function.update_of_ne hq]
        exact (hd.2 q').mono hkept.le
  exact denies_of_registered ((hinv.2 p).loads _ hload hsid) hself hgrant

/-! ## Two registrations at once -/

def markerFor (sid : JsString) : MarkerOpts Int where
  sessionId := sid
  ticketId := none
  contentHash := none
  host := js "local"
  since := js "t"
  writer := .null

def emptyStore : DenyStore := ⟨none, none, none, []⟩

/-- A session up to the write of its temporary sentinel. -/
def registers (p : Fin 2) (sid : JsString) : List (Fin 2 × DenyEvent Int) :=
  (p, .ensureDenyMarker (markerFor sid)) :: List.replicate 9 (p, .works)

def consumedMarker (sid : JsString) : JsString :=
  stringify (.obj [(js "session_id", .str sid), (js "status", .str (js "consumed"))] : Json Int)

def lostRegistration : List (Fin 2 × DenyEvent Int) :=
  registers 0 (js "a") ++ registers 1 (js "b") ++ [(0, .works), (0, .works), (1, .works), (1, .works),
    (0, .tamper (some [(js "b.json", .file (consumedMarker (js "b")))])),
    (0, .loadDenyRecords none)] ++ List.replicate 9 (0, .works)

def asSession (sid : JsString) : GateOpts Int := ⟨some (.str sid), false, none, none, false⟩

/-- Some load allows a session that was returned ok before it began. -/
def allowsReturned (sid : JsString) (c : Config (Fin 2) DenyStore (Session Int)) : Bool :=
  (c.loc 0).loads.any fun load => load.1.contains sid &&
    !(evaluateMutationGate (mutationGateInputFromLoad load.2 (asSession sid))).deny

/-- Two sessions that read the sentinel before either has written it: the first one's registration
is lost, and with its marker its deny. -/
theorem deny_not_sticky : ∃ c, Runs (denyStep : Machine (Fin 2) DenyStore (Session Int) (DenyEvent Int))
      (fun _ _ _ => True) (noSession emptyStore) c ∧
    ∃ before result, (before, result) ∈ (c.loc 0).loads ∧ js "a" ∈ before ∧
      (evaluateMutationGate (mutationGateInputFromLoad result (asSession (js "a")))).deny = false := by
  have hplay : ((denyStep : Machine (Fin 2) DenyStore (Session Int) (DenyEvent Int)).play
      (fun _ _ _ => True) (noSession emptyStore) lostRegistration).any
      (allowsReturned (js "a")) = true := by decide +kernel
  obtain ⟨c, hrun, hallows⟩ := Machine.exists_run_of_play hplay
  obtain ⟨⟨before, result⟩, hmem, hbad⟩ := List.any_eq_true.1 hallows
  rw [Bool.and_eq_true, Bool.not_eq_true', List.contains_iff_mem] at hbad
  exact ⟨c, hrun, before, result, hmem, hbad.1, hbad.2⟩

instance {ι : Type} (c : Config ι DenyStore (Session ν)) (p : ι) (event : DenyEvent ν) :
    Decidable (KeepsRegistrations c p event) := by
  unfold KeepsRegistrations
  split <;> infer_instance

/-- The marker of a session that is registered already. -/
def registeredStore : DenyStore :=
  ⟨some (sentinelBody Int [js "a"]), none, some [(js "a.json", .file (consumedMarker (js "a")))], []⟩

/-- The session is returned ok, its marker is deleted, and it loads. -/
def vanishedMarker : List (Fin 2 × DenyEvent Int) :=
  (0, .ensureDenyMarker (markerFor (js "a"))) :: List.replicate 6 (0, .works) ++
    [(0, .tamper none), (0, .loadDenyRecords none)] ++ List.replicate 5 (0, .works)

def sawReturned (sid : JsString) (c : Config (Fin 2) DenyStore (Session Int)) : Bool :=
  (c.loc 0).loads.any fun load => load.1.contains sid

theorem deny_is_sticky_vanishedMarker :
    ∃ (before : List JsString) (result : LoadResult Int), js "a" ∈ before ∧
    (evaluateMutationGate (mutationGateInputFromLoad result (asSession (js "a")))).deny = true := by
  have hplay : ((denyStep : Machine (Fin 2) DenyStore (Session Int) (DenyEvent Int)).play
      KeepsRegistrations (noSession registeredStore) vanishedMarker).any
      (sawReturned (js "a")) = true := by decide +kernel
  obtain ⟨c, hrun, hsaw⟩ := Machine.exists_run_of_play hplay
  obtain ⟨⟨before, result⟩, hmem, hbefore⟩ := List.any_eq_true.1 hsaw
  rw [List.contains_iff_mem] at hbefore
  exact ⟨before, result, hbefore,
    deny_is_sticky rfl hrun 0 hmem hbefore rfl (not_activeGrant_none _)⟩

end Adlc.ContextHandoff
