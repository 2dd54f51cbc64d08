import Adlc.Tickets.Filename
import Adlc.Tickets.Snapshot
import Mathlib.Data.List.AList

namespace Adlc.Tickets

open Adlc.Framework

variable {ν : Type} [JsNumber ν] [Unicode]

/-- The regular files of a directory, by name. -/
abbrev Dir := AList (fun _ : JsString => Bytes)

/-- `readFileSync(join(dir, name), 'utf8')` -/
def readText (dir : Dir) (name : JsString) : Option JsString := (dir.lookup name).map utf8Decode

def storeMarker : JsString := js ".store.json"

def activeDirectory : JsString := js ".adlc/tickets"
def archiveDirectory : JsString := js ".adlc/ticket-archive"

def manifestOf (format : String) : Json ν :=
  .obj [(js "format", .str (js format)), (js "version", .num (JsNumber.ofNat 1))]

/-- `ACTIVE_MANIFEST` and `ARCHIVE_MANIFEST`. -/
def activeManifest : Json ν := manifestOf "adlc-ticket-directory"
def archiveManifest : Json ν := manifestOf "adlc-ticket-archive"

structure DirectoryTicketStore where
  path : JsString
  archive : Bool

def activeStore : DirectoryTicketStore := ⟨activeDirectory, false⟩
def archiveStore : DirectoryTicketStore := ⟨archiveDirectory, true⟩

def DirectoryTicketStore.expectedManifest (store : DirectoryTicketStore) : Json ν :=
  if store.archive then archiveManifest else activeManifest

/-! ## Loading -/

def versionHint (manifest : Json ν) : JsString :=
  match manifest.get? (js "version") with
  | some (.num n) =>
    if JsNumber.isInteger n && JsNumber.lt (JsNumber.ofNat 1) n then
      js "upgrade @adlc/tickets to read this store"
    else js "expected format version 1"
  | _ => js "expected format version 1"

/-- The checks of a store's own manifest. -/
def checkManifest (store : DirectoryTicketStore) (dir : Dir) : Except TicketStoreError Unit :=
  match readText dir storeMarker with
  | none =>
    .error (invalid "INVALID_MANIFEST" (store.path ++ js "/.store.json must be a regular file"))
  | some text =>
    match parseJson (ν := ν) text with
    | none => .error (invalid "INVALID_MANIFEST" (js "invalid store manifest: "))
    | some manifest =>
      match canonicalJson manifest, canonicalJson (store.expectedManifest (ν := ν)) with
      | .ok found, .ok expected =>
        if found = expected then .ok ()
        else .error (invalid "UNSUPPORTED_STORE_FORMAT"
          (js "unsupported ticket store manifest (" ++ versionHint manifest ++ js ")"))
      | .error e, _ | _, .error e => .error e

/-- One entry of a store that is not its manifest. -/
def readShard (name : JsString) (bytes : Bytes) : Except TicketStoreError (Json ν) :=
  if js ".json" <:+ name then
    match parseJson (utf8Decode bytes) with
    | none => .error (invalid "INVALID_JSON" (js "invalid JSON in " ++ name ++ js ": "))
    | some ticket =>
      match id? ticket with
      | none => .error (invalid "INVALID_SHARD" (name ++ js " must contain one ticket object"))
      | some id =>
        if name = ticketFilename id then .ok ticket
        else .error (invalid "FILENAME_MISMATCH" (name ++ js " does not match ticket id " ++ id ++
          js "; expected " ++ ticketFilename id))
  else .error (invalid "UNRECOGNIZED_STORE_ENTRY"
    (js "unrecognized or unsafe ticket store entry: " ++ name))

def readShards : List (Sigma fun _ : JsString => Bytes) → Except TicketStoreError (List (Json ν))
  | [] => .ok []
  | entry :: entries =>
    match readShard entry.1 entry.2 with
    | .error e => .error e
    | .ok ticket => (readShards entries).map fun tickets => ticket :: tickets

def shards (dir : Dir) : List (Sigma fun _ : JsString => Bytes) :=
  dir.entries.filter fun entry => decide (entry.1 ≠ storeMarker)

def DirectoryTicketStore.load (store : DirectoryTicketStore) (dir : Option Dir) :
    Except TicketStoreError (TicketSnapshot ν) :=
  match dir with
  | none =>
    .error (operational "STORE_NOT_FOUND" (js "ticket store not found: " ++ store.path))
  | some dir =>
    if (dir.keys.map Unicode.toLowerCase).Nodup then
      match checkManifest (ν := ν) store dir with
      | .error e => .error e
      | .ok () =>
        match readShards (shards dir) with
        | .error e => .error e
        | .ok tickets =>
          match validateTickets store.archive (!store.archive) tickets with
          | .error e => .error e
          | .ok () => TicketSnapshot.make tickets
    else .error (invalid "CASE_COLLISION" (store.path ++
      js " contains case-insensitive name collisions"))

/-! ## What a loaded store holds -/

/-- The file holds the ticket, under the ticket's name. -/
structure ShardOf (entry : Sigma fun _ : JsString => Bytes) (ticket : Json ν) : Prop where
  text : parseJson (utf8Decode entry.2) = some ticket
  id : (id? ticket).isSome = true
  name : entry.1 = ticketFilename (idOf ticket)

theorem ticketFilename_json (id : JsString) : js ".json" <:+ ticketFilename id :=
  ⟨ticketSlug id ++ js "--" ++ sha256Hex (utf8Encode id), rfl⟩

theorem readShard_ok_iff (entry : Sigma fun _ : JsString => Bytes) (ticket : Json ν) :
    readShard entry.1 entry.2 = .ok ticket ↔ ShardOf entry ticket := by
  unfold readShard
  constructor
  · intro h
    split_ifs at h with h1
    split at h
    · cases h
    rename_i t ht
    split at h
    · cases h
    rename_i id hid
    split_ifs at h with h2
    rw [← Except.ok.inj h]
    refine ⟨ht, by simp [hid], ?_⟩
    rw [h2, idOf, hid]
    rfl
  · intro h
    have hid := id?_eq_idOf h.id
    rw [if_pos (h.name ▸ ticketFilename_json _), h.text]
    simp only [hid]
    rw [if_pos h.name]

theorem readShards_ok_iff (entries : List (Sigma fun _ : JsString => Bytes))
    (tickets : List (Json ν)) :
    readShards entries = .ok tickets ↔
      entries.map (fun entry => readShard entry.1 entry.2) = tickets.map .ok := by
  induction entries generalizing tickets with
  | nil =>
    rw [readShards, List.map_nil]
    cases tickets <;> simp
  | cons entry entries ih =>
    rw [readShards, List.map_cons]
    cases readShard (ν := ν) entry.1 entry.2 with
    | error e =>
      constructor
      · intro h
        cases h
      · intro h
        cases tickets <;> simp at h
    | ok t =>
      constructor
      · intro h
        cases hr : readShards (ν := ν) entries with
        | error e =>
          rw [hr] at h
          cases h
        | ok ts =>
          rw [hr] at h
          rw [← Except.ok.inj h, (ih ts).mp hr]
          rfl
      · intro h
        cases tickets with
        | nil => cases h
        | cons u us =>
          obtain ⟨h1, h2⟩ := List.cons.inj h
          rw [(ih us).mpr h2, ← Except.ok.inj h1]
          rfl

/-- The tickets are accepted, as those of an active store or of an archive. -/
def ValidFor (store : DirectoryTicketStore) (tickets : List (Json ν)) : Prop :=
  validateTickets store.archive (!store.archive) tickets = .ok ()

omit [Unicode] in
theorem ValidFor.spec {store : DirectoryTicketStore} {tickets : List (Json ν)}
    (h : ValidFor store tickets) :
    (∀ t ∈ tickets, validateTicket store.archive t = []) ∧ (tickets.map id?).Nodup := by
  unfold ValidFor at h
  cases ha : store.archive with
  | true =>
    rw [ha] at h
    exact (validateTickets_archive_ok_iff tickets).mp h
  | false =>
    rw [ha] at h
    have hv := (validateTickets_ok_iff tickets).mp h
    exact ⟨hv.valid, hv.ids⟩

omit [Unicode] in
theorem ValidFor.perm {store : DirectoryTicketStore} {ts us : List (Json ν)}
    (h : ValidFor store ts) (hp : ts.Perm us) : ValidFor store us := by
  unfold ValidFor at *
  cases ha : store.archive with
  | true =>
    rw [ha] at h
    obtain ⟨hv, hn⟩ := (validateTickets_archive_ok_iff ts).mp h
    exact (validateTickets_archive_ok_iff us).mpr
      ⟨fun t ht => hv t (hp.mem_iff.mpr ht), (hp.map _).nodup_iff.mp hn⟩
  | false =>
    rw [ha] at h
    exact (validateTickets_ok_iff us).mpr (((validateTickets_ok_iff ts).mp h).perm hp)

omit [Unicode] in
theorem ValidFor.id {store : DirectoryTicketStore} {tickets : List (Json ν)}
    (h : ValidFor store tickets) {t : Json ν} (ht : t ∈ tickets) : id? t = some (idOf t) := by
  obtain ⟨id, hid, -⟩ := id?_of_valid (h.spec.1 t ht)
  apply id?_eq_idOf
  simp [hid]

omit [Unicode] in
theorem ValidFor.eq_of_id {store : DirectoryTicketStore} {tickets : List (Json ν)}
    (h : ValidFor store tickets) {t u : Json ν} (ht : t ∈ tickets) (hu : u ∈ tickets)
    (hid : idOf t = idOf u) : t = u :=
  List.inj_on_of_nodup_map h.spec.2 ht hu ((h.id ht).trans ((congrArg some hid).trans (h.id hu).symm))

/-- The directory is a store of the tickets, which are listed in no particular order. -/
structure Holds (store : DirectoryTicketStore) (dir : Dir) (tickets : List (Json ν)) : Prop where
  manifest : checkManifest (ν := ν) store dir = .ok ()
  only : ∀ name bytes, dir.lookup name = some bytes → name ≠ storeMarker →
    ∃ t ∈ tickets, parseJson (utf8Decode bytes) = some t ∧ name = ticketFilename (idOf t)
  has : ∀ t ∈ tickets, ∃ bytes, dir.lookup (ticketFilename (idOf t)) = some bytes ∧
    parseJson (utf8Decode bytes) = some t
  finite : ∀ t ∈ tickets, t.finite = true
  valid : ValidFor store tickets

theorem ticketFilename_ne_marker (id : JsString) : ticketFilename id ≠ storeMarker := by
  obtain ⟨c, s, e, hc, -⟩ := ticketSlug_spec id
  intro h
  rw [ticketFilename, e, List.cons_append] at h
  have h46 : storeMarker.head? = some 46 := by decide
  rw [← h] at h46
  simp only [List.cons_append, List.head?_cons, Option.some.injEq] at h46
  rw [h46] at hc
  exact absurd hc (by decide)

omit [Unicode] in
theorem mem_shards {dir : Dir} {entry : Sigma fun _ : JsString => Bytes} :
    entry ∈ shards dir ↔ dir.lookup entry.1 = some entry.2 ∧ entry.1 ≠ storeMarker := by
  rw [shards, List.mem_filter, ← AList.mem_lookup_iff]
  simp

theorem Holds.isJson {store : DirectoryTicketStore} {dir : Dir} {tickets : List (Json ν)}
    (h : Holds store dir tickets) {t : Json ν} (ht : t ∈ tickets) : t.IsJson := by
  obtain ⟨bytes, -, hb⟩ := h.has t ht
  exact (Json.isJson_iff t).mpr ⟨parseJson_ordered hb, h.finite t ht⟩

theorem Holds.perm {store : DirectoryTicketStore} {dir : Dir} {ts us : List (Json ν)}
    (h : Holds store dir ts) (hp : ts.Perm us) : Holds store dir us := by
  refine ⟨h.manifest, ?_, ?_, ?_, h.valid.perm hp⟩
  · intro name bytes hl hm
    obtain ⟨t, ht, hb⟩ := h.only name bytes hl hm
    exact ⟨t, hp.mem_iff.mp ht, hb⟩
  · intro t ht
    exact h.has t (hp.mem_iff.mpr ht)
  · intro t ht
    exact h.finite t (hp.mem_iff.mpr ht)

/-- Only what the directory's names lead to matters. -/
theorem Holds.congr {store : DirectoryTicketStore} {d d' : Dir} {ts : List (Json ν)}
    (h : Holds store d ts) (hd : ∀ name, d'.lookup name = d.lookup name) : Holds store d' ts := by
  refine ⟨?_, ?_, ?_, h.finite, h.valid⟩
  · have hm := h.manifest
    unfold checkManifest readText at hm ⊢
    rw [hd]
    exact hm
  · intro name bytes hl
    exact h.only name bytes (hd name ▸ hl)
  · intro t ht
    obtain ⟨bytes, hb⟩ := h.has t ht
    exact ⟨bytes, by rw [hd]; exact hb⟩

/-- A directory holds one list of tickets, but for its order. -/
theorem Holds.unique {store : DirectoryTicketStore} {dir : Dir} {ts us : List (Json ν)}
    (h1 : Holds store dir ts) (h2 : Holds store dir us) : ts.Perm us := by
  have sub : ∀ {ts us : List (Json ν)}, Holds store dir ts → Holds store dir us → ts ⊆ us := by
    intro ts us h1 h2 t ht
    obtain ⟨bytes, hb, hp⟩ := h1.has t ht
    obtain ⟨u, hu, hpu, -⟩ := h2.only _ bytes hb (ticketFilename_ne_marker _)
    rw [hp] at hpu
    rw [Option.some.inj hpu]
    exact hu
  refine (List.perm_ext_iff_of_nodup ?_ ?_).mpr fun t => ⟨fun h => sub h1 h2 h, fun h => sub h2 h1 h⟩
  · exact h1.valid.spec.2.of_map id?
  · exact h2.valid.spec.2.of_map id?

/-- Ids that share their UTF-8 share their shard, so one directory holds them once. -/
theorem Holds.utf8_inj {store : DirectoryTicketStore} {dir : Dir} {ts : List (Json ν)}
    (h : Holds store dir ts) {t u : Json ν} (ht : t ∈ ts) (hu : u ∈ ts)
    (e : utf8Encode (idOf t) = utf8Encode (idOf u)) : t = u := by
  obtain ⟨b, hb, hpt⟩ := h.has t ht
  obtain ⟨c, hc, hpu⟩ := h.has u hu
  rw [ticketFilename_congr ((utf8Encode_eq_iff _ _).mp e), hc] at hb
  rw [Option.some.inj hb, hpt] at hpu
  exact Option.some.inj hpu

omit [JsNumber ν] [Unicode] in
theorem sortById_congr {ts us : List (Json ν)} (hp : ts.Perm us)
    (hu : ∀ t ∈ ts, ∀ u ∈ ts, utf8Encode (idOf t) = utf8Encode (idOf u) → t = u) :
    sortById ts = sortById us := by
  have trans : ∀ a b c : Json ν, compareTicketIds (idOf a) (idOf b) = true →
      compareTicketIds (idOf b) (idOf c) = true → compareTicketIds (idOf a) (idOf c) = true :=
    fun a b c => compareTicketIds_trans _ _ _
  have total : ∀ a b : Json ν,
      (compareTicketIds (idOf a) (idOf b) || compareTicketIds (idOf b) (idOf a)) = true :=
    fun a b => compareTicketIds_total _ _
  refine List.Perm.eq_of_pairwise ?_ (List.pairwise_mergeSort trans total ts)
    (List.pairwise_mergeSort trans total us) ?_
  · intro t u ht hu' h1 h2
    exact hu t ((sortById_perm ts).mem_iff.mp ht) u
      (hp.mem_iff.mpr ((sortById_perm us).mem_iff.mp hu')) (compareTicketIds_tie h1 h2)
  · exact (sortById_perm ts).trans (hp.trans (sortById_perm us).symm)

theorem Holds.snapshotOf_eq {store : DirectoryTicketStore} {dir : Dir} {ts us : List (Json ν)}
    (h1 : Holds store dir ts) (h2 : Holds store dir us) : snapshotOf ts = snapshotOf us := by
  have e := sortById_congr (h1.unique h2) fun t ht u hu => h1.utf8_inj ht hu
  rw [snapshotOf, snapshotOf, e]

theorem lower_of_small {s : JsString} (h : ∀ c ∈ s, isNameUnit c = true ∨ c = 46) :
    Unicode.toLowerCase s = s := by
  have hs : ∀ c ∈ s, c.toNat < 128 ∧ lowerUnit c = c := by
    intro c hc
    rcases h c hc with hn | rfl
    · simp only [isNameUnit, isSlugUnit, isDigit, isDash, Bool.or_eq_true, Bool.and_eq_true,
        decide_eq_true_eq] at hn
      have hlt : c.toNat < 128 ∧ ¬(65 ≤ c.toNat ∧ c.toNat ≤ 90) := by
        rcases hn with (hn | hn) | rfl
        · omega
        · omega
        · decide
      exact ⟨hlt.1, if_neg hlt.2⟩
    · decide
  rw [Unicode.toLowerCase_ascii s fun c hc => (hs c hc).1]
  conv_rhs => rw [← List.map_id s]
  exact List.map_congr_left fun c hc => (hs c hc).2

omit [Unicode] in
theorem isNameUnit_of_hex {c : UInt16} (h : isHexUnit c = true) : isNameUnit c = true := by
  simp only [isHexUnit, Bool.or_eq_true, Bool.and_eq_true, decide_eq_true_eq] at h
  simp only [isNameUnit, isSlugUnit, isDigit, Bool.or_eq_true, Bool.and_eq_true, decide_eq_true_eq]
  rcases h with h | h
  · exact Or.inl (Or.inl h)
  · exact Or.inl (Or.inr ⟨h.1, by omega⟩)

theorem toLowerCase_ticketFilename (id : JsString) :
    Unicode.toLowerCase (ticketFilename id) = ticketFilename id := by
  apply lower_of_small
  intro c hc
  obtain ⟨d, s, e, -, hs⟩ := ticketSlug_spec id
  simp only [ticketFilename, List.mem_append] at hc
  rcases hc with ((hc | hc) | hc) | hc
  · rw [e] at hc
    exact Or.inl (hs c hc)
  · revert c
    exact forall_mem_of_all (by decide)
  · exact Or.inl (isNameUnit_of_hex ((sha256Hex_spec _).2 c hc))
  · revert c
    exact forall_mem_of_all (by decide)

theorem toLowerCase_storeMarker : Unicode.toLowerCase storeMarker = storeMarker :=
  lower_of_small (forall_mem_of_all (by decide))

/-- Ticket names and the marker are lowercase, so a store of these has no names that collide. -/
theorem Holds.lower_nodup {store : DirectoryTicketStore} {dir : Dir} {tickets : List (Json ν)}
    (h : Holds store dir tickets) : (dir.keys.map Unicode.toLowerCase).Nodup := by
  have hl : ∀ k ∈ dir.keys, Unicode.toLowerCase k = k := by
    intro k hk
    obtain ⟨bytes, hb⟩ := Option.isSome_iff_exists.mp (AList.lookup_isSome.mpr (AList.mem_keys.mpr hk))
    by_cases hm : k = storeMarker
    · rw [hm, toLowerCase_storeMarker]
    · obtain ⟨t, -, -, e⟩ := h.only k bytes hb hm
      rw [e, toLowerCase_ticketFilename]
  rw [List.map_congr_left hl, List.map_id']
  exact dir.keys_nodup

/-- The shards read, one ticket each. -/
theorem holds_of_shards {store : DirectoryTicketStore} {dir : Dir} {tickets : List (Json ν)}
    (hm : checkManifest (ν := ν) store dir = .ok ()) (hs : readShards (shards dir) = .ok tickets)
    (hf : ∀ t ∈ tickets, t.finite = true) (hv : ValidFor store tickets) :
    Holds store dir tickets := by
  have hs := (readShards_ok_iff _ _).mp hs
  refine ⟨hm, ?_, ?_, hf, hv⟩
  · intro name bytes hl hn
    have hmem : (⟨name, bytes⟩ : Sigma fun _ : JsString => Bytes) ∈ shards dir :=
      mem_shards.mpr ⟨hl, hn⟩
    have hmap := List.mem_map_of_mem (f := fun entry => readShard (ν := ν) entry.1 entry.2) hmem
    rw [hs] at hmap
    obtain ⟨t, ht, e⟩ := List.mem_map.mp hmap
    have hst := (readShard_ok_iff ⟨name, bytes⟩ t).mp e.symm
    exact ⟨t, ht, hst.text, hst.name⟩
  · intro t ht
    have hmap : Except.ok t ∈ tickets.map (Except.ok (ε := TicketStoreError)) :=
      List.mem_map_of_mem ht
    rw [← hs] at hmap
    obtain ⟨entry, he, e⟩ := List.mem_map.mp hmap
    have hst := (readShard_ok_iff entry t).mp e
    refine ⟨entry.2, ?_, hst.text⟩
    rw [← hst.name]
    exact (mem_shards.mp he).1

/-- A store's shards read as its tickets, in the order of the directory. -/
theorem Holds.readShards {store : DirectoryTicketStore} {dir : Dir} {tickets : List (Json ν)}
    (h : Holds store dir tickets) :
    ∃ ts, readShards (shards dir) = .ok ts ∧ ts.Perm tickets := by
  have hread : ∀ entry ∈ shards dir, ∃ t ∈ tickets, ShardOf entry t := by
    intro entry he
    obtain ⟨hl, hn⟩ := mem_shards.mp he
    obtain ⟨t, ht, hp, e⟩ := h.only entry.1 entry.2 hl hn
    exact ⟨t, ht, hp, by rw [h.valid.id ht]; rfl, e⟩
  let parse := fun entry : Sigma fun _ : JsString => Bytes =>
    (parseJson (ν := ν) (utf8Decode entry.2)).getD .null
  have hparse : ∀ entry ∈ shards dir, ∀ t, ShardOf entry t → parse entry = t := by
    intro entry _ t ht
    show (parseJson (utf8Decode entry.2)).getD .null = t
    rw [ht.text]
    rfl
  refine ⟨(shards dir).map parse, ?_, ?_⟩
  · rw [readShards_ok_iff, List.map_map]
    apply List.map_congr_left
    intro entry he
    obtain ⟨t, -, ht⟩ := hread entry he
    rw [Function.comp_apply, hparse entry he t ht]
    exact (readShard_ok_iff entry t).mpr ht
  · refine (List.perm_ext_iff_of_nodup ?_ (h.valid.spec.2.of_map id?)).mpr ?_
    · -- two shards with one ticket have one name
      refine List.Nodup.map_on ?_ ((dir.nodupKeys.nodup).filter _)
      intro e1 h1 e2 h2 he
      obtain ⟨t1, -, s1⟩ := hread e1 h1
      obtain ⟨t2, -, s2⟩ := hread e2 h2
      rw [hparse e1 h1 t1 s1, hparse e2 h2 t2 s2] at he
      have hname : e1.1 = e2.1 := by rw [s1.name, s2.name, he]
      have hl1 := (mem_shards.mp h1).1
      have hl2 := (mem_shards.mp h2).1
      rw [hname, hl2] at hl1
      obtain ⟨n1, b1⟩ := e1
      obtain ⟨n2, b2⟩ := e2
      simp only at hname hl1
      rw [hname, Option.some.inj hl1]
    · intro t
      constructor
      · intro ht
        obtain ⟨entry, he, rfl⟩ := List.mem_map.mp ht
        obtain ⟨u, hu, hs⟩ := hread entry he
        rw [hparse entry he u hs]
        exact hu
      · intro ht
        obtain ⟨bytes, hb, hp⟩ := h.has t ht
        have he : (⟨ticketFilename (idOf t), bytes⟩ : Sigma fun _ : JsString => Bytes) ∈ shards dir :=
          mem_shards.mpr ⟨hb, ticketFilename_ne_marker _⟩
        refine List.mem_map.mpr ⟨_, he, ?_⟩
        exact hparse _ he t ⟨hp, by rw [h.valid.id ht]; rfl, rfl⟩

/-- Loading succeeds just when the directory is a store, with the snapshot of its tickets. -/
theorem load_ok_iff (store : DirectoryTicketStore) (dir : Dir) (snapshot : TicketSnapshot ν) :
    store.load (some dir) = .ok snapshot ↔
      ∃ tickets, Holds store dir tickets ∧ snapshot = snapshotOf tickets := by
  constructor
  · intro h
    unfold DirectoryTicketStore.load at h
    simp only at h
    split_ifs at h with hl
    split at h
    · cases h
    rename_i hm
    split at h
    · cases h
    rename_i tickets hs
    split at h
    · cases h
    rename_i hv
    have hf : ∀ t ∈ tickets, t.finite = true := by
      unfold TicketSnapshot.make at h
      cases hc : deepCloneAll tickets with
      | error e =>
        rw [hc] at h
        cases h
      | ok clones => exact deepCloneAll_finite hc
    have hh := holds_of_shards hm hs hf hv
    refine ⟨tickets, hh, ?_⟩
    rw [TicketSnapshot.make_eq (fun t ht => hh.isJson ht)
      (fun t ht => by rw [hh.valid.id ht]; rfl)] at h
    exact (Except.ok.inj h).symm
  · intro ⟨tickets, h, e⟩
    obtain ⟨ts, hr, hp⟩ := h.readShards
    have h' := h.perm hp.symm
    have hv : validateTickets store.archive (!store.archive) ts = .ok () := h'.valid
    unfold DirectoryTicketStore.load
    simp only
    rw [if_pos h.lower_nodup, h.manifest]
    simp only [hr, hv]
    rw [TicketSnapshot.make_eq (fun t ht => h'.isJson ht)
      (fun t ht => by rw [h'.valid.id ht]; rfl), e, h'.snapshotOf_eq h]

end Adlc.Tickets
