import Adlc.GateManifest.Append
import Adlc.GateManifest.Valid

namespace Adlc.GateManifest

open Adlc.Framework Adlc.Tickets

variable {ν : Type} [JsNumber ν]

/-! ## Rechaining -/

/-- `RESERVED` -/
def repairReserved : List JsString := [js "seq", js "prev", js "sig", js "sigVersion"]

def payloadFrom (entry : Members ν) : Members ν :=
  entry.filter fun p => decide (p.1 ∉ repairReserved)

/-- A length, as the number that counting up to it gives. -/
def countNumber (ν : Type) [JsNumber ν] : Nat → ν
  | 0 => JsNumber.ofNat 0
  | n + 1 => JsNumber.add (countNumber ν n) (JsNumber.ofNat 1)

/-- The entries from `index` on; `clock` is the time that is read for each. -/
def chainPayloads (key : Option JsString) (clock : Nat → JsString) :
    Nat → Option JsString → List (Members ν) → Except TicketStoreError (List (Members ν))
  | _, _, [] => .ok []
  | index, previousRaw, payload :: payloads => do
    let entry ← sign key 2 (chainFields (countNumber ν (index + 1))
      (normalized payload (clock index)) previousRaw)
    let entries ← chainPayloads key clock (index + 1) (some (stringify (.obj entry))) payloads
    return entry :: entries

/-! ## The plan -/

/-- A call of `repairChain`: the path of the ledger, the options, the times read, and the text of
the engine's error for a line that is no JSON. -/
structure RepairCall where
  path : JsString
  reason : Option JsString
  write : Bool
  attestUnsigned : Bool
  key : Option JsString
  isoNow : JsString
  clock : Nat → JsString
  syntaxError : JsString → JsString

def forestRefusal : JsString :=
  js "repair-chain refuses to rewrite the frozen root of a segmented repository: every segment anchors to root's exact bytes, so rechaining root would invalidate every anchor in the forest; use migrate-branch or adopt, the forest-mode tools, instead"

/-- The entries of the lines, each with its line's number. -/
def parseSource (syntaxError : JsString → JsString) :
    List (JsString × Nat) → Except TicketStoreError (List (Nat × Json ν))
  | [] => .ok []
  | (line, lineNo) :: lines =>
    match parseJson line with
    | none => .error (unexpected (js "manifest line " ++ natText lineNo ++ js " is malformed: " ++
        syntaxError line))
    | some entry => (parseSource syntaxError lines).map ((lineNo, entry) :: ·)

def entryObjects : List (Nat × Json ν) → Except TicketStoreError (List (Nat × Members ν))
  | [] => .ok []
  | (lineNo, .obj entry) :: entries => (entryObjects entries).map ((lineNo, entry) :: ·)
  | (lineNo, _) :: _ =>
    .error (unexpected (js "manifest line " ++ natText lineNo ++ js " must contain an entry object"))

/-- `typeof entry.sig === 'string'` -/
def hasStringSig (entry : Members ν) : Bool :=
  match entry.lookup (js "sig") with
  | some (.str _) => true
  | _ => false

def unsignedLines (entries : List (Nat × Members ν)) : List Nat :=
  (entries.filter fun p => !hasStringSig p.2).map Prod.fst

/-- Every signature there is, from the entry at `index` on, must be the key's. -/
def checkSignatures (key : JsString) :
    Nat → List (Nat × Members ν) → Except TicketStoreError Unit
  | _, [] => .ok ()
  | index, (_, entry) :: entries => do
    if hasStringSig entry then
      let valid ← entrySigValid key (.obj entry)
      if valid then checkSignatures key (index + 1) entries
      else .error (unexpected (js "manifest signature at line " ++ natText (index + 1) ++
        js " does not match ADLC_MANIFEST_KEY; repair refused"))
    else checkSignatures key (index + 1) entries

/-- What the key must say about the entries. -/
def checkKey (key : Option JsString) (attestUnsigned : Bool) (entries : List (Nat × Members ν)) :
    Except TicketStoreError Unit :=
  match key with
  | none =>
    if attestUnsigned then .error (unexpected (js "--attest-unsigned requires ADLC_MANIFEST_KEY"))
    else if entries.any fun p => hasStringSig p.2 then
      .error (unexpected
        (js "manifest contains signed entries; configure ADLC_MANIFEST_KEY before repair"))
    else .ok ()
  | some key => do
    checkSignatures key 0 entries
    let count := (unsignedLines entries).length
    if 0 < count ∧ attestUnsigned = false then
      .error (unexpected (js "manifest contains " ++ natText count ++ js " unsigned entr" ++
        (if count = 1 then js "y" else js "ies") ++
        js "; repair would cryptographically attest them; rerun with --attest-unsigned after reviewing the backup"))
    else .ok ()

structure RepairPlan (ν : Type) where
  original : JsString
  originalHash : JsString
  backup : JsString
  newlySignedLines : List Nat
  originalEntries : Nat
  repaired : List (Members ν)

/-- The record of the repair, as `chainPayloads` is given it. -/
def repairRecord (ν : Type) [JsNumber ν] (call : RepairCall) (reason originalHash backup : JsString)
    (entries : Nat) (newlySignedLines : List Nat) : Members ν :=
  [(js "type", .str (js "manifest-chain-repair")), (js "ts", .str call.isoNow),
    (js "reason", .str (trim reason)), (js "originalHash", .str originalHash),
    (js "originalEntries", .num (countNumber ν entries)), (js "backup", .str backup),
    (js "newlySignedEntries", .num (countNumber ν newlySignedLines.length)),
    (js "newlySignedLines", .arr (newlySignedLines.map fun n => .num (countNumber ν n)))]

def repairTarget (ν : Type) [JsNumber ν] (files : ManifestFiles) : Except TicketStoreError Unit :=
  if isSegmentedRepo ν files then .error (unexpected forestRefusal) else .ok ()

def repairReason (reason : Option JsString) : Except TicketStoreError JsString :=
  let refusal := unexpected (js "repair reason must be at least 8 characters")
  match reason with
  | none => .error refusal
  | some reason => if (trim reason).length < 8 then .error refusal else .ok reason

def manifestText (path : JsString) (file : Option Bytes) : Except TicketStoreError JsString :=
  match file with
  | none => .error (unexpected (js "manifest does not exist: " ++ path))
  | some bytes => .ok (utf8Decode bytes)

def refuseValid (integrity : VerifyResult ν) : Except TicketStoreError Unit :=
  if integrity.valid then .error (unexpected (js "manifest chain is already valid; repair refused"))
  else .ok ()

/-- All that `repairChain` does before it writes. -/
def planRepair [Unicode] (call : RepairCall) (files : ManifestFiles) :
    Except TicketStoreError (RepairPlan ν) := do
  repairTarget ν files
  let key ← validateKeyParam call.key
  let reason ← repairReason call.reason
  let original ← manifestText call.path files.root
  let parsed ← parseSource call.syntaxError (numberedLines original)
  let integrity ← verify (ν := ν) files true false key
  refuseValid integrity
  let entries ← entryObjects parsed
  checkKey key call.attestUnsigned entries
  let originalHash := sha256 original
  let backup := call.path ++ js ".pre-repair-" ++ originalHash.take 16 ++ js ".bak"
  let newlySignedLines := if key.isSome then unsignedLines entries else []
  let repair := repairRecord ν call reason originalHash backup entries.length newlySignedLines
  let repaired ← chainPayloads key call.clock 0 none
    (entries.map (fun p => payloadFrom p.2) ++ [repair])
  return ⟨original, originalHash, backup, newlySignedLines, entries.length, repaired⟩

/-! ## The write -/

/-- The manifest, and the files beside it by their paths. -/
structure RepairFiles where
  manifest : ManifestFiles
  backups : JsString → Option Bytes

structure RepairResult where
  write : Bool
  path : JsString
  backup : JsString
  originalHash : JsString
  originalEntries : Nat
  repairedEntries : Nat
  newlySignedEntries : Nat
  newlySignedLines : List Nat

def RepairPlan.lines (plan : RepairPlan ν) : List JsString :=
  plan.repaired.map fun entry => stringify (.obj entry)

def RepairPlan.output (plan : RepairPlan ν) : JsString :=
  [10].intercalate plan.lines ++ [10]

def RepairPlan.result (plan : RepairPlan ν) (call : RepairCall) : RepairResult :=
  ⟨call.write, call.path, plan.backup, plan.originalHash, plan.originalEntries, plan.repaired.length,
    plan.newlySignedLines.length, plan.newlySignedLines⟩

/-- The ledger must be what the plan was made from. -/
def checkCurrent (originalHash : JsString) (file : Option Bytes) : Except TicketStoreError Unit :=
  match file with
  | none => .error (unexpected (js "ENOENT: no such file or directory"))
  | some bytes =>
    if sha256 (utf8Decode bytes) = originalHash then .ok ()
    else .error (unexpected
      (js "manifest changed after repair planning; retry from fresh state"))

def writeBackup (backup original : JsString) (backups : JsString → Option Bytes) :
    Except TicketStoreError (JsString → Option Bytes) :=
  match backups backup with
  | none => .ok (Function.update backups backup (some (utf8Encode original)))
  | some bytes =>
    if utf8Decode bytes = original then .ok backups
    else .error (unexpected (js "repair backup exists with different content: " ++ backup))

/-- What is done under the lock. -/
def writeRepair (plan : RepairPlan ν) (files : RepairFiles) :
    Except TicketStoreError RepairFiles := do
  checkCurrent plan.originalHash files.manifest.root
  let backups ← writeBackup plan.backup plan.original files.backups
  return ⟨{ files.manifest with root := some (utf8Encode plan.output) }, backups⟩

/-- `planned` is the manifest as the plan reads it, `locked` what is there once the lock is held. -/
def repairChain (ν : Type) [JsNumber ν] [Unicode] (call : RepairCall) (planned : ManifestFiles)
    (locked : RepairFiles) : Except TicketStoreError (RepairResult × RepairFiles) := do
  let plan : RepairPlan ν ← planRepair call planned
  if call.write then
    let files ← writeRepair plan locked
    return (plan.result call, files)
  else return (plan.result call, locked)

/-! ## The chain that is built -/

theorem countNumber_integer (n : Nat) : JsNumber.isInteger (countNumber ν n) = true := by
  induction n with
  | zero => exact JsNumber.integer_ofNat 0 (Nat.zero_le _)
  | succ n ih => exact JsNumber.integer_succ _ ih

theorem countNumber_one : countNumber ν 1 = JsNumber.ofNat 1 :=
  JsNumber.add_ofNat 0 1 (by decide)

theorem countNumber_pos (n : Nat) :
    JsNumber.lt (countNumber ν (n + 1)) (JsNumber.ofNat 1) = false := by
  induction n with
  | zero =>
    rw [countNumber_one, JsNumber.lt_ofNat 1 1 (by decide) (by decide)]
    rfl
  | succ n ih => exact JsNumber.succ_pos _ (countNumber_integer _) ih

/-- What `chainPayloads` is given: none of the writer's own fields. -/
structure Payload (payload : Members ν) : Prop where
  ordered : (Json.obj payload).Ordered
  unreserved : ∀ k ∈ repairReserved, payload.lookup k = none

omit [JsNumber ν] in
theorem lookup_payloadFrom (entry : Members ν) (k : JsString) :
    (payloadFrom entry).lookup k = if k ∈ repairReserved then none else entry.lookup k := by
  rw [payloadFrom, Members.lookup_filter entry fun k => decide (k ∉ repairReserved)]
  by_cases hk : k ∈ repairReserved
  · rw [if_pos hk, if_neg (by simpa using hk)]
  · rw [if_neg hk, if_pos (by simpa using hk)]

omit [JsNumber ν] in
theorem payloadFrom_payload {entry : Members ν} (h : (Json.obj entry).Ordered) :
    Payload (payloadFrom entry) := by
  constructor
  · refine ⟨⟨Members.keys_filter_nodup h.1.1 _, ?_⟩, (membersOrdered_iff _).mpr ?_⟩
    · exact h.1.2.sublist (List.filter_sublist.map Prod.fst)
    · intro p hp
      exact (membersOrdered_iff entry).mp h.2 p (List.mem_filter.mp hp).1
  · intro k hk
    rw [lookup_payloadFrom, if_pos hk]

theorem repairRecord_payload (call : RepairCall) (reason originalHash backup : JsString)
    (entries : Nat) (newlySignedLines : List Nat) :
    Payload (repairRecord ν call reason originalHash backup entries newlySignedLines) := by
  constructor
  · refine ⟨?_, trivial, trivial, trivial, trivial, trivial, trivial, trivial, ?_, trivial⟩
    · simp only [OrderedKeys, Members.keys, repairRecord, List.map_cons, List.map_nil]
      decide +kernel
    · rw [Json.Ordered, elemsOrdered_iff]
      intro x hx
      obtain ⟨n, -, rfl⟩ := List.mem_map.mp hx
      exact trivial
  · have hall : ∀ k ∈ repairReserved, k ∉ [js "type", js "ts", js "reason", js "originalHash",
        js "originalEntries", js "backup", js "newlySignedEntries", js "newlySignedLines"] := by
      decide +kernel
    intro k hk
    rw [List.lookup_eq_none_iff]
    intro p hp
    have hne : k ≠ p.1 := by
      rintro rfl
      apply hall _ hk
      have hkeys := List.mem_map_of_mem (f := Prod.fst) hp
      simpa only [repairRecord, List.map_cons, List.map_nil] using hkeys
    simpa using hne

/-- An entry of the new chain is its payload with the defaults, and with the fields of the chain. -/
structure Rechained (key : Option JsString) (payload entry : Members ν) (seq : ν)
    (previousRaw : Option JsString) : Prop where
  ordered : (Json.obj entry).Ordered
  seq : entry.lookup (js "seq") = some (.num seq)
  prev : linksTo (entry.lookup (js "prev")) previousRaw = true
  sig : ∀ k ∈ key, entrySigValid k (.obj entry) = .ok true
  rest : ∃ now, ∀ k, k ∉ repairReserved → entry.lookup k = (normalized payload now).lookup k

theorem chained_of_sign {key : Option JsString} {payload entry : Members ν} {seq : ν}
    {now : JsString} {previousRaw : Option JsString} (hp : Payload payload)
    (h : sign key 2 (chainFields seq (normalized payload now) previousRaw) = .ok entry) :
    Rechained key payload entry seq previousRaw := by
  have hnormal := normalized_ordered hp.ordered now
  have hchain := lookup_chainFields hnormal.1.1 seq previousRaw
  have hfree : ∀ k ∈ repairReserved, (normalized payload now).lookup k = none := by
    intro k hk
    have hnot : k ∉ defaultedFields := by
      revert k
      decide
    rw [lookup_normalized (Or.inl hnot), hp.unreserved k hk]
  have hnosig : (chainFields seq (normalized payload now) previousRaw).lookup (js "sig") = none := by
    rw [hchain, if_neg (by decide), hfree _ (by decide), if_neg (by decide)]
    rfl
  obtain ⟨ho, hl, hsig⟩ := sign_spec (chainFields_ordered hnormal seq previousRaw) hnosig h
  refine ⟨ho, ?_, ?_, hsig, now, ?_⟩
  · rw [hl _ (by decide) (by decide), hchain, if_neg (by decide), hfree _ (by decide), if_pos rfl]
    rfl
  · rw [hl _ (by decide) (by decide), hchain, if_pos rfl]
    cases previousRaw with
    | none => rfl
    | some line => simp [linksTo, eqStr]
  · intro k hk
    simp only [repairReserved, List.mem_cons, List.not_mem_nil, or_false, not_or] at hk
    obtain ⟨k1, k2, k3, k4⟩ := hk
    rw [hl k k4 k3, hchain, if_neg k2, if_neg k1, Option.or_none]

theorem chainPayloads_chained {key : Option JsString} {clock : Nat → JsString} {index : Nat}
    {previousRaw : Option JsString} {payloads entries : List (Members ν)}
    (hp : ∀ payload ∈ payloads, Payload payload)
    (h : chainPayloads key clock index previousRaw payloads = .ok entries) :
    List.Forall₂ (fun payload entry => ∃ seq previousRaw, Rechained key payload entry seq previousRaw)
      payloads entries := by
  induction payloads generalizing index previousRaw entries with
  | nil =>
    rw [chainPayloads, Except.ok.injEq] at h
    subst h
    exact .nil
  | cons payload payloads ih =>
    rw [List.forall_mem_cons] at hp
    obtain ⟨entry, hsign, h⟩ := bind_eq_ok.mp h
    obtain ⟨rest, hrest, h⟩ := bind_eq_ok.mp h
    obtain rfl := Except.ok.inj h
    exact .cons ⟨_, _, chained_of_sign hp.1 hsign⟩ (ih hp.2 hrest)

theorem lookup_finitizeMembers (ms : Members ν) (k : JsString) :
    (finitizeMembers ms).lookup k = (ms.lookup k).map finitize :=
  get?_finitize (.obj ms) k

theorem parseJson_stringify_ordered {ms : Members ν} (h : (Json.obj ms).Ordered) :
    parseJson (stringify (.obj ms)) = some (.obj (finitizeMembers ms)) := by
  rw [← stringify_finitize]
  exact parseJson_stringify (finitize_isJson h)

theorem finitize_num {n : ν} (h : JsNumber.isInteger n = true) : finitize (.num n) = .num n := by
  rw [finitize, if_pos (JsNumber.finite_of_integer _ h)]

/-- The state of `verifyChain` before the entry at `index`. -/
structure Before (s : ChainState ν) (index : Nat) : Prop where
  first : s.prevRawLine.isNone = true → index = 0
  seq : s.prevRawLine.isNone = false → s.prevSeq = countNumber ν index

/-- `verifyChain` takes an entry of the new chain that has no anchor. -/
theorem Rechained.accepts {key : Option JsString} {payload entry : Members ν} {index : Nat}
    {s : ChainState ν} {opts : ChainOptions} (hkey : opts.key = none ∨ opts.key = key)
    (hroot : opts.anchorOnFirst = false) (hs : Before s index)
    (hanchor : payload.lookup (js "anchor") = none)
    (h : Rechained key payload entry (countNumber ν (index + 1)) s.prevRawLine) :
    ∃ ms next, Accepts opts s (stringify (.obj entry)) ms next ∧
      next.prevRawLine = some (stringify (.obj entry)) ∧ Before next (index + 1) := by
  have hseq : (finitizeMembers entry).lookup (js "seq") = some (.num (countNumber ν (index + 1))) := by
    rw [lookup_finitizeMembers, h.seq, Option.map_some, finitize_num (countNumber_integer _)]
  have hprev : linksTo ((finitizeMembers entry).lookup (js "prev")) s.prevRawLine = true := by
    have hlink := h.prev
    rw [linksTo_iff] at hlink ⊢
    rw [lookup_finitizeMembers, hlink]
    cases s.prevRawLine <;> rfl
  have hnone : (finitizeMembers entry).lookup (js "anchor") = none := by
    obtain ⟨now, hrest⟩ := h.rest
    rw [lookup_finitizeMembers, hrest _ (by decide), lookup_normalized (Or.inl (by decide)), hanchor]
    rfl
  refine ⟨finitizeMembers entry, ⟨some (stringify (.obj entry)), countNumber ν (index + 1),
    if s.prevRawLine.isNone then (finitizeMembers entry).lookup (js "anchor") else s.firstAnchor,
    if opts.key.isSome then true else s.seenSignedEntry⟩, ?_, rfl, ?_⟩
  · refine ⟨parseJson_stringify_ordered h.ordered, hseq, countNumber_integer _, countNumber_pos _,
      hprev, ?_, ?_, rfl, ?_, rfl⟩
    · cases hn : s.prevRawLine.isNone with
      | true =>
        rw [hs.first hn]
        exact countNumber_one
      | false =>
        simp only [Bool.false_eq_true, if_false]
        rw [hs.seq hn]
        rfl
    · rw [hnone, hroot, Bool.and_false]
      rfl
    · unfold SignatureOk
      obtain hk | hk := hkey
      · rw [hk]
        rfl
      · cases key with
        | none =>
          rw [hk]
          rfl
        | some key =>
          rw [hk]
          exact Or.inl ⟨entrySigValid_finitize (h.sig key rfl), rfl⟩
  · constructor
    · intro hn
      cases hn
    · exact fun _ => rfl

theorem chainPayloads_accepted {key : Option JsString} {clock : Nat → JsString} {index : Nat}
    {s : ChainState ν} {opts : ChainOptions} {payloads entries : List (Members ν)}
    (hkey : opts.key = none ∨ opts.key = key) (hroot : opts.anchorOnFirst = false)
    (hs : Before s index) (hp : ∀ payload ∈ payloads, Payload payload)
    (hanchor : ∀ payload ∈ payloads, payload.lookup (js "anchor") = none)
    (h : chainPayloads key clock index s.prevRawLine payloads = .ok entries) :
    ∃ last, AcceptsAll opts s (entries.map fun entry => stringify (.obj entry)) last := by
  induction payloads generalizing index s entries with
  | nil =>
    rw [chainPayloads, Except.ok.injEq] at h
    subst h
    exact ⟨s, rfl⟩
  | cons payload payloads ih =>
    rw [List.forall_mem_cons] at hp hanchor
    obtain ⟨entry, hsign, h⟩ := bind_eq_ok.mp h
    obtain ⟨rest, hrest, h⟩ := bind_eq_ok.mp h
    obtain rfl := Except.ok.inj h
    obtain ⟨ms, next, haccepts, hline, hnext⟩ :=
      (chained_of_sign hp.1 hsign).accepts hkey hroot hs hanchor.1
    rw [← hline] at hrest
    obtain ⟨last, hlast⟩ := ih hnext hp.2 hanchor.2 hrest
    exact ⟨last, ms, next, haccepts, hlast⟩

/-! ## What the plan reads -/

theorem source_entries {syntaxError : JsString → JsString} {lines : List (JsString × Nat)}
    {parsed : List (Nat × Json ν)} {entries : List (Nat × Members ν)}
    (hp : parseSource syntaxError lines = .ok parsed) (he : entryObjects parsed = .ok entries) :
    List.Forall₂ (fun line entry => parseJson line = some (.obj entry)) (lines.map Prod.fst)
      (entries.map Prod.snd) := by
  induction lines generalizing parsed entries with
  | nil =>
    rw [parseSource, Except.ok.injEq] at hp
    subst hp
    rw [entryObjects, Except.ok.injEq] at he
    subst he
    exact .nil
  | cons line lines ih =>
    rw [parseSource] at hp
    split at hp
    · cases hp
    · next entry hentry =>
      obtain ⟨parsed, hparsed, rfl⟩ := map_eq_ok.mp hp
      cases entry with
      | obj ms =>
        obtain ⟨rest, hrest, rfl⟩ := map_eq_ok.mp he
        exact .cons hentry (ih hparsed hrest)
      | _ => cases he

/-- A plan is made from the entries of the lines, in their order, and the record of the repair. -/
theorem planRepair_ok [Unicode] {call : RepairCall} {files : ManifestFiles} {plan : RepairPlan ν}
    (h : planRepair call files = .ok plan) :
    call.key ≠ some [] ∧ ∃ entries reason, 8 ≤ (trim reason).length ∧
      List.Forall₂ (fun line entry => parseJson line = some (.obj entry)) (linesOf files.root) entries ∧
      chainPayloads call.key call.clock 0 none (entries.map payloadFrom ++
        [repairRecord ν call reason plan.originalHash plan.backup plan.originalEntries
          plan.newlySignedLines]) = .ok plan.repaired := by
  obtain ⟨_, -, h⟩ := bind_eq_ok.mp h
  obtain ⟨key, hkey, h⟩ := bind_eq_ok.mp h
  obtain ⟨reason, hreason, h⟩ := bind_eq_ok.mp h
  obtain ⟨original, horiginal, h⟩ := bind_eq_ok.mp h
  obtain ⟨parsed, hparsed, h⟩ := bind_eq_ok.mp h
  obtain ⟨integrity, -, h⟩ := bind_eq_ok.mp h
  obtain ⟨_, -, h⟩ := bind_eq_ok.mp h
  obtain ⟨entries, hentries, h⟩ := bind_eq_ok.mp h
  obtain ⟨_, -, h⟩ := bind_eq_ok.mp h
  obtain ⟨repaired, hrepaired, h⟩ := bind_eq_ok.mp h
  obtain rfl := Except.ok.inj h
  rw [validateKeyParam] at hkey
  split_ifs at hkey with hnone
  obtain rfl := Except.ok.inj hkey
  have hmap : entries.map (fun p => payloadFrom p.2) = (entries.map Prod.snd).map payloadFrom := by
    rw [List.map_map]
    rfl
  rw [hmap] at hrepaired
  refine ⟨hnone, _, reason, ?_, ?_, hrepaired⟩
  · unfold repairReason at hreason
    split at hreason
    · cases hreason
    · split_ifs at hreason with hshort
      obtain rfl := Except.ok.inj hreason
      exact not_lt.mp hshort
  · have hsource := source_entries hparsed hentries
    rw [map_fst_numberedLines] at hsource
    cases hroot : files.root with
    | none =>
      rw [hroot] at horiginal
      cases horiginal
    | some bytes =>
      rw [hroot] at horiginal
      obtain rfl := Except.ok.inj horiginal
      exact hsource

/-! ## What a repair leaves -/

theorem intercalate_newline (lines : List JsString) (hne : lines ≠ []) :
    [10].intercalate lines ++ [10] = unlines lines := by
  induction lines with
  | nil => exact absurd rfl hne
  | cons line lines ih =>
    cases lines with
    | nil => simp [unlines]
    | cons next lines =>
      rw [List.intercalate_cons_cons, List.append_assoc, List.append_assoc,
        ih (List.cons_ne_nil _ _)]
      simp [unlines]

/-- What an entry keeps of the one it was made from. -/
structure Kept (original entry : Members ν) : Prop where
  payload : ∀ k, k ∉ repairReserved →
    (k ∉ defaultedFields ∨ ∃ v, original.lookup k = some v ∧ v ≠ .null) →
    entry.lookup k = (original.lookup k).map finitize
  gate : entry.lookup (js "gate") = some (finitize (orElse (original.lookup (js "gate"))
    (orElse (original.lookup (js "type")) (.str (js "evidence")))))
  ts : ∃ now, entry.lookup (js "ts") = some (finitize (orElse (original.lookup (js "ts")) (.str now)))
  files : entry.lookup (js "files") =
    some (finitize (orElse (original.lookup (js "files")) (.obj [])))

theorem Rechained.kept {key : Option JsString} {original entry : Members ν} {seq : ν}
    {previousRaw : Option JsString} (h : Rechained key (payloadFrom original) entry seq previousRaw) :
    Kept original (finitizeMembers entry) := by
  obtain ⟨now, hrest⟩ := h.rest
  have hfield : ∀ k, k ∉ repairReserved → (payloadFrom original).lookup k = original.lookup k := by
    intro k hk
    rw [lookup_payloadFrom, if_neg hk]
  have hentry : ∀ k, k ∉ repairReserved → (finitizeMembers entry).lookup k =
      ((normalized (payloadFrom original) now).lookup k).map finitize := by
    intro k hk
    rw [lookup_finitizeMembers, hrest k hk]
  refine ⟨?_, ?_, ⟨now, ?_⟩, ?_⟩
  · intro k hk hkept
    rw [← hfield k hk] at hkept
    rw [hentry k hk, lookup_normalized hkept, hfield k hk]
  all_goals
    rw [hentry _ (by decide)]
    simp only [normalized, Members.lookup_set, hfield (js "gate") (by decide),
      hfield (js "type") (by decide), hfield (js "ts") (by decide), hfield (js "files") (by decide)]
    rfl

section

variable [Unicode]

theorem repairChain_written {call : RepairCall} {planned : ManifestFiles} {locked after : RepairFiles}
    {result : RepairResult} (hwrite : call.write = true)
    (h : repairChain ν call planned locked = .ok (result, after)) :
    ∃ plan : RepairPlan ν, planRepair call planned = .ok plan ∧
      result.originalHash = plan.originalHash ∧
      after.manifest.root = some (utf8Encode plan.output) := by
  obtain ⟨plan, hplan, h⟩ := bind_eq_ok.mp h
  rw [if_pos hwrite] at h
  obtain ⟨files, hfiles, h⟩ := bind_eq_ok.mp h
  obtain ⟨rfl, rfl⟩ := Prod.mk.inj (Except.ok.inj h)
  obtain ⟨_, -, hfiles⟩ := bind_eq_ok.mp hfiles
  obtain ⟨backups, -, hfiles⟩ := bind_eq_ok.mp hfiles
  obtain rfl := Except.ok.inj hfiles
  exact ⟨plan, hplan, rfl, rfl⟩

/-- `verify` takes a root that is a chain where there are no segments. -/
theorem verify_of_chainOk {files : ManifestFiles} {key : Option JsString} {requireSignatures : Bool}
    (hkey : key ≠ some []) (hnone : discoverSegments ν files = ⟨[], []⟩)
    (h : ChainOk ν ⟨key, requireSignatures, false⟩ (linesOf files.root)) :
    ∃ result : VerifyResult ν, verify files requireSignatures false key = .ok result ∧
      result.valid = true := by
  apply verify_valid_iff.mpr
  refine ⟨hkey, ?_, h, ?_, ?_⟩
  · rw [hnone]
  · rw [hnone]
    exact fun name hname => absurd hname List.not_mem_nil
  · rw [hnone]
    exact ⟨rfl, rfl⟩

omit [Unicode] in
theorem source_of_entry {lines : List JsString} {entries : List (Members ν)}
    (h : List.Forall₂ (fun line entry => parseJson line = some (.obj entry)) lines entries) :
    ∀ entry ∈ entries, ∃ line ∈ lines, parseJson line = some (.obj entry) := by
  induction h with
  | nil => simp
  | cons hparse _ ih =>
    rw [List.forall_mem_cons]
    refine ⟨⟨_, List.mem_cons_self, hparse⟩, ?_⟩
    intro entry hm
    obtain ⟨line, hline, he⟩ := ih entry hm
    exact ⟨line, List.mem_cons_of_mem _ hline, he⟩

omit [Unicode] in
theorem payloads_of_source {call : RepairCall} {lines : List JsString} {entries : List (Members ν)}
    {reason originalHash backup : JsString} {n : Nat} {newly : List Nat}
    (h : List.Forall₂ (fun line entry => parseJson line = some (.obj entry)) lines entries) :
    ∀ payload ∈ entries.map payloadFrom ++
      [repairRecord ν call reason originalHash backup n newly], Payload payload := by
  intro payload hm
  obtain hm | hm := List.mem_append.mp hm
  · obtain ⟨entry, hentry, rfl⟩ := List.mem_map.mp hm
    obtain ⟨line, -, hparse⟩ := source_of_entry h entry hentry
    exact payloadFrom_payload (parseJson_ordered hparse)
  · obtain rfl := List.mem_singleton.mp hm
    exact repairRecord_payload _ _ _ _ _ _

theorem planRepair_lines {call : RepairCall} {files : ManifestFiles} {plan : RepairPlan ν}
    (h : planRepair call files = .ok plan) :
    (∀ line ∈ plan.lines, LineOk line) ∧ plan.output = unlines plan.lines := by
  obtain ⟨-, entries, reason, -, hsource, hchain⟩ := planRepair_ok h
  constructor
  · intro line hm
    obtain ⟨entry, -, rfl⟩ := List.mem_map.mp hm
    exact lineOk_stringify _
  · apply intercalate_newline
    intro hnil
    have hlength := (chainPayloads_chained (payloads_of_source hsource) hchain).length_eq
    rw [RepairPlan.lines, List.map_eq_nil_iff] at hnil
    rw [hnil] at hlength
    simp at hlength

/-- The new manifest is a chain, with the key and without. -/
theorem planRepair_chain {call : RepairCall} {files : ManifestFiles} {plan : RepairPlan ν}
    {opts : ChainOptions} (hkey : opts.key = none ∨ opts.key = call.key)
    (hroot : opts.anchorOnFirst = false) (h : planRepair call files = .ok plan)
    (hanchor : ∀ line ∈ linesOf files.root, fieldOf ν line (js "anchor") = none) :
    ∃ last : ChainState ν, AcceptsAll opts .init plan.lines last := by
  obtain ⟨-, entries, reason, -, hsource, hchain⟩ := planRepair_ok h
  have hbefore : Before (.init : ChainState ν) 0 := ⟨fun _ => rfl, fun hn => by cases hn⟩
  have hnone : ∀ payload ∈ entries.map payloadFrom ++ [repairRecord ν call reason plan.originalHash
      plan.backup plan.originalEntries plan.newlySignedLines],
      payload.lookup (js "anchor") = none := by
    intro payload hm
    obtain hm | hm := List.mem_append.mp hm
    · obtain ⟨entry, hentry, rfl⟩ := List.mem_map.mp hm
      obtain ⟨line, hline, hparse⟩ := source_of_entry hsource entry hentry
      rw [lookup_payloadFrom, if_neg (by decide), ← fieldOf_eq hparse]
      exact hanchor line hline
    · obtain rfl := List.mem_singleton.mp hm
      rfl
  exact chainPayloads_accepted hkey hroot hbefore (payloads_of_source hsource) hnone hchain

omit [JsNumber ν] [Unicode] in
theorem forall₂_concat {α β : Type} {R : α → β → Prop} {xs : List α} {x : α} {ys : List β}
    (h : List.Forall₂ R (xs ++ [x]) ys) :
    ∃ init y, ys = init ++ [y] ∧ List.Forall₂ R xs init ∧ R x y := by
  induction xs generalizing ys with
  | nil =>
    obtain _ | ⟨hy, hnil⟩ := h
    obtain _ | _ := hnil
    exact ⟨[], _, rfl, .nil, hy⟩
  | cons a xs ih =>
    obtain _ | ⟨ha, hrest⟩ := h
    obtain ⟨init, y, rfl, hinit, hy⟩ := ih hrest
    exact ⟨_ :: init, y, rfl, .cons ha hinit, hy⟩

omit [Unicode] in
/-- The new line of each entry keeps what was on the old one. -/
theorem kept_of_chained {key : Option JsString} {lines : List JsString}
    {entries repaired : List (Members ν)}
    (hsource : List.Forall₂ (fun line entry => parseJson line = some (.obj entry)) lines entries)
    (h : List.Forall₂ (fun payload entry => ∃ seq previousRaw, Rechained key payload entry seq previousRaw)
      (entries.map payloadFrom) repaired) :
    List.Forall₂ (fun old new => ∃ original entry : Members ν, parseJson old = some (.obj original) ∧
      parseJson new = some (.obj entry) ∧ Kept original entry) lines
      (repaired.map fun entry => stringify (.obj entry)) := by
  induction hsource generalizing repaired with
  | nil =>
    obtain _ | _ := h
    exact .nil
  | cons hparse _ ih =>
    obtain _ | ⟨⟨seq, previousRaw, hchained⟩, hrest⟩ := h
    apply List.Forall₂.cons
    · exact ⟨_, _, hparse, parseJson_stringify_ordered hchained.ordered, hchained.kept⟩
    · exact ih hrest

theorem linesOf_output {call : RepairCall} {files : ManifestFiles} {plan : RepairPlan ν}
    (h : planRepair call files = .ok plan) : linesOf (some (utf8Encode plan.output)) = plan.lines := by
  obtain ⟨hline, houtput⟩ := planRepair_lines h
  rw [linesOf, houtput, utf8Decode_encode_of_wellFormed _ (unlines_wellFormed hline),
    rawLines_unlines hline]

theorem repairChain_valid {call : RepairCall} {planned files : ManifestFiles}
    {locked after : RepairFiles} {result : RepairResult} {key : Option JsString}
    {requireSignatures : Bool} (hwrite : call.write = true)
    (h : repairChain ν call planned locked = .ok (result, after))
    (hanchor : ∀ line ∈ linesOf planned.root, fieldOf ν line (js "anchor") = none)
    (hfile : files.root = after.manifest.root) (hnone : discoverSegments ν files = ⟨[], []⟩)
    (hkey : key = none ∨ key = call.key) :
    ∃ verified : VerifyResult ν,
      verify files requireSignatures false key = .ok verified ∧ verified.valid = true := by
  obtain ⟨plan, hplan, -, hroot⟩ := repairChain_written hwrite h
  have hchain : ∃ last : ChainState ν, AcceptsAll ⟨key, requireSignatures, false⟩ .init plan.lines last :=
    planRepair_chain hkey rfl hplan hanchor
  obtain ⟨last, hlast⟩ := hchain
  have hne : key ≠ some [] := by
    obtain rfl | rfl := hkey
    · simp
    · exact (planRepair_ok hplan).1
  apply verify_of_chainOk hne hnone
  rw [hfile, hroot, linesOf_output hplan]
  exact ⟨by simp, last, hlast⟩

theorem repairChain_lines {call : RepairCall} {planned : ManifestFiles}
    {locked after : RepairFiles} {result : RepairResult} (hwrite : call.write = true)
    (h : repairChain ν call planned locked = .ok (result, after)) :
    ∃ lines line, linesOf after.manifest.root = lines ++ [line] ∧
      List.Forall₂ (fun old new => ∃ original entry : Members ν, parseJson old = some (.obj original) ∧
        parseJson new = some (.obj entry) ∧ Kept original entry) (linesOf planned.root) lines ∧
      ∃ record : Members ν, parseJson line = some (.obj record) ∧
        record.lookup (js "type") = some (.str (js "manifest-chain-repair")) ∧
        record.lookup (js "originalHash") = some (.str result.originalHash) := by
  obtain ⟨plan, hplan, hresult, hroot⟩ := repairChain_written hwrite h
  obtain ⟨-, entries, reason, -, hsource, hrepaired⟩ := planRepair_ok hplan
  have hchained := chainPayloads_chained (payloads_of_source hsource) hrepaired
  obtain ⟨kept, record, hsplit, hkept, seq, previousRaw, hrecord⟩ := forall₂_concat hchained
  obtain ⟨now, hrest⟩ := hrecord.rest
  refine ⟨kept.map fun entry => stringify (.obj entry), stringify (.obj record), ?_,
    kept_of_chained hsource hkept, finitizeMembers record,
    parseJson_stringify_ordered hrecord.ordered, ?_, ?_⟩
  · rw [hroot, linesOf_output hplan, RepairPlan.lines, hsplit, List.map_append, List.map_singleton]
  · rw [lookup_finitizeMembers, hrest _ (by decide), lookup_normalized (Or.inl (by decide))]
    rfl
  · rw [lookup_finitizeMembers, hrest _ (by decide), lookup_normalized (Or.inl (by decide)), hresult]
    rfl

/-- A repair that reports success leaves the entries there were in their order, and after them the
record of the repair; and where no entry has an anchor, a manifest that verifies. -/
theorem repairChain_verifies (call : RepairCall) (planned : ManifestFiles)
    (locked after : RepairFiles) (result : RepairResult) (hwrite : call.write = true)
    (h : repairChain ν call planned locked = .ok (result, after)) :
    ((∀ line ∈ linesOf planned.root, fieldOf ν line (js "anchor") = none) →
      ∀ files : ManifestFiles, files.root = after.manifest.root →
        discoverSegments ν files = ⟨[], []⟩ → ∀ key, key = none ∨ key = call.key →
        ∀ requireSignatures, ∃ verified : VerifyResult ν,
          verify files requireSignatures false key = .ok verified ∧ verified.valid = true) ∧
    ∃ lines line, linesOf after.manifest.root = lines ++ [line] ∧
      List.Forall₂ (fun old new => ∃ original entry : Members ν, parseJson old = some (.obj original) ∧
        parseJson new = some (.obj entry) ∧ Kept original entry) (linesOf planned.root) lines ∧
      ∃ record : Members ν, parseJson line = some (.obj record) ∧
        record.lookup (js "type") = some (.str (js "manifest-chain-repair")) ∧
        record.lookup (js "originalHash") = some (.str result.originalHash) := by
  constructor
  · intro hanchor files hfile hnone key hkey requireSignatures
    exact repairChain_valid hwrite h hanchor hfile hnone hkey
  · exact repairChain_lines hwrite h

end

/-! ### A gate that is null -/

def brokenEntry : Members Int := [(js "gate", .null)]

def brokenLine : JsString := stringify (.obj brokenEntry)

def brokenManifest : ManifestFiles := ⟨some (utf8Encode (unlines [brokenLine])), none⟩

def sampleRepair : RepairCall where
  path := js ".adlc/manifest.jsonl"
  reason := some (js "restore the chain")
  write := true
  attestUnsigned := false
  key := none
  isoNow := js "2026-01-01T00:00:00.000Z"
  clock _ := js "2026-01-01T00:00:00.000Z"
  syntaxError _ := []

theorem parseJson_brokenLine : parseJson brokenLine = some (.obj brokenEntry) := by
  apply parseJson_stringify
  exact ⟨⟨by decide, by decide⟩, trivial, trivial⟩

theorem numberedLines_broken :
    numberedLines (utf8Decode (utf8Encode (unlines [brokenLine]))) = [(brokenLine, 1)] := by
  have hline : LineOk brokenLine := lineOk_stringify _
  rw [utf8Decode_encode_of_wellFormed _ (unlines_wellFormed (by simp [hline]))]
  have hsplit : splitLines (unlines [brokenLine]) = [brokenLine, []] :=
    splitLines_append hline.noBreak []
  have hblank : notBlank [] = false := rfl
  simp [numberedLines, hsplit, hline.notBlank, hblank]

theorem linesOf_broken : linesOf brokenManifest.root = [brokenLine] := by
  have hmap := map_fst_numberedLines (utf8Decode (utf8Encode (unlines [brokenLine])))
  rw [numberedLines_broken] at hmap
  exact hmap.symm

theorem verify_broken : ∃ integrity : VerifyResult Int,
    @verify Int _ asciiUnicode brokenManifest true false none = .ok integrity ∧
      integrity.valid = false := by
  have hraw : readRawLines brokenManifest.root = [(brokenLine, 1)] := numberedLines_broken
  have hdiscovered : @discoverSegments Int _ asciiUnicode brokenManifest = ⟨[], []⟩ := rfl
  have hkey : validateKeyParam none = .ok none := rfl
  have hchecked : ∃ failure, checkLines (ν := Int) ⟨none, true, false⟩ .init [(brokenLine, 1)] =
      .ok (.error failure) := by
    rw [checkLines, checkLine, parseJson_brokenLine]
    exact ⟨_, rfl⟩
  obtain ⟨failure, hfailure⟩ := hchecked
  have hchain : verifyChain (ν := Int) [(brokenLine, 1)] ⟨none, true, false⟩ =
      .ok ⟨⟨false, failure.message, failure.count, 0, false, some failure.break_⟩, none⟩ := by
    rw [verifyChain, if_neg (List.cons_ne_nil _ _), hfailure]
    rfl
  unfold verify
  simp only [hkey, hraw, hdiscovered, hchain, bind, Except.bind, pure, Except.pure]
  exact ⟨_, rfl, rfl⟩

theorem isSegmentedRepo_broken : isSegmentedRepo Int brokenManifest = false := by
  have hcutover : rootEndsInCutover Int brokenManifest = false := by
    rw [rootEndsInCutover, linesOf_broken, List.getLast?_singleton]
    simp only [parseJson_brokenLine]
    rfl
  rw [isSegmentedRepo, hcutover]
  rfl

theorem repairChain_broken : ∃ result after,
    @repairChain Int _ asciiUnicode sampleRepair brokenManifest ⟨brokenManifest, fun _ => none⟩ =
      .ok (result, after) := by
  obtain ⟨integrity, hverify, hvalid⟩ := verify_broken
  have hplan : ∃ plan : RepairPlan Int, @planRepair Int _ asciiUnicode sampleRepair brokenManifest =
      .ok plan ∧ plan.originalHash = sha256 (utf8Decode (utf8Encode (unlines [brokenLine]))) := by
    have htarget : repairTarget Int brokenManifest = .ok () := by
      rw [repairTarget, isSegmentedRepo_broken]
      rfl
    have hsource : parseSource sampleRepair.syntaxError
        (numberedLines (utf8Decode (utf8Encode (unlines [brokenLine])))) =
          .ok [(1, (.obj brokenEntry : Json Int))] := by
      rw [numberedLines_broken, parseSource, parseJson_brokenLine]
      rfl
    have hrefuse : refuseValid integrity = .ok () := by
      rw [refuseValid, hvalid]
      rfl
    refine ⟨_, bind_eq_ok.mpr ⟨(), htarget, bind_eq_ok.mpr ⟨none, rfl, bind_eq_ok.mpr
      ⟨js "restore the chain", rfl, bind_eq_ok.mpr ⟨_, rfl, bind_eq_ok.mpr ⟨_, hsource, bind_eq_ok.mpr
      ⟨integrity, hverify, bind_eq_ok.mpr ⟨(), hrefuse, bind_eq_ok.mpr ⟨_, rfl, bind_eq_ok.mpr
      ⟨(), rfl, bind_eq_ok.mpr ⟨_, rfl, rfl⟩⟩⟩⟩⟩⟩⟩⟩⟩⟩, rfl⟩
  obtain ⟨plan, hplan, hhash⟩ := hplan
  have hcurrent : checkCurrent plan.originalHash brokenManifest.root = .ok () := by
    rw [hhash]
    exact if_pos rfl
  exact ⟨_, _, bind_eq_ok.mpr ⟨plan, hplan, bind_eq_ok.mpr ⟨_, bind_eq_ok.mpr ⟨(), hcurrent,
    bind_eq_ok.mpr ⟨_, rfl, rfl⟩⟩, rfl⟩⟩⟩

theorem repairChain_verifies_broken :
    ∃ result after, @repairChain Int _ asciiUnicode sampleRepair brokenManifest
        ⟨brokenManifest, fun _ => none⟩ = .ok (result, after) ∧
      ∃ verified : VerifyResult Int,
        @verify Int _ asciiUnicode ⟨after.manifest.root, none⟩ true false none = .ok verified ∧
          verified.valid = true := by
  obtain ⟨result, after, h⟩ := repairChain_broken
  obtain ⟨hvalid, -⟩ :=
    @repairChain_verifies Int _ asciiUnicode sampleRepair brokenManifest _ after result rfl h
  refine ⟨result, after, h, hvalid ?_ ⟨after.manifest.root, none⟩ rfl rfl none (Or.inl rfl) true⟩
  rw [linesOf_broken]
  intro line hline
  obtain rfl := List.mem_singleton.mp hline
  rw [fieldOf_eq parseJson_brokenLine]
  rfl

/-- A gate that is null is not kept: the entry gets a gate of its own. -/
theorem repaired_null_gate :
    ∃ result after, @repairChain Int _ asciiUnicode sampleRepair brokenManifest
        ⟨brokenManifest, fun _ => none⟩ = .ok (result, after) ∧
      fieldOf Int brokenLine (js "gate") = some .null ∧
      ∃ lines line new, linesOf after.manifest.root = lines ++ [line] ∧ lines = [new] ∧
        fieldOf Int new (js "gate") ≠ some .null := by
  obtain ⟨result, after, h⟩ := repairChain_broken
  obtain ⟨lines, line, hlines, hkept, -⟩ := @repairChain_lines Int _ asciiUnicode _ _ _ _ _ rfl h
  rw [linesOf_broken] at hkept
  obtain _ | ⟨⟨original, entry, horiginal, hentry, hfields⟩, hnil⟩ := hkept
  obtain _ | _ := hnil
  refine ⟨result, after, h, ?_, _, line, _, hlines, rfl, ?_⟩
  · rw [fieldOf_eq parseJson_brokenLine]
    rfl
  · rw [parseJson_brokenLine] at horiginal
    obtain rfl := Json.obj.inj (Option.some.inj horiginal)
    rw [fieldOf_eq hentry, hfields.gate]
    exact fun hnull => by cases Option.some.inj hnull

end Adlc.GateManifest
