import Adlc.Tickets.Outcome
import Adlc.Tickets.Recovery

namespace Adlc.Tickets

open Adlc.Framework Program

section Recovery

variable {ν : Type} [JsNumber ν]

/-! ## A journal is read back -/

variable {t : Transaction} {plan done : List PlannedChange} {p : PlannedChange} {s0 s s' : Repo}
  {d : Direction} {id : JsString} {root : Path} {place : Place} {state : JsString}

theorem orNullText_isJson (value : Option JsString) : (orNullText value : Json ν).IsJson := by
  cases value <;> trivial

theorem operation_isJson (op : Operation) : (op.toJson : Json ν).IsJson := by
  refine ⟨⟨?_, ?_⟩, ?_⟩
  · show [js "role", js "action", js "filename", js "target", js "stage", js "backup", js "beforeHash",
      js "afterHash"].Nodup
    decide
  · show [js "role", js "action", js "filename", js "target", js "stage", js "backup", js "beforeHash",
      js "afterHash"].Pairwise fun a b => mustPrecede b a = false
    decide
  · exact ⟨trivial, trivial, trivial, trivial, orNullText_isJson _, orNullText_isJson _, orNullText_isJson _,
      orNullText_isJson _, trivial⟩

theorem transaction_isJson (t : Transaction) (state : JsString) : (t.toJson state : Json ν).IsJson := by
  refine ⟨⟨?_, ?_⟩, ?_⟩
  · show [js "version", js "id", js "operation", js "state", js "beforeHash", js "afterHash",
      js "evidenceRequired", js "bypassAudit", js "ticketId", js "beforeTicketId", js "beforeTicketHash",
      js "afterTicketHash", js "storePath", js "operations"].Nodup
    decide
  · show [js "version", js "id", js "operation", js "state", js "beforeHash", js "afterHash",
      js "evidenceRequired", js "bypassAudit", js "ticketId", js "beforeTicketId", js "beforeTicketHash",
      js "afterTicketHash", js "storePath", js "operations"].Pairwise fun a b => mustPrecede b a = false
    decide
  · refine ⟨JsNumber.finite_of_integer _ (JsNumber.integer_ofNat 1 (by decide)), trivial, trivial, trivial, trivial,
      trivial, trivial, trivial, orNullText_isJson _, orNullText_isJson _, orNullText_isJson _, orNullText_isJson _,
      trivial, (elemsIsJson_iff _).mpr fun v hv => ?_, trivial⟩
    obtain ⟨op, -, rfl⟩ := List.mem_map.mp hv
    exact operation_isJson op

/-- What a recovery reads in the journal of a transaction. -/
def Transaction.journal (ν : Type) [JsNumber ν] (t : Transaction) (state : JsString) : Journal ν :=
  ⟨t.toJson state, t.operations.map Operation.toJson⟩

theorem parseJournal_bytes (h : t.operation ≠ js "migrate") (state : JsString) :
    parseJournal (t.bytes ν state) = some (t.journal ν state) := by
  have hoperations : (t.toJson state : Json ν).get? (js "operations") =
      some (.arr (t.operations.map Operation.toJson)) := rfl
  have hversion : eqNum ((t.toJson state : Json ν).get? (js "version")) (JsNumber.ofNat 1) = true :=
    decide_eq_true rfl
  have hoperation : eqStr ((t.toJson state : Json ν).get? (js "operation")) (js "migrate") = false :=
    decide_eq_false h
  unfold parseJournal Transaction.bytes
  rw [parseJson_stringify2 (transaction_isJson t state)]
  simp only [hoperations, hversion, hoperation, Bool.not_false, Bool.and_self, if_true]
  rfl

theorem parseJournal_nil : parseJournal (ν := ν) [] = none := rfl

/-! ## Its paths lead to the transaction's files -/

theorem shardFilename_plain {name : JsString} (h : isShardFilename name = true) : PlainName name := by
  unfold isShardFilename at h
  simp only [Bool.and_eq_true, decide_eq_true_eq, List.all_eq_true] at h
  obtain ⟨⟨⟨⟨⟨hlength, hslug⟩, -⟩, hdashes⟩, hhex⟩, hend⟩ := h
  have hshort : ∀ other : JsString, other.length ≤ 71 → name ≠ other := by
    rintro other hother rfl
    omega
  refine ⟨fun hslash => ?_, hshort [] (by decide), hshort _ (by decide), hshort _ (by decide)⟩
  have hsplit : name = name.take (name.length - 71) ++ ((name.drop (name.length - 71)).take 2 ++
      ((name.drop (name.length - 71 + 2)).take 64 ++ name.drop (name.length - 71 + 66))) := by
    conv_lhs => rw [← List.take_append_drop (name.length - 71) name,
      ← List.take_append_drop 2 (name.drop _), List.drop_drop,
      ← List.take_append_drop 64 (name.drop (name.length - 71 + 2)), List.drop_drop]
  rw [hsplit, hdashes, hend] at hslash
  simp only [List.mem_append] at hslash
  obtain hmem | hmem | hmem | hmem := hslash
  · exact absurd (hslug slash hmem) (by decide)
  · exact absurd hmem (by decide)
  · exact absurd (hhex slash hmem) (by decide)
  · exact absurd hmem (by decide)

theorem matchesClasses_mem {classes : List (UInt16 → Bool)} {s : JsString} (h : matchesClasses classes s = true)
    {c : UInt16} (hc : c ∈ s) : ∃ f ∈ classes, f c = true := by
  induction classes generalizing s with
  | nil =>
    cases s with
    | nil => cases hc
    | cons e s => cases h
  | cons f classes ih =>
    cases s with
    | nil => cases h
    | cons e s =>
      obtain ⟨hf, hrest⟩ := (Bool.and_eq_true _ _).mp h
      obtain rfl | hc := List.mem_cons.mp hc
      · exact ⟨f, List.mem_cons_self, hf⟩
      · obtain ⟨g, hg, hgc⟩ := ih hrest hc
        exact ⟨g, List.mem_cons_of_mem _ hg, hgc⟩

theorem transactionId_plain (h : isTransactionId id = true) : PlainName id := by
  refine ⟨fun hslash => ?_, ?_, ?_, ?_⟩
  · obtain ⟨f, hf, hslash⟩ := matchesClasses_mem h hslash
    simp only [List.mem_append, List.mem_replicate, List.mem_singleton] at hf
    have hclasses : f = isHexAnyCase ∨ f = isDash ∨ f = isVersionUnit ∨ f = isVariantUnit := by tauto
    obtain rfl | rfl | rfl | rfl := hclasses <;> exact absurd hslash (by decide)
  · rintro rfl
    cases h
  · rintro rfl
    revert h
    decide
  · rintro rfl
    revert h
    decide

/-- Each segment of the path of a file stands for itself. -/
def Plain (place : Place) : Prop := ∀ name ∈ place.dir.segmentsOf ++ [place.name], PlainName name

theorem resolve_relative (h : Plain place) (root : Path) : resolve root place.relative = place.path root := by
  rw [Place.relative, resolve_segments (fun name hname => ⟨(h name hname).noSlash, (h name hname).ne_nil⟩),
    foldl_pushSegment h, Place.path, List.append_assoc]

theorem relative_ne_nil (h : Plain place) : place.relative ≠ [] := by
  intro hnil
  have hresolve := resolve_relative h []
  rw [hnil] at hresolve
  have hlength := congrArg List.length hresolve
  simp only [Place.path, List.length_append, List.length_singleton] at hlength
  rw [show (resolve [] []).length = 0 from rfl] at hlength
  omega

theorem within_path (root : Path) (place : Place) : isWithin root (place.path root) = true := by
  refine decide_eq_true ⟨⟨place.dir.segmentsOf ++ [place.name], (List.append_assoc ..).symm⟩, fun h => ?_⟩
  have hlength := congrArg List.length h
  simp only [Place.path, List.length_append, List.length_singleton] at hlength
  omega

omit [JsNumber ν] in
theorem safeJournalPath_relative (h : Plain place) (root : Path) (label : JsString) :
    safeJournalPath root (some (.str place.relative : Json ν)) label = .ok (place.path root) := by
  rw [safeJournalPath, if_neg (relative_ne_nil h), resolve_relative h, if_pos (within_path root place)]

theorem plain_of {e : Directory} {name : JsString} (he : ∀ segment ∈ e.segmentsOf, PlainName segment)
    (hname : PlainName name) : Plain ⟨e, name⟩ := by
  intro segment hsegment
  obtain hsegment | hsegment := List.mem_append.mp hsegment
  · exact he segment hsegment
  · rw [List.mem_singleton.mp hsegment]
    exact hname

theorem plain_dirs {e : Directory} (hid : isTransactionId id = true)
    (he : e = .tickets ∨ e = .archive ∨ e = .stage id ∨ e = .backup id) :
    ∀ segment ∈ e.segmentsOf, PlainName segment := by
  have hplain := transactionId_plain hid
  have hrest : ∀ segment ∈ [adlcName, js "tickets", js "ticket-archive", transactionsName, js "stage", js "backup"],
      PlainName segment := by decide
  intro segment hsegment
  obtain rfl | rfl | rfl | rfl := he <;>
    simp only [Directory.segmentsOf, List.mem_cons, List.not_mem_nil, or_false] at hsegment
  · exact hrest segment (by obtain rfl | rfl := hsegment <;> simp)
  · exact hrest segment (by obtain rfl | rfl := hsegment <;> simp)
  · obtain rfl | rfl | rfl | rfl := hsegment
    · exact hrest _ (by simp)
    · exact hrest _ (by simp)
    · exact hplain
    · exact hrest _ (by simp)
  · obtain rfl | rfl | rfl | rfl := hsegment
    · exact hrest _ (by simp)
    · exact hrest _ (by simp)
    · exact hplain
    · exact hrest _ (by simp)

theorem stage_plain (hid : isTransactionId id = true) {key : JsString} (hkey : PlainName key) :
    Plain (stagePlace id key) := plain_of (plain_dirs hid (.inr (.inr (.inl rfl)))) hkey

theorem backup_plain (hid : isTransactionId id = true) {key : JsString} (hkey : PlainName key) :
    Plain (backupPlace id key) := plain_of (plain_dirs hid (.inr (.inr (.inr rfl)))) hkey

theorem Separate.plain (h : Separate id plan) (hp : p ∈ plan) : Plain p.target :=
  plain_of (plain_dirs h.transactionId ((h.dirs p hp).imp_right .inl)) (shardFilename_plain (h.names p hp))

theorem Separate.located (h : Separate id plan) (hp : p ∈ plan) (root : Path) :
    locate root (p.target.path root) = p.target := by
  refine locate_path root fun path hpath => ?_
  obtain hdir | hdir := h.dirs p hp <;> rw [hdir] at hpath <;> cases hpath

/-! ## One operation of the journal -/

variable [Unicode] {o : TransactionOptions} {index : Nat}

/-- A change that a recovery accepts: what the journal says of it fits the layout of the transaction. -/
structure Accepted (root : Path) (t : Transaction) (state : JsString) (index : Nat) (p : PlannedChange) : Prop where
  name : PlainName p.key
  key : ∀ (ν : Type) [JsNumber ν], recoveryKey root (t.journal ν state) ((p.operation t.id).toJson : Json ν) index
    (p.operation t.id).action (p.target.path root) = .ok p.key

omit [JsNumber ν] [Unicode] in
theorem operationAction_toJson (op : Operation) : operationAction (op.toJson : Json ν) = .ok op.action := by
  have haction : (op.toJson : Json ν).get? (js "action") = some (.str op.action.text) := rfl
  rw [operationAction, haction]
  cases op.action <;> rfl

omit [JsNumber ν] [Unicode] in
theorem operation_get_target (id : JsString) (p : PlannedChange) :
    ((p.operation id).toJson : Json ν).get? (js "target") = some (.str p.target.relative) :=
  congrArg (fun place : Place => some (Json.str place.relative)) (operation_target id p)

omit [JsNumber ν] [Unicode] in
theorem operation_get_stage {bytes : Bytes} (id : JsString) (h : p.after = some bytes) :
    ((p.operation id).toJson : Json ν).get? (js "stage") = some (.str (stagePlace id p.key).relative) := by
  show some (orNullText ((p.operation id).stage.map Place.relative)) = _
  rw [PlannedChange.operation, h]
  rfl

omit [JsNumber ν] [Unicode] in
theorem operation_get_afterHash {bytes : Bytes} (id : JsString) (h : p.after = some bytes) :
    ((p.operation id).toJson : Json ν).get? (js "afterHash") = some (.str (sha256Hex bytes)) := by
  show some (orNullText (p.operation id).afterHash) = _
  rw [PlannedChange.operation, h]
  rfl

omit [JsNumber ν] [Unicode] in
theorem operation_get_backup (id : JsString) (p : PlannedChange) :
    ((p.operation id).toJson : Json ν).get? (js "backup") =
      some (orNullText ((p.before.map fun _ => backupPlace id p.key).map Place.relative)) :=
  congrArg (fun backup : Option Place => some (orNullText (backup.map Place.relative))) (operation_backup id p)

omit [JsNumber ν] [Unicode] in
theorem operation_get_beforeHash (id : JsString) (p : PlannedChange) :
    ((p.operation id).toJson : Json ν).get? (js "beforeHash") = some (orNullText (p.before.map sha256Hex)) :=
  congrArg (fun hash : Option JsString => some (orNullText hash)) (operation_beforeHash id p)

theorem OfTicket.accepted (h : OfTicket p) (index : Nat) : Accepted root t state index p where
  name := by
    rw [h.key]
    exact shardFilename_plain h.name
  key ν _ := by
    have hget : ((p.operation t.id).toJson : Json ν).get? (js "role") = some (.str (p.operation t.id).role.text) :=
      rfl
    have hrole : recoveryRole root ((p.operation t.id).toJson : Json ν) (p.target.path root) = js "ticket" := by
      rw [recoveryRole, hget, operation_role, h.role]
      rfl
    have hfilename : str? ((p.operation t.id).toJson : Json ν) (js "filename") = some p.filename :=
      congrArg some (operation_filename t.id p)
    have hpath : p.target.path root = (root ++ Directory.tickets.segmentsOf) ++ [p.filename] := by
      rw [h.target]
      rfl
    rw [recoveryKey, hrole, if_neg (by decide), if_pos rfl, hfilename, hpath, List.dropLast_concat,
      List.getLast?_concat]
    dsimp only
    rw [if_pos ⟨rfl, rfl, h.name⟩, h.key]

/-- No operation before the index is about the archive. -/
def TicketsBefore (t : Transaction) (index : Nat) : Prop := ∀ op ∈ t.operations.take index, op.role = .ticket

omit [Unicode] in
theorem TicketsBefore.count (h : TicketsBefore t index) (state : JsString) :
    priorAuxiliaryCount (t.journal ν state) index = 0 := by
  rw [priorAuxiliaryCount, List.countP_eq_zero]
  intro item hitem
  rw [Transaction.journal, ← List.map_take] at hitem
  obtain ⟨op, hop, rfl⟩ := List.mem_map.mp hitem
  have hget : (op.toJson : Json ν).get? (js "role") = some (.str op.role.text) := rfl
  rw [hget, h op hop]
  exact Bool.eq_false_iff.mp rfl

theorem OfArchive.accepted (h : OfArchive o p) (hticket : t.ticketId = o.ticketId)
    (hoperation : t.operation = o.operation) (hfirst : TicketsBefore t index) :
    Accepted root t state index p where
  name := by
    rw [h.key]
    decide
  key ν _ := by
    obtain ⟨ticketId, hid, htarget⟩ := h.target
    have hget : ((p.operation t.id).toJson : Json ν).get? (js "role") = some (.str (p.operation t.id).role.text) :=
      rfl
    have hrole : recoveryRole root ((p.operation t.id).toJson : Json ν) (p.target.path root) = js "auxiliary" := by
      rw [recoveryRole, hget, operation_role, h.role]
      rfl
    have hjournal : (t.journal ν state).get? "ticketId" = some (orNullText t.ticketId) := rfl
    have htext : (t.journal ν state).text? "ticketId" = some ticketId := by
      rw [Journal.text?, hjournal, hticket, hid]
      rfl
    have haction : expectedAuxiliaryAction (t.journal ν state) = some (p.operation t.id).action := by
      have hget : (t.journal ν state).get? "operation" = some (.str t.operation) := rfl
      rw [expectedAuxiliaryAction, hget, hoperation]
      obtain ⟨hop, hafter⟩ | ⟨hop, hafter⟩ := h.action
      · obtain ⟨bytes, hafter⟩ := Option.isSome_iff_exists.mp hafter
        rw [hop, PlannedChange.operation, hafter]
        rfl
      · rw [hop, PlannedChange.operation, hafter]
        rfl
    have hpath : p.target.path root = root ++ Directory.archive.segmentsOf ++ [ticketFilename ticketId] := by
      rw [htarget]
      rfl
    rw [recoveryKey, hrole, if_neg (by decide), if_neg (by decide), if_pos rfl, htext]
    dsimp only
    rw [if_neg (not_not_intro haction), hpath, assertExactJournalPath, if_pos rfl, hfirst.count, h.key]
    rfl

theorem validateRecoveryOperation_ok (hid : isTransactionId t.id = true) (h : Accepted root t state index p) :
    validateRecoveryOperation root t.id (t.journal ν state) ((p.operation t.id).toJson : Json ν) index
      (p.operation t.id).action (p.target.path root) = .ok () := by
  have hstage : ((p.operation t.id).toJson : Json ν).get? (js "stage") =
      some (orNullText ((p.operation t.id).stage.map Place.relative)) := rfl
  have hbackup := operation_get_backup (ν := ν) t.id p
  have hstaged := safeJournalPath_relative (ν := ν) (stage_plain hid h.name) root (js "operation stage")
  have hbacked := safeJournalPath_relative (ν := ν) (backup_plain hid h.name) root (js "operation backup")
  have hrest : (if isTruthy (((p.operation t.id).toJson : Json ν).get? (js "backup")) = true then do
      let backup ← safeJournalPath root (((p.operation t.id).toJson : Json ν).get? (js "backup"))
        (js "operation backup")
      assertExactJournalPath backup ((backupPlace t.id p.key).path root) (js "operation backup")
    else Except.ok () : Except TicketStoreError Unit) = .ok () := by
    rw [hbackup]
    cases p.before with
    | none => rfl
    | some bytes =>
      have htruthy : isTruthy (some (.str (backupPlace t.id p.key).relative : Json ν)) = true :=
        decide_eq_true (relative_ne_nil (backup_plain hid h.name))
      simp only [Option.map_some, orNullText, Option.elim, htruthy, if_true, hbacked]
      exact if_pos rfl
  unfold validateRecoveryOperation
  rw [h.key ν]
  cases hafter : p.after with
  | none =>
    have haction : (p.operation t.id).action = .delete := by
      rw [PlannedChange.operation, hafter]
    have hnone : (p.operation t.id).stage = none := by
      rw [PlannedChange.operation, hafter]
    rw [haction, hstage, hnone]
    exact hrest
  | some bytes =>
    have haction : (p.operation t.id).action = .write := by
      rw [PlannedChange.operation, hafter]
    have hsome : (p.operation t.id).stage = some (stagePlace t.id p.key) := by
      rw [PlannedChange.operation, hafter]
    have hexact : assertExactJournalPath ((stagePlace t.id p.key).path root) ((stagePlace t.id p.key).path root)
        (js "operation stage") = .ok () := if_pos rfl
    rw [haction, hstage, hsome]
    simp only [Option.map_some, orNullText, Option.elim]
    rw [hstaged]
    show (assertExactJournalPath _ _ _ >>= fun _ => _) = _
    rw [hexact]
    exact hrest

def temporarySuffix : Direction → String
  | .complete => ".recovery-"
  | .rollback => ".rollback-"

/-- The refusal of a copy that is not as the journal has it. -/
def corruptCopy (d : Direction) (filename : JsString) : TicketStoreError :=
  match d with
  | .complete => invalid "CORRUPT_STAGE" (js "cannot verify staged " ++ filename)
  | .rollback => invalid "CORRUPT_BACKUP" (js "cannot verify backup " ++ filename)

/-- A file takes its content from a copy, or is removed. -/
def restoreChange (ν : Type) [JsNumber ν] (id : JsString) (d : Direction) (p : PlannedChange) : Script Unit :=
  match (p.change id).goal d with
  | some bytes =>
    restoreFrom ((p.change id).source d) p.target (temporaryOf p.target (temporarySuffix d) id)
      (some (.str (sha256Hex bytes) : Json ν)) (corruptCopy d p.filename)
  | none => removeIfThere p.target

omit [Unicode] in
theorem operation_get_filename (id : JsString) (p : PlannedChange) :
    templateText (((p.operation id).toJson : Json ν).get? (js "filename")) = p.filename :=
  operation_filename id p

/-- Completed, an operation takes the content of its staged copy, or removes its file. -/
theorem completeOperation_eq (hsep : Separate t.id plan) (hp : p ∈ plan) (h : Accepted root t state index p) :
    recoverOperation root t.id (t.journal ν state) .complete index (p.operation t.id).toJson =
      restoreChange ν t.id .complete p := by
  have hvalid := validateRecoveryOperation_ok (ν := ν) hsep.transactionId h
  have hlocated := hsep.located hp root
  unfold recoverOperation
  rw [operationAction_toJson, operation_get_target, safeJournalPath_relative (hsep.plain hp)]
  show (Program.lift (validateRecoveryOperation root t.id _ _ index (p.operation t.id).action (p.target.path root)) >>=
    fun _ => _) = _
  rw [hvalid]
  cases hafter : p.after with
  | none =>
    have haction : (p.operation t.id).action = .delete := by rw [PlannedChange.operation, hafter]
    have hgoal : (p.change t.id).goal .complete = none := hafter
    rw [restoreChange, hgoal, haction]
    show removeIfThere (locate root (p.target.path root)) = _
    rw [hlocated]
  | some bytes =>
    have haction : (p.operation t.id).action = .write := by rw [PlannedChange.operation, hafter]
    have hgoal : (p.change t.id).goal .complete = some bytes := hafter
    rw [restoreChange, hgoal, haction]
    show (Program.lift (safeJournalPath root (((p.operation t.id).toJson : Json ν).get? (js "stage")) _) >>=
      fun stage => _) = _
    rw [operation_get_stage t.id hafter, safeJournalPath_relative (stage_plain hsep.transactionId h.name)]
    show restoreFrom (locate root ((stagePlace t.id p.key).path root)) (locate root (p.target.path root)) _ _ _ = _
    rw [hlocated, operation_get_afterHash t.id hafter, operation_get_filename, locate_path root (by rintro _ ⟨⟩)]
    rfl

/-- Rolled back, it takes the content of its backup, or removes a file that was not there. -/
theorem rollbackOperation_eq (hsep : Separate t.id plan) (hp : p ∈ plan) (h : Accepted root t state index p) :
    recoverOperation root t.id (t.journal ν state) .rollback index (p.operation t.id).toJson =
      restoreChange ν t.id .rollback p := by
  have hvalid := validateRecoveryOperation_ok (ν := ν) hsep.transactionId h
  have hlocated := hsep.located hp root
  have hbackup := operation_get_backup (ν := ν) t.id p
  have hhash := operation_get_beforeHash (ν := ν) t.id p
  unfold recoverOperation
  rw [operationAction_toJson, operation_get_target, safeJournalPath_relative (hsep.plain hp)]
  show (Program.lift (validateRecoveryOperation root t.id _ _ index (p.operation t.id).action (p.target.path root)) >>=
    fun _ => _) = _
  rw [hvalid]
  cases hbefore : p.before with
  | none =>
    have hgoal : (p.change t.id).goal .rollback = none := hbefore
    rw [restoreChange, hgoal]
    show (if isTruthy (((p.operation t.id).toJson : Json ν).get? (js "backup")) = true then _ else _) = _
    rw [hbackup, hbefore]
    show removeIfThere (locate root (p.target.path root)) = _
    rw [hlocated]
  | some bytes =>
    have hgoal : (p.change t.id).goal .rollback = some bytes := hbefore
    have hplain := backup_plain hsep.transactionId h.name
    have htruthy : isTruthy (some (.str (backupPlace t.id p.key).relative : Json ν)) = true :=
      decide_eq_true (relative_ne_nil hplain)
    rw [hbefore] at hbackup hhash
    rw [restoreChange, hgoal]
    show (if isTruthy (((p.operation t.id).toJson : Json ν).get? (js "backup")) = true then
      Program.lift (safeJournalPath root (((p.operation t.id).toJson : Json ν).get? (js "backup")) _) >>=
        fun backup => _ else _) = _
    rw [hbackup]
    show (if isTruthy (some (.str (backupPlace t.id p.key).relative : Json ν)) = true then
      Program.lift (safeJournalPath root (some (.str (backupPlace t.id p.key).relative : Json ν)) _) >>=
        fun backup => _ else _) = _
    rw [if_pos htruthy, safeJournalPath_relative hplain]
    show restoreFrom (locate root ((backupPlace t.id p.key).path root)) (locate root (p.target.path root)) _ _ _ = _
    rw [hlocated, hhash, operation_get_filename, locate_path root (by rintro _ ⟨⟩)]
    rfl

/-- What a recovery does for an operation of its journal. -/
theorem recoverOperation_eq (hsep : Separate t.id plan) (hp : p ∈ plan) (h : Accepted root t state index p)
    (d : Direction) : recoverOperation root t.id (t.journal ν state) d index (p.operation t.id).toJson =
      restoreChange ν t.id d p := by
  cases d with
  | complete => exact completeOperation_eq hsep hp h
  | rollback => exact rollbackOperation_eq hsep hp h

/-! ## Working off a journal -/

variable {faults : Prop} {I : Repo → Prop} {bad : TicketStoreError → Repo → Prop}

omit [JsNumber ν] [Unicode] in
theorem restoreFrom_advances {bytes : Bytes} {suffix : String} {refusal : TicketStoreError}
    (hI : Stable id plan d I) (hsep : Separate id plan) (hdone : done ⊆ plan) (hp : p ∈ plan)
    (hsuffix : suffix ∈ temporarySuffixes) (h : Upto id d I done s) (hgoal : (p.change id).goal d = some bytes)
    (hleft : Leftover (planChanges id plan) s.file)
    (hbad : ∀ e, (s.dirs p.target.dir).isSome = false ∨ s.file ((p.change id).source d) = none → bad e s)
    (hfault : faults → ∀ e s', I s' → bad e s') :
    (restoreFrom ((p.change id).source d) p.target (temporaryOf p.target suffix id)
      (some (.str (sha256Hex bytes) : Json ν)) refusal).Safe faults I
      (Ending (fun _ => Upto id d I (done ++ [p])) bad) s := by
  refine safe_bind (safe_fileExists h.holds ?_ fun hf e => hfault hf e s h.holds)
  obtain hnone | hcopy := hleft.source (List.mem_map_of_mem hp) hgoal
  · rw [hnone]
    exact safe_fail h.holds (hbad _ (.inr hnone))
  · rw [hcopy]
    refine safe_bind (safe_fileHash h.holds (fun found hfound => ?_) (fun hnone => hbad _ (.inr hnone))
      fun hf e => hfault hf e s h.holds)
    obtain rfl : bytes = found := Option.some.inj (hcopy.symm.trans hfound)
    have hsame : eqStr (some (.str (sha256Hex bytes) : Json ν)) (sha256Hex bytes) = true := decide_eq_true rfl
    show Program.Safe faults _ _ (ite _ _ _) s
    rw [if_pos hsame]
    exact replaceBy_advances hI hsep hdone hp hsuffix h hgoal hcopy (fun hno => hbad _ (.inl hno)) hfault

omit [Unicode] in
theorem restoreChange_advances (hI : Stable id plan d I) (hsep : Separate id plan) (hdone : done ⊆ plan)
    (hp : p ∈ plan) (h : Upto id d I done s) (hleft : Leftover (planChanges id plan) s.file)
    (hbad : ∀ e, (s.dirs p.target.dir).isSome = false ∨ (p.change id).goal d ≠ none ∧
      s.file ((p.change id).source d) = none → bad e s)
    (hfault : faults → ∀ e s', I s' → bad e s') :
    (restoreChange ν id d p).Safe faults I (Ending (fun _ => Upto id d I (done ++ [p])) bad) s := by
  unfold restoreChange
  cases hgoal : (p.change id).goal d with
  | none => exact removeIfThere_advances hI hsep hdone hp h hgoal hfault
  | some bytes =>
    have hsuffix : temporarySuffix d ∈ temporarySuffixes := by cases d <;> decide
    refine restoreFrom_advances hI hsep hdone hp hsuffix h hgoal hleft (fun e he => hbad e ?_) hfault
    exact he.imp_right fun hnone => ⟨by rw [hgoal]; rintro ⟨⟩, hnone⟩

theorem recoverOperations_advance (hI : Stable t.id plan d I) (hsep : Separate t.id plan)
    (haccepted : ∀ done p rest, plan = done ++ p :: rest → Accepted root t state done.length p)
    (hleft : ∀ s, I s → Leftover (planChanges t.id plan) s.file)
    (hbad : ∀ p ∈ plan, ∀ e s, I s → (s.dirs p.target.dir).isSome = false ∨ (p.change t.id).goal d ≠ none ∧
      s.file ((p.change t.id).source d) = none → bad e s)
    (hfault : faults → ∀ e s', I s' → bad e s') {rest : List PlannedChange} (hplan : plan = done ++ rest)
    (h : Upto t.id d I done s) :
    (recoverOperations root t.id (t.journal ν state) d done.length
      (rest.map fun p => (p.operation t.id).toJson)).Safe faults I (Ending (fun _ => Upto t.id d I plan) bad) s := by
  induction rest generalizing done s with
  | nil =>
    rw [List.append_nil] at hplan
    exact safe_pure h.holds (hplan ▸ h)
  | cons p rest ih =>
    have hp : p ∈ plan := hplan ▸ List.mem_append_right _ List.mem_cons_self
    have hdone : done ⊆ plan := hplan ▸ List.subset_append_left _ _
    rw [List.map_cons, recoverOperations, recoverOperation_eq hsep hp (haccepted done p rest hplan) d]
    refine safe_seq (restoreChange_advances hI hsep hdone hp h (hleft s h.holds)
      (fun e he => hbad p hp e s h.holds he) hfault) (fun _ s' _ hend => ?_) fun _ _ _ hend => hend
    have hnext := ih (show plan = (done ++ [p]) ++ rest by rw [List.append_assoc]; exact hplan) hend
    rw [List.length_append, List.length_singleton] at hnext
    exact hnext

/-! ## A recovery -/

/-- The hash of the store once the transaction is worked off. -/
def Transaction.hashIn (t : Transaction) : Direction → JsString
  | .complete => t.afterHash
  | .rollback => t.beforeHash

/-- What a recovery that succeeds leaves: all changes made, or all undone, and none of the transaction's files. -/
structure Recovered (t : Transaction) (plan : List PlannedChange) (s0 : Repo) (d : Direction)
    (snapshot : TicketSnapshot ν) (s : Repo) : Prop where
  finished : Finished ν t plan s0 d s
  gone : Gone t.id s
  loaded : activeStore.load (s.dirs .tickets) = .ok snapshot
  hash : snapshot.hash = t.hashIn d

variable {C : Repo → Prop} {self : TransactionProcess ν t.id} {ro : RecoveryOptions} {key : Option JsString}

theorem storeBeforeRecovery_safe (journal : Journal ν) (hC : C s) :
    (storeBeforeRecovery journal).Safe faults C (Ending (fun _ s' => s' = s) fun _ _ => False) s := by
  refine safe_tryCatch ?_
  have hcaught : ∀ e : TicketStoreError, Catches faults C (Ending (fun _ s' => s' = s) fun _ _ => False)
      (fun _ => pure (true, none)) (.error e : Except TicketStoreError (Bool × Option JsString)) s :=
    fun _ => safe_pure hC rfl
  unfold loadStore
  refine safe_bind (safe_bind (safe_get hC ?_ fun _ => hcaught))
  refine safe_lift hC ?_
  cases activeStore.load (ν := ν) (s.dirs .tickets) with
  | error e => exact hcaught e
  | ok snapshot => exact safe_bind (safe_get hC (safe_pure hC rfl) fun _ => hcaught)

omit [Unicode] in
theorem checkStorePath_ok (root : Path) (t : Transaction) (state : JsString) :
    checkStorePath root (t.journal ν state) = .ok () := by
  have hget : (t.journal ν state).get? "storePath" = some (.str storePathText) := rfl
  have hplain : ∀ segment ∈ Directory.tickets.segmentsOf, PlainName segment := by decide
  have hresolve : resolve root storePathText = root ++ Directory.tickets.segmentsOf := by
    rw [storePathText, resolve_segments fun name hname => ⟨(hplain name hname).noSlash, (hplain name hname).ne_nil⟩]
    exact foldl_pushSegment hplain root
  rw [checkStorePath, hget]
  dsimp only
  rw [if_neg fun h => h.2 hresolve]

theorem recordRecovery_safe (hI : Stable t.id plan d I) (hsep : Separate t.id plan) (hC : ∀ s, I s → C s)
    (h : Upto t.id d I plan s) {snapshot : TicketSnapshot ν} {audited : Bool} {hash : Json ν}
    (hbad : ∀ e s', Upto t.id d I plan s' → bad e s') :
    (recordRecovery self key (t.journal ν state) d snapshot audited hash).Safe faults C
      (Ending (fun _ s' => Upto t.id d I plan s' ∧ s'.dirs .tickets = s.dirs .tickets) bad) s := by
  unfold recordRecovery
  split
  · split
    · exact safe_fail (hC s h.holds) (hbad _ s h)
    · refine safe_seq (safe_when (fun _ => recordEvidence_safe hI hsep hC h hbad)
        fun _ => ⟨hC s h.holds, h, rfl⟩) (fun _ s1 _ h1 => ?_) fun _ _ _ hend => hend
      refine (recordEvidence_safe hI hsep hC h1.1 hbad).post ?_
      rintro (e | u) s2 - h2
      · exact h2
      · exact ⟨h2.1, h2.2.trans h1.2⟩
  · exact safe_pure (hC s h.holds) ⟨h, rfl⟩

/-- Once the plan is worked off, what is left of the transaction goes. -/
theorem removal_safe (hsep : Separate t.id plan) {snapshot : TicketSnapshot ν}
    (hfinished : Finished ν t plan s0 d s) (hload : activeStore.load (s.dirs .tickets) = .ok snapshot)
    (hhash : eqStr (expectedHash (t.journal ν state) d) snapshot.hash = true)
    (hfault : faults → ∀ e s', Midway ν t plan s0 d s' → bad e s') :
    (removeTransaction self.removal).Safe faults (Midway ν t plan s0 d)
      (Ending (fun _ => Recovered t plan s0 d snapshot) bad) s := by
  refine removeTransaction_safe self.removal (fun s' hs' => .inr (hfinished.cleared hsep hs'))
    (fun s' hs' hgone => ⟨hfinished.cleared hsep hs', hgone, ?_, ?_⟩)
    fun hf e s' hs' => hfault hf e s' (.inr (hfinished.cleared hsep hs'))
  · rw [hs'.kept .tickets rfl]
    exact hload
  · cases d with
    | complete => exact (of_decide_eq_true hhash).symm
    | rollback => exact (of_decide_eq_true hhash).symm

theorem recoverLocked_safe (hI : Stable t.id plan ro.direction I) (hsep : Separate t.id plan)
    (hmidway : ∀ s, I s → Midway ν t plan s0 ro.direction s)
    (hoperations : t.operations = plan.map (PlannedChange.operation t.id))
    (haccepted : ∀ done p rest, plan = done ++ p :: rest → Accepted self.root t state done.length p) (h : I s)
    (hsign : ∀ e s', I s' → assertWriteIsSignable key ro.allowUnsigned = .error e → bad e s')
    (hbad : ∀ p ∈ plan, ∀ e s, I s → (s.dirs p.target.dir).isSome = false ∨
      (p.change t.id).goal ro.direction ≠ none ∧ s.file ((p.change t.id).source ro.direction) = none → bad e s)
    (hlate : ∀ e s', Upto t.id ro.direction I plan s' → bad e s')
    (hfault : faults → ∀ e s', Midway ν t plan s0 ro.direction s' → bad e s') :
    (recoverLocked self (t.journal ν state) ro key).Safe faults (Midway ν t plan s0 ro.direction)
      (Ending (fun snapshot => Recovered t plan s0 ro.direction snapshot) bad) s := by
  have hrestore : ∀ s, I s → (recoverOperations self.root t.id (t.journal ν state) ro.direction 0
      (t.journal ν state).operations).Safe faults (Midway ν t plan s0 ro.direction)
      (Ending (fun _ => Upto t.id ro.direction I plan) bad) s := by
    intro s hs
    have hitems : (t.journal ν state).operations = plan.map fun p => (p.operation t.id).toJson := by
      rw [Transaction.journal, hoperations, List.map_map]
      rfl
    rw [hitems]
    exact (recoverOperations_advance hI hsep haccepted (fun s hs => (hmidway s hs).leftover) hbad
      (fun hf e s hs => hfault hf e s (hmidway s hs)) (List.nil_append plan).symm
      ⟨hs, fun _ hc => by cases hc⟩).mono hmidway fun _ _ _ => id
  have hC := hmidway s h
  unfold recoverLocked loadStore
  refine safe_seq (storeBeforeRecovery_safe _ hC) (fun found s1 _ h1 => ?_) fun _ _ _ hend => hend.elim
  obtain ⟨storeIsTrustRoot, preRecoveryHash⟩ := found
  subst h1
  refine safe_bind (safe_get hC ?_ fun hf e => hfault hf e s1 hC)
  refine safe_check hC (fun _ _ => ?_) fun e he => ?_
  · rw [checkStorePath_ok]
    refine safe_check hC (fun _ _ => ?_) fun e he => by cases he
    refine safe_seq (hrestore s1 h) (fun _ s2 hs2 h2 => ?_) fun _ _ _ hend => hend
    have hfinished : Finished ν t plan s0 ro.direction s2 := (hmidway s2 h2.holds).finish h2.settled
    have herror : ∀ e, bad e s2 := fun e => hlate e s2 h2
    refine safe_bind (safe_bind (safe_get hs2 ?_ fun _ => herror))
    refine safe_lift hs2 ?_
    cases hload : activeStore.load (ν := ν) (s2.dirs .tickets) with
    | error e => exact herror e
    | ok snapshot =>
      show Program.Safe faults _ _ (ite _ _ _) s2
      split
      · rename_i hhash
        refine safe_seq (recordRecovery_safe hI hsep hmidway h2 hlate) (fun _ s3 _ h3 => ?_) fun _ _ _ hend => hend
        refine safe_seq (removal_safe hsep ((hmidway s3 h3.1.holds).finish h3.1.settled) ?_ hhash hfault)
          (fun _ s4 _ h4 => safe_pure (.inr h4.finished) h4) fun _ _ _ hend => hend
        rw [h3.2]
        exact hload
      · exact safe_fail hs2 (herror _)
  · split at he
    · exact hsign e s1 h he
    · cases he

theorem Recovered.dirs_eq {snapshot : TicketSnapshot ν} (h : Recovered t plan s0 d snapshot s)
    (hsep : Separate t.id plan) (hdirs : s'.dirs = s.dirs) : Recovered t plan s0 d snapshot s' where
  finished := h.finished.framed hsep (framed_dirs hdirs)
  gone e he := by rw [hdirs, h.gone e he]
  loaded := by
    rw [hdirs]
    exact h.loaded
  hash := h.hash

theorem recoverDirectoryTransaction_safe (hI : Stable t.id plan ro.direction I) (hsep : Separate t.id plan)
    (hmidway : ∀ s, I s → Midway ν t plan s0 ro.direction s)
    (hoperations : t.operations = plan.map (PlannedChange.operation t.id)) (hoperation : t.operation ≠ js "migrate")
    (haccepted : ∀ done p rest, plan = done ++ p :: rest → Accepted self.root t state done.length p)
    (hjournal : s.file (journalPlace t.id) = some (t.bytes ν state)) (h : I s)
    (hkey : ∀ e, validateKeyParam ro.key = .error e → bad e s)
    (hacquire : (acquireTicketLock self.owner).Safe faults (fun s' => s'.dirs = s.dirs)
      (Ending (fun _ _ => True) bad) s)
    (hsign : ∀ e s', I s' → assertWriteIsSignable ro.key ro.allowUnsigned = .error e → bad e s')
    (hbad : ∀ p ∈ plan, ∀ e s, I s → (s.dirs p.target.dir).isSome = false ∨
      (p.change t.id).goal ro.direction ≠ none ∧ s.file ((p.change t.id).source ro.direction) = none → bad e s)
    (hlate : ∀ e s', Upto t.id ro.direction I plan s' → bad e s')
    (hdirs : ∀ e s s', s'.dirs = s.dirs → bad e s → bad e s')
    (hfault : faults → ∀ e s', Midway ν t plan s0 ro.direction s' → bad e s') :
    (recoverDirectoryTransaction self ro).Safe faults (Midway ν t plan s0 ro.direction)
      (Ending (fun snapshot => Recovered t plan s0 ro.direction snapshot) bad) s := by
  have hC := hmidway s h
  have hsame : ∀ s', s'.dirs = s.dirs → Midway ν t plan s0 ro.direction s' :=
    fun s' hs' => hC.framed hsep (framed_dirs hs')
  unfold recoverDirectoryTransaction loadJournal
  refine safe_check hC (fun key hvalid => ?_) hkey
  have hrokey : ro.key = key := by
    unfold validateKeyParam at hvalid
    split at hvalid
    · cases hvalid
    · exact Except.ok.inj hvalid
  rw [if_neg (by rw [hsep.transactionId]; decide)]
  have hread : (s.file (journalPlace t.id)).bind (parseJournal (ν := ν)) = some (t.journal ν state) := by
    rw [hjournal, Option.bind_some, parseJournal_bytes hoperation]
  refine safe_bind (safe_bind (safe_get hC ?_ fun hf e => hfault hf e s hC))
  simp only [Then, hread]
  refine safe_pure hC ?_
  have hlock : (acquireTicketLock self.owner).Safe faults (Midway ν t plan s0 ro.direction)
      (Ending (fun _ s' => s'.dirs = s.dirs) bad) s := by
    refine hacquire.mono hsame ?_
    rintro (e | u) s' hs' hend
    · exact hend
    · exact hs'
  refine safe_seq hlock (fun _ s1 _ h1 => ?_) fun _ _ _ hend => hend
  have hlocked := recoverLocked_safe hI hsep hmidway hoperations haccepted (hI.framed h (framed_dirs h1))
    (hrokey ▸ hsign) hbad hlate hfault
  refine safe_tryFinally (hlocked.post fun r s2 hs2 h2 => ?_)
  refine (release_safe self.owner fun s3 hs3 => hs2.framed hsep (framed_dirs hs3)).post ?_
  rintro (e | u) s3 hs3 h3
  · exact hfault h3 e s3 hs3
  · cases r with
    | error e => exact hdirs e s2 s3 h3 h2
    | ok snapshot => exact h2.dirs_eq hsep h3

/-- Without a journal that can be read nothing is recovered, and nothing done. -/
theorem recover_unread {id : JsString} {self : TransactionProcess ν id}
    (hunread : (s.file (journalPlace id)).bind (parseJournal (ν := ν)) = none) :
    (recoverDirectoryTransaction self ro).Safe faults (fun s' => s' = s) (Ending (fun _ _ => False) fun _ _ => True)
      s := by
  unfold recoverDirectoryTransaction loadJournal
  refine safe_check rfl (fun _ _ => ?_) fun _ _ => trivial
  refine safe_bind ?_
  split
  · exact safe_fail rfl trivial
  · refine safe_bind (safe_get rfl ?_ fun _ _ => trivial)
    simp only [Then, hunread]
    exact safe_fail rfl trivial

end Recovery

/-! ## A store without tickets -/

section Marked

attribute [local instance] plainUnicode

theorem acquire_run {s : Repo} (owner : LockOwner) (h : s.lock = .absent) :
    (acquireTicketLock owner).run s = (.ok (), { s with lock := .owned owner }) := by
  simp only [acquireTicketLock, acquireAttempts, run_bind, run_atomic, h, if_true, run_tryCatch]

theorem release_run (owner : LockOwner) (s : Repo) : ∃ s', (releaseTicketLock owner).run s = (.ok (), s') := by
  simp only [releaseTicketLock, run_bind, run_atomic]
  cases s.lock with
  | absent | ownerless => exact ⟨s, rfl⟩
  | owned found =>
    dsimp only
    split_ifs
    · exact ⟨_, rfl⟩
    · exact ⟨s, rfl⟩

theorem recoverLocked_marked (d : Direction) {repo : Repo} (hdirs : repo.dirs = (journaledRepo markedRepo).dirs) :
    ∃ s, (recoverLocked plainProcess (emptyTransaction.journal Int preparedState) ⟨d, none, true⟩ none).run repo =
      (.ok (snapshotOf []), s) := by
  have hload : activeStore.load (ν := Int) (repo.dirs .tickets) = .ok (snapshotOf []) := by
    rw [hdirs, journaledRepo, dirs_put_ne _ (by rintro ⟨⟩), madeDirs_tickets]
    exact markedDir_load
  have hbefore : (storeBeforeRecovery (emptyTransaction.journal Int preparedState)).run repo =
      (.ok (false, some (snapshotOf ([] : List (Json Int))).hash), repo) := by
    have hrails : repoDeclaresRails repo (preTransactionTickets (emptyTransaction.journal Int preparedState)
        (snapshotOf [])) = false := by
      have hsorted : sortById ([] : List (Json Int)) = [] := by simp [sortById]
      have hnone : preTransactionTickets (emptyTransaction.journal Int preparedState) (snapshotOf []) = [] := by
        rw [preTransactionTickets, snapshotOf, hsorted]
        rfl
      have hother : ∀ d, d = .archive ∨ d = .adlc ∨ d = .segments → repo.dirs d = none := by
        rw [hdirs]
        rintro d (rfl | rfl | rfl) <;> rfl
      rw [hnone, repoDeclaresRails, archiveDeclaresRails, manifestRecordsBypass, Repo.manifest, Repo.file, Repo.file,
        legacyArchivePlace, manifestPlace, hother .archive (.inl rfl), hother .adlc (.inr (.inl rfl)),
        hother .segments (.inr (.inr rfl))]
      rfl
    simp only [storeBeforeRecovery, run_tryCatch, loadStore, run_bind, run_get, run_lift, hload, run_pure, hrails]
  have hstorePath := checkStorePath_ok (ν := Int) plainProcess.root emptyTransaction preparedState
  obtain ⟨s, hs⟩ := removeTransaction_run plainProcess.removal repo
  refine ⟨s, ?_⟩
  have haudited : (false ||
      journalBackupsDeclareRails plainProcess.root repo (emptyTransaction.journal Int preparedState) ||
      eqTrue ((emptyTransaction.journal Int preparedState).get? "bypassAudit")) = false := rfl
  have hoperations : (emptyTransaction.journal Int preparedState).operations = [] := rfl
  have hhash : (snapshotOf ([] : List (Json Int))).hash = storeHashOf ([] : List (Json Int)) := by
    rw [snapshotOf, show sortById ([] : List (Json Int)) = [] by simp [sortById]]
  have hexpected : eqStr (expectedHash (emptyTransaction.journal Int preparedState) d)
      (snapshotOf ([] : List (Json Int))).hash = true := by
    rw [hhash]
    cases d <;> exact decide_eq_true rfl
  have hquiet : isTruthy ((emptyTransaction.journal Int preparedState).get? "evidenceRequired") = false := rfl
  simp only [recoverLocked, run_bind, hbefore, run_get, hstorePath, run_lift, haudited, hoperations, recoverOperations,
    run_pure, loadStore, hload, hexpected, if_true, recordRecovery, hquiet, Bool.false_eq_true, or_self, if_false, hs]

theorem recover_marked (d : Direction) : ∃ s, (recoverDirectoryTransaction plainProcess ⟨d, none, true⟩).run
    (journaledRepo markedRepo) = (.ok (snapshotOf ([] : List (Json Int))), s) := by
  have hjournal : (journaledRepo markedRepo).file (journalPlace freshId) =
      some (emptyTransaction.bytes Int preparedState) :=
    file_put _ _ _
  have hread : ((journaledRepo markedRepo).file (journalPlace freshId)).bind (parseJournal (ν := Int)) =
      some (emptyTransaction.journal Int preparedState) := by
    rw [hjournal, Option.bind_some, parseJournal_bytes (by decide)]
  have hkey : validateKeyParam (none : Option JsString) = .ok none := rfl
  have hid : isTransactionId freshId = true := by decide
  have hlock : (journaledRepo markedRepo).lock = .absent := rfl
  have hdirs : { journaledRepo markedRepo with lock := .owned plainProcess.owner }.dirs =
      (journaledRepo markedRepo).dirs := rfl
  obtain ⟨s, hs⟩ := recoverLocked_marked d hdirs
  obtain ⟨s', hs'⟩ := release_run plainProcess.owner s
  refine ⟨s', ?_⟩
  simp only [recoverDirectoryTransaction, hkey, loadJournal, hid, Bool.not_true, Bool.false_eq_true, if_false, run_bind,
    run_lift, run_get, hread, run_pure, acquire_run plainProcess.owner hlock, run_tryFinally, hs, hs']

end Marked

end Adlc.Tickets
