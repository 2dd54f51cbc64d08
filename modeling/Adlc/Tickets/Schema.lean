import Adlc.Framework.Search
import Adlc.Tickets.Canonical

namespace Adlc.Tickets

open Adlc.Framework

variable {ν : Type} [JsNumber ν]

/-! ## One ticket -/

mutual
/-- `String(value)` -/
def toText : Json ν → JsString
  | .null => js "null"
  | .bool b => if b then js "true" else js "false"
  | .num n => JsNumber.text n
  | .str s => s
  | .arr xs => joinTexts xs
  | .obj _ => js "[object Object]"

/-- `xs.join()` -/
def joinTexts : List (Json ν) → JsString
  | [] => []
  | [x] => elemText x
  | x :: y :: xs => elemText x ++ [44] ++ joinTexts (y :: xs)

def elemText : Json ν → JsString
  | .null => []
  | x => toText x
end

/-- `${value ?? '?'}` -/
def display (value : Option (Json ν)) : JsString :=
  match value with
  | none | some .null => js "?"
  | some v => toText v

/-- `typeof value === 'string' && value.length > 0` -/
def isText (value : Option (Json ν)) : Bool :=
  match value with
  | some (.str s) => decide (s ≠ [])
  | _ => false

def isStr (v : Json ν) : Bool :=
  match v with
  | .str _ => true
  | _ => false

/-- Undefined, or an array of strings. -/
def isStringsField (value : Option (Json ν)) : Bool :=
  match value with
  | none => true
  | some (.arr xs) => xs.all isStr
  | _ => false

/-- Undefined, or a positive number. -/
def isDurationField (value : Option (Json ν)) : Bool :=
  match value with
  | none => true
  | some (.num n) => JsNumber.isFinite n && JsNumber.lt (JsNumber.ofNat 0) n
  | _ => false

def isArchiveField (value : Option (Json ν)) : Bool :=
  match value with
  | none => true
  | some v => eqNum (v.get? (js "version")) (JsNumber.ofNat 1) &&
      match v.get? (js "ticketHash") with
      | some (.str _) => true
      | _ => false

def edgeErrors (name : JsString) (value : Option (Json ν)) : List JsString :=
  match value with
  | none => []
  | some (.arr xs) =>
    (xs.filter fun edge => !isText (edge.get? (js "to"))).map
      fun _ => name ++ js ": edge missing string \"to\""
  | _ => [name ++ js ": edges must be an array"]

def orError (ok : Bool) (message : JsString) : List JsString := if ok then [] else [message]

/-- `validateTicket(ticket, { archive })`: the errors of one ticket. -/
def validateTicket (archive : Bool) (ticket : Json ν) : List JsString :=
  match ticket with
  | .obj ms =>
    let field := fun k : String => (Json.obj ms).get? (js k)
    let name := display (field "id")
    orError (isText (field "id")) (js "missing string id") ++
    orError (isText (field "title")) (name ++ js ": missing string title") ++
    orError (isStringsField (field "scope")) (name ++ js ": scope must be an array of strings") ++
    orError (isStringsField (field "rails")) (name ++ js ": rails must be an array of strings") ++
    edgeErrors name (field "edges") ++
    orError (isDurationField (field "duration"))
      (name ++ js ": duration must be a positive number") ++
    orError (archive || (field "_adlcArchive").isNone)
      (name ++ js ": _adlcArchive is reserved for archived tickets") ++
    orError (!archive || isArchiveField (field "_adlcArchive"))
      (name ++ js ": invalid _adlcArchive metadata")
  | _ => [js "ticket is not an object"]

/-! ## The ticket graph -/

/-- `ticket.id` when it is a string. -/
def id? (ticket : Json ν) : Option JsString :=
  match ticket.get? (js "id") with
  | some (.str s) => some s
  | _ => none

def edgesOf (ticket : Json ν) : List (Json ν) :=
  match ticket.get? (js "edges") with
  | some (.arr xs) => xs
  | _ => []

/-- `edge?.to` when it is a string. -/
def target? (edge : Json ν) : Option JsString :=
  match edge.get? (js "to") with
  | some (.str s) => some s
  | _ => none

def targets (ticket : Json ν) : List JsString := (edgesOf ticket).filterMap target?

def isNull (v : Json ν) : Bool :=
  match v with
  | .null => true
  | _ => false

/-- The keys of `byId`, in order of insertion. -/
def byIdKeys (tickets : List (Json ν)) : List JsString :=
  (tickets.filterMap id?).foldl (fun keys id => if id ∈ keys then keys else keys ++ [id]) []

/-- `byId.get(id)`: the last ticket of the id. -/
def byIdGet (tickets : List (Json ν)) (id : JsString) : Option (Json ν) :=
  tickets.reverse.find? fun ticket => decide (id? ticket = some id)

/-- The errors of each ticket, and of an id that was seen before. -/
def ticketErrors (archive : Bool) : List JsString → List (Json ν) → List JsString
  | _, [] => []
  | seen, ticket :: tickets =>
    validateTicket archive ticket ++
      match id? ticket with
      | none => ticketErrors archive seen tickets
      | some id =>
        orError (decide (id ∉ seen)) (js "duplicate ticket id: " ++ id) ++
          ticketErrors archive (id :: seen) tickets

def unknownErrors (tickets : List (Json ν)) (ticket : Json ν) : List JsString :=
  ((targets ticket).filter fun edgeTo => decide (edgeTo ∉ byIdKeys tickets)).map
    fun edgeTo => display (ticket.get? (js "id")) ++ js ": edge to unknown ticket " ++ edgeTo

/-- The tickets that `visit` goes on to. -/
def successors (tickets : List (Json ν)) (id : JsString) : List JsString :=
  match byIdGet tickets id with
  | none => []
  | some ticket => (targets ticket).filter fun edgeTo => decide (edgeTo ∈ byIdKeys tickets)

def join (sep : JsString) : List JsString → JsString
  | [] => []
  | [s] => s
  | s :: t :: ss => s ++ sep ++ join sep (t :: ss)

def cycleErrors (tickets : List (Json ν)) : List JsString :=
  let keys := (byIdKeys tickets).mergeSort compareTicketIds
  (search (successors tickets) ((byIdKeys tickets).length + 1) keys).cycles.map
    fun path => js "cycle in ticket DAG: " ++ join (js " -> ") path

/-- Reading `to` of a null edge throws; the search visits every id. -/
def readsNullEdge (tickets : List (Json ν)) : Bool :=
  (byIdKeys tickets).any fun id => ((byIdGet tickets id).map edgesOf).getD [] |>.any isNull

def decimal (n : Nat) : JsString := js (toString n)

def storeErrors (archive validateGraph : Bool) (tickets : List (Json ν)) : List JsString :=
  ticketErrors archive [] tickets ++
  (if validateGraph then tickets.flatMap (unknownErrors tickets) ++ cycleErrors tickets else [])

def validateTickets (archive validateGraph : Bool) (tickets : List (Json ν)) :
    Except TicketStoreError Unit :=
  if validateGraph && readsNullEdge tickets then
    .error (unexpected (js "Cannot read properties of null (reading 'to')"))
  else
    let errors := storeErrors archive validateGraph tickets
    if errors = [] then .ok ()
    else .error (invalid "INVALID_TICKET_STORE" (js "ticket store validation failed (" ++
      decimal errors.length ++ js " error(s)): " ++ join (js "; ")
        (errors ++ [js "see \x60adlc ticket schema\x60 and \x60adlc ticket doctor\x60"])))

/-! ## What an accepted store is -/

/-- An edge of the graph from one ticket's id to another's. -/
def Blocks (tickets : List (Json ν)) (a b : JsString) : Prop :=
  ∃ ticket ∈ tickets, id? ticket = some a ∧ b ∈ targets ticket

/-- Tickets that are valid each, with ids of their own and edges that end at tickets and close no
cycle. -/
structure ValidTickets (tickets : List (Json ν)) : Prop where
  valid : ∀ ticket ∈ tickets, validateTicket false ticket = []
  ids : (tickets.map id?).Nodup
  known : ∀ a b, Blocks tickets a b → some b ∈ tickets.map id?
  acyclic : ∀ a, ¬Relation.TransGen (Blocks tickets) a a

/-! ## Acceptance -/

@[simp] theorem orError_eq_nil (ok : Bool) (message : JsString) :
    orError ok message = [] ↔ ok = true := by
  cases ok <;> simp [orError]

/-- A valid ticket is an object with a nonempty string for its id. -/
theorem id?_of_valid {archive : Bool} {ticket : Json ν}
    (h : validateTicket archive ticket = []) : ∃ id, id? ticket = some id ∧ id ≠ [] := by
  cases ticket with
  | obj ms =>
    simp only [validateTicket, List.append_eq_nil_iff, orError_eq_nil] at h
    have hid := h.1.1.1.1.1.1.1
    unfold id?
    unfold isText at hid
    split at hid
    · rename_i s hs
      exact ⟨s, by simp, by simpa using hid⟩
    · cases hid
  | _ => simp [validateTicket] at h

theorem edges_of_valid {archive : Bool} {ticket : Json ν}
    (h : validateTicket archive ticket = []) :
    ∀ edge ∈ edgesOf ticket, isText (edge.get? (js "to")) = true := by
  cases ticket with
  | obj ms =>
    simp only [validateTicket, List.append_eq_nil_iff] at h
    have he := h.1.1.1.2
    unfold edgesOf
    intro edge hedge
    split at hedge
    · rename_i xs hxs
      rw [hxs] at he
      simp only [edgeErrors, List.map_eq_nil_iff, List.filter_eq_nil_iff] at he
      simpa using he edge hedge
    · cases hedge
  | _ => simp [validateTicket] at h

theorem ticketErrors_eq_nil (archive : Bool) (tickets : List (Json ν)) (seen : List JsString) :
    ticketErrors archive seen tickets = [] ↔
      (∀ ticket ∈ tickets, validateTicket archive ticket = []) ∧ (tickets.map id?).Nodup ∧
        ∀ id ∈ seen, some id ∉ tickets.map id? := by
  induction tickets generalizing seen with
  | nil => simp [ticketErrors]
  | cons ticket tickets ih =>
    rw [ticketErrors, List.append_eq_nil_iff]
    by_cases hv : validateTicket archive ticket = []
    · obtain ⟨id, hid, -⟩ := id?_of_valid hv
      simp only [hid, hv, List.append_eq_nil_iff, orError_eq_nil, decide_eq_true_eq, ih,
        List.mem_cons, forall_eq_or_imp, List.map_cons, List.nodup_cons, true_and, not_or,
        Option.some.injEq]
      constructor
      · intro ⟨h1, h2, h3, h4, h5⟩
        refine ⟨h2, ⟨h4, h3⟩, ?_⟩
        intro a ha
        exact ⟨fun e => h1 (e ▸ ha), h5 a ha⟩
      · intro ⟨h2, ⟨h4, h3⟩, h5⟩
        refine ⟨?_, h2, h3, h4, fun a ha => (h5 a ha).2⟩
        intro h
        exact (h5 id h).1 rfl
    · simp [hv]

theorem foldl_keys {ids : List JsString} (acc : List JsString) (h : (acc ++ ids).Nodup) :
    ids.foldl (fun keys id => if id ∈ keys then keys else keys ++ [id]) acc = acc ++ ids := by
  induction ids generalizing acc with
  | nil => simp
  | cons id ids ih =>
    have hid : id ∉ acc := by
      intro hm
      exact (List.nodup_append.mp h).2.2 id hm id (by simp) rfl
    rw [List.foldl_cons, if_neg hid, ih (acc ++ [id]) (by simpa using h)]
    simp

omit [JsNumber ν] in
theorem nodup_filterMap_id? {tickets : List (Json ν)} (h : (tickets.map id?).Nodup) :
    (tickets.filterMap id?).Nodup := by
  have e : tickets.filterMap id? = (tickets.map id?).filterMap id := by
    rw [List.filterMap_map]
    rfl
  rw [e]
  refine h.filterMap ?_
  intro a b x hx hy
  simp only [id, Option.mem_def] at hx hy
  rw [hx, hy]

omit [JsNumber ν] in
theorem byIdKeys_eq {tickets : List (Json ν)} (h : (tickets.map id?).Nodup) :
    byIdKeys tickets = tickets.filterMap id? := by
  have hn := nodup_filterMap_id? h
  rw [byIdKeys, foldl_keys [] (by simpa using hn), List.nil_append]

omit [JsNumber ν] in
theorem mem_byIdKeys {tickets : List (Json ν)} (h : (tickets.map id?).Nodup) (id : JsString) :
    id ∈ byIdKeys tickets ↔ some id ∈ tickets.map id? := by
  rw [byIdKeys_eq h, List.mem_filterMap, List.mem_map]

omit [JsNumber ν] in
/-- With ids of their own, `byId` finds each ticket. -/
theorem byIdGet_eq {tickets : List (Json ν)} (h : (tickets.map id?).Nodup) {ticket : Json ν}
    {id : JsString} (hm : ticket ∈ tickets) (hid : id? ticket = some id) :
    byIdGet tickets id = some ticket := by
  unfold byIdGet
  cases e : tickets.reverse.find? fun ticket => decide (id? ticket = some id) with
  | none =>
    have hno := List.find?_eq_none.mp e ticket (List.mem_reverse.mpr hm)
    simp [hid] at hno
  | some ticket' =>
    have hm' := List.mem_reverse.mp (List.mem_of_find?_eq_some e)
    have hid' := List.find?_some e
    simp only [decide_eq_true_eq] at hid'
    rw [List.inj_on_of_nodup_map h hm' hm (hid'.trans hid.symm)]

omit [JsNumber ν] in
theorem byIdGet_some {tickets : List (Json ν)} {ticket : Json ν} {id : JsString}
    (h : byIdGet tickets id = some ticket) : ticket ∈ tickets ∧ id? ticket = some id := by
  refine ⟨List.mem_reverse.mp (List.mem_of_find?_eq_some h), ?_⟩
  have hid := List.find?_some h
  simpa using hid

omit [JsNumber ν] in
theorem mem_successors {tickets : List (Json ν)} (h : (tickets.map id?).Nodup) (a b : JsString) :
    b ∈ successors tickets a ↔ Blocks tickets a b ∧ b ∈ byIdKeys tickets := by
  unfold successors
  constructor
  · intro hb
    split at hb
    · cases hb
    · rename_i ticket ht
      obtain ⟨h1, h2⟩ := byIdGet_some ht
      obtain ⟨h3, h4⟩ := List.mem_filter.mp hb
      exact ⟨⟨ticket, h1, h2, h3⟩, by simpa using h4⟩
  · intro ⟨⟨ticket, h1, h2, h3⟩, h4⟩
    rw [byIdGet_eq h h1 h2]
    exact List.mem_filter.mpr ⟨h3, by simpa using h4⟩

theorem readsNullEdge_eq_false {archive : Bool} {tickets : List (Json ν)}
    (h : ∀ ticket ∈ tickets, validateTicket archive ticket = []) :
    readsNullEdge tickets = false := by
  unfold readsNullEdge
  rw [List.any_eq_false]
  intro id _
  cases e : byIdGet tickets id with
  | none => simp
  | some ticket =>
    have hv := h ticket (byIdGet_some e).1
    rw [Option.map_some, Option.getD_some, Bool.not_eq_true, List.any_eq_false]
    intro edge hedge
    have ht := edges_of_valid hv edge hedge
    cases edge <;> simp_all [isNull, Json.get?, isText]

omit [JsNumber ν] in
theorem cycleErrors_eq_nil {tickets : List (Json ν)} (h : (tickets.map id?).Nodup)
    (hk : ∀ a b, Blocks tickets a b → some b ∈ tickets.map id?) :
    cycleErrors tickets = [] ↔ ∀ a, ¬Relation.TransGen (Blocks tickets) a a := by
  have hE : ∀ a b, Edge (successors tickets) a b ↔ Blocks tickets a b := by
    intro a b
    rw [Edge, mem_successors h, mem_byIdKeys h]
    exact and_iff_left_of_imp (hk a b)
  have hE' : Edge (successors tickets) = Blocks tickets := by
    funext a b
    exact propext (hE a b)
  unfold cycleErrors
  rw [List.map_eq_nil_iff, search_cycles_iff, hE']
  · constructor
    · intro hac a ha
      -- a vertex on a cycle is the id of a ticket, since an edge leads to it
      obtain ⟨b, -, hba⟩ := Relation.TransGen.tail'_iff.mp ha
      exact hac a ((mem_byIdKeys h a).mpr (hk b a hba)) ha
    · intro hac a _
      exact hac a
  · intro a _ b hb
    exact ((mem_successors h a b).mp hb).2
  · intro id
    exact List.mem_mergeSort

/-- `validateTickets` accepts just the stores whose tickets are valid and whose graph is closed and
acyclic. -/
theorem validateTickets_ok_iff (tickets : List (Json ν)) :
    validateTickets false true tickets = .ok () ↔ ValidTickets tickets := by
  have hu : tickets.flatMap (unknownErrors tickets) = [] ↔
      ∀ ticket ∈ tickets, ∀ b ∈ targets ticket, b ∈ byIdKeys tickets := by
    simp only [List.flatMap_eq_nil_iff, unknownErrors, List.map_eq_nil_iff, List.filter_eq_nil_iff,
      decide_eq_true_eq, not_not]
  have hs : storeErrors false true tickets = [] ↔ ValidTickets tickets := by
    simp only [storeErrors, if_true, List.append_eq_nil_iff, ticketErrors_eq_nil, hu]
    constructor
    · intro ⟨⟨hv, hn, _⟩, hk, hc⟩
      have hk' : ∀ a b, Blocks tickets a b → some b ∈ tickets.map id? := by
        intro a b ⟨ticket, ht, _, hb⟩
        exact (mem_byIdKeys hn b).mp (hk ticket ht b hb)
      exact ⟨hv, hn, hk', (cycleErrors_eq_nil hn hk').mp hc⟩
    · intro h
      refine ⟨⟨h.valid, h.ids, by simp⟩, ?_, (cycleErrors_eq_nil h.ids h.known).mpr h.acyclic⟩
      intro ticket ht b hb
      obtain ⟨id, hid, -⟩ := id?_of_valid (h.valid ticket ht)
      exact (mem_byIdKeys h.ids b).mpr (h.known id b ⟨ticket, ht, hid, hb⟩)
  unfold validateTickets
  constructor
  · intro h
    by_cases h1 : (true && readsNullEdge tickets) = true
    · rw [if_pos h1] at h
      cases h
    · rw [if_neg h1] at h
      by_cases h2 : storeErrors false true tickets = []
      · exact hs.mp h2
      · simp [h2] at h
  · intro h
    rw [readsNullEdge_eq_false h.valid, if_neg (by simp)]
    exact if_pos (hs.mpr h)

/-! ## The schema of a ticket -/

/-- Undefined, or a list of texts. -/
def TextsField (value : Option (Json ν)) : Prop :=
  ∀ v, value = some v → ∃ texts : List JsString, v = .arr (texts.map .str)

/-- A text with something in it. -/
def TextField (value : Option (Json ν)) : Prop := ∃ text, value = some (.str text) ∧ text ≠ []

/-- What a ticket of the active store has to be. -/
structure MeetsSchema (ticket : Json ν) : Prop where
  object : ∃ ms, ticket = .obj ms
  id : TextField (ticket.get? (js "id"))
  title : TextField (ticket.get? (js "title"))
  scope : TextsField (ticket.get? (js "scope"))
  rails : TextsField (ticket.get? (js "rails"))
  edges : ∀ v, ticket.get? (js "edges") = some v →
    ∃ edges, v = .arr edges ∧ ∀ edge ∈ edges, TextField (edge.get? (js "to"))
  duration : ∀ v, ticket.get? (js "duration") = some v →
    ∃ n, v = .num n ∧ JsNumber.isFinite n = true ∧ JsNumber.lt (JsNumber.ofNat 0) n = true
  unarchived : ticket.get? (js "_adlcArchive") = none

omit [JsNumber ν] in
theorem isText_iff (value : Option (Json ν)) : isText value = true ↔ TextField value := by
  unfold isText TextField
  split
  · simp
  · rename_i hno
    simp only [Bool.false_eq_true, false_iff, not_exists, not_and]
    intro text htext
    exact absurd htext (hno text)

omit [JsNumber ν] in
theorem all_isStr (xs : List (Json ν)) :
    xs.all isStr = true ↔ ∃ texts : List JsString, xs = texts.map .str := by
  induction xs with
  | nil => exact ⟨fun _ => ⟨[], rfl⟩, fun _ => rfl⟩
  | cons x xs ih =>
    rw [List.all_cons, Bool.and_eq_true, ih]
    constructor
    · intro ⟨hx, texts, htexts⟩
      cases x with
      | str s => exact ⟨s :: texts, by rw [htexts, List.map_cons]⟩
      | _ => cases hx
    · intro ⟨texts, htexts⟩
      cases texts with
      | nil => cases htexts
      | cons s texts =>
        rw [List.map_cons, List.cons.injEq] at htexts
        exact ⟨by rw [htexts.1]; rfl, texts, htexts.2⟩

omit [JsNumber ν] in
theorem isStringsField_iff (value : Option (Json ν)) :
    isStringsField value = true ↔ TextsField value := by
  unfold isStringsField TextsField
  split
  · simp
  · rw [all_isStr]
    simp
  · rename_i hno1 hno2
    simp only [Bool.false_eq_true, false_iff, not_forall]
    cases value with
    | none => exact (hno1 rfl).elim
    | some v =>
      refine ⟨v, rfl, ?_⟩
      intro ⟨texts, htexts⟩
      exact hno2 _ (congrArg some htexts)

theorem isDurationField_iff (value : Option (Json ν)) :
    isDurationField value = true ↔ ∀ v, value = some v →
      ∃ n, v = .num n ∧ JsNumber.isFinite n = true ∧ JsNumber.lt (JsNumber.ofNat 0) n = true := by
  unfold isDurationField
  split
  · simp
  · simp
  · rename_i hno1 hno2
    simp only [Bool.false_eq_true, false_iff, not_forall]
    cases value with
    | none => exact (hno1 rfl).elim
    | some v =>
      refine ⟨v, rfl, ?_⟩
      intro ⟨n, hn, _⟩
      exact hno2 n (congrArg some hn)

omit [JsNumber ν] in
theorem edgeErrors_eq_nil (name : JsString) (value : Option (Json ν)) :
    edgeErrors name value = [] ↔ ∀ v, value = some v →
      ∃ edges, v = .arr edges ∧ ∀ edge ∈ edges, TextField (edge.get? (js "to")) := by
  unfold edgeErrors
  split
  · simp
  · simp [List.filter_eq_nil_iff, isText_iff]
  · rename_i hno1 hno2
    cases value with
    | none => exact (hno1 rfl).elim
    | some v =>
      simp only [List.cons_ne_self, false_iff, not_forall]
      refine ⟨v, rfl, ?_⟩
      intro ⟨edges, he, _⟩
      exact hno2 edges (congrArg some he)

/-- `validateTicket` finds nothing wrong with just the tickets that meet the schema. -/
theorem validateTicket_eq_nil (ticket : Json ν) :
    validateTicket false ticket = [] ↔ MeetsSchema ticket := by
  cases ticket with
  | obj ms =>
    simp only [validateTicket, List.append_eq_nil_iff, orError_eq_nil, isText_iff,
      isStringsField_iff, isDurationField_iff, edgeErrors_eq_nil, Bool.false_or, Bool.not_false,
      Bool.true_or, and_true, Option.isNone_iff_eq_none]
    constructor
    · intro ⟨⟨⟨⟨⟨⟨h1, h2⟩, h3⟩, h4⟩, h5⟩, h6⟩, h7⟩
      exact ⟨⟨ms, rfl⟩, h1, h2, h3, h4, h5, h6, h7⟩
    · intro h
      exact ⟨⟨⟨⟨⟨⟨h.id, h.title⟩, h.scope⟩, h.rails⟩, h.edges⟩, h.duration⟩, h.unarchived⟩
  | _ =>
    simp only [validateTicket, List.cons_ne_self, false_iff]
    intro h
    obtain ⟨ms, hms⟩ := h.object
    cases hms

/-- The tickets that `validateTickets` accepts have ids of their own and meet the schema one by one,
and their edges lead to tickets of the list and close no cycle; and it accepts all such lists. -/
theorem validateTickets_exact (tickets : List (Json ν)) :
    validateTickets false true tickets = .ok () ↔
      (tickets.map id?).Nodup ∧ (∀ ticket ∈ tickets, MeetsSchema ticket) ∧
        (∀ a b, Blocks tickets a b → some a ∈ tickets.map id? ∧ some b ∈ tickets.map id?) ∧
        ∀ a, ¬Relation.TransGen (Blocks tickets) a a := by
  rw [validateTickets_ok_iff]
  constructor
  · intro h
    refine ⟨h.ids, fun ticket ht => (validateTicket_eq_nil ticket).mp (h.valid ticket ht), ?_,
      h.acyclic⟩
    intro a b hab
    obtain ⟨ticket, ht, hid, -⟩ := id hab
    exact ⟨List.mem_map.mpr ⟨ticket, ht, hid⟩, h.known a b hab⟩
  · intro ⟨hids, hschema, hknown, hacyclic⟩
    exact ⟨fun ticket ht => (validateTicket_eq_nil ticket).mpr (hschema ticket ht), hids,
      fun a b hab => (hknown a b hab).2, hacyclic⟩

/-- The archive is accepted ticket by ticket. -/
theorem validateTickets_archive_ok_iff (tickets : List (Json ν)) :
    validateTickets true false tickets = .ok () ↔
      (∀ ticket ∈ tickets, validateTicket true ticket = []) ∧ (tickets.map id?).Nodup := by
  have hs : storeErrors true false tickets = [] ↔
      (∀ ticket ∈ tickets, validateTicket true ticket = []) ∧ (tickets.map id?).Nodup := by
    simp [storeErrors, ticketErrors_eq_nil]
  rw [← hs, validateTickets, Bool.false_and, if_neg (by simp)]
  by_cases h : storeErrors true false tickets = []
  · simp [h]
  · simp [h]

/-! ## Reordering and normalizing tickets -/

omit [JsNumber ν] in
theorem Blocks.of_mem {ts us : List (Json ν)} (h : ∀ t ∈ ts, t ∈ us) {a b : JsString}
    (hb : Blocks ts a b) : Blocks us a b := by
  obtain ⟨t, ht, hid, hto⟩ := hb
  exact ⟨t, h t ht, hid, hto⟩

/-- The order of the tickets does not matter. -/
theorem ValidTickets.perm {ts us : List (Json ν)} (h : ValidTickets ts) (hp : ts.Perm us) :
    ValidTickets us := by
  have hb : ∀ a b, Blocks us a b → Blocks ts a b :=
    fun a b => Blocks.of_mem fun t ht => hp.mem_iff.mpr ht
  refine ⟨fun t ht => h.valid t (hp.mem_iff.mpr ht), (hp.map _).nodup_iff.mp h.ids, ?_, ?_⟩
  · intro a b hab
    exact (hp.map _).mem_iff.mp (h.known a b (hb a b hab))
  · intro a ha
    exact h.acyclic a (Relation.TransGen.mono hb _ _ ha)

/-- Tickets may be rewritten one by one, as long as what is checked stays. -/
theorem ValidTickets.map {ts : List (Json ν)} (h : ValidTickets ts) {f : Json ν → Json ν}
    (hv : ∀ t ∈ ts, validateTicket false (f t) = validateTicket false t)
    (hid : ∀ t ∈ ts, id? (f t) = id? t) (hto : ∀ t ∈ ts, targets (f t) = targets t) :
    ValidTickets (ts.map f) := by
  have hids : (ts.map f).map id? = ts.map id? := by
    rw [List.map_map]
    exact List.map_congr_left hid
  have hb : ∀ a b, Blocks (ts.map f) a b → Blocks ts a b := by
    intro a b ⟨u, hu, hua, hub⟩
    obtain ⟨t, ht, rfl⟩ := List.mem_map.mp hu
    exact ⟨t, ht, (hid t ht).symm.trans hua, hto t ht ▸ hub⟩
  refine ⟨?_, by rw [hids]; exact h.ids, ?_, ?_⟩
  · intro u hu
    obtain ⟨t, ht, rfl⟩ := List.mem_map.mp hu
    rw [hv t ht]
    exact h.valid t ht
  · intro a b hab
    rw [hids]
    exact h.known a b (hb a b hab)
  · intro a ha
    exact h.acyclic a (Relation.TransGen.mono hb _ _ ha)

/-- Every edge leads to a later ticket. -/
def leadsForward : List (Json ν) → Bool
  | [] => true
  | t :: ts => (targets t).all (fun b => decide (some b ∈ ts.map id?)) && leadsForward ts

omit [JsNumber ν] in
theorem leadsForward_cons {t : Json ν} {ts : List (Json ν)} (h : leadsForward (t :: ts) = true) :
    (∀ b ∈ targets t, some b ∈ ts.map id?) ∧ leadsForward ts = true := by
  rw [leadsForward, Bool.and_eq_true, List.all_eq_true] at h
  exact ⟨fun b hb => by simpa using h.1 b hb, h.2⟩

omit [JsNumber ν] in
theorem mem_of_leadsForward {ts : List (Json ν)} (h : leadsForward ts = true) {a b : JsString}
    (hb : Blocks ts a b) : some b ∈ ts.map id? := by
  induction ts with
  | nil =>
    obtain ⟨ticket, hm, -⟩ := hb
    cases hm
  | cons t ts ih =>
    obtain ⟨hhead, htail⟩ := leadsForward_cons h
    obtain ⟨ticket, hm, hid, htarget⟩ := hb
    rw [List.map_cons]
    apply List.mem_cons_of_mem
    rcases List.mem_cons.1 hm with rfl | hm
    · exact hhead b htarget
    · exact ih htail ⟨ticket, hm, hid, htarget⟩

omit [JsNumber ν] in
/-- An edge leads from an earlier place to a later one. -/
theorem idxOf_lt_of_leadsForward {ts : List (Json ν)} (h : leadsForward ts = true)
    (hids : (ts.map id?).Nodup) {a b : JsString} (hb : Blocks ts a b) :
    (ts.map id?).idxOf (some a) < (ts.map id?).idxOf (some b) := by
  induction ts with
  | nil =>
    obtain ⟨ticket, hm, -⟩ := hb
    cases hm
  | cons t ts ih =>
    obtain ⟨hhead, htail⟩ := leadsForward_cons h
    rw [List.map_cons, List.nodup_cons] at hids
    have hlater : ∀ c, some c ∈ ts.map id? →
        ((t :: ts).map id?).idxOf (some c) = (ts.map id?).idxOf (some c) + 1 := by
      intro c hc
      rw [List.map_cons, List.idxOf_cons_ne]
      rintro e
      exact hids.1 (e ▸ hc)
    obtain ⟨ticket, hm, hid, htarget⟩ := hb
    rcases List.mem_cons.1 hm with rfl | hm
    · rw [hlater b (hhead b htarget), List.map_cons, hid, List.idxOf_cons_self]
      exact Nat.succ_pos _
    · have hblocks : Blocks ts a b := ⟨ticket, hm, hid, htarget⟩
      have ha : some a ∈ ts.map id? := hid ▸ List.mem_map_of_mem hm
      rw [hlater a ha, hlater b (mem_of_leadsForward htail hblocks)]
      exact Nat.succ_lt_succ (ih htail hids.2 hblocks)

/-- Tickets that are valid each, with ids of their own and edges that all lead forward. -/
theorem validTickets_of_leadsForward {ts : List (Json ν)}
    (hvalid : ∀ t ∈ ts, validateTicket false t = []) (hids : (ts.map id?).Nodup)
    (h : leadsForward ts = true) : ValidTickets ts where
  valid := hvalid
  ids := hids
  known _ _ := mem_of_leadsForward h
  acyclic a hcycle := by
    have hlt : ∀ b, Relation.TransGen (Blocks ts) a b →
        (ts.map id?).idxOf (some a) < (ts.map id?).idxOf (some b) := by
      intro b hb
      induction hb with
      | single hb => exact idxOf_lt_of_leadsForward h hids hb
      | tail _ hb ih => exact ih.trans (idxOf_lt_of_leadsForward h hids hb)
    exact absurd (hlt a hcycle) (Nat.lt_irrefl _)

theorem toText_normal (v : Json ν) :
    toText (normal v) = toText v ∧ elemText (normal v) = elemText v := by
  induction v using Json.ind with
  | null | bool | num | str => exact ⟨rfl, rfl⟩
  | arr xs ih =>
    have key : joinTexts (normalElems xs) = joinTexts xs := by
      induction xs with
      | nil => rfl
      | cons x xs ihxs =>
        have hx := (ih x (by simp)).2
        have hxs := ihxs fun y hy => ih y (List.mem_cons_of_mem _ hy)
        cases xs with
        | nil => simp [normalElems, joinTexts, hx]
        | cons y ys =>
          simp only [normalElems] at hxs ⊢
          rw [joinTexts, joinTexts, hx, hxs]
    rw [normal, toText, toText, key, elemText, elemText, toText, toText, key]
    · exact ⟨rfl, rfl⟩
    · intro h
      cases h
    · intro h
      cases h
  | obj ms ih =>
    rw [normal_obj, toText, toText, elemText, elemText, toText, toText]
    · exact ⟨rfl, rfl⟩
    · intro h
      cases h
    · intro h
      cases h

theorem display_normal (value : Option (Json ν)) :
    display (value.map normal) = display value := by
  cases value with
  | none => rfl
  | some v =>
    have h := (toText_normal v).1
    cases v with
    | null | bool | num | str => rfl
    | arr xs =>
      simp only [normal] at h
      simpa [display, normal] using h
    | obj ms =>
      rw [normal_obj] at h
      rw [Option.map_some, normal_obj]
      simpa [display] using h

omit [JsNumber ν] in
theorem isText_normal (value : Option (Json ν)) : isText (value.map normal) = isText value := by
  cases value with
  | none => rfl
  | some v => cases v <;> rfl

omit [JsNumber ν] in
theorem isStr_normal (v : Json ν) : isStr (normal v) = isStr v := by
  cases v <;> rfl

omit [JsNumber ν] in
theorem isStringsField_normal (value : Option (Json ν)) :
    isStringsField (value.map normal) = isStringsField value := by
  cases value with
  | none => rfl
  | some v =>
    cases v with
    | arr xs =>
      simp only [Option.map_some, normal, normalElems_eq_map, isStringsField, List.all_map]
      congr 1
      funext x
      exact isStr_normal x
    | _ => rfl

theorem isDurationField_normal (value : Option (Json ν)) :
    isDurationField (value.map normal) = isDurationField value := by
  cases value with
  | none => rfl
  | some v => cases v <;> rfl

theorem eqNum_normal (value : Option (Json ν)) (n : ν) :
    eqNum (value.map normal) n = eqNum value n := by
  cases value with
  | none => rfl
  | some v => cases v <;> rfl

omit [JsNumber ν] in
theorem ordered_get? {v w : Json ν} (h : v.Ordered) {k : JsString}
    (hk : v.get? k = some w) : w.Ordered := by
  cases v with
  | obj ms => exact (membersOrdered_iff ms).mp h.2 (k, w) (Members.mem_lookup hk)
  | _ => cases hk

theorem isArchiveField_normal {value : Option (Json ν)} (h : ∀ v, value = some v → v.Ordered) :
    isArchiveField (value.map normal) = isArchiveField value := by
  cases value with
  | none => rfl
  | some v =>
    have ho := h v rfl
    rw [Option.map_some, isArchiveField, isArchiveField, get?_normal ho (by decide),
      get?_normal ho (by decide), eqNum_normal]
    congr 1
    cases v.get? (js "ticketHash") with
    | none => rfl
    | some w => cases w <;> rfl

omit [JsNumber ν] in
theorem edgeErrors_normal (name : JsString) {value : Option (Json ν)}
    (h : ∀ v, value = some v → v.Ordered) :
    edgeErrors name (value.map normal) = edgeErrors name value := by
  cases value with
  | none => rfl
  | some v =>
    cases v with
    | arr xs =>
      have ho := (elemsOrdered_iff xs).mp (h _ rfl)
      simp only [Option.map_some, normal, normalElems_eq_map, edgeErrors, List.filter_map,
        List.map_map]
      have e : ∀ edge ∈ xs, (!isText ((normal edge).get? (js "to"))) =
          !isText (edge.get? (js "to")) := by
        intro edge hedge
        rw [get?_normal (ho edge hedge) (by decide), isText_normal]
      rw [List.filter_congr (q := fun edge => !isText (edge.get? (js "to"))) e]
      rfl
    | _ => rfl

/-- Normalizing a ticket changes none of its errors. -/
theorem validateTicket_normal (archive : Bool) {ticket : Json ν} (h : ticket.Ordered) :
    validateTicket archive (normal ticket) = validateTicket archive ticket := by
  cases ticket with
  | obj ms =>
    have hk : ∀ k, k ≠ protoKey →
        (normal (.obj ms)).get? k = ((Json.obj ms).get? k).map normal := fun k => get?_normal h
    have ho : ∀ k v, (Json.obj ms).get? k = some v → v.Ordered := fun k v => ordered_get? h
    rw [normal_obj] at hk ⊢
    simp only [validateTicket, hk (js "id") (by decide), hk (js "title") (by decide),
      hk (js "scope") (by decide), hk (js "rails") (by decide), hk (js "edges") (by decide),
      hk (js "duration") (by decide), hk (js "_adlcArchive") (by decide), display_normal,
      isText_normal, isStringsField_normal, isDurationField_normal,
      edgeErrors_normal _ (ho (js "edges")), isArchiveField_normal (ho (js "_adlcArchive")),
      Option.isNone_map]
  | _ => rfl

omit [JsNumber ν] in
theorem id?_normal {ticket : Json ν} (h : ticket.Ordered) : id? (normal ticket) = id? ticket := by
  unfold id?
  rw [get?_normal h (by decide)]
  cases ticket.get? (js "id") with
  | none => rfl
  | some v => cases v <;> rfl

omit [JsNumber ν] in
theorem target?_normal {edge : Json ν} (h : edge.Ordered) :
    target? (normal edge) = target? edge := by
  unfold target?
  rw [get?_normal h (by decide)]
  cases edge.get? (js "to") with
  | none => rfl
  | some v => cases v <;> rfl

omit [JsNumber ν] in
theorem targets_normal {ticket : Json ν} (h : ticket.Ordered) :
    targets (normal ticket) = targets ticket := by
  unfold targets edgesOf
  rw [get?_normal h (by decide)]
  cases e : ticket.get? (js "edges") with
  | none => rfl
  | some v =>
    cases v with
    | arr xs =>
      have ho := (elemsOrdered_iff xs).mp (ordered_get? h e)
      simp only [Option.map_some, normal, normalElems_eq_map, List.filterMap_map]
      apply List.filterMap_congr
      intro edge hedge
      exact target?_normal (ho edge hedge)
    | _ => rfl

theorem ValidTickets.normal {ts : List (Json ν)} (h : ValidTickets ts)
    (ho : ∀ t ∈ ts, t.Ordered) : ValidTickets (ts.map normal) :=
  h.map (fun t ht => validateTicket_normal false (ho t ht)) (fun t ht => id?_normal (ho t ht))
    fun t ht => targets_normal (ho t ht)

end Adlc.Tickets
