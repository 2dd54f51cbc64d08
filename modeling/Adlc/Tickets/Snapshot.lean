import Adlc.Tickets.Schema

namespace Adlc.Tickets

open Adlc.Framework

variable {ν : Type} [JsNumber ν]

/-! ## Hashes -/

def ticketHashDomain : JsString := js "adlc:ticket:v1\x00"
def storeHashDomain : JsString := js "adlc:active-store:v1\x00"

/-- `sha256` of a string: the digest of its UTF-8. -/
def sha256 (value : JsString) : JsString := sha256Hex (utf8Encode value)

def ticketHash (ticket : Json ν) : Except TicketStoreError JsString :=
  (canonicalJson ticket).map fun text => sha256 (ticketHashDomain ++ text)

def ticketPair (ticket : Json ν) : Except TicketStoreError (JsString × JsString) :=
  match id? ticket with
  | none => .error (unexpected (js "ticket id is not a string"))
  | some id => (ticketHash ticket).map fun hash => (id, hash)

def pairJson (p : JsString × JsString) : Json ν := .arr [.str p.1, .str p.2]

def storeHash (tickets : List (Json ν)) : Except TicketStoreError JsString :=
  match tickets.mapM ticketPair with
  | .error e => .error e
  | .ok pairs =>
    (canonicalJson (.arr ((sortByKey pairs).map (pairJson (ν := ν))))).map
      fun text => sha256 (storeHashDomain ++ text)

/-- The hash of a ticket whose numbers are finite. -/
def hashOf (ticket : Json ν) : JsString := sha256 (ticketHashDomain ++ stringify (normal ticket))

def idOf (ticket : Json ν) : JsString := (id? ticket).getD []

/-- The pairs that a store's hash covers. -/
def hashPairs (tickets : List (Json ν)) : List (JsString × JsString) :=
  sortByKey (tickets.map fun ticket => (idOf ticket, hashOf ticket))

/-- The hash of a store of tickets with string ids and finite numbers. -/
def storeHashOf (tickets : List (Json ν)) : JsString :=
  sha256 (storeHashDomain ++ stringify (.arr ((hashPairs tickets).map (pairJson (ν := ν)))))

/-! ## Snapshots -/

/-- `deepClone`: through the text of the value; an infinite number is refused. -/
def deepClone (value : Json ν) : Except TicketStoreError (Json ν) :=
  if value.finite then
    match parseJson (stringify value) with
    | some v => .ok v
    | none => .error (unexpected (js "Unexpected token in JSON"))
  else .error (unexpected (js "deepClone cannot round-trip the non-finite number Infinity"))

/-- `deepClone` of an array of tickets. -/
def deepCloneAll (tickets : List (Json ν)) : Except TicketStoreError (List (Json ν)) :=
  match deepClone (.arr tickets) with
  | .ok (.arr xs) => .ok xs
  | .ok _ => .error (unexpected (js "left.sort is not a function"))
  | .error e => .error e

/-- `tickets.sort((left, right) => compareTicketIds(left.id, right.id))` -/
def sortById (tickets : List (Json ν)) : List (Json ν) :=
  tickets.mergeSort fun left right => compareTicketIds (idOf left) (idOf right)

/-- The frozen content of a store, with its hash. -/
structure TicketSnapshot (ν : Type) where
  tickets : List (Json ν)
  hash : JsString

def TicketSnapshot.make (tickets : List (Json ν)) : Except TicketStoreError (TicketSnapshot ν) :=
  match deepCloneAll tickets with
  | .error e => .error e
  | .ok clones => (storeHash (sortById clones)).map fun hash => ⟨sortById clones, hash⟩

/-- `snapshot.get(id)` -/
def TicketSnapshot.get (s : TicketSnapshot ν) (id : JsString) : Option (Json ν) :=
  byIdGet s.tickets id

/-- `snapshot.ticketHashes[id]` -/
def TicketSnapshot.ticketHashes (s : TicketSnapshot ν) (id : JsString) : Option JsString :=
  (byIdGet s.tickets id).map hashOf

def TicketSnapshot.mutableTickets (s : TicketSnapshot ν) :
    Except TicketStoreError (List (Json ν)) :=
  deepCloneAll s.tickets

/-! ## Tickets as they are hashed -/

theorem ticketHash_eq {ticket : Json ν} (h : ticket.finite = true) :
    ticketHash ticket = .ok (hashOf ticket) := by
  rw [ticketHash, canonicalJson_eq h]
  rfl

omit [JsNumber ν] in
theorem id?_eq_idOf {ticket : Json ν} (h : (id? ticket).isSome = true) :
    id? ticket = some (idOf ticket) := by
  unfold idOf
  cases e : id? ticket with
  | none => simp [e] at h
  | some id => rfl

theorem mapM_ticketPair {tickets : List (Json ν)} (hf : ∀ t ∈ tickets, t.finite = true)
    (hid : ∀ t ∈ tickets, (id? t).isSome = true) :
    tickets.mapM ticketPair = .ok (tickets.map fun t => (idOf t, hashOf t)) := by
  induction tickets with
  | nil => rfl
  | cons t tickets ih =>
    have h1 := ih (fun u hu => hf u (List.mem_cons_of_mem _ hu))
      (fun u hu => hid u (List.mem_cons_of_mem _ hu))
    have h2 : ticketPair t = .ok (idOf t, hashOf t) := by
      rw [ticketPair, id?_eq_idOf (hid t (by simp)), ticketHash_eq (hf t (by simp))]
      rfl
    rw [List.mapM_cons, h2, h1]
    rfl

theorem pairJson_isJson (pairs : List (JsString × JsString)) :
    (Json.arr (pairs.map (pairJson (ν := ν)))).IsJson := by
  rw [Json.IsJson, elemsIsJson_iff]
  intro x hx
  obtain ⟨p, -, rfl⟩ := List.mem_map.mp hx
  exact ⟨trivial, trivial, trivial⟩

omit [JsNumber ν] in
theorem normal_pairs (pairs : List (JsString × JsString)) :
    normal (.arr (pairs.map (pairJson (ν := ν)))) = .arr (pairs.map pairJson) := by
  rw [normal, normalElems_eq_map, List.map_map]
  rfl

theorem storeHash_eq {tickets : List (Json ν)} (hf : ∀ t ∈ tickets, t.finite = true)
    (hid : ∀ t ∈ tickets, (id? t).isSome = true) :
    storeHash tickets = .ok (storeHashOf tickets) := by
  rw [storeHash, mapM_ticketPair hf hid]
  simp only
  rw [canonicalJson_eq ((Json.isJson_iff _).mp (pairJson_isJson _)).2, normal_pairs]
  rfl

theorem deepClone_eq {v : Json ν} (h : v.IsJson) : deepClone v = .ok v := by
  rw [deepClone, if_pos ((Json.isJson_iff v).mp h).2, parseJson_stringify h]

theorem deepCloneAll_eq {tickets : List (Json ν)} (h : ∀ t ∈ tickets, t.IsJson) :
    deepCloneAll tickets = .ok tickets := by
  have hj : (Json.arr tickets).IsJson := (elemsIsJson_iff tickets).mpr h
  rw [deepCloneAll, deepClone_eq hj]

theorem deepCloneAll_finite {tickets clones : List (Json ν)} (h : deepCloneAll tickets = .ok clones) :
    ∀ t ∈ tickets, t.finite = true := by
  unfold deepCloneAll deepClone at h
  by_cases hf : (Json.arr tickets).finite = true
  · exact (elemsFinite_iff tickets).mp hf
  · rw [if_neg hf] at h
    cases h

omit [JsNumber ν] in
theorem sortById_perm (tickets : List (Json ν)) : (sortById tickets).Perm tickets :=
  List.mergeSort_perm _ _

/-- The snapshot of tickets with string ids and finite numbers. -/
def snapshotOf (tickets : List (Json ν)) : TicketSnapshot ν :=
  ⟨sortById tickets, storeHashOf (sortById tickets)⟩

theorem TicketSnapshot.make_eq {tickets : List (Json ν)} (hj : ∀ t ∈ tickets, t.IsJson)
    (hid : ∀ t ∈ tickets, (id? t).isSome = true) :
    TicketSnapshot.make tickets = .ok (snapshotOf tickets) := by
  have hm : ∀ t, t ∈ sortById tickets → t ∈ tickets := fun t => (sortById_perm tickets).mem_iff.mp
  have hh : storeHash (sortById tickets) = .ok _ := storeHash_eq
    (fun t ht => ((Json.isJson_iff t).mp (hj t (hm t ht))).2) (fun t ht => hid t (hm t ht))
  rw [TicketSnapshot.make, deepCloneAll_eq hj]
  simp only [hh]
  rfl

/-! ## What a hash determines -/

/-- `sha256` tells the strings of a set apart. -/
def CollisionFree (s : Set JsString) : Prop :=
  ∀ a ∈ s, ∀ b ∈ s, sha256 a = sha256 b → utf8Encode a = utf8Encode b

/-- The strings that hashing a store digests. -/
def hashInputs (tickets : List (Json ν)) : Set JsString :=
  {a | (∃ t ∈ tickets, a = ticketHashDomain ++ stringify (normal t)) ∨
    a = storeHashDomain ++ stringify (.arr ((hashPairs tickets).map (pairJson (ν := ν))))}

theorem utf8Encode_inj_of_printable {s t : JsString} (hs : Printable s) (ht : Printable t)
    {d : JsString} (hd : wellFormed d = true) (h : utf8Encode (d ++ s) = utf8Encode (d ++ t)) :
    s = t := by
  have hs' : wellFormed (d ++ s) = true := by rw [wellFormed_append d s hd]; exact hs.1
  have ht' : wellFormed (d ++ t) = true := by rw [wellFormed_append d t hd]; exact ht.1
  have e := (utf8Encode_eq_iff _ _).mp h
  rw [toWellFormed_of_wellFormed _ hs', toWellFormed_of_wellFormed _ ht'] at e
  exact List.append_cancel_left e

theorem ticketHashDomain_wellFormed : wellFormed ticketHashDomain = true := by decide +kernel

theorem storeHashDomain_wellFormed : wellFormed storeHashDomain = true := by decide +kernel

theorem hashOf_inj {t u : Json ν} (ht : t.IsJson) (hu : u.IsJson) {s : Set JsString}
    (hs : CollisionFree s) (hts : ticketHashDomain ++ stringify (normal t) ∈ s)
    (hus : ticketHashDomain ++ stringify (normal u) ∈ s) (h : hashOf t = hashOf u) :
    normal t = normal u := by
  have e := hs _ hts _ hus h
  have e' := utf8Encode_inj_of_printable (printable_stringify _) (printable_stringify _)
    ticketHashDomain_wellFormed e
  exact stringify_injective (normal_isJson ht) (normal_isJson hu) e'

/-- What a store's hash digests. -/
def storeText (tickets : List (Json ν)) : JsString :=
  storeHashDomain ++ stringify (.arr ((hashPairs tickets).map (pairJson (ν := ν))))

theorem storeText_mem (tickets : List (Json ν)) : storeText tickets ∈ hashInputs tickets :=
  Or.inr rfl

theorem storeText_inj {ts us : List (Json ν)}
    (h : utf8Encode (storeText ts) = utf8Encode (storeText us)) : hashPairs ts = hashPairs us := by
  have e := utf8Encode_inj_of_printable (printable_stringify _) (printable_stringify _)
    storeHashDomain_wellFormed h
  have e' := Json.arr.inj (stringify_injective (pairJson_isJson _) (pairJson_isJson _) e)
  refine List.map_injective_iff.mpr ?_ e'
  intro p q hpq
  simp only [pairJson, Json.arr.injEq, List.cons.injEq, Json.str.injEq, and_true] at hpq
  exact Prod.ext hpq.1 hpq.2

/-- Stores with one hash hold the same ids, each with the same hash. -/
theorem hashPairs_inj {ts us : List (Json ν)} {s : Set JsString} (hs : CollisionFree s)
    (hts : hashInputs ts ⊆ s) (hus : hashInputs us ⊆ s) (h : storeHashOf ts = storeHashOf us) :
    hashPairs ts = hashPairs us :=
  storeText_inj (hs _ (hts (storeText_mem ts)) _ (hus (storeText_mem us)) h)

end Adlc.Tickets
