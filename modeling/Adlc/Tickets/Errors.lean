import Adlc.Framework.Text

namespace Adlc.Tickets

open Adlc.Framework

/-- The `kind` of a `TicketStoreError`. -/
inductive ErrorKind where
  | invalid | conflict | policy | operational
  deriving DecidableEq

/-- What a call throws. An exception that is no `TicketStoreError` is recorded as `asTicketResult`
reports it: operational, with code `UNEXPECTED`. -/
structure TicketStoreError where
  kind : ErrorKind
  code : JsString
  message : JsString
  deriving DecidableEq

def invalid (code : String) (message : JsString) : TicketStoreError := ⟨.invalid, js code, message⟩
def conflict (code : String) (message : JsString) : TicketStoreError := ⟨.conflict, js code, message⟩
def policy (code : String) (message : JsString) : TicketStoreError := ⟨.policy, js code, message⟩
def operational (code : String) (message : JsString) : TicketStoreError :=
  ⟨.operational, js code, message⟩

/-- A `TypeError` or an error of the system. -/
def unexpected (message : JsString) : TicketStoreError := operational "UNEXPECTED" message

/-- A key is a string that is not empty, or null for none. -/
def validateKeyParam (key : Option JsString) : Except TicketStoreError (Option JsString) :=
  if key = some [] then
    .error (unexpected (js "manifest key parameter must be a non-empty string (a key) or null (explicitly no key); got '' (empty string). Resolve the environment in the bin (getKey()) and thread the value down — library code never reads process.env."))
  else .ok key

/-! ## Calls that may throw -/

variable {ε α β : Type}

theorem bind_eq_ok {x : Except ε α} {f : α → Except ε β} {b : β} :
    (x >>= f) = .ok b ↔ ∃ a, x = .ok a ∧ f a = .ok b := by
  cases x with
  | error e => simp [bind, Except.bind]
  | ok a => simp [bind, Except.bind]

theorem map_eq_ok {x : Except ε α} {f : α → β} {b : β} :
    x.map f = .ok b ↔ ∃ a, x = .ok a ∧ f a = b := by
  cases x with
  | error e => simp [Except.map]
  | ok a => simp [Except.map]

end Adlc.Tickets
