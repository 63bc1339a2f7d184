import MetaTransaction.Json.Basic

/-!
# Records

A record is read from an object by the names of its fields, or from an array by their order. In an
object unknown keys are passed over and a known key must not come twice. An array may leave out
fields at its end, but has no more items than there are fields.
-/

namespace MetaTransaction.Json

/-- The value of a key, none when the key is absent; fails when it comes twice. A reader could not
know which of the two was meant. -/
def member? (members : List (Option String × Json)) (name : String) : Option (Option Json) :=
  match members.filter (fun m => m.1 = some name) with
  | [] => some none
  | [m] => some (some m.2)
  | _ => none

/-- The values of the named fields of an object, none for a field that is left out. -/
def objectFields? (names : List String) : Json → Option (List (Option Json))
  | .object members =>
    if members.all (fun m => m.1.isSome) then names.mapM (member? members) else none
  | _ => none

/-- The values of the named fields, none for a field that is left out. An array holds at least
`least` items. -/
def fieldsAtLeast? (least : Nat) (names : List String) : Json → Option (List (Option Json))
  | .array items =>
    if least ≤ items.length ∧ items.length ≤ names.length then
      some (items.map some ++ List.replicate (names.length - items.length) none)
    else none
  | j => objectFields? names j

/-- The values of the named fields, none for a field that is left out. -/
def fields? (names : List String) (j : Json) : Option (List (Option Json)) :=
  fieldsAtLeast? 0 names j

/-- A field that must be there. What it may be is left to the reader. -/
def required? {α : Type} (read? : Json → Option α) (field : Option Json) : Option α :=
  field.bind read?

/-- A field that has a default, which only stands for a field that is missing. -/
def optional? {α : Type} (default : α) (read? : Json → Option α) : Option Json → Option α
  | none => some default
  | some j => read? j

/-- A field that may be null. -/
def nullable? {α : Type} (read? : Json → Option α) : Json → Option (Option α)
  | .null => some none
  | j => (read? j).map some

end MetaTransaction.Json
