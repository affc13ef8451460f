import SourceAtlas.Json.Basic
/-!
Records out of documents. A record is written as an object, whose unknown members are ignored, or as
an array of its fields in their order. An unset optional field is `null` or missing.
-/

namespace SourceAtlas.Json

/-- The fields of a record by name. An array may leave out fields at its end as long as the first
`needed` are there. -/
def fields? (names : List String) (needed : Nat) : Json → Option (List (String × Json))
  | object members => some members
  | array items =>
    if needed ≤ items.length && items.length ≤ names.length then some (names.zip items) else none
  | _ => none

/-- The fields of a record in a text as it was read, where no field may be written twice. -/
def writtenFields? (names : List String) (needed : Nat) : Json → Option (List (String × Json))
  | object members =>
    if names.all fun n => (members.filter (·.1 == n)).length ≤ 1 then
      fields? names needed (settle (object members))
    else none
  | other => fields? names needed (settle other)

/-- A field that must be there. -/
def required (fields : List (String × Json)) (name : String) (read : Json → Option α) : Option α :=
  (fields.lookup name).bind read

/-- A field that may be unset. -/
def unsettable (fields : List (String × Json)) (name : String) (read : Json → Option α) :
    Option (Option α) :=
  match fields.lookup name with
  | none => some none
  | some null => some none
  | some j => (read j).map some

/-- A field that has a default when it is missing. -/
def defaulting (fields : List (String × Json)) (name : String) (read : Json → Option α)
    (default : α) : Option α :=
  match fields.lookup name with
  | none => some default
  | some j => read j

/-- An array of values of one type. -/
def list? (read : Json → Option α) : Json → Option (List α)
  | array items => items.mapM read
  | _ => none

/-- An array of two values. -/
def twoOf? (first : Json → Option α) (second : Json → Option β) : Json → Option (α × β)
  | array [a, b] =>
    match first a, second b with
    | some a, some b => some (a, b)
    | _, _ => none
  | _ => none

/-- One of the words of a type: the word itself, or an object whose one member is the word. -/
def choice? (ofWord? : String → Option α) : Json → Option α
  | string w => ofWord? w
  | object [(w, null)] => ofWord? w
  | _ => none

end SourceAtlas.Json
