import SourceAtlas.Json.Basic
/-!
Values of a TOML document. Settings are texts, whole numbers, truth values and lists of texts, so of
a fraction, a date or a time only the fact of being one is kept.
-/

namespace SourceAtlas.Toml

/-- A value behind an equals sign. -/
inductive Value where
  | string (text : String)
  | integer (value : Int)
  | fraction
  | boolean (value : Bool)
  | moment
  | array (items : List Value)
  | table (entries : List (String × Value))
  deriving Repr, Inhabited

namespace Value

mutual

/-- The value as a document. A fraction is a number that is no integer, a date or time a record with
none of the fields that are asked for. -/
def toJson : Value → Json
  | string s => .string s
  | integer i => .int i
  | fraction => .number (.real (.zero false))
  | boolean b => .bool b
  | moment => .object []
  | array items => .array (itemsToJson items)
  | table entries => .object (entriesToJson entries)

/-- `toJson` on each item. -/
def itemsToJson : List Value → List Json
  | [] => []
  | v :: rest => toJson v :: itemsToJson rest

/-- `toJson` on each entry. -/
def entriesToJson : List (String × Value) → List (String × Json)
  | [] => []
  | (name, v) :: rest => (name, toJson v) :: entriesToJson rest

end

end Value

end SourceAtlas.Toml
