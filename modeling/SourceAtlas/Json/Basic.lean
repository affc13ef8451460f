import SourceAtlas.Integer64
import SourceAtlas.Json.Binary64
/-!
JSON documents. Members of an object keep the order in which they are written; a document that was
just read may name a member twice, and `settle` gives the document that such a text means.
-/

namespace SourceAtlas

/-- A number is an integer of 64 bits, signed or not, or a double. -/
inductive JsonNumber where
  | int (value : Int)
  | real (value : Binary64)
  deriving DecidableEq, Repr

/-- A JSON document. -/
inductive Json where
  | null
  | bool (value : Bool)
  | number (value : JsonNumber)
  | string (value : String)
  | array (items : List Json)
  | object (members : List (String × Json))
  deriving BEq, Repr, Inhabited

namespace Json

/-- An integer. -/
def int (i : Int) : Json := number (.int i)

/-- A natural number. -/
def nat (n : Nat) : Json := number (.int n)

/-- The value or `null`. -/
def ofOption (f : α → Json) : Option α → Json
  | some a => f a
  | none => null

/-- A member that is left out when it is unset. -/
def optional (name : String) (f : α → Json) : Option α → List (String × Json)
  | some a => [(name, f a)]
  | none => []

/-- The member of an object. -/
def get? (name : String) : Json → Option Json
  | object members => members.lookup name
  | _ => none

/-- The member of an object, or `null` when there is none. -/
def field (name : String) (j : Json) : Json := (j.get? name).getD null

/-- The text of a string. -/
def string? : Json → Option String
  | string s => some s
  | _ => none

/-- The truth value. -/
def bool? : Json → Option Bool
  | bool b => some b
  | _ => none

/-- An integer from 0 to 2⁶⁴ - 1. -/
def nat? : Json → Option Nat
  | number (.int i) => if isUnsigned64 i then some i.toNat else none
  | _ => none

/-- An integer from -2⁶³ to 2⁶³ - 1. -/
def int? : Json → Option Int
  | number (.int i) => if isSigned64 i then some i else none
  | _ => none

/-- The items of an array. -/
def array? : Json → Option (List Json)
  | array items => some items
  | _ => none

/-- The members of an object. -/
def object? : Json → Option (List (String × Json))
  | object members => some members
  | _ => none

/-- A member set in a list of members: in its old place, or at the end. -/
def setMember (name : String) (value : α) : List (String × α) → List (String × α)
  | [] => [(name, value)]
  | (n, v) :: rest =>
    if n = name then (n, value) :: rest else (n, v) :: setMember name value rest

/-- Each member once: in the place of its first mention, with the value of its last. -/
def settleMembers (members : List (String × α)) : List (String × α) :=
  members.foldl (fun ms m => setMember m.1 m.2 ms) []

mutual

/-- The document with every object's members settled. -/
def settle : Json → Json
  | array items => array (settleItems items)
  | object members => object (settleMembers (settleValues members))
  | other => other

/-- `settle` on each item. -/
def settleItems : List Json → List Json
  | [] => []
  | j :: rest => settle j :: settleItems rest

/-- `settle` on each member's value. -/
def settleValues : List (String × Json) → List (String × Json)
  | [] => []
  | (name, j) :: rest => (name, settle j) :: settleValues rest

end

end Json

end SourceAtlas
