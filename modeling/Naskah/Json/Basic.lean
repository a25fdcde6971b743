/-
  JSON documents as trees. A number is kept as the numeral that spells it. The escapes of a string
  can leave half of a surrogate pair alone; such a string is well formed but denotes no text.
-/

namespace Naskah

inductive Json where
  | null
  | boolean (b : Bool)
  | number (numeral : String)
  /-- A string; `none` if it denotes no text. -/
  | string (text : Option String)
  | array (items : List Json)
  /-- The members as they are written, repeated names included. -/
  | object (members : List (Option String × Json))

namespace Json

/-- The JSON string of a text. -/
def text (s : String) : Json := string (some s)

/-- A natural number. -/
def nat (n : Nat) : Json := number (.ofList (Nat.toDigits 10 n))

/-- An object with the given texts as names. -/
def ofMembers (members : List (String × Json)) : Json :=
  object (members.map fun (name, value) => (some name, value))

/-- The member of an object that is written first under a name. -/
def member? (j : Json) (name : String) : Option Json :=
  match j with
  | object members => members.lookup (some name)
  | _ => none

end Json

end Naskah
