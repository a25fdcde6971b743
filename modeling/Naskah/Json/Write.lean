import Naskah.Json.Basic

/-
  Writing JSON, compactly or over several lines with two spaces for each level. Only the quote, the
  backslash and the control characters are escaped, in their short forms where there are any.
-/

namespace Naskah.Json

/-- A hexadecimal digit, in lower case. -/
def hexDigit (n : Nat) : Char :=
  Nat.digitChar (n % 16)

/-- A character inside a string. -/
def escapeChar (c : Char) : List Char :=
  if c = '"' then ['\\', '"']
  else if c = '\\' then ['\\', '\\']
  else if c = '\n' then ['\\', 'n']
  else if c = '\r' then ['\\', 'r']
  else if c = '\t' then ['\\', 't']
  else if c.toNat = 0x08 then ['\\', 'b']
  else if c.toNat = 0x0c then ['\\', 'f']
  else if c.toNat < 0x20 then ['\\', 'u', '0', '0', hexDigit (c.toNat / 16), hexDigit c.toNat]
  else [c]

/-- A text in quotes. -/
def quote (s : String) : List Char :=
  '"' :: (s.toList.flatMap escapeChar ++ ['"'])

/-- A string. One that denotes no text is written as half a surrogate pair. -/
def stringChars : Option String → List Char
  | some s => quote s
  | none => ['"', '\\', 'u', 'd', '8', '0', '0', '"']

/-- The words of a JSON text. -/
def boolChars (b : Bool) : List Char :=
  if b then ['t', 'r', 'u', 'e'] else ['f', 'a', 'l', 's', 'e']

def nullChars : List Char := ['n', 'u', 'l', 'l']

mutual

/-- The compact form. -/
def compactChars : Json → List Char
  | null => nullChars
  | boolean b => boolChars b
  | number numeral => numeral.toList
  | string s => stringChars s
  | array items => '[' :: (compactItems items ++ [']'])
  | object members => '{' :: (compactMembers members ++ ['}'])

def compactItems : List Json → List Char
  | [] => []
  | [j] => compactChars j
  | j :: rest => compactChars j ++ ',' :: compactItems rest

def compactMembers : List (Option String × Json) → List Char
  | [] => []
  | [(name, j)] => stringChars name ++ ':' :: compactChars j
  | (name, j) :: rest => stringChars name ++ ':' :: (compactChars j ++ ',' :: compactMembers rest)

end

/-- A line break and the indentation of a level. -/
def indent (level : Nat) : List Char :=
  '\n' :: List.replicate (2 * level) ' '

mutual

/-- The form over several lines, from a level of indentation on. -/
def prettyChars (level : Nat) : Json → List Char
  | null => nullChars
  | boolean b => boolChars b
  | number numeral => numeral.toList
  | string s => stringChars s
  | array [] => ['[', ']']
  | array (j :: rest) => '[' :: (prettyItems (level + 1) (j :: rest) ++ indent level ++ [']'])
  | object [] => ['{', '}']
  | object (m :: rest) =>
    '{' :: (prettyMembers (level + 1) (m :: rest) ++ indent level ++ ['}'])

def prettyItems (level : Nat) : List Json → List Char
  | [] => []
  | [j] => indent level ++ prettyChars level j
  | j :: rest => indent level ++ prettyChars level j ++ ',' :: prettyItems level rest

def prettyMembers (level : Nat) : List (Option String × Json) → List Char
  | [] => []
  | [(name, j)] => indent level ++ stringChars name ++ ':' :: ' ' :: prettyChars level j
  | (name, j) :: rest =>
    indent level ++ stringChars name ++ ':' :: ' ' :: (prettyChars level j ++
      ',' :: prettyMembers level rest)

end

def compact (j : Json) : String :=
  .ofList j.compactChars

def pretty (j : Json) : String :=
  .ofList (j.prettyChars 0)

end Naskah.Json
