import Naskah.Token.Feed

/-
  Results of parsing: a value and the feed behind what was parsed. The feed that is left is shorter
  than a given size by its type, so a parser that takes a token on every round comes to an end.
-/

namespace Naskah

/-- A parsed value, with fewer than `n` tokens left. -/
structure Parsed (α : Type) (n : Nat) where
  value : α
  rest : Feed
  shorter : rest.size < n

/-- A parser that takes at least one token. -/
abbrev Parser (α : Type) : Type :=
  (f : Feed) → Except Error (Parsed α f.size)

/-- Takes the current token if it is acceptable. -/
def expect {α : Type} (wanted : Expectation) (accept : Token.Kind → Option α) : Parser α :=
  fun f =>
    match f.take? with
    | none => .error (.structural (.unexpectedEnd wanted f.line))
    | some (t, next) =>
      match accept t.kind with
      | none => .error (.structural (.unexpected wanted (.token t.kind) t.line))
      | some a =>
        match next with
        | .error e => .error (.lexical e)
        | .ok ⟨rest, shorter⟩ => .ok ⟨a, rest, shorter⟩

def expectKeyword (k : Keyword) : Parser Unit :=
  expect (.keyword k) fun kind => if kind = .keyword k then some () else none

def expectSymbol (s : Symbol) : Parser Unit :=
  expect (.symbol s) fun kind => if kind = .symbol s then some () else none

/-- Takes a name; the expectation says what it is needed for. -/
def expectName (wanted : Expectation) : Parser String :=
  expect wanted fun
    | .identifier name => some name
    | _ => none

end Naskah
