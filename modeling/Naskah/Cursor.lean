/-
  A cursor walks through a source text one character at a time, sees one character ahead, and knows
  the line of the character it passed last. A line break belongs to the line that it ends, so the
  line goes up only when the character after a line break is passed.
-/

namespace Naskah

/-- A place in a source text. -/
structure Cursor where
  /-- The characters that have not been passed. -/
  rest : List Char
  /-- The line, from 1 on, of the character passed last; 1 before the first. -/
  line : Nat
  /-- Whether the character passed last is a line break. -/
  afterBreak : Bool
deriving DecidableEq, Repr

namespace Cursor

/-- The cursor before the first character of a text. -/
def start (source : String) : Cursor :=
  ⟨source.toList, 1, false⟩

/-- The character that is passed next. -/
def peek (c : Cursor) : Option Char :=
  c.rest.head?

/-- The line of the character that is passed next. -/
def lineAhead (c : Cursor) : Nat :=
  if c.afterBreak then c.line + 1 else c.line

/-- Passes a character: the character, the one after it, and the cursor behind it. -/
def next? (c : Cursor) : Option ((Char × Option Char) × Cursor) :=
  match c.rest with
  | [] => none
  | ch :: rest => some ((ch, rest.head?), ⟨rest, c.lineAhead, ch == '\n'⟩)

/-- The cursor behind the next character; at the end of the text it stays. -/
def advance (c : Cursor) : Cursor :=
  match c.rest with
  | [] => c
  | ch :: rest => ⟨rest, c.lineAhead, ch == '\n'⟩

/-- Passes `n` characters. -/
def skip (c : Cursor) : Nat → Cursor
  | 0 => c
  | n + 1 => c.advance.skip n

theorem next?_eq (c : Cursor) :
    c.next? = c.peek.map fun ch => ((ch, c.advance.peek), c.advance) := by
  cases h : c.rest <;> simp [next?, peek, advance, h]

@[simp] theorem advance_rest (c : Cursor) : c.advance.rest = c.rest.tail := by
  cases h : c.rest <;> simp [advance, h]

@[simp] theorem skip_rest (c : Cursor) (n : Nat) : (c.skip n).rest = c.rest.drop n := by
  induction n generalizing c with
  | zero => rfl
  | succ n ih =>
    rw [skip, ih, advance_rest]
    cases c.rest <;> simp

end Cursor

end Naskah
