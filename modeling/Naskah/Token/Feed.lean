import Naskah.Token.Scan

/-
  A feed is what a parser looks at: the tokens of a text, the current one first. Scanning runs one
  token ahead of the parser, so an error in the text shows as soon as the token before it is left,
  and a parser that stops earlier never meets it.
-/

namespace Naskah

inductive Feed where
  /-- All tokens are passed; the line is that of the end of the text. -/
  | finish (line : Nat)
  | token (t : Token) (rest : Feed)
  /-- The current token is the last one before an error in the text. -/
  | faulty (t : Token) (e : LexError)
deriving DecidableEq, Repr

namespace Feed

/-- The number of tokens from the current one on. -/
def size : Feed → Nat
  | finish _ => 0
  | token _ rest => rest.size + 1
  | faulty _ _ => 1

/-- The current token. -/
def current? : Feed → Option Token.Kind
  | finish _ => none
  | token t _ => some t.kind
  | faulty t _ => some t.kind

/-- The line of the current token, or of the end of the text. -/
def line : Feed → Nat
  | finish line => line
  | token t _ => t.line
  | faulty t _ => t.line

/-- The current token and, if no error stands in the way, the feed behind it. There is no current
    token at the end of the text. -/
def take? : (f : Feed) → Option (Token × Except LexError { rest : Feed // rest.size < f.size })
  | finish _ => none
  | token t rest => some (t, .ok ⟨rest, Nat.lt_succ_self _⟩)
  | faulty t e => some (t, .error e)

theorem current?_eq (f : Feed) : f.current? = f.take?.map (·.1.kind) := by
  cases f <;> rfl

/-- The tokens of a list, then the end of the text on the given line. -/
def ofTokens (ts : List Token) (lastLine : Nat) : Feed :=
  ts.foldr token (finish lastLine)

/-- Scans the text behind a cursor. -/
def ofCursor (c : Cursor) : Except LexError Feed :=
  match _h : c.scan with
  | (.finish line, _) => .ok (.finish line)
  | (.fault e, _) => .error e
  | (.token t, c') =>
    match ofCursor c' with
    | .ok rest => .ok (.token t rest)
    | .error e => .ok (.faulty t e)
termination_by c.rest.length
decreasing_by exact Cursor.scan_shorter _h (by simp)

def ofSource (source : String) : Except LexError Feed :=
  ofCursor (.start source)

/-- All tokens and the line of the end, unless there is an error among them. -/
def tokens : Feed → Except LexError (List Token × Nat)
  | finish line => .ok ([], line)
  | token t rest => rest.tokens.map fun (ts, line) => (t :: ts, line)
  | faulty _ e => .error e

theorem tokens_ofTokens (ts : List Token) (line : Nat) :
    (ofTokens ts line).tokens = .ok (ts, line) := by
  induction ts with
  | nil => rfl
  | cons t ts ih =>
    have h : ofTokens (t :: ts) line = token t (ofTokens ts line) := rfl
    rw [h, tokens, ih]
    rfl

end Feed

/-- The tokens of a text and the line of its end, or its first error. -/
def tokenize (source : String) : Except LexError (List Token × Nat) :=
  (Feed.ofSource source).bind Feed.tokens

end Naskah
