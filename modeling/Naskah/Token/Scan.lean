import Naskah.Cursor
import Naskah.Error
import Naskah.Text.WordChar

/-
  Scanning: the text is cut into tokens from left to right. Spaces, tabs and line breaks only
  separate; every other character belongs to a token or is an error. Signs of two characters,
  numbers and words are taken as long as possible, and a string runs to the first quote that is not
  the second half of a backslash pair.
-/

namespace Naskah

namespace Scan

/-- The characters that separate tokens. -/
def isSpace (c : Char) : Bool :=
  c == ' ' || c == '\n' || c == '\t' || c == '\r'

/-- The characters of a number token. -/
def isNumberChar (c : Char) : Bool :=
  c.isDigit || c == '.'

/-- The signs that take no second character. -/
def single? : Char → Option Symbol
  | '(' => some .parenOpen
  | ')' => some .parenClose
  | '[' => some .bracketOpen
  | ']' => some .bracketClose
  | '+' => some .plus
  | '-' => some .minus
  | '*' => some .star
  | '/' => some .slash
  | '%' => some .percent
  | _ => none

/-- The signs that may be followed by `=`: alone, and together with it. -/
def doubling? : Char → Option (Symbol × Symbol)
  | '=' => some (.equals, .doubleEquals)
  | '!' => some (.bang, .notEquals)
  | '>' => some (.greater, .greaterEquals)
  | '<' => some (.less, .lessEquals)
  | _ => none

/-- What a backslash and the character after it stand for. A pair that is no escape stands for
    itself. -/
def escape (c : Char) : List Char :=
  match c with
  | 'n' => ['\n']
  | 't' => ['\t']
  | '\\' => ['\\']
  | '"' => ['"']
  | c => ['\\', c]

/-- What follows an opening quote: the content of the string, if it is closed, and the number of
    characters up to its end. -/
def quoted : List Char → Option (List Char) × Nat
  | [] => (none, 0)
  | '"' :: _ => (some [], 1)
  | '\\' :: c :: r =>
    let (content, n) := quoted r
    (content.map (escape c ++ ·), n + 2)
  | c :: r =>
    let (content, n) := quoted r
    (content.map (c :: ·), n + 1)

/-- A word is a reserved one or a name. -/
def wordKind (w : String) : Token.Kind :=
  match Keyword.ofWord? w with
  | some k => .keyword k
  | none => .identifier w

/-- The token that starts with `ch` on the given line, `r` being the text after `ch`, and how many
    characters of `r` belong to it. -/
def lexeme (ch : Char) (r : List Char) (line : Nat) : Except LexError Token.Kind × Nat :=
  match single? ch, doubling? ch with
  | some s, _ => (.ok (.symbol s), 0)
  | none, some (alone, doubled) =>
    if r.head? = some '=' then (.ok (.symbol doubled), 1) else (.ok (.symbol alone), 0)
  | none, none =>
    if isNumberChar ch then
      let more := r.takeWhile isNumberChar
      (.ok (.number (.ofList (ch :: more))), more.length)
    else if ch = '"' then
      match quoted r with
      | (some content, n) => (.ok (.string (.ofList content)), n)
      | (none, n) => (.error (.unclosedString line), n)
    else if Text.isWordChar ch then
      let more := r.takeWhile Text.isWordChar
      (.ok (wordKind (.ofList (ch :: more))), more.length)
    else (.error (.invalidCharacter ch line), 0)

end Scan

/-- What scanning meets next. -/
inductive Scan where
  | token (t : Token)
  /-- The end of the text, with the line of its last character. -/
  | finish (line : Nat)
  | fault (e : LexError)
deriving DecidableEq, Repr

namespace Cursor

/-- The cursor before the next character that is no separator. -/
def skipSpaces (c : Cursor) : Cursor :=
  c.skip (c.rest.takeWhile Scan.isSpace).length

/-- Scans one token. Behind an error scanning goes on: after the character that starts no token, or
    at the end of the text after a string that is not closed. -/
def scan (c : Cursor) : Scan × Cursor :=
  let c := c.skipSpaces
  match c.rest with
  | [] => (.finish c.line, c)
  | ch :: r =>
    match Scan.lexeme ch r c.lineAhead with
    | (.ok kind, n) => (.token ⟨kind, c.lineAhead⟩, c.skip (n + 1))
    | (.error e, n) => (.fault e, c.skip (n + 1))

theorem skipSpaces_length (c : Cursor) : c.skipSpaces.rest.length ≤ c.rest.length := by
  simp [skipSpaces]

/-- Scanning passes at least one character unless the end of the text is reached. -/
theorem scan_shorter {c c' : Cursor} {s : Scan} (h : c.scan = (s, c')) (hs : ∀ l, s ≠ .finish l) :
    c'.rest.length < c.rest.length := by
  have hle := c.skipSpaces_length
  simp only [scan] at h
  split at h
  · obtain ⟨rfl, rfl⟩ := Prod.mk.inj h
    exact absurd rfl (hs _)
  · next ch r hr =>
    rw [hr, List.length_cons] at hle
    have hlt (n : Nat) : (c.skipSpaces.skip (n + 1)).rest.length < c.rest.length := by
      rw [skip_rest, hr, List.drop_succ_cons, List.length_drop]
      omega
    split at h <;> (obtain ⟨_, rfl⟩ := Prod.mk.inj h; exact hlt _)

end Cursor

/-- A scanner that hands out what it meets and stops for good behind the end of the text or an
    error. -/
structure Scanner where
  cursor : Cursor
  finished : Bool
deriving DecidableEq, Repr

namespace Scanner

def start (source : String) : Scanner :=
  ⟨.start source, false⟩

/-- Scans on, whatever was met before. -/
def scan (s : Scanner) : Scan × Scanner :=
  let (met, cursor) := s.cursor.scan
  (met, { s with cursor })

/-- The next thing met, or none behind the end of the text or an error. -/
def next? (s : Scanner) : Option Scan × Scanner :=
  if s.finished then (none, s)
  else
    let (met, cursor) := s.cursor.scan
    let finished := match met with
      | .token _ => false
      | _ => true
    (some met, ⟨cursor, finished⟩)

end Scanner

end Naskah
