/-
  Tokens: the words and signs of a source text, each with the line on which it starts. A number
  token keeps its digits and points as they were written; whether they make a number is decided
  where the literal is built.
-/

namespace Naskah

/-- The reserved words, each constructor spelled like its word. -/
inductive Keyword where
  | kalo
  | kalogak
  | lainnya
  | itu
  | benar
  | salah
  | bukan
  | yaudah
  | dan
  | atau
  | ulangin
  | dari
  | sampe
  | baca
  | tulis
  | selama
deriving DecidableEq, Repr

namespace Keyword

def all : List Keyword :=
  [kalo, kalogak, lainnya, itu, benar, salah, bukan, yaudah, dan, atau, ulangin, dari, sampe,
    baca, tulis, selama]

/-- The spelling of a reserved word. -/
def word : Keyword → String
  | kalo => "kalo"
  | kalogak => "kalogak"
  | lainnya => "lainnya"
  | itu => "itu"
  | benar => "benar"
  | salah => "salah"
  | bukan => "bukan"
  | yaudah => "yaudah"
  | dan => "dan"
  | atau => "atau"
  | ulangin => "ulangin"
  | dari => "dari"
  | sampe => "sampe"
  | baca => "baca"
  | tulis => "tulis"
  | selama => "selama"

/-- The reserved word that is spelled so. -/
def ofWord? (w : String) : Option Keyword :=
  all.find? (·.word == w)

theorem mem_all (k : Keyword) : k ∈ all := by
  cases k <;> decide

theorem word_injective {k l : Keyword} (h : k.word = l.word) : k = l := by
  revert h
  cases k <;> cases l <;> decide

theorem ofWord?_eq_some {w : String} {k : Keyword} : ofWord? w = some k ↔ k.word = w := by
  constructor
  · intro h
    simpa using List.find?_some h
  · rintro rfl
    cases k <;> decide

end Keyword

/-- The signs. -/
inductive Symbol where
  | parenOpen
  | parenClose
  | bracketOpen
  | bracketClose
  | plus
  | minus
  | star
  | slash
  | percent
  | equals
  | bang
  | greater
  | less
  | doubleEquals
  | notEquals
  | greaterEquals
  | lessEquals
deriving DecidableEq, Repr

/-- How a sign is written. -/
def Symbol.spelling : Symbol → String
  | parenOpen => "("
  | parenClose => ")"
  | bracketOpen => "["
  | bracketClose => "]"
  | plus => "+"
  | minus => "-"
  | star => "*"
  | slash => "/"
  | percent => "%"
  | equals => "="
  | bang => "!"
  | greater => ">"
  | less => "<"
  | doubleEquals => "=="
  | notEquals => "!="
  | greaterEquals => ">="
  | lessEquals => "<="

/-- What a token is. -/
inductive Token.Kind where
  | symbol (s : Symbol)
  /-- ASCII digits and points as written. -/
  | number (text : String)
  /-- A string with its escapes resolved. -/
  | string (content : String)
  | identifier (name : String)
  | keyword (k : Keyword)
deriving DecidableEq, Repr

/-- How messages and token lists show a token. -/
def Token.Kind.describe : Token.Kind → String
  | .symbol s => s!"'{s.spelling}'"
  | .number text => s!"number {text}"
  | .string content => s!"string \"{content}\""
  | .identifier name => s!"identifier '{name}'"
  | .keyword k => s!"'{k.word}'"

structure Token where
  kind : Token.Kind
  /-- The line of the first character. -/
  line : Nat
deriving DecidableEq, Repr

/-- How the end of a text is shown in a list of tokens. -/
def Token.endOfInput : String := "end of input"

end Naskah
