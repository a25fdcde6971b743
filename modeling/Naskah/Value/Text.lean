import Naskah.Number.Layout
import Naskah.Number.Numeral
import Naskah.Text.Blank
import Naskah.Value.Basic

/-
  Values as text: how a value is printed, and which value an input entry is.
-/

namespace Naskah.Value

/-- Printed numbers are positional from `1e-6` up to below `1e21`, carry no needless point, and do
    not show the sign of zero. -/
def numberLayout : Layout where
  leastPlain := -6
  greatestPlain := 20
  pointZero := false
  tie := .away
  zero := "0"
  negativeZero := "0"
  infinity := "Infinity"
  negativeInfinity := "-Infinity"
  notANumber := "NaN"

/-- The printed form of a value. -/
def display : Value → String
  | number x => numberLayout.render x
  | text s => s
  | boolean true => Keyword.benar.word
  | boolean false => Keyword.salah.word

/-- An input entry is a number if it is, apart from blanks at its ends, a numeral of a finite float;
    otherwise it is the text itself, blanks included. -/
def ofInput (raw : String) : Value :=
  match Numeral.read? (Text.trimBlanks raw.toList) with
  | some x => if x.isFinite then number x else text raw
  | none => text raw

end Naskah.Value
