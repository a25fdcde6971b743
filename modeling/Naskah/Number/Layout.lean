import Naskah.Number.Shortest

/-
  Layouts: how the shortest decimal of a float is written out. A decimal is written positionally
  when the exponent of its first digit lies in the layout's range, and with one digit before the
  point and a signed exponent (`1.5e-7`, `1e+21`) outside it.
-/

namespace Naskah

/-- The decisions of one number format. -/
structure Layout where
  /-- The least exponent of the first digit that is written positionally. -/
  leastPlain : Int
  /-- The greatest exponent of the first digit that is written positionally. -/
  greatestPlain : Int
  /-- Whether a positional whole number ends in `.0`. -/
  pointZero : Bool
  /-- Which of two equally near decimals is written. -/
  tie : Tie
  zero : String
  negativeZero : String
  infinity : String
  negativeInfinity : String
  notANumber : String
deriving DecidableEq, Repr

namespace Layout

/-- The digits `ds` in positional writing, the first of them standing for `10 ^ top`. -/
def positional (pointZero : Bool) (ds : List Char) : Int → List Char
  | .negSucc n => '0' :: '.' :: (List.replicate n '0' ++ ds)
  | .ofNat n =>
    let fraction := ds.drop (n + 1)
    let whole := ds.take (n + 1) ++ List.replicate (n + 1 - ds.length) '0'
    if fraction.isEmpty then whole ++ (if pointZero then ['.', '0'] else [])
    else whole ++ '.' :: fraction

/-- The sign and the digits of an exponent; the sign is always written. -/
def exponentChars : Int → List Char
  | .ofNat n => '+' :: Nat.toDigits 10 n
  | .negSucc n => '-' :: Nat.toDigits 10 (n + 1)

/-- The digits `ds` with one of them before the point, the first standing for `10 ^ top`. -/
def scientific (ds : List Char) (top : Int) : List Char :=
  let mantissa := match ds with
    | d :: r@(_ :: _) => d :: '.' :: r
    | _ => ds
  mantissa ++ 'e' :: exponentChars top

/-- A decimal other than zero. -/
def decimal (l : Layout) (d : Decimal) : List Char :=
  let ds := d.digitChars
  let top := d.exponent + ds.length - 1
  if l.leastPlain ≤ top ∧ top ≤ l.greatestPlain then positional l.pointZero ds top
  else scientific ds top

/-- The text of a float. -/
def render (l : Layout) (x : Float) : String :=
  match x.toModel.unpack with
  | .notANumber => l.notANumber
  | .infinity .positive => l.infinity
  | .infinity .negative => l.negativeInfinity
  | .zero .positive => l.zero
  | .zero .negative => l.negativeZero
  | .finite .positive m e _ => .ofList (l.decimal (Shortest.ofBinary l.tie x m e))
  | .finite .negative m e _ => .ofList ('-' :: l.decimal (Shortest.ofBinary l.tie (-x) m e))

end Layout

end Naskah
