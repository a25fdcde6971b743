/-
  The remainder of a division of floats that is cut off toward zero. It is exact: the two operands
  are brought to a common power of two, and the remainder of their mantissas is again a float. It
  has the sign of the dividend, also when it is zero.
-/

namespace Naskah

open Float.Model UnpackedFloat in
/-- `x - y · n`, where `n` is the quotient without its fraction; not a number when `x` is infinite
    or `y` is zero. -/
def remainder (x y : Float) : Float :=
  match x.toModel.unpack, y.toModel.unpack with
  | .finite s m e _, .finite _ m' e' _ =>
    let least := min e e'
    let r := (m * Nat.pow 2 (e - least).toNat) % (m' * Nat.pow 2 (e' - least).toNat)
    let signed : Int := match s with
      | .positive => r
      | .negative => -r
    .ofModel (.pack (normalize Format.binary64 signed least s))
  | .finite .., .infinity _ => x
  | .zero _, .infinity _ => x
  | .zero _, .finite .. => x
  | _, _ => 0.0 / 0.0

end Naskah
