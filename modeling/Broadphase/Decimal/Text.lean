import Broadphase.Decimal.Shortest
import Broadphase.Vec3

/-!
How numbers are written in messages. Two styles share the shortest digits: the
plain one writes every number positionally, the detailed one always shows a
fraction or an exponent, so that a reader can tell a number from an integer.
-/

namespace Broadphase

/-- The choices that make a notation out of digits. -/
structure NumberStyle where
  /-- Whether a whole number still gets the fraction `.0`. -/
  showsFraction : Bool
  /-- Whether a number whose leading digit stands for `10 ^ magnitude` is
  written without an exponent. -/
  isPositional : (magnitude : Int) → Bool

namespace NumberStyle

/-- Positional at every magnitude, whole numbers without a fraction. -/
def plain : NumberStyle := ⟨false, fun _ => true⟩

/-- Positional from `0.0001` to below `10 ^ 16`, always with a fraction. -/
def detailed : NumberStyle :=
  ⟨true, fun magnitude => -4 ≤ magnitude && magnitude < 16⟩

end NumberStyle

namespace Decimal

def digits (d : Decimal) : List Char := Nat.toDigits 10 d.coefficient

/-- The exponent of the leading digit. -/
def magnitude (d : Decimal) : Int := d.exponent + d.digits.length - 1

/-- The digits around a decimal point, filled with zeros where the digits do
not reach it. -/
def positional (d : Decimal) (showsFraction : Bool) : List Char :=
  let digits := d.digits
  if 0 ≤ d.exponent then
    digits ++ List.replicate d.exponent.toNat '0' ++ if showsFraction then ['.', '0'] else []
  else
    let places := (-d.exponent).toNat
    if places < digits.length then
      digits.take (digits.length - places) ++ '.' :: digits.drop (digits.length - places)
    else
      '0' :: '.' :: List.replicate (places - digits.length) '0' ++ digits

/-- One digit, the others behind a point, and the exponent of the first. -/
def scientific (d : Decimal) : List Char :=
  let significand :=
    match d.digits with
    | first :: second :: rest => first :: '.' :: second :: rest
    | short => short
  significand ++ 'e' :: (toString d.magnitude).toList

def chars (style : NumberStyle) (d : Decimal) : List Char :=
  if style.isPositional d.magnitude then d.positional style.showsFraction else d.scientific

end Decimal

namespace Scalar

open Float.Model.UnpackedFloat (Sign)

def signMark : Sign → String
  | .positive => ""
  | .negative => "-"

/-- A number written in a style, with the fewest digits that read back as it. -/
def text (style : NumberStyle) (x : Float32) : String :=
  match x.toModel.unpack with
  | .notANumber => "NaN"
  | .infinity sign => signMark sign ++ "inf"
  | .zero sign => signMark sign ++ if style.showsFraction then "0.0" else "0"
  | .finite sign mantissa exponent _ =>
      match (RoundingInterval.ofBinary32 mantissa exponent).shortest? with
      | some d => signMark sign ++ String.ofList (d.chars style)
      | none => signMark sign

end Scalar

/-- A vector written with its components in the detailed style. -/
def Vec3.text (v : Vec3) : String :=
  let number := Scalar.text .detailed
  s!"Vec3({number v.x}, {number v.y}, {number v.z})"

end Broadphase
