/-!
Rules for binary32 numbers that the geometry of the index needs beyond the
arithmetic of `Float32`: the lesser and the greater of two numbers when one may
be no number, and the passage between numbers and 32-bit cell coordinates.
Every rule reads the number through its decoded form, so it computes and can be
reasoned about alike.
-/

namespace Broadphase

open Float.Model (UnpackedFloat)

namespace Scalar

/-- The lesser of two numbers. A NaN gives way to the other argument, and of
two equal numbers, which may be zeros of either sign, the second is taken. -/
def lesser (a b : Float32) : Float32 := if a.isNaN || b ≤ a then b else a

/-- The greater of two numbers, with the same treatment of NaN and of equal
numbers as `lesser`. -/
def greater (a b : Float32) : Float32 := if a.isNaN || a ≤ b then b else a

/-- The greatest integer not above `mantissa * 2 ^ exponent`. -/
def floorScaled (mantissa exponent : Int) : Int :=
  if 0 ≤ exponent then mantissa * (Nat.pow 2 exponent.toNat : Nat)
  else mantissa / (Nat.pow 2 (-exponent).toNat : Nat)

/-- The floor of a number as a 32-bit integer. Values outside the 32-bit range
are clamped to its nearer end, and a NaN becomes zero. -/
def floorInt32 (x : Float32) : Int32 :=
  match x.toModel.unpack with
  | .notANumber => 0
  | .infinity .negative => Int32.minValue
  | .infinity .positive => Int32.maxValue
  | .zero _ => 0
  | .finite sign mantissa exponent _ =>
      Int32.ofIntClamp (floorScaled (sign.apply mantissa) exponent)

/-- The binary32 number nearest to an integer, ties going to the even
significand. Rounding does not depend on the sign, so the magnitude is rounded. -/
def ofInt32 (k : Int32) : Float32 :=
  if k < 0 then -(-k).toUInt32.toFloat32 else k.toUInt32.toFloat32

end Scalar

end Broadphase
