import CrashCourier.Double

namespace CrashCourier.Decimal

/-- The greatest power of ten of one step. -/
def stepLimit : Nat := 308

def powerOfTen (n : Nat) : Double := Double.ofNat (Nat.pow 10 n)

/-- `f * 10 ^ exponent`, rounded at every step; none if it leaves the finite range. -/
def scale (f : Double) (exponent : Int) : Option Double :=
  if exponent.natAbs ≤ stepLimit then
    if 0 ≤ exponent then
      let product := f.mul (powerOfTen exponent.natAbs)
      if product.isFinite then some product else none
    else some (f.div (powerOfTen exponent.natAbs))
  else if f.isZero then some f
  else if 0 ≤ exponent then none
  else scale (f.div (powerOfTen stepLimit)) (exponent + stepLimit)
termination_by (-exponent).toNat
decreasing_by
  simp only [stepLimit] at *
  omega

/-- The number read for a sign, a significand and a power of ten. -/
def read (negative : Bool) (significand : Nat) (exponent : Int) : Option Double :=
  (scale (Double.ofNat significand) exponent).map fun f => if negative then f.neg else f

end CrashCourier.Decimal
