import CrashCourier.Double

namespace CrashCourier.Decimal

/-- The decimal `digits * 10 ^ exponent`. -/
structure Digits where
  digits : Nat
  exponent : Int
deriving DecidableEq, Repr

/-- A positive ratio is written with so many places above the last digit before the point. -/
def leadingExponent (num den : Nat) : Int :=
  let guess : Int := (((num.log2 : Int) - den.log2) * 30103).fdiv 100000
  if atLeast (guess + 1) then guess + 1 else if atLeast guess then guess else guess - 1
where
  atLeast (e : Int) : Bool :=
    if 0 ≤ e then den * Nat.pow 10 e.toNat ≤ num else den ≤ num * Nat.pow 10 (-e).toNat

/-- The numbers that round to `num / den`: from `num - below` to `num + above`, in quarters, and
whether the ends belong to it. -/
structure Interval where
  num : Nat
  den : Nat
  below : Nat
  above : Nat
  closed : Bool

namespace Interval

/-- The interval of the finite magnitude of a number other than zero. -/
def ofDouble (d : Double) : Interval where
  num := d.units
  den := Double.unit
  below := (if d.significand = Double.stepWeight ∧ 0 < d.exponent then 1 else 2) <<< d.exponent
  above := 2 <<< d.exponent
  closed := d.significand % 2 = 0

/-- The same interval measured in units of `10 ^ p`. -/
def rescale (i : Interval) (p : Int) : Interval :=
  if 0 ≤ p then { i with den := i.den * Nat.pow 10 p.toNat }
  else
    let k := Nat.pow 10 (-p).toNat
    { i with num := i.num * k, below := i.below * k, above := i.above * k }

def contains (i : Interval) (c : Nat) : Bool :=
  let x := 4 * (c * i.den)
  if i.closed then 4 * i.num ≤ x + i.below && x ≤ 4 * i.num + i.above
  else 4 * i.num < x + i.below && x < 4 * i.num + i.above

/-- The whole number in the interval that is nearest to its centre, of the two around it. -/
def nearest? (i : Interval) : Option Nat :=
  let c := i.num / i.den
  let down := i.num % i.den
  match i.contains c, i.contains (c + 1) with
  | true, true =>
    if 2 * down < i.den then some c
    else if i.den < 2 * down then some (c + 1)
    else some (c + c % 2)
  | true, false => some c
  | false, true => some (c + 1)
  | false, false => none

end Interval

/-- The digits without the zeros that end them, at most `fuel` of these. -/
def stripZeros : Nat → Digits → Digits
  | 0, d => d
  | fuel + 1, d =>
    if d.digits ≠ 0 ∧ d.digits % 10 = 0 then stripZeros fuel ⟨d.digits / 10, d.exponent + 1⟩ else d

/-- Seventeen digits tell all numbers apart. -/
def enough : Nat := 17

/-- The shortest digits of the magnitude of a finite number other than zero. -/
def shortest (d : Double) : Digits :=
  let i := Interval.ofDouble d
  let top := leadingExponent i.num i.den
  let found := (List.range enough).findSome? fun (n : Nat) =>
    let p := top - n
    (i.rescale p).nearest?.map fun c => (⟨c, p⟩ : Digits)
  stripZeros enough (found.getD ⟨i.num / i.den, 0⟩)

end CrashCourier.Decimal
