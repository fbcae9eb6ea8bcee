namespace CrashCourier

structure Double where
  bits : UInt64
deriving DecidableEq, Repr, Inhabited

namespace Double

/-- The bits of infinity; larger magnitudes are not numbers. -/
def infinite : Nat := 0x7ff0000000000000

/-- What the sign adds to a pattern: `2 ^ 63`. -/
def signWeight : Nat := 0x8000000000000000

/-- What one step of the exponent adds to a pattern: `2 ^ 52`. -/
def stepWeight : Nat := 0x10000000000000

/-- The pattern without its sign. -/
def magnitude (d : Double) : Nat := d.bits.toNat % signWeight

def isNegative (d : Double) : Bool := signWeight ≤ d.bits.toNat

def isNaN (d : Double) : Bool := infinite < d.magnitude

def isFinite (d : Double) : Bool := d.magnitude < infinite

def isZero (d : Double) : Bool := d.magnitude = 0

def ofMagnitude (negative : Bool) (m : Nat) : Double :=
  ⟨UInt64.ofNat (m + if negative then signWeight else 0)⟩

def nan : Double := ofMagnitude false 0x7ff8000000000000

def infinity (negative : Bool) : Double := ofMagnitude negative infinite

/-- The binary digits that a finite magnitude carries, the hidden one included. -/
def significand (d : Double) : Nat :=
  if d.magnitude < stepWeight then d.magnitude else stepWeight + d.magnitude % stepWeight

/-- How many places the significand is shifted up from `2 ^ -1074`. -/
def exponent (d : Double) : Nat := d.magnitude / stepWeight - 1

/-- A finite magnitude in units of `2 ^ -1074`. -/
def units (d : Double) : Nat := d.significand <<< d.exponent

/-- How many units of `2 ^ -1074` make one. -/
def unit : Nat := 1 <<< 1074

/-- A quotient rounded to the nearest natural number, a half to the even one. -/
def nearestQuotient (num den : Nat) : Nat :=
  let q := num / den
  let twice := 2 * (num % den)
  if twice < den then q else if den < twice then q + 1 else q + q % 2

/-- The magnitude nearest to a ratio, infinity included. -/
def nearestMagnitude (num den : Nat) : Nat :=
  let scaled := num * unit
  let shift := (scaled / den).log2 - 52
  min infinite (shift * stepWeight + nearestQuotient scaled (den <<< shift))

/-- The number nearest to a ratio of natural numbers, with a sign. -/
def ofRatio (negative : Bool) (num den : Nat) : Double :=
  ofMagnitude negative (nearestMagnitude num den)

def ofNat (n : Nat) : Double := ofRatio false n 1

def ofInt (n : Int) : Double := ofRatio (n < 0) n.natAbs 1

def neg (d : Double) : Double := ofMagnitude (!d.isNegative) d.magnitude

/-- Equality of the numbers denoted: the two zeros are equal, and what is not a number equals
nothing. -/
def numEq (a b : Double) : Bool :=
  !a.isNaN && !b.isNaN && (a.bits = b.bits || a.isZero && b.isZero)

def leastInt64 : Int := -0x8000000000000000

def greatestInt64 : Int := 0x7fffffffffffffff

/-- The whole part toward zero, held within 64 bits; zero for what is not a number. -/
def truncate (d : Double) : Int :=
  if d.isNaN then 0
  else
    let whole : Int := (d.units / unit : Nat)
    max leastInt64 (min greatestInt64 (if d.isNegative then -whole else whole))

def mul (a b : Double) : Double :=
  ofRatio (a.isNegative != b.isNegative) (a.units * b.units) (unit * unit)

/-- A finite magnitude divided by another that is not zero, rounded. -/
def div (a b : Double) : Double :=
  ofRatio (a.isNegative != b.isNegative) a.units b.units

end Double

end CrashCourier
