import CrashCourier.Decimal.Shortest

namespace CrashCourier.Decimal

structure Layout where
  /-- The least exponent of the leading digit that is written positionally. -/
  least : Int
  greatest : Int
  /-- What a whole number has after its last digit in positional notation. -/
  wholeTail : String
  /-- The mark before an exponent that is not negative, and before one that is. -/
  upMark : String
  downMark : String

namespace Layout

def zeros (n : Nat) : String := String.ofList (List.replicate n '0')

/-- The text of digits other than zero. -/
def digits (l : Layout) (d : Digits) : String :=
  let ds := (Nat.toDigits 10 d.digits)
  let e : Int := d.exponent + ds.length - 1
  if l.least ≤ e ∧ e ≤ l.greatest then
    if e < 0 then "0." ++ zeros ((-e).toNat - 1) ++ String.ofList ds
    else
      let whole := ds.take (e.toNat + 1)
      let rest := ds.drop (e.toNat + 1)
      String.ofList whole ++ zeros (e.toNat + 1 - whole.length)
        ++ (if rest.isEmpty then l.wholeTail else "." ++ String.ofList rest)
  else
    String.ofList (ds.take 1)
      ++ (if ds.length ≤ 1 then "" else "." ++ String.ofList (ds.drop 1))
      ++ (if e < 0 then l.downMark else l.upMark) ++ toString e.natAbs

def text (l : Layout) (d : Double) : String :=
  (if d.isNegative then "-" else "")
    ++ (if d.isZero then "0" ++ l.wholeTail else l.digits (shortest d))

end Layout

end CrashCourier.Decimal
