/-!
Which decimal numbers a double can hold. A number is out of range when the nearest double is
infinite. Held by its parts, as the double of its digits times the double of its power of ten, a
number next to the limit may come out on the other side of it.
-/

namespace SealedDrive.Double

/-- From this number on the nearest double is infinite. -/
def limit : Nat := 1 <<< 1024 - 1 <<< 970

/-- The double nearest to a whole number; a tie goes to the even neighbour. -/
def nearest (n : Nat) : Nat :=
  let spacing := 1 <<< (n.log2 - 52)
  let below := n / spacing
  let rest := n % spacing
  let goesUp := spacing < 2 * rest || (spacing = 2 * rest && below % 2 = 1)
  (if goesUp then below + 1 else below) * spacing

/-- Whether a decimal number rounds to a finite double. -/
def isFinite (mantissa exponent : Int) : Bool :=
  if mantissa = 0 then true
  else if exponent < 0 then
    -- Beyond the number of digits of the mantissa the value is below one.
    let places := min (-exponent).toNat ((toString mantissa).length)
    mantissa.natAbs < limit * Nat.pow 10 places
  else if 400 < exponent then false
  else mantissa.natAbs * Nat.pow 10 exponent.toNat < limit

/-- Whether the double of the digits times the double of the power of ten is finite. Dividing by a
power of ten always is. -/
def isFiniteByParts (digits : Nat) (exponent : Int) : Bool :=
  if digits = 0 || exponent < 0 then true
  else if 308 < exponent then false
  else nearest digits * nearest (Nat.pow 10 exponent.toNat) < limit

end SealedDrive.Double
