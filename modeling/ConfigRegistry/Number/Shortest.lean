/-
# The shortest decimal that reads back

Every decimal close enough to a double is read as that double.  Of these decimals the *shortest*
ones have the fewest significant digits, and among them one lies nearest to the double itself.
For each number of digits only the two neighbours of the double on the grid of such decimals
have to be looked at: if any point of the grid is close enough, one of the neighbours is.
-/
import ConfigRegistry.Number.Binary64

namespace ConfigRegistry

/-- The decimal `digits * 10 ^ exponent`. -/
structure Decimal where
  /-- The significant digits, read as one number. -/
  digits : Nat
  /-- The power of ten of the last digit. -/
  exponent : Int
deriving DecidableEq, Repr

namespace Decimal

/-- The number of decimal digits of a natural number; zero has one. -/
def digitCount (n : Nat) : Nat := (Nat.toDigits 10 n).length

/-- The power of ten of the leading digit. -/
def leadingExponent (d : Decimal) : Int := d.exponent + digitCount d.digits - 1

/-- Moves zeros at the end of the digits into the exponent, at most `fuel` of them. -/
def dropZeros : Nat → Decimal → Decimal
  | 0, d => d
  | fuel + 1, d =>
    if d.digits != 0 && d.digits % 10 == 0 then
      dropZeros fuel ⟨d.digits / 10, d.exponent + 1⟩
    else d

end Decimal

namespace Binary64

/-- The magnitudes that round to a double: the open interval between `lo / den` and `hi / den`,
with its ends when `closed` holds.  The double itself is `mid / den`. -/
structure Neighbourhood where
  lo : Nat
  mid : Nat
  hi : Nat
  den : Nat
  closed : Bool

/-- Half-way to the next double above, and half-way to the one below, which is nearer when the
mantissa is the least one of its exponent. -/
def neighbourhood (x : Binary64) : Neighbourhood :=
  let below := if x.mantissa == twoTo 52 && x.exponent > -1074 then 1 else 2
  let m := 4 * x.mantissa
  let e := x.exponent - 2
  let (num, den) := if e < 0 then (1, twoTo e.natAbs) else (twoTo e.natAbs, 1)
  ⟨(m - below) * num, m * num, (m + 2) * num, den, x.mantissa % 2 == 0⟩

namespace Neighbourhood

/-- Whether `n * 10 ^ e` lies in the neighbourhood. -/
def holds (i : Neighbourhood) (n : Nat) (e : Int) : Bool :=
  let (a, b) := if e < 0 then (n * i.den, tenTo e.natAbs) else (n * tenTo e.natAbs * i.den, 1)
  if i.closed then i.lo * b ≤ a && a ≤ i.hi * b else i.lo * b < a && a < i.hi * b

/-- The largest multiple of `10 ^ e` not above the double, counted in such units, and whether
the multiple above is the nearer one; a tie goes to the even count. -/
def floorAt (i : Neighbourhood) (e : Int) : Nat × Bool :=
  let (a, b) := if e < 0 then (i.mid * tenTo e.natAbs, i.den) else (i.mid, i.den * tenTo e.natAbs)
  let q := a / b
  let r := a % b
  (q, 2 * r > b || (2 * r == b && q % 2 == 1))

/-- The nearest multiple of `10 ^ e` in the neighbourhood, if there is one at all. -/
def nearestAt (i : Neighbourhood) (e : Int) : Option Decimal :=
  let (q, up) := i.floorAt e
  match i.holds q e, i.holds (q + 1) e with
  | true, true => some ⟨if up then q + 1 else q, e⟩
  | true, false => some ⟨q, e⟩
  | false, true => some ⟨q + 1, e⟩
  | false, false => none

/-- Tries grids from coarse to fine, `fuel` of them. -/
def search (i : Neighbourhood) : Nat → Int → Option Decimal
  | 0, _ => none
  | fuel + 1, e =>
    match i.nearestAt e with
    | some d => some d
    | none => search i fuel (e - 1)

end Neighbourhood

/-- The power of ten of the leading digit of the magnitude of a double other than zero. -/
def leadingExponent (x : Binary64) : Int :=
  let (a, b) := x.ratio
  let guess : Int := (Decimal.digitCount a : Int) - (Decimal.digitCount b : Int)
  let small := if guess < 0 then a * tenTo guess.natAbs < b else a < b * tenTo guess.natAbs
  if small then guess - 1 else guess

/-- The shortest decimal that is read as the magnitude of the double, the nearest one of them. -/
def shortest (x : Binary64) : Decimal :=
  if x.isZero then ⟨0, 0⟩
  else
    match x.neighbourhood.search 18 (x.leadingExponent + 1) with
    | some d => d.dropZeros 20
    | none => ⟨0, 0⟩

end Binary64

end ConfigRegistry
