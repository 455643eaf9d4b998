/-
# Finite binary floating-point numbers of 64 bits

A finite double is a sign, a mantissa below `2 ^ 53` and an exponent of two.  Arithmetic is exact
rational arithmetic on natural numbers followed by one rounding to nearest, ties to even, so
nothing here depends on the machine's floating-point unit.  A result beyond the largest finite
double has no value.
-/

namespace ConfigRegistry

/-- A power of two. -/
def twoTo (n : Nat) : Nat := Nat.pow 2 n

/-- A power of ten. -/
def tenTo (n : Nat) : Nat := Nat.pow 10 n

/-- The double `± mantissa * 2 ^ exponent`.  In canonical form, which every operation here
returns, the exponent is the least possible one, `-1074`, unless the mantissa has 53 bits. -/
structure Binary64 where
  /-- Whether the number carries a minus sign; zero may. -/
  negative : Bool
  /-- The mantissa, below `2 ^ 53`. -/
  mantissa : Nat
  /-- The exponent of two, from `-1074` to `971`. -/
  exponent : Int
deriving DecidableEq, Repr

namespace Binary64

/-- Zero of either sign. -/
def zero (negative : Bool) : Binary64 := ⟨negative, 0, -1074⟩

/-- Whether the number is zero. -/
def isZero (x : Binary64) : Bool := x.mantissa == 0

/-- The number with its sign turned. -/
def neg (x : Binary64) : Binary64 := { x with negative := !x.negative }

/-- The quotient rounded to the nearest natural number, a tie going to the even one. -/
def roundQuotient (num den : Nat) : Nat :=
  let q := num / den
  let r := num % den
  if 2 * r > den || (2 * r == den && q % 2 == 1) then q + 1 else q

/-- The quotient `num / (den * 2 ^ e)` as a pair of natural numbers. -/
def scaled (num den : Nat) (e : Int) : Nat × Nat :=
  if e < 0 then (num * twoTo e.natAbs, den) else (num, den * twoTo e.natAbs)

/-- The exponent at which `num / den` has a mantissa of 53 bits, or the least exponent when the
quotient is too small for that. -/
def exponentFor (num den : Nat) : Int :=
  let guess : Int := (num.log2 : Int) - (den.log2 : Int) - 52
  let (n, d) := scaled num den guess
  max (if n < d * twoTo 52 then guess - 1 else guess) (-1074)

/-- The double nearest to `± num / den`, where `den` is not zero; none when it exceeds every
finite double. -/
def ofRatio (negative : Bool) (num den : Nat) : Option Binary64 :=
  if num == 0 then some (zero negative)
  else
    let e := exponentFor num den
    let (n, d) := scaled num den e
    let m := roundQuotient n d
    let (m, e) := if m == twoTo 53 then (twoTo 52, e + 1) else (m, e)
    if e > 971 then none else some ⟨negative, m, e⟩

/-- The magnitude as a quotient of natural numbers. -/
def ratio (x : Binary64) : Nat × Nat :=
  if x.exponent < 0 then (x.mantissa, twoTo x.exponent.natAbs)
  else (x.mantissa * twoTo x.exponent.natAbs, 1)

/-- The product, rounded once. -/
def mul (x y : Binary64) : Option Binary64 :=
  let (a, b) := x.ratio
  let (c, d) := y.ratio
  ofRatio (x.negative != y.negative) (a * c) (b * d)

/-- The quotient by a number other than zero, rounded once. -/
def div (x y : Binary64) : Option Binary64 :=
  let (a, b) := x.ratio
  let (c, d) := y.ratio
  ofRatio (x.negative != y.negative) (a * d) (b * c)

/-- The double nearest to a natural number. -/
def ofNat (n : Nat) : Option Binary64 := ofRatio false n 1

/-- The double nearest to `± digits * 10 ^ exponent`.  Far beyond the largest double and far below
the smallest one no power of ten is computed. -/
def ofDecimal (negative : Bool) (digits : Nat) (exponent : Int) : Option Binary64 :=
  if digits == 0 || digits.log2 + 1 + exponent < -330 then some (zero negative)
  else if exponent > 310 then none
  else if exponent < 0 then ofRatio negative digits (tenTo exponent.natAbs)
  else ofRatio negative (digits * tenTo exponent.natAbs) 1

end Binary64

end ConfigRegistry
