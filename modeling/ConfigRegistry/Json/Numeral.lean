/-
# Reading JSON numbers

The digits of a number are gathered in a significand of 64 bits.  A digit of the whole part that
no longer fits raises the exponent of ten instead, and so do all digits of the whole part after
it; a digit after the point that does not fit is dropped, with all after it.  A number without
point and exponent is an integer if it fits into 64 bits, signed or not.  Every other one is the
double significand times or over the double power of ten, rounded at each of these steps, and
hence not always the double nearest to what was written.
-/
import ConfigRegistry.Json.Reader

namespace ConfigRegistry.Json

/-- The largest significand. -/
def maxSignificand : Nat := twoTo 64 - 1

/-- The largest exponent that is told exactly. -/
def maxExponent : Nat := twoTo 31 - 1

/-- The value of a decimal digit. -/
def digitValue (c : Char) : Nat := c.toNat - '0'.toNat

/-- A significand with one more digit, if it fits below `limit`. -/
@[irreducible]
def pushDigit (limit n : Nat) (c : Char) : Option Nat :=
  let m := n * 10 + digitValue c
  if m ≤ limit then some m else none

/-- The significand of the whole part, and the number of digits that did not fit. -/
def wholeDigits (n dropped : Nat) : List Char → Nat × Nat
  | [] => (n, dropped)
  | c :: rest =>
    match dropped, pushDigit maxSignificand n c with
    | 0, some m => wholeDigits m 0 rest
    | k, _ => wholeDigits n (k + 1) rest

/-- The significand with the digits after the point, as far as they fit, and their number. -/
def fractionDigits (n places : Nat) : List Char → Nat × Nat
  | [] => (n, places)
  | c :: rest =>
    match pushDigit maxSignificand n c with
    | some m => fractionDigits m (places + 1) rest
    | none => (n, places)

/-- The double nearest to a power of ten; none beyond the largest double. -/
def powerOfTen (n : Nat) : Option Binary64 := Binary64.ofNat (tenTo n)

/-- The largest power of ten among the doubles. -/
def maxPowerOfTen : Nat := 308

/-- The double over a power of ten, in steps of `10 ^ 308`. -/
def divideByPower (x : Binary64) (n : Nat) : Option Binary64 :=
  if n ≤ maxPowerOfTen then do x.div (← powerOfTen n)
  else if x.isZero then some x
  else do divideByPower (← x.div (← powerOfTen maxPowerOfTen)) (n - maxPowerOfTen)
termination_by n
decreasing_by simp [maxPowerOfTen] at *; omega

/-- The double for `significand * 10 ^ exponent`; none when it is too large. -/
def assemble (negative : Bool) (significand : Nat) (exponent : Int) : Option Binary64 := do
  let x ← Binary64.ofNat significand
  let y ←
    if exponent < 0 then divideByPower x exponent.natAbs
    else if exponent.natAbs ≤ maxPowerOfTen then x.mul (← powerOfTen exponent.natAbs)
    else if x.isZero then some x
    else none
  pure (if negative then y.neg else y)

namespace Reader

/-- Takes a run of decimal digits. -/
def digits : Reader (List Char) := fun s =>
  ⟨.ok (s.takeWhile Char.isDigit), s.dropWhile Char.isDigit⟩

/-- A double, unless it is too large. -/
def real (x : Option Binary64) : Reader Number :=
  match x with
  | some x => Reader.pure (.real x)
  | none => breach .numberTooLarge 0

/-- The exponent that the digits tell, and the digits that are left when it has grown too large
to tell. -/
def exponentDigits (n : Nat) : List Char → Nat × Option (List Char)
  | [] => (n, none)
  | c :: rest =>
    match pushDigit maxExponent n c with
    | some m => exponentDigits m rest
    | none => (n, some rest)

/-- Reads an exponent, of which the letter has not been taken yet. -/
def exponentPart (negative : Bool) (significand : Nat) (exponent : Int) : Reader Number := do
  skip
  let down ← match ← peek with
    | some '+' => do skip; pure false
    | some '-' => do skip; pure true
    | _ => pure false
  match ← peek with
  | none => breach .endInValue 0
  | some c =>
    if !c.isDigit then breach .badNumber 1
    else fun s =>
      let ds := s.takeWhile Char.isDigit
      let rest := s.dropWhile Char.isDigit
      match exponentDigits 0 ds with
      | (n, none) =>
        real (assemble negative significand (if down then exponent - n else exponent + n)) rest
      | (_, some left) =>
        if significand != 0 && !down then breach .numberTooLarge 0 (left ++ rest)
        else ⟨.ok (.real (.zero negative)), rest⟩

/-- Reads what follows the whole part from the exponent on. -/
def fromExponent (negative : Bool) (significand : Nat) (exponent : Int) : Reader Number := do
  match ← peek with
  | some 'e' | some 'E' => exponentPart negative significand exponent
  | _ => real (assemble negative significand exponent)

/-- Reads the digits after the point, of which the point has not been taken yet. -/
def fractionPart (negative : Bool) (significand : Nat) (exponent : Int) : Reader Number := do
  skip
  match ← digits with
  | [] => match ← peek with
    | some _ => breach .badNumber 1
    | none => breach .endInValue 1
  | ds =>
    let (n, places) := fractionDigits significand 0 ds
    fromExponent negative n (exponent - places)

/-- The number without point and exponent. -/
def integral (negative : Bool) (significand : Nat) : Reader Number :=
  if !negative then Reader.pure (.integer significand)
  else if significand == 0 || significand > twoTo 63 then
    real ((Binary64.ofNat significand).map Binary64.neg)
  else Reader.pure (.integer (-(significand : Int)))

/-- Reads what follows a whole part of which `dropped` digits did not fit. -/
def afterWhole (negative : Bool) (significand dropped : Nat) : Reader Number := do
  match ← peek with
  | some '.' => fractionPart negative significand dropped
  | some 'e' | some 'E' => exponentPart negative significand dropped
  | _ =>
    if dropped == 0 then integral negative significand
    else real (assemble negative significand dropped)

/-- Reads a number, of which a minus sign has been taken. -/
def numeral (negative : Bool) : Reader Number := do
  match ← peek with
  | none => breach .endInValue 0
  | some '0' => do
    skip
    match ← peek with
    | some c => if c.isDigit then breach .badNumber 1 else afterWhole negative 0 0
    | none => afterWhole negative 0 0
  | some c =>
    if c.isDigit then do
      let (n, dropped) := wholeDigits 0 0 (← digits)
      afterWhole negative n dropped
    else breach .badNumber 1

end Reader

end ConfigRegistry.Json
