/-
# What plain scalars stand for

A plain scalar without a tag stands for null, a truth value, an integer or a floating-point number
if it is spelled like one, and for its text otherwise.  Digits after a leading zero are text, not
a number.
-/
import ConfigRegistry.Yaml.Scalar.Basic
import ConfigRegistry.Number.Binary64

namespace ConfigRegistry.Yaml

/-- Whether a scalar is spelled like null. -/
def isNullWord (s : String) : Bool := ["null", "Null", "NULL", "~"].contains s

/-- The truth value that a scalar is spelled like. -/
def truthOf? (s : String) : Option Bool :=
  if ["true", "True", "TRUE"].contains s then some true
  else if ["false", "False", "FALSE"].contains s then some false
  else none

/-- A sign. -/
def isSign (c : Char) : Bool := c == '+' || c == '-'

/-- What is left after a given sign, if it is there. -/
def dropSign (sign : Char) : List Char → List Char
  | [] => []
  | c :: rest => if c == sign then rest else c :: rest

/-- Whether a scalar is digits, more than one, of which the first is zero, perhaps after a
sign. -/
def isZeroLed (s : List Char) : Bool :=
  let digits := match s with
    | c :: rest => if isSign c then rest else s
    | [] => []
  digits.length > 1 && digits.head? == some '0' && digits.all Char.isDigit

/-- The value of a digit in a base of at most sixteen. -/
def digitOf? (base : Nat) (c : Char) : Option Nat :=
  let value :=
    if c.isDigit then some (c.toNat - '0'.toNat)
    else if 'a' ≤ c && c ≤ 'f' then some (c.toNat - 'a'.toNat + 10)
    else if 'A' ≤ c && c ≤ 'F' then some (c.toNat - 'A'.toNat + 10)
    else none
  value.filter (· < base)

/-- The number that digits stand for; there has to be at least one. -/
def natOf? (base : Nat) (digits : List Char) : Option Nat :=
  if digits.isEmpty then none
  else digits.foldlM (fun n c => do return n * base + (← digitOf? base c)) 0

/-- The number without a sign that a scalar is spelled like: decimal, or in one of three bases
after a lead. -/
def unsignedOf? (s : List Char) : Option Nat :=
  match s with
  | '0' :: 'x' :: digits => natOf? 16 digits
  | '0' :: 'o' :: digits => natOf? 8 digits
  | '0' :: 'b' :: digits => natOf? 2 digits
  | _ => if isZeroLed s then none else natOf? 10 s

/-- The natural number that a scalar is spelled like, perhaps with a plus sign. -/
def naturalOf? (s : List Char) : Option Nat := unsignedOf? (dropSign '+' s)

/-- The integer that a scalar is spelled like. -/
def integerOf? (s : List Char) : Option Int :=
  match s with
  | '-' :: rest => (unsignedOf? rest).map fun n => -(n : Int)
  | _ => (naturalOf? s).map fun n => (n : Int)

/-- The exponent of ten at the end of a number: nothing, or a letter with an integer. -/
def exponentOf? (s : List Char) : Option Int :=
  match s with
  | [] => some 0
  | letter :: rest =>
    if letter != 'e' && letter != 'E' then none
    else
      match rest with
      | '-' :: digits => (natOf? 10 digits).map fun n => -(n : Int)
      | _ => (natOf? 10 (dropSign '+' rest)).map fun n => (n : Int)

/-- The finite double that a scalar without a sign is spelled like: digits, perhaps with a point
before, among or after them, and perhaps an exponent. -/
def decimalOf? (negative : Bool) (s : List Char) : Option Binary64 := do
  let whole := s.takeWhile Char.isDigit
  let (places, rest) := match s.dropWhile Char.isDigit with
    | '.' :: rest => (rest.takeWhile Char.isDigit, rest.dropWhile Char.isDigit)
    | rest => ([], rest)
  let digits ← natOf? 10 (whole ++ places)
  Binary64.ofDecimal negative digits ((← exponentOf? rest) - places.length)

/-- A floating-point number of a scalar. -/
inductive Floating where
  | finite (value : Binary64)
  /-- An infinity of either sign, or no number at all. -/
  | special
deriving DecidableEq, Repr

/-- The floating-point number that a scalar is spelled like. -/
def floatingOf? (s : String) : Option Floating :=
  let specials := [".inf", ".Inf", ".INF", "+.inf", "+.Inf", "+.INF", "-.inf", "-.Inf", "-.INF",
    ".nan", ".NaN", ".NAN"]
  if specials.contains s then some .special
  else
    match s.toList with
    | '-' :: rest => (decimalOf? true rest).map .finite
    | '+' :: rest => (decimalOf? false rest).map .finite
    | rest => (decimalOf? false rest).map .finite

/-- What a plain scalar without a tag stands for. -/
inductive Resolved where
  | null
  | bool (value : Bool)
  /-- An integer of at most 128 bits, signed or not. -/
  | integer (value : Int)
  | floating (value : Floating)
  | text
deriving DecidableEq, Repr

/-- The integers that count as such; larger ones are floating-point numbers. -/
def isKnownInteger (i : Int) : Bool := -(twoTo 127 : Int) ≤ i && i < twoTo 128

/-- What a plain scalar without a tag stands for. -/
def resolve (s : String) : Resolved :=
  if s.isEmpty || isNullWord s then .null
  else
    match truthOf? s, (integerOf? s.toList).filter isKnownInteger with
    | some b, _ => .bool b
    | none, some i => .integer i
    | none, none =>
      if isZeroLed s.toList then .text
      else
        match floatingOf? s with
        | some x => .floating x
        | none => .text

end ConfigRegistry.Yaml
