/-
# Texts of doubles

A text of a double shows its shortest decimal either positionally, with a point between units and
tenths, or in scientific form, with one digit before the point and a power of ten after it.
Which form is taken depends on the size of the number, and the size where it changes depends on
where the text is to stand; a `FloatStyle` fixes that choice.
-/
import ConfigRegistry.Number.Shortest

namespace ConfigRegistry

/-- How a double is written. -/
structure FloatStyle where
  /-- Whether a number whose leading digit stands for this power of ten is written positionally. -/
  positional : Int → Bool
  /-- Whether a positive power of ten carries a plus sign. -/
  plusSign : Bool

namespace FloatStyle

/-- Inside JSON text and messages, positional from a hundred-thousandth up to, and without, ten
to the sixteenth. -/
def json : FloatStyle := ⟨fun k => -5 ≤ k && k < 16, true⟩

/-- Inside YAML text, as in JSON but without the plus sign. -/
def yaml : FloatStyle := ⟨fun k => -5 ≤ k && k < 16, false⟩

end FloatStyle

namespace Decimal

/-- The decimal written positionally; a whole number ends in `.0`. -/
def positional (d : Decimal) : List Char :=
  let ds := Nat.toDigits 10 d.digits
  if 0 ≤ d.exponent then ds ++ List.replicate d.exponent.natAbs '0' ++ ['.', '0']
  else
    let places := d.exponent.natAbs
    if ds.length ≤ places then
      ['0', '.'] ++ List.replicate (places - ds.length) '0' ++ ds
    else ds.take (ds.length - places) ++ '.' :: ds.drop (ds.length - places)

/-- The decimal with one digit before the point and the power of ten written out. -/
def scientific (plusSign : Bool) (d : Decimal) : List Char :=
  let ds := Nat.toDigits 10 d.digits
  let k := d.leadingExponent
  let mantissa := match ds with
    | [] => []
    | [c] => [c]
    | c :: rest => c :: '.' :: rest
  let sign := if k < 0 then ['-'] else if plusSign then ['+'] else []
  mantissa ++ 'e' :: sign ++ Nat.toDigits 10 k.natAbs

end Decimal

/-- A double in a given style. -/
def Binary64.toText (style : FloatStyle) (x : Binary64) : List Char :=
  let d := x.shortest
  let body :=
    if style.positional d.leadingExponent then d.positional else d.scientific style.plusSign
  if x.negative then '-' :: body else body

end ConfigRegistry
