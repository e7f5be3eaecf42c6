/-! Decimal numerals `digits · 10 ^ exponent` with a sign, and the floating-point numbers next to
them. -/

set_option autoImplicit false

namespace Catchup.Decimal

structure Numeral where
  negative : Bool
  digits : Nat
  exponent : Int
  deriving DecidableEq, Repr

/-- The value of a run of digits in the given base, the first digit weighing most. -/
def ofDigits (base : Nat) (digits : List Nat) : Nat :=
  digits.foldl (fun value digit => base * value + digit) 0

def ofChar? (character : Char) : Option Nat :=
  if '0' ≤ character ∧ character ≤ '9' then some (character.toNat - '0'.toNat) else none

def digitsOf (number : Nat) : List Char := Nat.toDigits 10 number

/-- The nearest floating-point number, a tie going to the even one. Numerals beyond the largest
finite number give infinity, those below half the smallest positive one give zero. -/
def Numeral.magnitude (numeral : Numeral) : Float :=
  let leading := numeral.exponent + (digitsOf numeral.digits).length
  if numeral.digits = 0 ∨ leading < -330 then 0
  else if leading > 310 then 1 / 0
  else Float.ofScientific numeral.digits (numeral.exponent < 0) numeral.exponent.natAbs

def Numeral.toFloat (numeral : Numeral) : Float :=
  if numeral.negative then -numeral.magnitude else numeral.magnitude

/-- Written out without an exponent: zeros fill the places up to the point. -/
def positional (digits : Nat) (exponent : Int) : List Char :=
  if 0 ≤ exponent then digitsOf digits ++ List.replicate exponent.toNat '0'
  else
    let places := exponent.natAbs
    let written := digitsOf digits
    let padded := List.replicate (places + 1 - written.length) '0' ++ written
    padded.take (padded.length - places) ++ '.' :: padded.drop (padded.length - places)

end Catchup.Decimal
