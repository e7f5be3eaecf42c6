import Catchup.Decimal.Numeral

/-! The shortest decimal that reads back as a given floating-point number.

A finite number is `mantissa · 2 ^ power`. Every real in an interval around it rounds to it; the
ends belong to the interval when the mantissa is even. The decimals with last place `10 ^ k` form
a grid, and the coarsest grid with a point in the interval gives the fewest digits. If any point
of a grid lies in the interval, then one of the two neighbours of the number on that grid does. -/

set_option autoImplicit false

namespace Catchup.Decimal

/-- A finite floating-point number without its sign, and whether the gap below it is half the gap
above. -/
structure Binary where
  mantissa : Nat
  power : Int
  narrowBelow : Bool
  deriving DecidableEq, Repr

/-- The fields of the 64-bit format: 52 bits of fraction, 11 bits of exponent. The sign is not
looked at. -/
def Binary.ofBits (bits : UInt64) : Binary :=
  let fraction : Nat := bits.toNat % Nat.pow 2 52
  let exponent : Nat := bits.toNat / Nat.pow 2 52 % Nat.pow 2 11
  if exponent = 0 then ⟨fraction, -1074, false⟩
  else ⟨fraction + Nat.pow 2 52, Int.ofNat exponent - 1075, fraction = 0 ∧ 1 < exponent⟩

namespace Binary

/-- The number and the ends of its interval, as multiples of a quarter of the gap above it. -/
def low (binary : Binary) : Nat :=
  4 * binary.mantissa - if binary.narrowBelow then 1 else 2

def high (binary : Binary) : Nat := 4 * binary.mantissa + 2

/-- Common scale of grid points `points · 10 ^ place` and of quarters `quarters · 2 ^ (power - 2)`:
the factors that turn both into integers. -/
def pointScale (binary : Binary) (place : Int) : Nat :=
  Nat.pow 10 place.toNat * Nat.pow 2 (2 - binary.power).toNat

def quarterScale (binary : Binary) (place : Int) : Nat :=
  Nat.pow 10 (-place).toNat * Nat.pow 2 (binary.power - 2).toNat

/-- Does the decimal `point · 10 ^ place` read back as the number? -/
def readsBack (binary : Binary) (place : Int) (point : Nat) : Bool :=
  let scaled := point * binary.pointScale place
  let low := binary.low * binary.quarterScale place
  let high := binary.high * binary.quarterScale place
  if binary.mantissa % 2 = 0 then low ≤ scaled ∧ scaled ≤ high else low < scaled ∧ scaled < high

/-- The neighbour on the grid that reads back; of two the nearer, of two equally near the upper. -/
def onGrid? (binary : Binary) (place : Int) : Option Nat :=
  let value := 4 * binary.mantissa * binary.quarterScale place
  let scale := binary.pointScale place
  let below := value / scale
  let above := below + 1
  match decide (0 < below) && binary.readsBack place below, binary.readsBack place above with
  | true, true => some (if 2 * (value % scale) < scale then below else above)
  | true, false => some below
  | false, true => some above
  | false, false => none

/-- Places from coarsest to finest that a 64-bit number can need. -/
def places : List Int := (List.range 660).map fun step => 310 - Int.ofNat step

/-- Digits and last place of the shortest decimal. -/
def shortest? (binary : Binary) : Option (Nat × Int) :=
  if binary.mantissa = 0 then some (0, 0)
  else places.findSome? fun place => (binary.onGrid? place).map fun point => (point, place)

end Binary

/-- A number in full: shortest digits, no exponent and no point where nothing follows it. -/
def text (number : Float) : String :=
  if number.isNaN then "NaN"
  else
    let bits := number.toBits
    let sign := if bits.toNat / Nat.pow 2 63 = 1 then "-" else ""
    let written :=
      if number.isInf then "inf"
      else match (Binary.ofBits bits).shortest? with
        | some (digits, place) => String.ofList (positional digits place)
        | none => "0"
    sign ++ written

end Catchup.Decimal
