import Catchup.Decimal.Numeral

/-! Hexadecimal digits, two to a byte: written in lower case, read in either. -/

set_option autoImplicit false

namespace Catchup.Hexadecimal

def digitOf (value : Nat) : Char := "0123456789abcdef".toList.getD value '0'

def ofByte (byte : UInt8) : List Char := [digitOf (byte.toNat / 16), digitOf (byte.toNat % 16)]

def ofBytes (bytes : List UInt8) : List Char := bytes.flatMap ofByte

def digit? (character : Char) : Option Nat :=
  (Decimal.ofChar? character).or <|
    if 'a' ≤ character ∧ character ≤ 'f' then some (character.toNat - 'a'.toNat + 10)
    else if 'A' ≤ character ∧ character ≤ 'F' then some (character.toNat - 'A'.toNat + 10)
    else none

def value? (digits : List Char) : Option Nat := (digits.mapM digit?).map (Decimal.ofDigits 16)

def toBytes? : List Char → Option (List UInt8)
  | [] => some []
  | high :: low :: rest => do return UInt8.ofNat (← value? [high, low]) :: (← toBytes? rest)
  | [_] => none

end Catchup.Hexadecimal
