import Catchup.Digest.Blake3
import Catchup.Hexadecimal

/-! Digests of byte strings, and the accumulator that folds one digest into another. -/

set_option autoImplicit false

namespace Catchup

structure Digest where
  bytes : Vector UInt8 32
  deriving DecidableEq, Repr

namespace Digest

def zero : Digest := ⟨Vector.replicate 32 0⟩

def ofBytes (bytes : List UInt8) : Digest := ⟨Blake3.hash bytes⟩

/-- The digest of several byte strings is the digest of their concatenation. -/
def ofParts (parts : List (List UInt8)) : Digest := ofBytes parts.flatten

def toList (digest : Digest) : List UInt8 := digest.bytes.toList

@[simp] theorem length_toList (digest : Digest) : digest.toList.length = 32 := by
  simp [toList]

theorem toList_inj {left right : Digest} : left.toList = right.toList ↔ left = right := by
  constructor
  · intro same
    cases left; cases right
    simpa [toList, Vector.toList_inj] using same
  · rintro rfl; rfl

def accumulate (accumulator item : Digest) : Digest :=
  ofParts [accumulator.toList, item.toList]

/-- Byte by byte, the first difference decides. -/
instance : Ord Digest where
  compare left right := compare left.toList right.toList

def hexDigits (digest : Digest) : List Char := Hexadecimal.ofBytes digest.toList

def toHex (digest : Digest) : String := String.ofList digest.hexDigits

/-- The ends of the hexadecimal text, for messages that have no room for the whole. -/
def abbreviation (digest : Digest) : String :=
  "Hash(" ++ String.ofList (digest.hexDigits.take 8) ++ ".."
    ++ String.ofList (digest.hexDigits.drop 56) ++ ")"

end Digest

end Catchup
