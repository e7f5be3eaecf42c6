import Catchup.Hexadecimal
import Catchup.Wire.Value

/-! Values as JSON text. -/

set_option autoImplicit false

namespace Catchup.Wire.Text

def isSpace (character : Char) : Bool :=
  character = ' ' || character = '\t' || character = '\n' || character = '\r'

def skipSpace (characters : List Char) : List Char := characters.dropWhile isSpace

/-! ### Strings -/

def escape? : Char → Option Char
  | '"' => some '"'
  | '\\' => some '\\'
  | '/' => some '/'
  | 'b' => some '\x08'
  | 'f' => some '\x0c'
  | 'n' => some '\n'
  | 'r' => some '\r'
  | 't' => some '\t'
  | _ => none

/-- The character of two UTF-16 units, the first and the second half of a surrogate pair. -/
def ofSurrogates (high low : Nat) : Char :=
  Char.ofNat (0x10000 + (high - 0xD800) * 0x400 + (low - 0xDC00))

/-- The characters of a string from behind its opening quote, and what follows the closing one. -/
def string? : List Char → Option (List Char × List Char)
  | [] => none
  | '"' :: rest => some ([], rest)
  | '\\' :: 'u' :: a :: b :: c :: d :: rest => do
    let unit ← Hexadecimal.value? [a, b, c, d]
    if 0xD800 ≤ unit ∧ unit < 0xDC00 then
      match rest with
      | '\\' :: 'u' :: e :: f :: g :: h :: rest => do
        let low ← Hexadecimal.value? [e, f, g, h]
        let (characters, rest) ← string? rest
        return (ofSurrogates unit low :: characters, rest)
      | _ => none
    else
      let (characters, rest) ← string? rest
      return (Char.ofNat unit :: characters, rest)
  | '\\' :: escaped :: rest => do
    let character ← escape? escaped
    let (characters, rest) ← string? rest
    return (character :: characters, rest)
  | character :: rest => do
    let (characters, rest) ← string? rest
    return (character :: characters, rest)

/-! ### Values -/

def isNumeralChar (character : Char) : Bool :=
  (Decimal.ofChar? character).isSome || "+-.eE".toList.contains character

/-- A numeral is a natural number if it has nothing but digits. -/
def numeral? (characters : List Char) : Option (Value × List Char) :=
  let (numeral, rest) := characters.span isNumeralChar
  if numeral.isEmpty then none
  else match numeral.mapM Decimal.ofChar? with
    | some digits => some (.natural (Decimal.ofDigits 10 digits), rest)
    | none => some (.numeral (String.ofList numeral), rest)

mutual

/-- A value and what follows it. As each value takes up a character at least, the number of
characters bounds the recursion. -/
def value? : Nat → List Char → Option (Value × List Char)
  | 0, _ => none
  | bound + 1, characters =>
    match skipSpace characters with
    | 'n' :: 'u' :: 'l' :: 'l' :: rest => some (.null, rest)
    | 't' :: 'r' :: 'u' :: 'e' :: rest => some (.boolean true, rest)
    | 'f' :: 'a' :: 'l' :: 's' :: 'e' :: rest => some (.boolean false, rest)
    | '"' :: rest => (string? rest).map fun (characters, rest) =>
      (.text (String.ofList characters), rest)
    | '[' :: rest =>
      match skipSpace rest with
      | ']' :: rest => some (.list [], rest)
      | rest => (items? bound rest).map fun (items, rest) => (.list items, rest)
    | '{' :: rest =>
      match skipSpace rest with
      | '}' :: rest => some (.record [], rest)
      | rest => (fields? bound rest).map fun (fields, rest) => (.record fields, rest)
    | characters => numeral? characters

def items? : Nat → List Char → Option (List Value × List Char)
  | 0, _ => none
  | bound + 1, characters => do
    let (item, rest) ← value? bound characters
    match skipSpace rest with
    | ',' :: rest => do
      let (items, rest) ← items? bound rest
      return (item :: items, rest)
    | ']' :: rest => some ([item], rest)
    | _ => none

def fields? : Nat → List Char → Option (List (String × Value) × List Char)
  | 0, _ => none
  | bound + 1, characters => do
    let '"' :: rest := skipSpace characters | none
    let (name, rest) ← string? rest
    let ':' :: rest := skipSpace rest | none
    let (value, rest) ← value? bound rest
    let field := (String.ofList name, value)
    match skipSpace rest with
    | ',' :: rest => do
      let (fields, rest) ← fields? bound rest
      return (field :: fields, rest)
    | '}' :: rest => some ([field], rest)
    | _ => none

end

/-! ### Writing -/

def escaped (character : Char) : List Char :=
  if character = '"' ∨ character = '\\' then ['\\', character]
  else if character < ' ' then
    "\\u00".toList ++ Hexadecimal.ofByte (UInt8.ofNat character.toNat)
  else [character]

def quoted (text : String) : List Char := '"' :: text.toList.flatMap escaped ++ ['"']

def separated : List (List Char) → List Char
  | [] => []
  | [last] => last
  | first :: rest => first ++ ',' :: separated rest

mutual

/-- Without blanks, and with the fields of a record in alphabetical order. -/
def characters : Value → List Char
  | .null => "null".toList
  | .boolean truth => (if truth then "true" else "false").toList
  | .natural number => Decimal.digitsOf number
  | .numeral digits => digits.toList
  | .text text => quoted text
  | .list items => '[' :: separated (itemTexts items) ++ [']']
  | .record fields =>
    let sorted := (fieldTexts fields).mergeSort fun left right => left.1 ≤ right.1
    '{' :: separated (sorted.map (·.2)) ++ ['}']

def itemTexts : List Value → List (List Char)
  | [] => []
  | item :: rest => characters item :: itemTexts rest

def fieldTexts : List (String × Value) → List (String × List Char)
  | [] => []
  | (name, value) :: rest => (name, quoted name ++ ':' :: characters value) :: fieldTexts rest

end

end Catchup.Wire.Text

namespace Catchup.Wire.Value

/-- The value that a text holds, with nothing but blanks behind it. -/
def ofText? (text : String) : Option Value :=
  match Text.value? (text.length + 1) text.toList with
  | some (value, rest) => if (Text.skipSpace rest).isEmpty then some value else none
  | none => none

def toText (value : Value) : String := String.ofList (Text.characters value)

end Catchup.Wire.Value
