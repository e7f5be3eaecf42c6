import Catchup.Hexadecimal
import Catchup.Settings.Basic

/-! Reading settings from a TOML document.

Every setting is a number at the top level. A document with anything else in it (text, dates,
arrays, tables, dotted keys) names no setting or gives one the wrong type, so it is refused while
it is read, and what remains of the format is a list of lines `key = number`. -/

set_option autoImplicit false

namespace Catchup.Toml

inductive Number where
  | integer (value : Int)
  | float (value : Float)
  deriving Repr

/-! ### Numbers -/

/-- A digit of the given base, at most 16. -/
def digit? (base : Nat) (character : Char) : Option Nat :=
  (Hexadecimal.digit? character).filter (· < base)

/-- One digit or more; single underscores may stand between digits. -/
def run? (base : Nat) : List Char → Option (List Nat)
  | [] => none
  | [last] => (digit? base last).map fun digit => [digit]
  | first :: '_' :: rest => do return (← digit? base first) :: (← run? base rest)
  | first :: rest => do return (← digit? base first) :: (← run? base rest)

/-- A run of decimal digits with no zero in front of others. -/
def plainRun? (characters : List Char) : Option (List Nat) :=
  match run? 10 characters with
  | some (0 :: _ :: _) => none
  | digits => digits

def signed : List Char → Bool × List Char
  | '+' :: rest => (false, rest)
  | '-' :: rest => (true, rest)
  | characters => (false, characters)

/-- Integers have 64 bits, one of them for the sign. -/
def bounded? (value : Int) : Option Number :=
  if -9223372036854775808 ≤ value ∧ value ≤ 9223372036854775807 then some (.integer value)
  else none

def integer? : List Char → Option Number
  | '0' :: 'x' :: digits => (run? 16 digits).bind fun run => bounded? (Decimal.ofDigits 16 run)
  | '0' :: 'o' :: digits => (run? 8 digits).bind fun run => bounded? (Decimal.ofDigits 8 run)
  | '0' :: 'b' :: digits => (run? 2 digits).bind fun run => bounded? (Decimal.ofDigits 2 run)
  | characters => do
    let (negative, digits) := signed characters
    let magnitude : Int := Decimal.ofDigits 10 (← plainRun? digits)
    bounded? (if negative then -magnitude else magnitude)

def isExponentMark (character : Char) : Bool := character = 'e' || character = 'E'

/-- What follows the mark of an exponent, or zero where there is none. -/
def exponent? : List Char → Option Int
  | [] => some 0
  | _ :: characters => do
    let (negative, digits) := signed characters
    let magnitude : Int := Decimal.ofDigits 10 (← run? 10 digits)
    return if negative then -magnitude else magnitude

/-- A fraction, an exponent, or a fraction and then an exponent. -/
def numeral? (characters : List Char) : Option Decimal.Numeral := do
  let (negative, characters) := signed characters
  let (mantissa, mark) := characters.span fun character => !isExponentMark character
  let (whole, point) := mantissa.span (· ≠ '.')
  let whole ← plainRun? whole
  let fraction ← match point with
    | [] => if mark.isEmpty then none else some []
    | _ :: digits => run? 10 digits
  return { negative, digits := Decimal.ofDigits 10 (whole ++ fraction),
           exponent := (← exponent? mark) - fraction.length }

def infinity : Float := 1 / 0

def notANumber : Float := 0 / 0

/-- A float, too small ones reading as zero. One beyond the largest finite number is refused, but
not one below the least. -/
def float? (characters : List Char) : Option Float :=
  let (negative, rest) := signed characters
  if rest = "inf".toList then some (if negative then -infinity else infinity)
  else if rest = "nan".toList then some notANumber
  else (numeral? characters).bind fun numeral =>
    let value := numeral.toFloat
    if value == infinity then none else some value

def number? (characters : List Char) : Option Number :=
  (integer? characters).or ((float? characters).map .float)

/-! ### Keys -/

def isBare (character : Char) : Bool :=
  character.isAlphanum || character = '_' || character = '-'

/-- The character with the code point that the hexadecimal digits give. -/
def codePoint? (digits : List Char) : Option Char := do
  let value ← Hexadecimal.value? digits
  if value.isValidChar then some (Char.ofNat value) else none

def escape? : Char → Option Char
  | 'b' => some '\x08'
  | 't' => some '\t'
  | 'n' => some '\n'
  | 'f' => some '\x0c'
  | 'r' => some '\r'
  | '"' => some '"'
  | '\\' => some '\\'
  | _ => none

/-- A key in double quotes, from behind the opening one, and what follows the closing one. -/
def quotedKey? : List Char → Option (List Char × List Char)
  | [] => none
  | '"' :: rest => some ([], rest)
  | '\\' :: 'u' :: a :: b :: c :: d :: rest => do
    let character ← codePoint? [a, b, c, d]
    let (key, rest) ← quotedKey? rest
    return (character :: key, rest)
  | '\\' :: 'U' :: a :: b :: c :: d :: e :: f :: g :: h :: rest => do
    let character ← codePoint? [a, b, c, d, e, f, g, h]
    let (key, rest) ← quotedKey? rest
    return (character :: key, rest)
  | '\\' :: escaped :: rest => do
    let character ← escape? escaped
    let (key, rest) ← quotedKey? rest
    return (character :: key, rest)
  | character :: rest => do
    let (key, rest) ← quotedKey? rest
    return (character :: key, rest)

def key? : List Char → Option (List Char × List Char)
  | '"' :: rest => quotedKey? rest
  | '\'' :: rest =>
    match rest.span (· ≠ '\'') with
    | (key, _ :: rest) => some (key, rest)
    | (_, []) => none
  | characters =>
    match characters.span isBare with
    | ([], _) => none
    | found => some found

/-! ### Lines -/

def isBlank (character : Char) : Bool := character = ' ' || character = '\t'

def skipBlanks (characters : List Char) : List Char := characters.dropWhile isBlank

def isControl (character : Char) : Bool :=
  (character < ' ' && character ≠ '\t') || character = '\x7f'

/-- Nothing, or a comment: it may hold tabs, but no other control characters. -/
def isTrailer : List Char → Bool
  | [] => true
  | '#' :: comment => comment.all fun character => !isControl character
  | _ => false

/-- What a line sets, if it sets anything. -/
def line? (characters : List Char) : Option (Option (String × Number)) :=
  let characters := skipBlanks characters
  if isTrailer characters then some none
  else do
    let (key, rest) ← key? characters
    let '=' :: rest := skipBlanks rest | none
    let (value, rest) := (skipBlanks rest).span fun character =>
      !(isBlank character || character = '#')
    let number ← number? value
    if isTrailer (skipBlanks rest) then some (some (String.ofList key, number)) else none

/-- Lines end with a line feed, or with a carriage return and a line feed. -/
def lines : List Char → List (List Char)
  | [] => [[]]
  | '\r' :: '\n' :: rest => [] :: lines rest
  | '\n' :: rest => [] :: lines rest
  | character :: rest =>
    match lines rest with
    | [] => [[character]]
    | line :: others => (character :: line) :: others

/-- A mark of the byte order in front is skipped. -/
def skipMark : List Char → List Char
  | '\uFEFF' :: rest => rest
  | characters => characters

def entries? (document : String) : Option (List (String × Number)) := do
  let found ← (lines (skipMark document.toList)).mapM line?
  return found.filterMap id

end Catchup.Toml

namespace Catchup.Settings

open Toml (Number)

def natural? : Number → Option Nat
  | .integer value => if 0 ≤ value then some value.toNat else none
  | .float _ => none

def real? : Number → Float
  | .integer value =>
    Decimal.Numeral.toFloat { negative := value < 0, digits := value.natAbs, exponent := 0 }
  | .float value => value

/-- Settings with one field changed; there is no other field than these. -/
def set? (settings : Settings) (field : String) (number : Number) : Option Settings :=
  match field with
  | "sync_check_interval_ms" =>
    (natural? number).map fun value =>
      { settings with checkInterval := value * nanosecondsPerMillisecond }
  | "sync_check_receive_status_timeout_ms" =>
    (natural? number).map fun value =>
      { settings with statusWindow := value * nanosecondsPerMillisecond }
  | "sync_request_timeout_ms" =>
    (natural? number).map fun value =>
      { settings with requestTimeout := value * nanosecondsPerMillisecond }
  | "ledger_update_timeout_ms" =>
    (natural? number).map fun value =>
      { settings with commitTimeout := value * nanosecondsPerMillisecond }
  | "sync_check_max_peers" =>
    (natural? number).map fun value => { settings with checkLimit := some value }
  | "ban_duration_secs" =>
    (natural? number).map fun value =>
      { settings with banDuration := value * nanosecondsPerSecond }
  | "ledger_status_update_max_peers_to_notify" =>
    (natural? number).map fun value => { settings with updateLimit := value }
  | "max_ledger_updates_rate" => some { settings with updateRate := real? number }
  | _ => none

/-- Settings from a document: the defaults where it is silent, and no field twice. -/
def ofToml? (document : String) : Option Settings := do
  let entries ← Toml.entries? document
  if (entries.map (·.1)).Nodup then
    entries.foldlM (fun settings entry => settings.set? entry.1 entry.2) {}
  else none

inductive Failure where
  | unreadable
  | malformed
  | flawed (flaw : Flaw)
  deriving BEq, Repr

def ofText (document : String) : Except Failure Settings :=
  match ofToml? document with
  | none => .error .malformed
  | some settings => settings.validate.mapError .flawed

/-- Usable settings from the contents of a file, if there is one; they have to be UTF-8. -/
def ofFile (contents : Option (List UInt8)) : Except Failure Settings :=
  match contents.bind fun bytes => String.fromUTF8? ⟨bytes.toArray⟩ with
  | none => .error .unreadable
  | some document => ofText document

end Catchup.Settings
