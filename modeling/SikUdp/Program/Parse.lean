import SikUdp.Program.Protocol
import SikUdp.Library.Decimal

/-!
# Parsing of arguments

The functions of `parse.h` that turn an argument into a number or a character. The
conversions of `boost::lexical_cast` are a parameter; what is documented of them is stated
apart.
-/
namespace SikUdp

/-- What the parsing functions and the conversions they call may throw. -/
inductive ArgumentException where
  | badLexicalCast
  | parseException (message : String)
  deriving DecidableEq, Repr

/-- `boost::lexical_cast` from and to strings, for one unsigned integer type. -/
structure LexicalCast (bits : ℕ) where
  fromString : List UInt8 → Except ArgumentException (BitVec bits)
  toString : BitVec bits → Except ArgumentException (List UInt8)

inductive Sign where
  | none
  | plus
  | minus

namespace Sign

def spelling : Sign → List UInt8
  | none => []
  | plus => [43]
  | minus => [45]

/-- A minus negates modulo the range of the type. -/
def apply {bits : ℕ} : Sign → BitVec bits → BitVec bits
  | minus, x => -x
  | _, x => x

end Sign

namespace LexicalCast

variable {bits : ℕ}

/-- The string is an optional sign and decimal digits whose magnitude fits the type. -/
def Accepts (bits : ℕ) (sign : Sign) (digits input : List UInt8) : Prop :=
  input = sign.spelling ++ digits ∧ Decimal.IsNumber digits ∧ Decimal.value digits < 2 ^ bits

/-- The documented behaviour of the conversions. -/
structure Documented (cast : LexicalCast bits) : Prop where
  accepts : ∀ sign digits input, Accepts bits sign digits input →
    cast.fromString input = .ok (sign.apply (BitVec.ofNat bits (Decimal.value digits)))
  rejects : ∀ input, (∀ sign digits, ¬ Accepts bits sign digits input) →
    cast.fromString input = .error .badLexicalCast
  prints : ∀ x, cast.toString x = .ok (Decimal.numeral x.toNat)

end LexicalCast

/-- The common body of the two functions: the argument is converted and printed back, and
refused if the conversion fails, the texts differ or the number itself is refused. -/
def parseNumber {bits : ℕ} (cast : LexicalCast bits) (refused : BitVec bits → Bool)
    (message : String) (input : List UInt8) : Except ArgumentException (BitVec bits) :=
  let attempt := do
    let number ← cast.fromString input
    let printed ← cast.toString number
    if printed ≠ input ∨ refused number = true then .error (.parseException message)
    else .ok number
  match attempt with
  | .error .badLexicalCast => .error (.parseException message)
  | other => other

def parsePort (cast : LexicalCast 16) (input : List UInt8) : Except ArgumentException UInt16 :=
  (parseNumber cast (fun port => port = 0) "Port must be an integer between 1 and 65,535"
    input).map UInt16.ofBitVec

def parseTimestamp (cast : LexicalCast 64) (input : List UInt8) :
    Except ArgumentException UInt64 :=
  (parseNumber cast (fun timestamp => !isProperTimestamp (.ofBitVec timestamp))
    "Timestamp must be a 64-bit unsigned number" input).map UInt64.ofBitVec

def parseCharacter : List UInt8 → Except ArgumentException UInt8
  | [character] => .ok character
  | _ => .error (.parseException "Character must be a single character")

end SikUdp
