import Mathlib.Algebra.Ring.Int.Defs
import Mathlib.Data.List.Basic

/-! The conversions of `QString` that read the attributes of the configuration. A text is a `String`. -/

namespace Recd2.QString

/-- `QChar::isSpace`: the white space of ASCII, and the separators of Unicode. -/
def isSpace (c : Char) : Bool :=
  let n := c.toNat
  (9 ≤ n && n ≤ 13) || n == 0x20 || n == 0x85 || n == 0xA0 || n == 0x1680 || (0x2000 ≤ n && n ≤ 0x200A) ||
    n == 0x2028 || n == 0x2029 || n == 0x202F || n == 0x205F || n == 0x3000

def trimmed (cs : List Char) : List Char :=
  ((cs.dropWhile isSpace).reverse.dropWhile isSpace).reverse

def digitsValue (cs : List Char) : Nat := cs.foldl (fun n c => 10 * n + (c.toNat - '0'.toNat)) 0

/-- One digit or more, and nothing else. -/
def parseDigits (cs : List Char) : Option Nat :=
  if cs ≠ [] ∧ cs.all Char.isDigit then some (digitsValue cs) else none

/-- A decimal number with an optional sign, between optional white space. -/
def parse (s : String) : Option Int :=
  match trimmed s.toList with
  | '-' :: cs => (parseDigits cs).map fun n => -(n : Int)
  | '+' :: cs => (parseDigits cs).map Int.ofNat
  | cs => (parseDigits cs).map Int.ofNat

/-- The parsed number, when a signed integer of `bits` bits holds it. `none` stands for `*ok == false`,
    where the conversions return 0. -/
def toIntegral (bits : Nat) (s : String) : Option Int :=
  (parse s).filter fun n => -2 ^ (bits - 1) ≤ n ∧ n < 2 ^ (bits - 1)

def toInt (s : String) : Option Int32 := (toIntegral 32 s).map Int32.ofInt
def toShort (s : String) : Option Int16 := (toIntegral 16 s).map Int16.ofInt
def toLong (s : String) : Option Int64 := (toIntegral 64 s).map Int64.ofInt

/-- `contains(sub, Qt::CaseInsensitive)`. -/
def containsCI (s sub : String) : Bool :=
  (s.toList.map Char.toLower).tails.any (sub.toList.map Char.toLower).isPrefixOf

end Recd2.QString
