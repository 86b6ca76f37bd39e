import QuantumResources.Number.Decimal

/-! Reading numbers written in decimal notation.

A numeral has an optional sign, digits with an optional point, and an optional exponent. Single
underscores may stand between digits. The words for infinity and for no number are read without
regard to case. -/

namespace QuantumResources

inductive Numeral where
  | finite (negative : Bool) (coefficient : Nat) (power : Int)
  | infinite (negative : Bool)
  | nan (signaling : Bool)
  deriving DecidableEq, Repr

namespace Numeral

def isDigit (c : Char) : Bool := '0' ≤ c && c ≤ '9'

def digitValue (c : Char) : Nat := c.toNat - '0'.toNat

def valueOf (digits : List Char) : Nat := digits.foldl (fun n c => 10 * n + digitValue c) 0

/-- Leading digits, single underscores between them left out, and the rest. The flag says
whether a digit has just been read. -/
def digitsFrom : Bool → List Char → List Char × List Char
  | _, [] => ([], [])
  | started, c :: rest =>
    if isDigit c then
      let tail := digitsFrom true rest
      (c :: tail.1, tail.2)
    else if c = '_' && started && rest.head?.any isDigit then digitsFrom false rest
    else ([], c :: rest)

def takeDigits (text : List Char) : List Char × List Char := digitsFrom false text

def takeSign : List Char → Bool × List Char
  | '-' :: rest => (true, rest)
  | '+' :: rest => (false, rest)
  | rest => (false, rest)

/-- An exponent that fills the rest of the text. -/
def exponent? : List Char → Option Int
  | [] => some 0
  | mark :: rest =>
    if mark = 'e' ∨ mark = 'E' then
      let signed := takeSign rest
      let digits := takeDigits signed.2
      if digits.1.isEmpty || !digits.2.isEmpty then none
      else
        let size : Int := (valueOf digits.1 : Nat)
        some (if signed.1 then -size else size)
    else none

def finite? (negative : Bool) (text : List Char) : Option Numeral :=
  let whole := takeDigits text
  let fraction :=
    match whole.2 with
    | '.' :: rest => takeDigits rest
    | rest => ([], rest)
  if whole.1.isEmpty && fraction.1.isEmpty then none
  else
    (exponent? fraction.2).map fun power =>
      .finite negative (valueOf (whole.1 ++ fraction.1)) (power - fraction.1.length)

def lower (text : List Char) : String := String.ofList (text.map Char.toLower)

/-- Blanks that may surround a numeral: the white space of Unicode, by code point. -/
def isBlank (c : Char) : Bool :=
  let n := c.toNat
  n == 0x20 || (0x09 ≤ n && n ≤ 0x0d) || (0x1c ≤ n && n ≤ 0x1f) || n == 0x85 || n == 0xa0 ||
    n == 0x1680 || (0x2000 ≤ n && n ≤ 0x200a) || n == 0x2028 || n == 0x2029 || n == 0x202f ||
    n == 0x205f || n == 0x3000

def trim (text : List Char) : List Char :=
  ((text.dropWhile isBlank).reverse.dropWhile isBlank).reverse

def read? (text : String) : Option Numeral :=
  let signed := takeSign (trim text.toList)
  match lower signed.2 with
  | "inf" | "infinity" => some (.infinite signed.1)
  | "nan" => some (.nan false)
  | _ => finite? signed.1 signed.2

/-- As `read?`, with signaling NaN and digits after a NaN allowed. -/
def readDecimal? (text : String) : Option Numeral :=
  let signed := takeSign (trim text.toList)
  let word := signed.2.takeWhile (fun c => !isDigit c)
  let rest := signed.2.dropWhile (fun c => !isDigit c)
  match lower word, rest.all isDigit with
  | "nan", true => some (.nan false)
  | "snan", true => some (.nan true)
  | _, _ => read? text

def toFloat : Numeral → Float
  | .finite negative coefficient power =>
    (Binary64.ofDecimal negative coefficient power).getD (Binary64.infinity negative)
  | .infinite negative => Binary64.infinity negative
  | .nan _ => Binary64.nan

def toDecimal : Numeral → Decimal
  | .finite negative coefficient power => .finite negative coefficient power
  | .infinite negative => .infinite negative
  | .nan signaling => .nan signaling

end Numeral

end QuantumResources
