import QuantumResources.Number.Digits
import QuantumResources.Number.Numeral

/-! Documents in JSON notation.

Whole numbers of any size and doubles are told apart by their spelling: a point or an exponent
makes a double. The three words for infinities and for no number are read as doubles. A key that
is repeated keeps its first place and its last value. -/

namespace QuantumResources

inductive Json where
  | null
  | bool (value : Bool)
  | int (value : Int)
  | real (value : Float)
  | string (value : String)
  | list (items : List Json)
  | object (fields : List (String × Json))

namespace Json

/-- Puts a field at its key's place, or at the end if the key is new. -/
def insertField {β : Type} (key : String) (value : β) : List (String × β) → List (String × β)
  | [] => [(key, value)]
  | (k, v) :: rest =>
    if k = key then (k, value) :: rest else (k, v) :: insertField key value rest

def field? (key : String) : Json → Option Json
  | .object fields => (fields.find? (fun field => field.1 = key)).map (·.2)
  | _ => none

/-- Whether a value counts as nothing: no value, false, zero, or without parts. -/
def isNothing : Json → Bool
  | .null => true
  | .bool value => !value
  | .int value => value == 0
  | .real value => value == 0.0
  | .string value => value.isEmpty
  | .list items => items.isEmpty
  | .object fields => fields.isEmpty

theorem sizeOf_field? {key : String} {document value : Json}
    (found : document.field? key = some value) : sizeOf value < sizeOf document := by
  cases document with
  | object fields =>
    obtain ⟨entry, hit, rfl⟩ := Option.map_eq_some_iff.1 found
    have member := List.mem_of_find?_eq_some hit
    have inner := List.sizeOf_lt_of_mem member
    have pair : sizeOf entry.2 < sizeOf entry := by
      obtain ⟨name, content⟩ := entry
      simp only [Prod.mk.sizeOf_spec]
      omega
    simp only [Json.object.sizeOf_spec]
    omega
  | _ => simp [field?] at found

def isSpace (c : Char) : Bool := c = ' ' || c = '\t' || c = '\n' || c = '\r'

def skipSpace (text : List Char) : List Char := text.dropWhile isSpace

def hexDigit? (c : Char) : Option Nat :=
  if '0' ≤ c && c ≤ '9' then some (c.toNat - '0'.toNat)
  else if 'a' ≤ c && c ≤ 'f' then some (c.toNat - 'a'.toNat + 10)
  else if 'A' ≤ c && c ≤ 'F' then some (c.toNat - 'A'.toNat + 10)
  else none

/-- Four hexadecimal digits and the rest. -/
def unit? : List Char → Option (Nat × List Char)
  | a :: b :: c :: d :: rest => do
    return (4096 * (← hexDigit? a) + 256 * (← hexDigit? b) + 16 * (← hexDigit? c) +
      (← hexDigit? d), rest)
  | _ => none

def isHigh (n : Nat) : Bool := 0xD800 ≤ n && n ≤ 0xDBFF

def isLow (n : Nat) : Bool := 0xDC00 ≤ n && n ≤ 0xDFFF

/-- A character written by its code units: two of them form a character beyond the first plane;
a unit that stands for nothing alone becomes the replacement character. -/
def unicode? (text : List Char) : Option (Char × List Char) := do
  let (first, rest) ← unit? text
  if isHigh first then
    match rest with
    | '\\' :: 'u' :: more =>
      match unit? more with
      | some (second, left) =>
        if isLow second then
          return (Char.ofNat (0x10000 + (first - 0xD800) * 1024 + (second - 0xDC00)), left)
        else return ('\ufffd', rest)
      | none => return ('\ufffd', rest)
    | _ => return ('\ufffd', rest)
  else if isLow first then return ('\ufffd', rest)
  else return (Char.ofNat first, rest)

def escape? : List Char → Option (Char × List Char)
  | '"' :: rest => some ('"', rest)
  | '\\' :: rest => some ('\\', rest)
  | '/' :: rest => some ('/', rest)
  | 'b' :: rest => some ('\x08', rest)
  | 'f' :: rest => some ('\x0c', rest)
  | 'n' :: rest => some ('\n', rest)
  | 'r' :: rest => some ('\r', rest)
  | 't' :: rest => some ('\t', rest)
  | 'u' :: rest => unicode? rest
  | _ => none

/-- The characters of a string after its opening quote, in reverse, and what follows it. -/
def readString : Nat → List Char → List Char → Option (List Char × List Char)
  | 0, _, _ => none
  | fuel + 1, read, text =>
    match text with
    | [] => none
    | '"' :: rest => some (read, rest)
    | '\\' :: rest =>
      match escape? rest with
      | some (c, left) => readString fuel (c :: read) left
      | none => none
    | c :: rest => if c.toNat < 32 then none else readString fuel (c :: read) rest

/-- A text that starts after an opening quote, and what follows the closing one. -/
def readText (text : List Char) : Option (String × List Char) :=
  (readString (text.length + 1) [] text).map fun (read, rest) =>
    (String.ofList read.reverse, rest)

/-- Digits of a whole part: a zero alone or digits that do not begin with one. -/
def wholePart : List Char → Option (List Char × List Char)
  | '0' :: rest => some (['0'], rest)
  | c :: rest =>
    if Numeral.isDigit c then
      some (c :: rest.takeWhile Numeral.isDigit, rest.dropWhile Numeral.isDigit)
    else none
  | [] => none

def fractionPart : List Char → List Char × List Char
  | '.' :: c :: rest =>
    if Numeral.isDigit c then
      (c :: rest.takeWhile Numeral.isDigit, rest.dropWhile Numeral.isDigit)
    else ([], '.' :: c :: rest)
  | rest => ([], rest)

def exponentPart (text : List Char) : Option Int × List Char :=
  match text with
  | mark :: rest =>
    if mark = 'e' ∨ mark = 'E' then
      let signed := Numeral.takeSign rest
      let digits := signed.2.takeWhile Numeral.isDigit
      if digits.isEmpty then (none, text)
      else
        let size : Int := (Numeral.valueOf digits : Nat)
        (some (if signed.1 then -size else size), signed.2.dropWhile Numeral.isDigit)
    else (none, text)
  | [] => (none, text)

def readNumber (text : List Char) : Option (Json × List Char) :=
  let signed : Bool × List Char :=
    match text with
    | '-' :: rest => (true, rest)
    | _ => (false, text)
  (wholePart signed.2).map fun (whole, afterWhole) =>
    let (fraction, afterFraction) := fractionPart afterWhole
    let (exponent, rest) := exponentPart afterFraction
    if fraction.isEmpty && exponent.isNone then
      let size : Int := (Numeral.valueOf whole : Nat)
      (.int (if signed.1 then -size else size), rest)
    else
      let numeral := Numeral.finite signed.1 (Numeral.valueOf (whole ++ fraction))
        (exponent.getD 0 - fraction.length)
      (.real numeral.toFloat, rest)

/-- The rest of the text after a word. -/
def dropWord? : List Char → List Char → Option (List Char)
  | [], text => some text
  | c :: word, d :: text => if c = d then dropWord? word text else none
  | _ :: _, [] => none

def words : List (String × Json) :=
  [("null", .null), ("true", .bool true), ("false", .bool false), ("NaN", .real Binary64.nan),
    ("Infinity", .real (Binary64.infinity false)), ("-Infinity", .real (Binary64.infinity true))]

def readWord (text : List Char) : Option (Json × List Char) :=
  words.findSome? fun (word, value) => (dropWord? word.toList text).map fun rest => (value, rest)

mutual

/-- A value at the front of the text, and what follows it. Every call takes one unit of fuel and
the length of the text is enough. -/
def readValue : Nat → List Char → Option (Json × List Char)
  | 0, _ => none
  | fuel + 1, text =>
    match text with
    | '"' :: rest => (readText rest).map fun (value, left) => (.string value, left)
    | '[' :: rest =>
      match skipSpace rest with
      | ']' :: left => some (.list [], left)
      | items => (readItems fuel [] items).map fun (read, left) => (.list read.reverse, left)
    | '\x7b' :: rest =>
      match skipSpace rest with
      | '\x7d' :: left => some (.object [], left)
      | fields => (readFields fuel [] fields).map fun (read, left) => (.object read, left)
    | _ => (readWord text).orElse fun _ => readNumber text

def readItems : Nat → List Json → List Char → Option (List Json × List Char)
  | 0, _, _ => none
  | fuel + 1, read, text =>
    match readValue fuel text with
    | none => none
    | some (value, rest) =>
      match skipSpace rest with
      | ',' :: more => readItems fuel (value :: read) (skipSpace more)
      | ']' :: left => some (value :: read, left)
      | _ => none

def readFields : Nat → List (String × Json) → List Char → Option (List (String × Json) × List Char)
  | 0, _, _ => none
  | fuel + 1, read, text =>
    match text with
    | '"' :: rest =>
      match readText rest with
      | none => none
      | some (key, left) =>
        match skipSpace left with
        | ':' :: more =>
          match readValue fuel (skipSpace more) with
          | none => none
          | some (value, after) =>
            let fields := insertField key value read
            match skipSpace after with
            | ',' :: next => readFields fuel fields (skipSpace next)
            | '\x7d' :: done => some (fields, done)
            | _ => none
        | _ => none
    | _ => none

end

/-- Reads a whole document; nothing but blanks may follow the value. -/
def read? (text : String) : Option Json :=
  let chars := text.toList
  match readValue (2 * chars.length + 2) (skipSpace chars) with
  | some (value, rest) => if (skipSpace rest).isEmpty then some value else none
  | none => none

def hexText (n : Nat) : String :=
  let digits := Nat.toDigits 16 n
  String.ofList (List.replicate (4 - digits.length) '0' ++ digits)

/-- A character inside a string; everything beyond ASCII is written by its code units. -/
def quotedChar (c : Char) : String :=
  match c with
  | '"' => "\\\""
  | '\\' => "\\\\"
  | '\n' => "\\n"
  | '\r' => "\\r"
  | '\t' => "\\t"
  | '\x08' => "\\b"
  | '\x0c' => "\\f"
  | _ =>
    let n := c.toNat
    if 32 ≤ n ∧ n < 127 then String.singleton c
    else if n < 0x10000 then "\\u" ++ hexText n
    else
      let high := 0xD800 + (n - 0x10000) / 1024
      let low := 0xDC00 + (n - 0x10000) % 1024
      "\\u" ++ hexText high ++ "\\u" ++ hexText low

def quoted (text : String) : String :=
  "\"" ++ text.toList.foldl (fun out c => out ++ quotedChar c) "" ++ "\""

/-- Doubles are written with the fewest digits that read back, without an exponent from a
ten-thousandth up to ten quadrillion. -/
def realFormat : Digits.PlainFormat where
  leastPower := -4
  greatestPower := 15
  special := ⟨fun negative => if negative then "-0.0" else "0.0",
    fun negative => if negative then "-Infinity" else "Infinity", "NaN"⟩

mutual

def write : Json → String
  | .null => "null"
  | .bool value => if value then "true" else "false"
  | .int value => Digits.ofInt value
  | .real value => Digits.plainDouble realFormat value
  | .string value => quoted value
  | .list items => "[" ++ writeItems items ++ "]"
  | .object fields => "\x7b" ++ writeFields fields ++ "\x7d"

def writeItems : List Json → String
  | [] => ""
  | [only] => write only
  | first :: rest => write first ++ ", " ++ writeItems rest

def writeFields : List (String × Json) → String
  | [] => ""
  | [only] => quoted only.1 ++ ": " ++ write only.2
  | first :: rest => quoted first.1 ++ ": " ++ write first.2 ++ ", " ++ writeFields rest

end

end Json

end QuantumResources
