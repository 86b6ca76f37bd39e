import QuantumResources.Decoder

/-! A reader of comma separated values.

A `#` starts a comment, blank lines are skipped, and a field that is no number counts as not a
number. -/

namespace QuantumResources.Decoder.Csv

/-- Splits at every occurrence of a character; `n` occurrences make `n + 1` parts. -/
def splitAt (separator : Char) : List Char → List (List Char)
  | [] => [[]]
  | c :: rest =>
    if c = separator then [] :: splitAt separator rest
    else
      match splitAt separator rest with
      | [] => [[c]]
      | part :: parts => (c :: part) :: parts

def isMargin (c : Char) : Bool := c == ' ' || c == '\r' || c == '\n'

def trimLine (line : List Char) : List Char :=
  ((line.dropWhile isMargin).reverse.dropWhile isMargin).reverse

/-- The fields of a line without its comment; a blank line has none. -/
def fields (line : List Char) : List (List Char) :=
  match trimLine (line.takeWhile (· != '#')) with
  | [] => []
  | text => splitAt ',' text

/-- The fields of all lines that are not blank. -/
def lines (text : String) : List (List (List Char)) :=
  ((splitAt '\n' text.toList).map fields).filter (!·.isEmpty)

def number (field : List Char) : Scalar :=
  match Numeral.read? (String.ofList field) with
  | some numeral => .real numeral.toFloat
  | none => .real Binary64.nan

/-- The numbers of a line. -/
def row (columns : Nat) (line : List (List Char)) : Fin columns → Scalar := fun column =>
  number (line.getD column [])

/-- All lines have to have as many fields as the first one. At least two lines and two columns make
a table. -/
def cells : Reader Scalar := fun text =>
  match lines text with
  | first :: second :: rest =>
    if (second :: rest).all (·.length == first.length) then
      if first.length = 1 then .ok .flat
      else .ok (.table first.length ((first :: second :: rest).map (row first.length)))
    else .error .noValue
  | _ => .ok .flat

end QuantumResources.Decoder.Csv
