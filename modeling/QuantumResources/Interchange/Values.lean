import QuantumResources.Json
import QuantumResources.Number.Arithmetic

/-! Numbers and lists as JSON.

Doubles are written in scientific notation with ten digits, decimals with forty behind a letter.
A value that cannot be read is refused with a text. -/

namespace QuantumResources.Interchange

def specialTexts : Digits.SpecialTexts where
  zero _ := "0"
  infinite negative := if negative then "-inf" else "inf"
  nan := "nan"

def floatText (x : Float) : String := Digits.scientificDouble specialTexts 10 x

def ofFloat (x : Float) : Json := .string (floatText x)

def decimalText : Decimal → String
  | .nan signaling => if signaling then "DsNaN" else "DNaN"
  | .infinite negative => if negative then "D-Infinity" else "DInfinity"
  | .finite negative coefficient power =>
    if coefficient = 0 then "D0"
    else
      let rounded := Rounding.toSignificant 40 coefficient 1
      let leading := rounded.2 + power + 39
      "D" ++ Digits.withSign negative
        (Digits.pointed (Digits.ofNat rounded.1) ++ "e" ++ Digits.signedExponent 1 leading)

def ofScalar : Scalar → Json
  | .whole n => .int n
  | .flag b => .bool b
  | .real x => ofFloat x
  | .complex re im => .object [("re", ofFloat re), ("im", ofFloat im)]
  | .decimal d => .string (decimalText d)
  | .text t => .string t
  | .unset => .null

def ofOption {β : Type} (encode : β → Json) : Option β → Json
  | some value => encode value
  | none => .null

def ofList {β : Type} (encode : β → Json) (items : List β) : Json := .list (items.map encode)

def ofInts (items : List Int) : Json := ofList .int items

def ofInt (n : Int) : Json := .int n

abbrev Decoded (β : Type) := Except String β

def need (key : String) (j : Json) : Decoded Json :=
  match j.field? key with
  | some value => .ok value
  | none => .error ("missing field " ++ key)

def has (key : String) (j : Json) : Bool := (j.field? key).isSome

def getString (j : Json) : Decoded String :=
  match j with
  | .string text => .ok text
  | _ => .error "not a string"

def getInt (j : Json) : Decoded Int :=
  match j with
  | .int n => .ok n
  | .bool b => .ok (if b then 1 else 0)
  | _ => .error "not an integer"

def getBool (j : Json) : Decoded Bool :=
  match j with
  | .bool b => .ok b
  | _ => .error "not a flag"

def getList (j : Json) : Decoded (List Json) :=
  match j with
  | .list items => .ok items
  | _ => .error "not a list"

def getFields (j : Json) : Decoded (List (String × Json)) :=
  match j with
  | .object fields => .ok fields
  | _ => .error "not an object"

def getInts (j : Json) : Decoded (List Int) := do (← getList j).mapM getInt

def getStrings (j : Json) : Decoded (List String) := do (← getList j).mapM getString

/-- A number of any kind, or a value that stands where a number is expected. -/
def getScalar (j : Json) : Decoded Scalar :=
  match j with
  | .null => .ok .unset
  | .bool b => .ok (.flag b)
  | .int n => .ok (.whole n)
  | .real x => .ok (.real x)
  | .string text => .ok (.text text)
  | .object [("float", .string text)] =>
    match Numeral.read? text with
    | some numeral => .ok (.real numeral.toFloat)
    | none => .error "not a float"
  | .object [("dec", .string text)] =>
    match Numeral.readDecimal? text with
    | some numeral => .ok (.decimal numeral.toDecimal)
    | none => .error "not a decimal"
  | _ => .error "not a scalar"

def getScalars (j : Json) : Decoded (List Scalar) := do (← getList j).mapM getScalar

def field {β : Type} (decode : Json → Decoded β) (key : String) (j : Json) : Decoded β := do
  decode (← need key j)

/-- An absent field takes a default. -/
def fieldOr {β : Type} (default : β) (decode : Json → Decoded β) (key : String) (j : Json) :
    Decoded β :=
  match j.field? key with
  | some value => decode value
  | none => .ok default

/-- An absent field or a null is nothing. -/
def optional {β : Type} (decode : Json → Decoded β) (key : String) (j : Json) :
    Decoded (Option β) :=
  match j.field? key with
  | some .null | none => .ok none
  | some value => (decode value).map some

end QuantumResources.Interchange
