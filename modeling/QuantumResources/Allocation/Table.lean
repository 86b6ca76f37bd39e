import QuantumResources.Allocation

/-! Allocations as text and as a table. -/

namespace QuantumResources.Allocation

/-! ## Text -/

def hexDigits (width n : Nat) : List Char :=
  let digits := Nat.toDigits 16 n
  List.replicate (width - digits.length) '0' ++ digits

/-- A character between quotes: the quote itself, the backslash and what cannot be seen are
escaped. -/
def escaped (quote c : Char) : List Char :=
  if c = quote ∨ c = '\\' then ['\\', c]
  else if c = '\n' then ['\\', 'n']
  else if c = '\r' then ['\\', 'r']
  else if c = '\t' then ['\\', 't']
  else if c.toNat < 32 ∨ (127 ≤ c.toNat ∧ c.toNat ≤ 160) ∨ c.toNat = 173 then
    ['\\', 'x'] ++ hexDigits 2 c.toNat
  else [c]

/-- Single quotes, unless the text has some and no double ones. -/
def quoted (text : String) : List Char :=
  let chars := text.toList
  let quote := if chars.contains '\'' && !chars.contains '"' then '"' else '\''
  quote :: chars.flatMap (escaped quote) ++ [quote]

/-- Takes every occurrence of a word out of a text, from the left. -/
def without (word : List Char) : Nat → List Char → List Char
  | 0, chars => chars
  | _ + 1, [] => []
  | fuel + 1, c :: rest =>
    if word.isPrefixOf (c :: rest) then without word fuel ((c :: rest).drop word.length)
    else c :: without word fuel rest

def comma : List (List Char) → List Char
  | [] => []
  | [only] => only
  | first :: rest => first ++ [',', ' '] ++ comma rest

/-- Combinations and amounts in braces. Parentheses, single quotes and one word are left out,
also inside names. -/
def text (allocation : Allocation Scalar) : String :=
  let entry (e : List String × Scalar) : List Char :=
    ['\x7b'] ++ comma (e.1.map quoted) ++ ['\x7d', ':', ' '] ++ e.2.display.toList
  let all := ['\x7b'] ++ comma (allocation.amounts.map entry) ++ ['\x7d']
  let kept := without "frozenset".toList (all.length + 1) all
  String.ofList (kept.filter fun c => c != '(' && c != ')' && c != '\'')

/-! ## Table -/

structure Table where
  columns : List String
  rows : List (List Scalar)

def isReal : Scalar → Bool
  | .real _ => true
  | _ => false

/-- Amounts of one column are of one kind: next to a double, whole numbers become doubles. -/
def uniform (amounts : List Scalar) : List Scalar :=
  if amounts.any isReal then
    amounts.map fun amount => (Scalar.toReal amount).toOption.getD amount
  else amounts

/-- The combinations in use. -/
def used (allocation : Allocation Scalar) : List (List String × Scalar) :=
  let entries := allocation.amounts.filter fun e => !e.2.eq (.whole 0)
  (entries.map (·.1)).zip (uniform (entries.map (·.2)))

/-- One row for every combination in use: whether each process takes part, and the amount. A
process named like the resource gives its column to the amount. -/
def table (allocation : Allocation Scalar) : Table :=
  let name := allocation.resource.name
  let processes := allocation.processTypes.eraseDups
  let columns := if processes.contains name then processes else processes ++ [name]
  let row (e : List String × Scalar) : List Scalar :=
    columns.map fun column => if column == name then e.2 else .flag (e.1.contains column)
  match allocation.used with
  | [] => ⟨[], []⟩
  | entries => ⟨columns, entries.map row⟩

end QuantumResources.Allocation
