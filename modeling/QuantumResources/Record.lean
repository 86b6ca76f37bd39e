/-! Nested records with named fields, and their flat form. -/

namespace QuantumResources

/-- Fields in order; a field holds a value or another record. -/
inductive Record (β : Type) where
  | nil
  | leaf (key : String) (value : β) (rest : Record β)
  | branch (key : String) (inner rest : Record β)

/-- What a field of a record holds. -/
inductive Field (β : Type) where
  | value (value : β)
  | record (inner : Record β)

namespace Record

variable {β : Type}

def ofFields : List (String × Field β) → Record β
  | [] => .nil
  | (key, .value value) :: rest => .leaf key value (ofFields rest)
  | (key, .record inner) :: rest => .branch key inner (ofFields rest)

/-- Sets a key. A key that is already there keeps its place. -/
def put (key : String) (value : β) : List (String × β) → List (String × β)
  | [] => [(key, value)]
  | entry :: rest =>
    if entry.1 = key then (key, value) :: rest else entry :: put key value rest

def under (key : String) (entry : String × β) : String × β := (key ++ "." ++ entry.1, entry.2)

def collect : Record β → List (String × β) → List (String × β)
  | .nil, found => found
  | .leaf key value rest, found => collect rest (put key value found)
  | .branch key inner rest, found =>
    let entries := (collect inner []).map (under key)
    collect rest (entries.foldl (fun all entry => put entry.1 entry.2 all) found)

/-- One entry for every value; its key is the path to the value, joined by points. -/
def flatten (record : Record β) : List (String × β) := collect record []

end Record

end QuantumResources
