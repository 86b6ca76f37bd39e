import QuantumResources.Allocation.Chart
import QuantumResources.Interchange.Values
import QuantumResources.Tracking

/-! Records, allocations and tracked values as JSON. -/

namespace QuantumResources.Interchange

def ofAllocation {α : Type} (encode : α → Json) (allocation : Allocation α) : Json :=
  let entries := allocation.amounts.map fun e => (e.1.mergeSort (fun a b => !(b < a)), e.2)
  let before (a b : List String × α) : Bool :=
    a.1.length < b.1.length || (a.1.length == b.1.length && !(b.1 < a.1))
  ofList (fun e => .list [ofList .string e.1, encode e.2]) (entries.mergeSort before)

def ofCycles : Allocation Scalar → Json := ofAllocation ofScalar

def ofReported : Reported → Json
  | .scalar value => ofScalar value
  | .sizes values => ofInts values
  | .allocation value => ofCycles value
  | .object kind => .string ("<" ++ kind ++ ">")

def recordFields : Record Reported → List (String × Json)
  | .nil => []
  | .leaf key value rest => (key, ofReported value) :: recordFields rest
  | .branch key inner rest => (key, .object (recordFields inner)) :: recordFields rest

def ofRecord (record : Record Reported) : Json := .object (recordFields record)

def ofEntries (entries : List (String × Reported)) : Json :=
  ofList (fun e => .list [.string e.1, ofReported e.2]) entries

def ofCall : Tracking.Call → Json
  | .parameter key value => .list [.string "log_param", .string key, ofReported value]
  | .parameters entries => .list [.string "log_params", ofEntries entries]
  | .metric key value => .list [.string "log_metric", .string key, ofReported value]

/-- A document as a record; the objects in it are records of their own. -/
def getRecord : List (String × Json) → Record Json
  | [] => .nil
  | (key, .object inner) :: rest => .branch key (getRecord inner) (getRecord rest)
  | (key, value) :: rest => .leaf key value (getRecord rest)

def ofTable (table : Allocation.Table) : Json :=
  .object [("columns", ofList .string table.columns),
    ("rows", ofList (ofList ofScalar) table.rows)]

def ofReal (x : Scalar) : Json :=
  match x.toReal with
  | .ok value => ofScalar value
  | .error _ => .null

def ofChart (chart : Allocation.Chart Scalar) : Json :=
  .object [("title", .string chart.title), ("xlabel", .string chart.horizontal),
    ("ylabel", .string chart.vertical), ("ticks", ofList .string chart.ticks),
    ("series", ofList (fun level => .list [.string (Digits.ofNat level.parallel),
      ofList ofReal level.heights, ofList ofReal level.bottoms]) chart.levels)]

end QuantumResources.Interchange
