import QuantumResources.Engine.Datum

/-! Molecules and the part of their orbitals that is looked at. -/

namespace QuantumResources

/-- Options by name. -/
abbrev Options := List (String × Datum)

namespace Options

/-- Stops at an option that is not among the known ones. -/
def requireKnown (known : List String) (options : Options) : Except Failure Unit :=
  if options.all (known.contains ·.1) then .ok () else .error .wrongKind

def optional (options : Options) (key : String) : Datum := (options.lookup key).getD .unset

def required (options : Options) (key : String) : Except Failure Datum :=
  match options.lookup key with
  | some value => .ok value
  | none => .error .wrongKind

end Options

structure Molecule where
  geometry : Datum
  basis : Datum
  multiplicity : Datum
  charge : Datum

def Molecule.fields (molecule : Molecule) : Options :=
  [("geometry", molecule.geometry), ("basis", molecule.basis),
    ("multiplicity", molecule.multiplicity), ("charge", molecule.charge)]

/-- How the orbitals are restricted: to those that atomic orbitals overlap, to given ones, or by
leaving out natural orbitals with little occupation. -/
structure ActiveSpace where
  atomicOrbitals : Datum := .unset
  minimalBasis : Datum := .unset
  occupied : Datum := .unset
  active : Datum := .unset
  freezeCore : Datum := .unset
  keptPercentage : Datum := .unset
  keptThreshold : Datum := .unset
  keptCount : Datum := .unset

namespace ActiveSpace

def keys : List String :=
  ["avas_atomic_orbitals", "avas_minao", "occupied_indices", "active_indices", "freeze_core",
    "fno_percentage_occupation_number", "fno_threshold", "fno_n_virtual_natural_orbitals"]

def values (space : ActiveSpace) : List Datum :=
  [space.atomicOrbitals, space.minimalBasis, space.occupied, space.active, space.freezeCore,
    space.keptPercentage, space.keptThreshold, space.keptCount]

def fields (space : ActiveSpace) : Options := keys.zip space.values

def ofOptions (options : Options) : ActiveSpace where
  atomicOrbitals := options.optional "avas_atomic_orbitals"
  minimalBasis := options.optional "avas_minao"
  occupied := options.optional "occupied_indices"
  active := options.optional "active_indices"
  freezeCore := options.optional "freeze_core"
  keptPercentage := options.optional "fno_percentage_occupation_number"
  keptThreshold := options.optional "fno_threshold"
  keptCount := options.optional "fno_n_virtual_natural_orbitals"

/-- Options of an active space and no others. -/
def ofOptions? (options : Options) : Except Failure ActiveSpace := do
  options.requireKnown keys
  return ofOptions options

/-- Whether any of some values is something. -/
def anyGiven : List Datum → Except Failure Bool
  | [] => .ok false
  | value :: rest => do if ← value.isNothing then anyGiven rest else return true

/-- Whether orbitals are chosen by their overlap with atomic ones. -/
def isProjected (space : ActiveSpace) : Except Failure Bool :=
  anyGiven [space.atomicOrbitals, space.minimalBasis]

/-- Whether natural orbitals are left out. -/
def isTruncated (space : ActiveSpace) : Except Failure Bool :=
  anyGiven [space.keptPercentage, space.keptThreshold, space.keptCount]

/-- A mean field by itself has no chosen or truncated orbitals. -/
def requireWhole (space : ActiveSpace) : Except Failure Unit := do
  if ← anyGiven [space.active, space.occupied, space.keptPercentage, space.keptThreshold,
      space.keptCount] then
    throw .meanFieldUnsupported

/-- Natural orbitals are known for closed shells, and orbitals are frozen in one way only. -/
def requireTruncatable (space : ActiveSpace) (multiplicity : Datum) : Except Failure Unit := do
  if !multiplicity.isOne then throw .openShellCorrelation
  if !(← space.freezeCore.isNothing) then
    if !(← space.occupied.isNothing) then throw .frozenOrbitalsTwice

end ActiveSpace

/-- A molecule with everything that is said about its calculation. -/
structure MoleculeTask where
  molecule : Molecule
  space : ActiveSpace := {}
  /-- Options for the mean field. -/
  options : Datum := .unset
  experiment : Datum := .unset
  workspace : Datum := .unset

namespace MoleculeTask

def runKeys : List String := ["scf_options", "mlflow_experiment_name", "orq_workspace_id"]

def ofMolecule (molecule : Molecule) (options : Options) : MoleculeTask where
  molecule := molecule
  space := .ofOptions options
  options := options.optional "scf_options"
  experiment := options.optional "mlflow_experiment_name"
  workspace := options.optional "orq_workspace_id"

def ofOptions (options : Options) : Except Failure MoleculeTask := do
  options.requireKnown (["geometry", "basis", "multiplicity", "charge"] ++ ActiveSpace.keys ++
    runKeys)
  let molecule : Molecule := ⟨← options.required "geometry", ← options.required "basis",
    ← options.required "multiplicity", ← options.required "charge"⟩
  return ofMolecule molecule options

def chainKeys : List String :=
  ["basis", "bond_distance", "active_indices", "occupied_indices", "avas_atomic_orbitals",
    "avas_minao"] ++ runKeys

/-- An atom at a point. -/
def atom (symbol : String) (x y z : Datum) : Datum := .list [.text symbol, .list [x, y, z]]

/-- Hydrogen atoms on a line. -/
def hydrogenChain (count : Datum) (options : Options) : Except Failure MoleculeTask := do
  options.requireKnown chainKeys
  let some size := (← count.number).whole? | throw .wrongKind
  let distance := (options.lookup "bond_distance").getD (.real 1.3)
  let atoms ← (List.range size.toNat).mapM fun (i : Nat) => do
    let height ← Scalar.mul (.whole i) (← distance.number)
    return atom "H" (.whole 0) (.whole 0) (.scalar height)
  let molecule : Molecule := {
    geometry := .list atoms
    basis := (options.lookup "basis").getD (.text "6-31g")
    multiplicity := .whole (size % 2 + 1)
    charge := .whole 0 }
  return ofMolecule molecule options

def water : MoleculeTask where
  molecule := {
    geometry := .list [atom "O" (.real 0.0) (.real (-0.075791844)) (.real 0.0),
      atom "H" (.real 0.866811829) (.real 0.601435779) (.real 0.0),
      atom "H" (.real (-0.866811829)) (.real 0.601435779) (.real 0.0)]
    basis := .text "6-31g"
    multiplicity := .whole 1
    charge := .whole 0 }
  space := {
    atomicOrbitals := .list (["H 1s", "O 2s", "O 2p", "O 3s", "O 3p"].map .text)
    minimalBasis := .text "STO-3G" }

/-- Three oxygen atoms in a triangle. -/
def ozoneGeometry : Datum :=
  let bond := 1.465
  let angle := 59.9 * (3.141592653589793 / 180.0)
  let x := bond * Float.sin (angle / 2.0)
  let y := bond * Float.cos (angle / 2.0)
  .list [atom "O" (.real x) (.real (-y / 2.0)) (.whole 0),
    atom "O" (.real (-x)) (.real (-y / 2.0)) (.whole 0),
    atom "O" (.whole 0) (.real (y / 2.0)) (.whole 0)]

def cyclicOzone : MoleculeTask where
  molecule := {
    geometry := ozoneGeometry
    basis := .text "cc-pvtz"
    multiplicity := .whole 3
    charge := .whole 0 }
  space := {
    occupied := .list ((List.range 3).map fun (i : Nat) => .whole i)
    active := .list ((List.range 12).map fun (i : Nat) => .whole (i + 3)) }

end MoleculeTask

end QuantumResources
