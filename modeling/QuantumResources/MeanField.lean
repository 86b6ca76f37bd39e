import QuantumResources.Engine.Dialogue
import QuantumResources.Molecule
import QuantumResources.Record

/-! Mean fields of molecules and the Hamiltonians of their active spaces, as engines compute
them. -/

namespace QuantumResources.MeanField

open Dialogue

/-- The molecule as the engine knows it. -/
def molecule (molecule : Molecule) : Dialogue Datum := do
  let made ← ask "pyscf.gto.Mole"
  setProperty made "atom" molecule.geometry
  setProperty made "basis" molecule.basis
  let spin ← Scalar.sub (← molecule.multiplicity.number) (.whole 1)
  setProperty made "spin" (.scalar spin)
  setProperty made "charge" molecule.charge
  setProperty made "symmetry" (.flag false)
  let _ ← method made "build"
  return made

/-- A client of the tracking server, and the run that it has opened in an experiment. -/
def trackedRun (experiment workspace : Datum) : Dialogue (Datum × Datum) := do
  let address ← ask "orquestra.sdk.mlflow.get_tracking_uri" [] [("workspace_id", workspace)]
  let client ← ask "mlflow.MlflowClient" [] [("tracking_uri", address)]
  let find : Dialogue Datum := method client "get_experiment_by_name" [] [("name", experiment)]
  let found ← find
  let found ←
    if found.isUnset then do
      let _ ← method client "create_experiment" [experiment]
      find
    else pure found
  let run ← method client "create_run" [← property found "experiment_id"]
  return (client, ← property (← property run "info") "run_id")

/-- Fields as a record, in which inner records are branches. -/
def recordOf : List (String × Datum) → Record Datum
  | [] => .nil
  | (key, .record inner) :: rest => .branch key (recordOf inner) (recordOf rest)
  | (key, value) :: rest => .leaf key value (recordOf rest)

/-- The options as fields. -/
def optionFields : Datum → Except Failure Options
  | .record fields => .ok fields
  | datum => if datum.isUnset then .ok [] else .error .wrongKind

/-- Opens a run for the task, tells it what is calculated and gives the options that report to
it. -/
def track (task : MoleculeTask) (options : Options) : Dialogue Options := do
  if task.workspace.isUnset then failed .workspaceNeeded
  else
    match ← ask "orquestra.sdk.mlflow.get_tracking_token" with
    | .scalar (.text token) => publish token (done ())
    | _ => failed .wrongKind
    if options.any (·.1 == "callback") then failed .callbackTaken
    else
      let (client, run) ← trackedRun task.experiment task.workspace
      let parameters := (recordOf task.molecule.fields).flatten ++
        (recordOf task.space.fields).flatten
      parameters.forM fun (key, value) => do
        let _ ← method client "log_param" [run, .text key, value]
      return options ++ [("callback", .thing "function")]

/-- Restricts a mean field to the orbitals that overlap with atomic ones. -/
def project (field orbitals minimalBasis : Datum) : Dialogue Datum := do
  setProperty field "verbose" (.whole 4)
  let stable ← ask "openfermion.resource_estimates.molecule.stability" [field]
  let localized ← ask "openfermion.resource_estimates.molecule.localize" [stable]
    [("loc_type", .text "pm")]
  ask "openfermion.resource_estimates.molecule.avas_active_space" [localized]
    [("ao_list", orbitals), ("minao", minimalBasis)]

/-- The columns of a matrix without the last ones. -/
def withoutLast (count : Nat) : Datum → Except Failure Datum
  | .array values =>
    match values.shape with
    | rows :: columns :: rest => .ok (.array (.generate (rows :: (columns - count) :: rest)
        fun index => values.getD index 0.0))
    | _ => .error .indexOutOfRange
  | _ => .error .wrongKind

/-- The correlation by which natural orbitals are found, with some orbitals frozen. -/
def correlation (space : ActiveSpace) (field : Datum) : Dialogue Datum := do
  let made ← ask "pyscf.mp.MP2" [field]
  if !(← space.freezeCore.isNothing) then method made "set_frozen"
  else if !(← space.occupied.isNothing) then method made "set" [] [("frozen", space.occupied)]
  else return made

/-- Leaves out natural orbitals. Both the molecule and its mean field change. -/
def truncate (space : ActiveSpace) (molecule field : Datum) : Dialogue Unit := do
  space.requireTruncatable (← property molecule "multiplicity")
  let correlated ← correlation space field
  setProperty correlated "verbose" (.whole 4)
  let _ ← method (← method correlated "density_fit") "run"
  let reply ← method correlated "make_fno"
    [space.keptThreshold, space.keptPercentage, space.keptCount]
  let (frozen, coefficients) ← reply.pair
  let count ← frozen.length
  let kept ← if count = 0 then pure coefficients else withoutLast count coefficients
  setProperty field "mo_coeff" kept
  let shape ← property (← property field "mo_coeff") "shape"
  setProperty molecule "nao" (← shape.item 1)
  say ("Number of FNOs:  " ++ Digits.ofNat count ++ "\n")
  let size ← (← property molecule "nao").number
  say ("Number of orbitals after truncation with FNO: " ++ size.display ++ "\n")

/-- The molecule and its mean field, restricted to the active space. -/
def run (task : MoleculeTask) : Dialogue (Datum × Datum) := do
  let molecule ← molecule task.molecule
  let kind := if task.molecule.multiplicity.isOne then "pyscf.scf.RHF" else "pyscf.scf.ROHF"
  let field ← ask kind [molecule]
  setProperty field "max_memory" (.real 1e6)
  let options ← optionFields task.options
  let options ← if task.experiment.isUnset then pure options else track task options
  let _ ← method field "run" [] options
  if ← (← property field "converged").isNothing then failed .meanFieldDiverged
  else
    let space := task.space
    let (molecule, field) ←
      if ← space.isProjected then do
        (← project field space.atomicOrbitals space.minimalBasis).pair
      else pure (molecule, field)
    if ← space.isTruncated then truncate space molecule field
    return (molecule, field)

/-- The mean field alone. -/
def object (task : MoleculeTask) : Dialogue Datum := do
  task.space.requireWhole
  return (← run task).2

/-- An array of doubles. -/
def asDoubles (datum : Datum) : Dialogue Datum :=
  match datum with
  | .array _ => done datum
  | _ => method datum "astype" [.thing "type"]

/-- Fills in what the mean field tells about the molecule. -/
def fill (data molecule field : Datum) : Dialogue Unit := do
  let orbitals ← (← property molecule "nao").toWhole
  setProperty data "n_orbitals" (.whole orbitals)
  setProperty data "n_qubits" (.whole (2 * orbitals))
  let repulsion ← (← method molecule "energy_nuc").toReal
  setProperty data "nuclear_repulsion" (.real repulsion)
  let energy ← (← property field "e_tot").toReal
  setProperty data "hf_energy" (.real energy)
  setProperty data "_pyscf_data" (.record [("mol", molecule), ("scf", field)])
  setProperty data "canonical_orbitals" (← asDoubles (← property field "mo_coeff"))
  setProperty data "orbital_energies" (← asDoubles (← property field "mo_energy"))
  let reply ← ask "openfermionpyscf._run_pyscf.compute_integrals"
    [← property field "_eri", field]
  let (oneBody, twoBody) ← reply.pair
  setProperty data "one_body_integrals" oneBody
  setProperty data "two_body_integrals" twoBody
  setProperty data "overlap_integrals" (← method field "get_ovlp")

/-- The orbitals that are taken to be occupied: those of the frozen core if there are any. -/
def occupied (space : ActiveSpace) (field : Datum) : Dialogue Datum := do
  if ← space.freezeCore.isNothing then return space.occupied
  let frozen ← property (← method (← ask "pyscf.mp.MP2" [field]) "set_frozen") "frozen"
  let count ← frozen.number
  if ← Scalar.lt (.whole 0) count then
    match count.whole? with
    | some n => return .list ((List.range n.toNat).map fun (i : Nat) => .whole i)
    | none => failed .wrongKind
  else return space.occupied

/-- The Hamiltonian of the active space. -/
def hamiltonian (task : MoleculeTask) : Dialogue Datum := do
  let data ← ask "openfermion.MolecularData" [] task.molecule.fields
  let (molecule, field) ← run task
  fill data molecule field
  let occupied ← occupied task.space field
  method data "get_molecular_hamiltonian" []
    [("occupied_indices", occupied), ("active_indices", task.space.active)]

end QuantumResources.MeanField
