import QuantumResources.Allocation
import QuantumResources.Allocation.Chart
import QuantumResources.Allocation.Table
import QuantumResources.Architecture
import QuantumResources.Binomial
import QuantumResources.Budget
import QuantumResources.Circuit
import QuantumResources.Circuit.Exchange
import QuantumResources.Circuit.Native
import QuantumResources.Circuit.Rules
import QuantumResources.CompiledProgram
import QuantumResources.Decoder
import QuantumResources.Decoder.Csv
import QuantumResources.EnergyEstimation
import QuantumResources.Engine.Datum
import QuantumResources.Engine.Dialogue
import QuantumResources.Engine.Script
import QuantumResources.Estimate
import QuantumResources.Estimate.GateCounts
import QuantumResources.Estimate.Graph
import QuantumResources.Factory
import QuantumResources.Factory.AutoCcz
import QuantumResources.Factory.Table
import QuantumResources.Failure
import QuantumResources.Graph
import QuantumResources.Graph.Compilers
import QuantumResources.Graph.MeasurementPlot
import QuantumResources.Graph.Scheduling
import QuantumResources.Graph.StatePlot
import QuantumResources.Hamiltonian.Arrays
import QuantumResources.Hamiltonian.Document
import QuantumResources.Hamiltonian.Quadratic
import QuantumResources.Hardware
import QuantumResources.Hardware.IonTrap
import QuantumResources.Integrals
import QuantumResources.Interchange.Conversations
import QuantumResources.Interchange.Graphs
import QuantumResources.Interchange.Models
import QuantumResources.Interchange.Programs
import QuantumResources.Interchange.Records
import QuantumResources.Interchange.Tensors
import QuantumResources.Interchange.Values
import QuantumResources.Json
import QuantumResources.Layout
import QuantumResources.Main
import QuantumResources.MeanField
import QuantumResources.Molecule
import QuantumResources.Number.Arithmetic
import QuantumResources.Number.Binary64
import QuantumResources.Number.Decimal
import QuantumResources.Number.Digits
import QuantumResources.Number.Eigenvalues
import QuantumResources.Number.Elementary
import QuantumResources.Number.LogGamma
import QuantumResources.Number.Numeral
import QuantumResources.Number.Rounding
import QuantumResources.Number.Scalar
import QuantumResources.Number.Summation
import QuantumResources.Packaging
import QuantumResources.Pauli
import QuantumResources.Pauli.EntanglingTable
import QuantumResources.PhaseEstimation
import QuantumResources.Program
import QuantumResources.Program.Compile
import QuantumResources.Program.Split
import QuantumResources.Progress
import QuantumResources.Proofs.Allocation.Combinations
import QuantumResources.Proofs.Allocation.InclusionExclusion
import QuantumResources.Proofs.Allocation.Records
import QuantumResources.Proofs.Allocation.Spending
import QuantumResources.Proofs.Architecture
import QuantumResources.Proofs.Circuit.Rules
import QuantumResources.Proofs.CompiledProgram
import QuantumResources.Proofs.Engine.Dialogue
import QuantumResources.Proofs.Estimate.ErrorBudget
import QuantumResources.Proofs.Estimate.GateCounts
import QuantumResources.Proofs.Factory
import QuantumResources.Proofs.Graph
import QuantumResources.Proofs.Graph.MeasurementPlot
import QuantumResources.Proofs.Number.Exact
import QuantumResources.Proofs.Program.Compile
import QuantumResources.Proofs.Program.Pieces
import QuantumResources.Proofs.Program.Run
import QuantumResources.Proofs.Program.SplitExact
import QuantumResources.Proofs.Program.SplitRuns
import QuantumResources.Proofs.Progress
import QuantumResources.Proofs.Run
import QuantumResources.Proofs.Schedule.ClosedForm
import QuantumResources.Proofs.Schedule.Layers
import QuantumResources.Proofs.Schedule.Rounds
import QuantumResources.Proofs.Sequence
import QuantumResources.Record
import QuantumResources.Run
import QuantumResources.Schedule
import QuantumResources.Sequence
import QuantumResources.SurfaceCode
import QuantumResources.Synthesis
import QuantumResources.Tensor
import QuantumResources.Timing
import QuantumResources.Tracking
import QuantumResources.Version
import QuantumResources.Proofs.Architecture.Space
import QuantumResources.Proofs.Schedule.Supply
import QuantumResources.Proofs.Schedule.WithoutFactory
import QuantumResources.Proofs.Factory.Charge
import QuantumResources.Proofs.Architecture.Tradeoff
import QuantumResources.Proofs.Allocation.Parallel
import QuantumResources.Proofs.Estimate.DecodingEnergy
import QuantumResources.Proofs.Circuit.Meaning
import QuantumResources.Proofs.Circuit.Matrices
import QuantumResources.Proofs.Circuit.Toffoli
import QuantumResources.Proofs.Circuit.Rotations
import QuantumResources.Proofs.Circuit.EulerAngles
import QuantumResources.Proofs.Decoder
import QuantumResources.Proofs.Number.Significant
import QuantumResources.Proofs.Synthesis
import QuantumResources.Proofs.Factory.Selection
import QuantumResources.Proofs.Hamiltonian.Quadratic
import QuantumResources.Proofs.Search
import QuantumResources.Proofs.Number.Lawful
import QuantumResources.Proofs.Architecture.LeastDistance
import QuantumResources.Proofs.Estimate.CheapestCandidate
import QuantumResources.Proofs.Program.Counts
import QuantumResources.Proofs.Program.TGates
import QuantumResources.Proofs.Number.Numerals
import QuantumResources.Proofs.Decoder.Tables
import QuantumResources.Proofs.Graph.Isolated
import QuantumResources.Proofs.Record
import QuantumResources.Proofs.Version
import QuantumResources.Proofs.Allocation.Chart
import QuantumResources.Proofs.Allocation.Interruption
import QuantumResources.Proofs.Binomial
import QuantumResources.Proofs.Hardware.IonTrap
import QuantumResources.Proofs.Synthesis.Monotone
import QuantumResources.Proofs.Schedule.Exhaustion
