import CircuitCloak.Decimal.Fixed
import CircuitCloak.Decimal.Numeral
import CircuitCloak.Circuit.Depth
import CircuitCloak.Circuit.Samples
import CircuitCloak.Qasm.Load
import CircuitCloak.Qasm.Writer
import CircuitCloak.Transform.Settings
import CircuitCloak.Evaluation.Validation
import CircuitCloak.Report.Export
import CircuitCloak.Main
import CircuitCloak.Proofs.UnitaryPreservation
import CircuitCloak.Proofs.Collapses
import CircuitCloak.Proofs.RoundTrip
import CircuitCloak.Proofs.EncapsulatedTexts
import CircuitCloak.Proofs.ExactAngles
import CircuitCloak.Proofs.Building
import CircuitCloak.Proofs.NewerDialect
import CircuitCloak.Proofs.BoundaryAnswers
import CircuitCloak.Proofs.InjectedPairs
import CircuitCloak.Proofs.JobLifecycle
import CircuitCloak.Proofs.EncapsulatedBodies
import CircuitCloak.Proofs.InjectionPasses
import CircuitCloak.Proofs.PaddedBodies
import CircuitCloak.Proofs.PrintedExpressions
import CircuitCloak.Proofs.GivenNames
import CircuitCloak.Proofs.UnfoldedCalls
import CircuitCloak.Proofs.RandomPrograms
import CircuitCloak.Proofs.GhzStates
import CircuitCloak.Proofs.Multisets
import CircuitCloak.Proofs.StatusChanges
import CircuitCloak.Proofs.RegisterLayout
import CircuitCloak.Proofs.RepeatedTrials
import CircuitCloak.Proofs.LeadingMinus
import CircuitCloak.Proofs.AcyclicDefinitions
import CircuitCloak.Proofs.DisjointGates
import CircuitCloak.Proofs.TokenLines
