import StateModel.Syntax.Equality
import StateModel.Value.Text
import StateModel.Value.Equality
import StateModel.Prelude
import StateModel.Proofs.InStep
import StateModel.Proofs.Frames
import StateModel.Proofs.SessionRuns
import StateModel.Proofs.Values
import StateModel.Proofs.Policies
import StateModel.Proofs.Ledger
import StateModel.Proofs.Locality
import StateModel.Proofs.Rendering
import StateModel.Proofs.Shapes
import StateModel.Proofs.TypeNames
import StateModel.Proofs.Reaching
import StateModel.Proofs.Renumbering
import StateModel.Proofs.Twins
import StateModel.Proofs.Isolation
import StateModel.Proofs.Acceptance
import StateModel.Proofs.Effects
import StateModel.Proofs.LoadFaults
import StateModel.Proofs.Forwarding
import StateModel.Proofs.Observation
import StateModel.Proofs.Prelude
import StateModel.Proofs.Unplaced
import StateModel.Proofs.Places
import StateModel.Proofs.Simulation
import StateModel.Proofs.Registration
import StateModel.Proofs.Assignment
import StateModel.Proofs.Commutation
import StateModel.Proofs.NameOrder
import StateModel.Proofs.Grammar
import StateModel.Proofs.Indexing
import StateModel.Proofs.Covering
