import QuintupleMachine.Machine.Call
import QuintupleMachine.Main
import QuintupleMachine.Program.Folder
import QuintupleMachine.Proofs.Canonical.Viable
import QuintupleMachine.Proofs.CommandLine.Traced
import QuintupleMachine.Proofs.Description.Composition
import QuintupleMachine.Proofs.Description.Neighbours
import QuintupleMachine.Proofs.Description.NormalForm
import QuintupleMachine.Proofs.Description.Transcription
import QuintupleMachine.Proofs.Diagnosis.Cycle
import QuintupleMachine.Proofs.Diagnosis.Exactness
import QuintupleMachine.Proofs.Diagnosis.Pruning
import QuintupleMachine.Proofs.Diagnosis.Soundness
import QuintupleMachine.Proofs.Machine.Absorbing
import QuintupleMachine.Proofs.Machine.Oblivious
import QuintupleMachine.Proofs.Machine.Trajectory
import QuintupleMachine.Proofs.Machine.Walk
import QuintupleMachine.Proofs.Notations
import QuintupleMachine.Proofs.Program.File
import QuintupleMachine.Proofs.Program.Layout
import QuintupleMachine.Proofs.Program.Reloading
import QuintupleMachine.Proofs.Machine.Scanning
import QuintupleMachine.Proofs.Machine.Sequences
import QuintupleMachine.Proofs.Machine.OnePass
import QuintupleMachine.Proofs.Machine.Transduction
import QuintupleMachine.Proofs.Program.Catalogue
import QuintupleMachine.Proofs.Canonical.NormalForm
import QuintupleMachine.Proofs.Program.Folder
import QuintupleMachine.Proofs.Program.WrittenRun
import QuintupleMachine.Proofs.Canonical.Redefinitions
import QuintupleMachine.Proofs.CommandLine.Conversion
import QuintupleMachine.Proofs.Table.LastWins
import QuintupleMachine.Proofs.Description.Counting
