import StackScript.CommandLine.Terminal
import StackScript.Host.Faulty
import StackScript.Host.Transcript
import StackScript.Machine.Effect
import StackScript.Main
import StackScript.Structured
import StackScript.Token.Spelling
import StackScript.Word.Layout
import StackScript.Proofs.Walk
import StackScript.Proofs.Progress
import StackScript.Proofs.Alignment
import StackScript.Proofs.AlignedWalk
import StackScript.Proofs.Composition
import StackScript.Proofs.Lines
import StackScript.Proofs.Places
import StackScript.Proofs.Relayout
import StackScript.Proofs.Evaluation
import StackScript.Proofs.Adequacy
import StackScript.Proofs.Operands
import StackScript.Proofs.Appending
import StackScript.Proofs.Numerals
import StackScript.Proofs.RoundTrip
import StackScript.Proofs.LabelTable
import StackScript.Proofs.Bounds
import StackScript.Proofs.Capacity
import StackScript.Proofs.Reach
import StackScript.Proofs.Input
import StackScript.Proofs.Locality
import StackScript.Proofs.Skipping
import StackScript.Proofs.Bindings
import StackScript.Proofs.Blame
import StackScript.Proofs.BlockEnds
import StackScript.Proofs.OperandStack
import StackScript.Proofs.Runs
import StackScript.Proofs.Rendering
import StackScript.Proofs.Ungluing
import StackScript.Proofs.Collapsing
import StackScript.Proofs.ReadingSteps
import StackScript.Proofs.TokenForms
import StackScript.Proofs.PlaceOrder
import StackScript.Proofs.WordsAlone
import StackScript.Proofs.Consumption
