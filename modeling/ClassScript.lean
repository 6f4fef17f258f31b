import ClassScript.Build
import ClassScript.Instance
import ClassScript.Proofs.Execution.Step
import ClassScript.Proofs.Verification
import ClassScript.Regex.Engine
import ClassScript.Standard
import ClassScript.Proofs.Execution.Run
import ClassScript.Proofs.Execution.Soundness
import ClassScript.Proofs.Execution.Reachability
import ClassScript.Proofs.Simulation.Program
import ClassScript.Proofs.Truncation
import ClassScript.Proofs.Execution.Protection
import ClassScript.Proofs.Dispatch
import ClassScript.Proofs.Identity
import ClassScript.Proofs.Binding
import ClassScript.Proofs.Release.Session
import ClassScript.Proofs.Access.Readonly
import ClassScript.Proofs.Spelling.Source
import ClassScript.Proofs.Reorder.Module
import ClassScript.Proofs.Reorder.Relocation
import ClassScript.Proofs.Linkage
import ClassScript.Proofs.Nesting
import ClassScript.Proofs.Precedence.Exact
import ClassScript.Proofs.Folding.Agreement
import ClassScript.Proofs.Reorder.Image
import ClassScript.Proofs.Reorder.Session
import ClassScript.Proofs.Capacity.Module
import ClassScript.Proofs.Progress.Source
import ClassScript.Proofs.Tokens.Quotation
import ClassScript.Proofs.Numeral
import ClassScript.Proofs.Namespaces
import ClassScript.Proofs.ClassNames
import ClassScript.Proofs.Standard.Web
import ClassScript.Proofs.Standard.Positions
import ClassScript.Proofs.Standard.Entities
import ClassScript.Proofs.Standard.Integer
import ClassScript.Proofs.Standard.Paths
import ClassScript.Proofs.Surgery
