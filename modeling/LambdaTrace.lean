import LambdaTrace.Macros.Archive
import LambdaTrace.Main
import LambdaTrace.Proofs.Macros.Changes
import LambdaTrace.Proofs.Macros.Ordering
import LambdaTrace.Proofs.Macros.Outermost
import LambdaTrace.Proofs.Macros.Traces
import LambdaTrace.Proofs.Matching.Wildcard
import LambdaTrace.Proofs.Nameless.Renaming
import LambdaTrace.Proofs.Reading.FirstBad
import LambdaTrace.Proofs.Reduction.Budget
import LambdaTrace.Proofs.Reduction.Frame
import LambdaTrace.Proofs.Reduction.Head
import LambdaTrace.Proofs.Reduction.Leftmost
import LambdaTrace.Proofs.Reduction.Order
import LambdaTrace.Proofs.Reduction.Standard
import LambdaTrace.Proofs.Reduction.Strong
import LambdaTrace.Proofs.Reduction.Termination
import LambdaTrace.Proofs.Reduction.Transparent
import LambdaTrace.Proofs.Reduction.Weak
import LambdaTrace.Proofs.Session.Guess
import LambdaTrace.Proofs.Session.Pending
import LambdaTrace.Proofs.Session.Stack
import LambdaTrace.Proofs.Sharing.Highlights
import LambdaTrace.Proofs.Shell.Display
import LambdaTrace.Proofs.Shell.Origin
import LambdaTrace.Proofs.Shell.Typing
import LambdaTrace.Proofs.Substitution.Shape
import LambdaTrace.Proofs.Substitution.Unextended
import LambdaTrace.Proofs.Text.Blocks
