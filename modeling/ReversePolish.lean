import ReversePolish.Conversion.Discipline
import ReversePolish.Session.History
import ReversePolish.Conversion.Replay
import ReversePolish.Conversion.Transcript
import ReversePolish.Conversion.Rescan
import ReversePolish.Conversion.Trajectory
import ReversePolish.Bracketed
import ReversePolish.Expr.Grammar
import ReversePolish.Token.Layout
import ReversePolish.Token.Position
import ReversePolish.Token.Placement
import ReversePolish.Symmetry.Exchange
import ReversePolish.Symmetry.Renaming
import ReversePolish.Proofs.Scanning
import ReversePolish.Proofs.TokenRun
import ReversePolish.Proofs.Derivation
import ReversePolish.Proofs.FirstFault
import ReversePolish.Proofs.Bracketed
import ReversePolish.Proofs.Image
import ReversePolish.Proofs.Placement
import ReversePolish.Proofs.Conservation
import ReversePolish.Proofs.Segmentation
import ReversePolish.Proofs.Layout
import ReversePolish.Proofs.Reading
import ReversePolish.Proofs.Tracing
import ReversePolish.Proofs.Validators
import ReversePolish.Proofs.Composition
import ReversePolish.Proofs.Relabelling
import ReversePolish.Proofs.Renaming
import ReversePolish.Proofs.Discipline
import ReversePolish.Proofs.Message
import ReversePolish.Proofs.Exchange
import ReversePolish.Proofs.Lookahead
import ReversePolish.Proofs.Duration
import ReversePolish.Proofs.Parentheses
import ReversePolish.Proofs.Printing
import ReversePolish.Proofs.Reconversion
import ReversePolish.Proofs.Blocks
import ReversePolish.Proofs.Sessions
import ReversePolish.Proofs.Locality
