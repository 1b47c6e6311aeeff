import ModSplice.Main
import ModSplice.Proofs.Concatenation
import ModSplice.Proofs.Pipeline
import ModSplice.Proofs.Replacement
import ModSplice.Splice.Session
import ModSplice.Proofs.Forms
import ModSplice.Proofs.Selection
import ModSplice.Proofs.LeadingComment
import ModSplice.Proofs.Hanging
import ModSplice.Proofs.VisitOrder
import ModSplice.Proofs.JsonText
import ModSplice.Proofs.Overlap
import ModSplice.Proofs.FirstFault
import ModSplice.Proofs.ReadBack
import ModSplice.Proofs.TemporaryNames
import ModSplice.Proofs.Handover
import ModSplice.Proofs.Prediction
import ModSplice.Proofs.OwnText
import ModSplice.Proofs.Blanking
import ModSplice.Proofs.PathLiteral
import ModSplice.Proofs.FormsApart
import ModSplice.Proofs.PlainElements
import ModSplice.Proofs.RegExpLiteral
import ModSplice.Proofs.Recording
import ModSplice.Proofs.Erasure
import ModSplice.Proofs.Numbering
import ModSplice.Proofs.ListedNames
import ModSplice.Proofs.Positions
import ModSplice.Proofs.InBounds
