import ChipEight.Session
import ChipEight.CommandLine.Run
import ChipEight.Main
import ChipEight.Proofs.Encoding.Unambiguous
import ChipEight.Proofs.Encoding.Truncation
import ChipEight.Proofs.Passes.TwoPassAgreement
import ChipEight.Proofs.Passes.Acceptance
import ChipEight.Proofs.Passes.Relocation
import ChipEight.Proofs.Passes.Concatenation
import ChipEight.Proofs.Passes.WarningFree
import ChipEight.Proofs.Session.History
import ChipEight.Proofs.Listing.ReadBack
import ChipEight.Proofs.Passes.DeadLabels
import ChipEight.Proofs.Text.Capitals
import ChipEight.Proofs.Text.Comments
import ChipEight.Proofs.Encoding.Spelling
import ChipEight.Proofs.Passes.LabelElimination
import ChipEight.Proofs.Passes.LineGists
import ChipEight.Proofs.Passes.Restyling
import ChipEight.Proofs.Disk.Places
import ChipEight.Proofs.CommandLine.Sinks
import ChipEight.Proofs.CommandLine.Courses
import ChipEight.Proofs.CommandLine.UntouchedFiles
import ChipEight.Proofs.Passes.LineEnds
import ChipEight.Proofs.CommandLine.Delivery
import ChipEight.Proofs.CommandLine.ExitStatus
import ChipEight.Proofs.CommandLine.LogFiles
import ChipEight.Proofs.Encoding.ShapeFit
import ChipEight.Proofs.Encoding.FormChoice
import ChipEight.Proofs.Encoding.Reprint
import ChipEight.Proofs.Passes.LabelNames
import ChipEight.Proofs.Passes.Redefinitions
import ChipEight.Proofs.Passes.InPlaceEdit
import ChipEight.Proofs.Text.Numerals
import ChipEight.Proofs.CommandLine.Origins
import ChipEight.Proofs.Encoding.OperandNormalForm
import ChipEight.Proofs.Passes.CanonicalLines
