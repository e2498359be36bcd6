import Marginalia.Finding
import Marginalia.Main
import Marginalia.Proofs.Cli.Newlines
import Marginalia.Proofs.Cli.Pointing
import Marginalia.Proofs.Covering
import Marginalia.Proofs.Erasing
import Marginalia.Proofs.Finding.Account
import Marginalia.Proofs.Finding.Spot
import Marginalia.Proofs.Gutter
import Marginalia.Proofs.Joining.Seam
import Marginalia.Proofs.Joining.Sums
import Marginalia.Proofs.Joining.TextRow
import Marginalia.Proofs.Ownership
import Marginalia.Proofs.Reordering
import Marginalia.Proofs.Session.BuildOrder
import Marginalia.Proofs.Session.Building
import Marginalia.Proofs.Session.Growth
import Marginalia.Proofs.Session.Lines
import Marginalia.Proofs.Session.Refusal
import Marginalia.Proofs.Source.Excerpt
import Marginalia.Proofs.Source.Lines
import Marginalia.Proofs.Source.Positions
import Marginalia.Proofs.TextRow
import Marginalia.Proofs.UnderlineRow
import Marginalia.Proofs.Workspace.Ledger
import Marginalia.Session.Step
