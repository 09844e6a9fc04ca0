import UpgradeSafety.Main
import UpgradeSafety.Proofs.Chain.Additions
import UpgradeSafety.Proofs.Chain.Coverage
import UpgradeSafety.Proofs.Chain.Replies
import UpgradeSafety.Proofs.Chain.Unclear
import UpgradeSafety.Proofs.Diff.Exchange
import UpgradeSafety.Proofs.Diff.Gaps
import UpgradeSafety.Proofs.Diff.Lookups
import UpgradeSafety.Proofs.Diff.Messages
import UpgradeSafety.Proofs.Diff.Nesting
import UpgradeSafety.Proofs.Diff.Rearrangement
import UpgradeSafety.Proofs.Diff.Recompilation
import UpgradeSafety.Proofs.Diff.Regions
import UpgradeSafety.Proofs.Diff.Relabelling
import UpgradeSafety.Proofs.Diff.Renumbering
import UpgradeSafety.Proofs.Diff.Retyping
import UpgradeSafety.Proofs.Footprint.Overlaps
import UpgradeSafety.Proofs.Session.Inputs
import UpgradeSafety.Proofs.Session.Malformed
import UpgradeSafety.Proofs.Session.Verdict
import UpgradeSafety.Proofs.Footprint.Completeness
import UpgradeSafety.Proofs.Layout.Acceptance
import UpgradeSafety.Proofs.Number.Spelling
import UpgradeSafety.Proofs.Layout.Respelling
import UpgradeSafety.Proofs.Chain.Spelling
import UpgradeSafety.Proofs.Chain.Accounted
import UpgradeSafety.Proofs.Chain.Attempts
import UpgradeSafety.Proofs.Diagnostic.Tokens
import UpgradeSafety.Proofs.Footprint.Coordinates
import UpgradeSafety.Proofs.Layout.TypeNumbers
import UpgradeSafety.Proofs.Settings.Merging
import UpgradeSafety.Proofs.Footprint.Termination
