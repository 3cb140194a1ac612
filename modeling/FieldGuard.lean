import FieldGuard.Main
import FieldGuard.Proofs.Acceptance
import FieldGuard.Proofs.Hierarchy
import FieldGuard.Proofs.ModelDemands
import FieldGuard.PropertyInfo.Json
import FieldGuard.TypeModel.Json
import FieldGuard.Proofs.Balance
import FieldGuard.Proofs.WrittenPaths
import FieldGuard.Proofs.ExtractedConstraints
import FieldGuard.Proofs.Runs
import FieldGuard.Proofs.Configuration
import FieldGuard.Proofs.Rendering
import FieldGuard.Proofs.AttachedValidators
import FieldGuard.Proofs.GroupRuns
import FieldGuard.Proofs.RegistryRuns
import FieldGuard.Proofs.Withdrawal
import FieldGuard.Proofs.BorrowedChecks
import FieldGuard.Proofs.ControllerPlaces
import FieldGuard.Proofs.QueueRuns
import FieldGuard.Proofs.IdleControllers
import FieldGuard.Proofs.WholeBounds
import FieldGuard.Proofs.MergedBounds
import FieldGuard.Proofs.Verdict
import FieldGuard.Proofs.Decoding
import FieldGuard.Proofs.MergeLaws
import FieldGuard.Proofs.ObjectValidation
import FieldGuard.Proofs.BoundValues
import FieldGuard.Proofs.LastStep
import FieldGuard.Proofs.RelativePaths
import FieldGuard.Proofs.Targets
import FieldGuard.Proofs.Restrictions
import FieldGuard.Proofs.JoinTargets
import FieldGuard.Proofs.Nesting
import FieldGuard.Proofs.Precedence
import FieldGuard.Proofs.FailureText
import FieldGuard.Proofs.ComposedConstraints
import FieldGuard.Proofs.Unresolved
import FieldGuard.Proofs.ShorterTexts
import FieldGuard.Proofs.HookRounds
import FieldGuard.Proofs.ReversedScan
import FieldGuard.Proofs.OverrideOrder
