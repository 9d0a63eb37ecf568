import ScalableCongestion.Main
import ScalableCongestion.Proofs.Binary64.Arithmetic
import ScalableCongestion.Proofs.Binary64.Identity
import ScalableCongestion.Proofs.Binary64.Nearest
import ScalableCongestion.Proofs.Binary64.Operations
import ScalableCongestion.Proofs.Binary64.Packed
import ScalableCongestion.Proofs.Binary64.Scientific
import ScalableCongestion.Proofs.Binary64.Truncation
import ScalableCongestion.Proofs.Binary64.Unpacked
import ScalableCongestion.Proofs.Control.LossTarget
import ScalableCongestion.Proofs.Control.Prague
import ScalableCongestion.Proofs.Control.Reno
import ScalableCongestion.Proofs.Control.Window
import ScalableCongestion.Proofs.Decimal.Layout
import ScalableCongestion.Proofs.Decimal.Shortest
import ScalableCongestion.Proofs.DelayHistory
import ScalableCongestion.Proofs.EchoHistory
import ScalableCongestion.Proofs.EstimateIndependence
import ScalableCongestion.Proofs.EstimateRange
import ScalableCongestion.Proofs.Json.Deviation
import ScalableCongestion.Proofs.Json.Reread
import ScalableCongestion.Proofs.Json.RoundTrip
import ScalableCongestion.Proofs.LandingWindow
import ScalableCongestion.Proofs.LossResponse
import ScalableCongestion.Proofs.Marking.Estimator
import ScalableCongestion.Proofs.OptionGrammar
import ScalableCongestion.Proofs.RenoIndependence
import ScalableCongestion.Proofs.ReplayReports
import ScalableCongestion.Proofs.ReportDelivery
import ScalableCongestion.Proofs.SavedSettings
import ScalableCongestion.Proofs.SegmentCredit
import ScalableCongestion.Proofs.SettingPrecedence
import ScalableCongestion.Proofs.Settings.PlainKeys
import ScalableCongestion.Proofs.StagedReduction
import ScalableCongestion.Proofs.StepFrame
import ScalableCongestion.Proofs.WindowFloor
import ScalableCongestion.Proofs.DelayBounds
import ScalableCongestion.Proofs.Control.Growth
import ScalableCongestion.Proofs.WindowGrowth
import ScalableCongestion.Proofs.EstimateMonotone
import ScalableCongestion.Proofs.SplitAcknowledgement
import ScalableCongestion.Proofs.OptionCodec
import ScalableCongestion.Proofs.MarkingState
import ScalableCongestion.Proofs.RepeatedCuts
import ScalableCongestion.Proofs.LockedSettings
import ScalableCongestion.Proofs.RenoArithmetic
import ScalableCongestion.Proofs.SettingsAgreement
import ScalableCongestion.Proofs.OptionText
import ScalableCongestion.Proofs.ReportText
