/-
# `Cognos.Hal.TrustCalibration` — calibration events

The part of `trust_calibration.rs` that writes to the audit log: one line for each change
of a threshold.
-/
import Mathlib
import Cognos.Lib.Codecs

namespace Hal

/-- The distinct classes of action HAL can interrupt for. -/
inductive ActionClass
  | fileDelete
  | fileMove
  | packageInstall
  | appLaunch
  | systemConfig
  | networkChange
  | kernelAdjacent
  | aiGeneratedCode
  deriving DecidableEq, Repr

/-- `format!("{:?}", class)`. -/
def ActionClass.debug : ActionClass → String
  | .fileDelete => "FileDelete"
  | .fileMove => "FileMove"
  | .packageInstall => "PackageInstall"
  | .appLaunch => "AppLaunch"
  | .systemConfig => "SystemConfig"
  | .networkChange => "NetworkChange"
  | .kernelAdjacent => "KernelAdjacent"
  | .aiGeneratedCode => "AiGeneratedCode"

/-- User feedback on a HAL interrupt. -/
inductive Feedback
  | unnecessaryInterrupt
  | correctInterrupt
  | alwaysAskForThis
  deriving DecidableEq, Repr

/-- `format!("{:?}", feedback)`. -/
def Feedback.debug : Feedback → String
  | .unnecessaryInterrupt => "UnnecessaryInterrupt"
  | .correctInterrupt => "CorrectInterrupt"
  | .alwaysAskForThis => "AlwaysAskForThis"

/-- A single calibration change event, written to the audit log. -/
structure CalibrationEvent where
  timestamp : String
  actionClass : ActionClass
  feedback : Feedback
  oldThreshold : Float32
  newThreshold : Float32

/-- The members of the line, in the order of a `Map`. -/
def CalibrationEvent.members {Time : Type} (K : Codecs Time) (event : CalibrationEvent) :
    List (String × Option Json.Value) :=
  [("action", some (.str "threshold_adjusted")),
    ("action_class", some (.str event.actionClass.debug)),
    ("agent", some (.str "hal_calibration")), ("feedback", some (.str event.feedback.debug)),
    ("new_threshold", some (K.wide event.newThreshold)),
    ("old_threshold", some (K.wide event.oldThreshold)),
    ("outcome", some (.str "calibration_updated")), ("ts", some (.str event.timestamp))]

/-- The line `write_audit` appends. -/
def CalibrationEvent.line {Time : Type} (K : Codecs Time) (event : CalibrationEvent) : String :=
  (Json.record (event.members K)).print

end Hal
