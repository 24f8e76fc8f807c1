import ChromeGcc.NetworkTypes
import Mathlib.Data.List.DropRight

/-! SendSideBandwidthEstimation: the sender's target rate, from the receiver's limit,
a delay-based limit and the loss reports. -/
namespace ChromeGcc
open FloatArith

/-- Conversion to uint8_t. -/
def toUint8 (n : Int) : Nat := (n % 256).toNat

def initialPacingRate : Int := 1000 * 500

def kBweIncreaseInterval : TimeDelta := .millis 1000
def kBweDecreaseInterval : TimeDelta := .millis 300
def kStartPhase : TimeDelta := .millis 2000
def kBweConverganceTime : TimeDelta := .millis 20000
def kLimitNumPackets : Int := 20
def kDefaultMaxBitrate : DataRate := .bitsPerSec 1000000000
def kLowBitrateLogPeriod : TimeDelta := .millis 10000
def kRtcEventLogPeriod : TimeDelta := .millis 5000
def kMaxRtcpFeedbackInterval : TimeDelta := .millis 5000
def kDefaultBitrateThreshold : DataRate := .zero

/-- The rates of kUmaRampupMetrics, in kbps. -/
def kUmaRampupMetrics : List Int := [500, 1000, 2000]

inductive UmaState where
  | kNoUpdate
  | kFirstDone
  | kDone
  deriving DecidableEq, Repr

section Doubles
variable (F : Type) [FloatArith F]

def kDefaultLowLossThreshold : F := narrow (lit 0.02)
def kDefaultHighLossThreshold : F := narrow (lit 0.1)

structure LinkCapacityTracker where
  capacityEstimateBps : F := ofInt 0
  lastLinkCapacityUpdate : Timestamp := .minusInfinity
  lastDelayBasedEstimate : DataRate := .plusInfinity

structure SendSideBandwidthEstimation where
  linkCapacity : LinkCapacityTracker F := {}
  minBitrateHistory : List (Timestamp × DataRate) := []
  lostPacketsSinceLastLossUpdate : Int := 0
  expectedPacketsSinceLastLossUpdate : Int := 0
  acknowledgedRate : Option DataRate := none
  currentTarget : DataRate := .bitsPerSec initialPacingRate
  lastLoggedTarget : DataRate := .zero
  minBitrateConfigured : DataRate := .bitsPerSec getMinBitrateBps
  maxBitrateConfigured : DataRate := kDefaultMaxBitrate
  lastLowBitrateLog : Timestamp := .minusInfinity
  hasDecreasedSinceLastFractionLoss : Bool := false
  lastLossFeedback : Timestamp := .minusInfinity
  lastLossPacketReport : Timestamp := .minusInfinity
  lastFractionLoss : Nat := 0
  lastLoggedFractionLoss : Nat := 0
  lastRoundTripTime : TimeDelta := .zero
  receiverLimit : DataRate := .plusInfinity
  delayBasedLimit : DataRate := .plusInfinity
  timeLastDecrease : Timestamp := .minusInfinity
  firstReportTime : Timestamp := .minusInfinity
  initiallyLostPackets : Int := 0
  bitrateAt2Seconds : DataRate := .zero
  umaUpdateState : UmaState := .kNoUpdate
  umaRttState : UmaState := .kNoUpdate
  rampupUmaStatsUpdated : List Bool := List.replicate kUmaRampupMetrics.length false
  lastRtcEventLog : Timestamp := .minusInfinity
  lowLossThreshold : F := kDefaultLowLossThreshold F
  highLossThreshold : F := kDefaultHighLossThreshold F
  bitrateThreshold : DataRate := kDefaultBitrateThreshold
  receiverLimitCapsOnly : Bool := true

end Doubles

namespace LinkCapacityTracker
variable {F : Type} [FloatArith F]

def updateDelayBasedEstimate (l : LinkCapacityTracker F) (atTime : Timestamp)
    (delayBasedBitrate : DataRate) : LinkCapacityTracker F :=
  let l :=
    if delayBasedBitrate < l.lastDelayBasedEstimate then
      { l with
        capacityEstimateBps := stdMin l.capacityEstimateBps delayBasedBitrate.toDouble
        lastLinkCapacityUpdate := atTime }
    else l
  { l with lastDelayBasedEstimate := delayBasedBitrate }

def onStartingRate (l : LinkCapacityTracker F) (startRate : DataRate) : LinkCapacityTracker F :=
  if l.lastLinkCapacityUpdate.isInfinite then { l with capacityEstimateBps := startRate.toDouble }
  else l

/-- The source's body is empty. -/
def onRateUpdate (l : LinkCapacityTracker F) (_acknowledged : Option DataRate) (_target : DataRate)
    (_atTime : Timestamp) : LinkCapacityTracker F := l

def onRttBackoff (l : LinkCapacityTracker F) (backoffRate : DataRate) (atTime : Timestamp) :
    LinkCapacityTracker F :=
  { l with
    capacityEstimateBps := stdMin l.capacityEstimateBps backoffRate.toDouble
    lastLinkCapacityUpdate := atTime }

def estimate (l : LinkCapacityTracker F) : DataRate := .fromDouble l.capacityEstimateBps

end LinkCapacityTracker

namespace SendSideBandwidthEstimation
variable {F : Type} [FloatArith F]

def getUpperLimit (e : SendSideBandwidthEstimation F) : DataRate :=
  min e.delayBasedLimit e.maxBitrateConfigured

def maybeLogLowBitrateWarning (e : SendSideBandwidthEstimation F) (_bitrate : DataRate)
    (atTime : Timestamp) : SendSideBandwidthEstimation F :=
  if atTime - e.lastLowBitrateLog > kLowBitrateLogPeriod then { e with lastLowBitrateLog := atTime }
  else e

def maybeLogLossBasedEvent (e : SendSideBandwidthEstimation F) (atTime : Timestamp) :
    SendSideBandwidthEstimation F :=
  if e.currentTarget ≠ e.lastLoggedTarget ∨ e.lastFractionLoss ≠ e.lastLoggedFractionLoss ∨
      atTime - e.lastRtcEventLog > kRtcEventLogPeriod then
    { e with
      lastLoggedFractionLoss := e.lastFractionLoss
      lastLoggedTarget := e.currentTarget
      lastRtcEventLog := atTime }
  else e

def updateTargetBitrate (e : SendSideBandwidthEstimation F) (newBitrate : DataRate)
    (atTime : Timestamp) : SendSideBandwidthEstimation F :=
  let newBitrate := min newBitrate e.getUpperLimit
  let (e, newBitrate) :=
    if newBitrate < e.minBitrateConfigured then
      (e.maybeLogLowBitrateWarning newBitrate atTime, e.minBitrateConfigured)
    else (e, newBitrate)
  let e := { e with currentTarget := newBitrate }
  let e := e.maybeLogLossBasedEvent atTime
  { e with linkCapacity := e.linkCapacity.onRateUpdate e.acknowledgedRate e.currentTarget atTime }

def applyTargetLimits (e : SendSideBandwidthEstimation F) (atTime : Timestamp) :
    SendSideBandwidthEstimation F := e.updateTargetBitrate e.currentTarget atTime

def onRouteChange (e : SendSideBandwidthEstimation F) : SendSideBandwidthEstimation F :=
  { e with
    lostPacketsSinceLastLossUpdate := 0
    expectedPacketsSinceLastLossUpdate := 0
    currentTarget := .zero
    minBitrateConfigured := .bitsPerSec getMinBitrateBps
    maxBitrateConfigured := kDefaultMaxBitrate
    lastLowBitrateLog := .minusInfinity
    hasDecreasedSinceLastFractionLoss := false
    lastLossFeedback := .minusInfinity
    lastLossPacketReport := .minusInfinity
    lastFractionLoss := 0
    lastLoggedFractionLoss := 0
    lastRoundTripTime := .zero
    receiverLimit := .plusInfinity
    delayBasedLimit := .plusInfinity
    timeLastDecrease := .minusInfinity
    firstReportTime := .minusInfinity
    initiallyLostPackets := 0
    bitrateAt2Seconds := .zero
    umaUpdateState := .kNoUpdate
    umaRttState := .kNoUpdate
    lastRtcEventLog := .minusInfinity }

def setMinMaxBitrate (e : SendSideBandwidthEstimation F) (minBitrate maxBitrate : DataRate) :
    SendSideBandwidthEstimation F :=
  let e := { e with minBitrateConfigured := max minBitrate getMinBitrate }
  if maxBitrate > .zero ∧ maxBitrate.isFinite then
    { e with maxBitrateConfigured := max e.minBitrateConfigured maxBitrate }
  else { e with maxBitrateConfigured := kDefaultMaxBitrate }

def setSendBitrate (e : SendSideBandwidthEstimation F) (bitrate : DataRate) (atTime : Timestamp) :
    SendSideBandwidthEstimation F :=
  let e := { e with delayBasedLimit := .plusInfinity }
  let e := e.updateTargetBitrate bitrate atTime
  { e with minBitrateHistory := [] }

def setBitrates (e : SendSideBandwidthEstimation F) (sendBitrate : Option DataRate)
    (minBitrate maxBitrate : DataRate) (atTime : Timestamp) : SendSideBandwidthEstimation F :=
  let e := e.setMinMaxBitrate minBitrate maxBitrate
  match sendBitrate with
  | none => e
  | some bitrate =>
    { e with linkCapacity := e.linkCapacity.onStartingRate bitrate }.setSendBitrate bitrate atTime

def targetRate (e : SendSideBandwidthEstimation F) : DataRate :=
  let target := e.currentTarget
  let target := if e.receiverLimitCapsOnly then min target e.receiverLimit else target
  max e.minBitrateConfigured target

def getEstimatedLinkCapacity (e : SendSideBandwidthEstimation F) : DataRate :=
  e.linkCapacity.estimate

def updateReceiverEstimate (e : SendSideBandwidthEstimation F) (atTime : Timestamp)
    (bandwidth : DataRate) : SendSideBandwidthEstimation F :=
  { e with receiverLimit := if bandwidth.isZero then .plusInfinity else bandwidth }.applyTargetLimits
    atTime

def updateDelayBasedEstimate (e : SendSideBandwidthEstimation F) (atTime : Timestamp)
    (bitrate : DataRate) : SendSideBandwidthEstimation F :=
  { e with
    linkCapacity := e.linkCapacity.updateDelayBasedEstimate atTime bitrate
    delayBasedLimit := if bitrate.isZero then .plusInfinity else bitrate }.applyTargetLimits atTime

def setAcknowledgedRate (e : SendSideBandwidthEstimation F) (acknowledgedRate : Option DataRate)
    (_atTime : Timestamp) : SendSideBandwidthEstimation F :=
  { e with acknowledgedRate := acknowledgedRate }

/-- The source's body is empty. -/
def incomingPacketFeedbackVector (e : SendSideBandwidthEstimation F)
    (_report : TransportPacketsFeedback) : SendSideBandwidthEstimation F := e

/-- The source's body is empty. -/
def updatePropagationRtt (e : SendSideBandwidthEstimation F) (_atTime : Timestamp)
    (_propagationRtt : TimeDelta) : SendSideBandwidthEstimation F := e

def isInStartPhase (e : SendSideBandwidthEstimation F) (atTime : Timestamp) : Bool :=
  e.firstReportTime.isInfinite || decide (atTime - e.firstReportTime < kStartPhase)

def updateRtt (e : SendSideBandwidthEstimation F) (rtt : TimeDelta) (atTime : Timestamp) :
    SendSideBandwidthEstimation F :=
  let e := if rtt > .zero then { e with lastRoundTripTime := rtt } else e
  if !e.isInStartPhase atTime && e.umaRttState = .kNoUpdate then { e with umaRttState := .kDone }
  else e

def updateUmaStatsPacketsLost (e : SendSideBandwidthEstimation F) (atTime : Timestamp)
    (packetsLost : Int) : SendSideBandwidthEstimation F :=
  let bitrateKbps : DataRate := .kilobitsPerSec ((e.currentTarget.bps + 500).tdiv 1000)
  let e := { e with
    rampupUmaStatsUpdated := e.rampupUmaStatsUpdated.zipWith
      (fun updated kbps => updated || decide (bitrateKbps.kbps ≥ kbps)) kUmaRampupMetrics }
  if e.isInStartPhase atTime then
    { e with initiallyLostPackets := toInt32 (e.initiallyLostPackets + packetsLost) }
  else if e.umaUpdateState = .kNoUpdate then
    { e with umaUpdateState := .kFirstDone, bitrateAt2Seconds := bitrateKbps }
  else if e.umaUpdateState = .kFirstDone ∧ atTime - e.firstReportTime ≥ kBweConverganceTime then
    { e with umaUpdateState := .kDone }
  else e

/-- A history entry older than the increase interval, less the millisecond of its precision. -/
def historyExpired (atTime entryTime : Timestamp) : Bool :=
  decide ((atTime - entryTime : TimeDelta) + TimeDelta.millis 1 > kBweIncreaseInterval)

/-- The front of the history comes first in the list. -/
def updateMinHistory (e : SendSideBandwidthEstimation F) (atTime : Timestamp) :
    SendSideBandwidthEstimation F :=
  let history := e.minBitrateHistory.dropWhile fun h => historyExpired atTime h.1
  let history := history.rdropWhile fun h => decide (e.currentTarget ≤ h.2)
  { e with minBitrateHistory := history ++ [(atTime, e.currentTarget)] }

/-- The rate at the front; UpdateEstimate reads it only after a push. -/
def minHistoryFront (e : SendSideBandwidthEstimation F) : DataRate :=
  match e.minBitrateHistory with
  | [] => .zero
  | h :: _ => h.2

/-- Eight percent above a rate, plus one kbps. -/
def increasedBitrate (F : Type) [FloatArith F] (rate : DataRate) : DataRate :=
  (.fromDouble (ofInt rate.bps * lit 1.08 + lit 0.5 : F) : DataRate) + DataRate.bitsPerSec 1000

/-- The rate after a reported loss, of 256 parts in all. -/
def decreasedBitrate (F : Type) [FloatArith F] (rate : DataRate) (fractionLoss : Nat) : DataRate :=
  .fromDouble (ofInt rate.bps * ofInt (512 - (fractionLoss : Int)) / lit 512 : F)

def updateEstimate (e : SendSideBandwidthEstimation F) (atTime : Timestamp) :
    SendSideBandwidthEstimation F :=
  let startBitrate :=
    let newBitrate := e.currentTarget
    let newBitrate := if e.receiverLimit.isFinite then max e.receiverLimit newBitrate else newBitrate
    if e.delayBasedLimit.isFinite then max e.delayBasedLimit newBitrate else newBitrate
  if e.lastFractionLoss = 0 ∧ e.isInStartPhase atTime ∧ startBitrate ≠ e.currentTarget then
    { e with minBitrateHistory := [(atTime, e.currentTarget)] }.updateTargetBitrate startBitrate atTime
  else
    let e := e.updateMinHistory atTime
    if e.lastLossPacketReport.isInfinite then e.applyTargetLimits atTime
    else
      let timeSinceLossPacketReport : TimeDelta := atTime - e.lastLossPacketReport
      if timeSinceLossPacketReport < kMaxRtcpFeedbackInterval.scale (lit 1.2 : F) then
        let loss : F := narrow (ofInt e.lastFractionLoss / lit 256)
        if e.currentTarget < e.bitrateThreshold ∨ loss ≤ e.lowLossThreshold then
          e.updateTargetBitrate (increasedBitrate F e.minHistoryFront) atTime
        else if e.currentTarget > e.bitrateThreshold ∧ ¬ loss ≤ e.highLossThreshold ∧
            !e.hasDecreasedSinceLastFractionLoss ∧
            atTime - e.timeLastDecrease ≥ kBweDecreaseInterval + e.lastRoundTripTime then
          { e with
            timeLastDecrease := atTime
            hasDecreasedSinceLastFractionLoss := true }.updateTargetBitrate
              (decreasedBitrate F e.currentTarget e.lastFractionLoss) atTime
        else e.applyTargetLimits atTime
      else e.applyTargetLimits atTime

def updatePacketsLost (e : SendSideBandwidthEstimation F) (packetsLost numberOfPackets : Int)
    (atTime : Timestamp) : SendSideBandwidthEstimation F :=
  let e := { e with lastLossFeedback := atTime }
  let e := if e.firstReportTime.isInfinite then { e with firstReportTime := atTime } else e
  if numberOfPackets > 0 then
    let expected := e.expectedPacketsSinceLastLossUpdate + numberOfPackets
    if expected < kLimitNumPackets then
      { e with
        expectedPacketsSinceLastLossUpdate := toInt32 expected
        lostPacketsSinceLastLossUpdate := toInt32 (e.lostPacketsSinceLastLossUpdate + packetsLost) }
    else
      let lostQ8 := (e.lostPacketsSinceLastLossUpdate + packetsLost) * 256
      let e := { e with
        hasDecreasedSinceLastFractionLoss := false
        lastFractionLoss := toUint8 (min (toInt32 (lostQ8.tdiv expected)) 255)
        lostPacketsSinceLastLossUpdate := 0
        expectedPacketsSinceLastLossUpdate := 0
        lastLossPacketReport := atTime }
      (e.updateEstimate atTime).updateUmaStatsPacketsLost atTime (toInt32 packetsLost)
  else e.updateUmaStatsPacketsLost atTime (toInt32 packetsLost)

end SendSideBandwidthEstimation
end ChromeGcc
