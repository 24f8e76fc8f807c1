import ChromeGcc.SendSide.Estimation
import ChromeGcc.Throughput.BitrateEstimator
import ChromeGcc.DelayBased.Bwe

/-! GoogCcNetworkController: the messages of the two ends reach the loss-based and the
delay-based estimation. -/
namespace ChromeGcc
open FloatArith

def kLossUpdateInterval : TimeDelta := .millis 1000
def kMaxFeedbackRttWindow : Nat := 32

section Messages
variable (F : Type)

structure StreamsConfig where
  pacingFactor : Option F := none
  minTotalAllocatedBitrate : Option DataRate := none
  maxPaddingRate : Option DataRate := none

structure NetworkControllerConfig where
  constraints : TargetRateConstraints
  streamBasedConfig : StreamsConfig F := {}

structure NetworkEstimate where
  atTime : Timestamp
  roundTripTime : TimeDelta
  bwePeriod : TimeDelta
  lossRateRatio : F

structure TargetTransferRate where
  atTime : Timestamp
  networkEstimate : NetworkEstimate F
  targetRate : DataRate
  stableTargetRate : DataRate

structure PacerConfig where
  atTime : Timestamp
  dataWindow : DataSize
  timeWindow : TimeDelta
  padWindow : DataSize
  deriving DecidableEq, Repr

/-- The congestion window and the probe clusters are left out: no function sets them. -/
structure NetworkControlUpdate where
  pacerConfig : Option PacerConfig := none
  targetRate : Option (TargetTransferRate F) := none

/-- The stored initial configuration, the state estimate and the time of the last received
packet are left out: nothing reads them. -/
structure GoogCcNetworkController [FloatArith F] where
  packetFeedbackOnly : Bool := false
  bandwidthEstimation : SendSideBandwidthEstimation F := {}
  delayBasedBwe : DelayBasedBwe F := {}
  recentResult : BweResult := {}
  acknowledgedBitrateEstimator : AcknowledgedBitrateEstimator F := {}
  minTargetRate : DataRate := .zero
  minDataRate : DataRate := .zero
  maxDataRate : DataRate := .plusInfinity
  startingRate : Option DataRate := none
  firstPacketSent : Bool := false
  nextLossUpdate : Timestamp := .minusInfinity
  lostPacketsSinceLastLossUpdate : Int := 0
  expectedPacketsSinceLastLossUpdate : Int := 0
  feedbackMaxRtts : List Int := []
  lastLossBasedTargetRate : DataRate
  lastPushbackTargetRate : DataRate := lastLossBasedTargetRate
  lastStableTargetRate : DataRate := lastLossBasedTargetRate
  lastEstimatedFractionLoss : Option Nat := some 0
  lastEstimatedRoundTripTime : TimeDelta := .plusInfinity
  pacingFactor : F
  minTotalAllocatedBitrate : DataRate
  maxPaddingRate : DataRate

end Messages

namespace TransportPacketsFeedback

/-- The latest receive time in a message. -/
def maxRecvTime (report : TransportPacketsFeedback) : Timestamp :=
  report.receivedWithSendInfo.foldl (fun time fb => max time fb.receiveTime) .minusInfinity

def feedbackRtt (report : TransportPacketsFeedback) (fb : PacketResult) : TimeDelta :=
  report.feedbackTime - fb.sentPacket.sendTime

def maxFeedbackRtt (report : TransportPacketsFeedback) : TimeDelta :=
  report.receivedWithSendInfo.foldl (fun rtt fb => max rtt (report.feedbackRtt fb)) .minusInfinity

/-- The least round trip in a message, without the wait for the latest packet. -/
def minPropagationRtt (report : TransportPacketsFeedback) : TimeDelta :=
  report.receivedWithSendInfo.foldl
    (fun rtt fb => min rtt
      (report.feedbackRtt fb - (fb.receiveTime - report.maxRecvTime : TimeDelta))) .plusInfinity

end TransportPacketsFeedback

namespace GoogCcNetworkController
variable {F : Type} [FloatArith F]

/-- The constructor. The source dereferences the starting rate of the constraints, and
reads no other of their rates. -/
def new (config : NetworkControllerConfig F) : GoogCcNetworkController F :=
  let g : GoogCcNetworkController F :=
    { lastLossBasedTargetRate := config.constraints.startingRate.getD .zero
      pacingFactor := config.streamBasedConfig.pacingFactor.getD (narrow (lit 2.5))
      minTotalAllocatedBitrate := config.streamBasedConfig.minTotalAllocatedBitrate.getD .zero
      maxPaddingRate := config.streamBasedConfig.maxPaddingRate.getD .zero }
  { g with delayBasedBwe := g.delayBasedBwe.setMinBitrate getMinBitrate }

/-- The source's body only builds an empty update. -/
def onProcessInterval (g : GoogCcNetworkController F) (_atTime : Timestamp) :
    GoogCcNetworkController F := g

def onRemoteBitrateReport (g : GoogCcNetworkController F) (msg : RemoteBitrateReport) :
    GoogCcNetworkController F :=
  if g.packetFeedbackOnly then g
  else
    { g with
      bandwidthEstimation :=
        g.bandwidthEstimation.updateReceiverEstimate msg.receiveTime msg.bandwidth }

def onRoundTripTimeUpdate (g : GoogCcNetworkController F) (msg : RoundTripTimeUpdate) :
    GoogCcNetworkController F :=
  if g.packetFeedbackOnly || msg.smoothed then g
  else
    { g with
      delayBasedBwe := g.delayBasedBwe.onRttUpdate msg.roundTripTime
      bandwidthEstimation := g.bandwidthEstimation.updateRtt msg.roundTripTime msg.receiveTime }

def onSentPacket (g : GoogCcNetworkController F) (sentPacket : SentPacket) :
    GoogCcNetworkController F :=
  if g.firstPacketSent then g
  else
    { g with
      firstPacketSent := true
      bandwidthEstimation := g.bandwidthEstimation.updatePropagationRtt sentPacket.sendTime .zero }

def onTransportLossReport (g : GoogCcNetworkController F) (msg : TransportLossReport) :
    GoogCcNetworkController F :=
  if g.packetFeedbackOnly then g
  else
    let totalPacketsDelta := toInt64 (msg.packetsReceivedDelta + msg.packetsLostDelta : Nat)
    { g with
      bandwidthEstimation := g.bandwidthEstimation.updatePacketsLost
        (toInt64 msg.packetsLostDelta) totalPacketsDelta msg.receiveTime }

def clampConstraints (g : GoogCcNetworkController F) : GoogCcNetworkController F :=
  let g := { g with minDataRate := max g.minTargetRate getMinBitrate }
  let g := if g.maxDataRate < g.minDataRate then { g with maxDataRate := g.minDataRate } else g
  match g.startingRate with
  | some rate => if rate < g.minDataRate then { g with startingRate := some g.minDataRate } else g
  | none => g

def resetConstraints (g : GoogCcNetworkController F) (newConstraints : TargetRateConstraints) :
    GoogCcNetworkController F :=
  let g := { g with
    minTargetRate := newConstraints.minDataRate.getD .zero
    maxDataRate := newConstraints.maxDataRate.getD .plusInfinity
    startingRate := newConstraints.startingRate }
  let g := g.clampConstraints
  let g := { g with
    bandwidthEstimation := g.bandwidthEstimation.setBitrates g.startingRate g.minDataRate
      g.maxDataRate newConstraints.atTime }
  let g :=
    match g.startingRate with
    | some rate => { g with delayBasedBwe := g.delayBasedBwe.setStartBitrate rate }
    | none => g
  { g with delayBasedBwe := g.delayBasedBwe.setMinBitrate g.minDataRate }

def getPacingRates (g : GoogCcNetworkController F) (atTime : Timestamp) : PacerConfig :=
  let pacingRate : DataRate :=
    (max g.minTotalAllocatedBitrate g.lastLossBasedTargetRate).scale g.pacingFactor
  let paddingRate := min g.maxPaddingRate g.lastPushbackTargetRate
  { atTime := atTime
    timeWindow := .seconds 1
    dataWindow := pacingRate.timesDelta (.seconds 1)
    padWindow := paddingRate.timesDelta (.seconds 1) }

def getSenderSideDataRate (g : GoogCcNetworkController F) : DataRate :=
  g.bandwidthEstimation.targetRate

def getReceiverLimit (g : GoogCcNetworkController F) : DataRate := g.bandwidthEstimation.receiverLimit

def getAcknowlegeRate (g : GoogCcNetworkController F) : Option DataRate :=
  g.acknowledgedBitrateEstimator.bitrate

def getNetworkState (g : GoogCcNetworkController F) (atTime : Timestamp) : NetworkControlUpdate F :=
  { targetRate := some
      { atTime := atTime
        networkEstimate :=
          { atTime := atTime
            lossRateRatio := narrow (ofInt (g.lastEstimatedFractionLoss.getD 0) / lit 255)
            roundTripTime := g.lastEstimatedRoundTripTime
            bwePeriod := g.delayBasedBwe.getExpectedBwePeriod }
        targetRate := g.lastPushbackTargetRate
        stableTargetRate := g.bandwidthEstimation.getEstimatedLinkCapacity }
    pacerConfig := some (g.getPacingRates atTime) }

def maybeTriggerOnNetworkChanged (g : GoogCcNetworkController F) (update : NetworkControlUpdate F)
    (atTime : Timestamp) : GoogCcNetworkController F × NetworkControlUpdate F :=
  let fractionLoss := g.bandwidthEstimation.lastFractionLoss
  let roundTripTime := g.bandwidthEstimation.lastRoundTripTime
  let lossBasedTargetRate := g.bandwidthEstimation.targetRate
  let pushbackTargetRate := lossBasedTargetRate
  let stableTargetRate := min g.bandwidthEstimation.getEstimatedLinkCapacity pushbackTargetRate
  if lossBasedTargetRate ≠ g.lastLossBasedTargetRate ∨
      some fractionLoss ≠ g.lastEstimatedFractionLoss ∨
      roundTripTime ≠ g.lastEstimatedRoundTripTime ∨
      pushbackTargetRate ≠ g.lastPushbackTargetRate ∨
      stableTargetRate ≠ g.lastStableTargetRate then
    let g := { g with
      lastLossBasedTargetRate := lossBasedTargetRate
      lastPushbackTargetRate := pushbackTargetRate
      lastEstimatedFractionLoss := some fractionLoss
      lastEstimatedRoundTripTime := roundTripTime
      lastStableTargetRate := stableTargetRate }
    let msg : TargetTransferRate F :=
      { atTime := atTime
        targetRate := pushbackTargetRate
        stableTargetRate := stableTargetRate
        networkEstimate :=
          { atTime := atTime
            roundTripTime := roundTripTime
            lossRateRatio := fdiv (fint fractionLoss) (flit 255)
            bwePeriod := g.delayBasedBwe.getExpectedBwePeriod } }
    (g, { update with targetRate := some msg, pacerConfig := some (g.getPacingRates atTime) })
  else (g, update)

def onTargetRateConstraints (g : GoogCcNetworkController F) (constraints : TargetRateConstraints) :
    GoogCcNetworkController F × NetworkControlUpdate F :=
  (g.resetConstraints constraints).maybeTriggerOnNetworkChanged {} constraints.atTime

/-- The window of round trips that OnTransportPacketsFeedback keeps. -/
def recordFeedbackRtt (g : GoogCcNetworkController F) (report : TransportPacketsFeedback) :
    GoogCcNetworkController F :=
  if report.maxFeedbackRtt.isFinite then
    let rtts := g.feedbackMaxRtts ++ [report.maxFeedbackRtt.ms]
    { g with
      feedbackMaxRtts := if rtts.length > kMaxFeedbackRttWindow then rtts.tail else rtts
      bandwidthEstimation := g.bandwidthEstimation.updatePropagationRtt report.feedbackTime
        report.minPropagationRtt }
  else g

/-- The mean of the round trips: std::accumulate sums in an int, and the division by a
size_t is one of uint64_t. -/
def meanRttMs (rtts : List Int) : Int :=
  toInt64 (toUint64 (rtts.foldl (fun sum rtt => toInt32 (sum + rtt)) 0) / rtts.length : Nat)

/-- What OnTransportPacketsFeedback does when only packet feedback is available. -/
def feedbackOnlyUpdate (g : GoogCcNetworkController F) (report : TransportPacketsFeedback) :
    GoogCcNetworkController F :=
  let g :=
    if g.feedbackMaxRtts.isEmpty then g
    else { g with delayBasedBwe := g.delayBasedBwe.onRttUpdate (.millis (meanRttMs g.feedbackMaxRtts)) }
  let g :=
    if report.minPropagationRtt.isFinite then
      { g with
        bandwidthEstimation :=
          g.bandwidthEstimation.updateRtt report.minPropagationRtt report.feedbackTime }
    else g
  let g := { g with
    expectedPacketsSinceLastLossUpdate :=
      toInt32 (g.expectedPacketsSinceLastLossUpdate + report.packetFeedbacks.length)
    lostPacketsSinceLastLossUpdate := g.lostPacketsSinceLastLossUpdate +
      (report.packetFeedbacks.countP fun p => !p.isReceived) }
  if report.feedbackTime > g.nextLossUpdate then
    { g with
      nextLossUpdate := report.feedbackTime + kLossUpdateInterval
      bandwidthEstimation := g.bandwidthEstimation.updatePacketsLost
        g.lostPacketsSinceLastLossUpdate g.expectedPacketsSinceLastLossUpdate report.feedbackTime
      expectedPacketsSinceLastLossUpdate := 0
      lostPacketsSinceLastLossUpdate := 0 }
  else g

def onTransportPacketsFeedback (g : GoogCcNetworkController F) (report : TransportPacketsFeedback) :
    GoogCcNetworkController F :=
  if report.packetFeedbacks.isEmpty then g
  else
    let g := g.recordFeedbackRtt report
    let g := if g.packetFeedbackOnly then g.feedbackOnlyUpdate report else g
    let estimator :=
      g.acknowledgedBitrateEstimator.incomingPacketFeedbackVector report.sortedByReceiveTime
    let acknowledgedBitrate := estimator.bitrate
    let estimation :=
      g.bandwidthEstimation.setAcknowledgedRate acknowledgedBitrate report.feedbackTime
    let (bwe, result) :=
      g.delayBasedBwe.incomingPacketFeedbackVector report acknowledgedBitrate false
    { g with
      acknowledgedBitrateEstimator := estimator
      bandwidthEstimation := estimation.incomingPacketFeedbackVector report
      delayBasedBwe := bwe
      recentResult := result }

end GoogCcNetworkController
end ChromeGcc
