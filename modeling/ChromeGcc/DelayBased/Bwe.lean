import ChromeGcc.DelayBased.InterArrival
import ChromeGcc.DelayBased.Trendline
import ChromeGcc.RateControl.Aimd

/-! DelayBasedBwe: packet groups feed a delay detector, and its state drives the rate control. -/
namespace ChromeGcc
open FloatArith

def kStreamTimeOut : TimeDelta := .seconds 2
def kSendTimeGroupLength : TimeDelta := .millis 5

structure BweSeparateAudioPacketsSettings where
  enabled : Bool := false
  packetThreshold : Int := 10
  timeThreshold : TimeDelta := .seconds 1
  deriving DecidableEq, Repr

/-- DelayBasedBwe::Result. -/
structure BweResult where
  updated : Bool := false
  probe : Bool := false
  targetBitrate : DataRate := .zero
  recoveredFromOveruse : Bool := false
  backoffInAlr : Bool := false
  deriving DecidableEq, Repr

/-- The pointer active_delay_detector_ is the flag activeIsAudio. The two delta pointers,
null until the first packet sets them, start as the objects that it gives them; the
detectors' pointer to a predictor, never set, is taken as null. -/
structure DelayBasedBwe (F : Type) [FloatArith F] where
  separateAudio : BweSeparateAudioPacketsSettings := {}
  audioPacketsSinceLastVideo : Int := 0
  lastVideoPacketRecvTime : Timestamp := .minusInfinity
  videoInterArrivalDelta : InterArrivalDelta := { sendTimeGroupLength := kSendTimeGroupLength }
  videoDelayDetector : TrendlineEstimator F := { networkStatePredictor := false }
  audioInterArrivalDelta : InterArrivalDelta := { sendTimeGroupLength := kSendTimeGroupLength }
  audioDelayDetector : TrendlineEstimator F := { networkStatePredictor := false }
  activeIsAudio : Bool := false
  lastSeenPacket : Timestamp := .minusInfinity
  rateControl : AimdRateControl F := { sendSide := true }
  prevBitrate : DataRate := .zero
  hasOnceDetectedOveruse : Bool := false
  prevState : BandwidthUsage := .kBwNormal

namespace DelayBasedBwe
variable {F : Type} [FloatArith F]

/-- The state of the active delay detector. -/
def activeState (d : DelayBasedBwe F) : BandwidthUsage :=
  if d.activeIsAudio then d.audioDelayDetector.state else d.videoDelayDetector.state

/-- A stream that has timed out starts over with new detectors. -/
def resetIfTimedOut (d : DelayBasedBwe F) (atTime : Timestamp) : DelayBasedBwe F :=
  if d.lastSeenPacket.isInfinite ∨ atTime - d.lastSeenPacket > kStreamTimeOut then
    { d with
      videoInterArrivalDelta := { sendTimeGroupLength := kSendTimeGroupLength }
      audioInterArrivalDelta := { sendTimeGroupLength := kSendTimeGroupLength }
      videoDelayDetector := { networkStatePredictor := false }
      audioDelayDetector := { networkStatePredictor := false }
      activeIsAudio := false }
  else d

/-- With audio apart, an audio packet may make its detector the active one. -/
def chooseDetector (d : DelayBasedBwe F) (packet : PacketResult) : DelayBasedBwe F :=
  if d.separateAudio.enabled then
    if packet.sentPacket.audio then
      let d := { d with audioPacketsSinceLastVideo := d.audioPacketsSinceLastVideo + 1 }
      if d.audioPacketsSinceLastVideo > d.separateAudio.packetThreshold ∧
          (packet.receiveTime - d.lastVideoPacketRecvTime : TimeDelta) >
            d.separateAudio.timeThreshold then
        { d with activeIsAudio := true }
      else d
    else
      { d with
        audioPacketsSinceLastVideo := 0
        lastVideoPacketRecvTime := max d.lastVideoPacketRecvTime packet.receiveTime
        activeIsAudio := false }
  else d

/-- The detector's update from the deltas; without deltas it does nothing. -/
def detectorUpdate (e : TrendlineEstimator F) (deltas : Option GroupDeltas) (receiveTime : Timestamp) :
    TrendlineEstimator F :=
  match deltas with
  | none => e
  | some deltas =>
    e.update (ofInt deltas.arrivalTimeDelta.ms) (ofInt deltas.sendTimeDelta.ms) receiveTime.ms true

/-- The packet goes through the group deltas of its stream to the detector of its stream. -/
def feedDetector (d : DelayBasedBwe F) (packet : PacketResult) (atTime : Timestamp) :
    DelayBasedBwe F :=
  let isAudio := d.separateAudio.enabled && packet.sentPacket.audio
  -- an audio packet goes to the delta of the video stream, and a video packet to that of audio
  let interArrival := if isAudio then d.videoInterArrivalDelta else d.audioInterArrivalDelta
  let (interArrival, deltas) := interArrival.computeDeltas packet.sentPacket.sendTime
    packet.receiveTime atTime (toUint64 packet.sentPacket.size.bytes)
  if isAudio then
    { d with
      videoInterArrivalDelta := interArrival
      audioDelayDetector := detectorUpdate d.audioDelayDetector deltas packet.receiveTime }
  else
    { d with
      audioInterArrivalDelta := interArrival
      videoDelayDetector := detectorUpdate d.videoDelayDetector deltas packet.receiveTime }

def incomingPacketFeedback (d : DelayBasedBwe F) (packet : PacketResult) (atTime : Timestamp) :
    DelayBasedBwe F :=
  let d := { d.resetIfTimedOut atTime with lastSeenPacket := atTime }
  (d.chooseDetector packet).feedDetector packet atTime

/-- UpdateEstimate, with whether an estimate exists and the target rate. -/
def updateEstimate (d : DelayBasedBwe F) (atTime : Timestamp) (ackedBitrate : Option DataRate) :
    DelayBasedBwe F × Bool × DataRate :=
  let rateControl := d.rateControl.update ⟨d.activeState, ackedBitrate⟩ atTime
  ({ d with rateControl := rateControl }, rateControl.validEstimate, rateControl.latestEstimate)

def triggerOveruse (d : DelayBasedBwe F) (atTime : Timestamp) (linkCapacity : Option DataRate) :
    DelayBasedBwe F × DataRate :=
  let rateControl := d.rateControl.update ⟨.kBwOverusing, linkCapacity⟩ atTime
  ({ d with rateControl := rateControl }, rateControl.latestEstimate)

/-- The first half of MaybeUpdateEstimate, while the bandwidth is overused. -/
def reduceOnOveruse (d : DelayBasedBwe F) (ackedBitrate : Option DataRate) (inAlr : Bool)
    (atTime : Timestamp) : DelayBasedBwe F × BweResult :=
  let result : BweResult := {}
  let (d, result) :=
    if d.hasOnceDetectedOveruse && inAlr then
      if d.rateControl.timeToReduceFurther atTime d.prevBitrate then
        let (d, updated, target) := d.updateEstimate atTime (some d.prevBitrate)
        (d, { result with updated := updated, targetBitrate := target, backoffInAlr := true })
      else (d, result)
    else
      match ackedBitrate with
      | some acked =>
        if d.rateControl.timeToReduceFurther atTime acked then
          let (d, updated, target) := d.updateEstimate atTime (some acked)
          (d, { result with updated := updated, targetBitrate := target })
        else (d, result)
      | none =>
        if d.rateControl.validEstimate && d.rateControl.initialTimeToReduceFurther atTime then
          let rateControl :=
            d.rateControl.setEstimate (d.rateControl.latestEstimate.divInt F 2) atTime
          ({ d with rateControl := rateControl },
            { result with
              updated := true, probe := false, targetBitrate := rateControl.latestEstimate })
        else (d, result)
  ({ d with hasOnceDetectedOveruse := true }, result)

/-- The last lines of MaybeUpdateEstimate: a new bitrate or state is remembered. -/
def recordBitrate (d : DelayBasedBwe F) (result : BweResult) : DelayBasedBwe F :=
  let detectorState := d.activeState
  if (result.updated ∧ d.prevBitrate ≠ result.targetBitrate) ∨ detectorState ≠ d.prevState then
    let bitrate := if result.updated then result.targetBitrate else d.prevBitrate
    { d with prevBitrate := bitrate, prevState := detectorState }
  else d

def maybeUpdateEstimate (d : DelayBasedBwe F) (ackedBitrate : Option DataRate)
    (recoveredFromOveruse inAlr : Bool) (atTime : Timestamp) : DelayBasedBwe F × BweResult :=
  let (d, result) :=
    if d.activeState = .kBwOverusing then d.reduceOnOveruse ackedBitrate inAlr atTime
    else
      let (d, updated, target) := d.updateEstimate atTime ackedBitrate
      (d, { updated := updated, targetBitrate := target, recoveredFromOveruse := recoveredFromOveruse })
  (d.recordBitrate result, result)

/-- The body of the loop over the packets: the estimator, whether it recovered from
overuse, and the previous state of the detector. -/
def feedPacket (feedbackTime : Timestamp) (s : DelayBasedBwe F × Bool × BandwidthUsage)
    (packet : PacketResult) : DelayBasedBwe F × Bool × BandwidthUsage :=
  let d := s.1.incomingPacketFeedback packet feedbackTime
  let recovered := s.2.1 || decide (s.2.2 = .kBwUnderusing ∧ d.activeState = .kBwNormal)
  (d, recovered, d.activeState)

/-- The loop of IncomingPacketFeedbackVector. -/
def feedPackets (d : DelayBasedBwe F) (packets : List PacketResult) (feedbackTime : Timestamp) :
    DelayBasedBwe F × Bool × BandwidthUsage :=
  packets.foldl (feedPacket feedbackTime) (d, false, d.activeState)

def incomingPacketFeedbackVector (d : DelayBasedBwe F) (msg : TransportPacketsFeedback)
    (ackedBitrate : Option DataRate) (inAlr : Bool) : DelayBasedBwe F × BweResult :=
  let packets := msg.sortedByReceiveTime
  if packets.isEmpty then (d, {})
  else
    let (d, recoveredFromOveruse, _) := d.feedPackets packets msg.feedbackTime
    let d := { d with rateControl := d.rateControl.setInApplicationLimitedRegion inAlr }
    d.maybeUpdateEstimate ackedBitrate recoveredFromOveruse inAlr msg.feedbackTime

def onRttUpdate (d : DelayBasedBwe F) (avgRtt : TimeDelta) : DelayBasedBwe F :=
  { d with rateControl := d.rateControl.setRtt avgRtt }

def latestEstimate (d : DelayBasedBwe F) : Option DataRate :=
  if d.rateControl.validEstimate then some d.rateControl.latestEstimate else none

def setStartBitrate (d : DelayBasedBwe F) (startBitrate : DataRate) : DelayBasedBwe F :=
  { d with rateControl := d.rateControl.setStartBitrate startBitrate }

def setMinBitrate (d : DelayBasedBwe F) (minBitrate : DataRate) : DelayBasedBwe F :=
  { d with rateControl := d.rateControl.setMinBitrate minBitrate }

def getExpectedBwePeriod (d : DelayBasedBwe F) : TimeDelta :=
  d.rateControl.getExpectedBandwidthPeriod

end DelayBasedBwe
end ChromeGcc
