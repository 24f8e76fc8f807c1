import ChromeGcc.RateControl.LinkCapacity

/-! AimdRateControl: additive or multiplicative increase while the network is normal, a
multiplicative decrease on overuse, and a hold until the queues have drained. -/
namespace ChromeGcc
open FloatArith

def kDefaultRtt : TimeDelta := .millis 200

inductive RateControlState where
  | kRcHold
  | kRcIncrease
  | kRcDecrease
  deriving DecidableEq, Repr

structure RateControlInput where
  bwState : BandwidthUsage
  estimatedThroughput : Option DataRate
  deriving DecidableEq, Repr

/-- network_estimate_ is left out: nothing reads it. -/
structure AimdRateControl (F : Type) [FloatArith F] where
  minConfiguredBitrate : DataRate := getMinBitrate
  maxConfiguredBitrate : DataRate := .kilobitsPerSec 30000
  currentBitrate : DataRate := maxConfiguredBitrate
  latestEstimatedThroughput : DataRate := currentBitrate
  linkCapacity : LinkCapacityEstimator F := {}
  rateControlState : RateControlState := .kRcHold
  timeLastBitrateChange : Timestamp := .minusInfinity
  timeLastBitrateDecrease : Timestamp := .minusInfinity
  timeFirstThroughputEstimate : Timestamp := .minusInfinity
  bitrateIsInitialized : Bool := false
  beta : F := lit 0.85
  inAlr : Bool := false
  rtt : TimeDelta := kDefaultRtt
  sendSide : Bool
  inExperiment : Bool := false
  lastDecrease : Option DataRate := none

namespace AimdRateControl
variable {F : Type} [FloatArith F]

def setStartBitrate (c : AimdRateControl F) (startBitrate : DataRate) : AimdRateControl F :=
  { c with
    currentBitrate := startBitrate
    latestEstimatedThroughput := startBitrate
    bitrateIsInitialized := true }

def setMinBitrate (c : AimdRateControl F) (minBitrate : DataRate) : AimdRateControl F :=
  { c with
    minConfiguredBitrate := minBitrate
    currentBitrate := max minBitrate c.currentBitrate }

def validEstimate (c : AimdRateControl F) : Bool := c.bitrateIsInitialized

def getFeedbackInterval (c : AimdRateControl F) : TimeDelta :=
  let kRtcpSize : DataSize := .ofBytes 80
  let rtcpBitrate := c.currentBitrate.scale (lit 0.05 : F)
  (kRtcpSize.perRate rtcpBitrate).clamped (.millis 200) (.millis 1000)

def latestEstimate (c : AimdRateControl F) : DataRate := c.currentBitrate

def timeToReduceFurther (c : AimdRateControl F) (atTime : Timestamp)
    (estimatedThroughput : DataRate) : Bool :=
  let bitrateReductionInterval := c.rtt.clamped (.millis 10) (.millis 200)
  if atTime - c.timeLastBitrateChange ≥ bitrateReductionInterval then true
  else if c.validEstimate then decide (estimatedThroughput < c.latestEstimate.scale (lit 0.5 : F))
  else false

def initialTimeToReduceFurther (c : AimdRateControl F) (_atTime : Timestamp) : Bool :=
  c.timeLastBitrateDecrease.isInfinite

def setRtt (c : AimdRateControl F) (rtt : TimeDelta) : AimdRateControl F := { c with rtt := rtt }

def setInApplicationLimitedRegion (c : AimdRateControl F) (inAlr : Bool) : AimdRateControl F :=
  { c with inAlr := inAlr }

def clampBitrate (c : AimdRateControl F) (newBitrate : DataRate) : DataRate :=
  max newBitrate c.minConfiguredBitrate

def frameInterval (F : Type) [FloatArith F] : TimeDelta := (TimeDelta.seconds 1).divInt F 30

def frameSize (c : AimdRateControl F) : DataSize := c.currentBitrate.timesDelta (frameInterval F)

def packetsPerFrame (c : AimdRateControl F) : F :=
  let kPacketSize : DataSize := .ofBytes 1200
  ceil (c.frameSize.ratio kPacketSize)

def avgPacketSize (c : AimdRateControl F) : DataSize := c.frameSize.divDouble c.packetsPerFrame

def responseTime (c : AimdRateControl F) : TimeDelta :=
  let responseTime := c.rtt + TimeDelta.millis 100
  if c.inExperiment then responseTime.timesInt 2 else responseTime

def getNearMaxIncreaseRateBpsPerSecond (c : AimdRateControl F) : F :=
  let increaseRateBpsPerSecond : F := (c.avgPacketSize.perDelta c.responseTime).toDouble
  stdMax (lit 4000) increaseRateBpsPerSecond

def timeToRecoverDecreaseSeconds (c : AimdRateControl F) (lastDecrease : DataRate) : F :=
  ofInt lastDecrease.bps / c.getNearMaxIncreaseRateBpsPerSecond

def getExpectedBandwidthPeriod (c : AimdRateControl F) : TimeDelta :=
  match c.lastDecrease with
  | none => .seconds 3
  | some lastDecrease =>
    let period : TimeDelta := .fromFraction 1000000 (c.timeToRecoverDecreaseSeconds lastDecrease)
    period.clamped (.seconds 2) (.seconds 50)

def multiplicativeRateIncrease (F : Type) [FloatArith F] (atTime lastTime : Timestamp)
    (currentBitrate : DataRate) : DataRate :=
  let alpha : F := lit 1.08
  let alpha :=
    if lastTime.isFinite then
      pow alpha (stdMin ((atTime - lastTime : TimeDelta).toFraction 1000000) (lit 1))
    else alpha
  max (currentBitrate.scale (alpha - lit 1)) (.bitsPerSec 1000)

def additiveRateIncrease (c : AimdRateControl F) (atTime lastTime : Timestamp) : DataRate :=
  let timePeriodSeconds : F := (atTime - lastTime : TimeDelta).toFraction 1000000
  .fromDouble (c.getNearMaxIncreaseRateBpsPerSecond * timePeriodSeconds)

def changeState (c : AimdRateControl F) (bwState : BandwidthUsage) (atTime : Timestamp) :
    AimdRateControl F :=
  match bwState with
  | .kBwNormal =>
    if c.rateControlState = .kRcHold then
      { c with timeLastBitrateChange := atTime, rateControlState := .kRcIncrease }
    else c
  | .kBwOverusing => { c with rateControlState := .kRcDecrease }
  | .kBwUnderusing => { c with rateControlState := .kRcHold }

/-- The limit of an increase: one and a half times the throughput, and ten kbps. -/
def throughputBasedLimit (F : Type) [FloatArith F] (estimatedThroughput : DataRate) : DataRate :=
  estimatedThroughput.scale (lit 1.5 : F) + DataRate.kilobitsPerSec 10

/-- The case kRcIncrease of ChangeBitrate, with the new bitrate if there is one. -/
def changeBitrateIncrease (c : AimdRateControl F) (estimatedThroughput : DataRate)
    (atTime : Timestamp) : AimdRateControl F × Option DataRate :=
  let c :=
    if estimatedThroughput > c.linkCapacity.upperBound then
      { c with linkCapacity := c.linkCapacity.reset }
    else c
  let limit := throughputBasedLimit F estimatedThroughput
  let newBitrate :=
    if c.currentBitrate < limit ∧ !(c.sendSide && c.inAlr) then
      let increasedBitrate :=
        if c.linkCapacity.hasEstimate then
          c.currentBitrate + c.additiveRateIncrease atTime c.timeLastBitrateChange
        else
          c.currentBitrate +
            multiplicativeRateIncrease F atTime c.timeLastBitrateChange c.currentBitrate
      some (min increasedBitrate limit)
    else none
  ({ c with timeLastBitrateChange := atTime }, newBitrate)

/-- The case kRcDecrease of ChangeBitrate, with the new bitrate if there is one. -/
def changeBitrateDecrease (c : AimdRateControl F) (estimatedThroughput : DataRate)
    (atTime : Timestamp) : AimdRateControl F × Option DataRate :=
  let decreasedBitrate := estimatedThroughput.scale c.beta
  let decreasedBitrate :=
    if decreasedBitrate > c.currentBitrate ∧ c.linkCapacity.hasEstimate then
      c.linkCapacity.estimate.scale c.beta
    else decreasedBitrate
  let newBitrate := if decreasedBitrate < c.currentBitrate then some decreasedBitrate else none
  let c :=
    if c.bitrateIsInitialized ∧ estimatedThroughput < c.currentBitrate then
      match newBitrate with
      | none => { c with lastDecrease := some .zero }
      | some bitrate => { c with lastDecrease := some (c.currentBitrate - bitrate) }
    else c
  let c :=
    if estimatedThroughput < c.linkCapacity.lowerBound then
      { c with linkCapacity := c.linkCapacity.reset }
    else c
  ({ c with
    bitrateIsInitialized := true
    linkCapacity := c.linkCapacity.onOveruseDetected estimatedThroughput
    rateControlState := .kRcHold
    timeLastBitrateChange := atTime
    timeLastBitrateDecrease := atTime }, newBitrate)

def changeBitrate (c : AimdRateControl F) (input : RateControlInput) (atTime : Timestamp) :
    AimdRateControl F :=
  let estimatedThroughput := input.estimatedThroughput.getD c.latestEstimatedThroughput
  let c := { c with latestEstimatedThroughput := estimatedThroughput }
  if !c.bitrateIsInitialized ∧ input.bwState ≠ .kBwOverusing then c
  else
    let c := c.changeState input.bwState atTime
    let (c, newBitrate) :=
      match c.rateControlState with
      | .kRcHold => (c, none)
      | .kRcIncrease => c.changeBitrateIncrease estimatedThroughput atTime
      | .kRcDecrease => c.changeBitrateDecrease estimatedThroughput atTime
    { c with currentBitrate := c.clampBitrate (newBitrate.getD c.currentBitrate) }

/-- The first half of Update: the throughput initialises the bitrate after five seconds. -/
def initializeBitrate (c : AimdRateControl F) (input : RateControlInput) (atTime : Timestamp) :
    AimdRateControl F :=
  if c.bitrateIsInitialized then c
  else if c.timeFirstThroughputEstimate.isInfinite then
    if input.estimatedThroughput.isSome then { c with timeFirstThroughputEstimate := atTime } else c
  else
    match input.estimatedThroughput with
    | none => c
    | some throughput =>
      if atTime - c.timeFirstThroughputEstimate > TimeDelta.seconds 5 then
        { c with currentBitrate := throughput, bitrateIsInitialized := true }
      else c

/-- The source returns the new current bitrate as well. -/
def update (c : AimdRateControl F) (input : RateControlInput) (atTime : Timestamp) :
    AimdRateControl F := (c.initializeBitrate input atTime).changeBitrate input atTime

def setEstimate (c : AimdRateControl F) (bitrate : DataRate) (atTime : Timestamp) :
    AimdRateControl F :=
  let prevBitrate := c.currentBitrate
  let c := { c with
    bitrateIsInitialized := true
    currentBitrate := c.clampBitrate bitrate
    timeLastBitrateChange := atTime }
  if c.currentBitrate < prevBitrate then { c with timeLastBitrateDecrease := atTime } else c

end AimdRateControl
end ChromeGcc
