import ChromeGcc.NetworkTypes
import Mathlib.Data.List.DropRight

/-! TrendlineEstimator: the slope of the smoothed delay over a window of packet groups,
compared with an adaptive threshold. -/
namespace ChromeGcc
open FloatArith

structure TrendlineEstimatorSettings (F : Type) [FloatArith F] where
  enableSort : Bool := false
  enableCap : Bool := false
  beginningPackets : Nat := 7
  endPackets : Nat := 7
  capUncertainty : F := lit 0
  windowSize : Nat := 20

structure PacketTiming (F : Type) where
  arrivalTimeMs : F
  smoothedDelayMs : F
  rawDelayMs : F

def kMaxAdaptOffsetMs : ℚ := 15
def kOverUsingTimeThreshold : ℚ := 10
def kMinNumDeltas : Int := 60
def kDeltaCounterMax : Int := 1000

/-- prev_modified_trend_ is left out: nothing reads it. The constructor does not set the
pointer network_state_predictor_, so whether it is null is a parameter. -/
structure TrendlineEstimator (F : Type) [FloatArith F] where
  settings : TrendlineEstimatorSettings F := {}
  smoothingCoef : F := lit 0.9
  thresholdGain : F := lit 4
  numOfDeltas : Int := 0
  firstArrivalTimeMs : Int := -1
  accumulatedDelay : F := lit 0
  smoothedDelay : F := lit 0
  delayHist : List (PacketTiming F) := []
  kUp : F := lit 0.0087
  kDown : F := lit 0.039
  overusingTimeThreshold : F := lit kOverUsingTimeThreshold
  threshold : F := lit 12.5
  lastUpdateMs : Int := -1
  prevTrend : F := lit 0
  timeOverUsing : F := ofInt (-1)
  overuseCounter : Int := 0
  hypothesis : BandwidthUsage := .kBwNormal
  hypothesisPredicted : BandwidthUsage := .kBwNormal
  networkStatePredictor : Bool

section Regression
variable {F : Type} [FloatArith F]

/-- The slope of the least-squares line, unless all arrival times agree. -/
def linearFitSlope (packets : List (PacketTiming F)) : Option F :=
  let sumX := packets.foldl (fun sum p => sum + p.arrivalTimeMs) (lit 0)
  let sumY := packets.foldl (fun sum p => sum + p.smoothedDelayMs) (lit 0)
  let xAvg := sumX / ofInt packets.length
  let yAvg := sumY / ofInt packets.length
  let numerator := packets.foldl
    (fun sum p => sum + (p.arrivalTimeMs - xAvg) * (p.smoothedDelayMs - yAvg)) (lit 0)
  let denominator := packets.foldl
    (fun sum p => sum + (p.arrivalTimeMs - xAvg) * (p.arrivalTimeMs - xAvg)) (lit 0)
  if eqv denominator (lit 0) then none else some (numerator / denominator)

/-- The first packet with the least raw delay, from a first one on. -/
def leastRawDelay (first : PacketTiming F) (rest : List (PacketTiming F)) : PacketTiming F :=
  rest.foldl (fun least p => if p.rawDelayMs < least.rawDelayMs then p else least) first

/-- The source indexes the window from its start and from its end; an empty part, which the
settings exclude, gives no cap. -/
def computeSlopeCap (packets : List (PacketTiming F)) (settings : TrendlineEstimatorSettings F) :
    Option F :=
  match packets.take settings.beginningPackets, packets.drop (packets.length - settings.endPackets) with
  | first :: beginning, lateFirst :: lateRest =>
    let early := leastRawDelay first beginning
    let late := leastRawDelay lateFirst lateRest
    if late.arrivalTimeMs - early.arrivalTimeMs < lit 1 then none
    else some ((late.rawDelayMs - early.rawDelayMs) / (late.arrivalTimeMs - early.arrivalTimeMs) +
      settings.capUncertainty)
  | _, _ => none

/-- The new packet moves before the later arrivals at the back of the window. -/
def insertSorted (hist : List (PacketTiming F)) (packet : PacketTiming F) : List (PacketTiming F) :=
  let later := fun p : PacketTiming F => decide (packet.arrivalTimeMs < p.arrivalTimeMs)
  hist.rdropWhile later ++ packet :: hist.rtakeWhile later

end Regression

namespace TrendlineEstimator
variable {F : Type} [FloatArith F]

def updateThreshold (e : TrendlineEstimator F) (modifiedTrend : F) (nowMs : Int) :
    TrendlineEstimator F :=
  let e := if e.lastUpdateMs = -1 then { e with lastUpdateMs := nowMs } else e
  if e.threshold + lit kMaxAdaptOffsetMs < abs modifiedTrend then { e with lastUpdateMs := nowMs }
  else
    let k := if abs modifiedTrend < e.threshold then e.kDown else e.kUp
    let timeDeltaMs := min (nowMs - e.lastUpdateMs) 100
    let threshold := e.threshold + k * (abs modifiedTrend - e.threshold) * ofInt timeDeltaMs
    { e with
      threshold := safeClamp threshold (narrow (lit 6)) (narrow (lit 600))
      lastUpdateMs := nowMs }

/-- The trend that is compared with the threshold. -/
def modifiedTrend (e : TrendlineEstimator F) (trend : F) : F :=
  ofInt (min e.numOfDeltas kMinNumDeltas) * trend * e.thresholdGain

/-- The timer and the counter of a trend above the threshold. -/
def countOveruse (e : TrendlineEstimator F) (trend tsDelta : F) : TrendlineEstimator F :=
  let e :=
    if eqv e.timeOverUsing (ofInt (-1)) then { e with timeOverUsing := tsDelta / lit 2 }
    else { e with timeOverUsing := e.timeOverUsing + tsDelta }
  let e := { e with overuseCounter := e.overuseCounter + 1 }
  if e.overusingTimeThreshold < e.timeOverUsing ∧ e.overuseCounter > 1 then
    if e.prevTrend ≤ trend then
      { e with timeOverUsing := lit 0, overuseCounter := 0, hypothesis := .kBwOverusing }
    else e
  else e

def detect (e : TrendlineEstimator F) (trend tsDelta : F) (nowMs : Int) : TrendlineEstimator F :=
  if e.numOfDeltas < 2 then { e with hypothesis := .kBwNormal }
  else
    let modifiedTrend := e.modifiedTrend trend
    let e :=
      if e.threshold < modifiedTrend then e.countOveruse trend tsDelta
      else if modifiedTrend < -e.threshold then
        { e with timeOverUsing := ofInt (-1), overuseCounter := 0, hypothesis := .kBwUnderusing }
      else
        { e with timeOverUsing := ofInt (-1), overuseCounter := 0, hypothesis := .kBwNormal }
    { e with prevTrend := trend }.updateThreshold modifiedTrend nowMs

/-- The window after a new group, not yet cut to its size. -/
def extendHist (e : TrendlineEstimator F) (packet : PacketTiming F) : List (PacketTiming F) :=
  if e.settings.enableSort then insertSorted e.delayHist packet else e.delayHist ++ [packet]

/-- The slope over a full window, else the previous trend. -/
def windowTrend (e : TrendlineEstimator F) : F :=
  if e.delayHist.length = e.settings.windowSize then
    let trend := (linearFitSlope e.delayHist).getD e.prevTrend
    if e.settings.enableCap then
      match computeSlopeCap e.delayHist e.settings with
      | some cap => if lit 0 ≤ trend ∧ cap < trend then cap else trend
      | none => trend
    else trend
  else e.prevTrend

def updateTrendline (e : TrendlineEstimator F) (recvDeltaMs sendDeltaMs : F) (arrivalTimeMs : Int) :
    TrendlineEstimator F :=
  let deltaMs := recvDeltaMs - sendDeltaMs
  let e := { e with numOfDeltas := min (e.numOfDeltas + 1) kDeltaCounterMax }
  let e := if e.firstArrivalTimeMs = -1 then { e with firstArrivalTimeMs := arrivalTimeMs } else e
  let e := { e with accumulatedDelay := e.accumulatedDelay + deltaMs }
  let e := { e with
    smoothedDelay := e.smoothingCoef * e.smoothedDelay +
      (lit 1 - e.smoothingCoef) * e.accumulatedDelay }
  let hist := e.extendHist
    { arrivalTimeMs := ofInt (arrivalTimeMs - e.firstArrivalTimeMs)
      smoothedDelayMs := e.smoothedDelay
      rawDelayMs := e.accumulatedDelay }
  let e := { e with delayHist := if hist.length > e.settings.windowSize then hist.tail else hist }
  e.detect e.windowTrend sendDeltaMs arrivalTimeMs

/-- The source also takes the send time and the size of the packet, which it never reads. -/
def update (e : TrendlineEstimator F) (recvDeltaMs sendDeltaMs : F) (arrivalTimeMs : Int)
    (calculatedDeltas : Bool) : TrendlineEstimator F :=
  if calculatedDeltas then e.updateTrendline recvDeltaMs sendDeltaMs arrivalTimeMs else e

def state (e : TrendlineEstimator F) : BandwidthUsage :=
  if e.networkStatePredictor then e.hypothesisPredicted else e.hypothesis

end TrendlineEstimator
end ChromeGcc
