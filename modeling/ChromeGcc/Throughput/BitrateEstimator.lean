import ChromeGcc.NetworkTypes

/-! The acknowledged bitrate: samples over fixed windows, weighed by how far each lies
from the estimate. -/
namespace ChromeGcc
open FloatArith

section Single
variable {F : Type} [FloatArith F]

/-! Arithmetic of floats: every result is narrowed. -/

def fadd (a b : F) : F := narrow (a + b)
def fsub (a b : F) : F := narrow (a - b)
def fmul (a b : F) : F := narrow (a * b)
def fdiv (a b : F) : F := narrow (a / b)
def fint (n : Int) : F := narrow (ofInt n)
def flit (q : ℚ) : F := narrow (lit q)

/-- kbps as a float. -/
def DataRate.kbpsFloat (rate : DataRate) : F := fmul (narrow rate.toDouble) (fdiv (fint 1) (fint 1000))

end Single

def kInitialRateWindowMs : Int := 500
def kRateWindowMs : Int := 150

/-- The members that a modelled function reads; no constructor argument sets any of them. -/
structure BitrateEstimator (F : Type) [FloatArith F] where
  sum : Int := 0
  initialWindowMs : Int := kInitialRateWindowMs
  noninitialWindowMs : Int := kRateWindowMs
  uncertaintyScale : F := lit 10
  uncertaintySymmetryCap : DataRate := .zero
  estimateFloor : DataRate := .zero
  currentWindowMs : Int := 0
  prevTimeMs : Int := -1
  bitrateEstimateKbps : F := flit (-1)
  bitrateEstimateVar : F := flit 50

namespace BitrateEstimator
variable {F : Type} [FloatArith F]

/-- The state after the window has been moved to a time, before a sample is taken. -/
def advanceWindow (b : BitrateEstimator F) (nowMs rateWindowMs : Int) : BitrateEstimator F :=
  let b :=
    if nowMs < b.prevTimeMs then { b with prevTimeMs := -1, sum := 0, currentWindowMs := 0 } else b
  let b :=
    if b.prevTimeMs ≥ 0 then
      let b := { b with currentWindowMs := b.currentWindowMs + (nowMs - b.prevTimeMs) }
      if nowMs - b.prevTimeMs > rateWindowMs then
        { b with sum := 0, currentWindowMs := b.currentWindowMs.tmod rateWindowMs }
      else b
    else b
  { b with prevTimeMs := nowMs }

/-- The sample in kbps, or minus one; is_small_sample is left out, since nothing reads it. -/
def updateWindow (b : BitrateEstimator F) (nowMs bytes rateWindowMs : Int) : BitrateEstimator F × F :=
  let b := b.advanceWindow nowMs rateWindowMs
  let (b, bitrateSample) :=
    if b.currentWindowMs ≥ rateWindowMs then
      ({ b with currentWindowMs := b.currentWindowMs - rateWindowMs, sum := 0 },
        fdiv (fmul (flit 8) (fint b.sum)) (fint rateWindowMs))
    else (b, flit (-1))
  ({ b with sum := b.sum + bytes }, bitrateSample)

/-- What sample_uncertainty is divided by. -/
def uncertaintyDivisor (b : BitrateEstimator F) (bitrateSampleKbps : F) : F :=
  fadd b.bitrateEstimateKbps (stdMin bitrateSampleKbps (DataRate.kbpsFloat b.uncertaintySymmetryCap))

def sampleUncertainty (b : BitrateEstimator F) (bitrateSampleKbps : F) : F :=
  let scale := narrow b.uncertaintyScale
  fdiv (fmul scale (abs (fsub b.bitrateEstimateKbps bitrateSampleKbps)))
    (b.uncertaintyDivisor bitrateSampleKbps)

def sampleVar (b : BitrateEstimator F) (bitrateSampleKbps : F) : F :=
  fmul (b.sampleUncertainty bitrateSampleKbps) (b.sampleUncertainty bitrateSampleKbps)

def predBitrateEstimateVar (b : BitrateEstimator F) : F := fadd b.bitrateEstimateVar (flit 5)

/-- What the Bayesian update divides by. -/
def updateDivisor (b : BitrateEstimator F) (bitrateSampleKbps : F) : F :=
  fadd (b.sampleVar bitrateSampleKbps) b.predBitrateEstimateVar

/-- The Bayesian update of the estimate by one sample. -/
def weigh (b : BitrateEstimator F) (bitrateSampleKbps : F) : BitrateEstimator F :=
  let sampleVar := b.sampleVar bitrateSampleKbps
  let estimate :=
    fdiv (fadd (fmul sampleVar b.bitrateEstimateKbps)
        (fmul b.predBitrateEstimateVar bitrateSampleKbps))
      (b.updateDivisor bitrateSampleKbps)
  { b with
    bitrateEstimateKbps := stdMax estimate (DataRate.kbpsFloat b.estimateFloor)
    bitrateEstimateVar :=
      fdiv (fmul sampleVar b.predBitrateEstimateVar) (b.updateDivisor bitrateSampleKbps) }

/-- The rate window in force: longer until there is an estimate. -/
def rateWindowMs (b : BitrateEstimator F) : Int :=
  if b.bitrateEstimateKbps < flit 0 then b.initialWindowMs else b.noninitialWindowMs

/-- in_alr is left out, since nothing reads it. -/
def update (b : BitrateEstimator F) (atTime : Timestamp) (amount : DataSize) : BitrateEstimator F :=
  let (b, bitrateSampleKbps) := b.updateWindow atTime.ms (toInt32 amount.bytes) b.rateWindowMs
  if bitrateSampleKbps < flit 0 then b
  else if b.bitrateEstimateKbps < flit 0 then { b with bitrateEstimateKbps := bitrateSampleKbps }
  else b.weigh bitrateSampleKbps

def bitrate (b : BitrateEstimator F) : Option DataRate :=
  if b.bitrateEstimateKbps < flit 0 then none
  else some (.fromDouble (fmul b.bitrateEstimateKbps (fint 1000)))

def peekRate (b : BitrateEstimator F) : Option DataRate :=
  if b.currentWindowMs > 0 then
    some ((DataSize.ofBytes b.sum).perDelta (.millis b.currentWindowMs))
  else none

def expectFastRateChange (b : BitrateEstimator F) : BitrateEstimator F :=
  { b with bitrateEstimateVar := fadd b.bitrateEstimateVar (fint 200) }

end BitrateEstimator

/-- in_alr_ is left out: the constructor does not set it and nothing reads it. -/
structure AcknowledgedBitrateEstimator (F : Type) [FloatArith F] where
  alrEndedTime : Option Timestamp := none
  bitrateEstimator : BitrateEstimator F := {}

namespace AcknowledgedBitrateEstimator
variable {F : Type} [FloatArith F]

def setAlrEndedTime (a : AcknowledgedBitrateEstimator F) (alrEndedTime : Timestamp) :
    AcknowledgedBitrateEstimator F := { a with alrEndedTime := some alrEndedTime }

/-- The body of the loop over the packets. -/
def incomingPacket (a : AcknowledgedBitrateEstimator F) (packet : PacketResult) :
    AcknowledgedBitrateEstimator F :=
  let a :=
    match a.alrEndedTime with
    | some alrEndedTime =>
      if packet.sentPacket.sendTime > alrEndedTime then
        { a with alrEndedTime := none, bitrateEstimator := a.bitrateEstimator.expectFastRateChange }
      else a
    | none => a
  let acknowledgedEstimate := packet.sentPacket.size + packet.sentPacket.priorUnackedData
  { a with bitrateEstimator := a.bitrateEstimator.update packet.receiveTime acknowledgedEstimate }

def incomingPacketFeedbackVector (a : AcknowledgedBitrateEstimator F) (packets : List PacketResult) :
    AcknowledgedBitrateEstimator F := packets.foldl incomingPacket a

def bitrate (a : AcknowledgedBitrateEstimator F) : Option DataRate := a.bitrateEstimator.bitrate

def peekRate (a : AcknowledgedBitrateEstimator F) : Option DataRate := a.bitrateEstimator.peekRate

end AcknowledgedBitrateEstimator
end ChromeGcc
