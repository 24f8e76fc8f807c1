import ChromeGcc.NetworkTypes

/-! LinkCapacityEstimator: an exponential average of the throughputs seen at overuse,
with a variance normalised by the average. -/
namespace ChromeGcc
open FloatArith

structure LinkCapacityEstimator (F : Type) [FloatArith F] where
  estimateKbps : Option F := none
  deviationKbps : F := lit 0.4

namespace LinkCapacityEstimator
variable {F : Type} [FloatArith F]

def hasEstimate (l : LinkCapacityEstimator F) : Bool := l.estimateKbps.isSome

/-- The source takes the estimate from the optional and calls this only when it is set. -/
def deviationEstimateKbps (l : LinkCapacityEstimator F) (estimate : F) : F :=
  sqrt (l.deviationKbps * estimate)

def upperBound (l : LinkCapacityEstimator F) : DataRate :=
  match l.estimateKbps with
  | some estimate => .fromFraction 1000 (estimate + lit 3 * l.deviationEstimateKbps estimate)
  | none => .plusInfinity

def lowerBound (l : LinkCapacityEstimator F) : DataRate :=
  match l.estimateKbps with
  | some estimate =>
    .fromFraction 1000 (stdMax (lit 0) (estimate - lit 3 * l.deviationEstimateKbps estimate))
  | none => .zero

def reset (l : LinkCapacityEstimator F) : LinkCapacityEstimator F := { l with estimateKbps := none }

def update (l : LinkCapacityEstimator F) (capacitySample : DataRate) (alpha : F) :
    LinkCapacityEstimator F :=
  let sampleKbps : F := ofInt capacitySample.kbps
  let estimate :=
    match l.estimateKbps with
    | none => sampleKbps
    | some estimate => (lit 1 - alpha) * estimate + alpha * sampleKbps
  let norm := stdMax estimate (lit 1)
  let errorKbps := estimate - sampleKbps
  let deviation := (lit 1 - alpha) * l.deviationKbps + alpha * errorKbps * errorKbps / norm
  { estimateKbps := some estimate
    deviationKbps := safeClamp deviation (narrow (lit 0.4)) (narrow (lit 2.5)) }

def onOveruseDetected (l : LinkCapacityEstimator F) (acknowledgedRate : DataRate) :
    LinkCapacityEstimator F := l.update acknowledgedRate (lit 0.05)

def onProbeRate (l : LinkCapacityEstimator F) (probeRate : DataRate) : LinkCapacityEstimator F :=
  l.update probeRate (lit 0.5)

/-- Read only when there is an estimate. -/
def estimate (l : LinkCapacityEstimator F) : DataRate :=
  match l.estimateKbps with
  | some estimate => .fromFraction 1000 estimate
  | none => .zero

end LinkCapacityEstimator
end ChromeGcc
