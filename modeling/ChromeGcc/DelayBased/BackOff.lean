import ChromeGcc.DelayBased.Bwe

/-! Repeated back-off while no throughput is known. The estimate is halved as long as no decrease
has been noted: the first halving that lowers it is the last one. -/
namespace ChromeGcc
open FloatArith UnitBase

/-- The interval of the source's comment, in microseconds. -/
def backOffIntervalUs : Int := 200000

namespace DelayBasedBwe

section Calls
variable {F : Type} [FloatArith F]

/-- Packets of a report, and then a call of MaybeUpdateEstimate without a throughput. -/
structure BackOffCall where
  packets : List PacketResult := []
  recoveredFromOveruse : Bool := false
  atTime : Int

variable (d : DelayBasedBwe F) (c : BackOffCall)

def beforeCall : DelayBasedBwe F := (d.feedPackets c.packets (.micros c.atTime)).1

def backOff : DelayBasedBwe F × BweResult :=
  (d.beforeCall c).maybeUpdateEstimate none c.recoveredFromOveruse false (.micros c.atTime)

/-- Max of the minimum bitrate and the half of the estimate. -/
def halved (minimum estimate : DataRate) : DataRate := max minimum (estimate.divInt F 2)

/-- No reduction yet, or the last one is at least 200 ms ago. -/
def Due : Prop :=
  match d.rateControl.timeLastBitrateDecrease with
  | .finite last => c.atTime - last ≥ backOffIntervalUs
  | _ => True

/-- The call reports an update to the half of the estimate. -/
def Halves : Prop :=
  (d.backOff c).2.updated = true ∧
    (d.backOff c).1.latestEstimate =
      some (halved (F := F) d.rateControl.minConfiguredBitrate d.rateControl.currentBitrate)

/-- Each call that is due halves the estimate. -/
def HalvesWhenDue : DelayBasedBwe F → List BackOffCall → Prop
  | _, [] => True
  | d, c :: calls => (d.Due c → d.Halves c) ∧ HalvesWhenDue (d.backOff c).1 calls

/-- The active detector is overusing at each call. -/
def OverusingAt : DelayBasedBwe F → List BackOffCall → Prop
  | _, [] => True
  | d, c :: calls => (d.beforeCall c).activeState = .kBwOverusing ∧ OverusingAt (d.backOff c).1 calls

/-- After the first halving that lowers the estimate no call is due. -/
def LowersOnce (F : Type) [FloatArith F] (minimum : DataRate) : DataRate → List Int → Prop
  | _, [] => True
  | estimate, t :: times =>
    if halved (F := F) minimum estimate < estimate then ∀ t' ∈ times, t' - t < backOffIntervalUs
    else LowersOnce F minimum (halved (F := F) minimum estimate) times

/-- The times at which the calls are made let none be due after a reduction. -/
def NoneDueAgain (times : List Int) : Prop :=
  match d.rateControl.timeLastBitrateDecrease with
  | .finite last => ∀ t ∈ times, t - last < backOffIntervalUs
  | _ => LowersOnce F d.rateControl.minConfiguredBitrate d.rateControl.currentBitrate times

theorem rateControl_incomingPacketFeedback (packet : PacketResult) (t : Timestamp) :
    (d.incomingPacketFeedback packet t).rateControl = d.rateControl := by
  have hreset : (d.resetIfTimedOut t).rateControl = d.rateControl := by
    unfold resetIfTimedOut
    split_ifs
    · rfl
    · rfl
  have hchoose : ∀ e : DelayBasedBwe F, (e.chooseDetector packet).rateControl = e.rateControl := by
    intro e
    unfold chooseDetector
    dsimp only
    split_ifs <;> rfl
  have hfeed : ∀ e : DelayBasedBwe F, (e.feedDetector packet t).rateControl = e.rateControl := by
    intro e
    unfold feedDetector
    dsimp only
    split_ifs <;> rfl
  unfold incomingPacketFeedback
  dsimp only
  rw [hfeed, hchoose]
  exact hreset

/-- Packets reach the rate control only through MaybeUpdateEstimate. -/
theorem rateControl_feedPackets (packets : List PacketResult) (t : Timestamp) :
    (d.feedPackets packets t).1.rateControl = d.rateControl := by
  unfold feedPackets
  generalize (false, d.activeState) = rest
  induction packets generalizing d rest with
  | nil => rfl
  | cons packet packets ih =>
      rw [List.foldl_cons]
      exact (ih _ _).trans (rateControl_incomingPacketFeedback d packet t)

theorem rateControl_recordBitrate (result : BweResult) :
    (d.recordBitrate result).rateControl = d.rateControl := by
  unfold recordBitrate
  dsimp only
  split_ifs <;> rfl

variable {d c}

/-- A decrease that was noted before keeps the call from doing anything. -/
theorem backOff_noted {last : Int} (hover : (d.beforeCall c).activeState = .kBwOverusing)
    (hlast : d.rateControl.timeLastBitrateDecrease = .finite last) :
    (d.backOff c).1.rateControl = d.rateControl ∧ (d.backOff c).2.updated = false := by
  have hbefore : (d.beforeCall c).rateControl = d.rateControl := rateControl_feedPackets d _ _
  have hnot : ((d.beforeCall c).rateControl.validEstimate &&
      (d.beforeCall c).rateControl.initialTimeToReduceFurther (.micros c.atTime)) = false := by
    rw [hbefore, AimdRateControl.initialTimeToReduceFurther, hlast]
    exact Bool.and_false _
  unfold backOff maybeUpdateEstimate reduceOnOveruse
  simp only [if_pos hover, Bool.and_false, Bool.false_eq_true, if_false, hnot, and_true]
  exact (rateControl_recordBitrate _ _).trans hbefore

/-- Without one, the call halves a valid estimate. -/
theorem backOff_first (hover : (d.beforeCall c).activeState = .kBwOverusing)
    (hvalid : d.rateControl.validEstimate = true)
    (hlast : d.rateControl.timeLastBitrateDecrease.isInfinite = true) :
    (d.backOff c).1.rateControl =
        d.rateControl.setEstimate (d.rateControl.currentBitrate.divInt F 2) (.micros c.atTime) ∧
      (d.backOff c).2.updated = true := by
  have hbefore : (d.beforeCall c).rateControl = d.rateControl := rateControl_feedPackets d _ _
  have hready : ((d.beforeCall c).rateControl.validEstimate &&
      (d.beforeCall c).rateControl.initialTimeToReduceFurther (.micros c.atTime)) = true := by
    rw [hbefore, hvalid, Bool.true_and]
    exact hlast
  unfold backOff maybeUpdateEstimate reduceOnOveruse
  simp only [if_pos hover, Bool.and_false, Bool.false_eq_true, if_false, if_pos hready, and_true]
  refine (rateControl_recordBitrate _ _).trans ?_
  dsimp only
  rw [hbefore]
  rfl

/-- What SetEstimate does with the half: the time of a decrease is noted only if it is one. -/
theorem setEstimate_half (rateControl : AimdRateControl F) (t : Timestamp) :
    (rateControl.setEstimate (rateControl.currentBitrate.divInt F 2) t).validEstimate = true ∧
      (rateControl.setEstimate (rateControl.currentBitrate.divInt F 2) t).minConfiguredBitrate =
        rateControl.minConfiguredBitrate ∧
      (rateControl.setEstimate (rateControl.currentBitrate.divInt F 2) t).currentBitrate =
        halved (F := F) rateControl.minConfiguredBitrate rateControl.currentBitrate ∧
      (rateControl.setEstimate (rateControl.currentBitrate.divInt F 2) t).timeLastBitrateDecrease =
        if halved (F := F) rateControl.minConfiguredBitrate rateControl.currentBitrate <
          rateControl.currentBitrate then t else rateControl.timeLastBitrateDecrease := by
  have hclamp : rateControl.clampBitrate (rateControl.currentBitrate.divInt F 2) =
      halved (F := F) rateControl.minConfiguredBitrate rateControl.currentBitrate := max_comm _ _
  unfold AimdRateControl.setEstimate
  dsimp only
  rw [hclamp]
  by_cases hlower : halved (F := F) rateControl.minConfiguredBitrate rateControl.currentBitrate <
      rateControl.currentBitrate
  · simp only [if_pos hlower, and_self, and_true]
    rfl
  · simp only [if_neg hlower, and_self, and_true]
    rfl

theorem due_iff {last : Int} (hlast : d.rateControl.timeLastBitrateDecrease = .finite last) :
    d.Due c ↔ ¬ c.atTime - last < backOffIntervalUs := by
  unfold Due
  rw [hlast]
  exact not_lt.symm

/-- After a noted decrease no call halves, so that none may be due. -/
theorem halvesWhenDue_noted {last : Int} (calls : List BackOffCall)
    (hlast : d.rateControl.timeLastBitrateDecrease = .finite last) (hover : d.OverusingAt calls) :
    d.HalvesWhenDue calls ↔ ∀ t ∈ calls.map BackOffCall.atTime, t - last < backOffIntervalUs := by
  induction calls generalizing d with
  | nil => simp [HalvesWhenDue]
  | cons c calls ih =>
      obtain ⟨hnow, hnext⟩ := hover
      obtain ⟨hsame, hnot⟩ := backOff_noted hnow hlast
      have hhalves : ¬ d.Halves c := by
        rintro ⟨hupdated, -⟩
        rw [hnot] at hupdated
        cases hupdated
      rw [HalvesWhenDue, ih (by rw [hsame]; exact hlast) hnext, List.map_cons, List.forall_mem_cons,
        due_iff hlast]
      simp only [hhalves, imp_false, not_not]

theorem halvesWhenDue_first (calls : List BackOffCall) (hvalid : d.rateControl.validEstimate = true)
    (hinf : d.rateControl.timeLastBitrateDecrease.isInfinite = true) (hover : d.OverusingAt calls) :
    d.HalvesWhenDue calls ↔ LowersOnce F d.rateControl.minConfiguredBitrate
      d.rateControl.currentBitrate (calls.map BackOffCall.atTime) := by
  induction calls generalizing d with
  | nil => simp [HalvesWhenDue, LowersOnce]
  | cons c calls ih =>
      obtain ⟨hnow, hnext⟩ := hover
      obtain ⟨hrate, hupdated⟩ := backOff_first hnow hvalid hinf
      obtain ⟨hvalid', hmin, hcurrent, htime⟩ :=
        setEstimate_half d.rateControl (.micros c.atTime)
      rw [← hrate] at hvalid' hmin hcurrent htime
      have hhalves : d.Halves c := by
        refine ⟨hupdated, ?_⟩
        rw [latestEstimate, if_pos hvalid', AimdRateControl.latestEstimate, hcurrent]
      rw [HalvesWhenDue, List.map_cons, LowersOnce]
      simp only [hhalves, implies_true, true_and]
      by_cases hlower : halved (F := F) d.rateControl.minConfiguredBitrate d.rateControl.currentBitrate <
          d.rateControl.currentBitrate
      · rw [if_pos hlower] at htime
        rw [if_pos hlower]
        exact halvesWhenDue_noted calls htime hnext
      · rw [if_neg hlower] at htime
        rw [if_neg hlower, ih hvalid' (by rw [htime]; exact hinf) hnext, hmin, hcurrent]

theorem halvesWhenDue_iff (calls : List BackOffCall) (hvalid : d.rateControl.validEstimate = true)
    (hover : d.OverusingAt calls) :
    d.HalvesWhenDue calls ↔ d.NoneDueAgain (calls.map BackOffCall.atTime) := by
  unfold NoneDueAgain
  cases hlast : d.rateControl.timeLastBitrateDecrease with
  | finite last => exact halvesWhenDue_noted calls hlast hover
  | minusInfinity => exact halvesWhenDue_first calls hvalid (by rw [hlast]; rfl) hover
  | plusInfinity => exact halvesWhenDue_first calls hvalid (by rw [hlast]; rfl) hover

end Calls

section Division
variable {K : Type} [Field K] [LinearOrder K] [IsStrictOrderedRing K] [FloorRing K] (r : Rounding K)

/-- Up to 2^54 bit/s the half that passes through a double is the integer one. -/
theorem divInt_two_eq {v : Int} (h : |v| ≤ 2 ^ 54) :
    (.finite v : DataRate).divInt (Double r) 2 = .finite (v.tdiv 2) := by
  have hsmall : |v.tdiv 2| ≤ 2 ^ 53 := by
    have hdiv : (v.tdiv 2).natAbs = v.natAbs / 2 := Int.natAbs_tdiv v 2
    rw [Int.abs_eq_natAbs] at h ⊢
    omega
  exact UnitBase.divInt_eq hsmall

end Division

section Stopped

/-- A packet every 10 ms, each with 10 ms more delay than the one before. -/
def delayed (n : Nat) : PacketResult where
  sentPacket := { sequenceNumber := n, sendTime := .micros (10000 * n) }
  receiveTime := .micros (20000 * n)

def startedAt300k : DelayBasedBwe Rational :=
  ({} : DelayBasedBwe Rational).setStartBitrate (.bitsPerSec 300000)

/-- Enough packets for an overuse. -/
def firstBackOff : BackOffCall where
  packets := (List.range 23).map delayed
  atTime := 600000

/-- One more packet, and the next call after the given time. -/
def nextBackOff (laterUs : Int) : BackOffCall where
  packets := [delayed 23]
  atTime := 600000 + laterUs

def overuseAndAgain (laterUs : Int) : List BackOffCall := [firstBackOff, nextBackOff laterUs]

theorem overusingAt_overuseAndAgain : startedAt300k.OverusingAt (overuseAndAgain 199000) ∧
    startedAt300k.OverusingAt (overuseAndAgain 200000) := by
  refine ⟨⟨?_, ?_, trivial⟩, ⟨?_, ?_, trivial⟩⟩ <;> decide +kernel

theorem noneDueAgain_overuseAndAgain (laterUs : Int) :
    startedAt300k.NoneDueAgain ((overuseAndAgain laterUs).map BackOffCall.atTime) ↔
      laterUs < backOffIntervalUs := by
  change LowersOnce Rational (.finite 5000) (.finite 300000) [600000, 600000 + laterUs] ↔ _
  unfold LowersOnce
  rw [if_pos (by decide +kernel), List.forall_mem_singleton, add_sub_cancel_left]

end Stopped
end DelayBasedBwe
end ChromeGcc
