import ChromeGcc.DelayBased.Outcome
import ChromeGcc.DelayBased.Stream

/-! The verdict of the detector and the estimate: overuse never raises it, and nothing but overuse
lowers it. -/
namespace ChromeGcc
open FloatArith UnitBase

namespace DelayBasedBwe

section Frame
variable {F : Type} [FloatArith F] {d : DelayBasedBwe F} {stream : List TimedPacket}

theorem Streams.maybeUpdateEstimate (h : d.Streams stream) (acked : Option DataRate)
    (recovered inAlr : Bool) (t : Timestamp) :
    (d.maybeUpdateEstimate acked recovered inAlr t).1.Streams stream := by
  obtain ⟨_, _, _, _, hwrites⟩ := d.maybeUpdateEstimate_writes acked recovered t inAlr
  rw [hwrites]
  exact ⟨h.noAudio, h.active, h.lastSeen, h.groups, h.detector⟩

end Frame

section Exact
variable {K : Type} [Field K] [LinearOrder K] [FloorRing K] {r : Rounding K} {now : Int}

/-- What an estimate does to the rate on the verdict of the detector, and what it reports. -/
structure Judges (c : AimdRateControl (Double r)) (verdict : BandwidthUsage)
    (after : DelayBasedBwe (Double r) × BweResult) (now : Int) : Prop where
  settled : after.1.rateControl.Settled now
  kept : c.bitrateIsInitialized = true → after.1.rateControl.bitrateIsInitialized = true
  falls : c.bitrateIsInitialized = true → verdict = .kBwOverusing →
    after.1.rateControl.currentBitrate ≤ c.currentBitrate
  rises : c.bitrateIsInitialized = true → verdict ≠ .kBwOverusing →
    c.currentBitrate ≤ after.1.rateControl.currentBitrate
  reported : after.2.updated = true → after.1.rateControl.bitrateIsInitialized = true ∧
    after.2.targetBitrate = after.1.rateControl.currentBitrate
  silent : after.2.updated = false → c.bitrateIsInitialized = true →
    after.1.rateControl.currentBitrate = c.currentBitrate

variable [IsStrictOrderedRing K]

theorem divInt_exact (hr : r.IsExact) (v : Int) :
    (.finite v : DataRate).divInt (Double r) 2 = .finite (v.tdiv 2) := by
  change (.finite (truncField ((roundField (r.rnd ((v.tdiv 2 : Int) : K)) : Int) : K)) : DataRate) = _
  rw [hr.rnd, roundField_intCast, truncField_intCast]

/-- Half of an estimate is not above it. -/
theorem setEstimate_half_le (hr : r.IsExact) {c : AimdRateControl (Double r)} (h : c.Settled now)
    (hk : c.Kept) (t : Timestamp) :
    (c.setEstimate (c.latestEstimate.divInt (Double r) 2) t).currentBitrate ≤ c.currentBitrate := by
  obtain ⟨-, -, hrate, -⟩ := setEstimate_half c t
  refine hrate.trans_le (max_le h.minLe ?_)
  obtain ⟨v, hv⟩ := isFinite_iff.mp hk.sound.rateFinite
  change c.currentBitrate = .finite v at hv
  have hfloor := hk.fiveKbps_le
  rw [hv] at hfloor ⊢
  have hpos : 5000 ≤ v := finite_le_finite.mp hfloor
  rw [divInt_exact hr, finite_le_finite, Int.tdiv_eq_ediv_of_nonneg (by omega)]
  omega

theorem judges_maybeUpdateEstimate (hr : r.IsExact) {d : DelayBasedBwe (Double r)}
    (h : d.rateControl.Settled now) (hk : d.rateControl.Kept) (acked : Option DataRate)
    (recovered : Bool) : Judges d.rateControl d.activeState
      (d.maybeUpdateEstimate acked recovered false (.finite now)) now := by
  cases d.outcome_maybeUpdateEstimate acked recovered (.finite now) with
  | waits hover hrate hnot =>
      constructor
      all_goals rw [hrate]
      case settled => exact h
      case kept => exact id
      case falls => exact fun _ _ => le_refl _
      case rises => exact fun _ hcalm => absurd hover hcalm
      case reported =>
        intro hu
        rw [hnot] at hu
        cases hu
      case silent => exact fun _ _ => rfl
  | updates hknown hrate hupdated htarget =>
      have hinit : d.rateControl.bitrateIsInitialized = true →
          (d.rateControl.update ⟨d.activeState, acked⟩ (.finite now)).bitrateIsInitialized = true := by
        intro hbefore
        rw [AimdRateControl.update, AimdRateControl.initializeBitrate_of_initialized hbefore]
        exact AimdRateControl.changeBitrate_initialized (.inl hbefore) _
      constructor
      case settled =>
        rw [hrate]
        exact h.update _
      case kept =>
        rw [hrate]
        exact hinit
      case falls =>
        intro hbefore hover
        rw [hrate, AimdRateControl.update, AimdRateControl.initializeBitrate_of_initialized hbefore]
        exact h.overusing_le hover _
      case rises =>
        intro hbefore hcalm
        rw [hrate]
        exact (h.rises hbefore hcalm).2
      case reported =>
        intro hu
        exact ⟨hupdated ▸ hu, htarget⟩
      case silent =>
        intro hnot hbefore
        rw [hupdated, hrate, hinit hbefore] at hnot
        cases hnot
  | halves hover hvalid hrate hupdated htarget =>
      have hinit := (setEstimate_half d.rateControl (.finite now)).1
      constructor
      case settled =>
        rw [hrate]
        exact h.setEstimate _
      case kept =>
        rw [hrate]
        exact fun _ => hinit
      case falls =>
        rw [hrate]
        exact fun _ _ => setEstimate_half_le hr h hk _
      case rises => exact fun _ hcalm => absurd hover hcalm
      case reported =>
        intro _
        refine ⟨?_, htarget⟩
        rw [hrate]
        exact hinit
      case silent =>
        intro hnot
        rw [hupdated] at hnot
        cases hnot

/-- The feedback of one packet: the stream goes on, and the detector judges the rate. -/
theorem judges_incomingPacketFeedbackVector (hr : r.IsExact) {d : DelayBasedBwe (Double r)}
    {stream : List TimedPacket} {msg : TransportPacketsFeedback} {packet : PacketResult}
    (hmsg : msg.sortedByReceiveTime = [packet]) (htime : msg.feedbackTime = .finite now)
    (hs : d.Streams stream) (hlast : ∀ last ∈ stream.getLast?, last.systemTime.isFinite = true)
    (h : d.rateControl.Settled now) (hk : d.rateControl.Kept) (acked : Option DataRate) :
    Judges d.rateControl (d.incomingPacketFeedbackVector msg acked false).1.activeState
        (d.incomingPacketFeedbackVector msg acked false) now ∧
      (d.incomingPacketFeedbackVector msg acked false).1.Streams
        (continueStream stream (timedPacket packet msg.feedbackTime)) := by
  have hfed := hs.incomingPacketFeedback hlast packet msg.feedbackTime
  have hkept := rateControl_incomingPacketFeedback d packet msg.feedbackTime
  unfold incomingPacketFeedbackVector
  rw [hmsg]
  dsimp only [List.isEmpty_cons, feedPackets, List.foldl_cons, List.foldl_nil, feedPacket]
  rw [if_neg Bool.false_ne_true, activeState_maybeUpdateEstimate]
  generalize d.incomingPacketFeedback packet msg.feedbackTime = fed at hfed hkept ⊢
  rw [htime] at hfed ⊢
  have hsettled : (fed.rateControl.setInApplicationLimitedRegion false).Settled now := by
    rw [hkept]
    exact ⟨h.minLe, h.notDecrease, h.lastChange⟩
  have hstreams : Streams ({ fed with
      rateControl := fed.rateControl.setInApplicationLimitedRegion false }) _ :=
    ⟨hfed.noAudio, hfed.active, hfed.lastSeen, hfed.groups, hfed.detector⟩
  refine ⟨?_, hstreams.maybeUpdateEstimate _ _ _ _⟩
  have hjudges := judges_maybeUpdateEstimate (d := { fed with
    rateControl := fed.rateControl.setInApplicationLimitedRegion false }) hr hsettled
    ((hkept ▸ hk).setInApplicationLimitedRegion false) acked
  obtain ⟨hset, hinit, hfalls, hrises, hreported, hsilent⟩ := hjudges _
  rw [← hkept]
  exact ⟨hset, hinit, hfalls, hrises, hreported, hsilent⟩

end Exact
end DelayBasedBwe
end ChromeGcc
