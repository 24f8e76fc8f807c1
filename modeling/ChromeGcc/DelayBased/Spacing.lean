import ChromeGcc.DelayBased.Falling
import ChromeGcc.Throughput.Samples

/-! How often the estimate is lowered. Every change of it is stamped, and overuse that comes soon
after one is waited out, unless the throughput has fallen below half of the estimate. -/
namespace ChromeGcc
open FloatArith UnitBase

namespace AimdRateControl
variable {F : Type} [FloatArith F] {c d : AimdRateControl F}

/-- An operation stamps the estimate with its time, or leaves both as they are. -/
structure Stamps (c d : AimdRateControl F) (t : Timestamp) : Prop where
  rtt : d.rtt = c.rtt
  stamp : d.timeLastBitrateChange = t ∨ (d.timeLastBitrateChange = c.timeLastBitrateChange ∧
    (c.bitrateIsInitialized = true → c.minConfiguredBitrate ≤ c.currentBitrate →
      d.currentBitrate = c.currentBitrate))

theorem Stamps.refl (c : AimdRateControl F) (t : Timestamp) : c.Stamps c t :=
  ⟨rfl, .inr ⟨rfl, fun _ _ => rfl⟩⟩

theorem stamps_setEstimate (c : AimdRateControl F) (bitrate : DataRate) (t : Timestamp) :
    c.Stamps (c.setEstimate bitrate t) t := by
  unfold setEstimate
  dsimp only
  split_ifs
  · exact ⟨rfl, .inl rfl⟩
  · exact ⟨rfl, .inl rfl⟩

variable {input : RateControlInput} {t : Timestamp}

theorem changeBitrate_idle (h : ¬ c.Acts input) : c.changeBitrate input t = { c with
    latestEstimatedThroughput := input.estimatedThroughput.getD c.latestEstimatedThroughput } := by
  obtain ⟨hnot, hcalm⟩ := not_or.mp h
  unfold changeBitrate
  dsimp only
  exact if_pos ⟨by simpa using hnot, hcalm⟩

theorem timeLastBitrateChange_activeState (h : (c.activeState input t).rateControlState = .kRcHold) :
    (c.activeState input t).timeLastBitrateChange = c.timeLastBitrateChange := by
  unfold activeState changeState at h ⊢
  cases hbw : input.bwState with
  | kBwUnderusing => rfl
  | kBwOverusing => rfl
  | kBwNormal =>
      rw [hbw] at h
      dsimp only at h ⊢
      split_ifs at h ⊢
      rfl

theorem stamps_changeBitrate (c : AimdRateControl F) (input : RateControlInput) (t : Timestamp) :
    c.Stamps (c.changeBitrate input t) t := by
  by_cases h : c.Acts input
  · obtain ⟨hfields, -, -⟩ := c.activeState_fields input t
    have hrtt : (c.activeState input t).rtt = c.rtt := congrArg RateFields.rtt hfields
    rw [changeBitrate_active c h]
    cases hstate : (c.activeState input t).rateControlState with
    | kRcHold =>
        refine ⟨hrtt, .inr ⟨timeLastBitrateChange_activeState hstate, fun _ hmin => ?_⟩⟩
        have hsettled := (c.activeState input t).rateFields_settle none
        refine (congrArg RateFields.currentBitrate hsettled).trans ?_
        change max (c.activeState input t).rateFields.currentBitrate
          (c.activeState input t).rateFields.minConfiguredBitrate = c.currentBitrate
        rw [hfields]
        exact max_eq_left hmin
    | kRcIncrease =>
        have hincrease := congrArg RateFields.rtt (changeBitrateIncrease_fields (c.activeState input t)
          (input.estimatedThroughput.getD c.latestEstimatedThroughput) t).1
        exact ⟨hincrease.trans hrtt, .inl rfl⟩
    | kRcDecrease =>
        obtain ⟨-, lastDecrease, hdecrease, -⟩ := changeBitrateDecrease_fields
          (c.activeState input t) (input.estimatedThroughput.getD c.latestEstimatedThroughput) t
        exact ⟨(congrArg RateFields.rtt hdecrease).trans hrtt, .inl rfl⟩
  · rw [changeBitrate_idle h]
    exact ⟨rfl, .inr ⟨rfl, fun _ _ => rfl⟩⟩

/-- An update stamps what it changes, also where it starts the estimate. -/
theorem stamps_update (c : AimdRateControl F) (input : RateControlInput) (t : Timestamp) :
    c.Stamps (c.update input t) t := by
  by_cases hinit : c.bitrateIsInitialized = true
  · rw [update, initializeBitrate_of_initialized hinit]
    exact stamps_changeBitrate c input t
  · have hfresh : ∀ d : AimdRateControl F, d.rtt = c.rtt →
        d.timeLastBitrateChange = c.timeLastBitrateChange → c.Stamps (d.changeBitrate input t) t := by
      intro d hrtt htime
      obtain ⟨hkept, hstamp⟩ := stamps_changeBitrate d input t
      refine ⟨hkept.trans hrtt, hstamp.imp_right fun h => ⟨h.1.trans htime, ?_⟩⟩
      intro hyes
      exact absurd hyes hinit
    unfold update
    rcases initializeBitrate_cases c input t with h | h | ⟨x, -, h⟩
    · rw [h]
      exact hfresh _ rfl rfl
    · rw [h]
      exact hfresh _ rfl rfl
    · rw [h]
      exact hfresh _ rfl rfl

/-- An estimate starts with a throughput, or with overuse. -/
theorem known_of_update (h : (c.update input t).bitrateIsInitialized = true) :
    c.bitrateIsInitialized = true ∨ input.estimatedThroughput.isSome = true ∨
      input.bwState = .kBwOverusing := by
  have hkept : ∀ d : AimdRateControl F, (d.changeBitrate input t).bitrateIsInitialized = true →
      d.bitrateIsInitialized = true ∨ input.bwState = .kBwOverusing := by
    intro d hd
    by_contra hidle
    rw [changeBitrate_idle hidle] at hd
    exact hidle (.inl hd)
  unfold update at h
  rcases initializeBitrate_cases c input t with hc | hc | ⟨x, hx, -⟩
  · rw [hc] at h
    exact (hkept _ h).imp_right .inr
  · rw [hc] at h
    exact (hkept _ h).imp_right .inr
  · rw [hx]
    exact .inr (.inl rfl)

end AimdRateControl

namespace DelayBasedBwe
variable {F : Type} [FloatArith F] (d : DelayBasedBwe F) (acked : Option DataRate) (t : Timestamp)

/-- What an estimate does to the rate control in time: its changes are stamped, on overuse they wait
until it is time to reduce further, and only a throughput starts the estimate. -/
structure Spaces (c : AimdRateControl F) (verdict : BandwidthUsage) (acked : Option DataRate)
    (t : Timestamp) (after : AimdRateControl F) : Prop where
  stamps : c.Stamps after t
  due : verdict = .kBwOverusing → ∀ x, acked = some x →
    after.currentBitrate = c.currentBitrate ∨ c.timeToReduceFurther t x = true
  known : after.bitrateIsInitialized = true → c.bitrateIsInitialized = true ∨ acked.isSome = true

theorem spaces_maybeUpdateEstimate (recovered : Bool) :
    Spaces d.rateControl d.activeState acked t
      (d.maybeUpdateEstimate acked recovered false t).1.rateControl := by
  cases d.outcome_maybeUpdateEstimate acked recovered t with
  | waits hover hrate hnot =>
      constructor
      all_goals rw [hrate]
      · exact .refl _ t
      · exact fun _ _ _ => .inl rfl
      · exact .inl
  | updates hknown hrate hupdated htarget hdue =>
      constructor
      · rw [hrate]
        exact AimdRateControl.stamps_update _ _ t
      · exact fun hover x hx => .inr (hdue hover x hx)
      · intro hinit
        rw [hrate] at hinit
        rcases AimdRateControl.known_of_update hinit with h | h | h
        · exact .inl h
        · exact .inr h
        · exact .inr (hknown h)
  | halves hover hvalid hrate hupdated htarget hunknown =>
      constructor
      · rw [hrate]
        exact AimdRateControl.stamps_setEstimate _ _ t
      · intro _ x hx
        rw [hunknown] at hx
        cases hx
      · exact fun _ => .inl hvalid

theorem spaces_incomingPacketFeedbackVector {msg : TransportPacketsFeedback}
    (hmsg : ¬ msg.sortedByReceiveTime.isEmpty = true) :
    Spaces d.rateControl (d.incomingPacketFeedbackVector msg acked false).1.activeState acked
      msg.feedbackTime (d.incomingPacketFeedbackVector msg acked false).1.rateControl := by
  have hfed := rateControl_feedPackets d msg.sortedByReceiveTime msg.feedbackTime
  unfold incomingPacketFeedbackVector
  dsimp only
  rw [if_neg hmsg, activeState_maybeUpdateEstimate, hfed]
  obtain ⟨hstamps, hdue, hknown⟩ := spaces_maybeUpdateEstimate
    { (d.feedPackets msg.sortedByReceiveTime msg.feedbackTime).1 with
      rateControl := d.rateControl.setInApplicationLimitedRegion false } acked msg.feedbackTime
    (d.feedPackets msg.sortedByReceiveTime msg.feedbackTime).2.1
  exact ⟨⟨hstamps.rtt, hstamps.stamp⟩, hdue, hknown⟩

end DelayBasedBwe

section Doubles
variable {K : Type} [Field K] [LinearOrder K] [FloorRing K] {r : Rounding K}

namespace BitrateEstimator
variable {b : BitrateEstimator (Double r)}

theorem estimateFloor_update (b : BitrateEstimator (Double r)) (t : Timestamp) (amount : DataSize) :
    (b.update t amount).estimateFloor = b.estimateFloor := by
  unfold update
  rw [updateWindow_eq]
  dsimp only
  split_ifs <;> rfl

theorem weigh_not_neg (hfloor : b.estimateFloor = .zero) (kbps : Double r) :
    ¬ (b.weigh kbps).bitrateEstimateKbps < flit 0 := by
  rw [lt_iff, val_flit_zero, not_lt]
  unfold weigh
  dsimp only
  rw [val_stdMax, hfloor, val_kbpsFloat_zero]
  exact le_max_right _ _

/-- An estimate that is not negative never becomes so. -/
theorem update_not_neg (b : BitrateEstimator (Double r)) (hfloor : b.estimateFloor = .zero)
    (h : ¬ b.bitrateEstimateKbps < flit 0) (t : Timestamp) (amount : DataSize) :
    ¬ (b.update t amount).bitrateEstimateKbps < flit 0 := by
  unfold update
  rw [updateWindow_eq]
  dsimp only
  generalize (if b.window.Emits t.ms b.rateWindowMs then _ else _) = kbps
  by_cases hnone : kbps < flit 0
  · rw [if_pos hnone]
    exact h
  · rw [if_neg hnone]
    have hknown : ¬ (b.withWindow (b.window.next t.ms (toInt32 amount.bytes)
        b.rateWindowMs)).bitrateEstimateKbps < flit 0 := h
    rw [if_neg hknown]
    exact weigh_not_neg hfloor kbps

theorem isSome_bitrate_iff : b.bitrate.isSome = true ↔ ¬ b.bitrateEstimateKbps < flit 0 := by
  unfold bitrate
  split_ifs with h
  · exact iff_of_false Bool.false_ne_true (not_not.mpr h)
  · exact iff_of_true rfl h

end BitrateEstimator

namespace AcknowledgedBitrateEstimator
variable {a : AcknowledgedBitrateEstimator (Double r)}

/-- A throughput that is known stays known. -/
theorem known_incomingPackets (hfloor : a.bitrateEstimator.estimateFloor = .zero)
    (packets : List PacketResult) :
    (a.incomingPacketFeedbackVector packets).bitrateEstimator.estimateFloor = .zero ∧
      (a.bitrate.isSome = true → (a.incomingPacketFeedbackVector packets).bitrate.isSome = true) := by
  unfold incomingPacketFeedbackVector
  induction packets generalizing a with
  | nil => exact ⟨hfloor, id⟩
  | cons packet packets ih =>
      have hstep : (a.incomingPacket packet).bitrateEstimator.estimateFloor = .zero ∧
          (a.bitrate.isSome = true → (a.incomingPacket packet).bitrate.isSome = true) := by
        have hupdated : ∀ b : BitrateEstimator (Double r), b.estimateFloor = .zero →
            b.bitrateEstimateKbps = a.bitrateEstimator.bitrateEstimateKbps → ∀ t amount,
              (b.update t amount).estimateFloor = .zero ∧
                (a.bitrate.isSome = true → (b.update t amount).bitrate.isSome = true) := by
          intro b hb hsame t amount
          refine ⟨(b.estimateFloor_update t amount).trans hb, fun h => ?_⟩
          rw [bitrate, BitrateEstimator.isSome_bitrate_iff, ← hsame] at h
          exact BitrateEstimator.isSome_bitrate_iff.mpr (b.update_not_neg hb h t amount)
        unfold incomingPacket
        dsimp only
        split
        · split_ifs
          · exact hupdated a.bitrateEstimator.expectFastRateChange hfloor rfl _ _
          · exact hupdated a.bitrateEstimator hfloor rfl _ _
        · exact hupdated a.bitrateEstimator hfloor rfl _ _
      rw [List.foldl_cons]
      obtain ⟨hkept, hknown⟩ := ih hstep.1
      exact ⟨hkept, fun h => hknown (hstep.2 h)⟩

end AcknowledgedBitrateEstimator

namespace AimdRateControl
variable [IsStrictOrderedRing K]

/-- Below a rate that is scaled by a half, without rounding. -/
theorem twice_lt_of_lt_half (hr : r.IsExact) {x v : Int}
    (h : (.finite x : DataRate) < (.finite v : DataRate).scale (lit 0.5 : Double r)) : 2 * x < v := by
  by_contra hnot
  have hcast : (v : K) ≤ 2 * x := by exact_mod_cast not_lt.mp hnot
  refine absurd h (not_lt.mpr (finite_le_finite.mpr (truncField_le ?_)))
  rw [val_round, Int.cast_le, toValue_finite]
  refine roundField_le ?_
  rw [val_mul, val_ofInt, val_lit_exact hr, hr.rnd, hr.rnd]
  norm_num
  linarith

/-- It is time to reduce further 200 ms after the last change, or once the throughput is below half
of the estimate. -/
theorem due_of_timeToReduceFurther (hr : r.IsExact) {c : AimdRateControl (Double r)}
    (hrtt : c.rtt = kDefaultRtt) {t : Timestamp} {x v : Int} (hv : c.currentBitrate = .finite v)
    (h : c.timeToReduceFurther t (.finite x) = true) :
    .millis 200 ≤ (t - c.timeLastBitrateChange : TimeDelta) ∨ 2 * x < v := by
  have hinterval : c.rtt.clamped (.millis 10) (.millis 200) = .millis 200 := by
    rw [hrtt]
    decide
  unfold timeToReduceFurther at h
  dsimp only at h
  rw [hinterval] at h
  split_ifs at h with hlong hvalid
  · exact .inl hlong
  · right
    rw [latestEstimate, hv] at h
    exact twice_lt_of_lt_half hr (of_decide_eq_true h)

end AimdRateControl
end Doubles
end ChromeGcc
