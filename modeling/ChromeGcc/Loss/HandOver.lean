import ChromeGcc.Loss.IndexSafety

/-! The three timers of the collection fit together: at every packet, whatever its
number, the assertions of a hand-over hold. -/
namespace ChromeGcc
namespace ReceiverLossCollection
open ReceiveVector Machine

section Step
variable (F : Type) [FloatArith F] {c : ReceiverLossCollection} {now : Timestamp} {p : PacketResult}

/-- The states in which a packet tries a report: a late number is first written. -/
def ReportTried (c : ReceiverLossCollection) (p : PacketResult) (c₁ : ReceiverLossCollection) : Prop :=
  if p.number < c.inEffectVector.firstPacketNumber then c.updateWaitVector p = .ok c₁ else c₁ = c

/-- The in-effect window of c₁ ends at the packet, which c₁ has recorded. -/
structure EffectEnds (c : ReceiverLossCollection) (p : PacketResult) (c₁ : ReceiverLossCollection) :
    Prop where
  current : c.inEffectVector.firstPacketNumber ≤ p.number
  recorded : (c.afterReport p.receiveTime).recordInEffect p = .ok c₁
  ended : p.receiveTime > c₁.inEffectVector.firstReceivedTime + receiveDuration

/-- The hand-over assertions hold at the packet, each where the source makes it. -/
structure HandOverSafe (c : ReceiverLossCollection) (p : PacketResult) : Prop where
  waitEmpty : ∀ c₁, c.EffectEnds p c₁ → (c₁.updateRtt F p).waitVector.receivedVector = []
  effectEmpty : ∀ c₁, c.EffectEnds p c₁ →
    (c₁.updateRtt F p).handOver.inEffectVector.receivedVector = []
  effectOpen : ∀ c₁, c.ReportTried p c₁ → c₁.ReportDue p.receiveTime →
    c₁.inEffectVector.largestReceivedTime <
      c₁.inEffectVector.firstReceivedTime + receiveDuration
  onlyIndex : ∀ e, c.onTransportPacketFeedback F p = .error e → e.ofIndex = true

/-- When the in-effect window ends, the report of the waiting one is already out. -/
theorem Sound.wait_empty_at_end (h : Sound c now) (hp : p.Valid) (ht : now ≤ p.receiveTime)
    {c₁ : ReceiverLossCollection} (hend : c.EffectEnds p c₁) : c₁.waitVector.receivedVector = [] := by
  obtain ⟨hn, hrec, hended⟩ := hend
  obtain ⟨hl, rfl⟩ | ⟨hl, -, rfl⟩ := recordInEffect_ok hrec
  · rw [afterReport_inEffect] at hl
    exact (h.afterFresh hp ht hl).wait_empty (afterFresh_ne_nil c p) hended
  · rw [afterReport_inEffect] at hl
    refine ((h.afterReport ht).markWait _).wait_empty ?_ hended
    rw [markWait_inEffect, afterReport_inEffect]
    exact h.ne_nil_of_inside hp hl

theorem Sound.reportTried (h : Sound c now) {c₁ : ReceiverLossCollection} (hc : c.ReportTried p c₁) :
    Sound c₁ now := by
  unfold ReportTried at hc
  split_ifs at hc with hn
  · obtain ⟨-, -, rfl⟩ := updateWaitVector_ok hc
    exact h.markWait _
  · rw [hc]
    exact h

theorem Sound.handOverSafe (h : Sound c now) (hp : p.Valid) (ht : now ≤ p.receiveTime) :
    c.HandOverSafe F p := by
  constructor
  case waitEmpty =>
    intro c₁ hend
    have hw : c₁.waitVector.receivedVector = [] := h.wait_empty_at_end hp ht hend
    exact hw
  case effectEmpty =>
    -- the waiting window becomes the in-effect one
    intro c₁ hend
    have hw : c₁.waitVector.receivedVector = [] := h.wait_empty_at_end hp ht hend
    exact hw
  case effectOpen =>
    intro c₁ htried hdue
    exact (h.reportTried htried).effect_open hdue
  case onlyIndex =>
    intro e he
    exact h.step_error F hp ht he

end Step

/-- Whatever the order of the numbers, the hand-over assertions hold at every packet that
is reached, and a run fails, if at all, at an index. -/
theorem hand_overs_hold (F : Type) [FloatArith F] (ps : List PacketResult) (ha : Arrivals ps) :
    (∀ pre p post os c, ps = pre ++ p :: post →
      Trace (onTransportPacketFeedback F) {} pre os c → c.HandOverSafe F p) ∧
    ∀ e, run (onTransportPacketFeedback F) {} ps = .error e → e.ofIndex = true := by
  have reached : ∀ pre p post os c, ps = pre ++ p :: post →
      Trace (onTransportPacketFeedback F) {} pre os c → c.HandOverSafe F p := by
    intro pre p post os c hps ht
    rw [hps, List.append_cons] at ha
    have hpre := ha.of_append
    exact (sound_of_trace F hpre.of_append ht).handOverSafe F hpre.last_valid hpre.lastTime_le
  refine ⟨reached, ?_⟩
  intro e hrun
  obtain ⟨pre, p, post, os, c, hps, ht, hstep⟩ := run_error_iff.mp hrun
  exact (reached pre p post os c hps ht).onlyIndex e hstep

/-- A late packet, and a packet that ends a window while the next one is open. -/
theorem hand_overs_hold_reordered :
    let ps := [packetAt 1 0, packetAt 3 150, packetAt 5 201, packetAt 2 310, packetAt 6 402]
    (∀ pre p post os c, ps = pre ++ p :: post →
      Trace rationalStep {} pre os c → c.HandOverSafe FloatArith.Rational p) ∧
    ∀ e, run rationalStep {} ps = .error e → e.ofIndex = true :=
  hand_overs_hold FloatArith.Rational
    [packetAt 1 0, packetAt 3 150, packetAt 5 201, packetAt 2 310, packetAt 6 402]
    ⟨by decide, by decide⟩

end ReceiverLossCollection
end ChromeGcc
