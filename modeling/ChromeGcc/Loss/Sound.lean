import ChromeGcc.Loss.Steps

/-! The shape and the timing of the two windows, kept by every packet that succeeds.
With them the assertions of a hand-over never fail: only an index can. -/
namespace ChromeGcc

/-- A sequence number that the receiver can be handed: positive and within int64. -/
def PacketResult.Valid (p : PacketResult) : Prop :=
  1 ≤ p.sentPacket.sequenceNumber ∧ p.sentPacket.sequenceNumber < 9223372036854775808

instance (p : PacketResult) : Decidable p.Valid := inferInstanceAs (Decidable (_ ∧ _))

theorem PacketResult.Valid.number_eq {p : PacketResult} (h : p.Valid) :
    (p.number : Int) = p.sentPacket.sequenceNumber := by
  have := h.1
  have := h.2
  unfold PacketResult.number toUint64
  omega

theorem PacketResult.Valid.pos {p : PacketResult} (h : p.Valid) : 0 < p.number := by
  have := h.number_eq
  have := h.1
  omega

theorem PacketResult.Valid.lt {p : PacketResult} (h : p.Valid) : p.number < 9223372036854775808 := by
  have := h.number_eq
  have := h.2
  omega

namespace ReceiveVector

/-- A window that holds nothing, as the constructor and Reset leave it. -/
structure Blank (w : ReceiveVector) : Prop where
  vector : w.receivedVector = []
  largest : w.largestPacketNumber = 0
  firstTime : w.firstReceivedTime = .micros 0
  largestTime : w.largestReceivedTime = .micros 0

/-- A window with one entry for each number from its first to its largest. -/
structure Spans (w : ReceiveVector) : Prop where
  pos : 0 < w.firstPacketNumber
  le : w.firstPacketNumber ≤ w.largestPacketNumber
  lt : w.largestPacketNumber < 9223372036854775808
  length : w.receivedVector.length = w.largestPacketNumber + 1 - w.firstPacketNumber
  received : true ∈ w.receivedVector

theorem blank_reset : reset.Blank := ⟨rfl, rfl, rfl, rfl⟩

theorem Spans.ne_nil {w : ReceiveVector} (h : w.Spans) : w.receivedVector ≠ [] :=
  List.ne_nil_of_mem h.received

theorem Spans.receivedCount_ne {w : ReceiveVector} (h : w.Spans) : w.receivedCount ≠ 0 :=
  (List.count_pos_iff.mpr h.received).ne'

theorem Blank.receivedCount_eq {w : ReceiveVector} (h : w.Blank) : w.receivedCount = 0 := by
  rw [receivedCount, h.vector, List.count_nil]

theorem true_mem_set {l : List Bool} (h : true ∈ l) (i : Nat) : true ∈ l.set i true := by
  by_cases hi : i < l.length
  · exact List.mem_set hi true
  · rw [List.set_eq_of_length_le (not_lt.mp hi)]
    exact h

theorem Spans.set {w : ReceiveVector} (h : w.Spans) (i : Nat) :
    ReceiveVector.Spans { w with receivedVector := w.receivedVector.set i true } where
  pos := h.pos
  le := h.le
  lt := h.lt
  length := by rw [List.length_set]; exact h.length
  received := true_mem_set h.received i

theorem recordNew_blank {e : ReceiveVector} (h : e.receivedVector = []) (p : PacketResult) :
    e.recordNew p =
      { e with
        receivedVector := [true]
        firstReceivedTime := p.receiveTime
        largestReceivedTime := p.receiveTime
        firstPacketNumber := p.number
        largestPacketNumber := p.number } := by
  rw [recordNew, if_pos h]

theorem recordNew_spans {e : ReceiveVector} (h : e.receivedVector ≠ []) (p : PacketResult) :
    e.recordNew p =
      { e with
        receivedVector := e.receivedVector ++
          List.replicate (p.number - (e.largestPacketNumber + 1)) false ++ [true]
        largestPacketNumber := p.number
        largestReceivedTime := p.receiveTime } := by
  rw [recordNew, if_neg h]

theorem recordNew_ne_nil (e : ReceiveVector) (p : PacketResult) :
    (e.recordNew p).receivedVector ≠ [] := by
  unfold recordNew
  split_ifs <;> simp

/-- A recorded number always leaves a spanning window. -/
theorem Spans.recordNew {e : ReceiveVector} {p : PacketResult} (hp : p.Valid)
    (h : e.Blank ∨ e.Spans) (hn : e.largestPacketNumber < p.number) : (e.recordNew p).Spans := by
  have hpos := hp.pos
  have hlt := hp.lt
  cases h with
  | inl h =>
      rw [recordNew_blank h.vector]
      exact ⟨hpos, le_refl _, hlt, by simp, by simp⟩
  | inr h =>
      rw [recordNew_spans h.ne_nil]
      have hle := h.le
      have hlen := h.length
      refine ⟨h.pos, by dsimp only; omega, hlt, ?_, by simp⟩
      simp only [List.length_append, List.length_replicate, List.length_singleton]
      omega

end ReceiveVector

namespace ReceiverLossCollection
open ReceiveVector

/-- What holds after every packet: `now` is the receive time of the last one. -/
structure Sound (c : ReceiverLossCollection) (now : Timestamp) : Prop where
  effect : c.inEffectVector.Blank ∨ c.inEffectVector.Spans
  wait : c.waitVector.Blank ∨ c.waitVector.Spans
  effectFirst : c.inEffectVector.firstPacketNumber ≤ 9223372036854775808
  effectTime : c.inEffectVector.receivedVector ≠ [] →
    c.inEffectVector.firstReceivedTime ≤ c.inEffectVector.largestReceivedTime ∧
      c.inEffectVector.largestReceivedTime ≤ now
  waitDuration : c.waitVector.receivedVector ≠ [] →
    c.waitVector.waitDuration ≤ receiveDuration - .millis 10
  waitEnded : c.waitVector.receivedVector ≠ [] →
    c.waitVector.firstReceivedTime + receiveDuration < now
  apart : c.waitVector.receivedVector ≠ [] → c.inEffectVector.receivedVector ≠ [] →
    now ≤ c.waitVector.deadline ∧
      c.waitVector.firstReceivedTime + receiveDuration < c.inEffectVector.firstReceivedTime

/-- A waiting window's deadline passes before a window opened after its end ends. -/
theorem deadline_bound {w : ReceiveVector} {t u : Timestamp}
    (hd : w.waitDuration ≤ receiveDuration - .millis 10)
    (ht : w.firstReceivedTime + receiveDuration < t) (hu : u ≤ w.deadline) :
    u < t + receiveDuration := by
  have gap : ∀ {f t u : Timestamp} {d : TimeDelta}, d ≤ .finite 190000 →
      f + TimeDelta.micros 200000 < t → u ≤ f + TimeDelta.micros 200000 + d →
      u < t + TimeDelta.micros 200000 := by
    intro f t u d hd ht hu
    cases f <;> cases d <;> cases t <;> cases u <;> simp_all
    omega
  exact gap hd ht hu

theorem getWaitDuration_le (c : ReceiverLossCollection) :
    c.getWaitDuration ≤ receiveDuration - .millis 10 := by
  unfold getWaitDuration
  refine max_le (min_le_right _ _) ?_
  decide

theorem sound_init : Sound {} .minusInfinity where
  effect := .inl ⟨rfl, rfl, rfl, rfl⟩
  wait := .inl ⟨rfl, rfl, rfl, rfl⟩
  effectFirst := by decide
  effectTime h := absurd rfl h
  waitDuration h := absurd rfl h
  waitEnded h := absurd rfl h
  apart h := absurd rfl h

section Operations
variable {c c' : ReceiverLossCollection} {now t : Timestamp} {p : PacketResult}

theorem Sound.wait_spans (h : Sound c now) (hw : c.waitVector.receivedVector ≠ []) :
    c.waitVector.Spans :=
  h.wait.resolve_left fun hb => hw hb.vector

theorem Sound.effect_spans (h : Sound c now) (he : c.inEffectVector.receivedVector ≠ []) :
    c.inEffectVector.Spans :=
  h.effect.resolve_left fun hb => he hb.vector

theorem Sound.le_deadline (h : Sound c now) (hd : ¬ c.ReportDue t)
    (hw : c.waitVector.receivedVector ≠ []) : t ≤ c.waitVector.deadline := by
  by_contra hlt
  exact hd ⟨not_le.mp hlt, (h.wait_spans hw).receivedCount_ne⟩

/-- The report's assertion holds whenever the report is due. -/
theorem Sound.effect_open (h : Sound c now) (hd : c.ReportDue t) :
    c.inEffectVector.largestReceivedTime < c.inEffectVector.firstReceivedTime + receiveDuration := by
  have hw : c.waitVector.receivedVector ≠ [] := by
    intro hw
    exact hd.2 (by rw [ReceiveVector.receivedCount, hw, List.count_nil])
  by_cases he : c.inEffectVector.receivedVector = []
  · have hb := h.effect.resolve_right fun hs => hs.ne_nil he
    rw [hb.firstTime, hb.largestTime]
    decide
  · obtain ⟨hnow, hstart⟩ := h.apart hw he
    exact deadline_bound (h.waitDuration hw) hstart ((h.effectTime he).2.trans hnow)

theorem Sound.maybeGenerateReport_eq (h : Sound c now) :
    c.maybeGenerateReport t = .ok (c.afterReport t, c.reportAt t) := by
  unfold maybeGenerateReport onNewReportGenerated afterReport reportAt
  split_ifs with hd hlt
  · rfl
  · exact absurd (h.effect_open hd) hlt
  · rfl

theorem Sound.afterReport (h : Sound c now) (hn : now ≤ t) : Sound (c.afterReport t) t := by
  unfold ReceiverLossCollection.afterReport
  split_ifs with hd
  · exact {
      effect := h.effect
      wait := .inl blank_reset
      effectFirst := h.effectFirst
      effectTime := fun he => ⟨(h.effectTime he).1, (h.effectTime he).2.trans hn⟩
      waitDuration := fun hw => absurd rfl hw
      waitEnded := fun hw => absurd rfl hw
      apart := fun hw => absurd rfl hw }
  · exact {
      effect := h.effect
      wait := h.wait
      effectFirst := h.effectFirst
      effectTime := fun he => ⟨(h.effectTime he).1, (h.effectTime he).2.trans hn⟩
      waitDuration := h.waitDuration
      waitEnded := fun hw => (h.waitEnded hw).trans_le hn
      apart := fun hw he => ⟨h.le_deadline hd hw, (h.apart hw he).2⟩ }

/-- After a report was tried, a window that still waits has its deadline ahead. -/
theorem Sound.afterReport_deadline (h : Sound c now)
    (hw : (c.afterReport t).waitVector.receivedVector ≠ []) :
    t ≤ (c.afterReport t).waitVector.deadline := by
  unfold ReceiverLossCollection.afterReport at hw ⊢
  split_ifs at hw ⊢ with hd
  · exact absurd rfl hw
  · exact h.le_deadline hd hw

theorem Sound.markWait (h : Sound c now) (i : Nat) : Sound (c.markWait i) now := by
  have hne : (c.markWait i).waitVector.receivedVector ≠ [] → c.waitVector.receivedVector ≠ [] := by
    intro hm hw
    exact hm (by simp only [ReceiverLossCollection.markWait, hw, List.set_nil])
  refine ⟨h.effect, ?_, h.effectFirst, h.effectTime, fun hw => h.waitDuration (hne hw),
    fun hw => h.waitEnded (hne hw), fun hw he => h.apart (hne hw) he⟩
  cases h.wait with
  | inl hb =>
      refine .inl ⟨?_, hb.largest, hb.firstTime, hb.largestTime⟩
      simp only [ReceiverLossCollection.markWait, hb.vector, List.set_nil]
  | inr hs => exact .inr (hs.set i)

/-- A fresh number is recorded at its receive time, before the window's end is tried. -/
theorem Sound.recordNew (h : Sound c p.receiveTime) (hp : p.Valid)
    (hn : c.inEffectVector.largestPacketNumber < p.number)
    (hd : c.waitVector.receivedVector ≠ [] → p.receiveTime ≤ c.waitVector.deadline) :
    Sound { c with inEffectVector := c.inEffectVector.recordNew p } p.receiveTime := by
  have hs := Spans.recordNew hp h.effect hn
  by_cases he : c.inEffectVector.receivedVector = []
  · refine ⟨.inr hs, h.wait, ?_, ?_, h.waitDuration, h.waitEnded, ?_⟩
    · rw [recordNew_blank he]
      exact hp.lt.le
    · rw [recordNew_blank he]
      exact fun _ => ⟨le_refl _, le_refl _⟩
    · rw [recordNew_blank he]
      exact fun hw _ => ⟨hd hw, h.waitEnded hw⟩
  · refine ⟨.inr hs, h.wait, ?_, ?_, h.waitDuration, h.waitEnded, ?_⟩
    · rw [recordNew_spans he]
      exact h.effectFirst
    · rw [recordNew_spans he]
      exact fun _ => ⟨(h.effectTime he).1.trans (h.effectTime he).2, le_refl _⟩
    · rw [recordNew_spans he]
      exact fun hw _ => ⟨hd hw, (h.apart hw he).2⟩

variable (F : Type) [FloatArith F]

theorem Sound.updateRtt (h : Sound c now) (p : PacketResult) : Sound (c.updateRtt F p) now :=
  ⟨h.effect, h.wait, h.effectFirst, h.effectTime, h.waitDuration, h.waitEnded, h.apart⟩

/-- A window ends only when no window waits. -/
theorem Sound.wait_empty (h : Sound c p.receiveTime) (he : c.inEffectVector.receivedVector ≠ [])
    (hend : p.receiveTime > c.inEffectVector.firstReceivedTime + receiveDuration) :
    c.waitVector.receivedVector = [] := by
  by_contra hw
  obtain ⟨hnow, hstart⟩ := h.apart hw he
  exact absurd hend (deadline_bound (h.waitDuration hw) hstart hnow).not_gt

theorem Sound.endIfDue_eq (h : Sound c p.receiveTime) (he : c.inEffectVector.receivedVector ≠ []) :
    c.endIfDue F p = .ok (c.settle F p) := by
  unfold endIfDue ReceiverLossCollection.settle
  split_ifs with hend
  · exact onReceiveDurationEnd_eq (c := c.updateRtt F p) (h.wait_empty he hend)
  · rfl

theorem Sound.settle (h : Sound c p.receiveTime) (he : c.inEffectVector.receivedVector ≠ []) :
    Sound (c.settle F p) p.receiveTime := by
  unfold ReceiverLossCollection.settle
  split_ifs with hend
  · have hw := h.wait_empty he hend
    have hb : c.waitVector.Blank := h.wait.resolve_right fun hs => hs.ne_nil hw
    have hs := h.effect_spans he
    refine ⟨.inl ⟨hw, hb.largest, hb.firstTime, hb.largestTime⟩,
      .inr ⟨hs.pos, hs.le, hs.lt, hs.length, hs.received⟩, ?_, fun he' => absurd hw he',
      fun _ => getWaitDuration_le _, fun _ => hend, fun _ he' => absurd hw he'⟩
    have hlt := hs.lt
    change toUint64 (c.inEffectVector.largestPacketNumber + 1) ≤ _
    unfold toUint64
    omega
  · exact h.updateRtt F p

end Operations

section Step
variable (F : Type) [FloatArith F] {c c' : ReceiverLossCollection} {now : Timestamp}
  {p : PacketResult} {r : LossReportUpdate}

theorem Sound.step_late (h : Sound c now) (hn : p.number < c.inEffectVector.firstPacketNumber) :
    c.onTransportPacketFeedback F p =
      match c.updateWaitVector p with
      | .error e => .error e
      | .ok c₁ => .ok (c₁.afterReport p.receiveTime, c₁.reportAt p.receiveTime) := by
  unfold onTransportPacketFeedback
  rw [if_pos hn]
  cases hu : c.updateWaitVector p with
  | error e => rfl
  | ok c₁ =>
      obtain ⟨-, -, rfl⟩ := updateWaitVector_ok hu
      exact (h.markWait _).maybeGenerateReport_eq

theorem Sound.step_current (h : Sound c now) (hn : c.inEffectVector.firstPacketNumber ≤ p.number) :
    c.onTransportPacketFeedback F p =
      match (c.afterReport p.receiveTime).recordInEffect p with
      | .error e => .error e
      | .ok c₁ =>
        match c₁.endIfDue F p with
        | .error e => .error e
        | .ok c₂ => .ok (c₂, c.reportAt p.receiveTime) := by
  unfold onTransportPacketFeedback
  rw [if_neg (not_lt.mpr hn), h.maybeGenerateReport_eq]
  simp only
  rw [updateEffectVector_eq F (by rw [afterReport_inEffect]; exact hn)]
  cases (c.afterReport p.receiveTime).recordInEffect p with
  | error e => rfl
  | ok c₁ =>
      cases hd : c₁.endIfDue F p with
      | error e => simp only [hd]
      | ok c₂ => simp only [hd]

/-- The state after a number above every earlier one. -/
def afterFresh (c : ReceiverLossCollection) (p : PacketResult) : ReceiverLossCollection :=
  let c₁ := c.afterReport p.receiveTime
  { c₁ with inEffectVector := c₁.inEffectVector.recordNew p }

theorem Sound.afterFresh (h : Sound c now) (hp : p.Valid) (ht : now ≤ p.receiveTime)
    (hl : c.inEffectVector.largestPacketNumber < p.number) :
    Sound (c.afterFresh p) p.receiveTime := by
  refine (h.afterReport ht).recordNew hp ?_ fun hw => h.afterReport_deadline hw
  rw [afterReport_inEffect]
  exact hl

theorem afterFresh_ne_nil (c : ReceiverLossCollection) (p : PacketResult) :
    (c.afterFresh p).inEffectVector.receivedVector ≠ [] :=
  recordNew_ne_nil _ p

theorem Sound.step_fresh (h : Sound c now) (hp : p.Valid) (ht : now ≤ p.receiveTime)
    (hn : c.inEffectVector.firstPacketNumber ≤ p.number)
    (hl : c.inEffectVector.largestPacketNumber < p.number) :
    c.onTransportPacketFeedback F p =
      .ok ((c.afterFresh p).settle F p, c.reportAt p.receiveTime) := by
  have hr : (c.afterReport p.receiveTime).recordInEffect p = .ok (c.afterFresh p) := by
    simp only [recordInEffect, afterReport_inEffect]
    rw [if_pos hl]
    simp only [ReceiverLossCollection.afterFresh, afterReport_inEffect]
  rw [h.step_current F hn, hr]
  simp only [(h.afterFresh hp ht hl).endIfDue_eq F (afterFresh_ne_nil c p)]

theorem Sound.ne_nil_of_inside (h : Sound c now) (hp : p.Valid)
    (hl : p.number ≤ c.inEffectVector.largestPacketNumber) :
    c.inEffectVector.receivedVector ≠ [] := by
  intro he
  have hb := h.effect.resolve_right fun hs => hs.ne_nil he
  have hpos := hp.pos
  have hz := hb.largest
  omega

theorem Sound.step_inside (h : Sound c now) (hp : p.Valid) (ht : now ≤ p.receiveTime)
    (hn : c.inEffectVector.firstPacketNumber ≤ p.number)
    (hl : p.number ≤ c.inEffectVector.largestPacketNumber) :
    c.onTransportPacketFeedback F p =
      match (c.afterReport p.receiveTime).recordInEffect p with
      | .error e => .error e
      | .ok c₁ => .ok (c₁.settle F p, c.reportAt p.receiveTime) := by
  rw [h.step_current F hn]
  cases hr : (c.afterReport p.receiveTime).recordInEffect p with
  | error e => rfl
  | ok c₁ =>
      obtain ⟨hl', -⟩ | ⟨-, -, rfl⟩ := recordInEffect_ok hr
      · rw [afterReport_inEffect] at hl'
        exact absurd hl (not_le.mpr hl')
      · dsimp only
        rw [((h.afterReport ht).markWait _).endIfDue_eq F]
        rw [markWait_inEffect, afterReport_inEffect]
        exact h.ne_nil_of_inside hp hl

theorem Sound.step (h : Sound c now) (hp : p.Valid) (ht : now ≤ p.receiveTime)
    (hok : c.onTransportPacketFeedback F p = .ok (c', r)) : Sound c' p.receiveTime := by
  obtain ⟨-, c₁, hu, rfl, -⟩ | ⟨hn, -, c₁, hr, hd⟩ := onTransportPacketFeedback_ok F hok
  · obtain ⟨-, -, rfl⟩ := updateWaitVector_ok hu
    exact (h.markWait _).afterReport ht
  · obtain ⟨rfl, -⟩ := endIfDue_ok F hd
    obtain ⟨hl, rfl⟩ | ⟨hl, -, rfl⟩ := recordInEffect_ok hr
    · rw [afterReport_inEffect] at hl
      exact (h.afterFresh hp ht hl).settle F (afterFresh_ne_nil c p)
    · rw [afterReport_inEffect] at hl
      refine ((h.afterReport ht).markWait _).settle F ?_
      rw [markWait_inEffect, afterReport_inEffect]
      exact h.ne_nil_of_inside hp hl

end Step

/-- The receive time of the last packet of a sequence. -/
def lastTime (ps : List PacketResult) : Timestamp := (ps.getLast?.map (·.receiveTime)).getD .minusInfinity

@[simp] theorem lastTime_concat (ps : List PacketResult) (p : PacketResult) :
    lastTime (ps ++ [p]) = p.receiveTime := by simp [lastTime]

/-- Packets with valid numbers, at non-decreasing receive times. -/
structure Arrivals (ps : List PacketResult) : Prop where
  valid : ∀ p ∈ ps, p.Valid
  ordered : ps.Pairwise fun p q => p.receiveTime ≤ q.receiveTime

theorem Arrivals.of_append {ps qs : List PacketResult} (h : Arrivals (ps ++ qs)) : Arrivals ps where
  valid p hp := h.valid p (List.mem_append_left _ hp)
  ordered := (List.pairwise_append.mp h.ordered).1

theorem Arrivals.lastTime_le {ps : List PacketResult} {p : PacketResult} (h : Arrivals (ps ++ [p])) :
    lastTime ps ≤ p.receiveTime := by
  unfold lastTime
  cases hl : ps.getLast? with
  | none => exact UnitBase.minusInfinity_le _
  | some q =>
      have hq : q ∈ ps := List.mem_of_getLast? hl
      exact (List.pairwise_append.mp h.ordered).2.2 q hq p (List.mem_singleton_self p)

theorem Arrivals.last_valid {ps : List PacketResult} {p : PacketResult} (h : Arrivals (ps ++ [p])) :
    p.Valid := h.valid p (by simp)

/-- Arrivals without reordering: the numbers strictly increase. -/
structure InOrder (ps : List PacketResult) : Prop extends Arrivals ps where
  increasing : ps.Pairwise fun p q => p.sentPacket.sequenceNumber < q.sentPacket.sequenceNumber

theorem InOrder.of_append {ps qs : List PacketResult} (h : InOrder (ps ++ qs)) : InOrder ps :=
  ⟨h.toArrivals.of_append, (List.pairwise_append.mp h.increasing).1⟩

theorem InOrder.above {ps : List PacketResult} {p : PacketResult} (h : InOrder (ps ++ [p])) :
    ∀ n ∈ ps.map PacketResult.number, n < p.number := by
  intro n hn
  obtain ⟨q, hq, rfl⟩ := List.mem_map.mp hn
  have hlt := (List.pairwise_append.mp h.increasing).2.2 q hq p (List.mem_singleton_self p)
  have hqn := (h.valid q (List.mem_append_left _ hq)).number_eq
  have hpn := h.last_valid.number_eq
  omega

open Machine in
/-- Every state reached by arrivals is sound. -/
theorem sound_of_trace (F : Type) [FloatArith F] {ps : List PacketResult} {os : List LossReportUpdate}
    {c : ReceiverLossCollection} (ha : Arrivals ps)
    (ht : Trace (onTransportPacketFeedback F) {} ps os c) : Sound c (lastTime ps) := by
  refine Trace.invariant (P := Arrivals) (I := fun ps _ c => Sound c (lastTime ps))
    (fun ps p h => h.of_append) sound_init ?_ ht ha
  intro ps os c p c' r ha _ h hs
  rw [lastTime_concat]
  exact h.step F ha.last_valid ha.lastTime_le hs

end ReceiverLossCollection
end ChromeGcc
