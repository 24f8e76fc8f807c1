import ChromeGcc.Loss.Collection
import ChromeGcc.Base.Trace

/-! What one packet can do to the collection, said once for every later proof:
the state each operation leaves when it succeeds, without its assertions. -/
namespace ChromeGcc
namespace ReceiverLossCollection

/-- The waiting window with one entry set. -/
def markWait (c : ReceiverLossCollection) (i : Nat) : ReceiverLossCollection :=
  { c with waitVector := { c.waitVector with receivedVector := c.waitVector.receivedVector.set i true } }

/-- The collection after a report, when one is due. -/
def afterReport (c : ReceiverLossCollection) (t : Timestamp) : ReceiverLossCollection :=
  if c.ReportDue t then { c with waitVector := .reset } else c

def reportAt (c : ReceiverLossCollection) (t : Timestamp) : LossReportUpdate :=
  if c.ReportDue t then c.waitVector.lossReport t else {}

/-- The window an in-effect window turns into when it ends. -/
def closedWindow (c : ReceiverLossCollection) : ReceiveVector :=
  { c.inEffectVector with waitDuration := c.getWaitDuration }

/-- The state after a hand-over. -/
def handOver (c : ReceiverLossCollection) : ReceiverLossCollection where
  smoothRtt := .micros 0
  inEffectVector :=
    { c.waitVector with firstPacketNumber := toUint64 (c.inEffectVector.largestPacketNumber + 1) }
  waitVector := c.closedWindow

@[simp] theorem markWait_inEffect (c : ReceiverLossCollection) (i : Nat) :
    (c.markWait i).inEffectVector = c.inEffectVector := rfl

@[simp] theorem afterReport_inEffect (c : ReceiverLossCollection) (t : Timestamp) :
    (c.afterReport t).inEffectVector = c.inEffectVector := by
  unfold afterReport
  split_ifs <;> rfl

theorem reportAt_updated (c : ReceiverLossCollection) (t : Timestamp) :
    (c.reportAt t).updated = decide (c.ReportDue t) := by
  unfold reportAt
  split_ifs with hd
  · simp [hd, ReceiveVector.lossReport]
  · simp [hd]

theorem updateWaitVector_ok {c c' : ReceiverLossCollection} {p : PacketResult}
    (h : c.updateWaitVector p = .ok c') :
    p.number < c.waitVector.largestPacketNumber ∧
      toUint64 (p.number - c.waitVector.firstPacketNumber) < c.waitVector.receivedVector.length ∧
      c' = c.markWait (toUint64 (p.number - c.waitVector.firstPacketNumber)) := by
  simp only [updateWaitVector] at h
  split_ifs at h with hn hi
  · cases h
    exact ⟨hn, hi, rfl⟩

theorem maybeGenerateReport_ok {c c' : ReceiverLossCollection} {t : Timestamp} {r : LossReportUpdate}
    (h : c.maybeGenerateReport t = .ok (c', r)) : c' = c.afterReport t ∧ r = c.reportAt t := by
  unfold maybeGenerateReport onNewReportGenerated at h
  unfold afterReport reportAt
  split_ifs at h ⊢ with hd hlt
  · cases h
    exact ⟨rfl, rfl⟩
  · cases h
    exact ⟨rfl, rfl⟩

theorem onReceiveDurationEnd_ok {c c' : ReceiverLossCollection}
    (h : c.onReceiveDurationEnd = .ok c') : c.waitVector.receivedVector = [] ∧ c' = c.handOver := by
  unfold onReceiveDurationEnd at h
  by_cases he : c.waitVector.receivedVector = []
  · rw [if_neg (not_not.mpr he)] at h
    simp only [he, ne_eq, not_true_eq_false, if_false] at h
    cases h
    exact ⟨he, by simp only [handOver, closedWindow, he]⟩
  · rw [if_pos he] at h
    cases h

theorem onReceiveDurationEnd_eq {c : ReceiverLossCollection}
    (h : c.waitVector.receivedVector = []) : c.onReceiveDurationEnd = .ok c.handOver := by
  unfold onReceiveDurationEnd
  rw [if_neg (not_not.mpr h)]
  simp only [h, ne_eq, not_true_eq_false, if_false, handOver, closedWindow]

theorem recordInEffect_ok {c c' : ReceiverLossCollection} {p : PacketResult}
    (h : c.recordInEffect p = .ok c') :
    (p.number > c.inEffectVector.largestPacketNumber ∧
        c' = { c with inEffectVector := c.inEffectVector.recordNew p }) ∨
      (p.number ≤ c.inEffectVector.largestPacketNumber ∧
        toUint64 (p.number - c.inEffectVector.firstPacketNumber) <
          c.waitVector.receivedVector.length ∧
        c' = c.markWait (toUint64 (p.number - c.inEffectVector.firstPacketNumber))) := by
  simp only [recordInEffect] at h
  split_ifs at h with hn hi
  · cases h
    exact .inl ⟨hn, rfl⟩
  · cases h
    exact .inr ⟨not_lt.mp hn, hi, rfl⟩

section Doubles
variable (F : Type) [FloatArith F]

/-- The tail of UpdateEffectVector after the packet was recorded. -/
def endIfDue (c : ReceiverLossCollection) (p : PacketResult) : Except Failure ReceiverLossCollection :=
  if p.receiveTime > c.inEffectVector.firstReceivedTime + receiveDuration then
    (c.updateRtt F p).onReceiveDurationEnd
  else .ok (c.updateRtt F p)

/-- The same without the assertions of the hand-over. -/
def settle (c : ReceiverLossCollection) (p : PacketResult) : ReceiverLossCollection :=
  if p.receiveTime > c.inEffectVector.firstReceivedTime + receiveDuration then
    (c.updateRtt F p).handOver
  else c.updateRtt F p

theorem updateEffectVector_eq {c : ReceiverLossCollection} {p : PacketResult}
    (h : c.inEffectVector.firstPacketNumber ≤ p.number) :
    c.updateEffectVector F p =
      match c.recordInEffect p with
      | .error e => .error e
      | .ok c => c.endIfDue F p := by
  unfold updateEffectVector
  rw [if_pos h]
  rfl

theorem endIfDue_ok {c c' : ReceiverLossCollection} {p : PacketResult}
    (h : c.endIfDue F p = .ok c') : c' = c.settle F p ∧
      (p.receiveTime > c.inEffectVector.firstReceivedTime + receiveDuration →
        c.waitVector.receivedVector = []) := by
  unfold endIfDue at h
  unfold settle
  split_ifs at h ⊢ with hd
  · obtain ⟨he, hc⟩ := onReceiveDurationEnd_ok h
    exact ⟨hc, fun _ => he⟩
  · cases h
    exact ⟨rfl, fun hd' => absurd hd' hd⟩

/-- The two orders of work: a number below the in-effect window goes to the waiting
window before a report is tried, any other to the in-effect window after it. -/
theorem onTransportPacketFeedback_ok {c c' : ReceiverLossCollection} {p : PacketResult}
    {r : LossReportUpdate} (h : c.onTransportPacketFeedback F p = .ok (c', r)) :
    (p.number < c.inEffectVector.firstPacketNumber ∧
      ∃ c₁, c.updateWaitVector p = .ok c₁ ∧ c' = c₁.afterReport p.receiveTime ∧
        r = c₁.reportAt p.receiveTime) ∨
    (c.inEffectVector.firstPacketNumber ≤ p.number ∧ r = c.reportAt p.receiveTime ∧
      ∃ c₁, (c.afterReport p.receiveTime).recordInEffect p = .ok c₁ ∧ c₁.endIfDue F p = .ok c') := by
  unfold onTransportPacketFeedback at h
  split_ifs at h with hn
  · left
    cases hu : c.updateWaitVector p with
    | error e => rw [hu] at h; cases h
    | ok c₁ =>
        rw [hu] at h
        obtain ⟨hc, hr⟩ := maybeGenerateReport_ok h
        exact ⟨hn, c₁, rfl, hc, hr⟩
  · right
    refine ⟨not_lt.mp hn, ?_⟩
    cases hm : c.maybeGenerateReport p.receiveTime with
    | error e => rw [hm] at h; cases h
    | ok m =>
        obtain ⟨c₁, r₁⟩ := m
        obtain ⟨rfl, rfl⟩ := maybeGenerateReport_ok hm
        simp only [hm] at h
        rw [updateEffectVector_eq F (by rw [afterReport_inEffect]; exact not_lt.mp hn)] at h
        cases hr : (c.afterReport p.receiveTime).recordInEffect p with
        | error e => simp only [hr] at h; cases h
        | ok c₂ =>
            simp only [hr] at h
            cases hd : c₂.endIfDue F p with
            | error e => simp only [hd] at h; cases h
            | ok c₃ =>
                simp only [hd] at h
                cases h
                exact ⟨rfl, c₂, rfl, hd⟩

end Doubles
end ReceiverLossCollection
end ChromeGcc
