import ChromeGcc.Loss.IndexSafety

/-! A batch of packets against the packets one by one: the state is the same, but a batch
returns only the latest of its reports. -/
namespace ChromeGcc

namespace LossReportUpdate

/-- What a report tells the sender: nothing, unless it is updated. -/
def received (r : LossReportUpdate) : Nat := if r.updated then r.report.packetsReceivedDelta else 0
def lost (r : LossReportUpdate) : Nat := if r.updated then r.report.packetsLostDelta else 0

/-- The latest updated report, from a first one on. -/
def latest (result : LossReportUpdate) (reports : List LossReportUpdate) : LossReportUpdate :=
  reports.foldl (fun result report => if report.updated then report else result) result

variable {reports : List LossReportUpdate}

theorem latest_snoc (result : LossReportUpdate) (reports : List LossReportUpdate)
    (r : LossReportUpdate) :
    latest result (reports ++ [r]) = if r.updated then r else latest result reports :=
  List.foldl_concat _ _ _ _

theorem countP_snoc (reports : List LossReportUpdate) (r : LossReportUpdate) :
    (reports ++ [r]).countP updated = reports.countP updated + if r.updated then 1 else 0 := by
  rw [List.countP_append, List.countP_singleton]

/-- Without an updated report there is nothing to add up. -/
theorem sum_eq_zero {value : LossReportUpdate → Nat} (hv : ∀ r, r.updated = false → value r = 0)
    (h : reports.countP updated = 0) : (reports.map value).sum = 0 := by
  rw [List.sum_eq_zero_iff]
  intro n hn
  obtain ⟨r, hr, rfl⟩ := List.mem_map.mp hn
  exact hv r (by simpa using List.countP_eq_zero.mp h r hr)

/-- One updated report is the whole sum. -/
theorem sum_eq_latest {value : LossReportUpdate → Nat} (hv : ∀ r, r.updated = false → value r = 0)
    (h : reports.countP updated ≤ 1) : (reports.map value).sum = value (latest {} reports) := by
  induction reports using List.reverseRecOn with
  | nil => exact (hv {} rfl).symm
  | append_singleton reports r ih =>
      rw [countP_snoc] at h
      rw [List.map_append, List.sum_append, List.map_singleton, List.sum_singleton, latest_snoc]
      by_cases hr : r.updated = true
      · rw [if_pos hr] at h ⊢
        rw [sum_eq_zero hv (by omega), Nat.zero_add]
      · rw [if_neg hr] at h ⊢
        rw [hv r (by simpa using hr), Nat.add_zero]
        exact ih h

/-- Two updated reports, each of a received packet, exceed the latest of them. -/
theorem received_sum_iff (h : ∀ r ∈ reports, r.updated = true → r.received ≠ 0) :
    (latest {} reports).received = (reports.map received).sum ↔ reports.countP updated ≤ 1 := by
  have hv : ∀ r : LossReportUpdate, r.updated = false → r.received = 0 := by
    intro r hr
    rw [received, if_neg (by rw [hr]; exact Bool.false_ne_true)]
  refine ⟨?_, fun hone => (sum_eq_latest hv hone).symm⟩
  induction reports using List.reverseRecOn with
  | nil => intro _; exact Nat.zero_le 1
  | append_singleton reports r ih =>
      have hbefore : ∀ r ∈ reports, r.updated = true → r.received ≠ 0 :=
        fun r hr => h r (List.mem_append_left _ hr)
      rw [countP_snoc, List.map_append, List.sum_append, List.map_singleton, List.sum_singleton,
        latest_snoc]
      by_cases hr : r.updated = true
      · rw [if_pos hr, if_pos hr]
        intro hsum
        have hnone : reports.countP updated = 0 := by
          rw [List.countP_eq_zero]
          intro q hq hupdated
          have hle := List.le_sum_of_mem (List.mem_map_of_mem (f := received) hq)
          have hpos := hbefore q hq hupdated
          omega
        rw [hnone]
      · rw [if_neg hr, if_neg hr, hv r (by simpa using hr)]
        exact ih hbefore

end LossReportUpdate

namespace ReceiverLossCollection
open LossReportUpdate Machine

section Batch
variable (F : Type) [FloatArith F] {c c' : ReceiverLossCollection} {packets : List PacketResult}
  {reports : List LossReportUpdate}

/-- The loop over a batch takes the steps of the packets one by one. -/
theorem feedbackLoop_run (h : run (onTransportPacketFeedback F) c packets = .ok (c', reports))
    (result report : LossReportUpdate) :
    feedbackLoop F c result report packets =
      .ok (c', if (latest result reports).updated then latest result reports
        else reports.getLast?.getD report) := by
  induction packets generalizing c result report reports with
  | nil => cases h; rfl
  | cons p packets ih =>
      obtain ⟨c₁, r, reports, hs, hr, rfl⟩ := run_cons_iff.mp h
      rw [feedbackLoop, hs]
      dsimp only
      rw [ih hr, List.getLast?_cons]
      rfl

/-- What a batch returns tells as much as the latest of its reports. -/
theorem onTransportPacketsFeedback_run {msg : TransportPacketsFeedback}
    (h : run (onTransportPacketFeedback F) c msg.packetFeedbacks = .ok (c', reports)) :
    ∃ result, c.onTransportPacketsFeedback F msg = .ok (c', result) ∧
      result.received = (latest {} reports).received ∧ result.lost = (latest {} reports).lost := by
  refine ⟨_, feedbackLoop_run F h {} {}, ?_⟩
  by_cases hl : (latest {} reports).updated = true
  · rw [if_pos hl]
    exact ⟨rfl, rfl⟩
  · rw [if_neg hl]
    have hlast : ¬ (reports.getLast?.getD {}).updated = true := by
      cases reports using List.reverseRecOn with
      | nil => exact Bool.false_ne_true
      | append_singleton reports r =>
          rw [List.getLast?_concat, Option.getD_some]
          intro hr
          rw [latest_snoc, if_pos hr] at hl
          exact hl hr
    simp only [received, lost, if_neg hl, if_neg hlast, and_self]

end Batch

/-! Whether a report is due does not depend on the packet's own entry. -/

/-- An open window has received a packet. -/
def Filled (w : ReceiveVector) : Prop := w.receivedVector ≠ [] → true ∈ w.receivedVector

/-- Both windows have received a packet, if they are open. -/
structure BothFilled (c : ReceiverLossCollection) : Prop where
  effect : Filled c.inEffectVector
  wait : Filled c.waitVector

theorem bothFilled_init : BothFilled {} := ⟨fun h => absurd rfl h, fun h => absurd rfl h⟩

section Step
variable {c c' : ReceiverLossCollection} {p : PacketResult} {t : Timestamp}

theorem BothFilled.afterReport (h : BothFilled c) : BothFilled (c.afterReport t) where
  effect := by
    rw [afterReport_inEffect]
    exact h.effect
  wait := by
    unfold ReceiverLossCollection.afterReport
    split_ifs
    · exact fun hne => absurd rfl hne
    · exact h.wait

theorem BothFilled.markWait (h : BothFilled c) (i : Nat) : BothFilled (c.markWait i) where
  effect := h.effect
  wait hne := by
    refine ReceiveVector.true_mem_set (h.wait ?_) i
    intro he
    exact hne (by simp only [ReceiverLossCollection.markWait, he, List.set_nil])

theorem BothFilled.recordNew (h : BothFilled c) (p : PacketResult) :
    BothFilled { c with inEffectVector := c.inEffectVector.recordNew p } where
  effect _ := by
    by_cases he : c.inEffectVector.receivedVector = []
    · rw [ReceiveVector.recordNew_blank he]
      exact List.mem_singleton_self true
    · rw [ReceiveVector.recordNew_spans he]
      exact List.mem_append_right _ (List.mem_singleton_self true)
  wait := h.wait

theorem BothFilled.settle (F : Type) [FloatArith F] (h : BothFilled c) (p : PacketResult) :
    BothFilled (c.settle F p) := by
  unfold ReceiverLossCollection.settle
  split_ifs
  · exact ⟨h.wait, h.effect⟩
  · exact ⟨h.effect, h.wait⟩

theorem BothFilled.step (F : Type) [FloatArith F] (h : BothFilled c) {r : LossReportUpdate}
    (hok : c.onTransportPacketFeedback F p = .ok (c', r)) : BothFilled c' := by
  obtain ⟨-, c₁, hu, rfl, -⟩ | ⟨-, -, c₁, hr, hd⟩ := onTransportPacketFeedback_ok F hok
  · obtain ⟨-, -, rfl⟩ := updateWaitVector_ok hu
    exact (h.markWait _).afterReport
  · obtain ⟨rfl, -⟩ := endIfDue_ok F hd
    obtain ⟨-, rfl⟩ | ⟨-, -, rfl⟩ := recordInEffect_ok hr
    · exact (h.afterReport.recordNew p).settle F p
    · exact (h.afterReport.markWait _).settle F p

/-- A write to an open waiting window does not make its report due. -/
theorem BothFilled.reportDue_markWait (h : BothFilled c) {i : Nat}
    (hi : i < c.waitVector.receivedVector.length) :
    (c.markWait i).ReportDue t ↔ c.ReportDue t := by
  have hne : c.waitVector.receivedVector ≠ [] := List.ne_nil_of_length_pos (by omega)
  have hbefore : c.waitVector.receivedCount ≠ 0 := (List.count_pos_iff.mpr (h.wait hne)).ne'
  have hafter : (c.markWait i).waitVector.receivedCount ≠ 0 :=
    (List.count_pos_iff.mpr (ReceiveVector.true_mem_set (h.wait hne) i)).ne'
  exact ⟨fun hd => ⟨hd.1, hbefore⟩, fun hd => ⟨hd.1, hafter⟩⟩

/-- A packet brings a report exactly when one is due in the state before it. -/
theorem BothFilled.updated_iff (F : Type) [FloatArith F] (h : BothFilled c) {r : LossReportUpdate}
    (hok : c.onTransportPacketFeedback F p = .ok (c', r)) :
    r.updated = true ↔ c.ReportDue p.receiveTime := by
  obtain ⟨-, c₁, hu, -, rfl⟩ | ⟨-, rfl, -⟩ := onTransportPacketFeedback_ok F hok
  · obtain ⟨-, hi, rfl⟩ := updateWaitVector_ok hu
    rw [reportAt_updated, decide_eq_true_iff]
    exact h.reportDue_markWait hi
  · rw [reportAt_updated, decide_eq_true_iff]

/-- A report counts a received packet. -/
theorem received_ne_zero (F : Type) [FloatArith F] {r : LossReportUpdate}
    (hok : c.onTransportPacketFeedback F p = .ok (c', r)) (hr : r.updated = true) :
    r.received ≠ 0 := by
  have hreport : ∀ d : ReceiverLossCollection, r = d.reportAt p.receiveTime → r.received ≠ 0 := by
    intro d hd
    have hdue : d.ReportDue p.receiveTime := by
      rwa [hd, reportAt_updated, decide_eq_true_iff] at hr
    rw [received, if_pos hr, hd, reportAt, if_pos hdue]
    exact hdue.2
  obtain ⟨-, c₁, -, -, hd⟩ | ⟨-, hd, -⟩ := onTransportPacketFeedback_ok F hok
  · exact hreport c₁ hd
  · exact hreport c hd

end Step

section Runs
variable (F : Type) [FloatArith F] {c c' : ReceiverLossCollection} {packets : List PacketResult}
  {reports : List LossReportUpdate}

/-- How many packets find a report due, each in the state that the packets before it left. -/
def dueCount (c : ReceiverLossCollection) : List PacketResult → Nat
  | [] => 0
  | p :: packets =>
    (if c.ReportDue p.receiveTime then 1 else 0) +
      match c.onTransportPacketFeedback F p with
      | .error _ => 0
      | .ok (c', _) => dueCount c' packets

theorem bothFilled_of_trace {os : List LossReportUpdate}
    (h : Trace (onTransportPacketFeedback F) {} packets os c) : BothFilled c :=
  h.invariant (P := fun _ => True) (I := fun _ _ c => BothFilled c) (fun _ _ h => h) bothFilled_init
    (fun _ _ _ _ _ _ _ _ h hs => h.step F hs) trivial

theorem BothFilled.dueCount_eq (h : BothFilled c)
    (hrun : run (onTransportPacketFeedback F) c packets = .ok (c', reports)) :
    c.dueCount F packets = reports.countP LossReportUpdate.updated := by
  induction packets generalizing c reports with
  | nil => cases hrun; rfl
  | cons p packets ih =>
      obtain ⟨c₁, r, reports, hs, hr, rfl⟩ := run_cons_iff.mp hrun
      have hiff := h.updated_iff F hs
      rw [dueCount, hs, List.countP_cons]
      dsimp only
      rw [ih (h.step F hs) hr, Nat.add_comm]
      by_cases hd : c.ReportDue p.receiveTime
      · rw [if_pos hd, if_pos (hiff.mpr hd)]
      · rw [if_neg hd, if_neg (mt hiff.mp hd)]

theorem received_ne_zero_of_run
    (h : run (onTransportPacketFeedback F) c packets = .ok (c', reports)) :
    ∀ r ∈ reports, r.updated = true → r.received ≠ 0 := by
  induction packets generalizing c reports with
  | nil =>
      cases h
      intro r hr
      cases hr
  | cons p packets ih =>
      obtain ⟨c₁, r, reports, hs, hr, rfl⟩ := run_cons_iff.mp h
      intro q hq
      rcases List.mem_cons.mp hq with rfl | hq
      · exact received_ne_zero F hs
      · exact ih hr q hq

/-- The batch leaves the state of the packets one by one, and reports all that they report. -/
structure LosesNothing (c : ReceiverLossCollection) (msg : TransportPacketsFeedback)
    (c' : ReceiverLossCollection) (reports : List LossReportUpdate) (result : LossReportUpdate) :
    Prop where
  state : c.onTransportPacketsFeedback F msg = .ok (c', result)
  received : result.received = (reports.map LossReportUpdate.received).sum
  lost : result.lost = (reports.map LossReportUpdate.lost).sum

end Runs

/-- A batch of packets that can be fed one by one leaves their state. It loses no report
exactly when at most one of its packets finds one due. -/
theorem batch_loses_nothing_iff (F : Type) [FloatArith F] {history : List PacketResult}
    {before reports : List LossReportUpdate} {c c' : ReceiverLossCollection}
    {msg : TransportPacketsFeedback}
    (reachable : Trace (onTransportPacketFeedback F) {} history before c)
    (oneByOne : Trace (onTransportPacketFeedback F) c msg.packetFeedbacks reports c') :
    ∃ result, c.onTransportPacketsFeedback F msg = .ok (c', result) ∧
      (c.LosesNothing F msg c' reports result ↔ c.dueCount F msg.packetFeedbacks ≤ 1) := by
  have hrun := trace_iff_run.mp oneByOne
  obtain ⟨result, hresult, hreceived, hlost⟩ := onTransportPacketsFeedback_run F hrun
  have hiff := received_sum_iff (received_ne_zero_of_run F hrun)
  rw [(bothFilled_of_trace F reachable).dueCount_eq F hrun, ← hiff, ← hreceived]
  refine ⟨result, hresult, fun h => h.received, fun h => ⟨hresult, h, ?_⟩⟩
  rw [hreceived, hiff] at h
  rw [hlost]
  refine (sum_eq_latest ?_ h).symm
  intro r hr
  rw [LossReportUpdate.lost, if_neg (by rw [hr]; exact Bool.false_ne_true)]

/-- Two windows and the packets that bring out their reports. -/
def twoWindows : List PacketResult :=
  [packetAt 1 0, packetAt 4 201, packetAt 6 302, packetAt 9 503, packetAt 10 693]

theorem batch_loses_nothing_one_window :
    ∃ result, ({} : ReceiverLossCollection).onTransportPacketsFeedback FloatArith.Rational
        { packetFeedbacks := twoWindows.take 4 } =
          .ok (final rationalStep {} (twoWindows.take 4), result) ∧
      (LosesNothing FloatArith.Rational {} { packetFeedbacks := twoWindows.take 4 }
          (final rationalStep {} (twoWindows.take 4)) (outputs rationalStep {} (twoWindows.take 4))
          result ↔
        dueCount FloatArith.Rational {} (twoWindows.take 4) ≤ 1) := by
  have hrun : (run rationalStep {} (twoWindows.take 4)).isOk = true := by decide +kernel
  exact batch_loses_nothing_iff FloatArith.Rational .nil (trace_final hrun)

/-- As one batch the two windows report two packets received and two lost, of four and four. -/
theorem batch_loses_report :
    Trace rationalStep {} twoWindows (outputs rationalStep {} twoWindows)
        (final rationalStep {} twoWindows) ∧
      ∃ result, ({} : ReceiverLossCollection).onTransportPacketsFeedback FloatArith.Rational
          { packetFeedbacks := twoWindows } = .ok (final rationalStep {} twoWindows, result) ∧
        result.received = 2 ∧ result.lost = 2 ∧
        ((outputs rationalStep {} twoWindows).map received).sum = 4 ∧
        ((outputs rationalStep {} twoWindows).map lost).sum = 4 ∧
        ¬ LosesNothing FloatArith.Rational {} { packetFeedbacks := twoWindows }
          (final rationalStep {} twoWindows) (outputs rationalStep {} twoWindows) result := by
  have hrun : (run rationalStep {} twoWindows).isOk = true := by decide +kernel
  have hbatch := trace_iff_run.mp (trace_final hrun)
  obtain ⟨result, hresult, hreceived, hlost⟩ :
      ∃ result, ({} : ReceiverLossCollection).onTransportPacketsFeedback FloatArith.Rational
          { packetFeedbacks := twoWindows } = .ok (final rationalStep {} twoWindows, result) ∧
        result.received = (latest {} (outputs rationalStep {} twoWindows)).received ∧
        result.lost = (latest {} (outputs rationalStep {} twoWindows)).lost :=
    onTransportPacketsFeedback_run FloatArith.Rational hbatch
  have htwo : result.received = 2 := hreceived.trans (by decide +kernel)
  have hfour : ((outputs rationalStep {} twoWindows).map received).sum = 4 := by decide +kernel
  refine ⟨trace_final hrun, result, hresult, htwo, hlost.trans (by decide +kernel), hfour,
    by decide +kernel, ?_⟩
  intro h
  have hall := h.received
  rw [htwo] at hall
  exact absurd (hall.trans hfour) (by decide)

end ReceiverLossCollection
end ChromeGcc
