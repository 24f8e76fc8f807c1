import ChromeGcc.Controller.IncreaseSafety
import ChromeGcc.DelayBased.Outcome
import ChromeGcc.Peers.Refinement
import Mathlib.Data.List.Destutter

/-! The REMBs of the Receiver: they are the rates that its controller reports, each sent once
for every change, and none asks for less than 5 kbps. -/
namespace ChromeGcc
open Machine UnitBase

section Changes
variable {α : Type} [DecidableEq α]

theorem destutter'_concat (first last : α) (l : List α) :
    (l ++ [last]).destutter' (· ≠ ·) first = if (first :: l).getLast? = some last then
      l.destutter' (· ≠ ·) first else l.destutter' (· ≠ ·) first ++ [last] := by
  induction l generalizing first with
  | nil =>
      rw [List.nil_append, List.destutter'_singleton, List.destutter'_nil, List.getLast?_singleton]
      by_cases hsame : first = last <;> simp [hsame]
  | cons second l ih =>
      rw [List.cons_append, List.destutter'_cons, List.destutter'_cons, List.getLast?_cons_cons, ih,
        ih]
      by_cases hsame : first = second
      · subst hsame
        simp
      · simp only [ne_eq, hsame, not_false_eq_true, if_true]
        split_ifs
        · rfl
        · rfl

/-- What is not the last value again is one more change. -/
theorem destutter_concat (l : List α) (last : α) :
    (l ++ [last]).destutter (· ≠ ·) =
      if l.getLast? = some last then l.destutter (· ≠ ·) else l.destutter (· ≠ ·) ++ [last] := by
  cases l with
  | nil => rfl
  | cons first l => exact destutter'_concat first last l

theorem getLast?_destutter (l : List α) : (l.destutter (· ≠ ·)).getLast? = l.getLast? := by
  induction l using List.reverseRecOn with
  | nil => rfl
  | append_singleton l last ih =>
      rw [destutter_concat, List.getLast?_concat]
      split_ifs with hsame
      · exact ih.trans hsame
      · exact List.getLast?_concat

end Changes

namespace Receiver
variable {F : Type} [FloatArith F] {r r' : Receiver F} {env : ReceiverEnv} {text : List Char}
  {sent : List (List Char)}

/-- A rate that is reported is remembered, and sent if it was not remembered before. -/
structure Announces (r : Receiver F) (rate : Option DataRate) (r' : Receiver F)
    (sent : List (List Char)) : Prop where
  remembered : r'.lastRembRate = rate.getD r.lastRembRate
  sends : rembs sent = (rate.filter (· ≠ r.lastRembRate)).toList

theorem announces_onDelayBaseBweUpdated {report : BweResult} (hc : Carried report.targetBitrate)
    (h : r.onDelayBaseBweUpdated env report = (.ok (), r', sent)) :
    r.Announces (some report.targetBitrate) r' sent := by
  have hone : rembs [GCCREMBPacket.serialize ⟨report.targetBitrate⟩] = [report.targetBitrate] := by
    simp only [rembs, List.filterMap_cons, rembRate_remb hc, List.filterMap_nil]
  unfold onDelayBaseBweUpdated sendText at h
  dsimp only at h
  split_ifs at h with hzero hfails hdiffers hfails
  · cases h
  · cases h
    have hdiffers : report.targetBitrate ≠ r.lastRembRate := by
      intro hsame
      rw [← hsame, hc.isZero] at hzero
      cases hzero
    refine ⟨rfl, ?_⟩
    rw [Option.filter_some_pos (by simpa using hdiffers)]
    exact hone
  · cases h
  · cases h
    refine ⟨rfl, ?_⟩
    rw [Option.filter_some_pos (by simpa using hdiffers.symm)]
    exact hone
  · cases h
    have hsame : r.lastRembRate = report.targetBitrate := not_not.mp hdiffers
    refine ⟨hsame, ?_⟩
    rw [Option.filter_some_neg (by simpa using hsame.symm)]
    rfl

theorem announces_onFeedback {msg : TransportPacketsFeedback}
    (hc : ∀ rate ∈ r.feedbackRate msg, Carried rate)
    (h : r.onFeedback env msg = (.ok (), r', sent)) : r.Announces (r.feedbackRate msg) r' sent := by
  unfold feedbackRate at hc ⊢
  unfold onFeedback at h
  dsimp only at h hc ⊢
  split at h
  · cases h
  · next r₁ rembs₁ heq =>
      have hfirst : r.Announces (if (r.gccControler.onTransportPacketsFeedback msg).recentResult.updated
          then some (r.gccControler.onTransportPacketsFeedback msg).recentResult.targetBitrate
          else none) r₁ rembs₁ := by
        split_ifs at heq with hu
        · rw [if_pos hu] at hc ⊢
          obtain ⟨hremembered, hsends⟩ := announces_onDelayBaseBweUpdated (hc _ rfl) heq
          exact ⟨hremembered, hsends⟩
        · cases heq
          rw [if_neg hu]
          exact ⟨rfl, rfl⟩
      revert h
      have hsilent := collectLosses_silent r₁.noteAckRate env msg
      revert hsilent
      rcases r₁.noteAckRate.collectLosses env msg with ⟨outcome, r₂, sent'⟩
      rintro ⟨hsilent, hkept⟩ h
      cases h
      refine ⟨hkept.trans (r₁.noteAckRate_lastRembRate.trans hfirst.remembered), ?_⟩
      rw [rembs_append, hsilent, List.append_nil]
      exact hfirst.sends

theorem announces_onPacketReceived (hc : ∀ rate ∈ r.reported env text, Carried rate)
    (h : r.onPacketReceived env text = (.ok (), r', sent)) :
    r.Announces (r.reported env text) r' sent := by
  unfold onPacketReceived onDataPacketReceived at h
  unfold reported at hc ⊢
  split at h
  · cases h
  · next ht =>
      rw [ht] at hc ⊢
      dsimp only at hc ⊢
      split at h
      · cases h
      · next packet hparse =>
          rw [hparse] at hc ⊢
          exact announces_onFeedback hc h
  · next t hdata ht =>
      cases h
      split
      · next ht' =>
          rw [ht'] at ht
          cases ht
          exact absurd rfl hdata
      · exact ⟨rfl, rfl⟩

end Receiver

section Floor
variable {F : Type} [FloatArith F]

namespace Receiver
variable {r r' : Receiver F} {env : ReceiverEnv} {text : List Char} {sent : List (List Char)}

theorem onDelayBaseBweUpdated_controller (r : Receiver F) (env : ReceiverEnv) (report : BweResult) :
    (r.onDelayBaseBweUpdated env report).2.1.gccControler = r.gccControler := by
  unfold onDelayBaseBweUpdated sendText
  dsimp only
  split_ifs <;> rfl

theorem collectLosses_controller (r : Receiver F) (env : ReceiverEnv)
    (msg : TransportPacketsFeedback) :
    (r.noteAckRate.collectLosses env msg).2.1.gccControler = r.gccControler := by
  have hnote : r.noteAckRate.gccControler = r.gccControler := by
    unfold noteAckRate
    split <;> rfl
  unfold collectLosses onLossReportGenerated sendText
  split
  · exact hnote
  · dsimp only
    split_ifs <;> exact hnote

theorem onFeedback_controller (r : Receiver F) (env : ReceiverEnv) (msg : TransportPacketsFeedback) :
    (r.onFeedback env msg).2.1.gccControler = r.gccControler.onTransportPacketsFeedback msg := by
  have hreport : (if (r.gccControler.onTransportPacketsFeedback msg).recentResult.updated = true then
        { r with gccControler := r.gccControler.onTransportPacketsFeedback msg }.onDelayBaseBweUpdated
          env (r.gccControler.onTransportPacketsFeedback msg).recentResult
      else (.ok (), { r with gccControler := r.gccControler.onTransportPacketsFeedback msg },
        [])).2.1.gccControler = r.gccControler.onTransportPacketsFeedback msg := by
    split_ifs
    · exact onDelayBaseBweUpdated_controller _ _ _
    · rfl
  unfold onFeedback
  dsimp only
  split
  · next heq =>
      rw [heq] at hreport
      exact hreport
  · next r₁ rembs₁ heq =>
      rw [heq] at hreport
      exact (collectLosses_controller r₁ env msg).trans hreport

/-- The handler passes one message to the controller, or nothing. -/
theorem controller_of_onPacketReceived (r : Receiver F) (env : ReceiverEnv) (text : List Char) :
    ((r.onPacketReceived env text).2.1.gccControler = r.gccControler ∧
        r.reported env text = none) ∨
      ∃ packet, (r.onPacketReceived env text).2.1.gccControler =
          r.gccControler.onTransportPacketsFeedback (feedbackOf packet env) ∧
        r.reported env text = r.feedbackRate (feedbackOf packet env) := by
  unfold onPacketReceived onDataPacketReceived reported
  cases getType text with
  | error e => exact .inl ⟨rfl, rfl⟩
  | ok type =>
      cases type with
      | rr => exact .inl ⟨rfl, rfl⟩
      | remb => exact .inl ⟨rfl, rfl⟩
      | data =>
          dsimp only
          rcases GCCDataPacketParser.unSerialize text {} with ⟨outcome, packet⟩
          cases outcome with
          | error e => exact .inl ⟨rfl, rfl⟩
          | ok u => exact .inr ⟨packet, onFeedback_controller r env _, rfl⟩

end Receiver

end Floor

section Rounded
open FloatArith
variable {K : Type} [Field K] [LinearOrder K] [FloorRing K] {r : Rounding K}

/-- A rate that the controller reports is its estimate, which is not below 5 kbps. -/
theorem GoogCcNetworkController.RateKept.reported_ge {g : GoogCcNetworkController (Double r)}
    (h : g.RateKept) {msg : TransportPacketsFeedback} (hmsg : ¬ msg.packetFeedbacks.isEmpty = true)
    (hu : (g.onTransportPacketsFeedback msg).recentResult.updated = true) :
    getMinBitrate ≤ (g.onTransportPacketsFeedback msg).recentResult.targetBitrate := by
  obtain ⟨-, -, hbwe, hresult⟩ := onTransportPacketsFeedback_fields h.allReports hmsg
  have hkept := (h.onTransportPacketsFeedback msg).rateControl.fiveKbps_le
  rw [hresult] at hu ⊢
  rw [hbwe] at hkept
  unfold DelayBasedBwe.incomingPacketFeedbackVector at hu hkept ⊢
  dsimp only at hu hkept ⊢
  split_ifs at hu hkept ⊢
  rw [DelayBasedBwe.target_of_updated _ _ _ _ hu]
  exact hkept

/-- A datagram keeps the estimate above 5 kbps, and what it makes the controller report too. -/
theorem Receiver.kept_onPacketReceived {s : Receiver (Double r)} (h : s.gccControler.RateKept)
    (env : ReceiverEnv) (text : List Char) :
    (s.onPacketReceived env text).2.1.gccControler.RateKept ∧
      ∀ rate ∈ s.reported env text, getMinBitrate ≤ rate := by
  rcases s.controller_of_onPacketReceived env text with
    ⟨hcontroller, hreported⟩ | ⟨packet, hcontroller, hreported⟩
  · rw [hcontroller, hreported]
    exact ⟨h, fun rate hr => absurd hr (Option.not_mem_none rate)⟩
  · rw [hcontroller, hreported]
    refine ⟨h.onTransportPacketsFeedback _, ?_⟩
    intro rate hr
    unfold feedbackRate at hr
    dsimp only at hr
    split_ifs at hr with hu
    · cases hr
      exact h.reported_ge Bool.false_ne_true hu
    · cases hr

end Rounded

namespace Link
section Changes
variable {F : Type} [FloatArith F] {s s' : Link F} {o : LinkView} {os : List LinkView}
  {events : List LinkEvent}

/-- The rates that the Receiver's controller reported. -/
def reportedRates (os : List LinkView) : List DataRate := os.filterMap (·.reported)

theorem reportedRates_concat (os : List LinkView) (o : LinkView) :
    reportedRates (os ++ [o]) = reportedRates os ++ o.reported.toList := by
  rw [reportedRates, List.filterMap_append, List.filterMap_cons]
  cases o.reported <;> rfl

theorem reportedRates_silent (os : List LinkView) {o : LinkView} (h : o.reported = none) :
    reportedRates (os ++ [o]) = reportedRates os := by
  rw [reportedRates_concat, h, Option.toList_none, List.append_nil]

/-- The Receiver remembers the last rate reported, and has sent every change. -/
structure Announced (os : List LinkView) (s : Link F) : Prop where
  remembered : s.receiver.lastRembRate = (reportedRates os).getLast?.getD .zero
  changes : rembs s.reports.sent = (reportedRates os).destutter (· ≠ ·)

theorem Announced.silent (h : Announced os s) (ho : o.reported = none)
    (hr : s'.receiver = s.receiver) (hs : s'.reports.sent = s.reports.sent) :
    Announced (os ++ [o]) s' := by
  constructor
  · rw [reportedRates_silent os ho, hr]
    exact h.remembered
  · rw [reportedRates_silent os ho, hs]
    exact h.changes

theorem Announced.announce (h : Announced os s) {rate : Option DataRate} {sent : List (List Char)}
    (ha : s.receiver.Announces rate s'.receiver sent) (ho : o.reported = rate)
    (hs : s'.reports.sent = s.reports.sent ++ sent) (hc : ∀ x ∈ rate, Carried x) :
    Announced (os ++ [o]) s' := by
  obtain ⟨hremembered, hsends⟩ := ha
  have hrates := reportedRates_concat os o
  rw [ho] at hrates
  cases rate with
  | none =>
      rw [Option.toList_none, List.append_nil] at hrates
      constructor
      · rw [hrates]
        exact hremembered.trans h.remembered
      · rw [hrates, hs, rembs_append, hsends, h.changes]
        exact List.append_nil _
  | some x =>
      have hiff : (reportedRates os).getLast? = some x ↔ x = s.receiver.lastRembRate := by
        have hzero := (hc x rfl).isZero
        rw [h.remembered]
        cases (reportedRates os).getLast? with
        | none =>
            constructor
            · intro hnone
              cases hnone
            · rintro rfl
              cases hzero
        | some last => exact ⟨fun he => (Option.some.inj he).symm, fun he => congrArg some he.symm⟩
      constructor
      · rw [hrates, Option.toList_some, List.getLast?_concat]
        exact hremembered
      · rw [hrates, hs, rembs_append, hsends, h.changes, Option.toList_some, destutter_concat]
        by_cases hsame : x = s.receiver.lastRembRate
        · rw [if_pos (hiff.mpr hsame), Option.filter_some_neg (by simpa using hsame)]
          exact List.append_nil _
        · rw [if_neg (mt hiff.mp hsame), Option.filter_some_pos (by simpa using hsame)]
          rfl

theorem Does.announced {event : LinkEvent} (h : s.Does event s' o)
    (hc : ∀ rate ∈ o.reported, Carried rate) (ha : Announced os s) : Announced (os ++ [o]) s' := by
  cases h with
  | poll step => exact ha.silent rfl rfl rfl
  | deliverData delivers received =>
      exact ha.announce (Receiver.announces_onPacketReceived hc received) rfl rfl hc
  | dropData drops => exact ha.silent rfl rfl rfl
  | deliverReport delivers received => exact ha.silent rfl rfl delivers.sent
  | dropReport drops => exact ha.silent rfl rfl drops.sent

/-- A REMB that is sent is a rate reported by the step, and another one than before. -/
theorem Announced.sent_change {before rate : DataRate} (h : Announced os s)
    (h' : Announced (os ++ [o]) s') (hbefore : (rembs s.reports.sent).getLast? = some before)
    (hsent : rembs s'.reports.sent = rembs s.reports.sent ++ [rate]) :
    (reportedRates os).getLast? = some before ∧ o.reported = some rate ∧ rate ≠ before := by
  have hlast : (reportedRates os).getLast? = some before := by
    rwa [h.changes, getLast?_destutter] at hbefore
  rw [h'.changes, h.changes, reportedRates_concat] at hsent
  cases ho : o.reported with
  | none =>
      rw [ho, Option.toList_none, List.append_nil] at hsent
      exact absurd hsent (by simp)
  | some x =>
      rw [ho, Option.toList_some, destutter_concat, hlast] at hsent
      split_ifs at hsent with hsame
      · exact absurd hsent (by simp)
      · have hx := List.append_cancel_left hsent
        cases hx
        exact ⟨hlast, rfl, fun heq => hsame (congrArg some heq.symm)⟩

end Changes

section Rounded
open FloatArith
variable {K : Type} [Field K] [LinearOrder K] [FloorRing K] {r : Rounding K}
  {s : Link (Double r)} {os : List LinkView}
  {senderConfig receiverConfig : NetworkControllerConfig (Double r)}

theorem announced_of_trace {events : List LinkEvent}
    (h : Trace step (new senderConfig receiverConfig) events os s) (hc : RatesCarried os) :
    Announced os s := by
  induction h with
  | nil => exact ⟨rfl, rfl⟩
  | snoc _ hs ih =>
      refine (does_of_step hs).announced (hc _ (by simp)) (ih ?_)
      intro o ho
      exact hc o (List.mem_append_left _ ho)

/-- The Receiver's estimate is at least 5 kbps, and so was every rate that it reported. -/
structure Floored (os : List LinkView) (s : Link (Double r)) : Prop where
  kept : s.receiver.gccControler.RateKept
  floor : ∀ rate ∈ reportedRates os, getMinBitrate ≤ rate

theorem Floored.snoc {s' : Link (Double r)} {o : LinkView} (h : Floored os s)
    (hk : s'.receiver.gccControler.RateKept) (ho : ∀ rate ∈ o.reported, getMinBitrate ≤ rate) :
    Floored (os ++ [o]) s' := by
  refine ⟨hk, ?_⟩
  intro rate hr
  rw [reportedRates_concat, List.mem_append, Option.mem_toList] at hr
  rcases hr with hr | hr
  · exact h.floor rate hr
  · exact ho rate hr

theorem Does.floored {s' : Link (Double r)} {o : LinkView} {event : LinkEvent}
    (h : s.Does event s' o) (hf : Floored os s) : Floored (os ++ [o]) s' := by
  have hnone : ∀ rate ∈ (none : Option DataRate), getMinBitrate ≤ rate :=
    fun rate hr => absurd hr (Option.not_mem_none rate)
  cases h with
  | poll step => exact hf.snoc hf.kept hnone
  | @deliverData index env text data receiver sent delivers received =>
      obtain ⟨hkept, hfloor⟩ := Receiver.kept_onPacketReceived hf.kept env text
      rw [received] at hkept
      exact hf.snoc hkept hfloor
  | dropData drops => exact hf.snoc hf.kept hnone
  | deliverReport delivers received => exact hf.snoc hf.kept hnone
  | dropReport drops => exact hf.snoc hf.kept hnone

theorem floored_of_trace {events : List LinkEvent}
    (h : Trace step (new senderConfig receiverConfig) events os s) : Floored os s := by
  induction h with
  | nil =>
      exact ⟨GoogCcNetworkController.rateKept_new receiverConfig,
        fun rate hr => absurd hr List.not_mem_nil⟩
  | snoc _ hs ih => exact (does_of_step hs).floored ih

/-- The REMBs sent are the changes among the rates that the Receiver's controller reports, in
their order, and each asks for at least 5 kbps. -/
theorem rembs_report_changes (r : Rounding K)
    (senderConfig receiverConfig : NetworkControllerConfig (Double r)) (events : List LinkEvent)
    {s : Link (Double r)} (h : Trace step (new senderConfig receiverConfig) events os s)
    (hc : RatesCarried os) :
    rembs s.reports.sent = (reportedRates os).destutter (· ≠ ·) ∧
      (rembs s.reports.sent).IsChain (· ≠ ·) ∧
      (∀ rate ∈ rembs s.reports.sent, getMinBitrate ≤ rate) ∧
      s.receiver.lastRembRate = (reportedRates os).getLast?.getD .zero := by
  obtain ⟨hremembered, hchanges⟩ := announced_of_trace h hc
  refine ⟨hchanges, ?_, ?_, hremembered⟩
  · rw [hchanges]
    exact List.isChain_destutter _ _
  · intro rate hr
    rw [hchanges] at hr
    exact (floored_of_trace h).floor rate ((List.destutter_sublist _ _).subset hr)

end Rounded

theorem congestedTwiceRun_reports :
    ∃ os s, Trace step (new (System.startedAt 300000) (System.startedAt 300000)) congestedTwiceRun os s ∧
      RatesCarried os ∧
      reportedRates os = [.finite 70607, .finite 59166, .finite 59166, .finite 60483, .finite 61827,
        .finite 63203] ∧
      rembs s.reports.sent = [.finite 70607, .finite 59166, .finite 60483, .finite 61827,
        .finite 63203] :=
  ⟨_, _, trace_final (by decide +kernel), by decide +kernel, by decide +kernel, by decide +kernel⟩

/-- Of the six rates reported the second and third are the same, and sent once. -/
theorem rembs_report_changes_congestedTwiceRun :
    ∃ os s, Trace step (new (System.startedAt 300000) (System.startedAt 300000)) congestedTwiceRun os s ∧
      reportedRates os = [.finite 70607, .finite 59166, .finite 59166, .finite 60483, .finite 61827,
        .finite 63203] ∧
      rembs s.reports.sent = [.finite 70607, .finite 59166, .finite 60483, .finite 61827,
        .finite 63203] ∧
      rembs s.reports.sent = (reportedRates os).destutter (· ≠ ·) ∧
      (∀ rate ∈ rembs s.reports.sent, getMinBitrate ≤ rate) ∧
      s.receiver.lastRembRate = .finite 63203 := by
  obtain ⟨os, s, h, hc, hreported, hsent⟩ := congestedTwiceRun_reports
  obtain ⟨hchanges, -, hfloor, hremembered⟩ := rembs_report_changes _ _ _ congestedTwiceRun h hc
  rw [hreported] at hremembered
  exact ⟨os, s, h, hreported, hsent, hchanges, hfloor, hremembered⟩

end Link
end ChromeGcc
