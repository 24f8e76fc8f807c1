import ChromeGcc.Base.Trace
import ChromeGcc.Controller.Limits
import ChromeGcc.Packet.Overflow
import ChromeGcc.Peers.Sender
import ChromeGcc.Peers.Receiver

/-! The two peers and the datagrams between them. The network may delay, reorder or drop
what the Receiver sends; any datagram may reach the Receiver at any time. -/
namespace ChromeGcc
open UnitBase

/-- A bandwidth that a REMB has room for. -/
def Carried (rate : DataRate) : Prop := .zero < rate ∧ rate < .bitsPerSec 10000000000

instance (rate : DataRate) : Decidable (Carried rate) := inferInstanceAs (Decidable (_ ∧ _))

theorem Carried.exists_nat {rate : DataRate} (h : Carried rate) :
    ∃ n : Nat, rate = .finite n ∧ 0 < n ∧ n < 10 ^ 10 := by
  obtain ⟨hpos, hlt⟩ := h
  cases rate with
  | minusInfinity => exact absurd hpos (by decide)
  | plusInfinity => exact absurd hlt (by decide)
  | finite v =>
      have hv : 0 < v := finite_lt_finite.mp hpos
      have hw : v < 10000000000 := finite_lt_finite.mp hlt
      obtain ⟨n, rfl⟩ := Int.eq_ofNat_of_zero_le hv.le
      exact ⟨n, rfl, by omega, by omega⟩

theorem Carried.isZero {rate : DataRate} (h : Carried rate) : rate.isZero = false := by
  obtain ⟨n, rfl, hpos, -⟩ := h.exists_nat
  simp only [UnitBase.isZero, beq_eq_false_iff_ne]
  omega

/-- The rate that a REMB datagram carries, as its handler reads it. -/
def rembRate (text : List Char) : Option DataRate :=
  match getType text with
  | .ok .remb =>
    match GCCREMBPacketParser.unSerialize text {} with
    | (.ok (), packet) => some packet.bandwidth
    | (.error _, _) => none
  | _ => none

/-- The rates of the REMBs among some datagrams. -/
def rembs (texts : List (List Char)) : List DataRate := texts.filterMap rembRate

theorem rembRate_of_type {text : List Char} {t : PacketType} (h : getType text = .ok t)
    (ht : t ≠ .remb) : rembRate text = none := by
  unfold rembRate
  rw [h]
  cases t with
  | data => rfl
  | rr => rfl
  | remb => exact absurd rfl ht

theorem rembRate_rr (p : GCCRRPacket) : rembRate p.serialize = none :=
  rembRate_of_type p.getType_serialize (by decide)

theorem rembRate_remb {rate : DataRate} (h : Carried rate) :
    rembRate (GCCREMBPacket.serialize ⟨rate⟩) = some rate := by
  obtain ⟨n, rfl, -, hlt⟩ := h.exists_nat
  unfold rembRate
  rw [GCCREMBPacket.getType_serialize, GCCREMBPacket.unSerialize_serialize ⟨⟨n, rfl, hlt⟩⟩]

theorem rembs_append (texts texts' : List (List Char)) :
    rembs (texts ++ texts') = rembs texts ++ rembs texts' := List.filterMap_append

section Handlers
variable {F : Type} [FloatArith F]

theorem SendSideBandwidthEstimation.receiverLimit_updatePacketsLost
    (e : SendSideBandwidthEstimation F) (lost n : Int) (t : Timestamp) :
    (e.updatePacketsLost lost n t).receiverLimit = e.receiverLimit := by
  by_cases hn : e.Completes n
  · have hreported : (e.reported lost n t).core.receiverLimit = e.receiverLimit :=
      congrArg Core.receiverLimit (core_reported e lost n t)
    refine (congrArg Core.receiverLimit (core_updatePacketsLost hn lost t)).trans ?_
    rw [← hreported]
    obtain ⟨history, rate, hcore⟩ := core_updateEstimate (e.reported lost n t) t
    rw [hcore]
  · exact congrArg Core.receiverLimit (core_updatePacketsLost_accumulate hn lost t)

/-- The limit that a datagram leaves: a REMB sets it, anything else keeps it. -/
def limitAfter (limit : DataRate) (text : List Char) : DataRate :=
  match rembRate text with
  | none => limit
  | some rate => if rate.isZero then .plusInfinity else rate

/-- A limit that is the last of some rates is still that after a datagram whose rate fits. -/
theorem limitAfter_getLast {rates : List DataRate} {text : List Char}
    (hc : ∀ rate ∈ rembs [text], Carried rate) :
    limitAfter (rates.getLast?.getD .plusInfinity) text =
      (rates ++ rembs [text]).getLast?.getD .plusInfinity := by
  unfold limitAfter
  cases hrate : rembRate text with
  | none =>
      have hnone : rembs [text] = [] := by
        simp only [rembs, List.filterMap_cons, hrate, List.filterMap_nil]
      rw [hnone, List.append_nil]
  | some rate =>
      have hone : rembs [text] = [rate] := by
        simp only [rembs, List.filterMap_cons, hrate, List.filterMap_nil]
      rw [hone] at hc ⊢
      rw [List.getLast?_concat]
      simp only [(hc rate (List.mem_singleton_self rate)).isZero, Bool.false_eq_true, if_false,
        Option.getD_some]

namespace Sender
variable {s : Sender F}

/-- The controller's flag stays as it is, and its limit follows the datagram. -/
structure Follows (s s' : Sender F) (text : List Char) : Prop where
  packetFeedbackOnly : s'.gccControler.packetFeedbackOnly = false
  limit : s'.gccControler.getReceiverLimit = limitAfter s.gccControler.getReceiverLimit text

/-- A report that reaches the controller does what its call on the estimation does. -/
theorem follows_of_report (h : s.gccControler.packetFeedbackOnly = false) {s' : Sender F}
    {text : List Char} (report : GoogCcNetworkController.Report)
    (hs : s'.gccControler = s.gccControler.onReport report)
    (hl : (s.gccControler.bandwidthEstimation.call report.toCall.1 report.toCall.2).receiverLimit =
      limitAfter s.gccControler.getReceiverLimit text) : Follows s s' text := by
  rw [GoogCcNetworkController.onReport_eq h] at hs
  constructor
  case packetFeedbackOnly =>
    rw [hs]
    exact h
  case limit =>
    rw [hs]
    exact hl

theorem follows_rr (h : s.gccControler.packetFeedbackOnly = false) {text : List Char}
    (ht : getType text = .ok .rr) (now : Timestamp) :
    Follows s (s.onRRPacketReceived text now).2 text := by
  have hlimit : limitAfter s.gccControler.getReceiverLimit text = s.gccControler.getReceiverLimit := by
    rw [limitAfter, rembRate_of_type ht (by decide)]
  unfold onRRPacketReceived
  split
  · exact ⟨h, hlimit.symm⟩
  · next packet _ =>
    refine follows_of_report h (.transportLoss
      { startTime := packet.startTime
        endTime := packet.endTime
        packetsLostDelta := packet.packetsLostDelta
        packetsReceivedDelta := packet.packetsReceivedDelta
        receiveTime := now }) rfl ?_
    rw [hlimit]
    exact SendSideBandwidthEstimation.receiverLimit_updatePacketsLost _ _ _ _

theorem follows_remb (h : s.gccControler.packetFeedbackOnly = false) {text : List Char}
    (ht : getType text = .ok .remb) (now : Timestamp) :
    Follows s (s.onREMBPacketReceived text now).2 text := by
  unfold onREMBPacketReceived
  split
  · next heq =>
    refine ⟨h, ?_⟩
    rw [limitAfter, rembRate, ht]
    simp only [heq]
  · next packet heq =>
    have hrate : rembRate text = some packet.bandwidth := by
      rw [rembRate, ht]
      simp only [heq]
    refine follows_of_report h (.remoteBitrate
      { bandwidth := packet.bandwidth, receiveTime := now }) rfl ?_
    rw [limitAfter, hrate]
    exact SendSideBandwidthEstimation.receiverLimit_updateReceiverEstimate _ _ _

/-- What any datagram does to the limit of a Sender. -/
theorem follows_onPacketReceived (h : s.gccControler.packetFeedbackOnly = false) (text : List Char)
    (now : Timestamp) : Follows s (s.onPacketReceived text now).2 text := by
  unfold onPacketReceived
  cases ht : getType text with
  | error e =>
      refine ⟨h, ?_⟩
      rw [limitAfter, rembRate, ht]
  | ok t =>
      have hdispatch : Follows s (s.dispatch t text now).2 text := by
        cases t with
        | data =>
            refine ⟨h, ?_⟩
            rw [limitAfter, rembRate_of_type ht (by decide)]
            rfl
        | rr => exact follows_rr h ht now
        | remb => exact follows_remb h ht now
      dsimp only
      split
      · next heq =>
        rw [heq] at hdispatch
        exact hdispatch
      · next heq =>
        rw [heq] at hdispatch
        exact ⟨hdispatch.packetFeedbackOnly, hdispatch.limit⟩

end Sender

namespace Receiver
variable {r : Receiver F} {env : ReceiverEnv}

/-- The rate that a message of feedback makes the controller report. -/
def feedbackRate (r : Receiver F) (msg : TransportPacketsFeedback) : Option DataRate :=
  let result := (r.gccControler.onTransportPacketsFeedback msg).recentResult
  if result.updated then some result.targetBitrate else none

/-- The rate that a datagram makes the controller report to OnDelayBaseBweUpdated. -/
def reported (r : Receiver F) (env : ReceiverEnv) (data : List Char) : Option DataRate :=
  match getType data with
  | .ok .data =>
    match GCCDataPacketParser.unSerialize data {} with
    | (.ok (), packet) => r.feedbackRate (feedbackOf packet env)
    | (.error _, _) => none
  | _ => none

/-- A step that sends no REMB, or the one it remembers. Where nothing was remembered yet, a
send that fails leaves a rate that was not sent. -/
def Remembers (r : Receiver F) (step : ReceiverStep F) : Prop :=
  (rembs step.2.2 = [step.2.1.lastRembRate] ∧ Carried step.2.1.lastRembRate) ∨
    (rembs step.2.2 = [] ∧
      (step.2.1.lastRembRate = r.lastRembRate ∨ r.lastRembRate.isZero = true))

theorem remembers_of_silent {step : ReceiverStep F} (hsent : rembs step.2.2 = [])
    (hrate : step.2.1.lastRembRate = r.lastRembRate) : r.Remembers step := .inr ⟨hsent, .inl hrate⟩

/-- The handler of a report sends its rate unless it was the last one sent. -/
theorem remembers_onDelayBaseBweUpdated {report : BweResult} (h : Carried report.targetBitrate) :
    r.Remembers (r.onDelayBaseBweUpdated env report) := by
  have hrate : rembs [GCCREMBPacket.serialize ⟨report.targetBitrate⟩] = [report.targetBitrate] := by
    simp only [rembs, List.filterMap_cons, rembRate_remb h, List.filterMap_nil]
  unfold onDelayBaseBweUpdated sendText
  dsimp only
  by_cases hzero : r.lastRembRate.isZero = true
  · rw [if_pos hzero]
    by_cases hfails : env.sendFails (GCCREMBPacket.serialize ⟨report.targetBitrate⟩) = true
    · rw [if_pos hfails]
      exact .inr ⟨rfl, .inr hzero⟩
    · rw [if_neg hfails]
      exact .inl ⟨hrate, h⟩
  · rw [if_neg hzero]
    by_cases hsame : r.lastRembRate ≠ report.targetBitrate
    · rw [if_pos hsame]
      by_cases hfails : env.sendFails (GCCREMBPacket.serialize ⟨report.targetBitrate⟩) = true
      · rw [if_pos hfails]
        exact remembers_of_silent rfl rfl
      · rw [if_neg hfails]
        exact .inl ⟨hrate, h⟩
    · rw [if_neg hsame]
      exact remembers_of_silent rfl rfl

/-- The loss collection sends loss reports only. -/
theorem collectLosses_silent (r : Receiver F) (env : ReceiverEnv) (msg : TransportPacketsFeedback) :
    rembs (r.collectLosses env msg).2.2 = [] ∧
      (r.collectLosses env msg).2.1.lastRembRate = r.lastRembRate := by
  unfold collectLosses
  cases r.lossCollection.onTransportPacketsFeedback F msg with
  | error f => exact ⟨rfl, rfl⟩
  | ok result =>
      dsimp only
      split_ifs
      · unfold onLossReportGenerated sendText
        dsimp only
        split_ifs
        · exact ⟨rfl, rfl⟩
        · refine ⟨?_, rfl⟩
          simp only [rembs, List.filterMap_cons, rembRate_rr, List.filterMap_nil]
      · exact ⟨rfl, rfl⟩

theorem noteAckRate_lastRembRate (r : Receiver F) : r.noteAckRate.lastRembRate = r.lastRembRate := by
  unfold noteAckRate
  split <;> rfl

theorem Remembers.append {step next : ReceiverStep F} (h : r.Remembers step)
    (hsent : rembs next.2.2 = []) (hrate : next.2.1.lastRembRate = step.2.1.lastRembRate) :
    r.Remembers (next.1, next.2.1, step.2.2 ++ next.2.2) := by
  rw [Remembers]
  dsimp only
  rw [rembs_append, hsent, List.append_nil, hrate]
  exact h

theorem remembers_onFeedback {msg : TransportPacketsFeedback}
    (h : ∀ rate ∈ r.feedbackRate msg, Carried rate) : r.Remembers (r.onFeedback env msg) := by
  unfold feedbackRate at h
  unfold onFeedback
  dsimp only at h ⊢
  have hreport : r.Remembers
      (if (r.gccControler.onTransportPacketsFeedback msg).recentResult.updated = true then
        { r with gccControler := r.gccControler.onTransportPacketsFeedback msg }.onDelayBaseBweUpdated
          env (r.gccControler.onTransportPacketsFeedback msg).recentResult
      else (.ok (), { r with gccControler := r.gccControler.onTransportPacketsFeedback msg }, [])) := by
    split_ifs with hupdated
    · rw [if_pos hupdated] at h
      exact remembers_onDelayBaseBweUpdated (h _ rfl)
    · exact remembers_of_silent rfl rfl
  split
  · next heq =>
    rw [heq] at hreport
    exact hreport
  · next r' sent heq =>
    rw [heq] at hreport
    obtain ⟨hsent, hrate⟩ := collectLosses_silent r'.noteAckRate env msg
    exact hreport.append hsent (hrate.trans r'.noteAckRate_lastRembRate)

/-- What any datagram makes a Receiver send and remember. -/
theorem remembers_onPacketReceived {data : List Char}
    (h : ∀ rate ∈ r.reported env data, Carried rate) : r.Remembers (r.onPacketReceived env data) := by
  unfold onPacketReceived onDataPacketReceived
  unfold reported at h
  split
  · exact remembers_of_silent rfl rfl
  · next ht =>
    rw [ht] at h
    dsimp only at h
    split
    · exact remembers_of_silent rfl rfl
    · next packet hparse =>
      rw [hparse] at h
      exact remembers_onFeedback h
  · exact remembers_of_silent rfl rfl

end Receiver

/-- The peers, and the datagrams of the Receiver that are in flight. -/
structure System (F : Type) [FloatArith F] where
  sender : Sender F
  receiver : Receiver F
  inFlight : List (List Char) := []

/-- A datagram reaches the Receiver, or the network delivers or drops one in flight. -/
inductive NetworkEvent where
  | receive (env : ReceiverEnv) (data : List Char)
  | deliver (index : Nat) (now : Timestamp)
  | drop (index : Nat)

/-- What is seen of an event: the datagrams of the Receiver that it sent, delivered or dropped. -/
structure Traffic where
  sent : List (List Char) := []
  delivered : List (List Char) := []
  dropped : List (List Char) := []

/-- The events that are no step: of a datagram that is not in flight, or with a bandwidth
that its field has no room for. -/
inductive NoStep where
  | notInFlight
  | notCarried
  deriving DecidableEq, Repr

namespace System

def new (senderConfig receiverConfig : NetworkControllerConfig F) : System F where
  sender := .new senderConfig
  receiver := .new receiverConfig

/-- A handler that aborts leaves its state as it is, and the system goes on. -/
def step (s : System F) : NetworkEvent → Except NoStep (System F × Traffic)
  | .receive env data =>
    if ∀ rate ∈ s.receiver.reported env data, Carried rate then
      let (_, receiver, sent) := s.receiver.onPacketReceived env data
      .ok ({ s with receiver := receiver, inFlight := s.inFlight ++ sent }, { sent := sent })
    else .error .notCarried
  | .deliver index now =>
    match s.inFlight[index]? with
    | none => .error .notInFlight
    | some text =>
      .ok ({ s with
        sender := (s.sender.onPacketReceived text now).2
        inFlight := s.inFlight.eraseIdx index }, { delivered := [text] })
  | .drop index =>
    match s.inFlight[index]? with
    | none => .error .notInFlight
    | some text => .ok ({ s with inFlight := s.inFlight.eraseIdx index }, { dropped := [text] })

/-- The rates of the REMBs sent, delivered and dropped so far, in order. -/
def sentRates (seen : List Traffic) : List DataRate := rembs (seen.flatMap Traffic.sent)

def deliveredRates (seen : List Traffic) : List DataRate := rembs (seen.flatMap Traffic.delivered)

def droppedRates (seen : List Traffic) : List DataRate := rembs (seen.flatMap Traffic.dropped)

theorem rates_snoc (seen : List Traffic) (t : Traffic) :
    sentRates (seen ++ [t]) = sentRates seen ++ rembs t.sent ∧
      deliveredRates (seen ++ [t]) = deliveredRates seen ++ rembs t.delivered ∧
        droppedRates (seen ++ [t]) = droppedRates seen ++ rembs t.dropped := by
  simp only [sentRates, deliveredRates, droppedRates, List.flatMap_append, rembs_append,
    List.flatMap_singleton, and_self]

/-- An event sends, delivers or drops, and leaves the other two as they were. -/
theorem rates_sent (seen : List Traffic) (texts : List (List Char)) :
    sentRates (seen ++ [{ sent := texts }]) = sentRates seen ++ rembs texts ∧
      deliveredRates (seen ++ [{ sent := texts }]) = deliveredRates seen ∧
        droppedRates (seen ++ [{ sent := texts }]) = droppedRates seen := by
  obtain ⟨hsent, hdelivered, hdropped⟩ := rates_snoc seen { sent := texts }
  exact ⟨hsent, hdelivered.trans (List.append_nil _), hdropped.trans (List.append_nil _)⟩

theorem rates_delivered (seen : List Traffic) (texts : List (List Char)) :
    sentRates (seen ++ [{ delivered := texts }]) = sentRates seen ∧
      deliveredRates (seen ++ [{ delivered := texts }]) = deliveredRates seen ++ rembs texts ∧
        droppedRates (seen ++ [{ delivered := texts }]) = droppedRates seen := by
  obtain ⟨hsent, hdelivered, hdropped⟩ := rates_snoc seen { delivered := texts }
  exact ⟨hsent.trans (List.append_nil _), hdelivered, hdropped.trans (List.append_nil _)⟩

theorem rates_dropped (seen : List Traffic) (texts : List (List Char)) :
    sentRates (seen ++ [{ dropped := texts }]) = sentRates seen ∧
      deliveredRates (seen ++ [{ dropped := texts }]) = deliveredRates seen ∧
        droppedRates (seen ++ [{ dropped := texts }]) = droppedRates seen ++ rembs texts := by
  obtain ⟨hsent, hdelivered, hdropped⟩ := rates_snoc seen { dropped := texts }
  exact ⟨hsent.trans (List.append_nil _), hdelivered.trans (List.append_nil _), hdropped⟩

theorem rembs_perm {texts texts' : List (List Char)} (h : texts.Perm texts') :
    (rembs texts).Perm (rembs texts') := h.filterMap _

/-- Taking one datagram out of those in flight. -/
theorem rembs_eraseIdx {texts : List (List Char)} {index : Nat} {text : List Char}
    (h : texts[index]? = some text) :
    (rembs texts).Perm (rembs [text] ++ rembs (texts.eraseIdx index)) := by
  obtain ⟨hlt, rfl⟩ := List.getElem?_eq_some_iff.mp h
  rw [← rembs_append]
  exact rembs_perm (List.getElem_cons_eraseIdx_perm hlt).symm

end System
end Handlers
end ChromeGcc
