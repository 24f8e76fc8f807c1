import ChromeGcc.Loss.Ledger
import ChromeGcc.Peers.DataPath

/-! The loss reports of the closed loop: what the Receiver's loss collection is fed, and what
becomes of its reports on the way to the Sender. -/
namespace ChromeGcc
open Machine

/-- The loss report that a datagram carries, as its handler reads it. -/
def lossReport (text : List Char) : Option GCCRRPacket :=
  match getType text with
  | .ok .rr =>
    match GCCRRPacketParser.unSerialize text {} with
    | (.ok (), packet) => some packet
    | (.error _, _) => none
  | _ => none

def lossReports (texts : List (List Char)) : List GCCRRPacket := texts.filterMap lossReport

/-- The packet in which OnLossReportGenerated sends an update. -/
def LossReportUpdate.packet (update : LossReportUpdate) : GCCRRPacket where
  endTime := update.report.endTime
  startTime := update.report.startTime
  packetsLostDelta := update.report.packetsLostDelta
  packetsReceivedDelta := update.report.packetsReceivedDelta

theorem lossReport_rr (p : GCCRRPacket) : lossReport p.serialize = some p.written := by
  unfold lossReport
  rw [p.getType_serialize, GCCRRPacket.unSerialize_serialize_written]

theorem lossReport_remb (p : GCCREMBPacket) : lossReport p.serialize = none := by
  unfold lossReport
  rw [p.getType_serialize]

theorem lossReports_append (texts texts' : List (List Char)) :
    lossReports (texts ++ texts') = lossReports texts ++ lossReports texts' := List.filterMap_append

/-- The packet that OnDataPacketReceived hands on, as the estimators see it. -/
def packetResult (packet : GCCDataPacket) (env : ReceiverEnv) : PacketResult where
  sentPacket := {
    sequenceNumber := toInt64 packet.sequenceNumber
    sendTime := packet.sendTime
    size := .ofUnsigned packet.size }
  receiveTime := env.receiveTime

namespace Receiver
variable {F : Type} [FloatArith F] {r r' : Receiver F} {env : ReceiverEnv} {text : List Char}
  {sent : List (List Char)} {packet : GCCDataPacket}

/-- Datagrams that carry a rate. -/
def Rembs (texts : List (List Char)) : Prop :=
  ∀ text ∈ texts, ∃ p : GCCREMBPacket, text = p.serialize

theorem rembs_nil : Rembs [] := fun _ ht => absurd ht List.not_mem_nil

theorem lossReports_rembs {texts : List (List Char)} (h : Rembs texts) : lossReports texts = [] := by
  refine List.filterMap_eq_nil_iff.mpr ?_
  intro text ht
  obtain ⟨p, rfl⟩ := h text ht
  exact lossReport_remb p

/-- The handler of an estimate sends it or nothing, and leaves the loss collection alone. -/
theorem onDelayBaseBweUpdated_sends (r : Receiver F) (env : ReceiverEnv) (report : BweResult) :
    Rembs (r.onDelayBaseBweUpdated env report).2.2 ∧
      (r.onDelayBaseBweUpdated env report).2.1.lossCollection = r.lossCollection := by
  have one : Rembs [GCCREMBPacket.serialize ⟨report.targetBitrate⟩] :=
    fun text ht => ⟨_, List.mem_singleton.mp ht⟩
  unfold onDelayBaseBweUpdated sendText
  dsimp only
  split_ifs
  · exact ⟨rembs_nil, rfl⟩
  · exact ⟨one, rfl⟩
  · exact ⟨rembs_nil, rfl⟩
  · exact ⟨one, rfl⟩
  · exact ⟨rembs_nil, rfl⟩

/-- One packet is a message of one packet. -/
theorem onTransportPacketsFeedback_single (c : ReceiverLossCollection) (packet : GCCDataPacket)
    (env : ReceiverEnv) :
    c.onTransportPacketsFeedback F (feedbackOf packet env) =
      c.onTransportPacketFeedback F (packetResult packet env) := by
  change ReceiverLossCollection.feedbackLoop F c {} {} [packetResult packet env] = _
  rw [ReceiverLossCollection.feedbackLoop]
  cases c.onTransportPacketFeedback F (packetResult packet env) with
  | error f => rfl
  | ok result =>
      obtain ⟨c', report⟩ := result
      by_cases hu : report.updated = true
      · simp only [ReceiverLossCollection.feedbackLoop, hu, if_true]
      · simp only [ReceiverLossCollection.feedbackLoop, hu, Bool.false_eq_true, if_false]

/-- What a handled data packet does: its step of the loss collection, and what it sends. -/
structure Collects (r : Receiver F) (packet : PacketResult) (r' : Receiver F)
    (sent : List (List Char)) (report : LossReportUpdate) : Prop where
  collected : r.lossCollection.onTransportPacketFeedback F packet = .ok (r'.lossCollection, report)
  sends : ∃ rembs, Rembs rembs ∧
    sent = rembs ++ (if report.updated then [report.packet.serialize] else [])

theorem noteAckRate_lossCollection (r : Receiver F) :
    r.noteAckRate.lossCollection = r.lossCollection := by
  unfold noteAckRate
  split <;> rfl

theorem collects_of_collectLosses {msg : TransportPacketsFeedback} {packet : PacketResult}
    (hmsg : r.lossCollection.onTransportPacketsFeedback F msg =
      r.lossCollection.onTransportPacketFeedback F packet)
    (h : r.collectLosses env msg = (.ok (), r', sent)) :
    ∃ report, r.Collects packet r' sent report := by
  unfold collectLosses onLossReportGenerated sendText at h
  rw [hmsg] at h
  cases hc : r.lossCollection.onTransportPacketFeedback F packet with
  | error f => rw [hc] at h; cases h
  | ok result =>
      obtain ⟨c, report⟩ := result
      rw [hc] at h
      dsimp only at h
      split_ifs at h with hu hfails
      · cases h
      · cases h
        refine ⟨report, hc, [], rembs_nil, ?_⟩
        rw [if_pos hu]
        rfl
      · cases h
        refine ⟨report, hc, [], rembs_nil, ?_⟩
        rw [if_neg hu]
        rfl

theorem collects_of_onFeedback (h : r.onFeedback env (feedbackOf packet env) = (.ok (), r', sent)) :
    ∃ report, r.Collects (packetResult packet env) r' sent report := by
  unfold onFeedback at h
  dsimp only at h
  split at h
  · cases h
  · next r₁ rembs heq =>
      have hfirst : Rembs rembs ∧ r₁.lossCollection = r.lossCollection := by
        split_ifs at heq with hu
        · have hsends := onDelayBaseBweUpdated_sends { r with
            gccControler := r.gccControler.onTransportPacketsFeedback (feedbackOf packet env) } env
            (r.gccControler.onTransportPacketsFeedback (feedbackOf packet env)).recentResult
          rw [heq] at hsends
          exact hsends
        · cases heq
          exact ⟨rembs_nil, rfl⟩
      revert h
      rcases hc : r₁.noteAckRate.collectLosses env (feedbackOf packet env) with ⟨outcome, r₂, sent'⟩
      intro h
      cases h
      obtain ⟨report, hcollected, rembs', hrembs', hsent'⟩ := collects_of_collectLosses
        (onTransportPacketsFeedback_single _ packet env) hc
      refine ⟨report, ?_, rembs ++ rembs', ?_, ?_⟩
      · rw [noteAckRate_lossCollection, hfirst.2] at hcollected
        exact hcollected
      · intro text ht
        rcases List.mem_append.mp ht with ht | ht
        · exact hfirst.1 text ht
        · exact hrembs' text ht
      · rw [hsent', List.append_assoc]

theorem collects_of_onPacketReceived (ht : getType text = .ok .data)
    (hp : GCCDataPacketParser.unSerialize text {} = (.ok (), packet))
    (h : r.onPacketReceived env text = (.ok (), r', sent)) :
    ∃ report, r.Collects (packetResult packet env) r' sent report := by
  unfold onPacketReceived onDataPacketReceived at h
  rw [ht] at h
  dsimp only at h
  rw [hp] at h
  exact collects_of_onFeedback h

end Receiver

namespace Link
variable {F : Type} [FloatArith F] {s s' : Link F} {o : LinkView} {os : List LinkView}
  {events : List LinkEvent} {updates : List LossReportUpdate}

/-- The data packets that the Receiver was handed, with what the handler found outside. -/
def deliveries (os : List LinkView) : List (GCCDataPacket × ReceiverEnv) :=
  os.filterMap fun o =>
    match o.event with
    | some (.receive env text) => some ((GCCDataPacketParser.unSerialize text {}).2, env)
    | _ => none

theorem deliveries_received (os : List LinkView) (env : ReceiverEnv) (packet : GCCDataPacket)
    (traffic : Traffic) (reported : Option DataRate) :
    deliveries (os ++ [⟨some (.receive env packet.serialize), traffic, reported, none⟩]) =
      deliveries os ++ [(packet.written, env)] := by
  simp only [deliveries, List.filterMap_append, List.filterMap_cons, List.filterMap_nil,
    GCCDataPacket.unSerialize_serialize_written]

theorem deliveries_silent (os : List LinkView) (h : ∀ env text, o.event ≠ some (.receive env text)) :
    deliveries (os ++ [o]) = deliveries os := by
  have hnone : deliveries [o] = [] := by
    rcases o with ⟨event, traffic, reported⟩
    match event, h with
    | none, _ => rfl
    | some (.receive env text), h => exact absurd rfl (h env text)
    | some (.deliver index now), _ => rfl
    | some (.drop index), _ => rfl
  rw [deliveries, List.filterMap_append]
  exact (congrArg (deliveries os ++ ·) hnone).trans (List.append_nil _)

/-- The packets as the loss collection sees them. -/
def arrivals (os : List LinkView) : List PacketResult :=
  (deliveries os).map fun d => packetResult d.1 d.2

theorem arrivals_received (os : List LinkView) (env : ReceiverEnv) (packet : GCCDataPacket)
    (traffic : Traffic) (reported : Option DataRate) :
    arrivals (os ++ [⟨some (.receive env packet.serialize), traffic, reported, none⟩]) =
      arrivals os ++ [packetResult packet.written env] := by
  rw [arrivals, deliveries_received, List.map_append]
  rfl

theorem arrivals_silent (os : List LinkView) (h : ∀ env text, o.event ≠ some (.receive env text)) :
    arrivals (os ++ [o]) = arrivals os := by
  rw [arrivals, deliveries_silent os h]
  rfl

/-- The loss collection took one step for each packet handed over, and each of its reports was
sent, as far as its fields had room. -/
structure Fed (os : List LinkView) (s : Link F) (updates : List LossReportUpdate) : Prop where
  trace : Trace (ReceiverLossCollection.onTransportPacketFeedback F) {} (arrivals os) updates
    s.receiver.lossCollection
  reports : lossReports s.reports.sent =
    (updates.filter (·.updated)).map fun update => update.packet.written

/-- Every data datagram sent is the text of a packet. -/
def TextsData (s : Link F) : Prop := ∀ text ∈ s.data.sent, ∃ packet : GCCDataPacket, text = packet.serialize

theorem textsData_of_trace {senderConfig receiverConfig : NetworkControllerConfig F}
    (h : Trace step (new senderConfig receiverConfig) events os s) : s.TextsData := by
  obtain ⟨sends, -, hn⟩ := numbered_of_trace h
  intro text ht
  rw [hn.sent] at ht
  obtain ⟨packet, -, rfl⟩ := List.mem_map.mp ht
  exact ⟨packet, rfl⟩

/-- A step that hands nothing over keeps what was fed. -/
theorem Fed.silent (h : s.Fed os updates) (ho : ∀ env text, o.event ≠ some (.receive env text))
    (hr : s'.receiver = s.receiver) (hs : s'.reports.sent = s.reports.sent) :
    s'.Fed (os ++ [o]) (updates ++ []) := by
  rw [List.append_nil]
  refine ⟨?_, by rw [hs]; exact h.reports⟩
  rw [arrivals_silent os ho, hr]
  exact h.trace

theorem Does.fed {event : LinkEvent} (h : s.Does event s' o) (htexts : s.TextsData)
    (hf : s.Fed os updates) : ∃ more, s'.Fed (os ++ [o]) (updates ++ more) := by
  cases h with
  | poll step => exact ⟨[], hf.silent (by simp) rfl rfl⟩
  | @deliverData index env text data receiver sent delivers received =>
      obtain ⟨packet, rfl⟩ := htexts text delivers.mem_sent
      obtain ⟨report, hcollected, rembs, hrembs, hsent⟩ :=
        Receiver.collects_of_onPacketReceived packet.getType_serialize
          (GCCDataPacket.unSerialize_serialize_written packet {}) received
      refine ⟨[report], ?_, ?_⟩
      · rw [arrivals_received]
        exact hf.trace.snoc hcollected
      · rw [Channel.send_sent, lossReports_append, hf.reports, hsent, lossReports_append,
          Receiver.lossReports_rembs hrembs, List.nil_append, List.filter_append, List.map_append]
        by_cases hu : report.updated = true
        · simp [hu, lossReports, lossReport_rr]
        · simp [hu, lossReports]
  | dropData drops => exact ⟨[], hf.silent (by simp) rfl rfl⟩
  | deliverReport delivers received => exact ⟨[], hf.silent (by simp) rfl delivers.sent⟩
  | dropReport drops => exact ⟨[], hf.silent (by simp) rfl drops.sent⟩

theorem fed_of_trace {senderConfig receiverConfig : NetworkControllerConfig F}
    (h : Trace step (new senderConfig receiverConfig) events os s) : ∃ updates, s.Fed os updates := by
  induction h with
  | nil => exact ⟨[], .nil, rfl⟩
  | snoc h hs ih =>
      obtain ⟨updates, hf⟩ := ih
      obtain ⟨more, hf'⟩ := (does_of_step hs).fed (textsData_of_trace h) hf
      exact ⟨_, hf'⟩

/-- The times at which the Receiver is handed its packets. -/
def receiveTimes (events : List LinkEvent) : List Timestamp :=
  events.filterMap fun
    | .deliverData _ env => some env.receiveTime
    | _ => none

theorem receiveTimes_received (events : List LinkEvent) (index : Nat) (env : ReceiverEnv) :
    receiveTimes (events ++ [.deliverData index env]) = receiveTimes events ++ [env.receiveTime] := by
  rw [receiveTimes, List.filterMap_append]
  rfl

/-- The data channel keeps the order, though it may lose packets, the Receiver's clock does not
go back, and the packets' numbers have room in their field. -/
structure Orderly (events : List LinkEvent) : Prop where
  oldestFirst : ∀ index env, .deliverData index env ∈ events → index = 0
  clock : (receiveTimes events).Pairwise (· ≤ ·)
  numbers : (polls events).length < 10 ^ packetNumberLen

theorem Orderly.of_append {more : List LinkEvent} (h : Orderly (events ++ more)) :
    Orderly events where
  oldestFirst index env he := h.oldestFirst index env (List.mem_append_left _ he)
  clock := by
    have hclock := h.clock
    rw [receiveTimes, List.filterMap_append, List.pairwise_append] at hclock
    exact hclock.1
  numbers := by
    have hnumbers := h.numbers
    rw [polls, List.filterMap_append, List.length_append] at hnumbers
    exact lt_of_le_of_lt (Nat.le_add_right _ _) hnumbers

theorem Does.inOrder {event : LinkEvent} (h : s.Does event s' o) (hd : s.data.InOrder)
    (hfirst : ∀ index env, event = .deliverData index env → index = 0) : s'.data.InOrder := by
  cases h with
  | poll step => exact hd.send _
  | @deliverData index env text data receiver sent delivers received =>
      cases hfirst index env rfl
      exact hd.deliver delivers
  | dropData drops => exact hd.drop drops
  | deliverReport delivers received => exact hd
  | dropReport drops => exact hd

theorem inOrder_of_trace {senderConfig receiverConfig : NetworkControllerConfig F}
    (ho : Orderly events) (h : Trace step (new senderConfig receiverConfig) events os s) :
    s.data.InOrder := by
  refine Trace.invariant (P := Orderly) (I := fun _ _ s => s.data.InOrder)
    (fun _ _ h => h.of_append) Channel.inOrder_empty ?_ h ho
  intro events os s event s' o ho _ hd hs
  refine (does_of_step hs).inOrder hd ?_
  intro index env he
  refine ho.oldestFirst index env ?_
  rw [he]
  exact List.mem_append_right _ (List.mem_singleton_self _)

/-- What was handed over is what was delivered, at the times of the deliveries. -/
structure Handed (events : List LinkEvent) (os : List LinkView) (s : Link F) : Prop where
  numbers : (arrivals os).map (·.sentPacket.sequenceNumber) =
    s.data.delivered.map fun text => (dataNumber text : Int)
  times : (arrivals os).map (·.receiveTime) = receiveTimes events

/-- A step that hands nothing over delivers none of the packets. -/
theorem Handed.silent {event : LinkEvent} (h : Handed events os s)
    (he : ∀ index env, event ≠ .deliverData index env)
    (ho : ∀ env text, o.event ≠ some (.receive env text))
    (hd : s'.data.delivered = s.data.delivered) : Handed (events ++ [event]) (os ++ [o]) s' := by
  have hnone : receiveTimes [event] = [] := by
    cases event with
    | deliverData index env => exact absurd rfl (he index env)
    | poll poll => rfl
    | dropData index => rfl
    | deliverReport index now => rfl
    | dropReport index => rfl
  constructor
  · rw [arrivals_silent os ho, hd]
    exact h.numbers
  · rw [arrivals_silent os ho, h.times, receiveTimes, receiveTimes, List.filterMap_append]
    exact ((congrArg (receiveTimes events ++ ·) hnone).trans (List.append_nil _)).symm

theorem Does.handed {event : LinkEvent} (h : s.Does event s' o) (htexts : s.TextsData)
    (hh : Handed events os s) : Handed (events ++ [event]) (os ++ [o]) s' := by
  cases h with
  | poll step => exact hh.silent (by simp) (by simp) rfl
  | @deliverData index env text data receiver sent delivers received =>
      obtain ⟨packet, rfl⟩ := htexts text delivers.mem_sent
      have hlt := packet.written_fits.sequenceNumber
      have hnumber : (packetResult packet.written env).sentPacket.sequenceNumber =
          (dataNumber packet.serialize : Int) := by
        rw [dataNumber, GCCDataPacket.unSerialize_serialize_written]
        exact toInt64_natCast (hlt.trans (by decide))
      constructor
      · rw [arrivals_received, List.map_append, hh.numbers, delivers.delivered, List.map_append,
          List.map_singleton, List.map_singleton, hnumber]
      · rw [arrivals_received, List.map_append, hh.times, receiveTimes_received]
        rfl
  | dropData drops => exact hh.silent (by simp) (by simp) drops.delivered
  | deliverReport delivers received => exact hh.silent (by simp) (by simp) rfl
  | dropReport drops => exact hh.silent (by simp) (by simp) rfl

theorem handed_of_trace {senderConfig receiverConfig : NetworkControllerConfig F}
    (h : Trace step (new senderConfig receiverConfig) events os s) : Handed events os s := by
  induction h with
  | nil => exact ⟨rfl, rfl⟩
  | snoc h hs ih => exact (does_of_step hs).handed (textsData_of_trace h) ih

theorem Numbered.le_of_orderly {sends : List SendPoll} (hsends : sends.Sublist (polls events))
    (ho : Orderly events) : sends.length < 10 ^ packetNumberLen :=
  lt_of_le_of_lt hsends.length_le ho.numbers

/-- The numbers that reach the Receiver are among those sent. -/
theorem mem_delivered_number {sends : List SendPoll} (hn : s.Numbered sends)
    (hl : sends.length < 10 ^ packetNumberLen) {text : List Char} (ht : text ∈ s.data.delivered) :
    1 ≤ dataNumber text ∧ dataNumber text ≤ sends.length := by
  have hmem := List.mem_map_of_mem (f := dataNumber) (Channel.mem_sent_of_mem_delivered ht)
  rw [hn.dataNumbers hl, List.mem_range'_1] at hmem
  omega

/-- Packets that a channel delivers in the order of their numbers, while the clock advances. -/
theorem inOrder_of_channel {data : Channel (List Char)} {ps : List PacketResult} {count : Nat}
    (hd : data.InOrder) (hsent : data.sent.map dataNumber = List.range' 1 count)
    (hl : count < 10 ^ packetNumberLen)
    (hnumbers : ps.map (·.sentPacket.sequenceNumber) =
      data.delivered.map fun text => (dataNumber text : Int))
    (hclock : (ps.map (·.receiveTime)).Pairwise (· ≤ ·)) : ReceiverLossCollection.InOrder ps := by
  refine ⟨⟨?valid, ?ordered⟩, ?increasing⟩
  case valid =>
    intro p hp
    have hmem := List.mem_map_of_mem (f := (·.sentPacket.sequenceNumber)) hp
    rw [hnumbers] at hmem
    obtain ⟨text, ht, hnumber⟩ := List.mem_map.mp hmem
    have hrange := List.mem_map_of_mem (f := dataNumber) (Channel.mem_sent_of_mem_delivered ht)
    rw [hsent, List.mem_range'_1] at hrange
    have hpow : 10 ^ packetNumberLen = 10000000000 := rfl
    unfold PacketResult.Valid
    omega
  case ordered => exact List.pairwise_map.mp hclock
  case increasing =>
    have hsorted : (data.delivered.map dataNumber).Pairwise (· < ·) := by
      have hincreasing : (data.sent.map dataNumber).Pairwise (· < ·) := by
        rw [hsent]
        exact List.pairwise_lt_range'
      have hsub := (List.sublist_append_left data.delivered data.inFlight).trans hd
      exact hincreasing.sublist (hsub.map dataNumber)
    have hincreasing : (ps.map (·.sentPacket.sequenceNumber)).Pairwise (· < ·) := by
      rw [hnumbers, List.pairwise_map]
      exact (List.pairwise_map.mp hsorted).imp fun hlt => by exact_mod_cast hlt
    exact List.pairwise_map.mp hincreasing

/-- On an orderly channel the loss collection is fed in order. -/
theorem inOrder_arrivals {senderConfig receiverConfig : NetworkControllerConfig F}
    (ho : Orderly events) (h : Trace step (new senderConfig receiverConfig) events os s) :
    ReceiverLossCollection.InOrder (arrivals os) := by
  obtain ⟨sends, hsends, hn⟩ := numbered_of_trace h
  have hl := Numbered.le_of_orderly hsends ho
  have hhanded := handed_of_trace h
  refine inOrder_of_channel (inOrder_of_trace ho h) (hn.dataNumbers hl) hl hhanded.numbers ?_
  rw [hhanded.times]
  exact ho.clock

theorem arrivals_numbers {senderConfig receiverConfig : NetworkControllerConfig F}
    (ho : Orderly events) (h : Trace step (new senderConfig receiverConfig) events os s) :
    (arrivals os).map PacketResult.number = s.data.delivered.map dataNumber := by
  have hvalid := (inOrder_arrivals ho h).valid
  have hcast : ((arrivals os).map PacketResult.number).map (fun n : Nat => (n : Int)) =
      (s.data.delivered.map dataNumber).map fun n : Nat => (n : Int) := by
    rw [List.map_map, List.map_map]
    refine Eq.trans (List.map_congr_left ?_) (handed_of_trace h).numbers
    intro p hp
    exact (hvalid p hp).number_eq
  exact List.map_injective_iff.mpr Nat.cast_injective hcast

/-- A number that is missing at the Receiver was lost on the way. -/
theorem dropped_of_missing {senderConfig receiverConfig : NetworkControllerConfig F}
    (ho : Orderly events) (h : Trace step (new senderConfig receiverConfig) events os s) {n : Nat}
    (hmiss : ReceiverLossCollection.Missing ((arrivals os).map PacketResult.number) n) :
    n ∈ s.data.dropped.map dataNumber := by
  obtain ⟨sends, hsends, hn⟩ := numbered_of_trace h
  have hl := Numbered.le_of_orderly hsends ho
  rw [arrivals_numbers ho h] at hmiss
  obtain ⟨hnot, ⟨a, ha, han⟩, b, hb, hnb⟩ := hmiss
  obtain ⟨first, hfirst, rfl⟩ := List.mem_map.mp ha
  obtain ⟨later, hlater, rfl⟩ := List.mem_map.mp hb
  have hsent : n ∈ s.data.sent.map dataNumber := by
    have hlow := mem_delivered_number hn hl hfirst
    have hhigh := mem_delivered_number hn hl hlater
    rw [hn.dataNumbers hl, List.mem_range'_1]
    omega
  obtain ⟨text, ht, rfl⟩ := List.mem_map.mp hsent
  exact List.mem_map_of_mem ((inOrder_of_trace ho h).overtaken (hn.increasing hl) ht hlater hnb
    fun hd => hnot (List.mem_map_of_mem hd))

/-- What some loss reports say in all. -/
def reportedLost (texts : List (List Char)) : Nat :=
  ((lossReports texts).map (·.packetsLostDelta)).sum

def reportedReceived (texts : List (List Char)) : Nat :=
  ((lossReports texts).map (·.packetsReceivedDelta)).sum

theorem writtenNumber_le (number len : Nat) : writtenNumber number len ≤ number := by
  unfold writtenNumber
  split_ifs
  · exact le_refl _
  · exact Nat.zero_le _

theorem Fed.reported_le (h : s.Fed os updates) :
    reportedLost s.reports.sent ≤ ReceiverLossCollection.lostTotal updates ∧
      reportedReceived s.reports.sent ≤ ReceiverLossCollection.receivedTotal updates := by
  unfold reportedLost reportedReceived ReceiverLossCollection.lostTotal
    ReceiverLossCollection.receivedTotal
  rw [h.reports, List.map_map, List.map_map]
  constructor
  · exact List.sum_le_sum fun update _ => writtenNumber_le _ _
  · exact List.sum_le_sum fun update _ => writtenNumber_le _ _

/-- The reports count at most the packets that the channel lost, and those that it delivered. -/
theorem reported_le_of_trace {senderConfig receiverConfig : NetworkControllerConfig F}
    (ho : Orderly events) (h : Trace step (new senderConfig receiverConfig) events os s) :
    reportedLost s.reports.sent ≤ s.data.dropped.length ∧
      reportedReceived s.reports.sent ≤ s.data.delivered.length := by
  obtain ⟨updates, hfed⟩ := fed_of_trace h
  obtain ⟨hlost, hreceived⟩ := hfed.reported_le
  obtain ⟨hcount, missing, hnodup, hbound, hmissing⟩ :=
    ReceiverLossCollection.totals_of_inOrder (inOrder_arrivals ho h) hfed.trace
  constructor
  · have hsub : missing ⊆ s.data.dropped.map dataNumber :=
      fun n hn => dropped_of_missing ho h (hmissing n hn)
    have hlength := (List.subperm_of_subset hnodup hsub).length_le
    rw [List.length_map] at hlength
    omega
  · have hlength := congrArg List.length (arrivals_numbers ho h)
    rw [List.length_map, List.length_map] at hlength
    omega

/-- Where the data channel keeps the order, the loss reports never overstate: those sent, and all
the more those that reach the Sender, together count at most the packets that the channel lost as
lost, and at most the packets that it delivered as received. -/
theorem loss_reports_sound (senderConfig receiverConfig : NetworkControllerConfig F)
    (events : List LinkEvent) (ho : Orderly events)
    (h : Trace step (new senderConfig receiverConfig) events os s) :
    reportedLost s.reports.delivered ≤ reportedLost s.reports.sent ∧
      reportedLost s.reports.sent ≤ s.data.dropped.length ∧
      reportedReceived s.reports.delivered ≤ reportedReceived s.reports.sent ∧
      reportedReceived s.reports.sent ≤ s.data.delivered.length := by
  obtain ⟨hlost, hreceived⟩ := reported_le_of_trace ho h
  exact ⟨s.reports.sum_delivered_le _ _, hlost, s.reports.sum_delivered_le _ _, hreceived⟩

theorem orderly_lossyRun : Orderly lossyRun where
  oldestFirst index env he := by
    simp only [lossyRun, pollAt, nextDataAt, List.mem_cons, List.not_mem_nil, reduceCtorEq,
      LinkEvent.deliverData.injEq, false_or, or_false] at he
    omega
  clock := by decide +kernel
  numbers := by decide

/-- The report of the run counts the packet lost, and two of the four that were delivered. -/
theorem loss_reports_sound_lossyRun :
    ∃ os s, Trace step (new (System.startedAt 300000) (System.startedAt 300000)) lossyRun os s ∧
      reportedLost s.reports.delivered = 1 ∧ reportedReceived s.reports.delivered = 2 ∧
      reportedLost s.reports.sent ≤ s.data.dropped.length ∧
      reportedReceived s.reports.sent ≤ s.data.delivered.length := by
  have h := trace_final lossyRun_succeeds
  have hsound := loss_reports_sound _ _ lossyRun orderly_lossyRun h
  exact ⟨_, _, h, by decide +kernel, by decide +kernel, hsound.2.1, hsound.2.2.2⟩

end Link
end ChromeGcc
