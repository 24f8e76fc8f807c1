import ChromeGcc.Peers.LoopPacing
import ChromeGcc.Peers.LossFeedback

/-! The closed loop goes on: what the peers send each other never stops them, as long as their
own sends succeed and the data channel keeps the order. -/
namespace ChromeGcc
open Machine

namespace Receiver
variable {F : Type} [FloatArith F] {r r' : Receiver F} {env : ReceiverEnv} {text : List Char}
  {packet : GCCDataPacket} {sent : List (List Char)}

theorem sendText_ok (hsends : ∀ text, env.sendFails text = false) (text : List Char)
    (r : Receiver F) : sendText env text r = (.ok (), r, [text]) := by
  unfold sendText
  rw [hsends]
  rfl

theorem onDelayBaseBweUpdated_ok (hsends : ∀ text, env.sendFails text = false) (r : Receiver F)
    (report : BweResult) : (r.onDelayBaseBweUpdated env report).1 = .ok () := by
  unfold onDelayBaseBweUpdated
  simp only [sendText_ok hsends]
  split_ifs
  · rfl
  · rfl
  · rfl

/-- A data packet that the loss collection takes is handled to its end. -/
theorem onFeedback_ok (hsends : ∀ text, env.sendFails text = false)
    (hloss : ∃ x, r.lossCollection.onTransportPacketFeedback F (packetResult packet env) = .ok x) :
    (r.onFeedback env (feedbackOf packet env)).1 = .ok () := by
  have hcollects : ∀ r₁ : Receiver F, r₁.lossCollection = r.lossCollection →
      (r₁.collectLosses env (feedbackOf packet env)).1 = .ok () := by
    intro r₁ hr₁
    obtain ⟨⟨c, report⟩, hc⟩ := hloss
    unfold collectLosses onLossReportGenerated
    rw [hr₁, onTransportPacketsFeedback_single, hc]
    simp only [sendText_ok hsends]
    split_ifs
    · rfl
    · rfl
  unfold onFeedback
  dsimp only
  split
  · next e r₁ rembs heq =>
      split_ifs at heq with hu
      · have hok := onDelayBaseBweUpdated_ok hsends
          { r with gccControler := r.gccControler.onTransportPacketsFeedback (feedbackOf packet env) }
          (r.gccControler.onTransportPacketsFeedback (feedbackOf packet env)).recentResult
        rw [heq] at hok
        cases hok
      · cases heq
  · next r₁ rembs heq =>
      refine hcollects r₁.noteAckRate ?_
      rw [noteAckRate_lossCollection]
      split_ifs at heq with hu
      · have hkept := (onDelayBaseBweUpdated_sends
          { r with gccControler := r.gccControler.onTransportPacketsFeedback (feedbackOf packet env) }
          env (r.gccControler.onTransportPacketsFeedback (feedbackOf packet env)).recentResult).2
        rw [heq] at hkept
        exact hkept
      · cases heq
        rfl

theorem onPacketReceived_ok (hsends : ∀ text, env.sendFails text = false)
    (ht : getType text = .ok .data)
    (hp : GCCDataPacketParser.unSerialize text {} = (.ok (), packet))
    (hloss : ∃ x, r.lossCollection.onTransportPacketFeedback F (packetResult packet env) = .ok x) :
    (r.onPacketReceived env text).1 = .ok () := by
  unfold onPacketReceived onDataPacketReceived
  rw [ht]
  dsimp only
  rw [hp]
  exact onFeedback_ok hsends hloss

end Receiver

/-- The text of a loss report or of a rate, whatever its fields. -/
inductive ReportText : List Char → Prop where
  | rr (p : GCCRRPacket) : ReportText p.serialize
  | remb (p : GCCREMBPacket) : ReportText p.serialize

/-- No report stops the Sender: a field without room was written as zero. -/
theorem Sender.receivePacket_ok {F : Type} [FloatArith F] (s : Sender F) {text : List Char}
    (ht : ReportText text) (now : Timestamp) :
    ∃ s', s.receivePacket (some text) now = (.ok (), s') := by
  cases ht with
  | rr p =>
      have hfits := onPacketReceived_rr_fits p.written_fits s now
      rw [p.serialize_written] at hfits
      exact hfits
  | remb p =>
      have hfits := onPacketReceived_remb_fits p.written_fits s now
      rw [p.serialize_written] at hfits
      exact hfits

namespace Link
variable {F : Type} [FloatArith F] {s s' : Link F} {o : LinkView} {os : List LinkView}
  {events : List LinkEvent} {senderConfig receiverConfig : NetworkControllerConfig F}

theorem reportTexts_of_trace (h : Trace step (new senderConfig receiverConfig) events os s) :
    ∀ text ∈ s.reports.sent, ReportText text := by
  induction h with
  | nil => exact fun _ ht => absurd ht List.not_mem_nil
  | snoc h hs ih =>
      cases does_of_step hs with
      | poll step => exact ih
      | @deliverData index env text data receiver sent delivers received =>
          obtain ⟨packet, rfl⟩ := textsData_of_trace h text delivers.mem_sent
          obtain ⟨report, -, rembs, hrembs, rfl⟩ := Receiver.collects_of_onPacketReceived
            packet.getType_serialize (GCCDataPacket.unSerialize_serialize_written packet {}) received
          intro text ht
          rcases List.mem_append.mp ht with ht | ht
          · exact ih text ht
          · rcases List.mem_append.mp ht with ht | ht
            · obtain ⟨p, rfl⟩ := hrembs text ht
              exact .remb p
            · split_ifs at ht
              · rw [List.mem_singleton.mp ht]
                exact .rr _
              · cases ht
      | dropData drops => exact ih
      | deliverReport delivers received =>
          rw [delivers.sent]
          exact ih
      | dropReport drops =>
          rw [drops.sent]
          exact ih

/-- No sendto fails. -/
structure Sending (events : List LinkEvent) : Prop where
  sender : ∀ poll ∈ polls events, poll.sendFails = false
  receiver : ∀ index env, .deliverData index env ∈ events → ∀ text, env.sendFails text = false

/-- The next packet in order is taken by the loss collection. -/
theorem collects_next {index : Nat} {env : ReceiverEnv} {packet : GCCDataPacket}
    {data : Channel (List Char)} (ho : Orderly (events ++ [.deliverData index env]))
    (h : Trace step (new senderConfig receiverConfig) events os s)
    (hd : s.data.Delivers index packet.serialize data) :
    ∃ x, s.receiver.lossCollection.onTransportPacketFeedback F (packetResult packet.written env) =
      .ok x := by
  obtain ⟨sends, hsends, hn⟩ := numbered_of_trace h
  obtain ⟨updates, hfed⟩ := fed_of_trace h
  have hhanded := handed_of_trace h
  have hl := Numbered.le_of_orderly hsends ho.of_append
  have hfirst := ho.oldestFirst index env (List.mem_append_right _ (List.mem_singleton_self _))
  rw [hfirst] at hd
  have hchannel := (inOrder_of_trace ho.of_append h).deliver hd
  have hnumber : (packetResult packet.written env).sentPacket.sequenceNumber =
      (dataNumber packet.serialize : Int) := by
    rw [dataNumber, GCCDataPacket.unSerialize_serialize_written]
    exact toInt64_natCast (packet.written_fits.sequenceNumber.trans (by decide))
  have hin : ReceiverLossCollection.InOrder (arrivals os ++ [packetResult packet.written env]) := by
    refine inOrder_of_channel hchannel ?_ hl ?_ ?_
    · rw [hd.sent]
      exact hn.dataNumbers hl
    · rw [List.map_append, hhanded.numbers, hd.delivered, List.map_append, List.map_singleton,
        List.map_singleton, hnumber]
    · have hclock := ho.clock
      rw [receiveTimes, List.filterMap_append] at hclock
      rw [List.map_append, hhanded.times]
      exact hclock
  obtain ⟨os', c, ht, -⟩ := ReceiverLossCollection.keepsAll_of_inOrder F hin
  obtain ⟨updates', update, c', -, ht', hstep⟩ := ht.snoc_inv
  obtain ⟨-, rfl⟩ := hfed.trace.unique ht'
  exact ⟨_, hstep⟩

/-- Where the data channel keeps the order, though it may lose packets, the reports may be lost
and reordered, and no sendto fails, no peer is ever stopped: a run ends early only where the
network is told to deliver or to drop what is not there. -/
theorem link_never_stops (senderConfig receiverConfig : NetworkControllerConfig F)
    (events : List LinkEvent) (ho : Orderly events) (hsending : Sending events) :
    (∃ r, run step (new senderConfig receiverConfig) events = .ok r) ∨
      run step (new senderConfig receiverConfig) events = .error .notInFlight := by
  cases hrun : run step (new senderConfig receiverConfig) events with
  | ok r => exact .inl ⟨r, rfl⟩
  | error f =>
      right
      obtain ⟨pre, event, post, os, s, rfl, ht, hstep⟩ := run_error_iff.mp hrun
      rw [List.append_cons] at ho hsending
      have hpre := ho.of_append
      have hmem : event ∈ pre ++ [event] ++ post :=
        List.mem_append_left _ (List.mem_append_right _ (List.mem_singleton_self _))
      cases event with
      | poll poll =>
          exfalso
          have hrate : 0 < s.running.sendLoop.sendControl.pacingRate :=
            lt_of_lt_of_le (by decide) (steady_of_trace ht).1.minimum
          have hsends : poll.sendFails = false :=
            hsending.sender poll (List.mem_filterMap.mpr ⟨_, hmem, rfl⟩)
          obtain ⟨r, hr⟩ := SendLoop.sendPacket_ok (F := F) hrate hsends
          simp only [step, RunningSender.step, hr] at hstep
          cases hstep
      | deliverData index env =>
          simp only [step] at hstep
          split at hstep
          · cases hstep
            rfl
          · next text data hd =>
              exfalso
              have hdelivers := Channel.delivers_of_deliver hd
              obtain ⟨packet, rfl⟩ := textsData_of_trace ht text hdelivers.mem_sent
              have hok := Receiver.onPacketReceived_ok (hsending.receiver index env hmem)
                packet.getType_serialize (GCCDataPacket.unSerialize_serialize_written packet {})
                (collects_next hpre ht hdelivers)
              split at hstep
              · next heq =>
                  change s.receiver.onPacketReceived env packet.serialize = _ at heq
                  rw [heq] at hok
                  cases hok
              · cases hstep
      | dropData index =>
          simp only [step] at hstep
          split at hstep
          · cases hstep
            rfl
          · cases hstep
      | deliverReport index now =>
          simp only [step] at hstep
          split at hstep
          · cases hstep
            rfl
          · next text reports hd =>
              exfalso
              have hdelivers := Channel.delivers_of_deliver hd
              obtain ⟨sender, hok⟩ := s.running.sender.receivePacket_ok
                (reportTexts_of_trace ht text hdelivers.mem_sent) now
              rw [hok] at hstep
              cases hstep
      | dropReport index =>
          simp only [step] at hstep
          split at hstep
          · cases hstep
            rfl
          · cases hstep

theorem sending_lossyRun : Sending lossyRun where
  sender := by decide +kernel
  receiver index env he text := by
    simp only [lossyRun, pollAt, nextDataAt, List.mem_cons, List.not_mem_nil, reduceCtorEq,
      LinkEvent.deliverData.injEq, false_or, or_false] at he
    rcases he with ⟨-, rfl⟩ | ⟨-, rfl⟩ | ⟨-, rfl⟩ | ⟨-, rfl⟩ <;> rfl

theorem link_never_stops_lossyRun :
    (run step (new (System.startedAt 300000) (System.startedAt 300000)) lossyRun).isOk = true ∧
      ((∃ r, run step (new (System.startedAt 300000) (System.startedAt 300000)) lossyRun = .ok r) ∨
        run step (new (System.startedAt 300000) (System.startedAt 300000)) lossyRun =
          .error .notInFlight) :=
  ⟨lossyRun_succeeds, link_never_stops _ _ lossyRun orderly_lossyRun sending_lossyRun⟩

end Link
end ChromeGcc
