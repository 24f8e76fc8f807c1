import ChromeGcc.Peers.Link

/-! The closed loop as a refinement of the two peers over an open network: what is proved there
for any datagrams holds where the Sender's own packets reach the Receiver, and paces them. -/
namespace ChromeGcc
open Machine UnitBase

namespace Sender
variable {F : Type} [FloatArith F] {s t : Sender F}

/-- Two Senders that differ in the pacing only. -/
structure SameReports (s t : Sender F) : Prop where
  gccControler : s.gccControler = t.gccControler
  recentRrPacket : s.recentRrPacket = t.recentRrPacket

theorem SameReports.pace_left (h : SameReports s t) : SameReports s.pace t :=
  ⟨h.gccControler, h.recentRrPacket⟩

theorem SameReports.pace_right (h : SameReports s t) : SameReports s t.pace :=
  ⟨h.gccControler, h.recentRrPacket⟩

theorem SameReports.dispatch (h : SameReports s t) (type : PacketType) (text : List Char)
    (now : Timestamp) :
    (s.dispatch type text now).1 = (t.dispatch type text now).1 ∧
      SameReports (s.dispatch type text now).2 (t.dispatch type text now).2 := by
  cases type with
  | data => exact ⟨rfl, h⟩
  | rr =>
      simp only [Sender.dispatch, onRRPacketReceived]
      split
      · exact ⟨rfl, h.gccControler, rfl⟩
      · refine ⟨rfl, ?_, rfl⟩
        rw [h.gccControler]
  | remb =>
      simp only [Sender.dispatch, onREMBPacketReceived]
      split
      · exact ⟨rfl, h⟩
      · refine ⟨rfl, ?_, h.recentRrPacket⟩
        rw [h.gccControler]

/-- The pacing decides nothing about the handling of a datagram. -/
theorem SameReports.onPacketReceived (h : SameReports s t) (text : List Char) (now : Timestamp) :
    SameReports (s.onPacketReceived text now).2 (t.onPacketReceived text now).2 := by
  unfold Sender.onPacketReceived
  cases getType text with
  | error e => exact h
  | ok type =>
      obtain ⟨houtcome, hsame⟩ := h.dispatch type text now
      dsimp only
      revert houtcome hsame
      rcases s.dispatch type text now with ⟨outcome, s'⟩
      rcases t.dispatch type text now with ⟨outcome', t'⟩
      intro houtcome hsame
      cases houtcome
      cases outcome with
      | error e => exact hsame
      | ok u => exact hsame.pace_left.pace_right

/-- A datagram without a character, which ReceivePacket ignores, would stop the handler. -/
theorem SameReports.receivePacket (h : SameReports s t) (text : List Char) (now : Timestamp) :
    SameReports (s.receivePacket (some text) now).2 (t.onPacketReceived text now).2 := by
  cases text with
  | nil => exact h
  | cons c text => exact h.onPacketReceived (c :: text) now

end Sender

namespace Link
variable {F : Type} [FloatArith F] {s s' : Link F} {o : LinkView} {os : List LinkView}
  {events : List LinkEvent}

/-- The open system has the same peers, up to the Sender's pacing, and the same reports in
flight. -/
structure Mirrors (s : Link F) (t : System F) : Prop where
  sender : s.running.sender.SameReports t.sender
  receiver : s.receiver = t.receiver
  inFlight : s.reports.inFlight = t.inFlight

theorem mirrors_new (senderConfig receiverConfig : NetworkControllerConfig F) :
    (new senderConfig receiverConfig).Mirrors (System.new senderConfig receiverConfig) where
  sender := ⟨rfl, rfl⟩
  receiver := rfl
  inFlight := rfl

/-- The events of the open system that a step is seen as, and their traffic. -/
def networkEvents (o : LinkView) : List NetworkEvent := o.event.toList

def networkTraffic (o : LinkView) : List Traffic := o.event.toList.map fun _ => o.traffic

/-- Every rate that the Receiver's controller reports has room in a REMB. -/
def RatesCarried (os : List LinkView) : Prop := ∀ o ∈ os, ∀ rate ∈ o.reported, Carried rate

instance (os : List LinkView) : Decidable (RatesCarried os) :=
  inferInstanceAs (Decidable (∀ o ∈ os, ∀ rate ∈ o.reported, Carried rate))

/-- The traffic seen is what the channel of the reports has recorded. -/
structure Recorded (os : List LinkView) (reports : Channel (List Char)) : Prop where
  sent : (os.flatMap networkTraffic).flatMap Traffic.sent = reports.sent
  delivered : (os.flatMap networkTraffic).flatMap Traffic.delivered = reports.delivered

theorem Does.recorded {event : LinkEvent} (h : s.Does event s' o) (hr : Recorded os s.reports) :
    Recorded (os ++ [o]) s'.reports := by
  obtain ⟨hsent, hdelivered⟩ := hr
  cases h with
  | poll step => constructor <;> simpa [networkTraffic]
  | deliverData delivers received => constructor <;> simp [networkTraffic, hsent, hdelivered]
  | dropData drops => constructor <;> simpa [networkTraffic]
  | deliverReport delivers received =>
      constructor <;> simp [networkTraffic, hsent, hdelivered, delivers.sent, delivers.delivered]
  | dropReport drops =>
      constructor <;> simp [networkTraffic, hsent, hdelivered, drops.sent, drops.delivered]

/-- One step of the closed loop is one of the open system, or none. -/
theorem Does.mirrored {event : LinkEvent} {t : System F} (h : s.Does event s' o)
    (hm : s.Mirrors t) (hc : ∀ rate ∈ o.reported, Carried rate) :
    ∃ t', Trace System.step t (networkEvents o) (networkTraffic o) t' ∧ s'.Mirrors t' := by
  have one : ∀ {e : NetworkEvent} {traffic : Traffic} {t' : System F},
      t.step e = .ok (t', traffic) → Trace System.step t [e] [traffic] t' :=
    fun hs => Trace.nil.snoc hs
  cases h with
  | poll step =>
      have hpolled := RunningSender.polled_of_step step
      exact ⟨t, .nil, ⟨hpolled.gccControler.trans hm.sender.gccControler,
        hpolled.recentRrPacket.trans hm.sender.recentRrPacket⟩, hm.receiver, hm.inFlight⟩
  | @deliverData index env text data receiver sent delivers received =>
      rw [hm.receiver] at received hc
      have hstep : t.step (.receive env text) =
          .ok ({ t with receiver := receiver, inFlight := t.inFlight ++ sent }, { sent := sent }) := by
        rw [System.step, if_pos hc, received]
      refine ⟨_, one hstep, hm.sender, rfl, ?_⟩
      rw [← hm.inFlight]
      rfl
  | dropData drops => exact ⟨t, .nil, hm.sender, hm.receiver, hm.inFlight⟩
  | @deliverReport index now text reports sender delivers received =>
      have hfound := delivers.found
      rw [hm.inFlight] at hfound
      have hstep : t.step (.deliver index now) =
          .ok ({ t with
            sender := (t.sender.onPacketReceived text now).2
            inFlight := t.inFlight.eraseIdx index }, { delivered := [text] }) := by
        rw [System.step, hfound]
      refine ⟨_, one hstep, ?_, hm.receiver, ?_⟩
      · have hsame := hm.sender.receivePacket text now
        rw [received] at hsame
        exact hsame
      · rw [← hm.inFlight]
        exact delivers.inFlight
  | @dropReport index text reports drops =>
      have hfound := drops.found
      rw [hm.inFlight] at hfound
      have hstep : t.step (.drop index) =
          .ok ({ t with inFlight := t.inFlight.eraseIdx index }, { dropped := [text] }) := by
        rw [System.step, hfound]
      refine ⟨_, one hstep, hm.sender, hm.receiver, ?_⟩
      rw [← hm.inFlight]
      exact drops.inFlight

/-- Every run of the closed loop is one of the open system. -/
theorem mirrored_of_trace {senderConfig receiverConfig : NetworkControllerConfig F}
    (h : Trace step (new senderConfig receiverConfig) events os s) (hc : RatesCarried os) :
    ∃ t, Trace System.step (System.new senderConfig receiverConfig) (os.flatMap networkEvents)
      (os.flatMap networkTraffic) t ∧ s.Mirrors t := by
  refine h.simulate ?_ hc (mirrors_new senderConfig receiverConfig)
  intro s event s' o t hm hcarried hs
  exact (does_of_step hs).mirrored hm hcarried

theorem recorded_of_trace {senderConfig receiverConfig : NetworkControllerConfig F}
    (h : Trace step (new senderConfig receiverConfig) events os s) : Recorded os s.reports := by
  induction h with
  | nil => exact ⟨rfl, rfl⟩
  | snoc _ hs ih => exact (does_of_step hs).recorded ih

/-- What the open system knows of its limit and of the rates sent holds in the closed loop. -/
theorem follows_of_trace {senderConfig receiverConfig : NetworkControllerConfig F}
    (h : Trace step (new senderConfig receiverConfig) events os s) (hc : RatesCarried os) :
    s.running.sender.gccControler.getReceiverLimit =
        (rembs s.reports.delivered).getLast?.getD .plusInfinity ∧
      ∀ rate ∈ (rembs s.reports.sent).getLast?, s.receiver.lastRembRate = rate := by
  obtain ⟨t, ht, hm⟩ := mirrored_of_trace h hc
  obtain ⟨hsent, hdelivered⟩ := recorded_of_trace h
  have hfollows := System.follows_of_trace ht
  have hlimit := hfollows.limit
  have hremembered := hfollows.remembered
  unfold System.deliveredRates at hlimit
  unfold System.sentRates at hremembered
  rw [hdelivered] at hlimit
  rw [hsent] at hremembered
  rw [hm.sender.gccControler, hm.receiver]
  exact ⟨hlimit, hremembered⟩

end Link
end ChromeGcc
