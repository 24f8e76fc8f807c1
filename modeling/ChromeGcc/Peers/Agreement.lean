import ChromeGcc.Peers.Network

/-! The limit of the Sender against the rate that the Receiver remembers. Each follows the
last REMB on its side of the network, and nothing is sent again. -/
namespace ChromeGcc
namespace System
open UnitBase Machine
variable {F : Type} [FloatArith F]

/-- What holds between the peers after the traffic seen: every REMB sent is delivered,
dropped or in flight, the Receiver remembers the last one sent, and the limit of the Sender
is the last one delivered. -/
structure Follows (seen : List Traffic) (s : System F) : Prop where
  packetFeedbackOnly : s.sender.gccControler.packetFeedbackOnly = false
  carried : ∀ rate ∈ sentRates seen, Carried rate
  conserved : (sentRates seen).Perm (deliveredRates seen ++ droppedRates seen ++ rembs s.inFlight)
  remembered : ∀ rate ∈ (sentRates seen).getLast?, s.receiver.lastRembRate = rate
  limit : s.sender.gccControler.getReceiverLimit =
    (deliveredRates seen).getLast?.getD .plusInfinity

variable {seen : List Traffic} {s : System F}

theorem follows_new (senderConfig receiverConfig : NetworkControllerConfig F) :
    Follows [] (System.new senderConfig receiverConfig) where
  packetFeedbackOnly := rfl
  carried rate h := by cases h
  conserved := List.Perm.refl _
  remembered rate h := by cases h
  limit := rfl

/-- A REMB in flight was sent, so it carries a rate that is not zero. -/
theorem Follows.carried_inFlight (h : Follows seen s) {rate : DataRate}
    (hr : rate ∈ rembs s.inFlight) : Carried rate :=
  h.carried rate (h.conserved.mem_iff.mpr (List.mem_append_right _ hr))

/-- Before anything is remembered nothing was sent. -/
theorem Follows.sentRates_of_isZero (h : Follows seen s)
    (hz : s.receiver.lastRembRate.isZero = true) : sentRates seen = [] := by
  cases hlast : (sentRates seen).getLast? with
  | none => exact List.getLast?_eq_none_iff.mp hlast
  | some rate =>
      have hrate := h.remembered rate hlast
      have hcarried := h.carried rate (List.mem_of_getLast? hlast)
      rw [hrate, hcarried.isZero] at hz
      cases hz

theorem Follows.receive (h : Follows seen s) (env : ReceiverEnv) (data : List Char)
    (hc : ∀ rate ∈ s.receiver.reported env data, Carried rate) :
    Follows (seen ++ [{ sent := (s.receiver.onPacketReceived env data).2.2 }])
      { s with
        receiver := (s.receiver.onPacketReceived env data).2.1
        inFlight := s.inFlight ++ (s.receiver.onPacketReceived env data).2.2 } := by
  obtain ⟨hsent, hdelivered, hdropped⟩ := rates_sent seen (s.receiver.onPacketReceived env data).2.2
  have hremembers := Receiver.remembers_onPacketReceived hc
  constructor
  case packetFeedbackOnly => exact h.packetFeedbackOnly
  case limit =>
    rw [hdelivered]
    exact h.limit
  case conserved =>
    rw [hsent, hdelivered, hdropped]
    dsimp only
    rw [rembs_append, ← List.append_assoc]
    exact h.conserved.append_right _
  case carried =>
    intro rate hr
    rw [hsent, List.mem_append] at hr
    rcases hr with hr | hr
    · exact h.carried rate hr
    · rcases hremembers with ⟨hrembs, hnew⟩ | ⟨hrembs, -⟩
      · rw [hrembs, List.mem_singleton] at hr
        rw [hr]
        exact hnew
      · rw [hrembs] at hr
        cases hr
  case remembered =>
    intro rate hr
    rw [hsent] at hr
    rcases hremembers with ⟨hrembs, -⟩ | ⟨hrembs, hkept | hzero⟩
    · rw [hrembs, List.getLast?_concat] at hr
      exact Option.some.inj hr
    · rw [hrembs, List.append_nil] at hr
      exact hkept.trans (h.remembered rate hr)
    · rw [hrembs, List.append_nil, h.sentRates_of_isZero hzero] at hr
      cases hr

theorem Follows.deliver (h : Follows seen s) {index : Nat} {text : List Char}
    (hi : s.inFlight[index]? = some text) (now : Timestamp) :
    Follows (seen ++ [{ delivered := [text] }])
      { s with
        sender := (s.sender.onPacketReceived text now).2
        inFlight := s.inFlight.eraseIdx index } := by
  obtain ⟨hsent, hdelivered, hdropped⟩ := rates_delivered seen [text]
  have hflight := rembs_eraseIdx hi
  have hfollows := Sender.follows_onPacketReceived h.packetFeedbackOnly text now
  constructor
  case packetFeedbackOnly => exact hfollows.packetFeedbackOnly
  case carried =>
    rw [hsent]
    exact h.carried
  case remembered =>
    rw [hsent]
    exact h.remembered
  case conserved =>
    rw [hsent, hdelivered, hdropped]
    refine h.conserved.trans ((hflight.append_left _).trans ?_)
    dsimp only
    rw [List.append_assoc, List.append_assoc, List.append_assoc]
    exact (List.perm_append_comm_assoc _ _ _).append_left _
  case limit =>
    rw [hfollows.limit, hdelivered, h.limit]
    apply limitAfter_getLast
    intro rate hrate
    exact h.carried_inFlight (hflight.mem_iff.mpr (List.mem_append_left _ hrate))

theorem Follows.drop (h : Follows seen s) {index : Nat} {text : List Char}
    (hi : s.inFlight[index]? = some text) :
    Follows (seen ++ [{ dropped := [text] }]) { s with inFlight := s.inFlight.eraseIdx index } := by
  obtain ⟨hsent, hdelivered, hdropped⟩ := rates_dropped seen [text]
  constructor
  case packetFeedbackOnly => exact h.packetFeedbackOnly
  case carried =>
    rw [hsent]
    exact h.carried
  case remembered =>
    rw [hsent]
    exact h.remembered
  case limit =>
    rw [hdelivered]
    exact h.limit
  case conserved =>
    rw [hsent, hdelivered, hdropped]
    refine h.conserved.trans (((rembs_eraseIdx hi).append_left _).trans ?_)
    dsimp only
    rw [List.append_assoc, List.append_assoc, List.append_assoc]

/-- Every event keeps the two peers where the traffic puts them. -/
theorem Follows.step (h : Follows seen s) {event : NetworkEvent} {t : Traffic} {s' : System F}
    (hs : s.step event = .ok (s', t)) : Follows (seen ++ [t]) s' := by
  cases event with
  | receive env data =>
      rw [System.step] at hs
      split_ifs at hs with hc
      cases hs
      exact h.receive env data hc
  | deliver index now =>
      rw [System.step] at hs
      cases hi : s.inFlight[index]? with
      | none =>
          rw [hi] at hs
          cases hs
      | some text =>
          rw [hi] at hs
          cases hs
          exact h.deliver hi now
  | drop index =>
      rw [System.step] at hs
      cases hi : s.inFlight[index]? with
      | none =>
          rw [hi] at hs
          cases hs
      | some text =>
          rw [hi] at hs
          cases hs
          exact h.drop hi

theorem follows_of_trace {senderConfig receiverConfig : NetworkControllerConfig F}
    {events : List NetworkEvent}
    (h : Trace System.step (System.new senderConfig receiverConfig) events seen s) :
    Follows seen s := by
  induction h with
  | nil => exact follows_new senderConfig receiverConfig
  | snoc _ hs ih => exact ih.step hs

/-- The network lost no REMB, and delivered them in the order in which they were sent. -/
def InOrder (seen : List Traffic) : Prop :=
  droppedRates seen = [] ∧ deliveredRates seen <+: sentRates seen

/-- With none in flight and none lost, the rates delivered in order are the rates sent. -/
theorem Follows.delivered_of_inOrder (h : Follows seen s) (ho : InOrder seen)
    (hf : rembs s.inFlight = []) : deliveredRates seen = sentRates seen := by
  have hlength := h.conserved.length_eq
  rw [ho.1, hf, List.append_nil, List.append_nil] at hlength
  exact ho.2.eq_of_length hlength.symm

/-- The limit of the Sender is the rate delivered last, and the Receiver remembers the rate
sent last: they agree exactly when these two rates do, which a network that keeps the order
and loses nothing ensures. -/
theorem limit_agrees_iff_last_delivered {senderConfig receiverConfig : NetworkControllerConfig F}
    {events : List NetworkEvent}
    (h : Trace System.step (System.new senderConfig receiverConfig) events seen s)
    (hsent : sentRates seen ≠ []) (hflight : rembs s.inFlight = []) :
    some s.receiver.lastRembRate = (sentRates seen).getLast? ∧
      s.sender.gccControler.getReceiverLimit = (deliveredRates seen).getLast?.getD .plusInfinity ∧
      (s.sender.gccControler.getReceiverLimit = s.receiver.lastRembRate ↔
        (deliveredRates seen).getLast? = (sentRates seen).getLast?) ∧
      (InOrder seen → s.sender.gccControler.getReceiverLimit = s.receiver.lastRembRate) := by
  have hfollows := follows_of_trace h
  obtain ⟨rate, hlast⟩ : ∃ rate, (sentRates seen).getLast? = some rate := by
    cases hl : (sentRates seen).getLast? with
    | none => exact absurd (List.getLast?_eq_none_iff.mp hl) hsent
    | some rate => exact ⟨rate, rfl⟩
  have hremembered := hfollows.remembered rate hlast
  have hagrees : s.sender.gccControler.getReceiverLimit = s.receiver.lastRembRate ↔
      (deliveredRates seen).getLast? = (sentRates seen).getLast? := by
    rw [hfollows.limit, hremembered, hlast]
    cases hd : (deliveredRates seen).getLast? with
    | none =>
        obtain ⟨n, hn, -, -⟩ := (hfollows.carried rate (List.mem_of_getLast? hlast)).exists_nat
        rw [hn]
        simp
    | some last => simp
  refine ⟨by rw [hremembered, hlast], hfollows.limit, hagrees, ?_⟩
  intro ho
  exact hagrees.mpr (congrArg List.getLast? (hfollows.delivered_of_inOrder ho hflight))

section FirstReport
open FloatArith

/-- Rational arithmetic, for runs that take a power of exponent zero only. -/
abbrev ZerothPower := Double (Rounding.exact id (fun x y => if y = 0 then 1 else x) id : Rounding ℚ)

def startedAt (startRate : Int) : NetworkControllerConfig ZerothPower :=
  { constraints := { startingRate := some (.finite startRate) } }

/-- A data packet that is sent and received at one time, in milliseconds. -/
def dataAt (number : Nat) (ms : Int) : NetworkEvent :=
  .receive ⟨.finite (ms * 1000), .finite (ms * 1000), fun _ => false⟩
    (GCCDataPacket.serialize { sequenceNumber := number, sendTime := .finite (ms * 1000) })

/-- Three packets over more than five seconds, after which there is a first estimate, and the
fate of the REMB that carries it. -/
def firstReport (fate : NetworkEvent) : List NetworkEvent :=
  [dataAt 1 0, dataAt 2 500, dataAt 3 5501, fate]

/-- A REMB that the network drops leaves the Sender without the limit that the Receiver
takes it to have. -/
theorem dropped_remb_leaves_no_limit :
    ∃ seen s, Trace System.step (System.new (startedAt 300000) (startedAt 300000))
        (firstReport (.drop 0)) seen s ∧
      sentRates seen = [.finite 24552] ∧ rembs s.inFlight = [] ∧
      s.receiver.lastRembRate = .finite 24552 ∧
      s.sender.gccControler.getReceiverLimit = .plusInfinity := by
  refine ⟨_, _, trace_final (by decide +kernel), ?_, ?_, ?_, ?_⟩
  · decide +kernel
  · decide +kernel
  · decide +kernel
  · decide +kernel

/-- Delivered, the same REMB makes the two agree. -/
theorem limit_agrees_once_delivered :
    (final System.step (System.new (startedAt 300000) (startedAt 300000))
        (firstReport (.deliver 0 (.finite 5600000)))).sender.gccControler.getReceiverLimit =
      (final System.step (System.new (startedAt 300000) (startedAt 300000))
        (firstReport (.deliver 0 (.finite 5600000)))).receiver.lastRembRate := by
  have h := trace_final (show (run System.step (System.new (startedAt 300000) (startedAt 300000))
    (firstReport (.deliver 0 (.finite 5600000)))).isOk = true by decide +kernel)
  exact (limit_agrees_iff_last_delivered h (by decide +kernel) (by decide +kernel)).2.2.2
    ⟨by decide +kernel, by decide +kernel⟩

end FirstReport

end System
end ChromeGcc
