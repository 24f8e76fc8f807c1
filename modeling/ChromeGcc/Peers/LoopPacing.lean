import ChromeGcc.Peers.Refinement

/-! The pacing in the closed loop: between any two steps the rate is what the controller gives,
and that is capped by the last REMB that came through. -/
namespace ChromeGcc
open Machine UnitBase

namespace Sender
variable {F : Type} [FloatArith F] {s s' : Sender F}

/-- The pacing rate is up to date with the controller. -/
def Paces (s : Sender F) : Prop :=
  s.sendControl.pacingRate = max s.gccControler.getSenderSideDataRate.getUint64 minPacingRate

theorem paces_pace (s : Sender F) : s.pace.Paces := rfl

theorem paces_new (config : NetworkControllerConfig F) : (new config).Paces := by
  have hrate : (new config).gccControler.getSenderSideDataRate = .finite 500000 := rfl
  have hinitial : (new config).sendControl.pacingRate = 500000 := rfl
  rw [Paces, hrate, hinitial]
  decide

theorem Paces.receivePacket (h : s.Paces) {arrived : Option (List Char)} {now : Timestamp}
    (hs : s.receivePacket arrived now = (.ok (), s')) : s'.Paces := by
  match arrived, hs with
  | none, hs =>
      cases hs
      exact h
  | some [], hs =>
      cases hs
      exact h
  | some (c :: text), hs =>
      change s.onPacketReceived (c :: text) now = (.ok (), s') at hs
      rw [onPacketReceived] at hs
      split at hs
      · cases hs
      · split at hs
        · cases hs
        · cases hs
          exact paces_pace _

theorem Steady.receivePacket (h : s.Steady) {arrived : Option (List Char)} {now : Timestamp}
    (hs : s.receivePacket arrived now = (.ok (), s')) : s'.Steady := by
  match arrived, hs with
  | none, hs =>
      cases hs
      exact h
  | some [], hs =>
      cases hs
      exact h
  | some (c :: text), hs => exact h.receive hs

/-- What an up-to-date rate is: the loss-based target, capped by the limit. -/
theorem Steady.pacingRate_eq (h : s.Steady) (hp : s.Paces) :
    (.finite s.sendControl.pacingRate : DataRate) = max (.finite minPacingRate)
      (min s.gccControler.bandwidthEstimation.currentTarget s.gccControler.getReceiverLimit) := by
  have htarget : s.gccControler.getSenderSideDataRate = max (.finite 5000)
      (min s.gccControler.bandwidthEstimation.currentTarget s.gccControler.getReceiverLimit) := by
    have hcaps : s.gccControler.bandwidthEstimation.receiverLimitCapsOnly = true := h.regular.capsOnly
    have hmin : s.gccControler.bandwidthEstimation.minBitrateConfigured = .finite 5000 :=
      h.regular.minConfigured
    rw [GoogCcNetworkController.getSenderSideDataRate, SendSideBandwidthEstimation.targetRate, hcaps,
      hmin]
    rfl
  obtain ⟨x, hx, hlow, hhigh⟩ := (GoogCcNetworkController.inRange_targetRate h.regular).exists_finite
  have hrate : s.gccControler.getSenderSideDataRate.getUint64 = x.toNat := by
    rw [GoogCcNetworkController.getSenderSideDataRate, hx, getUint64]
    unfold toUint64 toValue
    dsimp only
    omega
  have hcast : (.finite (s.sendControl.pacingRate : Int) : DataRate) =
      max (.finite minPacingRate) (.finite x) := by
    rw [hp, hrate, max_finite]
    congr 1
    omega
  have hsame : (.finite x : DataRate) = max (.finite 5000)
      (min s.gccControler.bandwidthEstimation.currentTarget s.gccControler.getReceiverLimit) := by
    rw [← htarget, ← hx]
    rfl
  rw [hcast, hsame, ← max_assoc, max_eq_left (finite_le_finite.mpr (by decide))]

end Sender

namespace Link
variable {F : Type} [FloatArith F] {s s' : Link F} {o : LinkView} {os : List LinkView}
  {events : List LinkEvent}

theorem Does.steady {event : LinkEvent} (h : s.Does event s' o) (hsteady : s.running.sender.Steady)
    (hpaces : s.running.sender.Paces) : s'.running.sender.Steady ∧ s'.running.sender.Paces := by
  cases h with
  | poll step =>
      have hpolled := RunningSender.polled_of_step step
      refine ⟨RunningSender.steady_step hsteady step, ?_⟩
      unfold Sender.Paces at hpaces ⊢
      rw [hpolled.pacingRate, hpolled.gccControler]
      exact hpaces
  | deliverData delivers received => exact ⟨hsteady, hpaces⟩
  | dropData drops => exact ⟨hsteady, hpaces⟩
  | deliverReport delivers received =>
      exact ⟨hsteady.receivePacket received, hpaces.receivePacket received⟩
  | dropReport drops => exact ⟨hsteady, hpaces⟩

theorem steady_of_trace {senderConfig receiverConfig : NetworkControllerConfig F}
    (h : Trace step (new senderConfig receiverConfig) events os s) :
    s.running.sender.Steady ∧ s.running.sender.Paces := by
  induction h with
  | nil => exact ⟨Sender.steady_new senderConfig, Sender.paces_new senderConfig⟩
  | snoc _ hs ih => exact (does_of_step hs).steady ih.1 ih.2

/-- In the closed loop, over any network, the pacing rate is at every moment the loss-based
target of the Sender, capped by the rate of the last REMB delivered to it, but not below its
minimum. -/
theorem pacing_obeys_last_remb (senderConfig receiverConfig : NetworkControllerConfig F)
    (events : List LinkEvent) (h : Trace step (new senderConfig receiverConfig) events os s)
    (hc : RatesCarried os) :
    (.finite s.running.sender.sendControl.pacingRate : DataRate) = max (.finite minPacingRate)
        (min s.running.sender.gccControler.bandwidthEstimation.currentTarget
          ((rembs s.reports.delivered).getLast?.getD .plusInfinity)) ∧
      ∃ t, Trace System.step (System.new senderConfig receiverConfig) (os.flatMap networkEvents)
        (os.flatMap networkTraffic) t ∧ s.Mirrors t := by
  obtain ⟨hsteady, hpaces⟩ := steady_of_trace h
  refine ⟨?_, mirrored_of_trace h hc⟩
  rw [hsteady.pacingRate_eq hpaces, (follows_of_trace h hc).1]

/-- The REMB of the run asks for less than the least pacing rate. -/
theorem pacing_obeys_last_remb_lossyRun :
    ∃ os s, Trace step (new (System.startedAt 300000) (System.startedAt 300000)) lossyRun os s ∧
      rembs s.reports.delivered = [.finite 24552] ∧
      s.running.sender.sendControl.pacingRate = 100000 ∧
      (.finite s.running.sender.sendControl.pacingRate : DataRate) = max (.finite minPacingRate)
        (min s.running.sender.gccControler.bandwidthEstimation.currentTarget
          ((rembs s.reports.delivered).getLast?.getD .plusInfinity)) ∧
      ∃ t, Trace System.step (System.new (System.startedAt 300000) (System.startedAt 300000))
        (os.flatMap networkEvents) (os.flatMap networkTraffic) t ∧ s.Mirrors t := by
  have h := trace_final lossyRun_succeeds
  exact ⟨_, _, h, by decide +kernel, by decide +kernel,
    pacing_obeys_last_remb _ _ lossyRun h (by decide +kernel)⟩

end Link
end ChromeGcc
