import ChromeGcc.Peers.BackOff
import ChromeGcc.Peers.SendRate

/-! The way back of a back-off: while the Sender hears of nothing but back-offs, it sends less than
the bottleneck lets through, and the queue before it drains. -/
namespace ChromeGcc
open Machine UnitBase FloatArith

namespace Link

/-- A rate that was asked for right after a higher one. -/
def IsBackOff (sent : List DataRate) (rate : DataRate) : Prop :=
  ∃ before, [before, rate] <:+: sent ∧ rate < before

section Loop
variable {K : Type} [Field K] [LinearOrder K] [FloorRing K] [IsStrictOrderedRing K] {r : Rounding K}
  {bitsPerMs burst : Nat} {events : List LinkEvent} {os os₁ : List LinkView}
  {s s₁ : Link (Double r)} {senderConfig receiverConfig : NetworkControllerConfig (Double r)}

theorem backOff_le (hr : r.IsExact) (h : Trace step (new senderConfig receiverConfig) events os s)
    (hb : Bottleneck bitsPerMs burst events)
    (hfits : 1500 * bitsPerMs + 10 * burst + 10000 < 10 ^ dataRateLen) (hclocked : Clocked os)
    {rate : DataRate} (hback : IsBackOff (rembs s.reports.sent) rate) :
    rate ≤ .finite ((850 * bitsPerMs + 6 * burst + 6000 : ℕ) : Int) := by
  obtain ⟨-, hchain⟩ := rembs_drain hr h hb hfits hclocked
  obtain ⟨before, hpair, hless⟩ := hback
  have hneighbours := List.IsChain.infix hchain hpair
  have hlimit := List.isChain_pair.mp hneighbours hless
  exact hlimit.trans (backOffLimit_bottleneck bitsPerMs burst)

/-- While the REMBs that reach the Sender are back-offs, any consecutive packets but the last have
fewer bits than 85 percent of the bottleneck, six burst sizes a second and six kbps give their time,
or 100 kbps, if that is more. -/
theorem sends_below_bottleneck (hr : r.IsExact)
    (senderConfig receiverConfig : NetworkControllerConfig (Double r)) (pre events : List LinkEvent)
    {s₁ s : Link (Double r)} (h₁ : Trace step (new senderConfig receiverConfig) pre os₁ s₁)
    (h : Trace step s₁ events os s) (hb : Bottleneck bitsPerMs burst (pre ++ events))
    (hfits : 1500 * bitsPerMs + 10 * burst + 10000 < 10 ^ dataRateLen)
    (hclocked : Clocked (os₁ ++ os)) (hclock : ClockInPolls events) {rate : DataRate}
    (hbefore : (deliveredRembs os₁).getLast? = some rate)
    (hback : ∀ x ∈ rate :: deliveredRembs os, IsBackOff (rembs s.reports.sent) x)
    (sends : List ScheduledSend) (hsends : sends <:+: scheduled os) (first last : ScheduledSend)
    (hfirst : sends.head? = some first) (hlast : sends.getLast? = some last)
    (hlength : 2 ≤ sends.length) :
    ((sends.length : ℚ) - 1) * (1472 * 8 * 10 ^ 6) <
      (max (850 * bitsPerMs + 6 * burst + 6000) minPacingRate : ℕ) *
        (last.poll.checkTime - first.poll.scheduleTime) := by
  have hall := h₁.append h
  obtain ⟨hc, -⟩ := rembs_drain hr hall hb hfits hclocked
  have hlimit : ∀ x ∈ rate :: deliveredRembs os,
      x ≤ .finite ((850 * bitsPerMs + 6 * burst + 6000 : ℕ) : Int) := fun x hx =>
    backOff_le hr hall hb hfits hclocked (hback x hx)
  have hstart : (deliveredRembs os₁).getLast?.getD .plusInfinity ≤
      .finite ((850 * bitsPerMs + 6 * burst + 6000 : ℕ) : Int) := by
    rw [hbefore]
    exact hlimit rate List.mem_cons_self
  have hgap := sends_obey_rembs h₁ h hc hclock hstart
    (fun x hx => hlimit x (List.mem_cons_of_mem _ hx)) hsends hfirst hlast hlength
  have hpos : (0 : ℚ) < (max (850 * bitsPerMs + 6 * burst + 6000) minPacingRate : ℕ) := by
    exact_mod_cast lt_of_lt_of_le (by decide) (le_max_right _ minPacingRate)
  rw [packetMicrobits_eq, ← mul_div_assoc, div_lt_iff₀ hpos] at hgap
  rw [mul_comm (_ : ℚ) (_ - _)]
  exact hgap

end Loop

/-- The REMB that asks for less reaches the Sender before the one that came first. -/
def drainingRun : List LinkEvent :=
  congestedRun ++ [nextDataAt 5860, .deliverReport 5 (.finite 5900000)]

def drainingPolls : List LinkEvent := [pollAt 6000, pollAt 6200, pollAt 6400]

theorem bottleneck_drainingRun : Bottleneck 400 11776 (drainingRun ++ drainingPolls) := by
  have htimes : receiveTimes (drainingRun ++ drainingPolls) =
      receiveTimes (congestedRun ++ [nextDataAt 5860]) := by decide +kernel
  constructor
  · rw [htimes]
    exact bottleneck_congestedRun.clock
  · rw [htimes]
    exact bottleneck_congestedRun.limited

theorem sends_below_bottleneck_drainingRun :
    ∃ os₁ os s₁ s, Trace step (new (System.startedAt 300000) (System.startedAt 300000)) drainingRun
        os₁ s₁ ∧ Trace step s₁ drainingPolls os s ∧
      deliveredRembs os₁ = [.finite 59166] ∧
      rembs s.reports.sent = [.finite 70607, .finite 59166] ∧
      (((scheduled os).length : ℚ) - 1) * (1472 * 8 * 10 ^ 6) <
        (max (850 * 400 + 6 * 11776 + 6000) minPacingRate : ℕ) * ((6400000 : Int) - (6000000 : Int)) := by
  have h₁ := trace_final (show (run step (new (System.startedAt 300000) (System.startedAt 300000))
    drainingRun).isOk = true by decide +kernel)
  have h := trace_final (show (run step (final step (new (System.startedAt 300000)
    (System.startedAt 300000)) drainingRun) drainingPolls).isOk = true by decide +kernel)
  have hsent : rembs (final step (final step (new (System.startedAt 300000)
      (System.startedAt 300000)) drainingRun) drainingPolls).reports.sent =
      [.finite 70607, .finite 59166] := by decide +kernel
  have hdelivered : deliveredRembs (outputs step (new (System.startedAt 300000)
      (System.startedAt 300000)) drainingRun) = [.finite 59166] := by decide +kernel
  have hnone : deliveredRembs (outputs step (final step (new (System.startedAt 300000)
      (System.startedAt 300000)) drainingRun) drainingPolls) = [] := by decide +kernel
  have hback : IsBackOff [.finite 70607, .finite 59166] (.finite 59166) :=
    ⟨.finite 70607, List.infix_refl _, by decide⟩
  refine ⟨_, _, _, _, h₁, h, hdelivered, hsent, ?_⟩
  refine sends_below_bottleneck Rounding.exact_isExact _ _ drainingRun drainingPolls h₁ h
    bottleneck_drainingRun (by decide) (by decide +kernel) (by unfold ClockInPolls; decide +kernel)
    (by rw [hdelivered]; rfl) ?_ _ (List.infix_refl _) ⟨⟨6000000, 6000000, 6000000, false⟩, 100000⟩
    ⟨⟨6400000, 6400000, 6400000, false⟩, 100000⟩ (by decide +kernel) (by decide +kernel)
    (by decide +kernel)
  rw [hsent, hnone]
  intro x hx
  rw [List.mem_singleton.mp hx]
  exact hback

end Link
end ChromeGcc
