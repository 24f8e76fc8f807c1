import ChromeGcc.SendSide.Rates

/-! The history of rates: after every update its front is the smallest target of the last
second, less the millisecond of its precision. -/
namespace ChromeGcc
namespace SendSideBandwidthEstimation
open FloatArith UnitBase

theorem expiry_historyExpired : MinQueue.Expiry historyExpired := ⟨historyExpired_mono, historyExpired_anti⟩

/-- An entry is kept for 999 ms. -/
theorem historyExpired_finite_eq_false {t s : Int} :
    historyExpired (.finite t) (.finite s) = false ↔ t - s ≤ 999000 := by
  rw [historyExpired_finite, decide_eq_false_iff_not]
  omega

section Updates
variable {F : Type} [FloatArith F]

/-- Updates of the history at times in microseconds, each with the target that it finds. -/
def afterUpdates (e : SendSideBandwidthEstimation F) (updates : List (Int × DataRate)) :
    SendSideBandwidthEstimation F :=
  updates.foldl (fun e u => { e with currentTarget := u.2 }.updateMinHistory (.micros u.1)) e

def entryOf (u : Int × DataRate) : Timestamp × DataRate := (.micros u.1, u.2)

theorem minBitrateHistory_afterUpdates {e : SendSideBandwidthEstimation F}
    (hempty : e.minBitrateHistory = []) (updates : List (Int × DataRate)) :
    (e.afterUpdates updates).minBitrateHistory =
      MinQueue.pushAll historyExpired (updates.map entryOf) := by
  induction updates using List.reverseRecOn with
  | nil => exact hempty
  | append_singleton updates u ih =>
      rw [List.map_append, List.map_singleton, MinQueue.pushAll_snoc, ← ih]
      unfold afterUpdates
      rw [List.foldl_append]
      rfl

/-- The targets of the last 999 ms are the values of the entries that have not expired. -/
theorem recent_targets_eq (updates : List (Int × DataRate)) (now : Int) :
    {rate | ∃ u ∈ updates, now - u.1 ≤ 999000 ∧ u.2 = rate} =
      {rate | ∃ entry ∈ updates.map entryOf,
        historyExpired (.micros now) entry.1 = false ∧ entry.2 = rate} := by
  ext rate
  constructor
  · rintro ⟨u, hu, hrecent, rfl⟩
    exact ⟨entryOf u, List.mem_map_of_mem hu, historyExpired_finite_eq_false.mpr hrecent, rfl⟩
  · rintro ⟨entry, hentry, hfresh, rfl⟩
    obtain ⟨u, hu, rfl⟩ := List.mem_map.mp hentry
    exact ⟨u, hu, historyExpired_finite_eq_false.mp hfresh, rfl⟩

/-- After updates at times that do not decrease, the history is in the order of its times and
of its rates, and its front is the smallest target of the last 999 ms. -/
theorem history_front_minimum {e : SendSideBandwidthEstimation F} (hempty : e.minBitrateHistory = [])
    {updates : List (Int × DataRate)} {last : Int × DataRate}
    (ordered : (updates ++ [last]).Pairwise fun u v => u.1 ≤ v.1) :
    ∃ front rest, (e.afterUpdates (updates ++ [last])).minBitrateHistory = front :: rest ∧
      (front :: rest).Pairwise (fun a b => a.1 ≤ b.1) ∧
      (front :: rest).Pairwise (fun a b => a.2 < b.2) ∧
      IsLeast {rate | ∃ u ∈ updates ++ [last], last.1 - u.1 ≤ 999000 ∧ u.2 = rate} front.2 := by
  have hmap : (updates ++ [last]).map entryOf = updates.map entryOf ++ [entryOf last] := by
    rw [List.map_append, List.map_singleton]
  have hentries : ((updates ++ [last]).map entryOf).Pairwise fun a b => a.1 ≤ b.1 := by
    rw [List.pairwise_map]
    exact ordered.imp fun h => finite_le_finite.mpr h
  have hlive : historyExpired (entryOf last).1 (entryOf last).1 = false :=
    historyExpired_finite_eq_false.mpr (by omega)
  rw [minBitrateHistory_afterUpdates hempty, recent_targets_eq]
  rw [hmap] at hentries ⊢
  cases hq : MinQueue.pushAll historyExpired (updates.map entryOf ++ [entryOf last]) with
  | nil =>
      rw [MinQueue.pushAll_snoc] at hq
      exact absurd hq MinQueue.push_ne_nil
  | cons front rest =>
      have hrep := MinQueue.represents_pushAll expiry_historyExpired hentries
      rw [hq] at hrep
      exact ⟨front, rest, rfl, hrep.ordered, hrep.increasing,
        MinQueue.front_isLeast expiry_historyExpired hentries hlive hq⟩

end Updates

/-- Two targets; the first is 999 ms old at the update behind them. -/
def boundaryUpdates : List (Int × DataRate) := [(0, .finite 100000), (500000, .finite 300000)]

theorem history_front_minimum_boundary :
    (({} : SendSideBandwidthEstimation Rational).afterUpdates
        (boundaryUpdates ++ [(999000, .finite 200000)])).minBitrateHistory =
      [(.micros 0, .finite 100000), (.micros 999000, .finite 200000)] ∧
    IsLeast {rate | ∃ u ∈ boundaryUpdates ++ [(999000, .finite 200000)],
      999000 - u.1 ≤ 999000 ∧ u.2 = rate} (.finite 100000) := by
  have hhistory : (({} : SendSideBandwidthEstimation Rational).afterUpdates
      (boundaryUpdates ++ [(999000, .finite 200000)])).minBitrateHistory =
      [(.micros 0, .finite 100000), (.micros 999000, .finite 200000)] := by decide
  have hordered : List.Pairwise (fun u v => u.1 ≤ v.1)
      (boundaryUpdates ++ [((999000, .finite 200000) : Int × DataRate)]) := by
    decide
  obtain ⟨front, rest, hfront, -, -, hleast⟩ :=
    history_front_minimum (e := ({} : SendSideBandwidthEstimation Rational)) rfl hordered
  rw [hhistory] at hfront
  cases hfront
  exact ⟨hhistory, hleast⟩

end SendSideBandwidthEstimation
end ChromeGcc
