import ChromeGcc.Loss.Boundary
import ChromeGcc.Loss.Conservation

/-! The totals of the reports on packets in order: no report counts a loss that did not happen,
and none counts one twice. -/
namespace ChromeGcc
namespace ReceiverLossCollection
open ReceiveVector Machine

/-- The sums over all reports of a run. -/
def lostTotal (os : List LossReportUpdate) : Nat :=
  ((os.filter (·.updated)).map (·.report.packetsLostDelta)).sum

def receivedTotal (os : List LossReportUpdate) : Nat :=
  ((os.filter (·.updated)).map (·.report.packetsReceivedDelta)).sum

variable {F : Type} [FloatArith F] {ps : List PacketResult} {p : PacketResult}
  {c c' : ReceiverLossCollection} {os : List (LossReportUpdate × ReceiveVector)}
  {o : LossReportUpdate × ReceiveVector}

/-- The entries for missing numbers are distinct, and each is for a number that is missing. -/
structure LedgerExact (ps : List PacketResult) (os : List (LossReportUpdate × ReceiveVector))
    (c : ReceiverLossCollection) : Prop where
  nodup : (lossLedger os c).Nodup
  missing : ∀ n ∈ lossLedger os c, Missing (ps.map PacketResult.number) n
  reported : ∀ o ∈ os, o.1.updated = true → o.1.report.packetsLostDelta = o.2.lostNumbers.length

theorem Missing.concat {seen : List Nat} {n k : Nat} (h : Missing seen n) (hk : n ≠ k) :
    Missing (seen ++ [k]) n := by
  obtain ⟨hn, ⟨a, ha, han⟩, b, hb, hnb⟩ := h
  refine ⟨?_, ⟨a, List.mem_append_left _ ha, han⟩, b, List.mem_append_left _ hb, hnb⟩
  rw [List.mem_append, List.mem_singleton]
  rintro (hmem | hmem)
  · exact hn hmem
  · exact hk hmem

/-- The gap before a new number is above everything seen, and missing once it is seen. -/
theorem missing_of_mem_gapBefore {seen : List Nat} (hc : Counted c seen) {n k : Nat}
    (hn : n ∈ c.inEffectVector.gapBefore k) :
    (∀ m ∈ seen, m < n) ∧ Missing (seen ++ [k]) n := by
  have hnk := mem_gapBefore hn
  unfold gapBefore at hn
  split_ifs at hn with he
  · cases hn
  · have hfirst := (List.mem_range'_1.mp hn).1
    have habove : ∀ m ∈ seen, m < n := fun m hm => (hc.within he m hm).trans_lt hfirst
    refine ⟨habove, ?_, ⟨_, List.mem_append_left _ (hc.top he), hfirst⟩, k, ?_, hnk⟩
    · rw [List.mem_append, List.mem_singleton]
      rintro (hmem | hmem)
      · exact absurd (habove n hmem) (lt_irrefl n)
      · exact absurd hmem hnk.ne
    · exact List.mem_append_right _ (List.mem_singleton_self k)

theorem nodup_gapBefore (e : ReceiveVector) (k : Nat) : (e.gapBefore k).Nodup := by
  unfold gapBefore
  split_ifs
  · exact List.nodup_nil
  · exact List.nodup_range' 1

theorem ledgerExact_of_trace (hi : InOrder ps) (ht : Trace (feedbackObserved F) {} ps os c) :
    LedgerExact ps os c := by
  refine Trace.invariant (P := InOrder) (I := LedgerExact) (fun ps p h => h.of_append) ?_ ?_ ht hi
  · exact ⟨List.nodup_nil, fun n hn => absurd hn List.not_mem_nil,
      fun o ho => absurd ho List.not_mem_nil⟩
  · intro ps os c p c' o hi ht hexact hok
    obtain ⟨hs, hc, habove⟩ := inOrder_next hi ht
    obtain ⟨ho, hledger⟩ := ledger_step hs hi.last_valid hi.lastTime_le habove hok
    have hbelow : ∀ n ∈ lossLedger os c, n < p.number := by
      intro n hn
      obtain ⟨-, -, m, hm, hnm⟩ := hexact.missing n hn
      exact hnm.trans (hi.above m hm)
    constructor
    case nodup =>
      rw [hledger]
      refine hexact.nodup.append (nodup_gapBefore _ _) ?_
      intro n hn hgap
      obtain ⟨-, -, m, hm, hnm⟩ := hexact.missing n hn
      exact absurd ((missing_of_mem_gapBefore hc hgap).1 m hm) (not_lt.mpr hnm.le)
    case missing =>
      intro n hn
      rw [hledger] at hn
      rw [List.map_append]
      rcases List.mem_append.mp hn with hn | hn
      · exact (hexact.missing n hn).concat (hbelow n hn).ne
      · exact (missing_of_mem_gapBefore hc hn).2
    case reported =>
      intro o' ho' hu
      rcases List.mem_append.mp ho' with ho' | ho'
      · exact hexact.reported o' ho' hu
      · rw [List.mem_singleton.mp ho', ho] at hu ⊢
        exact reportAt_lost hu

/-- What the reports count as lost are entries of the ledger. -/
theorem LedgerExact.lostTotal_le (h : LedgerExact ps os c) :
    lostTotal (os.map Prod.fst) ≤ (lossLedger os c).length := by
  have hsum : lostTotal (os.map Prod.fst) =
      ((reportedWindows os).flatMap lostNumbers).length := by
    have hreported := h.reported
    clear h
    induction os with
    | nil => rfl
    | cons o os ih =>
        have hrest := ih fun o' ho' => hreported o' (List.mem_cons_of_mem _ ho')
        unfold lostTotal reportedWindows at hrest ⊢
        by_cases hu : o.1.updated = true
        · have hlost := hreported o List.mem_cons_self hu
          simp only [List.map_cons, List.filter_cons, hu, if_true, List.sum_cons, List.flatMap_cons,
            List.length_append, hrest, hlost]
        · simp only [List.map_cons, List.filter_cons, hu, Bool.false_eq_true, if_false, hrest]
  rw [hsum, lossLedger, List.length_append, List.length_append]
  omega

/-- On packets in order the reports together count no more packets as received than came, and no
more as lost than are missing; the missing ones are distinct. -/
theorem totals_of_inOrder (hi : InOrder ps) {reports : List LossReportUpdate}
    (ht : Trace (onTransportPacketFeedback F) {} ps reports c) :
    receivedTotal reports ≤ ps.length ∧
      ∃ missing : List Nat, missing.Nodup ∧ lostTotal reports ≤ missing.length ∧
        ∀ n ∈ missing, Missing (ps.map PacketResult.number) n := by
  obtain ⟨os, d, hobserved⟩ := inOrder_runs F hi
  have hprojected : Trace (onTransportPacketFeedback F) {} ps (os.map Prod.fst) d :=
    hobserved.project fun _ _ _ _ => feedbackObserved_ok
  obtain ⟨rfl, rfl⟩ := ht.unique hprojected
  have hexact := ledgerExact_of_trace hi hobserved
  refine ⟨?_, _, hexact.nodup, hexact.lostTotal_le, hexact.missing⟩
  obtain ⟨reports, d, hkept, hall⟩ := keepsAll_of_inOrder F hi
  obtain ⟨hreports, -⟩ := hkept.unique hprojected
  have htotal := hall.total
  rw [← hreports]
  unfold receivedLedger at htotal
  unfold receivedTotal
  omega

end ReceiverLossCollection
end ChromeGcc
