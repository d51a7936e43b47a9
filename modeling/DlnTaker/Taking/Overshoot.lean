import DlnTaker.Limits.Overshoot
import DlnTaker.Taking.Refinement

/-! # How far the takers overshoot the throughput cap

The bound on the abstract take runs carries over to the attempts that the
refinement relates them to: those whose transaction a sender is working on have
all passed the check of the throughput and are not yet recorded.
-/

namespace DlnTaker

open ThroughputController

variable {config : TakersConfig} {s : Takers} {range : Threshold × ℕ} {attempt : Attempt}
  {run : TakeRun} {takes : List TakeRun}

namespace Takers

/-- What an attempt adds to the range as long as its transaction is being sent. -/
def sending (config : TakersConfig) (range : Threshold × ℕ) (attempt : Attempt) : ℚ :=
  match attempt.waiting with
  | .sender _ =>
    if config.fleet.rangeOf (config.fleet.blockConfirmations attempt.order) = some range then
      config.fleet.usdValue attempt.order.orderId
    else 0
  | _ => 0

/-- The abstract run of an attempt weighs at least as much. -/
theorem Stands.sending_le (h : Stands config s attempt run) :
    sending config range attempt ≤ Fleet.load config.fleet range run := by
  cases h with
  | lookup | calculation => exact Fleet.load_nonneg
  | sender order estimation next broadcast =>
    have hpast : (if broadcast then TakeStage.broadcast else .fulfilling).pastThroughput =
        true := by
      cases broadcast <;> rfl
    simp only [sending, Fleet.load, hpast, true_and]
    exact le_rfl

theorem StandFor.sum_sending_le (h : StandFor config s takes) :
    (s.attempts.map (sending config range)).sum ≤
      (takes.map (Fleet.load config.fleet range)).sum := by
  apply List.Forall₂.sum_le_sum
  rw [List.forall₂_map_left_iff, List.forall₂_map_right_iff]
  exact h.imp fun _ _ hstands => hstands.sending_le

end Takers

open Takers

/-- If only orders of the given take chains are taken, then what is locked in an active range and
what is being sent there is together worth at most the cap for each of these chains. -/
theorem throughput_overshoot {chain : GiveChainState} {t : List TakersInput} {T : Finset ChainId}
    {i : ℕ} {metric : Metric} (h : (takers config chain).Run t s)
    (ht : ∀ order, .take order ∈ t → order.takeChain ∈ T)
    (hm : s.throughput.metrics[i]? = some metric) (ha : metric.isActualMetric = true) :
    metric.currentlyLocked + (s.attempts.map (sending config (metric.toThreshold, i))).sum ≤
      T.card * metric.maxFulfillThroughputUSD := by
  obtain ⟨t', takes, htaken, hr, hf, hacc⟩ := exists_run h
  have hover : Fleet.Overshot config.fleet T (s.fleet takes) :=
    Fleet.overshot hr fun order hin => ht order (htaken order hin)
  have hrange : (metric.toThreshold, i) ∈ config.fleet.ranges.zipIdx := by
    have hranges : s.throughput.ranges = config.fleet.ranges := hover.ranges
    rw [List.mk_mem_zipIdx_iff_getElem?, ← hranges, ranges, List.getElem?_map, hm]
    rfl
  have hbound := hover.bounded (metric.toThreshold, i) hrange ha
  have hlocked : metric.currentlyLocked = lockedIn s.throughput.orders i :=
    hacc.currentlyLocked i metric hm
  have hsending : (s.attempts.map (sending config (metric.toThreshold, i))).sum ≤
      Fleet.inFlight config.fleet (metric.toThreshold, i) (s.fleet takes) := hf.sum_sending_le
  rw [hlocked]
  exact (add_le_add_right hsending _).trans hbound

end DlnTaker
