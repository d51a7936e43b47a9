import Mathlib.Algebra.Order.Ring.Rat
import DlnTaker.Library.Exposure
import DlnTaker.Limits.FleetStep

/-! # The throughput cap of a range

An order is checked against what is locked in its range, and locked there only
after its transaction has been confirmed. Until then the order is exposed but
not recorded. The cap holds in the runs in which every check finds the other
exposed orders of the range recorded.
-/

namespace DlnTaker

open Exposure ThroughputController

namespace Fleet

variable {config : FleetConfig} {s s' : Fleet} {range : Threshold × ℕ} {orderId : OrderId}

def lastSend (s : Fleet) (orderId : OrderId) : Option Send :=
  Journal.latest (fun send => if send.orderId = orderId then some send else none) s.sends

/-- The order was last sent from the range, and within its time window. -/
def SentWithin (config : FleetConfig) (s : Fleet) (range : Threshold × ℕ) (orderId : OrderId) :
    Prop :=
  ∃ send ∈ s.lastSend orderId, config.rangeOf send.confirmationBlocksCount = some range ∧
    (s.now : ℚ) < send.sentAt + range.1.throughputTimeWindowSec * 1000

/-- The orders sent within the time window of an active range are worth at most its cap. -/
def ThroughputCapped (config : FleetConfig) (s : Fleet) : Prop :=
  ∀ range ∈ config.ranges.zipIdx, range.1.isActualMetric = true →
    Bounded config.usdValue range.1.maxFulfillThroughputUSD (s.SentWithin config range)

/-- A run has passed the check in the range with the order. -/
def PassedIn (config : FleetConfig) (s : Fleet) (range : Threshold × ℕ) (orderId : OrderId) :
    Prop :=
  s.SomeRun fun run => run.order.orderId = orderId ∧ run.stage.pastThroughput = true ∧
    config.rangeOf (config.blockConfirmations run.order) = some range

/-- The order has been sent from the range, or may be sent without a further check. -/
def ExposedIn (config : FleetConfig) (s : Fleet) (range : Threshold × ℕ) (orderId : OrderId) :
    Prop :=
  s.PassedIn config range orderId ∨ s.SentWithin config range orderId

/-- The controller counts the order in the range. -/
def Recorded (s : Fleet) (range : Threshold × ℕ) (orderId : OrderId) : Prop :=
  ∃ metric ∈ s.throughput.metrics[range.2]?, orderId ∈ metric.orders

/-- The orders of the runs in progress and those sent so far. -/
def orderIds (s : Fleet) : List OrderId :=
  s.takes.map (·.order.orderId) ++ s.sends.map (·.orderId)

/-- An order that passes `checkThroughput` finds the other exposed orders of its range recorded. -/
def ChecksRecorded (config : FleetConfig) (s : Fleet) : FleetInput → Prop
  | .run n .checkThroughput =>
    ∀ run ∈ s.takes[n]?, ∀ range ∈ config.rangeOf (config.blockConfirmations run.order),
      s.throughput.isThrottled (config.blockConfirmations run.order)
        (config.usdValue run.order.orderId) = false →
      ∀ orderId ∈ s.orderIds, orderId ≠ run.order.orderId →
        s.ExposedIn config range orderId → s.Recorded range orderId
  | _ => True

instance : Decidable (s.SentWithin config range orderId) := by
  unfold SentWithin; infer_instance

instance : Decidable (s.ExposedIn config range orderId) := by
  unfold ExposedIn PassedIn; infer_instance

instance : Decidable (s.Recorded range orderId) := by
  unfold Recorded; infer_instance

instance (i : FleetInput) : Decidable (ChecksRecorded config s i) := by
  unfold ChecksRecorded; split <;> infer_instance

/-! ### What a step exposes -/

section Exposed

variable {n : ℕ} {run : TakeRun} {stage : TakeStage}

theorem ExposedIn.mem_orderIds (h : s.ExposedIn config range orderId) :
    orderId ∈ s.orderIds := by
  rcases h with ⟨run, hr, rfl, -⟩ | ⟨send, hs, -⟩
  · exact List.mem_append_left _ (List.mem_map.mpr ⟨run, hr, rfl⟩)
  · apply List.mem_append_right
    obtain ⟨a, ha, he⟩ := List.mem_filterMap.mp (List.mem_of_getLast? hs)
    split at he
    · rename_i ho
      exact List.mem_map.mpr ⟨a, ha, ho⟩
    · cases he

theorem ExposedIn.of_moved (h : (s.moved n run stage).ExposedIn config range orderId) :
    (orderId = run.order.orderId ∧ stage.pastThroughput = true ∧
      config.rangeOf (config.blockConfirmations run.order) = some range) ∨
    s.ExposedIn config range orderId := by
  rcases h with h | h
  · rcases h.of_moved with ⟨ho, hp⟩ | h
    · exact .inl ⟨ho.symm, hp⟩
    · exact .inr (.inl h)
  · exact .inr (.inr h)

/-- A run that goes on past the check, or stays before it, exposes nothing new. -/
theorem ExposedIn.of_moved_of_le (hn : s.takes[n]? = some run)
    (hs : stage.pastThroughput = true → run.stage.pastThroughput = true)
    (h : (s.moved n run stage).ExposedIn config range orderId) :
    s.ExposedIn config range orderId := by
  refine h.imp_left fun hr => ?_
  apply hr.of_moved_of_imp hn
  rintro ⟨ho, hp, hrange⟩
  exact ⟨ho, hs hp, hrange⟩

theorem ExposedIn.of_ended (h : (s.ended n).ExposedIn config range orderId) :
    s.ExposedIn config range orderId :=
  h.imp_left SomeRun.of_ended

/-- Time passes, and the windows move on. -/
theorem SentWithin.of_tick {ms : ℕ}
    (h : SentWithin config { s with now := s.now + ms } range orderId) :
    s.SentWithin config range orderId := by
  obtain ⟨send, hs, hr, hw⟩ := h
  refine ⟨send, hs, hr, lt_of_le_of_lt ?_ hw⟩
  exact_mod_cast Nat.le_add_right s.now ms

/-- The order of a run that sends was exposed before. -/
theorem ExposedIn.of_send (hn : s.takes[n]? = some run)
    (hp : run.stage.pastThroughput = true)
    (h : ExposedIn config { s.moved n run .broadcast with
      submitted := s.submitted ++ [run.order.orderId]
      sends := s.sends ++ [⟨run.order.orderId, config.blockConfirmations run.order, s.now⟩] }
      range orderId) :
    s.ExposedIn config range orderId := by
  rcases h with h | ⟨send, hs, hr, hw⟩
  · exact .of_moved_of_le hn (fun _ => hp) (.inl h)
  · rw [Option.mem_def, lastSend, Journal.latest_concat] at hs
    by_cases ho : run.order.orderId = orderId
    · rw [if_pos ho, Option.some_or] at hs
      obtain rfl := Option.some.inj hs
      exact .inl ⟨run, List.mem_of_getElem? hn, ho, hp, hr⟩
    · rw [if_neg ho, Option.none_or] at hs
      exact .inr ⟨send, hs, hr, hw⟩

end Exposed

/-! ### The invariant -/

/-- The controller's accounts are right, and what is exposed in an active range fits its cap. -/
structure Capped (config : FleetConfig) (s : Fleet) : Prop where
  accounted : Accounted s.throughput
  ranges : s.throughput.ranges = config.ranges
  usdValue : ∀ order ∈ s.throughput.orders, order.usdValue = config.usdValue order.orderId
  bounded : ∀ range ∈ config.ranges.zipIdx, range.1.isActualMetric = true →
    Bounded config.usdValue range.1.maxFulfillThroughputUSD (s.ExposedIn config range)

theorem usdValue_nonneg (orderId : OrderId) : 0 ≤ config.usdValue orderId :=
  TokenMarket.getUsdValue_nonneg

namespace Capped

variable {n : ℕ} {run : TakeRun}

theorem throughputCapped (h : Capped config s) : s.ThroughputCapped config :=
  fun range hr ha => (h.bounded range hr ha).mono (fun _ => .inr) le_rfl

theorem initial {chain : GiveChainState} : Capped config (.initial config chain) where
  accounted := .create _
  ranges := ranges_create _
  usdValue order ho := nomatch ho
  bounded range _ ha := by
    apply bounded_of_forall_not
    · rintro orderId (⟨run, hr, -⟩ | ⟨send, hs, -⟩)
      · cases hr
      · cases hs
    · simp only [Threshold.isActualMetric, Bool.and_eq_true, decide_eq_true_eq] at ha
      exact ha.1.le

/-- A step that leaves the controller alone and exposes nothing new. -/
theorem frame (h : Capped config s) (ht : s'.throughput = s.throughput)
    (he : ∀ range orderId, s'.ExposedIn config range orderId →
      s.ExposedIn config range orderId) : Capped config s' where
  accounted := ht ▸ h.accounted
  ranges := ht ▸ h.ranges
  usdValue := ht ▸ h.usdValue
  bounded range hr ha := (h.bounded range hr ha).mono (he range) le_rfl

/-- The orders recorded in a range are together worth what is locked there. -/
theorem sum_recorded (h : Capped config s) {metric : Metric}
    (hm : s.throughput.metrics[range.2]? = some metric) :
    ∑ orderId ∈ metric.orders.toList.toFinset, config.usdValue orderId =
      metric.currentlyLocked := by
  have hids : metric.orders.toList.toFinset =
      ((s.throughput.orders.filter (·.metric = range.2)).map (·.orderId)).toFinset := by
    ext orderId
    rw [List.mem_toFinset, ← InsertionSet.mem_def, h.accounted.orders _ _ hm]
    simp only [List.mem_toFinset, List.mem_map, List.mem_filter, decide_eq_true_eq]
    constructor
    · rintro ⟨order, ho, hid, hi⟩
      exact ⟨order, ⟨ho, hi⟩, hid⟩
    · rintro ⟨order, ⟨ho, hi⟩, hid⟩
      exact ⟨order, ho, hid, hi⟩
  have hnodup := h.accounted.nodup.sublist
    ((List.filter_sublist (p := (·.metric = range.2))).map OrderRecord.orderId)
  rw [hids, List.sum_toFinset _ hnodup, h.accounted.currentlyLocked _ _ hm, lockedIn,
    List.map_map]
  congr 1
  apply List.map_congr_left
  intro order ho
  exact (h.usdValue order (List.mem_filter.mp ho).1).symm

/-- An order that passes the check beside recorded orders fits the cap. -/
theorem pass (h : Capped config s) (hn : s.takes[n]? = some run)
    (hc : ChecksRecorded config s (.run n .checkThroughput))
    (ht : s.throughput.isThrottled (config.blockConfirmations run.order)
      (config.usdValue run.order.orderId) = false) :
    Capped config (s.moved n run .notThrottled) := by
  refine ⟨h.accounted, h.ranges, h.usdValue, fun range hr ha => ?_⟩
  by_cases hrange : config.rangeOf (config.blockConfirmations run.order) = some range
  · have hget : s.throughput.getMetric (config.blockConfirmations run.order) = some range := by
      rw [getMetric, h.ranges]
      exact hrange
    obtain ⟨metric, hm, hth⟩ := exists_metric hget
    have hfits := le_of_not_isThrottled ht hget hm
    refine bounded_of_fits (a := run.order.orderId) metric.orders.toList.toFinset
      usdValue_nonneg ?_ ?_
    · intro orderId ho
      rcases ho.of_moved with ⟨rfl, -⟩ | ho
      · exact .inl rfl
      · by_cases hid : orderId = run.order.orderId
        · exact .inl hid
        · right
          obtain ⟨metric', hm', hmem⟩ :=
            hc run hn range hrange ht orderId ho.mem_orderIds hid ho
          obtain rfl : metric = metric' := Option.some.inj (hm.symm.trans hm')
          exact List.mem_toFinset.mpr hmem
    · rw [h.sum_recorded hm]
      exact hfits
  · apply (h.bounded range hr ha).mono _ le_rfl
    intro orderId ho
    rcases ho.of_moved with ⟨-, -, hr⟩ | ho
    · exact absurd hr hrange
    · exact ho

theorem step (h : Capped config s) {i : FleetInput} (hc : ChecksRecorded config s i)
    (hs : Fleet.step config s i = some s') : Capped config s' := by
  cases change_of_step hs with
  | tick ms => exact h.frame rfl fun _ _ => Or.imp_right SentWithin.of_tick
  | take order =>
    exact h.frame rfl fun _ _ => Or.imp_left (SomeRun.of_taken fun ⟨_, hp, _⟩ => nomatch hp)
  | awaitTVL n run calculation tvlBudget hn hb hg =>
    exact h.frame rfl fun _ _ => ExposedIn.of_moved_of_le (s := { s with tvlBudget }) hn nofun
  | skipBudget n run hn hb => exact h.frame rfl fun _ _ => .of_moved_of_le hn nofun
  | withinBudget n run calculation tvl hn hst htvl hle =>
    exact h.frame rfl fun _ _ => .of_moved_of_le hn nofun
  | notThrottled n run hn hst ht => exact h.pass hn hc ht
  | advance n run input stage hn hp hp' =>
    exact h.frame rfl fun _ _ => .of_moved_of_le hn fun _ => hp
  | send n run hn hp => exact h.frame rfl fun _ _ => .of_send hn hp
  | addOrder n run throughput hn hadd =>
    obtain ⟨c, hc', hacc, hranges, horders⟩ := h.accounted.addOrder s.now run.order.orderId
      (config.blockConfirmations run.order) (config.usdValue run.order.orderId)
    obtain rfl : throughput = c := Except.ok.inj (hadd.symm.trans hc')
    refine ⟨hacc, hranges.trans h.ranges, fun order ho => ?_, fun range hr ha => ?_⟩
    · rcases horders order ho with ho | ⟨hid, hv⟩
      · exact h.usdValue order ho
      · rw [hv, hid]
    · exact (h.bounded range hr ha).mono (fun _ => ExposedIn.of_ended (s := s)) le_rfl
  | leave n run input hn => exact h.frame rfl fun _ _ => .of_ended
  | throughputTimer n throughput ht =>
    obtain ⟨c, hc', hacc, hranges, horders⟩ := h.accounted.onTimer ht
    obtain rfl : throughput = c := Except.ok.inj hc'
    exact ⟨hacc, hranges.trans h.ranges, fun order ho => h.usdValue order (horders order ho),
      h.bounded⟩
  | calculate | flushCache | fulfilled | dropped | claimed | spent =>
    exact h.frame rfl fun _ _ => id

end Capped

/-- In every run in which each order that passes `checkThroughput` finds the other exposed orders
of its range recorded, the cap of every active range holds in every time window. -/
theorem throughput_capped {chain : GiveChainState} {t : List FleetInput}
    (h : ((fleet config chain).guard (ChecksRecorded config)).Run t s) :
    s.ThroughputCapped config :=
  (h.guarded_invariant (P := Capped config) .initial
    fun _ _ _ hp hc hs => hp.step hc hs).throughputCapped

/-- The second order is checked after the first one has been recorded. -/
theorem throughput_capped_in_sequence :
    ∃ s, ((fleet (Sample.config 0 150) Sample.emptyChain).guard
      (ChecksRecorded (Sample.config 0 150))).Run
      (Sample.start ++ [.run 0 .checkThroughput] ++ Sample.fulfilment 0 "0xa" ++
        [.run 0 .checkThroughput] ++ Sample.fulfilment 0 "0xb") s ∧
      s.ThroughputCapped (Sample.config 0 150) := by
  apply Machine.exists_run_and
  · decide +kernel
  · intro s hr
    exact throughput_capped hr

/-- Two orders of different take chains, each within the cap, are both checked before either is
recorded; together they exceed it. -/
theorem both_pass_before_recorded :
    ∃ s, (fleet (Sample.config 0 100) Sample.emptyChain).Run
      (Sample.start ++ [.run 0 .checkThroughput, .run 1 .checkThroughput] ++
        Sample.fulfilment 0 "0xa" ++ Sample.fulfilment 0 "0xb") s ∧
      ¬ s.ThroughputCapped (Sample.config 0 100) := by
  obtain ⟨s, hr, hs⟩ := Machine.exists_run_of_any
    (M := fleet (Sample.config 0 100) Sample.emptyChain)
    (t := Sample.start ++ [.run 0 .checkThroughput, .run 1 .checkThroughput] ++
      Sample.fulfilment 0 "0xa" ++ Sample.fulfilment 0 "0xb")
    (p := fun s => decide (∀ orderId ∈ ({"0xa", "0xb"} : Finset OrderId),
      s.SentWithin (Sample.config 0 100) (⟨1, 100, 30⟩, 1) orderId))
    (by decide +kernel)
  refine ⟨s, hr, fun hcap => ?_⟩
  have hsum := hcap (⟨1, 100, 30⟩, 1) (by decide +kernel) (by decide +kernel) {"0xa", "0xb"}
    (of_decide_eq_true hs)
  exact absurd hsum (by decide +kernel)

end Fleet

end DlnTaker
