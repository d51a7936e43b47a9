import Mathlib.Algebra.Order.BigOperators.Group.List
import DlnTaker.Library.Journal
import DlnTaker.Library.Machine
import DlnTaker.Library.RangeSearch
import DlnTaker.Limits.Throughput

/-! # Runs of a throughput controller

Orders are added and removed in any sequence while time passes, and a timer may
fire at any time once it is due. The accounts are right in every state; whether
an order is counted only where it belongs depends on what it was added to before.
-/

namespace DlnTaker

inductive ThroughputInput
  | addOrder (orderId : OrderId) (confirmationBlocksCount : ℕ) (usdValue : ℚ)
  | removeOrder (orderId : OrderId)
  | elapse (ms : ℕ)
  | timer (n : ℕ)
  deriving DecidableEq

/-- A call of the controller, with the time of an addition. -/
inductive ThroughputCall
  | added (now : ℕ) (orderId : OrderId) (confirmationBlocksCount : ℕ) (usdValue : ℚ)
  | removed (orderId : OrderId)
  deriving DecidableEq

structure ThroughputRun where
  controller : Except Crash ThroughputController
  now : ℕ
  log : List ThroughputCall

/-- A crash ends the run. -/
def throughputStep (s : ThroughputRun) (input : ThroughputInput) : Option ThroughputRun :=
  match s.controller with
  | .error _ => none
  | .ok c =>
    match input with
    | .addOrder orderId confirmationBlocksCount usdValue =>
      some { s with
        controller := c.addOrder s.now orderId confirmationBlocksCount usdValue
        log := s.log ++ [.added s.now orderId confirmationBlocksCount usdValue] }
    | .removeOrder orderId =>
      some { s with
        controller := c.removeOrder orderId
        log := s.log ++ [.removed orderId] }
    | .elapse ms => some { s with now := s.now + ms }
    | .timer n => (c.onTimer s.now n).map fun controller => { s with controller }

def throughput (thresholds : List Threshold) : Machine ThroughputRun ThroughputInput where
  init := ⟨.ok (.create thresholds), 0, []⟩
  step := throughputStep

/-- The order is counted in the range at the position. -/
def ThroughputController.Counts (c : ThroughputController) (orderId : OrderId) (i : ℕ) : Prop :=
  ∃ metric, c.metrics[i]? = some metric ∧ orderId ∈ metric.orders

instance (c : ThroughputController) (orderId : OrderId) (i : ℕ) : Decidable (c.Counts orderId i) :=
  decidable_of_iff (c.metrics[i]?.any (fun metric => decide (orderId ∈ metric.orders)) = true) <| by
    simp [ThroughputController.Counts, Option.any_eq_true]

/-- The range with the greatest number of confirmations that are reached; of several ones the
first. -/
structure IsCurrent (ranges : List Threshold) (n i : ℕ) (threshold : Threshold) : Prop where
  range : ranges[i]? = some threshold
  reached : threshold.minBlockConfirmations ≤ n
  greatest : ∀ (j : ℕ) (other : Threshold), ranges[j]? = some other →
    other.minBlockConfirmations ≤ n →
      other.minBlockConfirmations ≤ threshold.minBlockConfirmations
  first : ∀ (j : ℕ) (other : Threshold), ranges[j]? = some other →
    other.minBlockConfirmations = threshold.minBlockConfirmations → i ≤ j

/-- The current range is at this position and active. -/
def InForce (ranges : List Threshold) (n i : ℕ) : Prop :=
  ∃ threshold, IsCurrent ranges n i threshold ∧ threshold.isActualMetric = true

/-- What an operation makes of a controller. -/
structure Updated (c c' : ThroughputController) (orders : List OrderRecord)
    (timers : List ThroughputTimer) : Prop where
  accounted : c'.Accounted
  ranges : c'.ranges = c.ranges
  orders : c'.orders = orders
  timers : c'.timers = timers

/-- What a step does, by its input. -/
inductive ThroughputMove (s : ThroughputRun) (c : ThroughputController) :
    ThroughputInput → ThroughputRun → Prop
  | passed (orderId : OrderId) (n : ℕ) (usdValue : ℚ) :
      c.getMetric n = none →
      ThroughputMove s c (.addOrder orderId n usdValue)
        ⟨.ok c, s.now, s.log ++ [.added s.now orderId n usdValue]⟩
  | added (orderId : OrderId) (n : ℕ) (usdValue : ℚ) (threshold : Threshold) (i : ℕ)
      (timer : ThroughputTimer) (c' : ThroughputController) :
      c.getMetric n = some (threshold, i) →
      timer = ⟨orderId, s.now + timerDelay (threshold.throughputTimeWindowSec * 1000)⟩ →
      Updated c c' (c.orders.filter (·.orderId ≠ orderId) ++ [⟨orderId, usdValue, n, timer, i⟩])
        (c.timers ++ [timer]) →
      ThroughputMove s c (.addOrder orderId n usdValue)
        ⟨.ok c', s.now, s.log ++ [.added s.now orderId n usdValue]⟩
  | removed (orderId : OrderId) (c' : ThroughputController) :
      Updated c c' (c.orders.filter (·.orderId ≠ orderId)) c.timers →
      ThroughputMove s c (.removeOrder orderId) ⟨.ok c', s.now, s.log ++ [.removed orderId]⟩
  | elapsed (ms : ℕ) :
      ThroughputMove s c (.elapse ms) ⟨.ok c, s.now + ms, s.log⟩
  | fired (n : ℕ) (timer : ThroughputTimer) (c' : ThroughputController) :
      c.timers[n]? = some timer → timer.due ≤ s.now →
      Updated c c' (c.orders.filter (·.orderId ≠ timer.orderId)) (c.timers.eraseIdx n) →
      ThroughputMove s c (.timer n) ⟨.ok c', s.now, s.log⟩

variable {c c' : ThroughputController} {orderId : OrderId} {usdValue : ℚ} {n i : ℕ}
  {threshold : Threshold} {thresholds ranges : List Threshold}

/-! ### What an update leaves -/

namespace Updated

variable {orders : List OrderRecord} {timers : List ThroughputTimer} {order added : OrderRecord}
  {timer other : ThroughputTimer}

theorem mem_removed (h : Updated c c' (c.orders.filter (·.orderId ≠ orderId)) timers) :
    order ∈ c'.orders ↔ order ∈ c.orders ∧ order.orderId ≠ orderId := by
  rw [h.orders, List.mem_filter, decide_eq_true_eq]

theorem mem_added (h : Updated c c' (c.orders.filter (·.orderId ≠ orderId) ++ [added]) timers) :
    order ∈ c'.orders ↔ (order ∈ c.orders ∧ order.orderId ≠ orderId) ∨ order = added := by
  rw [h.orders, List.mem_append, List.mem_filter, decide_eq_true_eq, List.mem_singleton]

theorem mem_armed (h : Updated c c' orders (c.timers ++ [timer])) :
    other ∈ c'.timers ↔ other ∈ c.timers ∨ other = timer := by
  rw [h.timers, List.mem_append, List.mem_singleton]

end Updated

/-! ### The current range -/

theorem sortThresholds_sorted : (sortThresholds thresholds).Pairwise fun b a =>
    a.minBlockConfirmations ≤ b.minBlockConfirmations :=
  RangeSearch.sortDesc_sorted

theorem getRange_eq_some_iff
    (hs : ranges.Pairwise fun b a => a.minBlockConfirmations ≤ b.minBlockConfirmations) :
    getRange ranges n = some (threshold, i) ↔
      IsCurrent ranges n i threshold ∧ threshold.isActualMetric = true := by
  have hsorted : ∀ {j k : ℕ} {a b : Threshold}, j < k → ranges[j]? = some b →
      ranges[k]? = some a → a.minBlockConfirmations ≤ b.minBlockConfirmations := by
    intro j k a b hjk hb ha
    obtain ⟨hj, rfl⟩ := List.getElem?_eq_some_iff.mp hb
    obtain ⟨hk, rfl⟩ := List.getElem?_eq_some_iff.mp ha
    exact List.pairwise_iff_getElem.mp hs j k hj hk hjk
  have hfind := @RangeSearch.find?_zipIdx_eq_some_iff _ ranges threshold
    (fun range => decide (range.minBlockConfirmations ≤ n)) i
  simp only [decide_eq_true_eq, decide_eq_false_iff_not] at hfind
  rw [getRange, Option.filter_eq_some_iff, hfind]
  refine and_congr_left fun _ => ?_
  constructor
  · rintro ⟨hi, hn, hbefore⟩
    refine ⟨hi, hn, fun j other hj hle => ?_, fun j other hj heq => ?_⟩
    · rcases lt_trichotomy j i with hlt | rfl | hgt
      · exact absurd hle (hbefore j other hlt hj)
      · rw [hj] at hi
        exact (Option.some.inj hi) ▸ le_rfl
      · exact hsorted hgt hi hj
    · by_contra hlt
      exact hbefore j other (not_le.mp hlt) hj (heq ▸ hn)
  · rintro ⟨hi, hn, hgreatest, hfirst⟩
    refine ⟨hi, hn, fun j other hlt hj hle => ?_⟩
    have heq := le_antisymm (hgreatest j other hj hle) (hsorted hlt hj hi)
    exact absurd hlt (not_lt.mpr (hfirst j other hj heq))

/-! ### The steps -/

namespace ThroughputController

theorem timers_removeOrder (h : c.removeOrder orderId = .ok c') : c'.timers = c.timers := by
  unfold removeOrder at h
  split at h
  · obtain rfl := Except.ok.inj h
    rfl
  · split at h
    · obtain rfl := Except.ok.inj h
      rfl
    · cases h

theorem Accounted.removeOrder_updated (h : Accounted c) (orderId : OrderId) :
    ∃ c', c.removeOrder orderId = .ok c' ∧
      Updated c c' (c.orders.filter (·.orderId ≠ orderId)) c.timers := by
  obtain ⟨c', hc, ha, hr, ho⟩ := h.removeOrder orderId
  exact ⟨c', hc, ha, hr, ho, timers_removeOrder hc⟩

theorem Accounted.addOrder_updated (h : Accounted c) (now : ℕ) (orderId : OrderId)
    (usdValue : ℚ) (hm : c.getMetric n = some (threshold, i)) {timer : ThroughputTimer}
    (ht : timer = ⟨orderId, now + timerDelay (threshold.throughputTimeWindowSec * 1000)⟩) :
    ∃ c', c.addOrder now orderId n usdValue = .ok c' ∧
      Updated c c' (c.orders.filter (·.orderId ≠ orderId) ++ [⟨orderId, usdValue, n, timer, i⟩])
        (c.timers ++ [timer]) := by
  obtain ⟨c₁, hremoved, hu⟩ := h.removeOrder_updated orderId
  obtain ⟨c', hadded, ha, hr, -⟩ := h.addOrder now orderId n usdValue
  refine ⟨c', hadded, ha, hr, ?_, ?_⟩
  all_goals
    unfold ThroughputController.addOrder at hadded
    rw [hm] at hadded
    simp only [hremoved, ← ht] at hadded
    obtain rfl := Except.ok.inj hadded
  · exact congrArg (· ++ _) hu.orders
  · exact congrArg (· ++ _) hu.timers

theorem Accounted.onTimer_updated (h : Accounted c) {now : ℕ}
    {result : Except Crash ThroughputController} (ht : c.onTimer now n = some result) :
    ∃ timer c', c.timers[n]? = some timer ∧ timer.due ≤ now ∧ result = .ok c' ∧
      Updated c c' (c.orders.filter (·.orderId ≠ timer.orderId)) (c.timers.eraseIdx n) := by
  unfold ThroughputController.onTimer at ht
  cases htimer : c.timers[n]? with
  | none => simp [htimer] at ht
  | some timer =>
    simp only [htimer, Option.ite_none_right_eq_some] at ht
    obtain ⟨hdue, hresult⟩ := ht
    have herased : Accounted { c with timers := c.timers.eraseIdx n } :=
      ⟨h.nodup, h.metric, h.currentlyLocked, h.orders⟩
    obtain ⟨c', hc, hu⟩ := herased.removeOrder_updated timer.orderId
    obtain rfl := (Option.some.inj hresult).symm.trans hc
    exact ⟨timer, c', rfl, hdue, rfl, hu.accounted, hu.ranges, hu.orders, hu.timers⟩

end ThroughputController

variable {s s' : ThroughputRun} {input : ThroughputInput} {t : List ThroughputInput}

theorem throughput_move_of_step (hc : s.controller = .ok c) (ha : c.Accounted)
    (hs : throughputStep s input = some s') : ThroughputMove s c input s' := by
  obtain ⟨controller, now, log⟩ := s
  obtain rfl : controller = .ok c := hc
  cases input with
  | addOrder orderId n usdValue =>
    obtain rfl := Option.some.inj hs
    cases hm : c.getMetric n with
    | none =>
      have hadd : c.addOrder now orderId n usdValue = .ok c := by
        simp [ThroughputController.addOrder, hm]
      simp only [hadd]
      exact .passed orderId n usdValue hm
    | some range =>
      obtain ⟨threshold, i⟩ := range
      obtain ⟨c', hadd, hu⟩ := ha.addOrder_updated now orderId usdValue hm rfl
      simp only [hadd]
      exact .added orderId n usdValue threshold i _ c' hm rfl hu
  | removeOrder orderId =>
    obtain rfl := Option.some.inj hs
    obtain ⟨c', hremove, hu⟩ := ha.removeOrder_updated orderId
    simp only [hremove]
    exact .removed orderId c' hu
  | elapse ms =>
    obtain rfl := Option.some.inj hs
    exact .elapsed ms
  | timer n =>
    obtain ⟨result, hfired, rfl⟩ := Option.map_eq_some_iff.mp hs
    obtain ⟨timer, c', htimer, hdue, rfl, hu⟩ := ha.onTimer_updated hfired
    exact .fired n timer c' htimer hdue hu

/-- The controller has not crashed, and its accounts are right. -/
def ThroughputSound (thresholds : List Threshold) (s : ThroughputRun) : Prop :=
  ∃ c, s.controller = .ok c ∧ c.Accounted ∧ c.ranges = sortThresholds thresholds

theorem ThroughputMove.sound (hm : ThroughputMove s c input s') (ha : c.Accounted)
    (hr : c.ranges = sortThresholds thresholds) : ThroughputSound thresholds s' := by
  cases hm with
  | passed orderId n usdValue h => exact ⟨c, rfl, ha, hr⟩
  | added orderId n usdValue threshold i timer c' h ht hu =>
    exact ⟨c', rfl, hu.accounted, hu.ranges.trans hr⟩
  | removed orderId c' hu => exact ⟨c', rfl, hu.accounted, hu.ranges.trans hr⟩
  | elapsed ms => exact ⟨c, rfl, ha, hr⟩
  | fired n timer c' h hdue hu => exact ⟨c', rfl, hu.accounted, hu.ranges.trans hr⟩

theorem throughput_sound (h : (throughput thresholds).Run t s) : ThroughputSound thresholds s := by
  apply h.invariant
  · exact ⟨_, rfl, .create thresholds, ThroughputController.ranges_create thresholds⟩
  · rintro s input s' ⟨c, hc, ha, hr⟩ hs
    exact (throughput_move_of_step hc ha hs).sound ha hr

/-! ### The accounts -/

namespace ThroughputController

theorem Accounted.counts_iff (h : Accounted c) : c.Counts orderId i ↔
    ∃ order ∈ c.orders, order.orderId = orderId ∧ order.metric = i := by
  constructor
  · rintro ⟨metric, hm, ho⟩
    exact (h.orders i metric hm orderId).mp ho
  · rintro ⟨order, ho, rfl, rfl⟩
    have hm := List.getElem?_eq_getElem (h.metric order ho)
    exact ⟨_, hm, (h.orders _ _ hm _).mpr ⟨order, ho, rfl, rfl⟩⟩

/-- An order is counted in one range at most. -/
theorem Accounted.counts_unique (h : Accounted c) {j : ℕ} (hi : c.Counts orderId i)
    (hj : c.Counts orderId j) : i = j := by
  obtain ⟨order, ho, rfl, rfl⟩ := h.counts_iff.mp hi
  obtain ⟨order', ho', he, rfl⟩ := h.counts_iff.mp hj
  rw [eq_of_orderId_eq h.nodup ho' ho he]

theorem Accounted.currentlyLocked_nonneg (h : Accounted c)
    (hv : ∀ order ∈ c.orders, 0 ≤ order.usdValue) : ∀ metric ∈ c.metrics,
      0 ≤ metric.currentlyLocked := by
  intro metric hm
  obtain ⟨i, hi⟩ := List.mem_iff_getElem?.mp hm
  rw [h.currentlyLocked i metric hi]
  apply List.sum_nonneg
  intro value hvalue
  obtain ⟨order, ho, rfl⟩ := List.mem_map.mp hvalue
  exact hv order (List.mem_filter.mp ho).1

end ThroughputController

/-- A record is an old one, or that of the order which is added. -/
theorem ThroughputMove.orders_of (hm : ThroughputMove s c input s')
    (hc' : s'.controller = .ok c') {order : OrderRecord} (ho : order ∈ c'.orders) :
    order ∈ c.orders ∨ ∃ n, input = .addOrder order.orderId n order.usdValue := by
  cases hm with
  | passed | elapsed =>
    obtain rfl := Except.ok.inj hc'
    exact .inl ho
  | added orderId n usdValue threshold i timer c₁ h ht hu =>
    obtain rfl := Except.ok.inj hc'
    rcases hu.mem_added.mp ho with ⟨ho, -⟩ | rfl
    · exact .inl ho
    · exact .inr ⟨n, rfl⟩
  | removed orderId c₁ hu =>
    obtain rfl := Except.ok.inj hc'
    exact .inl (hu.mem_removed.mp ho).1
  | fired n timer c₁ h hdue hu =>
    obtain rfl := Except.ok.inj hc'
    exact .inl (hu.mem_removed.mp ho).1

/-- Records have values that were added. -/
theorem throughput_values (h : (throughput thresholds).Run t s)
    (hv : ∀ orderId n usdValue, .addOrder orderId n usdValue ∈ t → 0 ≤ usdValue)
    (hc : s.controller = .ok c) : ∀ order ∈ c.orders, 0 ≤ order.usdValue := by
  induction h generalizing c with
  | nil =>
    obtain rfl := Except.ok.inj hc
    intro order ho
    cases ho
  | snoc hr hs ih =>
    rename_i input s'
    intro order ho
    obtain ⟨c₀, hc₀, ha, -⟩ := throughput_sound hr
    rcases (throughput_move_of_step hc₀ ha hs).orders_of hc ho with ho | ⟨n, rfl⟩
    · refine ih (fun orderId n usdValue hm => ?_) hc₀ order ho
      exact hv orderId n usdValue (List.mem_append_left _ hm)
    · exact hv _ n _ (List.mem_append_right _ (List.mem_singleton_self _))

/-- In every run the process is not killed, the counters and sets are those of the records, an
order is in one range at most, and nothing negative is locked unless it was added. -/
theorem throughput_accounted (h : (throughput thresholds).Run t s) :
    ∃ c, s.controller = .ok c ∧ c.Accounted ∧
      (∀ orderId i j, c.Counts orderId i → c.Counts orderId j → i = j) ∧
      ((∀ orderId n usdValue, .addOrder orderId n usdValue ∈ t → 0 ≤ usdValue) →
        ∀ metric ∈ c.metrics, 0 ≤ metric.currentlyLocked) := by
  obtain ⟨c, hc, ha, -⟩ := throughput_sound h
  refine ⟨c, hc, ha, fun orderId i j => ha.counts_unique, fun hv => ?_⟩
  exact ha.currentlyLocked_nonneg (throughput_values h hv hc)

/-- Two ranges, of which the upper one is not active, for runs on fixed inputs. -/
def Sample.twoRanges : List Threshold := [⟨1, 100, 30⟩, ⟨10, 0, 0⟩]

/-- The order is added again and removed by the timer of the first addition. -/
def Sample.readded : List ThroughputInput :=
  [.addOrder "o" 1 60, .elapse 20000, .addOrder "o" 1 70, .elapse 10000, .timer 0]

theorem throughput_accounted_readded :
    ∃ s, (throughput Sample.twoRanges).Run Sample.readded s ∧
      ∃ c, s.controller = .ok c ∧ c.Accounted ∧
        (∀ orderId i j, c.Counts orderId i → c.Counts orderId j → i = j) ∧
        ((∀ orderId n usdValue, .addOrder orderId n usdValue ∈ Sample.readded → 0 ≤ usdValue) →
          ∀ metric ∈ c.metrics, 0 ≤ metric.currentlyLocked) := by
  apply Machine.exists_run_and
  · decide +kernel
  · intro s hr
    exact throughput_accounted hr

/-! ### The range an order is counted in -/

theorem inForce_iff : InForce (sortThresholds thresholds) n i ↔
    ∃ threshold, getRange (sortThresholds thresholds) n = some (threshold, i) := by
  simp only [InForce, getRange_eq_some_iff sortThresholds_sorted]

/-- Right after an order has been added it is counted in its current range if that is active, and
nowhere else, if and only if there is such a range or the order was counted nowhere before. -/
theorem counted_in_current_range_iff (h : (throughput thresholds).Run t s)
    (hs : throughputStep s (.addOrder orderId n usdValue) = some s') :
    ∃ c c', s.controller = .ok c ∧ s'.controller = .ok c' ∧
      ((∀ i, c'.Counts orderId i ↔ InForce (sortThresholds thresholds) n i) ↔
        (∃ i, InForce (sortThresholds thresholds) n i) ∨ ∀ i, ¬ c.Counts orderId i) := by
  obtain ⟨c, hc, ha, hr⟩ := throughput_sound h
  have hrange : c.getMetric n = getRange (sortThresholds thresholds) n := by
    rw [ThroughputController.getMetric, hr]
  simp only [inForce_iff, ← hrange]
  cases throughput_move_of_step hc ha hs with
  | passed _ _ _ hm =>
    refine ⟨c, c, hc, rfl, ?_⟩
    simp [hm]
  | added _ _ _ threshold i timer c' hm ht hu =>
    refine ⟨c, c', hc, rfl, iff_of_true (fun j => ?_) (.inl ⟨i, threshold, hm⟩)⟩
    rw [hu.accounted.counts_iff, hm]
    constructor
    · rintro ⟨order, ho, hid, rfl⟩
      rcases hu.mem_added.mp ho with ⟨-, hne⟩ | rfl
      · exact absurd hid hne
      · exact ⟨threshold, rfl⟩
    · rintro ⟨other, heq⟩
      obtain ⟨-, rfl⟩ := Prod.mk.inj (Option.some.inj heq)
      exact ⟨_, hu.mem_added.mpr (.inr rfl), rfl, rfl⟩

theorem counted_in_current_range_iff_first :
    ∃ s s', (throughput Sample.twoRanges).Run [] s ∧
      throughputStep s (.addOrder "o" 1 60) = some s' ∧
      ∃ c c', s.controller = .ok c ∧ s'.controller = .ok c' ∧
        ((∀ i, c'.Counts "o" i ↔ InForce (sortThresholds Sample.twoRanges) 1 i) ↔
          (∃ i, InForce (sortThresholds Sample.twoRanges) 1 i) ∨ ∀ i, ¬ c.Counts "o" i) :=
  ⟨_, _, .nil, rfl, counted_in_current_range_iff .nil rfl⟩

/-- Once the order has reached the range that is not active, it still counts in the lower one. -/
theorem counted_in_left_range :
    ∃ s c, (throughput Sample.twoRanges).Run [.addOrder "o" 1 60, .addOrder "o" 10 60] s ∧
      s.controller = .ok c ∧ c.Counts "o" 1 ∧ ¬ InForce (sortThresholds Sample.twoRanges) 10 1 ∧
      ¬ ∀ i, c.Counts "o" i ↔ InForce (sortThresholds Sample.twoRanges) 10 i := by
  have hexec : ((throughput Sample.twoRanges).exec (throughput Sample.twoRanges).init
      [.addOrder "o" 1 60, .addOrder "o" 10 60]).any (fun s =>
        s.controller.toOption.any fun c => decide (c.Counts "o" 1)) = true := by
    decide +kernel
  obtain ⟨s, hr, hp⟩ := Machine.exists_run_of_any hexec
  obtain ⟨c, hc, -⟩ := throughput_sound hr
  have hcounts : c.Counts "o" 1 := by
    rw [hc] at hp
    exact of_decide_eq_true hp
  have hforce : ¬ InForce (sortThresholds Sample.twoRanges) 10 1 := by
    rw [inForce_iff]
    rintro ⟨threshold, h⟩
    have hnone : getRange (sortThresholds Sample.twoRanges) 10 = none := by decide +kernel
    rw [hnone] at h
    cases h
  exact ⟨s, c, hr, hc, hcounts, hforce, fun h => hforce ((h 1).mp hcounts)⟩

end DlnTaker
