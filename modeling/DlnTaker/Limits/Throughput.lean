import Mathlib.Algebra.BigOperators.Group.Finset.Basic
import Mathlib.Algebra.Order.Floor.Semiring
import Mathlib.Data.List.Sort
import Mathlib.Data.Rat.Floor
import DlnTaker.Library.InsertionSet
import DlnTaker.Orders.Interfaces

/-! # The throughput controller

The controller of a give chain keeps, for every range of block confirmations,
what the orders sent lately are worth together. A record is removed by a timer.
The accounting invariant connects the running totals with the records.
-/

namespace DlnTaker

structure Threshold where
  minBlockConfirmations : ℕ
  maxFulfillThroughputUSD : ℚ
  throughputTimeWindowSec : ℚ
  deriving DecidableEq

def Threshold.isActualMetric (threshold : Threshold) : Bool :=
  0 < threshold.maxFulfillThroughputUSD && 0 < threshold.throughputTimeWindowSec

structure Metric extends Threshold where
  currentlyLocked : ℚ
  orders : InsertionSet OrderId

/-- A pending `setTimeout` callback; the time is in milliseconds. -/
structure ThroughputTimer where
  orderId : OrderId
  due : ℕ
  deriving DecidableEq

/-- The metric of a record is a position in the list of metrics. -/
structure OrderRecord where
  orderId : OrderId
  usdValue : ℚ
  confirmationBlocksCount : ℕ
  timer : ThroughputTimer
  metric : ℕ
  deriving DecidableEq

def Metric.release (metric : Metric) (order : OrderRecord) : Metric :=
  { metric with
    orders := metric.orders.delete order.orderId
    currentlyLocked := metric.currentlyLocked - order.usdValue }

def Metric.lock (metric : Metric) (order : OrderRecord) : Metric :=
  { metric with
    orders := metric.orders.add order.orderId
    currentlyLocked := metric.currentlyLocked + order.usdValue }

structure ThroughputController where
  metrics : List Metric
  orders : List OrderRecord
  timers : List ThroughputTimer

/-- The delay of `setTimeout` in whole milliseconds; a delay out of bounds is set to one. -/
def timerDelay (ms : ℚ) : ℕ := if 1 ≤ ms ∧ ms ≤ 2147483647 then ⌊ms⌋₊ else 1

/-- The ranges in the order in which they are searched. -/
def sortThresholds (thresholds : List Threshold) : List Threshold :=
  thresholds.insertionSort fun b a => a.minBlockConfirmations ≤ b.minBlockConfirmations

/-- The first range an order reaches with its confirmations, and where it stands. -/
def getRange (ranges : List Threshold) (confirmationBlocksCount : ℕ) : Option (Threshold × ℕ) :=
  (ranges.zipIdx.find? fun range => range.1.minBlockConfirmations ≤ confirmationBlocksCount).filter
    fun range => range.1.isActualMetric

namespace ThroughputController

def create (thresholds : List Threshold) : ThroughputController where
  metrics := (sortThresholds thresholds).map (⟨·, 0, .empty⟩)
  orders := []
  timers := []

def ranges (c : ThroughputController) : List Threshold := c.metrics.map (·.toThreshold)

def getMetric (c : ThroughputController) (confirmationBlocksCount : ℕ) : Option (Threshold × ℕ) :=
  getRange c.ranges confirmationBlocksCount

def isThrottled (c : ThroughputController) (confirmationBlocksCount : ℕ) (usdValue : ℚ) : Bool :=
  (c.getMetric confirmationBlocksCount).any fun range =>
    c.metrics[range.2]?.any fun metric =>
      metric.maxFulfillThroughputUSD < metric.currentlyLocked + usdValue

/-- The record is deleted and no longer counted in its metric. -/
def release (c : ThroughputController) (order : OrderRecord) : ThroughputController :=
  { c with
    orders := c.orders.filter (·.orderId ≠ order.orderId)
    metrics := c.metrics.modify order.metric (Metric.release · order) }

def removeOrder (c : ThroughputController) (orderId : OrderId) :
    Except Crash ThroughputController :=
  match c.orders.find? (·.orderId = orderId) with
  | none => .ok c
  | some order =>
    if c.metrics[order.metric]?.any fun metric => orderId ∈ metric.orders then
      .ok (c.release order)
    else .error (.die s!"order {orderId} unexpectedly missing in the range")

/-- The record is stored and counted in its metric, and its timer is armed. -/
def insert (c : ThroughputController) (order : OrderRecord) : ThroughputController where
  metrics := c.metrics.modify order.metric (Metric.lock · order)
  orders := c.orders ++ [order]
  timers := c.timers ++ [order.timer]

def addOrder (c : ThroughputController) (now : ℕ) (orderId : OrderId)
    (confirmationBlocksCount : ℕ) (usdValue : ℚ) : Except Crash ThroughputController :=
  match c.getMetric confirmationBlocksCount with
  | none => .ok c
  | some (threshold, metric) => do
    let c ← c.removeOrder orderId
    let timer := ⟨orderId, now + timerDelay (threshold.throughputTimeWindowSec * 1000)⟩
    return c.insert { orderId, usdValue, confirmationBlocksCount, timer, metric }

/-- The callback of the n-th armed timer, once it is due. -/
def onTimer (c : ThroughputController) (now n : ℕ) : Option (Except Crash ThroughputController) :=
  match c.timers[n]? with
  | some timer =>
    if timer.due ≤ now then
      some (removeOrder { c with timers := c.timers.eraseIdx n } timer.orderId)
    else none
  | none => none

/-- What the records of a metric are worth together. -/
def lockedIn (orders : List OrderRecord) (i : ℕ) : ℚ :=
  ((orders.filter (·.metric = i)).map (·.usdValue)).sum

/-- The running totals are those of the records, and no order has two records. -/
structure Accounted (c : ThroughputController) : Prop where
  nodup : (c.orders.map (·.orderId)).Nodup
  metric : ∀ order ∈ c.orders, order.metric < c.metrics.length
  currentlyLocked : ∀ i metric, c.metrics[i]? = some metric →
    metric.currentlyLocked = lockedIn c.orders i
  orders : ∀ i metric, c.metrics[i]? = some metric → ∀ orderId,
    orderId ∈ metric.orders ↔ ∃ order ∈ c.orders, order.orderId = orderId ∧ order.metric = i

section Records

variable {orders : List OrderRecord} {order : OrderRecord} {i : ℕ}

theorem lockedIn_concat :
    lockedIn (orders ++ [order]) i =
      lockedIn orders i + if order.metric = i then order.usdValue else 0 := by
  by_cases h : order.metric = i <;> simp [lockedIn, List.filter_append, h]

theorem eq_of_orderId_eq {order' : OrderRecord} (hn : (orders.map (·.orderId)).Nodup)
    (ho : order ∈ orders) (ho' : order' ∈ orders) (h : order.orderId = order'.orderId) :
    order = order' :=
  List.inj_on_of_nodup_map hn ho ho' h

/-- Take out the only record of an order. -/
theorem perm_cons_filter (hn : (orders.map (·.orderId)).Nodup) (ho : order ∈ orders) :
    orders.Perm (order :: orders.filter (·.orderId ≠ order.orderId)) := by
  induction orders with
  | nil => cases ho
  | cons a orders ih =>
    obtain ⟨ha, hn⟩ := List.nodup_cons.mp hn
    rcases List.mem_cons.mp ho with rfl | ho
    · have hkeep : orders.filter (·.orderId ≠ order.orderId) = orders := by
        rw [List.filter_eq_self]
        intro b hb
        have hne : b.orderId ≠ order.orderId := fun he =>
          ha (List.mem_map.mpr ⟨b, hb, he⟩)
        simpa using hne
      rw [List.filter_cons_of_neg (by simp), hkeep]
    · have hne : a.orderId ≠ order.orderId := fun he =>
        ha (List.mem_map.mpr ⟨order, ho, he.symm⟩)
      rw [List.filter_cons_of_pos (by simpa using hne)]
      exact ((ih hn ho).cons a).trans (.swap order a _)

theorem lockedIn_filter (hn : (orders.map (·.orderId)).Nodup) (ho : order ∈ orders) :
    lockedIn (orders.filter (·.orderId ≠ order.orderId)) i =
      lockedIn orders i - if order.metric = i then order.usdValue else 0 := by
  have hp := (((perm_cons_filter hn ho).filter (·.metric = i)).map (·.usdValue)).sum_eq
  unfold lockedIn
  rw [hp]
  by_cases h : order.metric = i <;> simp [h]

end Records

section Operations

variable {c c' : ThroughputController} {order : OrderRecord} {orderId : OrderId} {i n : ℕ}
  {metric : Metric} {threshold : Threshold}

@[simp] theorem ranges_create (thresholds : List Threshold) :
    (create thresholds).ranges = sortThresholds thresholds := by
  simp [create, ranges, Function.comp_def]

theorem getRange_eq_some {ranges : List Threshold} (h : getRange ranges n = some (threshold, i)) :
    ranges[i]? = some threshold ∧ threshold.isActualMetric = true ∧
      threshold.minBlockConfirmations ≤ n := by
  obtain ⟨hf, ha⟩ := Option.filter_eq_some_iff.mp h
  have hm := List.mk_mem_zipIdx_iff_getElem?.mp (List.mem_of_find?_eq_some hf)
  have hn := List.find?_some hf
  exact ⟨hm, ha, by simpa using hn⟩

theorem exists_metric (h : c.getMetric n = some (threshold, i)) :
    ∃ metric, c.metrics[i]? = some metric ∧ metric.toThreshold = threshold := by
  have hr := (getRange_eq_some h).1
  rw [ranges, List.getElem?_map] at hr
  exact Option.map_eq_some_iff.mp hr

/-- An order that is not throttled fits beside what is locked in its range. -/
theorem le_of_not_isThrottled {usdValue : ℚ} (h : c.isThrottled n usdValue = false)
    (hr : c.getMetric n = some (threshold, i)) (hm : c.metrics[i]? = some metric) :
    metric.currentlyLocked + usdValue ≤ threshold.maxFulfillThroughputUSD := by
  obtain ⟨metric', hm', rfl⟩ := exists_metric hr
  obtain rfl : metric' = metric := Option.some.inj (hm'.symm.trans hm)
  simpa [isThrottled, hr, hm] using h

/-- An update of one metric that keeps its threshold keeps the ranges. -/
theorem map_toThreshold_modify {metrics : List Metric} {f : Metric → Metric}
    (hf : ∀ metric, (f metric).toThreshold = metric.toThreshold) :
    (metrics.modify i f).map (·.toThreshold) = metrics.map (·.toThreshold) := by
  ext1 j
  rw [List.getElem?_map, List.getElem?_map, List.getElem?_modify]
  cases metrics[j]? with
  | none => rfl
  | some metric => by_cases h : i = j <;> simp [h, hf]

theorem getElem?_modify_eq_some {metrics : List Metric} {f : Metric → Metric} {j : ℕ}
    (h : (metrics.modify j f)[i]? = some metric) :
    ∃ old, metrics[i]? = some old ∧ metric = if j = i then f old else old := by
  rw [List.getElem?_modify] at h
  obtain ⟨old, ho, rfl⟩ := Option.map_eq_some_iff.mp h
  refine ⟨old, ho, ?_⟩
  split <;> rfl

theorem Accounted.create (thresholds : List Threshold) : Accounted (create thresholds) := by
  have hm : ∀ (i : ℕ) (metric : Metric),
      (ThroughputController.create thresholds).metrics[i]? = some metric →
        metric.currentlyLocked = 0 ∧ metric.orders = .empty := by
    intro i metric h
    obtain ⟨threshold, -, rfl⟩ := Option.map_eq_some_iff.mp ((List.getElem?_map ..).symm.trans h)
    exact ⟨rfl, rfl⟩
  constructor
  · exact .nil
  · intro order ho
    cases ho
  · intro i metric h
    exact (hm i metric h).1
  · intro i metric h orderId
    simp [(hm i metric h).2, ThroughputController.create]

/-- The record that goes is the only one of its order. -/
theorem exists_record_filter (hn : (c.orders.map (·.orderId)).Nodup) (ho : order ∈ c.orders) :
    (∃ a ∈ c.orders.filter (·.orderId ≠ order.orderId), a.orderId = orderId ∧ a.metric = i) ↔
      (∃ a ∈ c.orders, a.orderId = orderId ∧ a.metric = i) ∧
        (order.metric = i → orderId ≠ order.orderId) := by
  simp only [List.mem_filter, decide_eq_true_eq]
  constructor
  · rintro ⟨a, ⟨ha, hne⟩, rfl, rfl⟩
    exact ⟨⟨a, ha, rfl, rfl⟩, fun _ => hne⟩
  · rintro ⟨⟨a, ha, rfl, rfl⟩, hne⟩
    refine ⟨a, ⟨ha, fun he => ?_⟩, rfl, rfl⟩
    obtain rfl := eq_of_orderId_eq hn ha ho he
    exact hne rfl rfl

theorem Accounted.release (h : Accounted c) (ho : order ∈ c.orders) :
    Accounted (c.release order) := by
  constructor
  · exact h.nodup.sublist (List.filter_sublist.map _)
  · intro a ha
    rw [ThroughputController.release, List.length_modify]
    exact h.metric a (List.mem_filter.mp ha).1
  · intro i metric hi
    obtain ⟨old, hold, rfl⟩ := getElem?_modify_eq_some hi
    rw [ThroughputController.release, lockedIn_filter h.nodup ho,
      ← h.currentlyLocked i old hold]
    split <;> simp [Metric.release]
  · intro i metric hi orderId
    obtain ⟨old, hold, rfl⟩ := getElem?_modify_eq_some hi
    rw [ThroughputController.release, exists_record_filter h.nodup ho,
      ← h.orders i old hold orderId]
    split
    · rename_i hi
      simp [Metric.release, hi, and_comm]
    · rename_i hi
      simp [hi]

/-- The assertion never fails, and what is removed is the record of the order. -/
theorem Accounted.removeOrder (h : Accounted c) (orderId : OrderId) :
    ∃ c', c.removeOrder orderId = .ok c' ∧ Accounted c' ∧ c'.ranges = c.ranges ∧
      c'.orders = c.orders.filter (·.orderId ≠ orderId) := by
  unfold ThroughputController.removeOrder
  cases hf : c.orders.find? (·.orderId = orderId) with
  | none =>
    refine ⟨c, rfl, h, rfl, (List.filter_eq_self.mpr ?_).symm⟩
    simpa using hf
  | some order =>
    have ho : order ∈ c.orders := List.mem_of_find?_eq_some hf
    obtain rfl : order.orderId = orderId := by simpa using List.find?_some hf
    obtain ⟨metric, hm⟩ : ∃ metric, c.metrics[order.metric]? = some metric :=
      ⟨_, List.getElem?_eq_getElem (h.metric order ho)⟩
    have hin : order.orderId ∈ metric.orders := (h.orders _ _ hm _).mpr ⟨order, ho, rfl, rfl⟩
    simp only [hm, Option.any_some, decide_eq_true hin, if_true]
    exact ⟨_, rfl, h.release ho, map_toThreshold_modify fun _ => rfl, rfl⟩

theorem Accounted.insert (h : Accounted c) (hm : order.metric < c.metrics.length)
    (hn : ∀ a ∈ c.orders, a.orderId ≠ order.orderId) : Accounted (c.insert order) := by
  constructor
  · rw [ThroughputController.insert, List.map_append]
    apply h.nodup.append (by simp)
    simpa using hn
  · intro a ha
    rw [ThroughputController.insert, List.length_modify]
    rcases List.mem_append.mp ha with ha | ha
    · exact h.metric a ha
    · obtain rfl := List.mem_singleton.mp ha
      exact hm
  · intro i metric hi
    obtain ⟨old, hold, rfl⟩ := getElem?_modify_eq_some hi
    rw [ThroughputController.insert, lockedIn_concat, ← h.currentlyLocked i old hold]
    split <;> simp [Metric.lock]
  · intro i metric hi orderId
    obtain ⟨old, hold, rfl⟩ := getElem?_modify_eq_some hi
    have hold := h.orders i old hold orderId
    simp only [ThroughputController.insert, List.mem_append, List.mem_singleton, or_and_right,
      exists_or, exists_eq_left, ← hold]
    split
    · rename_i hi
      simp [Metric.lock, hi, or_comm, eq_comm]
    · rename_i hi
      simp [hi]

/-- After `addOrder` the order has a record in its present range, if that is active. -/
theorem Accounted.addOrder (h : Accounted c) (now : ℕ) (orderId : OrderId) (n : ℕ)
    (usdValue : ℚ) : ∃ c', c.addOrder now orderId n usdValue = .ok c' ∧ Accounted c' ∧
      c'.ranges = c.ranges ∧ ∀ order ∈ c'.orders,
        order ∈ c.orders ∨ order.orderId = orderId ∧ order.usdValue = usdValue := by
  unfold ThroughputController.addOrder
  cases hr : c.getMetric n with
  | none => exact ⟨c, rfl, h, rfl, fun order ho => .inl ho⟩
  | some range =>
    obtain ⟨threshold, i⟩ := range
    obtain ⟨c', hc, h', hranges, horders⟩ := h.removeOrder orderId
    obtain ⟨metric, hm, -⟩ := exists_metric hr
    have hlen : c'.metrics.length = c.metrics.length := by
      simpa [ranges] using congrArg List.length hranges
    simp only [hc]
    refine ⟨_, rfl, h'.insert ?_ ?_, ?_, ?_⟩
    · rw [hlen]
      exact (List.getElem?_eq_some_iff.mp hm).1
    · intro a ha
      rw [horders] at ha
      simpa using (List.mem_filter.mp ha).2
    · rw [← hranges]
      exact map_toThreshold_modify fun _ => rfl
    · intro order ho
      rcases List.mem_append.mp ho with ho | ho
      · rw [horders] at ho
        exact .inl (List.mem_filter.mp ho).1
      · obtain rfl := List.mem_singleton.mp ho
        exact .inr ⟨rfl, rfl⟩

theorem Accounted.onTimer (h : Accounted c) {now : ℕ} {result : Except Crash ThroughputController}
    (ht : c.onTimer now n = some result) : ∃ c', result = .ok c' ∧ Accounted c' ∧
      c'.ranges = c.ranges ∧ ∀ order ∈ c'.orders, order ∈ c.orders := by
  simp only [ThroughputController.onTimer] at ht
  split at ht
  · split at ht
    · have h' : Accounted { c with timers := c.timers.eraseIdx n } :=
        ⟨h.nodup, h.metric, h.currentlyLocked, h.orders⟩
      rename_i timer _ _
      obtain ⟨c', hc, hacc, hranges, horders⟩ := h'.removeOrder timer.orderId
      refine ⟨c', (Option.some.inj ht).symm.trans hc, hacc, hranges, fun order ho => ?_⟩
      rw [horders] at ho
      exact (List.mem_filter.mp ho).1
    · cases ht
  · cases ht

end Operations

end ThroughputController

end DlnTaker
