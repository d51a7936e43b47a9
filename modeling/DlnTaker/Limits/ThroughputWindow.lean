import DlnTaker.Limits.ThroughputRuns

/-! # The time window of an order

An order is counted until the timer of its last addition goes off. A timer only
knows the order, and a record that replaces another one leaves the timer of that
one armed. The full window is kept where no such timer is due before its end.
-/

namespace DlnTaker

def ThroughputCall.orderId : ThroughputCall → OrderId
  | .added _ orderId _ _ => orderId
  | .removed orderId => orderId

/-- The last call about an order. -/
def lastCall (orderId : OrderId) (log : List ThroughputCall) : Option ThroughputCall :=
  Journal.latest (fun call => if call.orderId = orderId then some call else none) log

/-- The new timer of an order covers the time window, and no timer of the order that is still armed
is due before the new one. -/
def undisturbed (s : ThroughputRun) : ThroughputInput → Bool
  | .addOrder orderId n _ =>
    s.controller.toOption.all fun c => (c.getMetric n).all fun range =>
      let ms := range.1.throughputTimeWindowSec * 1000
      ms ≤ timerDelay ms && c.timers.all fun timer =>
        timer.orderId ≠ orderId || s.now + timerDelay ms ≤ timer.due
  | _ => true

/-- The timer of a record is armed, due after the window, and due first. -/
structure Windowed (s : ThroughputRun) (c : ThroughputController) : Prop where
  orderId : ∀ order ∈ c.orders, order.timer.orderId = order.orderId
  armed : ∀ order ∈ c.orders, order.timer ∈ c.timers
  first : ∀ order ∈ c.orders, ∀ timer ∈ c.timers, timer.orderId = order.orderId →
    order.timer.due ≤ timer.due
  lasting : ∀ (orderId : OrderId) (addedAt n : ℕ) (usdValue : ℚ) (threshold : Threshold) (i : ℕ),
    lastCall orderId s.log = some (.added addedAt orderId n usdValue) →
    c.getMetric n = some (threshold, i) →
    (∃ order ∈ c.orders, order.orderId = orderId ∧ order.metric = i ∧
      addedAt + threshold.throughputTimeWindowSec * 1000 ≤ order.timer.due) ∨
    addedAt + threshold.throughputTimeWindowSec * 1000 ≤ s.now

variable {c c' : ThroughputController} {s s' : ThroughputRun} {log : List ThroughputCall}
  {call : ThroughputCall} {orderId : OrderId} {usdValue : ℚ} {n i : ℕ} {threshold : Threshold}
  {timer : ThroughputTimer} {thresholds : List Threshold} {input : ThroughputInput}
  {t : List ThroughputInput}

/-- The last call about an order is a new one about it, or was the last one before. -/
theorem lastCall_concat {last : ThroughputCall}
    (h : lastCall orderId (log ++ [call]) = some last) :
    last = call ∨ call.orderId ≠ orderId ∧ lastCall orderId log = some last := by
  rw [lastCall, Journal.latest_concat] at h
  by_cases heq : call.orderId = orderId
  · rw [if_pos heq] at h
    exact .inl (Option.some.inj h).symm
  · rw [if_neg heq] at h
    exact .inr ⟨heq, h⟩

theorem undisturbed_addOrder (hc : s.controller = .ok c)
    (hm : c.getMetric n = some (threshold, i))
    (h : undisturbed s (.addOrder orderId n usdValue) = true) :
    threshold.throughputTimeWindowSec * 1000 ≤
        timerDelay (threshold.throughputTimeWindowSec * 1000) ∧
      ∀ timer ∈ c.timers, timer.orderId = orderId →
        s.now + timerDelay (threshold.throughputTimeWindowSec * 1000) ≤ timer.due := by
  simp only [undisturbed, hc, Except.toOption, Option.all_some, hm, Bool.and_eq_true,
    decide_eq_true_eq, List.all_eq_true, Bool.or_eq_true] at h
  exact ⟨h.1, fun timer ht hid => (h.2 timer ht).resolve_left (not_not.mpr hid)⟩

theorem getMetric_eq_of_ranges (h : c'.ranges = c.ranges) : c'.getMetric n = c.getMetric n := by
  rw [ThroughputController.getMetric, h, ThroughputController.getMetric]

namespace Windowed

theorem passed (h : Windowed s c) (hm : c.getMetric n = none) :
    Windowed ⟨.ok c, s.now, s.log ++ [.added s.now orderId n usdValue]⟩ c := by
  refine ⟨h.orderId, h.armed, h.first, ?_⟩
  intro id addedAt n' usdValue' threshold i hl hm'
  rcases lastCall_concat hl with heq | ⟨-, hl⟩
  · obtain ⟨-, -, rfl, -⟩ := ThroughputCall.added.inj heq
    rw [hm] at hm'
    cases hm'
  · exact h.lasting id addedAt n' usdValue' threshold i hl hm'

theorem added (h : Windowed s c) (hc : s.controller = .ok c)
    (hm : c.getMetric n = some (threshold, i))
    (hu : undisturbed s (.addOrder orderId n usdValue) = true)
    (ht : timer = ⟨orderId, s.now + timerDelay (threshold.throughputTimeWindowSec * 1000)⟩)
    (hc' : Updated c c'
      (c.orders.filter (·.orderId ≠ orderId) ++ [⟨orderId, usdValue, n, timer, i⟩])
      (c.timers ++ [timer])) :
    Windowed ⟨.ok c', s.now, s.log ++ [.added s.now orderId n usdValue]⟩ c' := by
  obtain ⟨hdelay, hdue⟩ := undisturbed_addOrder hc hm hu
  have hid : timer.orderId = orderId := congrArg (·.orderId) ht
  have hend : timer.due = s.now + timerDelay (threshold.throughputTimeWindowSec * 1000) :=
    congrArg (·.due) ht
  constructor
  · intro order ho
    rcases hc'.mem_added.mp ho with ⟨ho, -⟩ | rfl
    · exact h.orderId order ho
    · exact hid
  · intro order ho
    rcases hc'.mem_added.mp ho with ⟨ho, -⟩ | rfl
    · exact hc'.mem_armed.mpr (.inl (h.armed order ho))
    · exact hc'.mem_armed.mpr (.inr rfl)
  · intro order ho other hother hother_id
    rcases hc'.mem_added.mp ho with ⟨ho, hne⟩ | rfl
    · rcases hc'.mem_armed.mp hother with hother | rfl
      · exact h.first order ho other hother hother_id
      · exact absurd (hother_id.symm.trans hid) hne
    · rcases hc'.mem_armed.mp hother with hother | rfl
      · exact hend ▸ hdue other hother hother_id
      · exact le_rfl
  · intro id addedAt n' usdValue' threshold' i' hl hm'
    rw [getMetric_eq_of_ranges hc'.ranges] at hm'
    rcases lastCall_concat hl with heq | ⟨hne, hl⟩
    · obtain ⟨rfl, rfl, rfl, -⟩ := ThroughputCall.added.inj heq
      obtain ⟨rfl, rfl⟩ := Prod.mk.inj (Option.some.inj (hm.symm.trans hm'))
      left
      refine ⟨_, hc'.mem_added.mpr (.inr rfl), rfl, rfl, ?_⟩
      rw [hend, Nat.cast_add]
      exact add_le_add_right hdelay _
    · rcases h.lasting id addedAt n' usdValue' threshold' i' hl hm' with
        ⟨order, ho, rfl, hmetric, hlast⟩ | hlast
      · exact .inl ⟨order, hc'.mem_added.mpr (.inl ⟨ho, hne.symm⟩), rfl, hmetric, hlast⟩
      · exact .inr hlast

theorem removed (h : Windowed s c)
    (hc' : Updated c c' (c.orders.filter (·.orderId ≠ orderId)) c.timers) :
    Windowed ⟨.ok c', s.now, s.log ++ [.removed orderId]⟩ c' := by
  constructor
  · intro order ho
    exact h.orderId order (hc'.mem_removed.mp ho).1
  · intro order ho
    rw [hc'.timers]
    exact h.armed order (hc'.mem_removed.mp ho).1
  · intro order ho timer ht
    rw [hc'.timers] at ht
    exact h.first order (hc'.mem_removed.mp ho).1 timer ht
  · intro id addedAt n' usdValue' threshold' i' hl hm'
    rw [getMetric_eq_of_ranges hc'.ranges] at hm'
    rcases lastCall_concat hl with heq | ⟨hne, hl⟩
    · cases heq
    · rcases h.lasting id addedAt n' usdValue' threshold' i' hl hm' with
        ⟨order, ho, rfl, hmetric, hlast⟩ | hlast
      · exact .inl ⟨order, hc'.mem_removed.mpr ⟨ho, hne.symm⟩, rfl, hmetric, hlast⟩
      · exact .inr hlast

theorem elapsed (h : Windowed s c) (ms : ℕ) : Windowed ⟨.ok c, s.now + ms, s.log⟩ c := by
  refine ⟨h.orderId, h.armed, h.first, ?_⟩
  intro id addedAt n' usdValue' threshold' i' hl hm'
  rcases h.lasting id addedAt n' usdValue' threshold' i' hl hm' with hrecord | hlast
  · exact .inl hrecord
  · right
    have hle : (s.now : ℚ) ≤ (s.now + ms : ℕ) := by exact_mod_cast Nat.le_add_right _ _
    exact hlast.trans hle

/-- Where the timer that goes off has a record, the window of the record is over. -/
theorem fired (h : Windowed s c) (ht : c.timers[n]? = some timer) (hdue : timer.due ≤ s.now)
    (hc' : Updated c c' (c.orders.filter (·.orderId ≠ timer.orderId)) (c.timers.eraseIdx n)) :
    Windowed ⟨.ok c', s.now, s.log⟩ c' := by
  constructor
  · intro order ho
    exact h.orderId order (hc'.mem_removed.mp ho).1
  · intro order ho
    obtain ⟨ho, hne⟩ := hc'.mem_removed.mp ho
    obtain ⟨j, hj⟩ := List.mem_iff_getElem?.mp (h.armed order ho)
    rw [hc'.timers, List.mem_eraseIdx_iff_getElem?]
    refine ⟨j, ?_, hj⟩
    rintro rfl
    have heq : timer = order.timer := Option.some.inj (ht.symm.trans hj)
    have hid : order.orderId = timer.orderId := heq ▸ (h.orderId order ho).symm
    exact hne hid
  · intro order ho other hother
    rw [hc'.timers] at hother
    exact h.first order (hc'.mem_removed.mp ho).1 other (List.mem_of_mem_eraseIdx hother)
  · intro id addedAt n' usdValue' threshold' i' hl hm'
    rw [getMetric_eq_of_ranges hc'.ranges] at hm'
    rcases h.lasting id addedAt n' usdValue' threshold' i' hl hm' with
      ⟨order, ho, rfl, hmetric, hlast⟩ | hlast
    · by_cases hid : timer.orderId = order.orderId
      · right
        have hle : order.timer.due ≤ s.now :=
          (h.first order ho timer (List.mem_of_getElem? ht) hid).trans hdue
        have hle' : (order.timer.due : ℚ) ≤ s.now := by exact_mod_cast hle
        exact hlast.trans hle'
      · exact .inl ⟨order, hc'.mem_removed.mpr ⟨ho, Ne.symm hid⟩, rfl, hmetric, hlast⟩
    · exact .inr hlast

theorem step (h : Windowed s c) (hc : s.controller = .ok c) (hu : undisturbed s input = true)
    (hm : ThroughputMove s c input s') : ∃ c', s'.controller = .ok c' ∧ Windowed s' c' := by
  cases hm with
  | passed orderId n usdValue hm => exact ⟨c, rfl, h.passed hm⟩
  | added orderId n usdValue threshold i timer c' hm ht hc' =>
    exact ⟨c', rfl, h.added hc hm hu ht hc'⟩
  | removed orderId c' hc' => exact ⟨c', rfl, h.removed hc'⟩
  | elapsed ms => exact ⟨c, rfl, h.elapsed ms⟩
  | fired n timer c' ht hdue hc' => exact ⟨c', rfl, h.fired ht hdue hc'⟩

end Windowed

end DlnTaker
