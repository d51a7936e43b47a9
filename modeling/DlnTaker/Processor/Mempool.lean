import Mathlib.Data.List.Nodup
import Mathlib.Logic.Function.Basic
import DlnTaker.Orders.Interfaces

/-! # The mempool of postponed orders

`MempoolService` arms one timer for each tracked order. The armed timers of the
event loop and the map of tracked orders are updated separately; the structure
carries the proof that they agree.
-/

namespace DlnTaker

/-- A pending `setTimeout` callback of the mempool; the delay is in seconds. -/
structure Timer where
  id : ℕ
  orderId : OrderId
  delay : ℚ
  deriving DecidableEq

structure MempoolService where
  timers : List Timer
  trackedOrders : OrderId → Option ℕ
  nextTimer : ℕ
  fresh : ∀ t ∈ timers, t.id < nextTimer
  distinct : (timers.map Timer.id).Nodup
  tracked_iff : ∀ orderId n, trackedOrders orderId = some n ↔
    ∃ t ∈ timers, t.orderId = orderId ∧ t.id = n

namespace MempoolService

def baseDelay : ℚ := 5
def baseArchivalDelay : ℚ := 60 * 2
def delayStep : ℚ := 10
def archivalDelayStep : ℚ := 60 * 5

def empty : MempoolService where
  timers := []
  trackedOrders _ := none
  nextTimer := 0
  fresh := by simp
  distinct := by simp
  tracked_iff := by simp

variable {m : MempoolService} {orderId : OrderId} {t t' : Timer}

theorem eq_of_id_eq (ht : t ∈ m.timers) (ht' : t' ∈ m.timers) (h : t.id = t'.id) : t = t' :=
  List.inj_on_of_nodup_map m.distinct ht ht' h

theorem tracked_of_mem (ht : t ∈ m.timers) : m.trackedOrders t.orderId = some t.id :=
  (m.tracked_iff _ _).mpr ⟨t, ht, rfl, rfl⟩

/-- The timers left after `clearTimeout(this.#trackedOrders.get(orderId))`. -/
def clearTimeout (m : MempoolService) (orderId : OrderId) : List Timer :=
  match m.trackedOrders orderId with
  | some n => m.timers.filter (·.id ≠ n)
  | none => m.timers

theorem mem_clearTimeout : t ∈ m.clearTimeout orderId ↔ t ∈ m.timers ∧ t.orderId ≠ orderId := by
  unfold clearTimeout
  cases h : m.trackedOrders orderId with
  | none =>
    refine ⟨fun ht => ⟨ht, ?_⟩, And.left⟩
    rintro rfl
    simp [tracked_of_mem ht] at h
  | some n =>
    obtain ⟨u, hu, ho, hn⟩ := (m.tracked_iff _ _).mp h
    simp only [List.mem_filter, decide_eq_true_eq]
    refine and_congr_right fun ht => not_congr ⟨fun he => ?_, fun he => ?_⟩
    · rw [eq_of_id_eq ht hu (he.trans hn.symm), ho]
    · have := tracked_of_mem ht
      rw [he, h] at this
      exact (Option.some.inj this).symm

theorem clearTimeout_sublist : (m.clearTimeout orderId).Sublist m.timers := by
  unfold clearTimeout
  split
  · exact List.filter_sublist
  · exact List.Sublist.refl _

/-- Arm a timer for the order in place of the one it had. -/
def addOrder (m : MempoolService) (orderId : OrderId) (delay : ℚ) : MempoolService where
  timers := m.clearTimeout orderId ++ [⟨m.nextTimer, orderId, delay⟩]
  trackedOrders := Function.update m.trackedOrders orderId (some m.nextTimer)
  nextTimer := m.nextTimer + 1
  fresh := by
    intro t ht
    rcases List.mem_append.mp ht with ht | ht
    · exact Nat.lt_succ_of_lt (m.fresh t (mem_clearTimeout.mp ht).1)
    · obtain rfl := List.mem_singleton.mp ht
      exact Nat.lt_succ_self _
  distinct := by
    rw [List.map_append]
    apply (m.distinct.sublist (clearTimeout_sublist.map _)).append (by simp)
    simp only [List.map_cons, List.map_nil, List.disjoint_singleton, List.mem_map, not_exists,
      not_and]
    intro t ht he
    exact absurd (m.fresh t (mem_clearTimeout.mp ht).1) (by omega)
  tracked_iff := by
    intro o n
    simp only [List.mem_append, mem_clearTimeout, List.mem_singleton]
    by_cases ho : o = orderId
    · subst o
      simp only [Function.update_self, Option.some.injEq]
      constructor
      · rintro rfl; exact ⟨_, .inr rfl, rfl, rfl⟩
      · rintro ⟨t, ⟨_, hne⟩ | rfl, h, hn⟩
        · exact absurd h hne
        · exact hn
    · rw [Function.update_of_ne ho, m.tracked_iff]
      constructor
      · rintro ⟨t, ht, rfl, hn⟩; exact ⟨t, .inl ⟨ht, ho⟩, rfl, hn⟩
      · rintro ⟨t, ⟨ht, _⟩ | rfl, h, hn⟩
        · exact ⟨t, ht, h, hn⟩
        · exact absurd h.symm ho

def delayArchivalOrder (m : MempoolService) (orderId : OrderId) (attempt : ℕ) : MempoolService :=
  m.addOrder orderId (baseArchivalDelay + archivalDelayStep * ((attempt : ℚ) - 1))

def delayOrder (m : MempoolService) (orderId : OrderId) (attempt : ℕ) : MempoolService :=
  m.addOrder orderId (baseDelay + delayStep * ((attempt : ℚ) - 1))

theorem tracked_iff_clearTimeout (o : OrderId) (n : ℕ) :
    Function.update m.trackedOrders orderId none o = some n ↔
      ∃ t ∈ m.clearTimeout orderId, t.orderId = o ∧ t.id = n := by
  simp only [mem_clearTimeout]
  by_cases ho : o = orderId
  · subst o
    simp only [Function.update_self, reduceCtorEq, false_iff]
    rintro ⟨t, ⟨_, hne⟩, h, _⟩
    exact hne h
  · rw [Function.update_of_ne ho, m.tracked_iff]
    constructor
    · rintro ⟨t, ht, rfl, hn⟩; exact ⟨t, ⟨ht, ho⟩, rfl, hn⟩
    · rintro ⟨t, ⟨ht, _⟩, h, hn⟩; exact ⟨t, ht, h, hn⟩

def delete (m : MempoolService) (orderId : OrderId) : MempoolService where
  timers := m.clearTimeout orderId
  trackedOrders := Function.update m.trackedOrders orderId none
  nextTimer := m.nextTimer
  fresh t ht := m.fresh t (mem_clearTimeout.mp ht).1
  distinct := m.distinct.sublist (clearTimeout_sublist.map _)
  tracked_iff := tracked_iff_clearTimeout

theorem clearTimeout_eq_filter (ht : t ∈ m.timers) :
    m.clearTimeout t.orderId = m.timers.filter (·.id ≠ t.id) := by
  simp only [clearTimeout, tracked_of_mem ht]

/-- A due timer leaves the event loop and its callback untracks the order. -/
def expire (m : MempoolService) (t : Timer) (ht : t ∈ m.timers) : MempoolService where
  timers := m.timers.filter (·.id ≠ t.id)
  trackedOrders := Function.update m.trackedOrders t.orderId none
  nextTimer := m.nextTimer
  fresh u hu := m.fresh u (List.mem_of_mem_filter hu)
  distinct := m.distinct.sublist (List.filter_sublist.map _)
  tracked_iff := by rw [← clearTimeout_eq_filter ht]; exact tracked_iff_clearTimeout

/-- The `n`-th timer fires: the mempool afterwards and the order handed to the consumer. -/
def fire (m : MempoolService) (n : ℕ) : Option (MempoolService × Option OrderId) :=
  match h : m.timers.find? (·.id = n) with
  | none => none
  | some t =>
    -- an untracked order is not consumed, and untracking it again changes nothing
    some (m.expire t (List.mem_of_find?_eq_some h),
      if (m.trackedOrders t.orderId).isSome then some t.orderId else none)

/-- Some armed timer is for the order. -/
def Armed (m : MempoolService) (orderId : OrderId) : Prop := ∃ t ∈ m.timers, t.orderId = orderId

instance : Decidable (m.Armed orderId) := inferInstanceAs (Decidable (∃ t ∈ m.timers, _))

@[simp] theorem not_armed_empty : ¬ empty.Armed orderId := by simp [Armed, empty]

@[simp] theorem armed_addOrder {o : OrderId} {delay : ℚ} :
    (m.addOrder orderId delay).Armed o ↔ o = orderId ∨ m.Armed o := by
  simp only [Armed, addOrder, List.mem_append, mem_clearTimeout, List.mem_singleton]
  constructor
  · rintro ⟨t, ⟨ht, _⟩ | rfl, rfl⟩
    · exact .inr ⟨t, ht, rfl⟩
    · exact .inl rfl
  · rintro (rfl | ⟨t, ht, rfl⟩)
    · exact ⟨_, .inr rfl, rfl⟩
    · by_cases h : t.orderId = orderId
      · exact ⟨_, .inr rfl, h.symm⟩
      · exact ⟨t, .inl ⟨ht, h⟩, rfl⟩

@[simp] theorem armed_delete {o : OrderId} :
    (m.delete orderId).Armed o ↔ o ≠ orderId ∧ m.Armed o := by
  simp only [Armed, delete, mem_clearTimeout]
  constructor
  · rintro ⟨t, ⟨ht, hne⟩, rfl⟩; exact ⟨hne, t, ht, rfl⟩
  · rintro ⟨hne, t, ht, rfl⟩; exact ⟨t, ⟨ht, hne⟩, rfl⟩

@[simp] theorem armed_expire {o : OrderId} (ht : t ∈ m.timers) :
    (m.expire t ht).Armed o ↔ o ≠ t.orderId ∧ m.Armed o := by
  rw [← armed_delete]
  simp only [Armed, expire, delete, clearTimeout_eq_filter ht]

/-- An armed timer is for a tracked order, so its callback always consumes the order. -/
theorem fire_eq_some {n : ℕ} {m' : MempoolService} {consumed : Option OrderId}
    (h : m.fire n = some (m', consumed)) :
    ∃ t, ∃ ht : t ∈ m.timers, t.id = n ∧ m' = m.expire t ht ∧ consumed = some t.orderId := by
  unfold fire at h
  split at h
  · simp at h
  · rename_i t hf
    have ht := List.mem_of_find?_eq_some hf
    simp only [tracked_of_mem ht, Option.isSome_some, if_true, Option.some.injEq,
      Prod.mk.injEq] at h
    exact ⟨t, ht, by simpa using List.find?_some hf, h.1.symm, h.2.symm⟩

theorem tracked_ne_of_fire_eq_none {n : ℕ} (h : m.fire n = none) :
    m.trackedOrders orderId ≠ some n := by
  intro htracked
  obtain ⟨t, ht, -, hid⟩ := (m.tracked_iff _ _).mp htracked
  unfold fire at h
  split at h
  · rename_i hf
    exact List.find?_eq_none.mp hf t ht (decide_eq_true hid)
  · cases h

/-- An order has one armed timer if it is tracked, and none otherwise. -/
theorem count_timers : (m.timers.map Timer.orderId).count orderId =
    if (m.trackedOrders orderId).isSome then 1 else 0 := by
  have hinj : ∀ t ∈ m.timers, ∀ t' ∈ m.timers, t.orderId = t'.orderId → t = t' := by
    intro t ht t' ht' ho
    have hid := tracked_of_mem ht
    rw [ho, tracked_of_mem ht'] at hid
    exact eq_of_id_eq ht ht' (Option.some.inj hid).symm
  have hmem : orderId ∈ m.timers.map Timer.orderId ↔ (m.trackedOrders orderId).isSome = true := by
    rw [List.mem_map, Option.isSome_iff_exists]
    constructor
    · rintro ⟨t, ht, rfl⟩
      exact ⟨t.id, tracked_of_mem ht⟩
    · rintro ⟨n, hn⟩
      obtain ⟨t, ht, ho, -⟩ := (m.tracked_iff _ _).mp hn
      exact ⟨t, ht, ho⟩
  rw [(m.distinct.of_map.map_on hinj).count]
  exact if_congr hmem rfl rfl

end MempoolService

end DlnTaker
