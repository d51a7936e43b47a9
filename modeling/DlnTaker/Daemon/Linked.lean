import DlnTaker.Daemon.Basic
import DlnTaker.Taking.Refinement

/-! # Processors and their attempts

A processor waits for an order exactly as long as the attempt at this order is in
progress or its outcome is on the way, and there is never more than one of both
for a chain. So the takers of a give chain are handed orders as their machine
accepts them, and what holds of its runs holds of the daemon.
-/

namespace DlnTaker

open OrderProcessor Taking Machine

/-! ### The orders of the attempts -/

namespace Takers

variable {config : TakersConfig} {s s' : Takers} {order : CreatedOrder} {p rest : Taking Unit}
  {i : TakersInput} {n : ℕ}

/-- The orders that are being attempted. -/
def orders (s : Takers) : List CreatedOrder := s.attempts.map (·.order)

theorem suspend_attempt {attempt : Option Attempt}
    (h : s.suspend config order rest = some (s', attempt)) :
    (attempt = none ∧ (ending rest).isSome = true) ∨
      ending rest = none ∧ ∃ suspended, attempt = some suspended ∧ suspended.order = order := by
  cases rest with
  | done value =>
    obtain ⟨-, rfl⟩ := Prod.mk.inj (Option.some.inj h)
    exact .inl ⟨rfl, rfl⟩
  | stop reason =>
    cases reason with
    | died message => cases h
    | _ =>
      obtain ⟨-, rfl⟩ := Prod.mk.inj (Option.some.inj h)
      exact .inl ⟨rfl, rfl⟩
  | ask query next =>
    right
    refine ⟨rfl, ?_⟩
    cases query with
    | lookup l =>
      cases l <;>
      · obtain ⟨-, rfl⟩ := Prod.mk.inj (Option.some.inj h)
        exact ⟨_, rfl, rfl⟩
    | _ =>
      obtain ⟨-, rfl⟩ := Prod.mk.inj (Option.some.inj h)
      exact ⟨_, rfl, rfl⟩

/-- A section ends its attempt with an outcome or suspends it, and leaves the others alone. -/
theorem runSection_attempt {attempt : Option Attempt}
    (h : s.runSection config order p = some (s', attempt)) : s'.attempts = s.attempts ∧
      ((attempt = none ∧ (s.outcome config p).isSome = true) ∨
        s.outcome config p = none ∧
          ∃ suspended, attempt = some suspended ∧ suspended.order = order) := by
  obtain ⟨⟨s₁, rest⟩, hproceed, hsuspend⟩ := Option.bind_eq_some_iff.mp h
  have houtcome : s.outcome config p = ending rest := by
    rw [outcome, hproceed, Option.bind_some]
  rw [houtcome]
  exact ⟨(suspend_kept hsuspend).1.trans (proceed_kept hproceed).1, suspend_attempt hsuspend⟩

theorem orders_start (h : s.start config order = some s') :
    (s'.orders = s.orders ∧
      (s.outcome config (CreatedOrderTaker.take config.executor order)).isSome = true) ∨
    s'.orders = s.orders ++ [order] ∧
      s.outcome config (CreatedOrderTaker.take config.executor order) = none := by
  obtain ⟨⟨s₁, attempt⟩, hsection, rfl⟩ := Option.map_eq_some_iff.mp h
  obtain ⟨hattempts, ⟨rfl, hend⟩ | ⟨hend, suspended, rfl, horder⟩⟩ := runSection_attempt hsection
  · left
    exact ⟨by simp [orders, hattempts], hend⟩
  · right
    exact ⟨by simp [orders, hattempts, horder], hend⟩

/-- The attempt at an order that is not the one of its id is rejected at once. -/
theorem start_of_malformed (hmalformed : ∀ calculatedId,
    config.executor.toolkit.calculateId order.orderData = .ok calculatedId →
      config.executor.toolkit.hexToBuffer calculatedId ≠
        config.executor.toolkit.hexToBuffer order.orderId) :
    s.start config order = some s ∧
      (s.outcome config (CreatedOrderTaker.take config.executor order)).isSome = true := by
  have hstop : ∃ reason : Stop, CreatedOrderTaker.take config.executor order = .stop reason ∧
      reason.outcome.isSome = true := by
    cases hid : config.executor.toolkit.calculateId order.orderData with
    | error err =>
      refine ⟨.thrown err, ?_, rfl⟩
      simp only [CreatedOrderTaker.take, OrderValidator.validate, OrderValidator.checkOrderId, hid]
      rfl
    | ok calculatedId =>
      refine ⟨.reject .malformedOrder
        s!"orderId mismatch; expected: {calculatedId}, actual: {order.orderId}", ?_, rfl⟩
      simp only [CreatedOrderTaker.take, OrderValidator.validate, OrderValidator.checkOrderId, hid]
      change ((if _ then _ else _ : Taking Unit) >>= _) >>= _ = _
      rw [if_pos (hmalformed calculatedId hid)]
      rfl
  obtain ⟨reason, htake, hend⟩ := hstop
  have hsuspend : s.suspend config order (.stop reason) = some (s, none) := by
    cases reason with
    | died message => cases hend
    | _ => rfl
  constructor
  · rw [start, runSection, htake]
    change ((s.suspend config order (.stop reason)).map _) = _
    rw [hsuspend]
    simp
  · rw [htake]
    exact hend

theorem order_of_resumed (h : s.resumed config i = some (n, order, p)) :
    s.orders[n]? = some order := by
  unfold resumed at h
  repeat' split at h
  all_goals cases h
  all_goals
    rw [orders, List.getElem?_map, ‹s.attempts[n]? = some _›]
    rfl

/-- An attempt that goes on comes to its end with an outcome, or it stays. -/
theorem orders_resume (hr : s.resumed config i = some (n, order, p))
    (h : s.resume config n order p = some s') :
    (s.outcome config p = none ∧ s'.orders = s.orders) ∨
      (s.outcome config p).isSome = true ∧ s'.orders = s.orders.eraseIdx n := by
  obtain ⟨⟨s₁, attempt⟩, hsection, rfl⟩ := Option.map_eq_some_iff.mp h
  obtain ⟨hattempts, ⟨rfl, hend⟩ | ⟨hend, suspended, rfl, horder⟩⟩ := runSection_attempt hsection
  · right
    refine ⟨hend, ?_⟩
    simp only [orders, hattempts, List.eraseIdx_map]
  · left
    refine ⟨hend, ?_⟩
    obtain ⟨hn, hget⟩ := List.getElem?_eq_some_iff.mp (order_of_resumed hr)
    simp only [orders, hattempts, List.map_set, horder]
    rw [← hget]
    exact List.set_getElem_self hn

/-- What an input that hands over no order does to the orders. -/
theorem orders_step (hi : ∀ order, i ≠ .take order) (h : s.step config i = some s') :
    (s.finished config i = none ∧ s'.orders = s.orders) ∨
      ∃ n order outcome, s.finished config i = some (order, outcome) ∧
        s.orders[n]? = some order ∧ s'.orders = s.orders.eraseIdx n := by
  have hresumed {n : ℕ} {order : CreatedOrder} {p : Taking Unit}
      (hr : s.resumed config i = some (n, order, p))
      (hs : s.resume config n order p = some s') :
      (s.finished config i = none ∧ s'.orders = s.orders) ∨
        ∃ n order outcome, s.finished config i = some (order, outcome) ∧
          s.orders[n]? = some order ∧ s'.orders = s.orders.eraseIdx n := by
    rcases orders_resume hr hs with ⟨hend, horders⟩ | ⟨hend, horders⟩
    · exact .inl ⟨by simp [finished, hr, hend], horders⟩
    · obtain ⟨outcome, hend⟩ := Option.isSome_iff_exists.mp hend
      exact .inr ⟨n, order, outcome, by simp [finished, hr, hend], order_of_resumed hr, horders⟩
  cases i with
  | answer | tvl | sent =>
    obtain ⟨⟨n, order, p⟩, hr, hs⟩ := Option.bind_eq_some_iff.mp h
    exact hresumed hr hs
  | take order => exact absurd rfl (hi order)
  | send n =>
    left
    refine ⟨rfl, ?_⟩
    simp only [step, send] at h
    split at h
    · rename_i order rest broadcast hget
      obtain rfl := Option.some.inj h
      have horder : s.orders[n]? = some order := by
        rw [orders, List.getElem?_map, hget]
        rfl
      obtain ⟨hn, hself⟩ := List.getElem?_eq_some_iff.mp horder
      simp only [orders, List.map_set]
      rw [← hself]
      exact List.set_getElem_self hn
    · cases h
  | tick | flushCache | dropped | spent =>
    obtain rfl := Option.some.inj h
    exact .inl ⟨rfl, rfl⟩
  | calculate =>
    obtain ⟨tvlBudget, -, rfl⟩ := Option.map_eq_some_iff.mp h
    exact .inl ⟨rfl, rfl⟩
  | throughputTimer | fulfilled | claimed =>
    simp only [step] at h
    split at h
    · obtain rfl := Option.some.inj h
      exact .inl ⟨rfl, rfl⟩
    · cases h

end Takers

/-! ### The link -/

/-- A processor waits for an order if and only if the attempt at it is in progress or its outcome is
on the way, but not both, and there is one attempt for a take chain at most. -/
structure Linked (awaited : ChainId → Option OrderId) (orders : ChainId → List CreatedOrder)
    (outcomes : ChainId → Option (OrderId × TakeOutcome)) : Prop where
  awaited_iff : ∀ chain orderId, awaited chain = some orderId ↔
    (∃ giveChain, ∃ order ∈ orders giveChain, order.takeChain = chain ∧ order.orderId = orderId) ∨
      ∃ outcome, outcomes chain = some (orderId, outcome)
  exclusive : ∀ giveChain, ∀ order ∈ orders giveChain, outcomes order.takeChain = none
  giveChain_eq : ∀ giveChain, ∀ order ∈ orders giveChain, ∀ giveChain',
    ∀ order' ∈ orders giveChain', order.takeChain = order'.takeChain → giveChain = giveChain'
  nodup : ∀ giveChain, ((orders giveChain).map (·.takeChain)).Nodup

namespace Linked

variable {awaited : ChainId → Option OrderId} {orders : ChainId → List CreatedOrder}
  {outcomes : ChainId → Option (OrderId × TakeOutcome)} {chain giveChain : ChainId}
  {order : CreatedOrder} {orderId : OrderId} {outcome : TakeOutcome} {n : ℕ}

theorem initial : Linked (fun _ => none) (fun _ => []) (fun _ => none) where
  awaited_iff := by simp
  exclusive := by simp
  giveChain_eq := by simp
  nodup := by simp

/-- A processor hears the outcome. -/
theorem settled (h : Linked awaited orders outcomes) (hc : (outcomes chain).isSome = true) :
    Linked (Function.update awaited chain none) orders
      (Function.update outcomes chain none) where
  awaited_iff other id := by
    by_cases hother : other = chain
    · subst hother
      simp only [Function.update_self, reduceCtorEq, exists_false, or_false, false_iff]
      rintro ⟨giveChain, order, hm, rfl, -⟩
      rw [h.exclusive giveChain order hm] at hc
      cases hc
    · rw [Function.update_of_ne hother, Function.update_of_ne hother]
      exact h.awaited_iff other id
  exclusive giveChain order hm := by
    by_cases hother : order.takeChain = chain
    · rw [hother, Function.update_self]
    · rw [Function.update_of_ne hother]
      exact h.exclusive giveChain order hm
  giveChain_eq := h.giveChain_eq
  nodup := h.nodup

theorem not_awaited (h : Linked awaited orders outcomes) (ha : awaited chain = none) :
    (∀ giveChain, ∀ order ∈ orders giveChain, order.takeChain ≠ chain) ∧
      outcomes chain = none := by
  have hnot (id : OrderId) := (not_congr (h.awaited_iff chain id)).mp (by simp [ha])
  constructor
  · intro giveChain order hm heq
    exact hnot order.orderId (.inl ⟨giveChain, order, hm, heq, rfl⟩)
  · rw [Option.eq_none_iff_forall_ne_some]
    rintro ⟨id, outcome⟩ houtcome
    exact hnot id (.inr ⟨outcome, houtcome⟩)

/-- An attempt for a processor that does not wait ends at once. -/
theorem ended (h : Linked awaited orders outcomes) (ha : awaited chain = none) :
    Linked (Function.update awaited chain (some orderId)) orders
      (Function.update outcomes chain (some (orderId, outcome))) where
  awaited_iff other id := by
    by_cases hother : other = chain
    · subst hother
      simp only [Function.update_self, Option.some.injEq, Prod.mk.injEq, exists_eq_right']
      constructor
      · exact .inr
      · rintro (⟨giveChain, order, hm, heq, -⟩ | heq)
        · exact absurd heq ((h.not_awaited ha).1 giveChain order hm)
        · exact heq
    · rw [Function.update_of_ne hother, Function.update_of_ne hother]
      exact h.awaited_iff other id
  exclusive giveChain order hm := by
    rw [Function.update_of_ne ((h.not_awaited ha).1 giveChain order hm)]
    exact h.exclusive giveChain order hm
  giveChain_eq := h.giveChain_eq
  nodup := h.nodup

/-- An attempt for a processor that does not wait joins the others. -/
theorem started (h : Linked awaited orders outcomes) (ha : awaited order.takeChain = none) :
    Linked (Function.update awaited order.takeChain (some order.orderId))
      (Function.update orders giveChain (orders giveChain ++ [order])) outcomes := by
  obtain ⟨hnone, houtcome⟩ := h.not_awaited ha
  have hmem : ∀ {giveChain' : ChainId} {order' : CreatedOrder},
      order' ∈ Function.update orders giveChain (orders giveChain ++ [order]) giveChain' →
      order' ∈ orders giveChain' ∨ giveChain' = giveChain ∧ order' = order := by
    intro giveChain' order' hm
    by_cases hother : giveChain' = giveChain
    · subst hother
      rw [Function.update_self, List.mem_append, List.mem_singleton] at hm
      exact hm.imp_right fun heq => ⟨rfl, heq⟩
    · rw [Function.update_of_ne hother] at hm
      exact .inl hm
  refine ⟨fun chain id => ?_, fun giveChain' order' hm => ?_,
    fun giveChain₁ order₁ h₁ giveChain₂ order₂ h₂ heq => ?_, fun giveChain' => ?_⟩
  · by_cases hchain : chain = order.takeChain
    · subst hchain
      have hin : order ∈ Function.update orders giveChain (orders giveChain ++ [order])
          giveChain := by
        simp
      rw [Function.update_self, houtcome]
      simp only [Option.some.injEq, reduceCtorEq, exists_false, or_false]
      constructor
      · intro hid
        exact ⟨giveChain, order, hin, rfl, hid⟩
      · rintro ⟨giveChain', order', hm, heq, hid⟩
        rcases hmem hm with hm | ⟨-, rfl⟩
        · exact absurd heq (hnone giveChain' order' hm)
        · exact hid
    · rw [Function.update_of_ne hchain, h.awaited_iff chain]
      refine or_congr_left ⟨?_, ?_⟩
      · rintro ⟨giveChain', order', hm, heq⟩
        refine ⟨giveChain', order', ?_, heq⟩
        by_cases hother : giveChain' = giveChain
        · subst hother
          rw [Function.update_self]
          exact List.mem_append_left _ hm
        · rwa [Function.update_of_ne hother]
      · rintro ⟨giveChain', order', hm, heq⟩
        rcases hmem hm with hm | ⟨rfl, rfl⟩
        · exact ⟨giveChain', order', hm, heq⟩
        · exact absurd heq.1.symm hchain
  · rcases hmem hm with hm | ⟨-, rfl⟩
    · exact h.exclusive giveChain' order' hm
    · exact houtcome
  · rcases hmem h₁ with hm₁ | ⟨rfl, rfl⟩
    · rcases hmem h₂ with hm₂ | ⟨-, rfl⟩
      · exact h.giveChain_eq _ _ hm₁ _ _ hm₂ heq
      · exact absurd heq (hnone _ _ hm₁)
    · rcases hmem h₂ with hm₂ | ⟨rfl, -⟩
      · exact absurd heq.symm (hnone _ _ hm₂)
      · rfl
  · by_cases hother : giveChain' = giveChain
    · subst hother
      rw [Function.update_self, List.map_append, List.nodup_append]
      refine ⟨h.nodup giveChain', by simp, fun a hma b hmb => ?_⟩
      obtain ⟨order', hm, rfl⟩ := List.mem_map.mp hma
      obtain rfl := List.mem_singleton.mp hmb
      exact hnone giveChain' order' hm
    · rw [Function.update_of_ne hother]
      exact h.nodup giveChain'

/-- An attempt comes to its end. -/
theorem finished (h : Linked awaited orders outcomes) (hn : (orders giveChain)[n]? = some order) :
    Linked awaited (Function.update orders giveChain ((orders giveChain).eraseIdx n))
      (Function.update outcomes order.takeChain (some (order.orderId, outcome))) := by
  have hin : order ∈ orders giveChain := List.mem_of_getElem? hn
  have hmem : ∀ {giveChain' : ChainId} {order' : CreatedOrder},
      order' ∈ Function.update orders giveChain ((orders giveChain).eraseIdx n) giveChain' →
      order' ∈ orders giveChain' ∧ order'.takeChain ≠ order.takeChain := by
    intro giveChain' order' hm
    by_cases hother : giveChain' = giveChain
    · subst hother
      rw [Function.update_self] at hm
      refine ⟨List.mem_of_mem_eraseIdx hm, fun heq => ?_⟩
      obtain ⟨m, hne, hm⟩ := List.mem_eraseIdx_iff_getElem?.mp hm
      have hget : ∀ {k : ℕ} {o : CreatedOrder}, (orders giveChain')[k]? = some o →
          ((orders giveChain').map (·.takeChain))[k]? = some o.takeChain := by
        intro k o hk
        rw [List.getElem?_map, hk]
        rfl
      have hlt : m < ((orders giveChain').map (·.takeChain)).length :=
        (List.getElem?_eq_some_iff.mp (hget hm)).1
      refine hne ((List.getElem?_inj hlt (h.nodup giveChain')).mp ?_)
      rw [hget hm, hget hn, heq]
    · rw [Function.update_of_ne hother] at hm
      refine ⟨hm, fun heq => hother ?_⟩
      exact h.giveChain_eq _ _ hm _ _ hin heq
  refine ⟨fun chain id => ?_, fun giveChain' order' hm => ?_,
    fun giveChain₁ order₁ h₁ giveChain₂ order₂ h₂ heq => ?_, fun giveChain' => ?_⟩
  · by_cases hchain : chain = order.takeChain
    · subst hchain
      have hself : awaited order.takeChain = some order.orderId :=
        (h.awaited_iff _ _).mpr (.inl ⟨giveChain, order, hin, rfl, rfl⟩)
      simp only [hself, Function.update_self, Option.some.injEq, Prod.mk.injEq, exists_eq_right']
      constructor
      · exact .inr
      · rintro (⟨giveChain', order', hm, heq, -⟩ | heq)
        · exact absurd heq (hmem hm).2
        · exact heq
    · rw [Function.update_of_ne hchain, h.awaited_iff chain]
      refine or_congr_left ⟨?_, ?_⟩
      · rintro ⟨giveChain', order', hm, rfl, hid⟩
        refine ⟨giveChain', order', ?_, rfl, hid⟩
        by_cases hother : giveChain' = giveChain
        · subst hother
          rw [Function.update_self, List.mem_eraseIdx_iff_getElem?]
          obtain ⟨m, hm⟩ := List.mem_iff_getElem?.mp hm
          refine ⟨m, fun heq => ?_, hm⟩
          subst heq
          rw [Option.some.inj (hm.symm.trans hn)] at hchain
          exact hchain rfl
        · rwa [Function.update_of_ne hother]
      · rintro ⟨giveChain', order', hm, rfl, hid⟩
        exact ⟨giveChain', order', (hmem hm).1, rfl, hid⟩
  · rw [Function.update_of_ne (hmem hm).2]
    exact h.exclusive giveChain' order' (hmem hm).1
  · exact h.giveChain_eq _ _ (hmem h₁).1 _ _ (hmem h₂).1 heq
  · by_cases hother : giveChain' = giveChain
    · subst hother
      rw [Function.update_self]
      exact (h.nodup giveChain').sublist ((List.eraseIdx_sublist _ _).map _)
    · rw [Function.update_of_ne hother]
      exact h.nodup giveChain'

end Linked

end DlnTaker
