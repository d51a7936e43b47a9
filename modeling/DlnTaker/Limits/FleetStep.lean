import DlnTaker.Limits.Fleet

/-! # What one section of the take runs does

`Change` lists the effects a step of the fleet can have, each with the guards
under which the code reaches it. The predicates of later modules on the runs in
progress are kept by the lemmas at the end.
-/

namespace DlnTaker

namespace Fleet

variable {config : FleetConfig} {s s' : Fleet} {i : FleetInput}

inductive Change (config : FleetConfig) (s : Fleet) : FleetInput → Fleet → Prop
  | tick (ms : ℕ) : Change config s (.tick ms) { s with now := s.now + ms }
  | take (order : CreatedOrder) :
      s.Accepts config order →
      Change config s (.take order) { s with takes := s.takes ++ [⟨order, .validating⟩] }
  | awaitTVL (n : ℕ) (run : TakeRun) (calculation : ℕ) (tvlBudget : TVLBudgetController) :
      s.takes[n]? = some run → 0 < config.budget →
      s.tvlBudget.getCurrentTVL config.toTVLBudgetConfig s.chain s.now =
        (calculation, tvlBudget) →
      Change config s (.run n .checkTVLBudget)
        ({ s with tvlBudget }.moved n run (.awaitingTVL calculation))
  | skipBudget (n : ℕ) (run : TakeRun) :
      s.takes[n]? = some run → ¬ 0 < config.budget →
      Change config s (.run n .checkTVLBudget) (s.moved n run .withinBudget)
  | withinBudget (n : ℕ) (run : TakeRun) (calculation : ℕ) (tvl : ℚ) :
      s.takes[n]? = some run → run.stage = .awaitingTVL calculation →
      s.tvlBudget.calculations[calculation]?.map Calculation.stage = some (.resolved tvl) →
      tvl + config.usdValue run.order.orderId ≤ config.budget →
      Change config s (.run n .compareTVL) (s.moved n run .withinBudget)
  | notThrottled (n : ℕ) (run : TakeRun) :
      s.takes[n]? = some run → run.stage = .withinBudget →
      s.throughput.isThrottled (config.blockConfirmations run.order)
        (config.usdValue run.order.orderId) = false →
      Change config s (.run n .checkThroughput) (s.moved n run .notThrottled)
  | advance (n : ℕ) (run : TakeRun) (input : TakeInput) (stage : TakeStage) :
      s.takes[n]? = some run → run.stage.pastThroughput = true →
      stage.pastThroughput = true →
      Change config s (.run n input) (s.moved n run stage)
  | send (n : ℕ) (run : TakeRun) :
      s.takes[n]? = some run → run.stage.pastThroughput = true →
      Change config s (.run n .send)
        { s.moved n run .broadcast with
          submitted := s.submitted ++ [run.order.orderId]
          sends := s.sends ++
            [⟨run.order.orderId, config.blockConfirmations run.order, s.now⟩] }
  | addOrder (n : ℕ) (run : TakeRun) (throughput : ThroughputController) :
      s.takes[n]? = some run →
      s.throughput.addOrder s.now run.order.orderId (config.blockConfirmations run.order)
        (config.usdValue run.order.orderId) = .ok throughput →
      Change config s (.run n .addOrder)
        { s.ended n with throughput, tvlBudget := s.tvlBudget.flushCache }
  | leave (n : ℕ) (run : TakeRun) (input : TakeInput) :
      s.takes[n]? = some run → Change config s (.run n input) (s.ended n)
  | calculate (n : ℕ) (input : CalculationInput) (tvlBudget : TVLBudgetController) :
      s.tvlBudget.calculate config.toTVLBudgetConfig s.chain n input = some tvlBudget →
      Change config s (.calculate n input) { s with tvlBudget }
  | flushCache : Change config s .flushCache { s with tvlBudget := s.tvlBudget.flushCache }
  | throughputTimer (n : ℕ) (throughput : ThroughputController) :
      s.throughput.onTimer s.now n = some (.ok throughput) →
      Change config s (.throughputTimer n) { s with throughput }
  | fulfilled (orderId : OrderId) :
      orderId ∈ s.submitted → orderId ∉ s.chain.fulfilled →
      Change config s (.fulfilled orderId) { s with chain := s.chain.fulfil orderId }
  | dropped (orderId : OrderId) :
      Change config s (.dropped orderId)
        { s with submitted := s.submitted.filter (· ≠ orderId) }
  | claimed (orderId : OrderId) :
      orderId ∈ s.chain.pending → (config.orderOf orderId).give.chainId = config.chain →
      Change config s (.claimed orderId)
        { s with chain := s.chain.claim config.toTVLBudgetConfig orderId }
  | spent (account token : Address) (amount : ℕ) :
      Change config s (.spent account token amount)
        { s with chain := s.chain.spend account token amount }

/-- The effects of a section of a take run. -/
theorem change_of_takeStep {n : ℕ} {run : TakeRun} {input : TakeInput}
    (hn : s.takes[n]? = some run) (h : s.takeStep config n run input = some s') :
    Change config s (.run n input) s' := by
  cases input with
  | checkTVLBudget =>
    simp only [takeStep] at h
    split at h
    · split at h
      · rename_i hb
        obtain rfl := Option.some.inj h
        exact .awaitTVL n run _ _ hn hb rfl
      · rename_i hb
        obtain rfl := Option.some.inj h
        exact .skipBudget n run hn hb
    · cases h
  | compareTVL =>
    simp only [takeStep] at h
    split at h
    · rename_i calculation hstage
      split at h
      · rename_i tvl htvl
        split at h
        · obtain rfl := Option.some.inj h
          exact .leave n run _ hn
        · rename_i hle
          obtain rfl := Option.some.inj h
          exact .withinBudget n run calculation tvl hn hstage htvl (not_lt.mp hle)
      · cases h
    · cases h
  | checkThroughput =>
    simp only [takeStep] at h
    split at h
    · rename_i hstage
      split at h
      · obtain rfl := Option.some.inj h
        exact .leave n run _ hn
      · rename_i ht
        obtain rfl := Option.some.inj h
        exact .notThrottled n run hn hstage (Bool.eq_false_iff.mpr ht)
    · cases h
  | attemptFulfil =>
    simp only [takeStep] at h
    split at h
    · rename_i hstage
      obtain rfl := Option.some.inj h
      exact .advance n run _ _ hn (by rw [hstage]; rfl) rfl
    · cases h
  | send =>
    simp only [takeStep] at h
    split at h
    · rename_i hstage
      obtain rfl := Option.some.inj h
      exact .send n run hn (by rw [hstage]; rfl)
    · rename_i hstage
      obtain rfl := Option.some.inj h
      exact .send n run hn (by rw [hstage]; rfl)
    · cases h
  | confirm =>
    simp only [takeStep] at h
    split at h
    · rename_i hstage
      obtain rfl := Option.some.inj h
      exact .advance n run _ _ hn (by rw [hstage]; rfl) rfl
    · cases h
  | addOrder =>
    simp only [takeStep] at h
    split at h
    · split at h
      · rename_i throughput hadd
        obtain rfl := Option.some.inj h
        exact .addOrder n run throughput hn hadd
      · cases h
    · cases h
  | abort =>
    obtain rfl := Option.some.inj h
    exact .leave n run _ hn

theorem change_of_step (h : step config s i = some s') : Change config s i s' := by
  cases i with
  | tick ms => obtain rfl := Option.some.inj h; exact .tick ms
  | take order =>
    simp only [step] at h
    split at h
    · rename_i ha
      obtain rfl := Option.some.inj h
      exact .take order ha
    · cases h
  | run n input =>
    obtain ⟨run, hn, hs⟩ := Option.bind_eq_some_iff.mp h
    exact change_of_takeStep hn hs
  | calculate n input =>
    obtain ⟨tvlBudget, hc, rfl⟩ := Option.map_eq_some_iff.mp h
    exact .calculate n input tvlBudget hc
  | flushCache => obtain rfl := Option.some.inj h; exact .flushCache
  | throughputTimer n =>
    simp only [step] at h
    split at h
    · rename_i throughput ht
      obtain rfl := Option.some.inj h
      exact .throughputTimer n throughput ht
    · cases h
  | fulfilled orderId =>
    simp only [step] at h
    split at h
    · rename_i hf
      obtain rfl := Option.some.inj h
      exact .fulfilled orderId hf.1 hf.2
    · cases h
  | dropped orderId => obtain rfl := Option.some.inj h; exact .dropped orderId
  | claimed orderId =>
    simp only [step] at h
    split at h
    · rename_i hc
      obtain rfl := Option.some.inj h
      exact .claimed orderId hc.1 hc.2
    · cases h
  | spent account token amount =>
    obtain rfl := Option.some.inj h
    exact .spent account token amount

/-! ### Runs in progress -/

/-- A run in progress is of the kind. -/
def SomeRun (s : Fleet) (q : TakeRun → Prop) : Prop := ∃ run ∈ s.takes, q run

instance (q : TakeRun → Prop) [DecidablePred q] : Decidable (s.SomeRun q) := by
  unfold SomeRun; infer_instance

variable {q : TakeRun → Prop} {n : ℕ} {run : TakeRun} {stage : TakeStage}

theorem SomeRun.of_ended (h : (s.ended n).SomeRun q) : s.SomeRun q := by
  obtain ⟨a, ha, hq⟩ := h
  exact ⟨a, List.mem_of_mem_eraseIdx ha, hq⟩

theorem SomeRun.of_moved (h : (s.moved n run stage).SomeRun q) :
    q { run with stage } ∨ s.SomeRun q := by
  obtain ⟨a, ha, hq⟩ := h
  rcases List.mem_or_eq_of_mem_set ha with ha | rfl
  · exact .inr ⟨a, ha, hq⟩
  · exact .inl hq

/-- A run that is of the kind at its new stage only if it was before. -/
theorem SomeRun.of_moved_of_imp (hn : s.takes[n]? = some run)
    (hq : q { run with stage } → q run) (h : (s.moved n run stage).SomeRun q) : s.SomeRun q := by
  rcases h.of_moved with h | h
  · exact ⟨run, List.mem_of_getElem? hn, hq h⟩
  · exact h

theorem SomeRun.of_taken {order : CreatedOrder} (hq : ¬ q ⟨order, .validating⟩)
    (h : SomeRun { s with takes := s.takes ++ [⟨order, .validating⟩] } q) : s.SomeRun q := by
  obtain ⟨a, ha, hqa⟩ := h
  rcases List.mem_append.mp ha with ha | ha
  · exact ⟨a, ha, hqa⟩
  · obtain rfl := List.mem_singleton.mp ha
    exact absurd hqa hq

end Fleet

end DlnTaker
