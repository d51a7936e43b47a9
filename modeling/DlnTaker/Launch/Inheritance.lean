import DlnTaker.Launch.Ranges
import DlnTaker.Taking.Taker

/-! # What a chain inherits

Delays are resolved for the ranges of a give chain without those of the chain,
and the TVL budget without the shared one. The delays of a take chain and the
other shared constraints are inherited as configured.
-/

namespace DlnTaker

open Dialogue OrderValidator OrderEstimator Taking

namespace ChainDstConstraints

/-- No delay is set. -/
structure NoDelays (c : ChainDstConstraints) : Prop where
  chain : c.fulfillmentDelay.getD 0 = 0
  ranges : ∀ t ∈ c.perOrderValueUpperThreshold, t.fulfillmentDelay.getD 0 = 0

/-- The constraints that a number of confirmations falls into. -/
def matchedConstraints (c : ChainDstConstraints) (count : ℕ) : RawDstOrderConstraints :=
  match RangeSearch.search (·.minBlockConfirmations) count c.perOrderValueUpperThreshold with
  | some t => t.toRawDstOrderConstraints
  | none => c.toRawDstOrderConstraints

end ChainDstConstraints

/-- The delay of an order that is worth the given value is that of its range, or else that of the
give chain, and a delay of the take chain comes before them. -/
structure DelayDocumented (executor : Executor) (order : CreatedOrder) (usdValue : ℚ)
    (give : ChainConstraints) (take : ChainDstConstraints) : Prop where
  nonFinalized : take.NoDelays → ∀ count t, order.finalization = .confirmations count →
    give.matchedThreshold count = some t →
    getFulfillmentDelay executor order = t.fulfillmentDelay.getD (give.fulfillmentDelay.getD 0)
  finalized : take.NoDelays → order.finalization = .finalized →
    (∀ t ∈ give.requiredConfirmationsThresholds, t.thresholdAmountInUSD < usdValue) →
    getFulfillmentDelay executor order = give.fulfillmentDelay.getD 0
  precedence : ∀ delay, delay ≠ 0 →
    (take.matchedConstraints (order.blockConfirmations executor)).fulfillmentDelay = some delay →
    getFulfillmentDelay executor order = delay

/-- A range that has to inherit a delay would inherit zero, and the range of the most confirmations
has the delay of the chain where finalized orders have to have it. -/
structure DelayAgrees (order : CreatedOrder) (usdValue : ℚ) (give : ChainConstraints)
    (take : ChainDstConstraints) (finalizedBlockCount : ℕ) : Prop where
  nonFinalized : take.NoDelays → ∀ count t, order.finalization = .confirmations count →
    give.matchedThreshold count = some t →
    t.fulfillmentDelay.isSome = true ∨ give.fulfillmentDelay.getD 0 = 0
  finalized : take.NoDelays → order.finalization = .finalized →
    (∀ t ∈ give.requiredConfirmationsThresholds, t.thresholdAmountInUSD < usdValue) →
    ∀ t, give.matchedThreshold finalizedBlockCount = some t →
    t.fulfillmentDelay.getD 0 = give.fulfillmentDelay.getD 0

variable {supportedChain : ChainId → Option SupportedChain} {toolkit : Toolkit}
  {config : ExecutorLaunchConfig} {chain give take : ChainDefinition} {launched : LaunchedChain}
  {executor : Executor} {l : LaunchedExecutor} {order : CreatedOrder} {count : ℕ} {usdValue : ℚ}
  {delay : ℚ} {chainId : ChainId}

/-! ### Delays -/

/-- The delay of the give chain: that of the threshold alone, if there is one. -/
theorem LaunchedFrom.srcDelay_eq
    (hf : LaunchedFrom toolkit supportedChain config chain launched)
    (hl : executor.chains order.giveChain = launched.toExecutorSupportedChain) :
    (order.srcConstraints executor).fulfillmentDelay =
      match chain.constraints.matchedThreshold (order.blockConfirmations executor) with
      | some t => t.fulfillmentDelay.getD 0
      | none => chain.constraints.fulfillmentDelay.getD 0 := by
  rw [CreatedOrder.srcConstraints, hf.srcConstraintsRange_eq hl]
  cases chain.constraints.matchedThreshold (order.blockConfirmations executor) with
  | some t => exact truthy_getD_zero _
  | none =>
    simp only [Option.map_none, hl, hf.srcConstraints]
    exact truthy_getD_zero _

/-- The delay of the take chain: that of the matched constraints, or else of the chain. -/
theorem LaunchedFrom.dstDelay_eq
    (hf : LaunchedFrom toolkit supportedChain config chain launched)
    (hl : executor.chains order.takeChain = launched.toExecutorSupportedChain) :
    (order.dstConstraints executor).fulfillmentDelay =
      effective (chain.dstConstraints.matchedConstraints
          (order.blockConfirmations executor)).fulfillmentDelay
        chain.dstConstraints.fulfillmentDelay 0 := by
  have hsearch : order.dstConstraintsRange executor =
      RangeSearch.search (·.minBlockConfirmations) (order.blockConfirmations executor)
        (executor.chains order.takeChain).dstConstraints.perOrderValue := rfl
  have hsorted : Executor.getDstConstraintsPerOrderValue chain.dstConstraints =
      RangeSearch.sortDesc (·.minBlockConfirmations)
        (chain.dstConstraints.perOrderValueUpperThreshold.map fun constraint =>
          { toDstOrderConstraints := Executor.getDstConstraints
              constraint.toRawDstOrderConstraints
              (some chain.dstConstraints.toRawDstOrderConstraints)
            minBlockConfirmations := constraint.minBlockConfirmations }) := rfl
  rw [CreatedOrder.dstConstraints, hsearch, hl, hf.dstPerOrderValue, hsorted,
    RangeSearch.search_sortDesc, RangeSearch.search_map, ChainDstConstraints.matchedConstraints]
  cases RangeSearch.search (·.minBlockConfirmations) (order.blockConfirmations executor)
      chain.dstConstraints.perOrderValueUpperThreshold with
  | some t => rfl
  | none =>
    simp only [Option.map_none, hf.dstConstraints, Executor.getDstConstraints, effective_eq]
    by_cases hzero : chain.dstConstraints.fulfillmentDelay.getD 0 = 0 <;> simp [hzero]

theorem dstDelay_of_noDelays {c : ChainDstConstraints} (h : c.NoDelays) :
    effective (c.matchedConstraints count).fulfillmentDelay c.fulfillmentDelay 0 = 0 := by
  have hmatched : (c.matchedConstraints count).fulfillmentDelay.getD 0 = 0 := by
    rw [ChainDstConstraints.matchedConstraints]
    split
    · rename_i t ht
      exact h.ranges t (RangeSearch.mem_of_search ht)
    · exact h.chain
  rw [effective_eq, if_pos hmatched, if_pos h.chain]

/-- Without a delay of the take chain an order has the delay of the give chain. -/
theorem LaunchedFrom.delay_of_noDelays {launchedTake : LaunchedChain}
    (hfGive : LaunchedFrom toolkit supportedChain config give launched)
    (hlGive : executor.chains order.giveChain = launched.toExecutorSupportedChain)
    (hfTake : LaunchedFrom toolkit supportedChain config take launchedTake)
    (hlTake : executor.chains order.takeChain = launchedTake.toExecutorSupportedChain)
    (hno : take.dstConstraints.NoDelays) (hcount : order.blockConfirmations executor = count) :
    getFulfillmentDelay executor order =
      match give.constraints.matchedThreshold count with
      | some t => t.fulfillmentDelay.getD 0
      | none => give.constraints.fulfillmentDelay.getD 0 := by
  have hdst := hfTake.dstDelay_eq hlTake
  rw [dstDelay_of_noDelays hno] at hdst
  rw [← hcount, ← hfGive.srcDelay_eq hlGive, getFulfillmentDelay, hdst]
  simp

/-- A delay of the matched constraints of the take chain comes first. -/
theorem LaunchedFrom.delay_of_matched
    (hf : LaunchedFrom toolkit supportedChain config take launched)
    (hl : executor.chains order.takeChain = launched.toExecutorSupportedChain) (hne : delay ≠ 0)
    (hmatched : (take.dstConstraints.matchedConstraints
      (order.blockConfirmations executor)).fulfillmentDelay = some delay) :
    getFulfillmentDelay executor order = delay := by
  have hdst := hf.dstDelay_eq hl
  rw [hmatched, effective_eq, Option.getD_some, if_neg hne] at hdst
  rw [getFulfillmentDelay, hdst]
  simp [hne]

/-- The delay of an order is resolved as documented if and only if no range has to inherit it. -/
theorem delay_documented_iff (h : Executor.init supportedChain config executor = .ok l)
    (hgive : config.definition order.giveChain = some give)
    (htake : config.definition order.takeChain = some take) :
    DelayDocumented l.executor order usdValue give.constraints take.dstConstraints ↔
      DelayAgrees order usdValue give.constraints take.dstConstraints
        (l.executor.chains order.giveChain).network.finalizedBlockCount := by
  obtain ⟨launchedGive, -, hlGive, hfGive⟩ := launchedFrom_of_init h hgive
  obtain ⟨launchedTake, -, hlTake, hfTake⟩ := launchedFrom_of_init h htake
  have hconfirmed : ∀ count t, take.dstConstraints.NoDelays →
      order.finalization = .confirmations count →
      give.constraints.matchedThreshold count = some t →
      getFulfillmentDelay l.executor order = t.fulfillmentDelay.getD 0 := by
    intro count t hno hf hm
    have hcount : order.blockConfirmations l.executor = count := by
      rw [CreatedOrder.blockConfirmations, hf]
    rw [hfGive.delay_of_noDelays hlGive hfTake hlTake hno hcount, hm]
  have hfinalized : take.dstConstraints.NoDelays → order.finalization = .finalized →
      getFulfillmentDelay l.executor order =
        match give.constraints.matchedThreshold
          (l.executor.chains order.giveChain).network.finalizedBlockCount with
        | some t => t.fulfillmentDelay.getD 0
        | none => give.constraints.fulfillmentDelay.getD 0 := by
    intro hno hf
    apply hfGive.delay_of_noDelays hlGive hfTake hlTake hno
    rw [CreatedOrder.blockConfirmations, hf]
  constructor
  · rintro ⟨hnonFinalized, hfinal, -⟩
    constructor
    · intro hno count t hf hm
      have hdelay := hnonFinalized hno count t hf hm
      rw [hconfirmed count t hno hf hm] at hdelay
      cases hd : t.fulfillmentDelay with
      | some delay => exact .inl rfl
      | none =>
        rw [hd] at hdelay
        exact .inr hdelay.symm
    · intro hno hf hworth t hm
      have hdelay := hfinal hno hf hworth
      rw [hfinalized hno hf, hm] at hdelay
      exact hdelay
  · rintro ⟨hnonFinalized, hfinal⟩
    constructor
    · intro hno count t hf hm
      rw [hconfirmed count t hno hf hm]
      rcases hnonFinalized hno count t hf hm with hsome | hzero
      · obtain ⟨delay, hd⟩ := Option.isSome_iff_exists.mp hsome
        rw [hd, Option.getD_some, Option.getD_some]
      · rw [hzero]
    · intro hno hf hworth
      rw [hfinalized hno hf]
      cases hm : give.constraints.matchedThreshold
          (l.executor.chains order.giveChain).network.finalizedBlockCount with
      | some t => exact hfinal hno hf hworth t hm
      | none => rfl
    · exact fun delay => hfTake.delay_of_matched hlTake

namespace Sample

/-- The thresholds of the documentation; the chain has a delay of sixty seconds. -/
def delayed : List RequiredConfirmationsThreshold :=
  [threshold 1000 1 (some 30), threshold 10000 6 none]

def giveChain : ChainDefinition :=
  chainDefinition 1 ⟨⟨none, none, none⟩, ⟨some 60, none, none⟩, delayed⟩

def takeChain : ChainDefinition :=
  chainDefinition 2 ⟨⟨none, none, none⟩, ⟨none, none, none⟩, []⟩

end Sample

theorem delay_documented_iff_confirmed :
    ∃ l, Sample.launch (Sample.launchConfig (some 60) Sample.delayed) = .ok l ∧
      (DelayDocumented l.executor (Sample.takenOrder.confirmed 1) 100 Sample.giveChain.constraints
          Sample.takeChain.dstConstraints ↔
        DelayAgrees (Sample.takenOrder.confirmed 1) 100 Sample.giveChain.constraints
          Sample.takeChain.dstConstraints
          (l.executor.chains
            (Sample.takenOrder.confirmed 1).giveChain).network.finalizedBlockCount) := by
  have hok : (Sample.launch
      (Sample.launchConfig (some 60) Sample.delayed)).toOption.isSome = true := by
    decide +kernel
  obtain ⟨l, h⟩ := exists_ok_of_isSome hok
  exact ⟨l, h, delay_documented_iff h rfl rfl⟩

/-- The order falls into the range that leaves the delay out, and is not delayed at all. -/
theorem delay_not_inherited :
    ∃ l, Sample.launch (Sample.launchConfig (some 60) Sample.delayed) = .ok l ∧
      getFulfillmentDelay l.executor (Sample.takenOrder.confirmed 6) = 0 ∧
      ¬ DelayDocumented l.executor (Sample.takenOrder.confirmed 6) 100
        Sample.giveChain.constraints Sample.takeChain.dstConstraints := by
  have hruns : (Sample.launch (Sample.launchConfig (some 60) Sample.delayed)).toOption.any
      (fun l => decide (getFulfillmentDelay l.executor (Sample.takenOrder.confirmed 6) = 0)) =
        true := by
    decide +kernel
  obtain ⟨l, h, hl⟩ := exists_ok_of_any hruns
  have hzero := of_decide_eq_true hl
  refine ⟨l, h, hzero, fun hdoc => ?_⟩
  have hmatched : Sample.giveChain.constraints.matchedThreshold 6 =
      some (Sample.threshold 10000 6 none) := by
    decide +kernel
  have hdelay := hdoc.nonFinalized ⟨rfl, nofun⟩ 6 _ rfl hmatched
  rw [hzero] at hdelay
  exact absurd hdelay (by decide +kernel)

/-! ### Shared constraints -/

/-- The size of a batch of unlocks, by the same rule as a margin, and reduced for Solana. -/
def effectiveBatchSize (chainId : ChainId) (own shared : Option ℚ) : ℚ :=
  let size := effective own shared 10
  if chainId = solana then min size 7 else size

/-- What the Optimism campaign takes off the margin of an order. -/
def CreatedOrder.opHorizonRebate (executor : Executor) (order : CreatedOrder) : ℚ :=
  if order.takeChain = executor.toolkit.optimism then 4
  else if order.giveChain = executor.toolkit.optimism then 2
  else 0

/-- The configuration of the unlocker of a chain, whose batch sizes are those of the chains; no
order of a chain that is not configured is unlocked. -/
def unlockerConfig (h : Executor.init supportedChain config executor = .ok l)
    (takeChain : ChainId) (unlockAuthority : Address) : UnlockerConfig where
  chainName := executor.toolkit.chainName
  takeChain := takeChain
  unlockAuthority := unlockAuthority
  chainConstraint chainId :=
    match config.definition chainId with
    | some chain => chain.constraints.batchUnlockSize
    | none => some 1
  sharedConstraint := config.srcConstraints.batchUnlockSize
  batchUnlockSize chainId :=
    match config.definition chainId with
    | some _ => (l.executor.chains chainId).srcConstraints.batchUnlockSize
    | none => 1
  accepted := by
    intro chainId
    cases hc : config.definition chainId with
    | none => simp [getBatchSize, Option.filter]
    | some chain =>
      obtain ⟨launched, -, hl, hf⟩ := launchedFrom_of_init h hc
      have hid : chain.chain = chainId := by simpa using List.find?_some hc
      simp only [hl]
      exact hid ▸ hf.batchUnlockSize

/-- What the checks, the estimation and the unlocker use for the orders of a chain are its own
values, or else the shared ones, or else the defaults. -/
structure SharedEnforced (executor : Executor) (unlocker : UnlockerConfig)
    (chain : ChainDefinition) (shared : RawSrcConstraints) : Prop where
  budget : (executor.chains chain.chain).budget =
    effective chain.constraints.TVLBudget shared.TVLBudget 0
  legacyMargin : ∀ order : CreatedOrder, order.giveChain = chain.chain →
    order.legacyRequiredMargin executor =
      effective chain.constraints.minProfitabilityBps shared.minProfitabilityBps 4
  margin : ∀ order : CreatedOrder, order.giveChain = chain.chain →
    order.requiredMargin executor =
      let margin := effective chain.constraints.minProfitabilityBps shared.minProfitabilityBps 4
      if executor.disableOpHorizonCampaign then margin
      else max 0 (margin - order.opHorizonRebate executor)
  unlockSize : unlocker.batchUnlockSize chain.chain =
    effectiveBatchSize chain.chain chain.constraints.batchUnlockSize shared.batchUnlockSize
  estimation : ∀ (order : CreatedOrder) payload log data margin context next,
    order.giveChain = chain.chain →
    Reaches (getRawOrderEstimation executor order payload) log
      (.ask (.lookup (.calculateExpectedTakeAmount data margin context)) next) →
    margin = effective chain.constraints.minProfitabilityBps shared.minProfitabilityBps 4 ∧
      context.batchSize =
        effectiveBatchSize chain.chain chain.constraints.batchUnlockSize shared.batchUnlockSize

theorem eq_of_getBatchSize {chainName : ChainId → String} {own shared : Option ℚ} {size : ℚ}
    (h : getBatchSize chainName chainId own shared = .ok size) :
    size = effectiveBatchSize chainId own shared := by
  have hsize : ((own.filter (· ≠ 0)).or (shared.filter (· ≠ 0))).getD 10 =
      effective own shared 10 := rfl
  simp only [getBatchSize, hsize] at h
  rw [effectiveBatchSize]
  split at h
  · cases h
  · split at h
    · rename_i hsolana
      obtain rfl := Except.ok.inj h
      rw [if_pos hsolana.1, min_eq_right hsolana.2.le]
    · rename_i hkeep
      obtain rfl := Except.ok.inj h
      split
      · rename_i hsolana
        exact (min_eq_left (not_lt.mp fun hlt => hkeep ⟨hsolana, hlt⟩)).symm
      · rfl

theorem requiredMargin_eq : order.requiredMargin executor =
    if executor.disableOpHorizonCampaign then order.legacyRequiredMargin executor
    else max 0 (order.legacyRequiredMargin executor - order.opHorizonRebate executor) := by
  have hcap : ∀ margin : ℚ, (if margin < 0 then 0 else margin) = max 0 margin := by
    intro margin
    split
    · rename_i hneg
      exact (max_eq_left hneg.le).symm
    · rename_i hpos
      exact (max_eq_right (not_lt.mp hpos)).symm
  simp only [CreatedOrder.requiredMargin, CreatedOrder.opHorizonRebate, hcap]
  split
  · rfl
  · split
    · rfl
    · split
      · rfl
      · rw [sub_zero]

section Estimation

variable {log : Talk} {payload payload' : OrderEvaluationPayload}
  {context : ExpectedTakeAmountContext}

theorem batchSize_of_getBaseContext (h : Reaches (getBaseContext executor order payload) log
    (.done context)) :
    context.batchSize = (executor.chains order.giveChain).srcConstraints.batchUnlockSize := by
  obtain ⟨_, _, hint, -, -, h⟩ := h.bind_done
  obtain ⟨-, heq⟩ := reaches_done.mp h
  obtain rfl := Dialogue.done.inj heq
  rfl

theorem batchSize_of_getExpectedTakeAmountContext
    (h : Reaches (getExpectedTakeAmountContext executor order payload) log
      (.done (context, payload'))) :
    context.batchSize = (executor.chains order.giveChain).srcConstraints.batchUnlockSize := by
  unfold getExpectedTakeAmountContext at h
  split at h
  · unfold getEvmContext at h
    obtain ⟨_, _, gasPrice, -, -, h⟩ := h.bind_done
    obtain ⟨_, _, priced, -, -, h⟩ := h.bind_done
    split at h
    · exact absurd h (fails_stop _ _)
    · obtain ⟨_, _, charged, -, -, h⟩ := h.bind_done
      obtain ⟨_, _, parentContext, -, hbase, h⟩ := h.bind_done
      obtain ⟨-, heq⟩ := reaches_done.mp h
      obtain ⟨rfl, -⟩ := Prod.mk.inj (Dialogue.done.inj heq)
      exact (batchSize_of_getBaseContext hbase :)
  · obtain ⟨_, _, baseContext, -, hbase, h⟩ := h.bind_done
    obtain ⟨-, heq⟩ := reaches_done.mp h
    obtain ⟨rfl, -⟩ := Prod.mk.inj (Dialogue.done.inj heq)
    exact batchSize_of_getBaseContext hbase

/-- The only question asked while the context of an estimation is built. -/
def IsGasPrice (query : Request) : Prop := ∃ chain, query = .lookup (.getGasPrice chain)

theorem asksGasPrice_call {α : Type} {x : Except String α} :
    Within IsGasPrice (fun _ => True) (call x) :=
  within_call.mono (fun _ h => h) fun _ _ => trivial

theorem asksGasPrice_assert {validation : Bool} {message : String} :
    Within IsGasPrice (fun _ => True) (assert validation message) := by
  cases validation with
  | true => exact within_done
  | false => exact within_stop trivial

theorem asksGasPrice_getBaseContext :
    Within IsGasPrice (fun _ => True) (getBaseContext executor order payload) := by
  apply Within.seq
  · apply Within.seq asksGasPrice_call
    intro route
    split
    · exact asksGasPrice_assert.seq fun _ => within_done
    · exact within_done
  · intro hint
    exact within_done

/-- The context is built without asking for an estimation. -/
theorem asksGasPrice_getExpectedTakeAmountContext :
    Within IsGasPrice (fun _ => True) (getExpectedTakeAmountContext executor order payload) := by
  unfold getExpectedTakeAmountContext
  split
  · apply Within.seq
    · apply within_ask ⟨_, rfl⟩
      rintro (err | gasPrice)
      · exact within_stop trivial
      · exact within_done
    · intro gasPrice
      apply Within.seq
      · exact asksGasPrice_assert.seq fun _ => within_done
      · intro priced
        split
        · exact within_stop trivial
        · apply Within.seq
          · exact asksGasPrice_assert.seq fun _ => within_done
          · intro charged
            exact asksGasPrice_getBaseContext.seq fun _ => within_done
  · exact asksGasPrice_getBaseContext.seq fun _ => within_done

/-- The estimation uses the margin and the batch size of the give chain. -/
theorem estimation_asked {data : OrderData} {margin : ℚ}
    {next : Except String ExpectedTakeAmount → Taking (ExpectedTakeAmount × OrderEvaluationPayload)}
    (h : Reaches (getRawOrderEstimation executor order payload) log
      (.ask (.lookup (.calculateExpectedTakeAmount data margin context)) next)) :
    margin = order.legacyRequiredMargin executor ∧
      context.batchSize = (executor.chains order.giveChain).srcConstraints.batchUnlockSize := by
  rcases h.bind_ask with ⟨_, hask, -⟩ | ⟨_, _, ⟨context', payload'⟩, -, hdone, hask⟩
  · obtain ⟨_, hne⟩ := asksGasPrice_getExpectedTakeAmountContext.asked _ _ _ hask
    cases hne
  · rcases hask.bind_ask with ⟨_, hlookup, -⟩ | ⟨_, _, raw, -, -, hpure⟩
    · rcases reaches_ask.mp hlookup with ⟨-, heq⟩ | ⟨answer, _, -, hend⟩
      · cases heq
        exact ⟨rfl, batchSize_of_getExpectedTakeAmountContext hdone⟩
      · cases answer with
        | error err => cases (reaches_stop.mp hend).2
        | ok raw => cases (reaches_done.mp hend).2
    · cases (reaches_done.mp hpure).2

end Estimation

/-- The resolved constraints of a chain are its own values, or else the shared ones, or else the
defaults; these are what is used if and only if the chain has a budget of its own, or no budget is
shared. -/
theorem shared_enforced_iff (h : Executor.init supportedChain config executor = .ok l)
    (hc : config.definition chainId = some chain) (takeChain : ChainId)
    (unlockAuthority : Address) :
    ∃ launched, l.chains chainId = some launched ∧
      launched.TVLBudget =
        effective chain.constraints.TVLBudget config.srcConstraints.TVLBudget 0 ∧
      launched.srcConstraints.profitability =
        effective chain.constraints.minProfitabilityBps
          config.srcConstraints.minProfitabilityBps 4 ∧
      launched.srcConstraints.batchUnlockSize =
        effectiveBatchSize chainId chain.constraints.batchUnlockSize
          config.srcConstraints.batchUnlockSize ∧
      (SharedEnforced l.executor (unlockerConfig h takeChain unlockAuthority) chain
          config.srcConstraints ↔
        chain.constraints.TVLBudget.getD 0 ≠ 0 ∨ config.srcConstraints.TVLBudget.getD 0 = 0) := by
  obtain ⟨launched, hlaunched, hl, hf⟩ := launchedFrom_of_init h hc
  have hid : chain.chain = chainId := by simpa using List.find?_some hc
  subst hid
  have hbatch := eq_of_getBatchSize hf.batchUnlockSize
  refine ⟨launched, hlaunched, hf.TVLBudget, hf.profitability, hbatch, ?_⟩
  have hlegacy : ∀ order : CreatedOrder, order.giveChain = chain.chain →
      order.legacyRequiredMargin l.executor = effective chain.constraints.minProfitabilityBps
        config.srcConstraints.minProfitabilityBps 4 := by
    intro order hg
    rw [CreatedOrder.legacyRequiredMargin, hg, hl, hf.profitability]
  have hbudget : (l.executor.chains chain.chain).budget = chain.constraints.TVLBudget.getD 0 := by
    rw [hl, hf.budget]
  constructor
  · intro henforced
    have heq := henforced.budget
    rw [hbudget, effective_eq] at heq
    by_cases hown : chain.constraints.TVLBudget.getD 0 = 0
    · right
      by_contra hshared
      rw [if_pos hown, if_neg hshared, hown] at heq
      exact hshared heq.symm
    · exact .inl hown
  · intro hcond
    constructor
    · rw [hbudget, effective_eq]
      split
      · rename_i hown
        rw [if_pos (hcond.resolve_left (not_not.mpr hown)), hown]
      · rfl
    · exact hlegacy
    · intro order hg
      rw [requiredMargin_eq, hlegacy order hg]
    · simp only [unlockerConfig, hc, hl]
      exact hbatch
    · intro order payload log data margin context next hg hask
      obtain ⟨hmargin, hsize⟩ := estimation_asked hask
      rw [hlegacy order hg] at hmargin
      rw [hg, hl, hbatch] at hsize
      exact ⟨hmargin, hsize⟩

/-- A chain without a budget, with a shared one of 100. -/
def Sample.unbounded : ExecutorLaunchConfig := Sample.launchConfig none []

theorem shared_enforced_iff_unbounded :
    ∃ l, ∃ h : Executor.init (fun _ => some .ethereum) Sample.unbounded Sample.daemon = .ok l,
      ∃ launched, l.chains 1 = some launched ∧
        launched.TVLBudget = effective none (some 100) 0 ∧
        launched.srcConstraints.profitability = effective none none 4 ∧
        launched.srcConstraints.batchUnlockSize = effectiveBatchSize 1 none none ∧
        (SharedEnforced l.executor (unlockerConfig h 2 [7])
            (Sample.chainDefinition 1 ⟨⟨none, none, none⟩, ⟨none, none, none⟩, []⟩)
            Sample.unbounded.srcConstraints ↔
          (none : Option ℚ).getD 0 ≠ 0 ∨ (some (100 : ℚ)).getD 0 = 0) := by
  have hok : (Sample.launch Sample.unbounded).toOption.isSome = true := by
    decide +kernel
  obtain ⟨l, h⟩ := exists_ok_of_isSome hok
  have hc : Sample.unbounded.definition 1 =
      some (Sample.chainDefinition 1 ⟨⟨none, none, none⟩, ⟨none, none, none⟩, []⟩) := rfl
  exact ⟨l, h, shared_enforced_iff h hc 2 [7]⟩

/-- The check of the budget passes every order of the chain and does not ask for its TVL. -/
theorem shared_budget_ignored :
    ∃ l, ∃ h : Executor.init (fun _ => some .ethereum) Sample.unbounded Sample.daemon = .ok l,
      (l.executor.chains 1).budget = 0 ∧
      (∀ (env : Talk → (query : Request) → Answer query) (order : CreatedOrder),
        order.giveChain = 1 → play env [] (checkTVLBudget l.executor order) = ([], .inr ())) ∧
      ¬ SharedEnforced l.executor (unlockerConfig h 2 [7])
        (Sample.chainDefinition 1 ⟨⟨none, none, none⟩, ⟨none, none, none⟩, []⟩)
        Sample.unbounded.srcConstraints := by
  have hruns : (Sample.launch Sample.unbounded).toOption.any (fun l =>
      decide ((l.executor.chains 1).budget = 0)) = true := by
    decide +kernel
  obtain ⟨l, h, hl⟩ := exists_ok_of_any hruns
  have hbudget : (l.executor.chains 1).budget = 0 := of_decide_eq_true hl
  refine ⟨l, h, hbudget, ?_, fun henforced => ?_⟩
  · intro env order hg
    rw [checkTVLBudget, hg, hbudget]
    simp only [lt_irrefl, if_false]
    rfl
  · have heq : (l.executor.chains 1).budget = effective none (some 100) 0 := henforced.budget
    rw [hbudget] at heq
    exact absurd heq (by decide +kernel)

end DlnTaker
