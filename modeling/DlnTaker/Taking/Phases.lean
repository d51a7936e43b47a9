import DlnTaker.Launch.Config
import DlnTaker.Library.Rules
import DlnTaker.Limits.Fleet
import DlnTaker.Taking.Taker

/-! # The phases of an attempt

An attempt asks for the TVL, for the throughput and for the fulfil transaction in
this order, each only after the check before it has been passed, and it updates
the controllers of the give chain in one section at its end. These are the rules
that the abstract take runs of a give chain are made of; here `take` is shown to
follow them.
-/

namespace DlnTaker

open Dialogue Taking

/-- What the takers of the orders of one give chain work with. -/
structure TakersConfig where
  executor : Executor
  chain : ChainId
  market : TokenMarket
  orderOf : OrderId → OrderData

/-- The tokens of the buckets on the give chain. -/
def TakersConfig.trackedTokens (config : TakersConfig) : List Address :=
  config.executor.buckets.flatMap fun bucket =>
    ((bucket.tokens.find? (·.1 = config.chain)).map (·.2)).getD []

/-- The configuration of the abstract take runs. -/
def TakersConfig.fleet (config : TakersConfig) : FleetConfig :=
  let chain := config.executor.chains config.chain
  { chain := config.chain
    budget := chain.budget
    fulfillAuthority := chain.fulfillAuthority.bytesAddress
    unlockBeneficiary := chain.unlockBeneficiary
    trackedTokens := config.trackedTokens
    market := config.market
    orderOf := config.orderOf
    finalizedBlockCount := chain.network.finalizedBlockCount
    thresholds := Executor.throughputThresholds chain.srcConstraints.toSrcOrderConstraints
      chain.srcConstraints.perOrderValue chain.network.finalizedBlockCount }

/-- How far an attempt is, as far as its queries tell. -/
inductive Phase
  | validating
  | budgeted (tvl : ℚ)
  | unthrottled
  | fulfilled
  | adding (throughput : ThroughputController)
  | addingAt (throughput : ThroughputController) (now : ℕ)
  | added
  | flushed
  | reported
  | ending

namespace Phase

/-- A phase in which the attempt may look up what it likes. -/
def IsOpen : Phase → Prop
  | validating | budgeted _ | unthrottled | fulfilled => True
  | _ => False

/-- The controllers are not being updated. -/
def MayStop : Phase → Prop
  | added | flushed | reported => False
  | _ => True

end Phase

/-- A lookup that is neither that of the TVL nor the call of the fulfil transaction sender. -/
def Lookup.isPlain : Lookup → Bool
  | .getCurrentTVL _ | .fulfill _ => false
  | _ => true

def Request.IsPlain : Request → Prop
  | .lookup l => l.isPlain = true
  | .now => True
  | _ => False

/-- The prices and the decimals are those of the market, or not to be had. -/
def Lookup.agrees (market : TokenMarket) : (l : Lookup) → Except String l.Found → Bool
  | .getPrice chain token, .ok price => price = market.getPrice chain token
  | .getDecimals chain token, .ok decimals => decimals = market.getDecimals chain token
  | _, _ => true

namespace TakersConfig

variable (config : TakersConfig) (order : CreatedOrder)

def Allowed : Phase → Request → Prop
  | .validating, .lookup (.getCurrentTVL chain) =>
    chain = config.chain ∧ 0 < config.fleet.budget
  | .validating, .throughput chain => chain = config.chain ∧ ¬ 0 < config.fleet.budget
  | .budgeted tvl, .throughput chain =>
    chain = config.chain ∧ tvl + config.fleet.usdValue order.orderId ≤ config.fleet.budget
  | .unthrottled, .lookup (.fulfill _) => True
  | .fulfilled, .throughput chain => chain = config.chain
  | .adding _, .now => True
  | .addingAt throughput now, .setThroughput chain throughput' =>
    chain = config.chain ∧ throughput.addOrder now order.orderId
      (config.fleet.blockConfirmations order) (config.fleet.usdValue order.orderId) =
        .ok throughput'
  | .added, .flushCache chain => chain = config.chain
  | .flushed, .orderFulfilled _ => True
  | .validating, query | .budgeted _, query | .unthrottled, query | .fulfilled, query =>
    query.IsPlain
  | _, _ => False

/-- After the check of the throughput. -/
def checked (throughput : ThroughputController) : Phase :=
  if throughput.isThrottled (config.fleet.blockConfirmations order)
      (config.fleet.usdValue order.orderId) then .ending
  else .unthrottled

def nextPhase : Phase → (query : Request) → Answer query → Phase
  | .validating, .lookup (.getCurrentTVL _), .ok tvl => .budgeted tvl
  | .validating, .lookup (.getCurrentTVL _), .error _ => .ending
  | .validating, .throughput _, throughput | .budgeted _, .throughput _, throughput =>
    config.checked order throughput.1
  | .unthrottled, .lookup (.fulfill _), .ok _ => .fulfilled
  | .unthrottled, .lookup (.fulfill _), .error _ => .ending
  | .fulfilled, .throughput _, throughput => .adding throughput.1
  | .adding throughput, .now, now => .addingAt throughput now
  | .addingAt .., .setThroughput .., _ => .added
  | .added, .flushCache _, _ => .flushed
  | .flushed, .orderFulfilled _, _ => .reported
  | phase, _, _ => phase

/-- The rules of an attempt. -/
def rules : Rules Request Answer Phase where
  Allowed := config.Allowed order
  Expected
    | .lookup l, answer => l.agrees config.market answer = true
    | _, _ => True
  next := config.nextPhase order

/-- The attempt ends when all has been updated, and stops before or not at all. -/
abbrev Proper (phase : Phase) (p : Taking Unit) : Prop :=
  (config.rules order).Follows (fun phase _ => phase = .reported)
    (fun phase _ => phase.MayStop) phase p

/-- The order is what its id says, and it comes from the give chain. -/
structure Fits : Prop where
  orderData : order.orderData = config.orderOf order.orderId
  giveChain : order.giveChain = config.chain

end TakersConfig

variable {config : TakersConfig} {order : CreatedOrder} {phase : Phase} {α β : Type}
  {payload : OrderEvaluationPayload} {executor : Executor}

/-! ### Parts that stay in their phase -/

/-- Only plain lookups are made. -/
abbrev Plain (p : Taking α) : Prop := Within Request.IsPlain (fun _ => True) p

section Plain

variable {l : Lookup} {p : Taking α}

theorem plain_lookup (hl : l.isPlain = true) : Plain (lookup l) :=
  within_ask hl fun
    | .ok _ => within_done
    | .error _ => within_stop trivial

theorem plain_call {x : Except String α} : Plain (call x) := by
  cases x with
  | error err => exact within_stop trivial
  | ok value => exact within_done

theorem plain_stop {s : Stop} : Plain (.stop s : Taking α) := within_stop trivial

theorem plain_pure {value : α} : Plain (pure value : Taking α) := within_done

theorem plain_assert {validation : Bool} {message : String} :
    Plain (assert validation message) := by
  unfold assert
  split
  · exact within_done
  · exact plain_stop

theorem plain_setPayloadEntry {key : String} {entry : Option β} :
    Plain (setPayloadEntry key entry payload) :=
  .seq plain_assert fun _ => plain_pure

theorem plain_getUsdValue : Plain order.getUsdValue :=
  .seq (.seq (plain_lookup rfl) fun _ => .seq (plain_lookup rfl) fun _ => plain_pure)
    fun _ => plain_pure

theorem plain_formatTokenValue {chain : ChainId} {token : Address} {amount : ℤ} :
    Plain (Executor.formatTokenValue chain token amount) :=
  .seq (plain_lookup rfl) fun _ => plain_pure

theorem plain_getMaxProfitableReserveAmount :
    Plain (order.getMaxProfitableReserveAmountWithoutOperatingExpenses executor) := by
  have hgive : Plain (order.getGiveAmountInReserveToken executor) :=
    .seq plain_call fun _ => .seq (plain_lookup rfl) fun _ =>
      .seq (plain_lookup rfl) fun _ => plain_pure
  refine .seq hgive fun _ => .seq plain_call fun _ => ?_
  split
  · exact .seq plain_call fun _ => .seq (plain_lookup rfl) fun _ => plain_pure
  · exact plain_pure

end Plain

namespace OrderValidator

theorem plain_checkOrderId : Plain (checkOrderId executor order) := by
  refine .seq plain_call fun _ => ?_
  split
  · exact plain_stop
  · exact plain_pure

theorem plain_checkExternalCallHash : Plain (checkExternalCallHash executor order) := by
  simp only [checkExternalCallHash]
  split
  · exact plain_pure
  · refine .seq plain_call fun _ => ?_
    split
    · exact plain_stop
    · exact plain_pure

theorem plain_checkAllowedTaker : Plain (checkAllowedTaker executor order) := by
  simp only [checkAllowedTaker]
  split
  · exact plain_pure
  · split
    · exact .seq plain_call fun _ => .seq plain_call fun _ => plain_stop
    · exact plain_pure

theorem plain_checkRouting : Plain (checkRouting executor order) := by
  unfold checkRouting
  split
  · exact plain_pure
  · exact .seq plain_call fun _ => plain_stop

theorem plain_checkPrefulfillSwapAbility :
    Plain (checkPrefulfillSwapAbility executor order) := by
  refine .seq plain_call fun _ => ?_
  split
  · exact .seq plain_call fun _ => .seq plain_call fun _ => plain_stop
  · exact plain_pure

theorem plain_checkTakeStatus : Plain (checkTakeStatus executor order) := by
  refine .seq (plain_lookup rfl) fun _ => ?_
  split
  · exact plain_pure
  · exact plain_pure
  · exact plain_stop

theorem plain_checkFilters : Plain (checkFilters executor order) := by
  refine .seq ?_ fun _ => ?_
  · generalize listOrderFilters executor order = filters
    induction filters with
    | nil => exact plain_pure
    | cons filter filters ih =>
      rw [List.mapM_cons]
      exact .seq (plain_lookup rfl) fun _ => .seq ih fun _ => plain_pure
  · split
    · exact plain_pure
    · exact plain_stop

theorem plain_checkAccountBalance : Plain (checkAccountBalance executor order) := by
  refine .seq plain_call fun _ => .seq plain_getMaxProfitableReserveAmount fun _ =>
    .seq (plain_lookup rfl) fun _ => ?_
  split
  · exact .seq plain_call fun _ => .seq plain_formatTokenValue fun _ =>
      .seq plain_formatTokenValue fun _ => plain_stop
  · exact plain_pure

theorem plain_checkFinalization : Plain (checkFinalization executor order) := by
  simp only [checkFinalization]
  split
  · exact plain_pure
  · split
    · refine .seq plain_getUsdValue fun _ => ?_
      split
      · exact plain_stop
      · exact plain_pure
    · exact plain_stop

theorem plain_checkFulfillmentDelay : Plain (checkFulfillmentDelay executor order) := by
  refine Within.seq ?_ fun _ => ?_
  · unfold getOrderRemainingDelay
    split
    · exact .seq (within_ask trivial fun _ => within_done) fun _ => plain_pure
    · exact plain_pure
  · split
    · exact plain_stop
    · exact plain_pure

theorem plain_checkRoughProfitability :
    Plain (checkRoughProfitability executor order payload) := by
  refine .seq plain_getMaxProfitableReserveAmount fun _ => .seq plain_call fun _ => ?_
  split
  · refine .seq plain_call fun _ => .seq (plain_lookup rfl) fun _ => ?_
    split
    · exact plain_stop
    · exact plain_setPayloadEntry
  · split
    · exact plain_stop
    · exact plain_pure

theorem plain_createOrderFullfillTx {estimation : OrderEstimation} :
    Plain (createOrderFullfillTx executor estimation) := by
  refine Within.seq ?_ fun _ => .seq plain_assert fun _ => plain_pure
  refine .seq plain_call fun _ => ?_
  split
  · split
    · exact plain_stop
    · exact .seq (.seq plain_call fun _ => plain_pure) fun _ => plain_lookup rfl
  · exact .seq (.seq plain_call fun _ => plain_pure) fun _ => plain_lookup rfl

theorem plain_runChecks : Plain (runChecks executor order payload) := by
  unfold runChecks
  split
  · refine .seq plain_getMaxProfitableReserveAmount fun _ =>
      .seq plain_createOrderFullfillTx fun _ =>
      .seq (within_ask rfl fun _ => within_done) fun _ => ?_
    split
    · exact plain_setPayloadEntry
    · exact plain_stop
  · exact plain_pure

theorem plain_checkGiveStatus : Plain (checkGiveStatus executor order) := by
  refine .seq (plain_lookup rfl) fun _ => ?_
  simp only
  split
  · exact plain_stop
  · exact plain_pure
  · exact plain_stop

end OrderValidator

namespace OrderEstimator

theorem plain_getRouteHint : Plain (getRouteHint executor order payload) := by
  refine .seq plain_call fun _ => ?_
  split
  · exact .seq plain_assert fun _ => plain_pure
  · exact plain_pure

theorem plain_getExpectedTakeAmountContext :
    Plain (getExpectedTakeAmountContext executor order payload) := by
  have hbase {payload : OrderEvaluationPayload} : Plain (getBaseContext executor order payload) :=
    .seq plain_getRouteHint fun _ => plain_pure
  unfold getExpectedTakeAmountContext
  split
  · refine .seq (plain_lookup rfl) fun _ => .seq plain_setPayloadEntry fun _ => ?_
    split
    · exact plain_stop
    · exact .seq plain_setPayloadEntry fun _ => .seq hbase fun _ => plain_pure
  · exact .seq hbase fun _ => plain_pure

theorem plain_getPreFulfillSwap {rawEstimation : ExpectedTakeAmount} :
    Plain (getPreFulfillSwap executor order rawEstimation payload) :=
  .seq plain_call fun _ => .seq plain_getRouteHint fun _ => .seq plain_call fun _ =>
    plain_lookup rfl

theorem plain_getEstimation : Plain (getEstimation executor order payload) := by
  refine Within.seq ?_ fun _ => Within.seq ?_ fun _ => ?_
  · exact .seq plain_getExpectedTakeAmountContext fun _ =>
      .seq (plain_lookup rfl) fun _ => plain_pure
  · exact .seq plain_call fun _ => .seq plain_call fun _ => .seq plain_call fun _ =>
      .seq plain_assert fun _ => plain_pure
  · unfold completeEstimation
    split
    · exact .seq plain_getPreFulfillSwap fun _ => .seq plain_setPayloadEntry fun _ => plain_pure
    · exact plain_pure

theorem plain_explainEstimation {estimation : OrderEstimation} :
    Plain (explainEstimation executor estimation) :=
  .seq plain_call fun _ => .seq plain_call fun _ => .seq plain_call fun _ =>
    .seq plain_call fun _ => .seq plain_formatTokenValue fun _ =>
      .seq plain_formatTokenValue fun _ => .seq plain_formatTokenValue fun _ => plain_pure

end OrderEstimator

/-! ### The rules are followed -/

namespace TakersConfig

variable {D : Phase → β → Prop} {p : Taking α} {f : α → Taking β}

/-- The rules of an attempt, to any end. -/
abbrev Goes (config : TakersConfig) (order : CreatedOrder) (D : Phase → β → Prop) (phase : Phase)
    (p : Taking β) : Prop :=
  (config.rules order).Follows D (fun phase _ => phase.MayStop) phase p

theorem allowed_of_isPlain (config : TakersConfig) (order : CreatedOrder) (ho : phase.IsOpen)
    (query : Request) (hq : query.IsPlain) : config.Allowed order phase query ∧
      ∀ answer, config.nextPhase order phase query answer = phase := by
  cases query with
  | lookup l =>
    cases phase with
    | validating | unthrottled =>
      cases l with
      | getCurrentTVL | fulfill => cases hq
      | _ => exact ⟨hq, fun _ => rfl⟩
    | budgeted | fulfilled => exact ⟨hq, fun _ => rfl⟩
    | _ => cases ho
  | now =>
    cases phase with
    | validating | budgeted | unthrottled | fulfilled => exact ⟨hq, fun _ => rfl⟩
    | _ => cases ho
  | _ => cases hq

theorem goes_plain (ho : phase.IsOpen) (hp : Plain p)
    (hf : ∀ value, config.Goes order D phase (f value)) :
    config.Goes order D phase (p >>= f) := by
  have hstop : phase.MayStop := by cases phase <;> trivial
  have hstay : config.Goes order (fun phase' _ => phase' = phase) phase p :=
    hp.follows (allowed_of_isPlain config order ho) fun _ _ => hstop
  refine hstay.bind fun phase' value h => ?_
  subst h
  exact hf value

theorem Fits.budget (h : config.Fits order) :
    (config.executor.chains order.giveChain).budget = config.fleet.budget := by
  rw [h.giveChain]
  rfl

theorem Fits.blockConfirmations (h : config.Fits order) :
    order.blockConfirmations config.executor = config.fleet.blockConfirmations order := by
  unfold CreatedOrder.blockConfirmations
  rw [h.giveChain]
  rfl

/-- The order is worth what the market says. -/
theorem goes_getUsdValue (ho : phase.IsOpen) (h : config.Fits order) {f : ℚ → Taking β}
    (hf : config.Goes order D phase (f (config.fleet.usdValue order.orderId))) :
    config.Goes order D phase (order.getUsdValue >>= f) := by
  have hstop : phase.MayStop := by cases phase <;> trivial
  let give := order.orderData.give
  obtain ⟨hprice, hafterPrice⟩ := allowed_of_isPlain config order ho
    (.lookup (.getPrice give.chainId give.tokenAddress)) rfl
  obtain ⟨hdecimals, hafterDecimals⟩ := allowed_of_isPlain config order ho
    (.lookup (.getDecimals give.chainId give.tokenAddress)) rfl
  refine ⟨hprice, fun answer ha => ?_⟩
  change config.Goes order D (config.nextPhase order phase _ answer) _
  rw [hafterPrice]
  cases answer with
  | error err => exact hstop
  | ok price =>
    refine ⟨hdecimals, fun answer ha' => ?_⟩
    change config.Goes order D (config.nextPhase order phase _ answer) _
    rw [hafterDecimals]
    cases answer with
    | error err => exact hstop
    | ok decimals =>
      obtain rfl : price = config.market.getPrice give.chainId give.tokenAddress :=
        of_decide_eq_true ha
      obtain rfl : decimals = config.market.getDecimals give.chainId give.tokenAddress :=
        of_decide_eq_true ha'
      have hworth : config.fleet.usdValue order.orderId =
          config.market.getUsdValue order.orderData := by
        rw [h.orderData]
        rfl
      rw [hworth] at hf
      exact hf

/-- The check of the TVL budget is behind. -/
def PastBudget (config : TakersConfig) (order : CreatedOrder) (phase : Phase) : Prop :=
  phase = .validating ∧ ¬ 0 < config.fleet.budget ∨ ∃ tvl, phase = .budgeted tvl ∧
    tvl + config.fleet.usdValue order.orderId ≤ config.fleet.budget

theorem PastBudget.isOpen (h : config.PastBudget order phase) : phase.IsOpen := by
  rcases h with ⟨rfl, -⟩ | ⟨tvl, rfl, -⟩ <;> trivial

open OrderValidator OrderEstimator CreatedOrderTaker

theorem goes_checkTVLBudget (h : config.Fits order) :
    config.Goes order (fun phase _ => config.PastBudget order phase) .validating
      (checkTVLBudget config.executor order) := by
  simp only [checkTVLBudget, h.budget]
  split
  · rename_i hpos
    refine ⟨⟨h.giveChain, hpos⟩, fun answer _ => ?_⟩
    cases answer with
    | error err => trivial
    | ok tvl =>
      have hopen : (Phase.budgeted tvl).IsOpen := trivial
      refine goes_getUsdValue hopen h ?_
      split
      · trivial
      · rename_i hle
        exact .inr ⟨tvl, rfl, not_lt.mp hle⟩
  · rename_i hpos
    exact .inl ⟨rfl, hpos⟩

theorem goes_checkThroughput (h : config.Fits order) (hp : config.PastBudget order phase) :
    config.Goes order (fun phase _ => phase = .unthrottled) phase
      (checkThroughput config.executor order) := by
  refine goes_getUsdValue hp.isOpen h ?_
  rw [h.blockConfirmations]
  have hnext : ∀ throughput : Answer (.throughput order.giveChain),
      config.nextPhase order phase (.throughput order.giveChain) throughput =
        config.checked order throughput.1 := by
    intro throughput
    rcases hp with ⟨rfl, -⟩ | ⟨tvl, rfl, -⟩ <;> rfl
  refine ⟨?_, fun throughput _ => ?_⟩
  · rcases hp with ⟨rfl, hpos⟩ | ⟨tvl, rfl, hle⟩
    · exact ⟨h.giveChain, hpos⟩
    · exact ⟨h.giveChain, hle⟩
  · change config.Goes order _ (config.nextPhase order phase _ throughput) (if _ then _ else _)
    rw [hnext, checked]
    by_cases ht : throughput.1.isThrottled (config.fleet.blockConfirmations order)
        (config.fleet.usdValue order.orderId) = true
    · rw [if_pos ht, if_pos ht]
      trivial
    · rw [if_neg ht, if_neg ht]
      rfl

theorem goes_attemptFulfil {estimation : OrderEstimation} :
    config.Goes order (fun phase _ => phase = .fulfilled) .unthrottled
      (attemptFulfil estimation) := by
  refine ⟨trivial, fun sent _ => ?_⟩
  cases sent with
  | ok txHash => rfl
  | error err => trivial

theorem goes_addToThroughput (h : config.Fits order) :
    config.Goes order (fun phase _ => phase = .added) .fulfilled
      (addToThroughput config.executor order (config.fleet.usdValue order.orderId)) := by
  unfold addToThroughput
  rw [h.blockConfirmations]
  refine ⟨h.giveChain, fun throughput _ => ⟨trivial, fun now _ => ?_⟩⟩
  obtain ⟨c, hc, -⟩ := throughput.2.addOrder now order.orderId
    (config.fleet.blockConfirmations order) (config.fleet.usdValue order.orderId)
  dsimp only [Dialogue.bind]
  rw [hc]
  exact ⟨⟨h.giveChain, hc⟩, fun _ _ => rfl⟩

theorem goes_account (h : config.Fits order) {txHash : String} :
    config.Goes order (fun phase _ => phase = .reported) .fulfilled
      (account config.executor order txHash) := by
  have hopen : Phase.fulfilled.IsOpen := trivial
  refine goes_getUsdValue hopen h ?_
  refine (goes_addToThroughput h).bind fun phase _ hphase => ?_
  subst hphase
  exact ⟨h.giveChain, fun _ _ => ⟨trivial, fun _ _ => rfl⟩⟩

theorem goes_validate (h : config.Fits order) :
    config.Goes order (fun phase _ => phase = .unthrottled) .validating
      (validate config.executor order) := by
  have hopen : Phase.validating.IsOpen := trivial
  refine goes_plain hopen plain_checkOrderId fun _ =>
    goes_plain hopen plain_checkExternalCallHash fun _ =>
    goes_plain hopen plain_checkAllowedTaker fun _ =>
    goes_plain hopen plain_checkRouting fun _ =>
    goes_plain hopen plain_checkPrefulfillSwapAbility fun _ =>
    goes_plain hopen plain_checkTakeStatus fun _ =>
    goes_plain hopen plain_checkFilters fun _ =>
    goes_plain hopen plain_checkAccountBalance fun _ =>
    (goes_checkTVLBudget h).bind fun phase _ hpast => ?_
  refine goes_plain hpast.isOpen plain_checkFinalization fun _ =>
    goes_plain hpast.isOpen plain_checkFulfillmentDelay fun _ =>
    (goes_checkThroughput h hpast).bind fun phase _ hphase => ?_
  subst hphase
  have hopen : Phase.unthrottled.IsOpen := trivial
  exact goes_plain hopen plain_checkRoughProfitability fun _ =>
    goes_plain hopen plain_runChecks fun _ =>
    goes_plain hopen plain_checkTakeStatus fun _ =>
    goes_plain hopen plain_checkGiveStatus fun _ => rfl

/-- An attempt follows the rules, whatever it is answered. -/
theorem proper_take (h : config.Fits order) :
    config.Proper order .validating (take config.executor order) := by
  refine (goes_validate h).bind fun phase payload hphase => ?_
  subst hphase
  have hopen : Phase.unthrottled.IsOpen := trivial
  refine goes_plain hopen plain_getEstimation fun estimation => ?_
  split
  · refine goes_attemptFulfil.bind fun phase txHash hphase => ?_
    subst hphase
    exact goes_account h
  · exact goes_plain hopen plain_explainEstimation fun _ => trivial

end TakersConfig

end DlnTaker
