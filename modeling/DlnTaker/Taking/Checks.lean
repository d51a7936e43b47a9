import DlnTaker.Taking.Taker

/-! # What the checks establish

For every check, what the environment has said when the check is passed, and
that a failed one ends in a short circuit or an exception. Checks that ask
nothing are facts about the order and the configuration alone.
-/

namespace DlnTaker

open Dialogue Taking

variable {executor : Executor} {order : CreatedOrder} {log : Talk} {α β : Type}
  {payload payload' : OrderEvaluationPayload}

/-! ### The parts of a dialogue -/

namespace Taking

variable {l : Lookup} {found : l.Found} {x : Except String α} {value : α} {validation : Bool}
  {message : String} {p : Taking α} {entry : Option β}

theorem reaches_request_done {query : Request} {answer : Answer query} :
    Reaches (ask query) log (.done answer) ↔ log = [⟨query, answer⟩] := by
  rw [ask, request, reaches_ask]
  constructor
  · rintro (⟨-, h⟩ | ⟨answer', log', rfl, h⟩)
    · cases h
    · obtain ⟨rfl, heq⟩ := reaches_done.mp h
      obtain rfl := Dialogue.done.inj heq
      rfl
  · rintro rfl
    exact .inr ⟨answer, [], rfl, .refl _⟩

theorem reaches_lookup_done :
    Reaches (lookup l) log (.done found) ↔ log = [⟨.lookup l, .ok found⟩] := by
  rw [lookup, reaches_ask]
  constructor
  · rintro (⟨-, h⟩ | ⟨answer, log', rfl, h⟩)
    · cases h
    · cases answer with
      | error err => cases (reaches_stop.mp h).2
      | ok found' =>
        obtain ⟨rfl, heq⟩ := reaches_done.mp h
        obtain rfl := Dialogue.done.inj heq
        rfl
  · rintro rfl
    exact .inr ⟨.ok found, [], rfl, .refl _⟩

theorem reaches_call_done :
    Reaches (call x) log (.done value) ↔ log = [] ∧ x = .ok value := by
  cases x with
  | error err =>
    constructor
    · exact fun h => absurd h (fails_stop log value)
    · rintro ⟨-, h⟩
      cases h
  | ok value' =>
    rw [call, reaches_done]
    constructor
    · rintro ⟨rfl, h⟩
      exact ⟨rfl, congrArg _ (Dialogue.done.inj h).symm⟩
    · rintro ⟨rfl, h⟩
      exact ⟨rfl, congrArg _ (Except.ok.inj h).symm⟩

theorem reaches_assert_done {u : Unit} :
    Reaches (assert validation message) log (.done u) ↔ log = [] ∧ validation = true := by
  cases validation with
  | false => exact iff_of_false (fails_stop log u) (by simp)
  | true => simp [assert]

theorem reaches_setPayloadEntry_done :
    Reaches (setPayloadEntry message entry payload) log (.done payload') ↔
      log = [] ∧ entry = none ∧ payload' = payload := by
  cases entry with
  | some entry =>
    refine iff_of_false (fun h => ?_) (by simp)
    obtain ⟨log₁, _, _, -, h, -⟩ := h.bind_done
    exact fails_stop log₁ _ h
  | none => simp [setPayloadEntry, assert, pure_eq]

end Taking

/-- The promise settles: the process goes on. -/
def Stop.Settles (s : Stop) : Prop := s.outcome.isSome = true

/-- A lookup that is not the call of the fulfil transaction sender. -/
def Request.IsCalm : Request → Prop
  | .lookup (.fulfill _) => False
  | _ => True

/-- A part of an attempt that sends nothing and does not end the process. -/
abbrev Calm (p : Taking α) : Prop := Within Request.IsCalm Stop.Settles p

section Calm

variable {l : Lookup} {p : Taking α}

theorem calm_lookup (hl : (Request.lookup l).IsCalm) : Calm (lookup l) :=
  within_ask hl fun
    | .ok _ => within_done
    | .error _ => within_stop rfl

theorem calm_call {x : Except String α} : Calm (call x) := by
  cases x with
  | error err => exact within_stop rfl
  | ok value => exact within_done

theorem calm_ask {query : Request} (hq : query.IsCalm) : Calm (ask query) :=
  within_ask hq fun _ => within_done

theorem calm_reject {rejection : RejectionReason} {message : String} :
    Calm (reject rejection message : Taking α) := within_stop rfl

theorem calm_postpone {reason : PostponingReason} {message : String} {delay : Option ℚ} :
    Calm (postpone reason message delay : Taking α) := within_stop rfl

theorem calm_pure {value : α} : Calm (pure value : Taking α) := within_done

theorem calm_assert {message : String} : Calm (assert true message) := within_done

theorem calm_setPayloadEntry {key : String} :
    Calm (setPayloadEntry key (none : Option β) payload) := within_done

theorem calm_getUsdValue : Calm order.getUsdValue := by
  refine Within.seq ?_ fun _ => calm_pure
  exact .seq (calm_lookup trivial) fun _ => .seq (calm_lookup trivial) fun _ => calm_pure

theorem calm_formatTokenValue {chain : ChainId} {token : Address} {amount : ℤ} :
    Calm (Executor.formatTokenValue chain token amount) :=
  .seq (calm_lookup trivial) fun _ => calm_pure

theorem calm_getGiveAmountInReserveToken : Calm (order.getGiveAmountInReserveToken executor) :=
  .seq calm_call fun _ => .seq (calm_lookup trivial) fun _ =>
    .seq (calm_lookup trivial) fun _ => calm_pure

theorem calm_getMaxProfitableReserveAmount :
    Calm (order.getMaxProfitableReserveAmountWithoutOperatingExpenses executor) := by
  refine .seq calm_getGiveAmountInReserveToken fun _ => .seq calm_call fun _ => ?_
  split
  · exact .seq calm_call fun _ => .seq (calm_lookup trivial) fun _ => calm_pure
  · exact calm_pure

end Calm

/-! ### What has been checked -/

section Evidence

variable (executor order log)

def IdMatches : Prop := ∃ calculatedId,
  executor.toolkit.calculateId order.orderData = .ok calculatedId ∧
    executor.toolkit.hexToBuffer calculatedId = executor.toolkit.hexToBuffer order.orderId

def ExternalCallMatches : Prop := ∀ externalCall, order.orderData.externalCall = some externalCall →
  executor.toolkit.getExternalCallHash externalCall.externalCallData =
    .ok (externalCall.externalCallHash.getD [])

def TakerAllowed : Prop := ∀ allowedTaker, order.orderData.allowedTaker = some allowedTaker →
  allowedTaker = (executor.chains order.takeChain).unlockAuthority.bytesAddress

def Routed : Prop := ∃ bucket ∈ executor.buckets, OrderValidator.Routes executor order bucket

def SwapPossible : Prop := ∃ route, order.route executor = .ok route ∧
  (route.requiresSwap = true → ¬ OrderValidator.isDexless executor order.orderData.take.chainId)

/-- The take chain has been asked for the order, and has no state of it. -/
def UnsetOnTake : Prop := ∃ state : Option TakeOrderState,
  log = [⟨.lookup (.getTakeOrderState order.orderId order.takeChain), .ok state⟩] ∧
    ∀ known, state = some known → known.status = .notSet

/-- Every filter has answered `true`. -/
def FiltersPass : Prop :=
  log = ((executor.chains order.takeChain).dstFilters ++
    (executor.chains order.giveChain).srcFilters).map fun filter =>
      ⟨.lookup (.filter filter order.orderData), .ok true⟩

/-- The rough reserve amount as it is computed from what the environment says. -/
def RoughAmount (amount : ℤ) : Prop :=
  Reaches (order.getMaxProfitableReserveAmountWithoutOperatingExpenses executor) log (.done amount)

def UsdValue (usdValue : ℚ) : Prop := Reaches order.getUsdValue log (.done usdValue)

def BalanceCovers : Prop := ∃ route amount, ∃ balance : ℤ, ∃ rough,
  order.route executor = .ok route ∧ RoughAmount executor order rough amount ∧
    log = rough ++ [⟨.lookup (.getBalance order.takeChain route.reserveDstToken
      (executor.chains order.takeChain).fulfillAuthority.bytesAddress), .ok balance⟩] ∧
    amount ≤ balance

def WithinBudget : Prop :=
  if 0 < (executor.chains order.giveChain).budget then
    ∃ (tvl usdValue : ℚ) (worth : Talk),
      log = ⟨.lookup (.getCurrentTVL order.giveChain), .ok tvl⟩ :: worth ∧
        UsdValue order worth usdValue ∧
        tvl + usdValue ≤ (executor.chains order.giveChain).budget
  else log = []

/-- A finalized order, or one that is not worth more than its range of confirmations allows. -/
def FinalEnough : Prop :=
  match order.finalization with
  | .finalized => log = []
  | .confirmations _ => ∃ range usdValue, order.srcConstraintsRange executor = some range ∧
      UsdValue order log usdValue ∧ usdValue ≤ range.upperThreshold

/-- The order has been known for as long as it is to be delayed. -/
def DelayOver : Prop :=
  let delay := OrderValidator.getFulfillmentDelay executor order
  if 0 < delay then
    ∃ now : ℕ, log = [⟨.now, now⟩] ∧ delay * 1000 ≤ (now : ℚ) - order.arrivedAt
  else log = []

def FitsThroughput : Prop := ∃ usdValue worth, ∃ throughput : Answer (.throughput order.giveChain),
  UsdValue order worth usdValue ∧ log = worth ++ [⟨.throughput order.giveChain, throughput⟩] ∧
    throughput.1.isThrottled (order.blockConfirmations executor) usdValue = false

/-- The rough reserve amount, or what a swap makes of it, reaches the take amount. -/
def RoughlyProfitable : Prop := ∃ route amount rough,
  order.route executor = .ok route ∧ RoughAmount executor order rough amount ∧
    if route.requiresSwap then
      ∃ (swap : SwapConnectorRequest) (preliminarySwapResult : SwapConnectorResult),
        log = rough ++ [⟨.lookup (.getSwap swap), .ok preliminarySwapResult⟩] ∧
          swap.amountIn = amount ∧
          order.orderData.take.amount ≤ preliminarySwapResult.amountOut
    else log = rough ∧ order.orderData.take.amount ≤ amount

/-- On an EVM chain the node has estimated the fulfil transaction. -/
def EngineChecksPass : Prop :=
  match executor.toolkit.getEngineByChainId order.takeChain with
  | .evm => ∃ tx, ∃ gasLimit : ℤ, ∃ crafted,
      log = crafted ++ [⟨.lookup (.estimateTx order.takeChain tx), .ok gasLimit⟩]
  | .other => log = []

def CreatedOnGive : Prop :=
  log = [⟨.lookup (.getGiveOrderState order.orderId order.giveChain), .ok (some .created)⟩]

end Evidence

/-- What the estimator finds in the payload: the hint of the validator, if there is one to give,
and no entry of its own. -/
structure Primed (executor : Executor) (order : CreatedOrder) (payload : OrderEvaluationPayload) :
    Prop where
  hint : ∀ route, order.route executor = .ok route → route.requiresSwap = true →
    payload.validationPreFulfillSwap.isSome = true
  preFulfillSwap : payload.preFulfillSwap = none
  gasPrice : payload.evmEstimatedGasPrice = none
  fee : payload.evmEstimatedFee = none

/-- The chain of a swap has a forwarder. -/
def Forwarding (executor : Executor) (order : CreatedOrder) : Prop :=
  ∀ route, order.route executor = .ok route → route.requiresSwap = true →
    ∃ forwarder, executor.toolkit.getForwarderAddress order.orderData.take.chainId = .ok forwarder

/-- The gas limit of the fulfil transaction is known where the chain has one. -/
def GasLimited (executor : Executor) (order : CreatedOrder) (payload : OrderEvaluationPayload) :
    Prop :=
  executor.toolkit.getEngineByChainId order.takeChain = .evm →
    payload.evmFulfillGasLimit.isSome = true

namespace OrderValidator

theorem checkOrderId_done {u : Unit} (h : Reaches (checkOrderId executor order) log (.done u)) :
    log = [] ∧ IdMatches executor order := by
  simp only [checkOrderId] at h
  obtain ⟨_, _, calculatedId, rfl, hc, hr⟩ := h.bind_done
  obtain ⟨rfl, hid⟩ := reaches_call_done.mp hc
  split at hr
  · exact absurd hr (fails_stop _ _)
  · rename_i heq
    exact ⟨(reaches_done.mp hr).1, calculatedId, hid, not_not.mp heq⟩

theorem checkExternalCallHash_done {u : Unit}
    (h : Reaches (checkExternalCallHash executor order) log (.done u)) :
    log = [] ∧ ExternalCallMatches executor order := by
  simp only [checkExternalCallHash] at h
  split at h
  · rename_i hnone
    refine ⟨(reaches_done.mp h).1, fun externalCall hsome => ?_⟩
    rw [hnone] at hsome
    cases hsome
  · rename_i externalCall hsome
    obtain ⟨_, _, calculated, rfl, hc, hr⟩ := h.bind_done
    obtain ⟨rfl, hhash⟩ := reaches_call_done.mp hc
    split at hr
    · exact absurd hr (fails_stop _ _)
    · rename_i heq
      refine ⟨(reaches_done.mp hr).1, fun externalCall' hsome' => ?_⟩
      obtain rfl := Option.some.inj (hsome.symm.trans hsome')
      rw [hhash, not_not.mp heq]

theorem checkAllowedTaker_done {u : Unit}
    (h : Reaches (checkAllowedTaker executor order) log (.done u)) :
    log = [] ∧ TakerAllowed executor order := by
  simp only [checkAllowedTaker] at h
  split at h
  · rename_i hnone
    refine ⟨(reaches_done.mp h).1, fun allowedTaker hsome => ?_⟩
    rw [hnone] at hsome
    cases hsome
  · rename_i allowedTaker hsome
    split at h
    · exact absurd h (fails_bind (fun _ => fails_bind fun _ => fails_stop) _ _)
    · rename_i heq
      refine ⟨(reaches_done.mp h).1, fun allowedTaker' hsome' => ?_⟩
      obtain rfl := Option.some.inj (hsome.symm.trans hsome')
      exact (not_not.mp heq).symm

theorem checkRouting_done {u : Unit} (h : Reaches (checkRouting executor order) log (.done u)) :
    log = [] ∧ Routed executor order := by
  simp only [checkRouting] at h
  split at h
  · rename_i bucket hfind
    refine ⟨(reaches_done.mp h).1, bucket, List.mem_of_find?_eq_some hfind, ?_⟩
    simpa using List.find?_some hfind
  · exact absurd h (fails_bind (fun _ => fails_stop) _ _)

theorem checkPrefulfillSwapAbility_done {u : Unit}
    (h : Reaches (checkPrefulfillSwapAbility executor order) log (.done u)) :
    log = [] ∧ SwapPossible executor order := by
  simp only [checkPrefulfillSwapAbility] at h
  obtain ⟨_, _, route, rfl, hc, hr⟩ := h.bind_done
  obtain ⟨rfl, hroute⟩ := reaches_call_done.mp hc
  split at hr
  · exact absurd hr (fails_bind (fun _ => fails_bind fun _ => fails_stop) _ _)
  · rename_i hdexless
    refine ⟨(reaches_done.mp hr).1, route, hroute, fun hswap hd => hdexless ?_⟩
    rw [hd, hswap]
    rfl

theorem checkTakeStatus_done {u : Unit}
    (h : Reaches (checkTakeStatus executor order) log (.done u)) : UnsetOnTake order log := by
  simp only [checkTakeStatus] at h
  obtain ⟨_, _, state, rfl, hl, hr⟩ := h.bind_done
  obtain rfl := reaches_lookup_done.mp hl
  split at hr
  · rename_i hnone
    obtain ⟨rfl, -⟩ := reaches_done.mp hr
    refine ⟨state, rfl, ?_⟩
    rintro known rfl
    cases hnone
  · rename_i hunset
    obtain ⟨rfl, -⟩ := reaches_done.mp hr
    refine ⟨state, rfl, ?_⟩
    rintro known rfl
    exact Option.some.inj hunset
  · exact absurd hr (fails_stop _ _)

/-- If all filters have answered `true`, these are their answers. -/
theorem reaches_filters_done {filters : List OrderFilter} {answers : List Bool}
    (h : Reaches (filters.mapM fun filter => lookup (.filter filter order.orderData)) log
      (.done answers)) (hall : answers.all id = true) :
    log = filters.map fun filter => ⟨.lookup (.filter filter order.orderData), .ok true⟩ := by
  induction filters generalizing log answers with
  | nil => exact (reaches_done.mp h).1
  | cons filter filters ih =>
    rw [List.mapM_cons] at h
    obtain ⟨_, _, passed, rfl, hl, hr⟩ := h.bind_done
    obtain ⟨_, _, others, rfl, ho, hd⟩ := hr.bind_done
    obtain rfl := reaches_lookup_done.mp hl
    obtain ⟨rfl, heq⟩ := reaches_done.mp hd
    obtain rfl := Dialogue.done.inj heq
    obtain ⟨hpassed, hothers⟩ := Bool.and_eq_true_iff.mp hall
    obtain rfl : passed = true := hpassed
    rw [ih ho hothers, List.append_nil]
    rfl

theorem checkFilters_done {u : Unit} (h : Reaches (checkFilters executor order) log (.done u)) :
    FiltersPass executor order log := by
  simp only [checkFilters] at h
  obtain ⟨_, _, answers, rfl, hl, hr⟩ := h.bind_done
  split at hr
  · rename_i hall
    obtain ⟨rfl, -⟩ := reaches_done.mp hr
    rw [List.append_nil]
    exact reaches_filters_done hl hall
  · exact absurd hr (fails_stop _ _)

theorem checkAccountBalance_done {u : Unit}
    (h : Reaches (checkAccountBalance executor order) log (.done u)) :
    BalanceCovers executor order log := by
  simp only [checkAccountBalance] at h
  obtain ⟨_, _, route, rfl, hc, hr⟩ := h.bind_done
  obtain ⟨rfl, hroute⟩ := reaches_call_done.mp hc
  obtain ⟨rough, _, amount, rfl, hrough, hb⟩ := hr.bind_done
  obtain ⟨_, _, balance, rfl, hl, hd⟩ := hb.bind_done
  obtain rfl := reaches_lookup_done.mp hl
  split at hd
  · refine absurd hd (fails_bind (fun _ => ?_) _ _)
    exact fails_bind fun _ => fails_bind fun _ => fails_stop
  · rename_i hle
    obtain ⟨rfl, -⟩ := reaches_done.mp hd
    exact ⟨route, amount, balance, rough, hroute, hrough, by simp, not_lt.mp hle⟩

theorem checkTVLBudget_done {u : Unit}
    (h : Reaches (checkTVLBudget executor order) log (.done u)) :
    WithinBudget executor order log := by
  simp only [checkTVLBudget] at h
  unfold WithinBudget
  split at h
  · rename_i hpos
    rw [if_pos hpos]
    obtain ⟨_, _, tvl, rfl, hl, hr⟩ := h.bind_done
    obtain rfl := reaches_lookup_done.mp hl
    obtain ⟨worth, _, usdValue, rfl, hw, hd⟩ := hr.bind_done
    split at hd
    · exact absurd hd (fails_stop _ _)
    · rename_i hle
      obtain ⟨rfl, -⟩ := reaches_done.mp hd
      exact ⟨tvl, usdValue, worth, by simp, hw, not_lt.mp hle⟩
  · rename_i hpos
    rw [if_neg hpos]
    exact (reaches_done.mp h).1

theorem checkFinalization_done {u : Unit}
    (h : Reaches (checkFinalization executor order) log (.done u)) :
    FinalEnough executor order log := by
  unfold FinalEnough
  cases hf : order.finalization with
  | finalized =>
    simp only [checkFinalization, hf] at h
    exact (reaches_done.mp h).1
  | confirmations count =>
    simp only [checkFinalization, hf] at h
    split at h
    · rename_i range hrange
      obtain ⟨worth, _, usdValue, rfl, hw, hr⟩ := h.bind_done
      split at hr
      · exact absurd hr (fails_stop _ _)
      · rename_i hle
        obtain ⟨rfl, -⟩ := reaches_done.mp hr
        rw [List.append_nil]
        exact ⟨range, usdValue, hrange, hw, not_lt.mp hle⟩
    · exact absurd h (fails_stop _ _)

theorem checkFulfillmentDelay_done {u : Unit}
    (h : Reaches (checkFulfillmentDelay executor order) log (.done u)) :
    DelayOver executor order log := by
  simp only [checkFulfillmentDelay] at h
  obtain ⟨_, _, remaining, rfl, hd, hr⟩ := h.bind_done
  split at hr
  · exact absurd hr (fails_stop _ _)
  · rename_i hover
    obtain ⟨rfl, -⟩ := reaches_done.mp hr
    rw [List.append_nil]
    unfold getOrderRemainingDelay at hd
    simp only [DelayOver]
    split at hd
    · rename_i hpos
      rw [if_pos hpos]
      obtain ⟨_, _, now, rfl, ha, hn⟩ := hd.bind_done
      obtain rfl := reaches_request_done.mp ha
      obtain ⟨rfl, heq⟩ := reaches_done.mp hn
      obtain rfl := Dialogue.done.inj heq
      refine ⟨now, rfl, ?_⟩
      simp only [getRemainingDelay] at hover
      split at hover
      · rename_i hlt
        exact absurd (div_pos (sub_pos.mpr hlt) (by norm_num)) hover
      · rename_i hle
        exact not_lt.mp hle
    · rename_i hpos
      rw [if_neg hpos]
      exact (reaches_done.mp hd).1

theorem checkThroughput_done {u : Unit}
    (h : Reaches (checkThroughput executor order) log (.done u)) :
    FitsThroughput executor order log := by
  simp only [checkThroughput] at h
  obtain ⟨worth, _, usdValue, rfl, hw, hr⟩ := h.bind_done
  obtain ⟨_, _, throughput, rfl, ha, hd⟩ := hr.bind_done
  obtain rfl := reaches_request_done.mp ha
  split at hd
  · exact absurd hd (fails_stop _ _)
  · rename_i hthrottled
    obtain ⟨rfl, -⟩ := reaches_done.mp hd
    exact ⟨usdValue, worth, throughput, hw, by simp, by simpa using hthrottled⟩

theorem checkRoughProfitability_done
    (h : Reaches (checkRoughProfitability executor order .empty) log (.done payload)) :
    RoughlyProfitable executor order log ∧ Primed executor order payload ∧
      payload.evmFulfillGasLimit = none ∧ Forwarding executor order := by
  simp only [checkRoughProfitability] at h
  obtain ⟨rough, _, amount, rfl, hrough, h₁⟩ := h.bind_done
  obtain ⟨_, _, route, rfl, hc, h₂⟩ := h₁.bind_done
  obtain ⟨rfl, hroute⟩ := reaches_call_done.mp hc
  split at h₂
  · rename_i hswap
    obtain ⟨_, _, destReceiver, rfl, hd, h₃⟩ := h₂.bind_done
    obtain ⟨rfl, hforwarder⟩ := reaches_call_done.mp hd
    obtain ⟨_, _, preliminary, rfl, hl, h₄⟩ := h₃.bind_done
    obtain rfl := reaches_lookup_done.mp hl
    split at h₄
    · exact absurd h₄ (fails_stop _ _)
    · rename_i hle
      obtain ⟨rfl, -, rfl⟩ := reaches_setPayloadEntry_done.mp h₄
      refine ⟨⟨route, amount, rough, hroute, hrough, ?_⟩, ⟨fun _ _ _ => rfl, rfl, rfl, rfl⟩, rfl,
        fun _ _ _ => ⟨destReceiver, hforwarder⟩⟩
      rw [if_pos hswap]
      exact ⟨_, preliminary, rfl, rfl, not_lt.mp hle⟩
  · rename_i hswap
    split at h₂
    · exact absurd h₂ (fails_stop _ _)
    · rename_i hle
      obtain ⟨rfl, heq⟩ := reaches_done.mp h₂
      obtain rfl := Dialogue.done.inj heq
      have hnone : ∀ route', order.route executor = .ok route' → ¬ route'.requiresSwap = true := by
        intro route' hroute'
        obtain rfl := Except.ok.inj (hroute.symm.trans hroute')
        exact hswap
      refine ⟨⟨route, amount, rough, hroute, hrough, ?_⟩,
        ⟨fun route' hroute' hswap' => absurd hswap' (hnone route' hroute'), rfl, rfl, rfl⟩, rfl,
        fun route' hroute' hswap' => absurd hswap' (hnone route' hroute')⟩
      rw [if_neg hswap]
      exact ⟨by simp, not_lt.mp hle⟩

theorem checkEvmEstimation_done
    (h : Reaches (checkEvmEstimation executor order payload) log (.done payload')) :
    (∃ tx, ∃ gasLimit : ℤ, ∃ crafted,
      log = crafted ++ [⟨.lookup (.estimateTx order.takeChain tx), .ok gasLimit⟩]) ∧
    ∃ gasLimit, payload' = { payload with evmFulfillGasLimit := some gasLimit } := by
  simp only [checkEvmEstimation] at h
  obtain ⟨rough, _, amount, rfl, -, h₁⟩ := h.bind_done
  obtain ⟨crafted, _, tx, rfl, -, h₂⟩ := h₁.bind_done
  obtain ⟨_, _, estimated, rfl, ha, h₃⟩ := h₂.bind_done
  obtain rfl := reaches_request_done.mp ha
  cases estimated with
  | error err => exact absurd h₃ (fails_stop _ _)
  | ok gasLimit =>
    obtain ⟨rfl, -, rfl⟩ := reaches_setPayloadEntry_done.mp h₃
    exact ⟨⟨_, gasLimit, rough ++ crafted, (List.append_assoc ..).symm⟩, gasLimit, rfl⟩

theorem runChecks_done (h : Reaches (runChecks executor order payload) log (.done payload'))
    (hp : Primed executor order payload) :
    EngineChecksPass executor order log ∧ Primed executor order payload' ∧
      GasLimited executor order payload' := by
  unfold EngineChecksPass
  cases hengine : executor.toolkit.getEngineByChainId order.takeChain with
  | evm =>
    simp only [runChecks, hengine] at h
    obtain ⟨hestimated, gasLimit, rfl⟩ := checkEvmEstimation_done h
    exact ⟨hestimated, ⟨hp.hint, hp.preFulfillSwap, hp.gasPrice, hp.fee⟩, fun _ => rfl⟩
  | other =>
    simp only [runChecks, hengine] at h
    obtain ⟨rfl, heq⟩ := reaches_done.mp h
    obtain rfl := Dialogue.done.inj heq
    refine ⟨rfl, hp, fun hevm => ?_⟩
    rw [hengine] at hevm
    cases hevm

theorem checkGiveStatus_done {u : Unit}
    (h : Reaches (checkGiveStatus executor order) log (.done u)) : CreatedOnGive order log := by
  simp only [checkGiveStatus] at h
  obtain ⟨_, _, state, rfl, hl, hr⟩ := h.bind_done
  obtain rfl := reaches_lookup_done.mp hl
  split at hr
  · exact absurd hr (fails_stop _ _)
  · obtain ⟨rfl, -⟩ := reaches_done.mp hr
    rfl
  · exact absurd hr (fails_stop _ _)

/-! ### A check that fails sends nothing and lets the process go on -/

theorem calm_checkOrderId : Calm (checkOrderId executor order) := by
  refine .seq calm_call fun _ => ?_
  split
  · exact calm_reject
  · exact calm_pure

theorem calm_checkExternalCallHash : Calm (checkExternalCallHash executor order) := by
  simp only [checkExternalCallHash]
  split
  · exact calm_pure
  · refine .seq calm_call fun _ => ?_
    split
    · exact calm_reject
    · exact calm_pure

theorem calm_checkAllowedTaker : Calm (checkAllowedTaker executor order) := by
  simp only [checkAllowedTaker]
  split
  · exact calm_pure
  · split
    · exact .seq calm_call fun _ => .seq calm_call fun _ => calm_reject
    · exact calm_pure

theorem calm_checkRouting : Calm (checkRouting executor order) := by
  unfold checkRouting
  split
  · exact calm_pure
  · exact .seq calm_call fun _ => calm_reject

theorem calm_checkPrefulfillSwapAbility : Calm (checkPrefulfillSwapAbility executor order) := by
  refine .seq calm_call fun _ => ?_
  split
  · exact .seq calm_call fun _ => .seq calm_call fun _ => calm_reject
  · exact calm_pure

theorem calm_checkTakeStatus : Calm (checkTakeStatus executor order) := by
  refine .seq (calm_lookup trivial) fun _ => ?_
  split
  · exact calm_pure
  · exact calm_pure
  · exact calm_reject

theorem calm_filters {filters : List OrderFilter} :
    Calm (filters.mapM fun filter => lookup (.filter filter order.orderData)) := by
  induction filters with
  | nil => exact calm_pure
  | cons filter filters ih =>
    rw [List.mapM_cons]
    exact .seq (calm_lookup trivial) fun _ => .seq ih fun _ => calm_pure

theorem calm_checkFilters : Calm (checkFilters executor order) := by
  refine .seq calm_filters fun _ => ?_
  split
  · exact calm_pure
  · exact calm_reject

theorem calm_checkAccountBalance : Calm (checkAccountBalance executor order) := by
  refine .seq calm_call fun _ => .seq calm_getMaxProfitableReserveAmount fun _ =>
    .seq (calm_lookup trivial) fun _ => ?_
  split
  · exact .seq calm_call fun _ => .seq calm_formatTokenValue fun _ =>
      .seq calm_formatTokenValue fun _ => calm_postpone
  · exact calm_pure

theorem calm_checkTVLBudget : Calm (checkTVLBudget executor order) := by
  simp only [checkTVLBudget]
  split
  · refine .seq (calm_lookup trivial) fun _ => .seq calm_getUsdValue fun _ => ?_
    split
    · exact calm_postpone
    · exact calm_pure
  · exact calm_pure

theorem calm_checkFinalization : Calm (checkFinalization executor order) := by
  simp only [checkFinalization]
  split
  · exact calm_pure
  · split
    · refine .seq calm_getUsdValue fun _ => ?_
      split
      · exact calm_reject
      · exact calm_pure
    · exact calm_reject

theorem calm_checkFulfillmentDelay : Calm (checkFulfillmentDelay executor order) := by
  refine Within.seq ?_ fun _ => ?_
  · unfold getOrderRemainingDelay
    split
    · exact .seq (calm_ask trivial) fun _ => calm_pure
    · exact calm_pure
  · split
    · exact calm_postpone
    · exact calm_pure

theorem calm_checkThroughput : Calm (checkThroughput executor order) := by
  refine .seq calm_getUsdValue fun _ => .seq (calm_ask trivial) fun _ => ?_
  split
  · exact calm_postpone
  · exact calm_pure

theorem calm_checkRoughProfitability : Calm (checkRoughProfitability executor order .empty) := by
  refine .seq calm_getMaxProfitableReserveAmount fun _ => .seq calm_call fun _ => ?_
  split
  · refine .seq calm_call fun _ => .seq (calm_lookup trivial) fun _ => ?_
    split
    · exact calm_postpone
    · exact calm_setPayloadEntry
  · split
    · exact calm_postpone
    · exact calm_pure

/-- The transaction is crafted only with the swap it needs and without a capped fee. -/
theorem calm_createOrderFullfillTx {estimation : OrderEstimation}
    (hswap : ∀ route, estimation.order.route executor = .ok route → route.requiresSwap = true →
      estimation.payload.preFulfillSwap.isSome = true)
    (hcap : estimation.payload.evmFulfillDisableTxCappedFee = some true) :
    Calm (createOrderFullfillTx executor estimation) := by
  refine Within.seq ?_ fun _ => ?_
  · refine calm_call.bind fun _ route hroute => ?_
    have hroute := (reaches_call_done.mp hroute).2
    split
    · rename_i hrequires
      split
      · rename_i hnone
        have hsome := hswap route hroute hrequires
        rw [hnone] at hsome
        cases hsome
      · exact .seq (.seq calm_call fun _ => calm_pure) fun _ => calm_lookup trivial
    · exact .seq (.seq calm_call fun _ => calm_pure) fun _ => calm_lookup trivial
  · rw [hcap]
    simp only [decide_true, Bool.or_true]
    exact .seq calm_assert fun _ => calm_pure

theorem calm_checkEvmEstimation (hp : Primed executor order payload)
    (hgas : payload.evmFulfillGasLimit = none) :
    Calm (checkEvmEstimation executor order payload) := by
  refine .seq calm_getMaxProfitableReserveAmount fun _ => .seq ?_ fun _ =>
    .seq (calm_ask trivial) fun _ => ?_
  · exact calm_createOrderFullfillTx hp.hint rfl
  · split
    · rw [hgas]
      exact calm_setPayloadEntry
    · exact calm_postpone

theorem calm_runChecks (hp : Primed executor order payload)
    (hgas : payload.evmFulfillGasLimit = none) : Calm (runChecks executor order payload) := by
  unfold runChecks
  split
  · exact calm_checkEvmEstimation hp hgas
  · exact calm_pure

theorem calm_checkGiveStatus : Calm (checkGiveStatus executor order) := by
  refine .seq (calm_lookup trivial) fun _ => ?_
  simp only
  split
  · exact calm_postpone
  · exact calm_pure
  · exact calm_reject

theorem calm_validate : Calm (validate executor order) := by
  refine .seq calm_checkOrderId fun _ => .seq calm_checkExternalCallHash fun _ =>
    .seq calm_checkAllowedTaker fun _ => .seq calm_checkRouting fun _ =>
    .seq calm_checkPrefulfillSwapAbility fun _ => .seq calm_checkTakeStatus fun _ =>
    .seq calm_checkFilters fun _ => .seq calm_checkAccountBalance fun _ =>
    .seq calm_checkTVLBudget fun _ => .seq calm_checkFinalization fun _ =>
    .seq calm_checkFulfillmentDelay fun _ => .seq calm_checkThroughput fun _ =>
    calm_checkRoughProfitability.bind fun _ payload hrough => ?_
  obtain ⟨-, hp, hgas, -⟩ := checkRoughProfitability_done hrough
  exact .seq (calm_runChecks hp hgas) fun _ => .seq calm_checkTakeStatus fun _ =>
    .seq calm_checkGiveStatus fun _ => calm_pure

end OrderValidator

end DlnTaker
