import DlnTaker.Processor.Operations
import DlnTaker.Taking.Checks

/-! # What precedes a fulfilment

When the fulfil transaction sender is called, every check has been passed in the
same attempt and the estimation was profitable. An attempt that sends nothing
ends in a rejection or a postponement of the order, and not in both.
-/

namespace DlnTaker

open Dialogue Taking

variable {executor : Executor} {order : CreatedOrder} {log : Talk}
  {payload payload' : OrderEvaluationPayload} {rawEstimation : ExpectedTakeAmount}
  {estimation : OrderEstimation}

/-! ### Validation -/

/-- What was said during the checks that ask for something, in order. -/
structure Trail where
  takeStatus : Talk
  filters : Talk
  accountBalance : Talk
  tvlBudget : Talk
  finalization : Talk
  fulfillmentDelay : Talk
  throughput : Talk
  roughProfitability : Talk
  engineChecks : Talk
  takeStatusAgain : Talk
  giveStatus : Talk

def Trail.talk (trail : Trail) : Talk :=
  trail.takeStatus ++ (trail.filters ++ (trail.accountBalance ++ (trail.tvlBudget ++
    (trail.finalization ++ (trail.fulfillmentDelay ++ (trail.throughput ++
      (trail.roughProfitability ++ (trail.engineChecks ++ (trail.takeStatusAgain ++
        trail.giveStatus)))))))))

/-- All checks have been passed. -/
structure Validated (executor : Executor) (order : CreatedOrder) (trail : Trail) : Prop where
  orderId : IdMatches executor order
  externalCallHash : ExternalCallMatches executor order
  allowedTaker : TakerAllowed executor order
  routing : Routed executor order
  prefulfillSwapAbility : SwapPossible executor order
  takeStatus : UnsetOnTake order trail.takeStatus
  filters : FiltersPass executor order trail.filters
  accountBalance : BalanceCovers executor order trail.accountBalance
  tvlBudget : WithinBudget executor order trail.tvlBudget
  finalization : FinalEnough executor order trail.finalization
  fulfillmentDelay : DelayOver executor order trail.fulfillmentDelay
  throughput : FitsThroughput executor order trail.throughput
  roughProfitability : RoughlyProfitable executor order trail.roughProfitability
  engineChecks : EngineChecksPass executor order trail.engineChecks
  takeStatusAgain : UnsetOnTake order trail.takeStatusAgain
  giveStatus : CreatedOnGive order trail.giveStatus

open OrderValidator in
theorem validate_done (h : Reaches (validate executor order) log (.done payload)) :
    (Primed executor order payload ∧ Forwarding executor order ∧
      GasLimited executor order payload) ∧
      ∃ trail : Trail, log = trail.talk ∧ Validated executor order trail := by
  unfold validate at h
  obtain ⟨_, _, _, rfl, rid, h₁⟩ := h.bind_done
  obtain ⟨rfl, hid⟩ := checkOrderId_done rid
  obtain ⟨_, _, _, rfl, rext, h₂⟩ := h₁.bind_done
  obtain ⟨rfl, hext⟩ := checkExternalCallHash_done rext
  obtain ⟨_, _, _, rfl, rallowed, h₃⟩ := h₂.bind_done
  obtain ⟨rfl, hallowed⟩ := checkAllowedTaker_done rallowed
  obtain ⟨_, _, _, rfl, rrouted, h₄⟩ := h₃.bind_done
  obtain ⟨rfl, hrouted⟩ := checkRouting_done rrouted
  obtain ⟨_, _, _, rfl, rswap, h₅⟩ := h₄.bind_done
  obtain ⟨rfl, hswap⟩ := checkPrefulfillSwapAbility_done rswap
  obtain ⟨takeStatus, _, _, rfl, htake, h₆⟩ := h₅.bind_done
  obtain ⟨filters, _, _, rfl, hfilters, h₇⟩ := h₆.bind_done
  obtain ⟨accountBalance, _, _, rfl, hbalance, h₈⟩ := h₇.bind_done
  obtain ⟨tvlBudget, _, _, rfl, htvl, h₉⟩ := h₈.bind_done
  obtain ⟨finalization, _, _, rfl, hfinal, h₁₀⟩ := h₉.bind_done
  obtain ⟨fulfillmentDelay, _, _, rfl, hdelay, h₁₁⟩ := h₁₀.bind_done
  obtain ⟨throughput, _, _, rfl, hfits, h₁₂⟩ := h₁₁.bind_done
  obtain ⟨roughProfitability, _, _, rfl, rrough, h₁₃⟩ := h₁₂.bind_done
  obtain ⟨hrough, hprimed, -, hforwarding⟩ := checkRoughProfitability_done rrough
  obtain ⟨engineChecks, _, _, rfl, rengine, h₁₄⟩ := h₁₃.bind_done
  obtain ⟨hengine, hprimed, hlimited⟩ := runChecks_done rengine hprimed
  obtain ⟨takeStatusAgain, _, _, rfl, hagain, h₁₅⟩ := h₁₄.bind_done
  obtain ⟨giveStatus, _, _, rfl, hgive, h₁₆⟩ := h₁₅.bind_done
  obtain ⟨rfl, heq⟩ := reaches_done.mp h₁₆
  obtain rfl := Dialogue.done.inj heq
  refine ⟨⟨hprimed, hforwarding, hlimited⟩, ⟨takeStatus, filters, accountBalance, tvlBudget,
    finalization, fulfillmentDelay, throughput, roughProfitability, engineChecks, takeStatusAgain,
    giveStatus⟩, by simp [Trail.talk], ?_⟩
  exact ⟨hid, hext, hallowed, hrouted, hswap, checkTakeStatus_done htake,
    checkFilters_done hfilters, checkAccountBalance_done hbalance, checkTVLBudget_done htvl,
    checkFinalization_done hfinal, checkFulfillmentDelay_done hdelay, checkThroughput_done hfits,
    hrough, hengine, checkTakeStatus_done hagain, checkGiveStatus_done hgive⟩

/-! ### Estimation -/

/-- The package has made this estimate, and nothing has been said after it. -/
def Estimated (executor : Executor) (order : CreatedOrder) (log : Talk)
    (rawEstimation : ExpectedTakeAmount) : Prop :=
  ∃ before context, log = before ++ [⟨.lookup (.calculateExpectedTakeAmount order.orderData
    (order.legacyRequiredMargin executor) context), .ok rawEstimation⟩]

/-- The package finds the order profitable, and the swap, if one is needed, yields enough. -/
def Profitable (executor : Executor) (order : CreatedOrder) (log : Talk)
    (estimation : OrderEstimation) : Prop :=
  ∃ route rawEstimation estimated, order.route executor = .ok route ∧
    Estimated executor order estimated rawEstimation ∧ rawEstimation.isProfitable = true ∧
    rawEstimation.reserveDstToken = route.reserveDstToken ∧
    estimation.order = order ∧
    estimation.requiredReserveAmount = rawEstimation.requiredReserveDstAmount ∧
    if route.requiresSwap then
      ∃ (swap : SwapConnectorRequest) (preFulfillSwap : SwapConnectorResult),
        log = estimated ++ [⟨.lookup (.getSwap swap), .ok preFulfillSwap⟩] ∧
          swap.amountIn = rawEstimation.requiredReserveDstAmount ∧
          order.orderData.take.amount ≤ preFulfillSwap.amountOut
    else log = estimated

namespace OrderEstimator

theorem getExpectedTakeAmountContext_done {context : ExpectedTakeAmountContext}
    (h : Reaches (getExpectedTakeAmountContext executor order payload) log
      (.done (context, payload'))) :
    payload'.preFulfillSwap = payload.preFulfillSwap ∧
      payload'.validationPreFulfillSwap = payload.validationPreFulfillSwap := by
  unfold getExpectedTakeAmountContext at h
  split at h
  · obtain ⟨_, _, gasPrice, -, -, h₁⟩ := h.bind_done
    obtain ⟨_, _, priced, -, hp, h₂⟩ := h₁.bind_done
    obtain ⟨-, -, rfl⟩ := reaches_setPayloadEntry_done.mp hp
    split at h₂
    · exact absurd h₂ (fails_stop _ _)
    · obtain ⟨_, _, charged, -, hc, h₃⟩ := h₂.bind_done
      obtain ⟨-, -, rfl⟩ := reaches_setPayloadEntry_done.mp hc
      obtain ⟨_, _, parent, -, -, h₄⟩ := h₃.bind_done
      obtain ⟨-, heq⟩ := reaches_done.mp h₄
      obtain ⟨-, rfl⟩ := Prod.mk.inj (Dialogue.done.inj heq)
      exact ⟨rfl, rfl⟩
  · obtain ⟨_, _, parent, -, -, h₁⟩ := h.bind_done
    obtain ⟨-, heq⟩ := reaches_done.mp h₁
    obtain ⟨-, rfl⟩ := Prod.mk.inj (Dialogue.done.inj heq)
    exact ⟨rfl, rfl⟩

theorem getRawOrderEstimation_done
    (h : Reaches (getRawOrderEstimation executor order payload) log
      (.done (rawEstimation, payload'))) :
    Estimated executor order log rawEstimation ∧
      payload'.preFulfillSwap = payload.preFulfillSwap ∧
      payload'.validationPreFulfillSwap = payload.validationPreFulfillSwap := by
  unfold getRawOrderEstimation at h
  obtain ⟨before, _, ⟨context, _⟩, rfl, hc, h₁⟩ := h.bind_done
  obtain ⟨_, _, found, rfl, hl, h₂⟩ := h₁.bind_done
  obtain rfl := reaches_lookup_done.mp hl
  obtain ⟨rfl, heq⟩ := reaches_done.mp h₂
  obtain ⟨rfl, rfl⟩ := Prod.mk.inj (Dialogue.done.inj heq)
  exact ⟨⟨before, context, by rw [List.append_nil]⟩, getExpectedTakeAmountContext_done hc⟩

theorem assertReserveToken_done {route : Route}
    (h : Reaches (assertReserveToken executor order rawEstimation) log (.done route)) :
    log = [] ∧ order.route executor = .ok route ∧
      rawEstimation.reserveDstToken = route.reserveDstToken := by
  simp only [assertReserveToken] at h
  obtain ⟨_, _, route', rfl, hr, h₁⟩ := h.bind_done
  obtain ⟨rfl, hroute'⟩ := reaches_call_done.mp hr
  obtain ⟨_, _, picked, rfl, hp, h₂⟩ := h₁.bind_done
  obtain ⟨rfl, -⟩ := reaches_call_done.mp hp
  obtain ⟨_, _, returned, rfl, ht, h₃⟩ := h₂.bind_done
  obtain ⟨rfl, -⟩ := reaches_call_done.mp ht
  obtain ⟨_, _, _, rfl, ha, h₄⟩ := h₃.bind_done
  obtain ⟨rfl, heq⟩ := reaches_assert_done.mp ha
  obtain ⟨rfl, hroute⟩ := reaches_done.mp h₄
  obtain rfl := Dialogue.done.inj hroute
  exact ⟨rfl, hroute', of_decide_eq_true heq⟩

theorem getRouteHint_done {routeHint : Option SwapConnectorResult}
    (h : Reaches (getRouteHint executor order payload) log (.done routeHint)) : log = [] := by
  unfold getRouteHint at h
  obtain ⟨_, _, route, rfl, hr, h₁⟩ := h.bind_done
  obtain ⟨rfl, -⟩ := reaches_call_done.mp hr
  split at h₁
  · obtain ⟨_, _, _, rfl, ha, h₂⟩ := h₁.bind_done
    obtain ⟨rfl, -⟩ := reaches_assert_done.mp ha
    exact (reaches_done.mp h₂).1
  · exact (reaches_done.mp h₁).1

theorem getPreFulfillSwap_done {preFulfillSwap : SwapConnectorResult}
    (h : Reaches (getPreFulfillSwap executor order rawEstimation payload) log
      (.done preFulfillSwap)) :
    ∃ swap : SwapConnectorRequest, log = [⟨.lookup (.getSwap swap), .ok preFulfillSwap⟩] ∧
      swap.amountIn = rawEstimation.requiredReserveDstAmount := by
  simp only [getPreFulfillSwap] at h
  obtain ⟨_, _, slippageBps, rfl, hs, h₁⟩ := h.bind_done
  obtain ⟨rfl, -⟩ := reaches_call_done.mp hs
  obtain ⟨_, _, routeHint, rfl, hh, h₂⟩ := h₁.bind_done
  obtain rfl := getRouteHint_done hh
  obtain ⟨_, _, destReceiver, rfl, hd, h₃⟩ := h₂.bind_done
  obtain ⟨rfl, -⟩ := reaches_call_done.mp hd
  obtain rfl := reaches_lookup_done.mp h₃
  exact ⟨_, rfl, rfl⟩

theorem getEstimation_done
    (h : Reaches (getEstimation executor order payload) log (.done estimation))
    (hprofitable : estimation.isProfitable = true) :
    Profitable executor order log estimation := by
  unfold getEstimation at h
  obtain ⟨estimated, _, ⟨raw, _⟩, rfl, hraw, h₁⟩ := h.bind_done
  obtain ⟨hestimated, -, -⟩ := getRawOrderEstimation_done hraw
  obtain ⟨_, _, route, rfl, ha, h₂⟩ := h₁.bind_done
  obtain ⟨rfl, hroute, haligned⟩ := assertReserveToken_done ha
  unfold completeEstimation at h₂
  split at h₂
  · rename_i hswap
    obtain ⟨_, _, preFulfillSwap, rfl, hs, h₃⟩ := h₂.bind_done
    obtain ⟨swap, rfl, hamount⟩ := getPreFulfillSwap_done hs
    obtain ⟨_, _, _, rfl, hp, h₄⟩ := h₃.bind_done
    obtain ⟨rfl, -, -⟩ := reaches_setPayloadEntry_done.mp hp
    obtain ⟨rfl, heq⟩ := reaches_done.mp h₄
    obtain rfl := Dialogue.done.inj heq
    obtain ⟨hraw, hle⟩ := Bool.and_eq_true_iff.mp hprofitable
    refine ⟨route, raw, estimated, hroute, hestimated, hraw, haligned, rfl, rfl, ?_⟩
    rw [if_pos hswap]
    exact ⟨swap, preFulfillSwap, rfl, hamount, of_decide_eq_true hle⟩
  · rename_i hswap
    obtain ⟨rfl, heq⟩ := reaches_done.mp h₂
    obtain rfl := Dialogue.done.inj heq
    refine ⟨route, raw, estimated, hroute, hestimated, hprofitable, haligned, rfl, rfl, ?_⟩
    rw [if_neg hswap, List.nil_append, List.append_nil]

theorem calm_getRouteHint (hint : ∀ route, order.route executor = .ok route →
    route.requiresSwap = true → payload.validationPreFulfillSwap.isSome = true) :
    Calm (getRouteHint executor order payload) := by
  refine calm_call.bind fun _ route hr => ?_
  have hroute := (reaches_call_done.mp hr).2
  split
  · rename_i hswap
    rw [hint route hroute hswap]
    exact .seq calm_assert fun _ => calm_pure
  · exact calm_pure

theorem calm_getExpectedTakeAmountContext (hp : Primed executor order payload) :
    Calm (getExpectedTakeAmountContext executor order payload) := by
  unfold getExpectedTakeAmountContext
  split
  · refine .seq (calm_lookup trivial) fun gasPrice => ?_
    rw [hp.gasPrice]
    refine calm_setPayloadEntry.bind fun _ priced hpriced => ?_
    obtain ⟨-, -, rfl⟩ := reaches_setPayloadEntry_done.mp hpriced
    split
    · exact within_stop rfl
    · rw [hp.fee]
      refine calm_setPayloadEntry.bind fun _ charged hcharged => ?_
      obtain ⟨-, -, rfl⟩ := reaches_setPayloadEntry_done.mp hcharged
      exact .seq (.seq (calm_getRouteHint hp.hint) fun _ => calm_pure) fun _ => calm_pure
  · exact .seq (.seq (calm_getRouteHint hp.hint) fun _ => calm_pure) fun _ => calm_pure

theorem calm_getRawOrderEstimation (hp : Primed executor order payload) :
    Calm (getRawOrderEstimation executor order payload) :=
  .seq (calm_getExpectedTakeAmountContext hp) fun _ =>
    .seq (calm_lookup trivial) fun _ => calm_pure

/-- The package has picked another reserve token than the taker. -/
def Misaligned (executor : Executor) (order : CreatedOrder) (rawEstimation : ExpectedTakeAmount) :
    Prop :=
  ∃ route, order.route executor = .ok route ∧
    rawEstimation.reserveDstToken ≠ route.reserveDstToken

theorem within_call {α : Type} {x : Except String α} {P : Request → Prop} :
    Within P Stop.Settles (call x) := by
  cases x with
  | error err => exact within_stop rfl
  | ok value => exact within_done

/-- The process ends here, if anywhere. -/
theorem within_assertReserveToken : Within (fun _ => False)
    (fun s => s.Settles ∨ Misaligned executor order rawEstimation)
    (assertReserveToken executor order rawEstimation) := by
  have hcall : ∀ {α : Type} {x : Except String α}, Within (fun _ => False)
      (fun s => s.Settles ∨ Misaligned executor order rawEstimation) (call x) :=
    within_call.mono (fun _ => id) fun _ => .inl
  refine hcall.bind fun _ route hr => .seq hcall fun _ => .seq hcall fun _ => .seq ?_ fun _ =>
    within_done
  have hroute := (reaches_call_done.mp hr).2
  by_cases h : rawEstimation.reserveDstToken = route.reserveDstToken
  · rw [h, decide_eq_true rfl]
    exact within_done
  · rw [decide_eq_false h]
    exact within_stop (.inr ⟨route, hroute, h⟩)

theorem calm_completeEstimation {route : Route}
    (hint : ∀ route, order.route executor = .ok route → route.requiresSwap = true →
      payload.validationPreFulfillSwap.isSome = true) (hnone : payload.preFulfillSwap = none) :
    Calm (completeEstimation executor order rawEstimation route payload) := by
  unfold completeEstimation
  split
  · refine .seq ?_ fun _ => ?_
    · exact .seq calm_call fun _ => .seq (calm_getRouteHint hint) fun _ => .seq calm_call fun _ =>
        calm_lookup trivial
    · rw [hnone]
      exact .seq calm_setPayloadEntry fun _ => calm_pure
  · exact calm_pure

/-- What is known between the two parts of `getEstimation`. -/
theorem calm_completeEstimation_of_raw {route : Route} (hp : Primed executor order payload)
    (h : Reaches (getRawOrderEstimation executor order payload) log
      (.done (rawEstimation, payload'))) :
    Calm (completeEstimation executor order rawEstimation route payload') := by
  obtain ⟨-, hf, hv⟩ := getRawOrderEstimation_done h
  refine calm_completeEstimation (fun route hroute hswap => ?_) (hf.trans hp.preFulfillSwap)
  rw [hv]
  exact hp.hint route hroute hswap

theorem getEstimation_ask {query : Request} {next : Answer query → Taking OrderEstimation}
    (hp : Primed executor order payload)
    (h : Reaches (getEstimation executor order payload) log (.ask query next)) : query.IsCalm := by
  unfold getEstimation at h
  rcases h.bind_ask with ⟨_, hraw, -⟩ | ⟨_, _, ⟨raw, _⟩, -, hraw, h₁⟩
  · exact (calm_getRawOrderEstimation hp).asked _ _ _ hraw
  · rcases h₁.bind_ask with ⟨_, ha, -⟩ | ⟨_, _, route, -, -, h₂⟩
    · exact (within_assertReserveToken.asked _ _ _ ha).elim
    · exact (calm_completeEstimation_of_raw hp hraw).asked _ _ _ h₂

theorem getEstimation_stop {s : Stop} (hp : Primed executor order payload)
    (h : Reaches (getEstimation executor order payload) log (.stop s)) :
    s.Settles ∨ ∃ rawEstimation, Estimated executor order log rawEstimation ∧
      Misaligned executor order rawEstimation := by
  unfold getEstimation at h
  rcases h.bind_stop with hraw | ⟨_, _, ⟨raw, _⟩, rfl, hraw, h₁⟩
  · exact .inl ((calm_getRawOrderEstimation hp).stopped _ _ hraw)
  · obtain ⟨hestimated, -, -⟩ := getRawOrderEstimation_done hraw
    rcases h₁.bind_stop with ha | ⟨_, _, route, -, -, h₂⟩
    · obtain rfl := within_assertReserveToken.eq_nil ha
      rw [List.append_nil]
      exact (within_assertReserveToken.stopped _ _ ha).imp_right fun hm => ⟨raw, hestimated, hm⟩
    · exact .inl ((calm_completeEstimation_of_raw hp hraw).stopped _ _ h₂)

theorem calm_explainEstimation : Calm (explainEstimation executor estimation) :=
  .seq calm_call fun _ => .seq calm_call fun _ => .seq calm_call fun _ => .seq calm_call fun _ =>
    .seq calm_formatTokenValue fun _ => .seq calm_formatTokenValue fun _ =>
    .seq calm_formatTokenValue fun _ => calm_pure

end OrderEstimator

/-! ### The attempt -/

namespace CreatedOrderTaker

open OrderEstimator OrderValidator

/-- The fulfil transaction sender has not been called. -/
def Silent (log : Talk) : Prop :=
  ∀ estimation, ∀ sent : Except String String, ⟨.lookup (.fulfill estimation), sent⟩ ∉ log

theorem attemptFulfil_done {txHash : String}
    (h : Reaches (attemptFulfil estimation) log (.done txHash)) :
    log = [⟨.lookup (.fulfill estimation), .ok txHash⟩] := by
  unfold attemptFulfil at h
  obtain ⟨_, _, sent, rfl, ha, h₁⟩ := h.bind_done
  obtain rfl := reaches_request_done.mp ha
  cases sent with
  | error err => exact absurd h₁ (fails_stop _ _)
  | ok txHash' =>
    obtain ⟨rfl, heq⟩ := reaches_done.mp h₁
    obtain rfl := Dialogue.done.inj heq
    rfl

/-- The sender is called, and its hash is the result. -/
theorem attemptFulfil_ask {estimation' : OrderEstimation}
    {next : Except String String → Taking String}
    (h : Reaches (attemptFulfil estimation) log (.ask (.lookup (.fulfill estimation')) next)) :
    log = [] ∧ estimation' = estimation ∧ ∀ txHash, next (.ok txHash) = .done txHash := by
  unfold attemptFulfil at h
  rcases h.bind_ask with ⟨next', ha, hn⟩ | ⟨_, _, sent, -, -, h₁⟩
  · rcases reaches_ask.mp ha with ⟨rfl, heq⟩ | ⟨answer, _, -, hd⟩
    · cases heq
      exact ⟨rfl, rfl, fun txHash => congrFun hn (.ok txHash)⟩
    · cases (reaches_done.mp hd).2
  · cases sent with
    | error err => cases (reaches_stop.mp h₁).2
    | ok txHash => cases (reaches_done.mp h₁).2

/-- A failure of the sender comes after its call. -/
theorem attemptFulfil_stop {s : Stop} (h : Reaches (attemptFulfil estimation) log (.stop s)) :
    ¬ Silent log := by
  unfold attemptFulfil at h
  rcases h.bind_stop with ha | ⟨_, _, sent, rfl, ha, h₁⟩
  · rcases reaches_ask.mp ha with ⟨-, heq⟩ | ⟨answer, _, -, hd⟩
    · cases heq
    · cases (reaches_done.mp hd).2
  · obtain rfl := reaches_request_done.mp ha
    exact fun hs => hs estimation sent (by simp)

theorem calm_addToThroughput {usdValue : ℚ} :
    Calm (addToThroughput executor order usdValue) := by
  refine .seq (calm_ask trivial) fun throughput => .seq (calm_ask trivial) fun now => ?_
  obtain ⟨c, hc, -⟩ := throughput.2.addOrder now order.orderId
    (order.blockConfirmations executor) usdValue
  rw [hc]
  exact calm_ask trivial

theorem calm_account {txHash : String} : Calm (account executor order txHash) :=
  .seq calm_getUsdValue fun _ => .seq calm_addToThroughput fun _ =>
    .seq (calm_ask trivial) fun _ => calm_ask trivial

/-- Every check has been passed, and the order has been found profitable. -/
def Passed (executor : Executor) (order : CreatedOrder) (log : Talk)
    (estimation : OrderEstimation) : Prop :=
  ∃ (trail : Trail) (estimated : Talk), log = trail.talk ++ estimated ∧
    Validated executor order trail ∧ Profitable executor order estimated estimation

/-- The package picks the reserve token of the route. -/
def Aligned (executor : Executor) (order : CreatedOrder) (log : Talk) : Prop :=
  ∀ margin context, ∀ rawEstimation : ExpectedTakeAmount, ∀ route,
    ⟨.lookup (.calculateExpectedTakeAmount order.orderData margin context),
      .ok rawEstimation⟩ ∈ log →
    order.route executor = .ok route → rawEstimation.reserveDstToken = route.reserveDstToken

/-- `takeOrder` ends with one call, of `rejectOrder` or of `postponeOrder`. -/
def EndsUnfulfilled (s : Stop) : Prop := ∃ outcome, s.outcome = some outcome ∧
  ∀ (p : OrderProcessor) (network : Network) (pending : PendingTake), ∃ e,
    (p.settleTake network pending outcome).effects = p.effects ++ [e] ∧
      ((∃ params, e = .orderRejected params) ∨ ∃ params, e = .orderPostponed params)

theorem endsUnfulfilled_of_settles {s : Stop} (h : s.Settles) : EndsUnfulfilled s := by
  have hpostpone : ∀ (p : OrderProcessor) (orderId : OrderId) (data : OrderData) (isLive : Bool)
      (attempts : ℕ) (message : String) (reason : PostponingReason) (delay : Option ℚ), ∃ e,
      (p.postponeOrder orderId data isLive attempts message reason delay).effects =
        p.effects ++ [e] ∧ ((∃ params, e = .orderRejected params) ∨
          ∃ params, e = .orderPostponed params) := by
    intro p orderId data isLive attempts message reason delay
    obtain ⟨params, _, heq⟩ := @OrderProcessor.postponeOrder_eq p orderId data isLive attempts
      message reason delay
    exact ⟨_, by rw [heq]; rfl, .inr ⟨params, rfl⟩⟩
  cases s with
  | reject rejection message => exact ⟨_, rfl, fun p network pending => ⟨_, rfl, .inl ⟨_, rfl⟩⟩⟩
  | postpone reason message delay =>
    exact ⟨_, rfl, fun p network pending => hpostpone p _ _ _ _ _ _ _⟩
  | thrown error => exact ⟨_, rfl, fun p network pending => hpostpone p _ _ _ _ _ _ _⟩
  | died message => cases h

/-- After the validation the sender is called with a profitable estimation, and the accounting
follows its success. -/
theorem evaluated_ask {validated : Talk} {next : Except String String → Taking Unit}
    (hprimed : Primed executor order payload)
    (hv : Reaches (validate executor order) validated (.done payload))
    (h : Reaches (take executor order) (validated ++ log)
      (.ask (.lookup (.fulfill estimation)) next)) :
    Reaches (getEstimation executor order payload) log (.done estimation) ∧
      estimation.isProfitable = true ∧
      ∀ txHash, next (.ok txHash) = account executor order txHash := by
  rcases (hv.after h).bind_ask with ⟨_, he, -⟩ | ⟨estimated, _, estimation', rfl, he, h₁⟩
  · exact (getEstimation_ask hprimed he).elim
  · split at h₁
    · rename_i hprofitable
      rcases h₁.bind_ask with ⟨next', hs, rfl⟩ | ⟨_, _, txHash, -, -, h₂⟩
      · obtain ⟨rfl, rfl, hn⟩ := attemptFulfil_ask hs
        rw [List.append_nil]
        refine ⟨he, hprofitable, fun txHash => ?_⟩
        change (next' (.ok txHash) >>= fun hash => account executor order hash) = _
        rw [hn txHash]
        rfl
      · exact (calm_account.asked _ _ _ h₂).elim
    · refine ((Within.seq calm_explainEstimation fun _ => ?_).asked _ _ _ h₁).elim
      exact calm_postpone

/-- After the validation an attempt that sends nothing stops in the estimator, over the explanation
of an estimation that is not profitable, or with it. -/
theorem evaluated_stop {validated : Talk} {s : Stop}
    (hv : Reaches (validate executor order) validated (.done payload))
    (h : Reaches (take executor order) (validated ++ log) (.stop s)) (hs : Silent log) :
    Reaches (getEstimation executor order payload) log (.stop s) ∨
      ∃ estimated explained estimation, log = estimated ++ explained ∧
        Reaches (getEstimation executor order payload) estimated (.done estimation) ∧
        ¬ estimation.isProfitable = true ∧
        (Reaches (explainEstimation executor estimation) explained (.stop s) ∨
          ∃ explanation,
            Reaches (explainEstimation executor estimation) explained (.done explanation) ∧
            s = .postpone .notProfitable explanation none) := by
  rcases (hv.after h).bind_stop with he | ⟨estimated, last, estimation, rfl, he, h₁⟩
  · exact .inl he
  · right
    split at h₁
    · exfalso
      rcases h₁.bind_stop with ha | ⟨_, _, txHash, rfl, ha, -⟩
      · exact attemptFulfil_stop ha fun estimation sent hm => hs estimation sent (by simp [hm])
      · obtain rfl := attemptFulfil_done ha
        exact hs estimation (.ok txHash) (by simp)
    · rename_i hunprofitable
      refine ⟨estimated, last, estimation, rfl, he, hunprofitable, ?_⟩
      rcases h₁.bind_stop with hx | ⟨explained, _, explanation, rfl, hx, h₂⟩
      · exact .inl hx
      · obtain ⟨rfl, heq⟩ := reaches_stop.mp h₂
        rw [List.append_nil]
        exact .inr ⟨explanation, hx, Dialogue.stop.inj heq⟩

/-- When the sender is called every check has been passed; the accounting follows its success. -/
theorem take_ask {next : Except String String → Taking Unit}
    (h : Reaches (take executor order) log (.ask (.lookup (.fulfill estimation)) next)) :
    Passed executor order log estimation ∧
      ∀ txHash, next (.ok txHash) = account executor order txHash := by
  rcases Reaches.bind_ask h with ⟨_, hv, -⟩ | ⟨validated, estimated, payload, rfl, hv, -⟩
  · exact (calm_validate.asked _ _ _ hv).elim
  · obtain ⟨⟨hprimed, -⟩, trail, rfl, hvalidated⟩ := validate_done hv
    obtain ⟨he, hprofitable, hn⟩ := evaluated_ask hprimed hv h
    exact ⟨⟨trail, estimated, rfl, hvalidated, getEstimation_done he hprofitable⟩, hn⟩

/-- An attempt that sends nothing settles, or ends the process over the reserve token. -/
theorem take_stop {s : Stop} (h : Reaches (take executor order) log (.stop s))
    (hs : Silent log) : s.Settles ∨ ∃ rawEstimation context,
      ⟨.lookup (.calculateExpectedTakeAmount order.orderData
        (order.legacyRequiredMargin executor) context), .ok rawEstimation⟩ ∈ log ∧
      Misaligned executor order rawEstimation := by
  rcases Reaches.bind_stop h with hv | ⟨validated, last, payload, rfl, hv, -⟩
  · exact .inl (calm_validate.stopped _ _ hv)
  · obtain ⟨⟨hprimed, -⟩, -⟩ := validate_done hv
    have hsilent : Silent last := fun estimation sent hm => hs estimation sent (by simp [hm])
    rcases evaluated_stop hv h hsilent with he | ⟨_, _, estimation, -, -, -, hx | ⟨_, -, rfl⟩⟩
    · refine (getEstimation_stop hprimed he).imp_right ?_
      rintro ⟨rawEstimation, ⟨before, context, rfl⟩, hm⟩
      exact ⟨rawEstimation, context, by simp, hm⟩
    · exact .inl (calm_explainEstimation.stopped _ _ hx)
    · exact .inl rfl

theorem take_done {u : Unit} (h : Reaches (take executor order) log (.done u)) :
    ¬ Silent log := by
  unfold take at h
  obtain ⟨_, _, payload, rfl, -, h₁⟩ := h.bind_done
  obtain ⟨_, _, estimation, rfl, -, h₂⟩ := h₁.bind_done
  split at h₂
  · obtain ⟨_, _, txHash, rfl, ha, -⟩ := h₂.bind_done
    obtain rfl := attemptFulfil_done ha
    exact fun hs => hs estimation (.ok txHash) (by simp)
  · exact absurd h₂ (fails_bind (fun _ => fails_stop) _ _)

/-- The fulfil transaction sender is called only after every check has been passed, and an
attempt that ends without that call rejects or postpones the order. -/
theorem fulfil_checked (executor : Executor) (order : CreatedOrder) :
    (∀ log estimation next,
      Reaches (take executor order) log (.ask (.lookup (.fulfill estimation)) next) →
        Passed executor order log estimation) ∧
    ∀ log r, Reaches (take executor order) log (ended r) → Silent log →
      Aligned executor order log → ∃ s, r = .inl s ∧ EndsUnfulfilled s := by
  refine ⟨fun log estimation next h => (take_ask h).1, fun log r h hs haligned => ?_⟩
  cases r with
  | inr u => exact absurd hs (take_done h)
  | inl s =>
    refine ⟨s, rfl, endsUnfulfilled_of_settles ?_⟩
    rcases take_stop h hs with hsettles | ⟨raw, context, hm, route, hroute, hne⟩
    · exact hsettles
    · exact absurd (haligned _ context raw route hm hroute) hne

end CreatedOrderTaker

/-! ### Runs on fixed inputs -/

def Request.isFulfill : Request → Bool
  | .lookup (.fulfill _) => true
  | _ => false

def Request.isEstimate : Request → Bool
  | .lookup (.calculateExpectedTakeAmount ..) => true
  | _ => false

namespace Sample

/-- Every hash is that of the order below, and only chain 2 is an EVM chain. -/
def toolkit : Toolkit where
  calculateId _ := .ok "0xa"
  getVerified _ _ := .ok ()
  getExternalCallHash data := .ok data
  hexToBuffer text := text.toList.map fun c => UInt8.ofNat c.toNat
  bufferToHex _ := "0x"
  tokenAddressToString _ _ := .ok "0x"
  isOneOf bucket chain token := bucket.tokens.any fun x => x.1 = chain ∧ x.2.any (· = token)
  findFirstToken bucket chain := (bucket.tokens.find? (·.1 = chain)).bind (·.2.head?)
  findExpectedBucket _ _ := .ok [20]
  getForwarderAddress _ := .ok []
  getEngineByChainId chain := if chain = 2 then .evm else .other
  chainName chain := s!"chain {chain}"
  showState _ := "0"
  showNumber _ := "0"
  optimism := 10
  linea := 59
  neon := 60

def supportedChain : ExecutorSupportedChain where
  network := network
  srcFilters := []
  dstFilters := [⟨"whitelistedMaker"⟩]
  budget := 1000
  srcConstraints := ⟨⟨0, 0, 0⟩, 4, 10, []⟩
  dstConstraints := ⟨⟨0, .taker⟩, []⟩
  unlockAuthority := ⟨"0x7", [7]⟩
  fulfillAuthority := ⟨"0x7", [7]⟩
  unlockBeneficiary := [7]

def daemon : Executor where
  toolkit := toolkit
  chains _ := supportedChain
  buckets := [⟨[(1, [[10]]), (2, [[20]])]⟩]
  allowSubsidy := false
  hasSubsidizationRules := false
  disableOpHorizonCampaign := true

/-- A finalized order that gives 100 and asks for 99. -/
def takenOrder : CreatedOrder where
  orderId := "0xa"
  orderData := orderData ⟨1, [10], 100⟩ ⟨2, [20], 99⟩
  finalization := .finalized
  arrivedAt := 0
  attempt := 1
  giveChain := 1
  takeChain := 2

/-- The order is found profitable and is fulfilled, if the filter lets it pass; the price service
answers as long as it is said to. -/
def answer (passed : Bool) (priced : Talk → Bool) (said : Talk) : (query : Request) → Answer query
  | .lookup l =>
    match l with
    | .getTakeOrderState .. => .ok none
    | .getGiveOrderState .. => .ok (some .created)
    | .filter .. => .ok passed
    | .getDecimals .. => .ok 0
    | .getPrice .. => if priced said then .ok 1 else .error "Error: no price"
    | .calculateSubsidization .. => .ok 0
    | .getBalance .. => .ok 1000
    | .getCurrentTVL .. => .ok 0
    | .getSwap .. => .ok ⟨100⟩
    | .calculateExpectedTakeAmount .. => .ok ⟨true, [20], 100, 99⟩
    | .preswapAndFulfillOrder .. => .ok ⟨"0x", "0x", 0⟩
    | .fulfillOrder .. => .ok ⟨"0x", "0x", 0⟩
    | .estimateTx .. => .ok 21000
    | .getGasPrice .. => .ok 1
    | .fulfill .. => .ok "0xb"
  | .now => 0
  | .throughput _ => ⟨.create [], ThroughputController.Accounted.create []⟩
  | .setThroughput .. => ()
  | .flushCache _ => ()
  | .orderFulfilled _ => ()

end Sample

namespace CreatedOrderTaker

/-- A run in which the sender is called, split there. -/
theorem exists_fulfill_of_play (p : Taking Unit) (env : Talk → (query : Request) → Answer query)
    (h : ((p.play env []).1.any fun e => e.1.isFulfill) = true) :
    ∃ pre estimation, ∃ sent : Except String String, ∃ post,
      (p.play env []).1 = pre ++ ⟨.lookup (.fulfill estimation), sent⟩ :: post ∧
        Reaches p (pre ++ ⟨.lookup (.fulfill estimation), sent⟩ :: post)
          (ended (p.play env []).2) := by
  obtain ⟨⟨query, sent⟩, hm, hf⟩ := List.any_eq_true.mp h
  obtain ⟨estimation, rfl⟩ : ∃ estimation, query = .lookup (.fulfill estimation) := by
    simp only [Request.isFulfill] at hf
    split at hf
    · exact ⟨_, rfl⟩
    · cases hf
  obtain ⟨pre, post, hl⟩ := List.append_of_mem hm
  have hr := reaches_play (p := p) env []
  rw [hl] at hr
  exact ⟨pre, estimation, sent, post, hl, hr⟩

theorem silent_of_all (h : (log.all fun e => !e.1.isFulfill) = true) : Silent log := by
  intro estimation sent hm
  simpa [Request.isFulfill] using List.all_eq_true.mp h _ hm

theorem aligned_of_all (h : (log.all fun e => !e.1.isEstimate) = true) :
    Aligned executor order log := by
  intro margin context rawEstimation route hm
  simpa [Request.isEstimate] using List.all_eq_true.mp h _ hm

/-- An attempt that fulfils the order, and one that stops at a filter. -/
theorem fulfil_checked_filtered :
    (∃ log estimation, Passed Sample.daemon Sample.takenOrder log estimation) ∧
    ∃ log s, Reaches (take Sample.daemon Sample.takenOrder) log (.stop s) ∧ Silent log ∧
      EndsUnfulfilled s := by
  constructor
  · obtain ⟨pre, estimation, sent, post, -, hr⟩ :=
      exists_fulfill_of_play (take Sample.daemon Sample.takenOrder)
        (Sample.answer true fun _ => true) (by decide +kernel)
    obtain ⟨next, hask, -⟩ := hr.split
    exact ⟨pre, estimation, (fulfil_checked Sample.daemon Sample.takenOrder).1 _ _ _ hask⟩
  · have hr := reaches_play (p := take Sample.daemon Sample.takenOrder)
      (Sample.answer false fun _ => true) []
    have hs := silent_of_all (show (List.all
      (play (Sample.answer false fun _ => true) [] (take Sample.daemon Sample.takenOrder)).1
      fun e => !e.1.isFulfill) = true by decide +kernel)
    obtain ⟨s, heq, hends⟩ := (fulfil_checked Sample.daemon Sample.takenOrder).2 _ _ hr hs
      (aligned_of_all (by decide +kernel))
    rw [heq] at hr
    exact ⟨_, s, hr, hs, hends⟩

end CreatedOrderTaker

end DlnTaker
