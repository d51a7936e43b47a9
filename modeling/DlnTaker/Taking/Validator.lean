import DlnTaker.Taking.Basic

/-! # The order validator

The checks of `OrderValidator` in the order of `validate`, and the estimation of
the fulfil transaction that the validator of EVM chains adds to them. A failed
check stops the attempt with one of the two short circuits.
-/

namespace DlnTaker

open Taking

variable (executor : Executor) (order : CreatedOrder)

/-! ### The fulfil transaction of an EVM chain -/

def getLowLevelEvmInstruction (estimation : OrderEstimation) : Taking EvmInstruction := do
  let order := estimation.order
  let chain := executor.chains order.takeChain
  let route ← call (order.route executor)
  if route.requiresSwap then
    match estimation.payload.preFulfillSwap with
    | none => die "missing preFulfillSwap payload entry"
    | some swapResult =>
      let data ← order.getWithId executor
      lookup (.preswapAndFulfillOrder
        { order := data
          taker := chain.fulfillAuthority.bytesAddress
          swapResult
          unlockAuthority := chain.unlockAuthority.bytesAddress
          externalCallRewardBeneficiary := chain.unlockBeneficiary
          preswapChangeRecipient :=
            match (order.dstConstraints executor).preFulfillSwapChangeRecipient with
            | .taker => some chain.unlockBeneficiary
            | .maker => none })
  else
    let data ← order.getWithId executor
    lookup (.fulfillOrder
      { order := data
        permit := "0x"
        unlockAuthority := chain.unlockAuthority.bytesAddress
        externalCallRewardBeneficiary := chain.unlockBeneficiary })

def createOrderFullfillTx (estimation : OrderEstimation) : Taking Evm.InputTransaction := do
  let ix ← getLowLevelEvmInstruction executor estimation
  let cappedFee := estimation.payload.evmEstimatedFee
  assert (cappedFee.any (0 < ·) || estimation.payload.evmFulfillDisableTxCappedFee = some true)
    "evm order fulfill expects either a capped fee or explicitly disabled fee capping"
  return { «to» := ix.to, data := ix.data, value := some (toString ix.value), cappedFee }

namespace OrderValidator

def checkOrderId : Taking Unit := do
  let toolkit := executor.toolkit
  let calculatedId ← call (toolkit.calculateId order.orderData)
  if toolkit.hexToBuffer calculatedId ≠ toolkit.hexToBuffer order.orderId then
    reject .malformedOrder
      s!"orderId mismatch; expected: {calculatedId}, actual: {order.orderId}"
  else return

def checkExternalCallHash : Taking Unit :=
  match order.orderData.externalCall with
  | none => return
  | some externalCall => do
    let toolkit := executor.toolkit
    let calculatedExternalCallHash ←
      call (toolkit.getExternalCallHash externalCall.externalCallData)
    let expectedExtCallHash := externalCall.externalCallHash.getD []
    if calculatedExternalCallHash ≠ expectedExtCallHash then
      let expected := toolkit.bufferToHex calculatedExternalCallHash
      let actual := toolkit.bufferToHex expectedExtCallHash
      reject .malformedOrder s!"externalCallHash mismatch; expected: {expected}; actual: {actual}"
    else return

def checkAllowedTaker : Taking Unit :=
  match order.orderData.allowedTaker with
  | none => return
  | some allowedTaker => do
    let unlockAuthority := (executor.chains order.takeChain).unlockAuthority.bytesAddress
    if unlockAuthority ≠ allowedTaker then
      let toAddress := executor.toolkit.tokenAddressToString order.orderData.take.chainId
      let expected ← call (toAddress allowedTaker)
      let actual ← call (toAddress unlockAuthority)
      reject .wrongTaker ("allowedTakerDst restriction; order requires expected allowed taker: " ++
        s!"{expected}; actual: {actual}")
    else return

/-- A bucket has the give token and some token of the take chain. -/
def Routes (bucket : TokensBucket) : Prop :=
  executor.toolkit.isOneOf bucket order.orderData.give.chainId
      order.orderData.give.tokenAddress = true ∧
    (executor.toolkit.findFirstToken bucket order.orderData.take.chainId).isSome

instance (bucket : TokensBucket) : Decidable (Routes executor order bucket) :=
  inferInstanceAs (Decidable (_ ∧ _))

def checkRouting : Taking Unit :=
  match executor.buckets.find? (Routes executor order ·) with
  | some _ => return
  | none => do
    let giveToken ← call (order.giveTokenAsString executor)
    reject .unexpectedGiveToken s!"no bucket found to route order's give token: {giveToken}"

/-- `DexlessChains`. -/
def isDexless (chain : ChainId) : Bool :=
  chain = executor.toolkit.linea || chain = executor.toolkit.neon

def checkPrefulfillSwapAbility : Taking Unit := do
  let take := order.orderData.take
  let route ← call (order.route executor)
  if isDexless executor take.chainId && route.requiresSwap then
    let toAddress := executor.toolkit.tokenAddressToString take.chainId
    let reserveDstToken ← call (toAddress route.reserveDstToken)
    let takeToken ← call (toAddress take.tokenAddress)
    reject .unavailablePreFulfillSwap
      ("pre-fulfill swaps are unavailable, can't perform pre-fulfill swap from " ++
        s!"{reserveDstToken} to {takeToken}")
  else return

def checkTakeStatus : Taking Unit := do
  let takeOrderStatus : Option TakeOrderState ←
    lookup (.getTakeOrderState order.orderId order.takeChain)
  match takeOrderStatus.map TakeOrderState.status with
  | none | some OrderState.notSet => return
  | some status =>
    let chain := executor.toolkit.chainName order.takeChain
    reject .alreadyFulfilledOrCancelled
      (s!"order is already handled on the take chain ({chain}), actual status: " ++
        executor.toolkit.showState status)

def listOrderFilters : List OrderFilter :=
  (executor.chains order.takeChain).dstFilters ++ (executor.chains order.giveChain).srcFilters

/-- The filters are all called before the first answer; here they answer one after the other. -/
def checkFilters : Taking Unit := do
  let orderFilters : List Bool ← (listOrderFilters executor order).mapM fun filter =>
    lookup (.filter filter order.orderData)
  if orderFilters.all id then return
  else reject .filteredOff "order has been filtered off, dropping"

def checkAccountBalance : Taking Unit := do
  let takeChainId := order.orderData.take.chainId
  let route ← call (order.route executor)
  let reserveDstToken := route.reserveDstToken
  let maxProfitableReserveAmount ←
    order.getMaxProfitableReserveAmountWithoutOperatingExpenses executor
  let accountReserveBalance : ℤ ← lookup (.getBalance order.takeChain reserveDstToken
    (executor.chains order.takeChain).fulfillAuthority.bytesAddress)
  if accountReserveBalance < maxProfitableReserveAmount then
    let showNumber := executor.toolkit.showNumber
    let token ← call (executor.toolkit.tokenAddressToString takeChainId reserveDstToken)
    let actual ← Executor.formatTokenValue takeChainId reserveDstToken accountReserveBalance
    let expected ←
      Executor.formatTokenValue takeChainId reserveDstToken maxProfitableReserveAmount
    postpone .notEnoughBalance
      (s!"not enough funds of the reserve token ({token}); actual balance: " ++
        s!"{showNumber actual}, but expected {showNumber expected}") none
  else return

def checkTVLBudget : Taking Unit := do
  let budget := (executor.chains order.giveChain).budget
  if 0 < budget then
    let currentGiveTVL : ℚ ← lookup (.getCurrentTVL order.giveChain)
    let usdValue ← order.getUsdValue
    if budget < currentGiveTVL + usdValue then
      let showNumber := executor.toolkit.showNumber
      let chain := executor.toolkit.chainName order.giveChain
      postpone .tvlBudgetExceeded
        (s!"order worth ${showNumber usdValue} increases TVL of the {chain} over a budget of " ++
          s!"${showNumber budget} (current TVL: ${showNumber currentGiveTVL})") none
    else return
  else return

def checkFinalization : Taking Unit :=
  match order.finalization with
  | .finalized => return
  | .confirmations count =>
    match order.srcConstraintsRange executor with
    | some range => do
      let usdValue ← order.getUsdValue
      if range.upperThreshold < usdValue then
        let showNumber := executor.toolkit.showNumber
        reject .notEnoughBlockConfirmationsForOrderWorth
          (s!"range #{range.minBlockConfirmations}+ only allows orders under " ++
            s!"${showNumber range.upperThreshold}, order is worth of ${showNumber usdValue}")
      else return
    | none =>
      reject .notYetFinalized
        s!"range for non-finalized order at  {count} block confirmations not found"

/-- How many seconds are left, at a time in milliseconds. -/
def getRemainingDelay (firstSeen : ℕ) (delay : ℚ) (now : ℕ) : ℚ :=
  let delayMs := delay * 1000
  let orderKnownFor : ℚ := now - firstSeen
  if orderKnownFor < delayMs then (delayMs - orderKnownFor) / 1000 else 0

def getOrderRemainingDelay (firstSeen : ℕ) (delay : ℚ) : Taking ℚ :=
  if 0 < delay then do
    let now : ℕ ← ask .now
    return getRemainingDelay firstSeen delay now
  else return 0

/-- A delay of zero is falsy, as an absent one. -/
def getFulfillmentDelay : ℚ :=
  let dstConstraints := order.dstConstraints executor
  if dstConstraints.fulfillmentDelay ≠ 0 then dstConstraints.fulfillmentDelay
  else (order.srcConstraints executor).fulfillmentDelay

def checkFulfillmentDelay : Taking Unit := do
  let fulfillmentDelay := getFulfillmentDelay executor order
  let remainingDelay ← getOrderRemainingDelay order.arrivedAt fulfillmentDelay
  if 0 < remainingDelay then
    let showNumber := executor.toolkit.showNumber
    postpone .forcedDelay
      (s!"order should be delayed by {showNumber remainingDelay}s (why: fulfillment delay is " ++
        s!"set to {showNumber fulfillmentDelay}s)") (some remainingDelay)
  else return

def checkThroughput : Taking Unit := do
  let usdValue ← order.getUsdValue
  let throughput : { throughput : ThroughputController // throughput.Accounted } ←
    ask (.throughput order.giveChain)
  if throughput.1.isThrottled (order.blockConfirmations executor) usdValue then
    postpone .cappedThroughput "order does not fit throttled throughput" none
  else return

/-- The message of a rough amount that is too small. -/
def roughEstimationFailed (reason : String) (expected : ℕ) (actual : ℤ) : String :=
  s!"rough profitability estimation failed, {reason} is less than order's take amount; " ++
    s!"expected: {expected} but actual: {actual}"

def checkRoughProfitability (payload : OrderEvaluationPayload) :
    Taking OrderEvaluationPayload := do
  let take := order.orderData.take
  let maxProfitableReserveAmount ←
    order.getMaxProfitableReserveAmountWithoutOperatingExpenses executor
  let route ← call (order.route executor)
  if route.requiresSwap then
    let destReceiver ← call (executor.toolkit.getForwarderAddress take.chainId)
    let preliminarySwapResult : SwapConnectorResult ← lookup (.getSwap
      { amountIn := maxProfitableReserveAmount
        chainId := take.chainId
        fromTokenAddress := route.reserveDstToken
        toTokenAddress := take.tokenAddress
        slippageBps := 100
        routeHint := none
        fromAddress := (executor.chains order.takeChain).fulfillAuthority.bytesAddress
        destReceiver })
    if preliminarySwapResult.amountOut < take.amount then
      postpone .notProfitable
        (roughEstimationFailed "swap outcome is estimated to be" take.amount
          preliminarySwapResult.amountOut) none
    else
      setPayloadEntry "validationPreFulfillSwap" payload.validationPreFulfillSwap
        { payload with validationPreFulfillSwap := some preliminarySwapResult }
  else if maxProfitableReserveAmount < take.amount then
    postpone .notProfitable
      (roughEstimationFailed "max profitable reserve amount" take.amount
        maxProfitableReserveAmount) none
  else return payload

def checkEvmEstimation (payload : OrderEvaluationPayload) : Taking OrderEvaluationPayload := do
  let requiredReserveAmount ←
    order.getMaxProfitableReserveAmountWithoutOperatingExpenses executor
  let tx ← createOrderFullfillTx executor
    { order
      isProfitable := true
      requiredReserveAmount
      projectedFulfillAmount := order.orderData.take.amount
      payload :=
        { OrderEvaluationPayload.empty with
          preFulfillSwap := payload.validationPreFulfillSwap
          evmFulfillDisableTxCappedFee := some true } }
  let fulfillAuthority := (executor.chains order.takeChain).fulfillAuthority
  let estimated : Except String ℤ ← ask (.lookup (.estimateTx order.takeChain
    { «from» := fulfillAuthority.address, data := tx.data, «to» := tx.to, value := tx.value }))
  match estimated with
  | .ok gasLimit =>
    setPayloadEntry "EVMOrderValidator.PAYLOAD_ENTRY__EVM_FULFILL_GAS_LIMIT"
      payload.evmFulfillGasLimit { payload with evmFulfillGasLimit := some gasLimit }
  | .error err =>
    postpone .fulfillmentEvmTxPreestimationFailed s!"unable to estimate preliminary txn: {err}"
      none

/-- The hook for the validators of engines. -/
def runChecks (payload : OrderEvaluationPayload) : Taking OrderEvaluationPayload :=
  match executor.toolkit.getEngineByChainId order.takeChain with
  | .evm => checkEvmEstimation executor order payload
  | .other => return payload

def checkGiveStatus : Taking Unit := do
  let giveOrderStatus : Option OrderState ←
    lookup (.getGiveOrderState order.orderId order.giveChain)
  let chain := executor.toolkit.chainName order.giveChain
  match giveOrderStatus with
  | none => postpone .missing s!"order does not exist on the give chain ({chain})" none
  | some .created => return
  | some status =>
    reject .unexpectedGiveStatus
      (s!"order has unexpected give status ({executor.toolkit.showState status}) on the give " ++
        s!"chain ({chain})")

/-- What the estimator goes on with is the payload. -/
def validate : Taking OrderEvaluationPayload := do
  checkOrderId executor order
  checkExternalCallHash executor order
  checkAllowedTaker executor order
  checkRouting executor order
  checkPrefulfillSwapAbility executor order
  checkTakeStatus executor order
  checkFilters executor order
  checkAccountBalance executor order
  checkTVLBudget executor order
  checkFinalization executor order
  checkFulfillmentDelay executor order
  checkThroughput executor order
  let payload ← checkRoughProfitability executor order .empty
  let payload ← runChecks executor order payload
  -- check again in case order has been already fulfilled
  checkTakeStatus executor order
  checkGiveStatus executor order
  return payload

end OrderValidator

end DlnTaker
