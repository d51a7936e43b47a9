import DlnTaker.Taking.Validator

/-! # The estimator and the taker

`getEstimation` of both engines, and `CreatedOrderTaker.take`, which validates an
order, estimates it, calls the fulfil transaction sender and then accounts for
what was sent.
-/

namespace DlnTaker

open Taking

variable (executor : Executor) (order : CreatedOrder)

namespace OrderEstimator

/-- The slippage of the swap in basis points; a big integer cannot be divided by zero. -/
def getPreFulfillSlippage (evaluatedTakeAmount takeAmount : ℤ) : Except String ℤ :=
  let preFulfillSwapMinAllowedSlippageBps := 5
  let preFulfillSwapMaxAllowedSlippageBps := 400
  if evaluatedTakeAmount = 0 then .error "RangeError: Division by zero"
  else
    let calculatedSlippageBps :=
      ((evaluatedTakeAmount - takeAmount) * 10000).tdiv evaluatedTakeAmount
    if calculatedSlippageBps < preFulfillSwapMinAllowedSlippageBps then
      .ok preFulfillSwapMinAllowedSlippageBps
    else if calculatedSlippageBps > preFulfillSwapMaxAllowedSlippageBps then
      .ok preFulfillSwapMaxAllowedSlippageBps
    else .ok calculatedSlippageBps

/-- The share of the take amount that the estimation falls short of, in percent. -/
def takeAmountDropShare (projectedFulfillAmount : ℤ) (takeAmount : ℕ) : Except String ℚ :=
  if takeAmount = 0 then .error "RangeError: Division by zero"
  else
    let takeAmountDrop := (projectedFulfillAmount * 10000).tdiv takeAmount
    .ok ((10000 - takeAmountDrop : ℤ) / 100)

def explainEstimation (estimation : OrderEstimation) : Taking String := do
  let order := estimation.order
  let take := order.orderData.take
  let dropShare ← call (takeAmountDropShare estimation.projectedFulfillAmount take.amount)
  let toAddress := executor.toolkit.tokenAddressToString order.takeChain
  let route ← call (order.route executor)
  let reserveTokenDesc ← call (toAddress route.reserveDstToken)
  let takeTokenDesc ← call (toAddress take.tokenAddress)
  let formatTokenValue := Executor.formatTokenValue take.chainId route.reserveDstToken
  let required ← formatTokenValue estimation.requiredReserveAmount
  let projected ← formatTokenValue estimation.projectedFulfillAmount
  let expected ← formatTokenValue take.amount
  let showNumber := executor.toolkit.showNumber
  return "order is estimated to be profitable when supplying " ++
    s!"{showNumber required} of reserve token ({reserveTokenDesc}) during fulfillment, " ++
    s!"which gives only {showNumber projected} of take token ({takeTokenDesc}), " ++
    s!"while order requires {showNumber expected} of take amount " ++
    s!"({showNumber dropShare}% drop)"

def getRouteHint (payload : OrderEvaluationPayload) : Taking (Option SwapConnectorResult) := do
  let route ← call (order.route executor)
  if route.requiresSwap then
    assert payload.validationPreFulfillSwap.isSome
      ("missing validationPreFulfillSwap from the validator for route hinting when building " ++
        "final swap txn")
    return payload.validationPreFulfillSwap
  else return none

/-- The context of the base class. -/
def getBaseContext (payload : OrderEvaluationPayload) : Taking ExpectedTakeAmountContext := do
  let swapEstimationPreference ← getRouteHint executor order payload
  return {
    batchSize := (executor.chains order.giveChain).srcConstraints.batchUnlockSize
    swapEstimationPreference
    isFeatureEnableOpHorizon := !executor.disableOpHorizonCampaign
    allowSubsidy := executor.allowSubsidy
    evmFulfillGasLimit := none
    evmFulfillCappedGasPrice := none }

/-- The context of the estimator of EVM chains, with the payload entries it adds. -/
def getEvmContext (payload : OrderEvaluationPayload) :
    Taking (ExpectedTakeAmountContext × OrderEvaluationPayload) := do
  let gasPrice : ℤ ← lookup (.getGasPrice order.takeChain)
  let payload ← setPayloadEntry "EVMOrderEstimator.PAYLOAD_ENTRY__EVM_ESTIMATED_GAS_PRICE"
    payload.evmEstimatedGasPrice { payload with evmEstimatedGasPrice := some gasPrice }
  -- the assertion of `getPayloadEntry` compares the name of a type and always holds
  match payload.evmFulfillGasLimit with
  | none => .stop (.thrown "TypeError: Cannot convert undefined to a BigInt")
  | some gasLimit =>
    let payload ← setPayloadEntry "EVMOrderEstimator.PAYLOAD_ENTRY__EVM_ESTIMATED_FEE"
      payload.evmEstimatedFee { payload with evmEstimatedFee := some (gasPrice * gasLimit) }
    let parentContext ← getBaseContext executor order payload
    return ({ parentContext with
      evmFulfillGasLimit := some gasLimit
      evmFulfillCappedGasPrice := some gasPrice }, payload)

def getExpectedTakeAmountContext (payload : OrderEvaluationPayload) :
    Taking (ExpectedTakeAmountContext × OrderEvaluationPayload) :=
  match executor.toolkit.getEngineByChainId order.takeChain with
  | .evm => getEvmContext executor order payload
  | .other => do
    let context ← getBaseContext executor order payload
    return (context, payload)

def getRawOrderEstimation (payload : OrderEvaluationPayload) :
    Taking (ExpectedTakeAmount × OrderEvaluationPayload) := do
  let (context, payload) ← getExpectedTakeAmountContext executor order payload
  let rawEstimation : ExpectedTakeAmount ← lookup (.calculateExpectedTakeAmount order.orderData
    (order.legacyRequiredMargin executor) context)
  return (rawEstimation, payload)

/-- The swap that would be executed upon fulfilment. -/
def getPreFulfillSwap (rawEstimation : ExpectedTakeAmount) (payload : OrderEvaluationPayload) :
    Taking SwapConnectorResult := do
  let take := order.orderData.take
  let slippageBps ←
    call (getPreFulfillSlippage rawEstimation.profitableTakeAmount take.amount)
  let routeHint ← getRouteHint executor order payload
  let destReceiver ← call (executor.toolkit.getForwarderAddress take.chainId)
  lookup (.getSwap
    { amountIn := rawEstimation.requiredReserveDstAmount
      chainId := take.chainId
      fromTokenAddress := rawEstimation.reserveDstToken
      toTokenAddress := take.tokenAddress
      slippageBps
      routeHint
      fromAddress := (executor.chains order.takeChain).fulfillAuthority.bytesAddress
      destReceiver })

/-- The estimator's algorithm and that of the package have picked the same reserve token; the
message of the assertion is made before it. -/
def assertReserveToken (rawEstimation : ExpectedTakeAmount) : Taking Route := do
  let route ← call (order.route executor)
  let toAddress := executor.toolkit.tokenAddressToString order.takeChain
  let picked ← call (toAddress route.reserveDstToken)
  let returned ← call (toAddress rawEstimation.reserveDstToken)
  assert (rawEstimation.reserveDstToken = route.reserveDstToken)
    (s!"dln-taker has picked {picked} as reserve token, while calculateExpectedTakeAmount " ++
      s!"returned {returned}")
  return route

/-- The end of `getEstimation`: the swap that would be executed decides if there is one. -/
def completeEstimation (rawEstimation : ExpectedTakeAmount) (route : Route)
    (payload : OrderEvaluationPayload) : Taking OrderEstimation :=
  if route.requiresSwap then do
    let preFulfillSwap ← getPreFulfillSwap executor order rawEstimation payload
    let payload ← setPayloadEntry "preFulfillSwap" payload.preFulfillSwap
      { payload with preFulfillSwap := some preFulfillSwap }
    return {
      order
      isProfitable := rawEstimation.isProfitable &&
        decide (order.orderData.take.amount ≤ preFulfillSwap.amountOut)
      requiredReserveAmount := rawEstimation.requiredReserveDstAmount
      projectedFulfillAmount := preFulfillSwap.amountOut
      payload }
  else
    return {
      order
      isProfitable := rawEstimation.isProfitable
      requiredReserveAmount := rawEstimation.requiredReserveDstAmount
      projectedFulfillAmount := rawEstimation.profitableTakeAmount
      payload }

def getEstimation (payload : OrderEvaluationPayload) : Taking OrderEstimation := do
  let (rawEstimation, payload) ← getRawOrderEstimation executor order payload
  let route ← assertReserveToken executor order rawEstimation
  completeEstimation executor order rawEstimation route payload

end OrderEstimator

namespace CreatedOrderTaker

open OrderEstimator OrderValidator

def attemptFulfil (estimation : OrderEstimation) : Taking String := do
  let sent : Except String String ← ask (.lookup (.fulfill estimation))
  match sent with
  | .ok txHash => return txHash
  | .error err => postpone .fulfillmentTxFailed err none

/-- `throughput.addOrder`: the controller is read and written without an `await` between. -/
def addToThroughput (usdValue : ℚ) : Taking Unit := do
  let throughput : { throughput : ThroughputController // throughput.Accounted } ←
    ask (.throughput order.giveChain)
  let now : ℕ ← ask .now
  match throughput.1.addOrder now order.orderId (order.blockConfirmations executor) usdValue with
  | .ok throughput => ask (.setThroughput order.giveChain throughput)
  | .error (.die message) => die message
  | .error .typeError => .stop (.thrown "TypeError")

/-- What `take` does after the fulfil transaction has been sent. -/
def account (fulfillTxHash : String) : Taking Unit := do
  let usdValue ← order.getUsdValue
  addToThroughput executor order usdValue
  ask (.flushCache order.giveChain)
  ask (.orderFulfilled
    { orderId := order.orderId, order := order.orderData, txHash := fulfillTxHash })

def take : Taking Unit := do
  let payload ← validate executor order
  let estimation ← getEstimation executor order payload
  if estimation.isProfitable then
    let fulfillTxHash ← attemptFulfil estimation
    account executor order fulfillTxHash
  else
    let explanation ← explainEstimation executor estimation
    postpone .notProfitable explanation none

end CreatedOrderTaker

/-- How the promise of `take` settles; it does not if the process has ended. -/
def Stop.outcome : Stop → Option TakeOutcome
  | .reject rejection message => some (.reject rejection message)
  | .postpone reason message delay => some (.postpone reason message delay)
  | .thrown error => some (.thrown error)
  | .died _ => none

end DlnTaker
