import DlnTaker.Evm.Capping
import DlnTaker.Taking.Fulfilment

/-! # From the estimation to the signed transactions

On an EVM chain an order is found profitable for a gas price and a gas limit.
Their product becomes the capped fee of the fulfil transaction, so that whatever
the broadcaster signs for it, first or as a replacement, costs no more than what
the order was judged with, up to the overcapping. The transaction carries the
instruction for the very swap that was judged.
-/

namespace DlnTaker

open Dialogue Taking

variable {executor : Executor} {order : CreatedOrder} {log log' talk : Talk}
  {payload payload' : OrderEvaluationPayload} {estimation : OrderEstimation}
  {raw : ExpectedTakeAmount} {gasPrice gasLimit : ℤ} {ix : EvmInstruction}
  {tx : Evm.InputTransaction} {route : Route}

/-- The node has estimated a transaction of the taker at this gas limit. -/
def GasEstimated (order : CreatedOrder) (log : Talk) (gasLimit : ℤ) : Prop :=
  ∃ tx, ⟨.lookup (.estimateTx order.takeChain tx), .ok gasLimit⟩ ∈ log

/-- The fee manager has answered with this gas price. -/
def GasPriced (order : CreatedOrder) (log : Talk) (gasPrice : ℤ) : Prop :=
  ⟨.lookup (.getGasPrice order.takeChain), .ok gasPrice⟩ ∈ log

/-- The package has judged the order with this gas price and this gas limit. -/
def JudgedWith (executor : Executor) (order : CreatedOrder) (log : Talk)
    (raw : ExpectedTakeAmount) (gasPrice gasLimit : ℤ) : Prop :=
  ∃ context, ⟨.lookup (.calculateExpectedTakeAmount order.orderData
      (order.legacyRequiredMargin executor) context), .ok raw⟩ ∈ log ∧
    context.evmFulfillGasLimit = some gasLimit ∧ context.evmFulfillCappedGasPrice = some gasPrice

/-- The swap connector has quoted what the payload holds. -/
def SwapQuoted (log : Talk) (payload : OrderEvaluationPayload) (quote : SwapConnectorResult) :
    Prop :=
  payload.preFulfillSwap = some quote ∧
    ∃ request, ⟨.lookup (.getSwap request), .ok quote⟩ ∈ log

/-- The instruction that the client's package has made for the order and, if the route requires
one, for the swap of the payload. -/
def Instructed (executor : Executor) (order : CreatedOrder) (payload : OrderEvaluationPayload)
    (talk : Talk) (ix : EvmInstruction) : Prop :=
  ∃ route, order.route executor = .ok route ∧
    if route.requiresSwap then
      ∃ params, talk = [⟨.lookup (.preswapAndFulfillOrder params), .ok ix⟩] ∧
        params.order = order.orderData ∧ payload.preFulfillSwap = some params.swapResult
    else ∃ params, talk = [⟨.lookup (.fulfillOrder params), .ok ix⟩] ∧
        params.order = order.orderData

/-! ### The fee of an estimation -/

namespace OrderValidator

theorem checkRoughProfitability_disable
    (h : Reaches (checkRoughProfitability executor order .empty) log (.done payload)) :
    payload.evmFulfillDisableTxCappedFee = none := by
  simp only [checkRoughProfitability] at h
  obtain ⟨_, _, amount, -, -, h₁⟩ := h.bind_done
  obtain ⟨_, _, route, -, -, h₂⟩ := h₁.bind_done
  split at h₂
  · obtain ⟨_, _, destReceiver, -, -, h₃⟩ := h₂.bind_done
    obtain ⟨_, _, preliminary, -, -, h₄⟩ := h₃.bind_done
    split at h₄
    · exact absurd h₄ (fails_stop _ _)
    · obtain ⟨-, -, rfl⟩ := reaches_setPayloadEntry_done.mp h₄
      rfl
  · split at h₂
    · exact absurd h₂ (fails_stop _ _)
    · obtain ⟨-, heq⟩ := reaches_done.mp h₂
      obtain rfl := Dialogue.done.inj heq
      rfl

/-- The gas limit of the payload is the answer of the node. -/
theorem runChecks_gasLimit (hevm : executor.toolkit.getEngineByChainId order.takeChain = .evm)
    (h : Reaches (runChecks executor order payload) log (.done payload')) :
    ∃ gasLimit, GasEstimated order log gasLimit ∧
      payload' = { payload with evmFulfillGasLimit := some gasLimit } := by
  simp only [runChecks, hevm, checkEvmEstimation] at h
  obtain ⟨_, _, amount, rfl, -, h₁⟩ := h.bind_done
  obtain ⟨_, _, tx, rfl, -, h₂⟩ := h₁.bind_done
  obtain ⟨_, _, estimated, rfl, ha, h₃⟩ := h₂.bind_done
  obtain rfl := reaches_request_done.mp ha
  cases estimated with
  | error err => exact absurd h₃ (fails_stop _ _)
  | ok gasLimit =>
    obtain ⟨-, -, rfl⟩ := reaches_setPayloadEntry_done.mp h₃
    let sender := (executor.chains order.takeChain).fulfillAuthority.address
    refine ⟨gasLimit, ⟨⟨sender, tx.data, tx.to, tx.value⟩, ?_⟩, rfl⟩
    exact List.mem_append_right _ (List.mem_append_right _ List.mem_cons_self)

theorem validate_gasLimit (hevm : executor.toolkit.getEngineByChainId order.takeChain = .evm)
    (h : Reaches (validate executor order) log (.done payload)) :
    ∃ gasLimit, GasEstimated order log gasLimit ∧ payload.evmFulfillGasLimit = some gasLimit ∧
      payload.evmFulfillDisableTxCappedFee = none := by
  unfold validate at h
  -- the checks before the rough profitability do not touch the payload
  obtain ⟨_, _, _, rfl, -, h⟩ := h.bind_done
  obtain ⟨_, _, _, rfl, -, h⟩ := h.bind_done
  obtain ⟨_, _, _, rfl, -, h⟩ := h.bind_done
  obtain ⟨_, _, _, rfl, -, h⟩ := h.bind_done
  obtain ⟨_, _, _, rfl, -, h⟩ := h.bind_done
  obtain ⟨_, _, _, rfl, -, h⟩ := h.bind_done
  obtain ⟨_, _, _, rfl, -, h⟩ := h.bind_done
  obtain ⟨_, _, _, rfl, -, h⟩ := h.bind_done
  obtain ⟨_, _, _, rfl, -, h⟩ := h.bind_done
  obtain ⟨_, _, _, rfl, -, h⟩ := h.bind_done
  obtain ⟨_, _, _, rfl, -, h⟩ := h.bind_done
  obtain ⟨_, _, _, rfl, -, h⟩ := h.bind_done
  obtain ⟨_, _, rough, rfl, hrough, h⟩ := h.bind_done
  obtain ⟨engineChecks, _, checked, rfl, hengine, h⟩ := h.bind_done
  obtain ⟨_, _, _, rfl, -, h⟩ := h.bind_done
  obtain ⟨_, _, _, rfl, -, h⟩ := h.bind_done
  obtain ⟨-, heq⟩ := reaches_done.mp h
  obtain rfl := Dialogue.done.inj heq
  have hdisable := checkRoughProfitability_disable hrough
  obtain ⟨gasLimit, ⟨tx, hm⟩, rfl⟩ := runChecks_gasLimit hevm hengine
  exact ⟨gasLimit, ⟨tx, by simp [hm]⟩, rfl, hdisable⟩

end OrderValidator

namespace OrderEstimator

theorem getExpectedTakeAmountContext_fee {context : ExpectedTakeAmountContext}
    (hevm : executor.toolkit.getEngineByChainId order.takeChain = .evm)
    (hgas : payload.evmFulfillGasLimit = some gasLimit)
    (h : Reaches (getExpectedTakeAmountContext executor order payload) log
      (.done (context, payload'))) :
    ∃ gasPrice, GasPriced order log gasPrice ∧ context.evmFulfillGasLimit = some gasLimit ∧
      context.evmFulfillCappedGasPrice = some gasPrice ∧
      payload'.evmEstimatedFee = some (gasPrice * gasLimit) ∧
      payload'.evmFulfillDisableTxCappedFee = payload.evmFulfillDisableTxCappedFee := by
  simp only [getExpectedTakeAmountContext, hevm, getEvmContext] at h
  obtain ⟨_, _, gasPrice, rfl, hl, h₁⟩ := h.bind_done
  obtain rfl := reaches_lookup_done.mp hl
  obtain ⟨_, _, priced, rfl, hp, h₂⟩ := h₁.bind_done
  obtain ⟨rfl, -, rfl⟩ := reaches_setPayloadEntry_done.mp hp
  simp only [hgas] at h₂
  obtain ⟨_, _, charged, rfl, hc, h₃⟩ := h₂.bind_done
  obtain ⟨rfl, -, rfl⟩ := reaches_setPayloadEntry_done.mp hc
  obtain ⟨_, _, parent, rfl, -, h₄⟩ := h₃.bind_done
  obtain ⟨rfl, heq⟩ := reaches_done.mp h₄
  obtain ⟨rfl, rfl⟩ := Prod.mk.inj (Dialogue.done.inj heq)
  exact ⟨gasPrice, by simp [GasPriced], rfl, rfl, rfl, rfl⟩

/-- The fee of an estimation is the price times the limit that the package has judged with. -/
theorem getRawOrderEstimation_fee
    (hevm : executor.toolkit.getEngineByChainId order.takeChain = .evm)
    (hgas : payload.evmFulfillGasLimit = some gasLimit)
    (h : Reaches (getRawOrderEstimation executor order payload) log (.done (raw, payload'))) :
    ∃ gasPrice, GasPriced order log gasPrice ∧
      JudgedWith executor order log raw gasPrice gasLimit ∧
      payload'.evmEstimatedFee = some (gasPrice * gasLimit) ∧
      payload'.evmFulfillDisableTxCappedFee = payload.evmFulfillDisableTxCappedFee := by
  unfold getRawOrderEstimation at h
  obtain ⟨before, _, ⟨context, _⟩, rfl, hc, h₁⟩ := h.bind_done
  obtain ⟨_, _, found, rfl, hl, h₂⟩ := h₁.bind_done
  obtain rfl := reaches_lookup_done.mp hl
  obtain ⟨rfl, heq⟩ := reaches_done.mp h₂
  obtain ⟨rfl, rfl⟩ := Prod.mk.inj (Dialogue.done.inj heq)
  obtain ⟨gasPrice, hprice, hlimit, hcapped, hfee, hdisable⟩ :=
    getExpectedTakeAmountContext_fee hevm hgas hc
  exact ⟨gasPrice, List.mem_append_left _ hprice, ⟨context, by simp, hlimit, hcapped⟩, hfee,
    hdisable⟩

/-- A profitable estimation of the order, and what it keeps of the payload. -/
theorem completeEstimation_payload
    (h : Reaches (completeEstimation executor order raw route payload) log (.done estimation))
    (hprofitable : estimation.isProfitable = true) :
    estimation.order = order ∧ raw.isProfitable = true ∧
      estimation.payload.evmEstimatedFee = payload.evmEstimatedFee ∧
      estimation.payload.evmFulfillDisableTxCappedFee = payload.evmFulfillDisableTxCappedFee ∧
      (route.requiresSwap = true → ∃ quote, SwapQuoted log estimation.payload quote ∧
        order.orderData.take.amount ≤ quote.amountOut) := by
  unfold completeEstimation at h
  split at h
  · obtain ⟨_, _, quote, rfl, hs, h₁⟩ := h.bind_done
    obtain ⟨request, rfl, -⟩ := getPreFulfillSwap_done hs
    obtain ⟨_, _, _, rfl, hp, h₂⟩ := h₁.bind_done
    obtain ⟨rfl, -, rfl⟩ := reaches_setPayloadEntry_done.mp hp
    obtain ⟨rfl, heq⟩ := reaches_done.mp h₂
    obtain rfl := Dialogue.done.inj heq
    obtain ⟨hraw, hle⟩ := Bool.and_eq_true_iff.mp hprofitable
    exact ⟨rfl, hraw, rfl, rfl, fun _ => ⟨quote, ⟨rfl, request, by simp⟩, of_decide_eq_true hle⟩⟩
  · rename_i hswap
    obtain ⟨-, heq⟩ := reaches_done.mp h
    obtain rfl := Dialogue.done.inj heq
    exact ⟨rfl, hprofitable, rfl, rfl, fun h => absurd h hswap⟩

/-- What a profitable estimation of an EVM chain says about the order. -/
structure Judged (executor : Executor) (order : CreatedOrder) (log : Talk)
    (payload : OrderEvaluationPayload) (gasPrice gasLimit : ℤ) : Prop where
  priced : GasPriced order log gasPrice
  package : ∃ raw, JudgedWith executor order log raw gasPrice gasLimit ∧ raw.isProfitable = true
  swap : ∀ route, order.route executor = .ok route → route.requiresSwap = true →
    ∃ quote, SwapQuoted log payload quote ∧ order.orderData.take.amount ≤ quote.amountOut

theorem getEstimation_judged
    (hevm : executor.toolkit.getEngineByChainId order.takeChain = .evm)
    (hgas : payload.evmFulfillGasLimit = some gasLimit)
    (h : Reaches (getEstimation executor order payload) log (.done estimation))
    (hprofitable : estimation.isProfitable = true) :
    estimation.order = order ∧ ∃ gasPrice,
      Judged executor order log estimation.payload gasPrice gasLimit ∧
      estimation.payload.evmEstimatedFee = some (gasPrice * gasLimit) ∧
      estimation.payload.evmFulfillDisableTxCappedFee = payload.evmFulfillDisableTxCappedFee := by
  unfold getEstimation at h
  obtain ⟨estimated, _, ⟨raw, payload'⟩, rfl, hraw, h₁⟩ := h.bind_done
  obtain ⟨gasPrice, hprice, ⟨context, hm, hcontext⟩, hfee, hdisable⟩ :=
    getRawOrderEstimation_fee hevm hgas hraw
  obtain ⟨_, last, route, rfl, ha, h₂⟩ := h₁.bind_done
  obtain ⟨rfl, hroute, -⟩ := assertReserveToken_done ha
  obtain ⟨horder, hr, hfee', hdisable', hswap⟩ := completeEstimation_payload h₂ hprofitable
  refine ⟨horder, gasPrice, ⟨List.mem_append_left _ hprice, ?_, ?_⟩, hfee'.trans hfee,
    hdisable'.trans hdisable⟩
  · exact ⟨raw, ⟨context, List.mem_append_left _ hm, hcontext⟩, hr⟩
  · intro route' hroute' hrequires
    obtain rfl := Except.ok.inj (hroute.symm.trans hroute')
    obtain ⟨quote, ⟨hpayload, request, hq⟩, hle⟩ := hswap hrequires
    exact ⟨quote, ⟨hpayload, request, List.mem_append_right _ hq⟩, hle⟩

end OrderEstimator

/-! ### The transaction of an estimation -/

theorem getLowLevelEvmInstruction_done
    (h : Reaches (getLowLevelEvmInstruction executor estimation) talk (.done ix)) :
    Instructed executor estimation.order estimation.payload talk ix := by
  have hgetWithId : ∀ {log data}, Reaches (estimation.order.getWithId executor) log (.done data) →
      log = [] ∧ data = estimation.order.orderData := by
    intro log data h
    unfold CreatedOrder.getWithId at h
    obtain ⟨_, _, _, rfl, hv, h₁⟩ := h.bind_done
    obtain ⟨rfl, -⟩ := reaches_call_done.mp hv
    obtain ⟨rfl, heq⟩ := reaches_done.mp h₁
    exact ⟨rfl, Dialogue.done.inj heq⟩
  simp only [getLowLevelEvmInstruction] at h
  obtain ⟨_, _, route, rfl, hr, h₁⟩ := h.bind_done
  obtain ⟨rfl, hroute⟩ := reaches_call_done.mp hr
  refine ⟨route, hroute, ?_⟩
  split at h₁
  · rename_i hswap
    rw [if_pos hswap]
    split at h₁
    · exact absurd h₁ (fails_stop _ _)
    · rename_i quote hquote
      obtain ⟨_, _, data, rfl, hd, h₂⟩ := h₁.bind_done
      obtain ⟨rfl, rfl⟩ := hgetWithId hd
      obtain rfl := reaches_lookup_done.mp h₂
      exact ⟨_, rfl, rfl, hquote⟩
  · rename_i hswap
    rw [if_neg hswap]
    obtain ⟨_, _, data, rfl, hd, h₂⟩ := h₁.bind_done
    obtain ⟨rfl, rfl⟩ := hgetWithId hd
    obtain rfl := reaches_lookup_done.mp h₂
    exact ⟨_, rfl, rfl⟩

/-- A transaction is crafted with the fee of the estimation, which is positive unless capping was
disabled. -/
theorem createOrderFullfillTx_done
    (h : Reaches (createOrderFullfillTx executor estimation) talk (.done tx)) :
    ∃ ix, Instructed executor estimation.order estimation.payload talk ix ∧
      tx = ⟨ix.data, ix.to, some (toString ix.value), estimation.payload.evmEstimatedFee⟩ ∧
      (estimation.payload.evmEstimatedFee.any (0 < ·) ||
        estimation.payload.evmFulfillDisableTxCappedFee = some true) = true := by
  unfold createOrderFullfillTx at h
  obtain ⟨_, _, ix, rfl, hix, h₁⟩ := h.bind_done
  obtain ⟨_, _, _, rfl, ha, h₂⟩ := h₁.bind_done
  obtain ⟨rfl, hcapped⟩ := reaches_assert_done.mp ha
  obtain ⟨rfl, heq⟩ := reaches_done.mp h₂
  refine ⟨ix, ?_, Dialogue.done.inj heq, hcapped⟩
  simpa using getLowLevelEvmInstruction_done hix

/-! ### The attempt -/

namespace CreatedOrderTaker

open OrderEstimator OrderValidator

/-- A call of the sender that `getOrderFulfillTxSender` returns, as far as it has come: the
transaction is crafted, and the signer's broadcaster runs for it. -/
structure Sending (executor : Executor) (estimation : OrderEstimation)
    (market : Evm.FeeMarket) where
  signer : Evm.EvmTxSigner market
  talk : Talk
  tx : Evm.InputTransaction
  crafted : Reaches (createOrderFullfillTx executor estimation) talk (.done tx)
  answers : List (Evm.Answer market)
  broadcaster : Evm.Broadcaster market
  run : (Evm.broadcaster (signer.sendTransaction tx)).Run answers broadcaster

/-- The estimation that an attempt calls the sender with. -/
theorem take_judged {next : Except String String → Taking Unit}
    (hevm : executor.toolkit.getEngineByChainId order.takeChain = .evm)
    (h : Reaches (take executor order) log (.ask (.lookup (.fulfill estimation)) next)) :
    estimation.order = order ∧ ∃ gasPrice gasLimit, GasEstimated order log gasLimit ∧
      Judged executor order log estimation.payload gasPrice gasLimit ∧
      estimation.payload.evmEstimatedFee = some (gasPrice * gasLimit) ∧
      estimation.payload.evmFulfillDisableTxCappedFee = none := by
  rcases Reaches.bind_ask h with ⟨_, hv, -⟩ | ⟨validated, estimated, payload, rfl, hv, -⟩
  · exact (calm_validate.asked _ _ _ hv).elim
  · obtain ⟨⟨hprimed, -⟩, -⟩ := validate_done hv
    obtain ⟨he, hprofitable, -⟩ := evaluated_ask hprimed hv h
    obtain ⟨gasLimit, ⟨tx, hm⟩, hgas, hdisable⟩ := validate_gasLimit hevm hv
    obtain ⟨horder, gasPrice, hj, hfee, hkept⟩ := getEstimation_judged hevm hgas he hprofitable
    refine ⟨horder, gasPrice, gasLimit, ⟨tx, List.mem_append_left _ hm⟩, ⟨?_, ?_, ?_⟩, hfee,
      hkept.trans hdisable⟩
    · exact List.mem_append_right _ hj.priced
    · obtain ⟨raw, ⟨context, hraw, hcontext⟩, hr⟩ := hj.package
      exact ⟨raw, ⟨context, List.mem_append_right _ hraw, hcontext⟩, hr⟩
    · intro route hroute hrequires
      obtain ⟨quote, ⟨hpayload, request, hq⟩, hle⟩ := hj.swap route hroute hrequires
      exact ⟨quote, ⟨hpayload, request, List.mem_append_right _ hq⟩, hle⟩

/-- Whatever is signed for a fulfilment on an EVM chain costs no more than the gas price times the
gas limit that the order was found profitable with, up to the overcapping, and carries the
instruction for the order and the swap that were judged. -/
theorem fulfil_within_estimate {market : Evm.FeeMarket} {attempt : ℕ}
    {txn : Evm.PopulatedTxn market} {next : Except String String → Taking Unit}
    (hevm : executor.toolkit.getEngineByChainId order.takeChain = .evm)
    (h : Reaches (take executor order) log (.ask (.lookup (.fulfill estimation)) next))
    (s : Sending executor estimation market) (hs : .signed attempt txn ∈ s.broadcaster.journal) :
    ∃ gasPrice gasLimit, GasEstimated order log gasLimit ∧
      Judged executor order log estimation.payload gasPrice gasLimit ∧
      0 < gasPrice * gasLimit ∧
      txn.gas * txn.extension.price ≤ s.signer.feeManager.opts.feeBound (gasPrice * gasLimit) ∧
      ∃ ix, Instructed executor order estimation.payload s.talk ix ∧
        txn.to = ix.to ∧ txn.data = ix.data ∧ txn.value = some (toString ix.value) := by
  obtain ⟨horder, gasPrice, gasLimit, hlimit, hj, hfee, hdisable⟩ := take_judged hevm h
  obtain ⟨ix, hix, htx, hcapped⟩ := createOrderFullfillTx_done s.crafted
  have hpos : 0 < gasPrice * gasLimit := by simpa [hfee, hdisable] using hcapped
  have hfrugal : Evm.Frugal (s.signer.sendTransaction s.tx) s.broadcaster :=
    s.run.invariant .initial fun _ _ _ hf hstep => hf.move (Evm.move_of_step hstep)
  have ha := hfrugal.signed attempt txn hs
  have hcap : (s.signer.sendTransaction s.tx).cappedFee = some (gasPrice * gasLimit) := by
    rw [htx]
    exact hfee
  refine ⟨gasPrice, gasLimit, hlimit, hj, hpos, ha.withinCap _ hcap hpos, ix, horder ▸ hix, ?_⟩
  have hpayload := ha.samePayload
  rw [htx] at hpayload
  exact ⟨hpayload.to_eq, hpayload.data_eq, hpayload.value_eq⟩

end CreatedOrderTaker

/-! ### A fulfilment on fixed inputs -/

def Request.fulfills (estimation : OrderEstimation) : Request → Bool
  | .lookup (.fulfill estimation') => estimation' = estimation
  | _ => false

namespace Sample

/-- The estimation of the order at a gas price of 1 and a gas limit of 21000. -/
def profitable : OrderEstimation :=
  ⟨takenOrder, true, 100, 99, ⟨none, none, some 21000, none, some 1, some 21000⟩⟩

def fulfilTx : Evm.InputTransaction := ⟨"0x", "0x", some "0", some 21000⟩

/-- The gas limit of the node is raised by a tenth, which is over the capped fee. -/
def signedFulfil : List (Evm.Answer .legacy) :=
  [.blockNumber (.ok 1), .transactionCount (.ok 5), .estimateGas (.ok 21000),
    .fees (.ok (.gasPrice 1)), .signature (.ok "0x")]

def fulfilTxn : Evm.PopulatedTxn .legacy := ⟨⟨"0x1", "0x", "0x", some "0", 23100, 5⟩, .legacy 1⟩

end Sample

namespace CreatedOrderTaker

open OrderEstimator

/-- The sender is called with a given estimation in a run. -/
theorem exists_ask_of_play {p : Taking Unit} {env : Talk → (query : Request) → Answer query}
    (h : ((p.play env []).1.any fun e => Request.fulfills estimation e.1) = true) :
    ∃ log next, Reaches p log (.ask (.lookup (.fulfill estimation)) next) := by
  obtain ⟨⟨query, sent⟩, hm, hf⟩ := List.any_eq_true.mp h
  obtain rfl : query = .lookup (.fulfill estimation) := by
    simp only [Request.fulfills] at hf
    split at hf
    · rw [of_decide_eq_true hf]
    · cases hf
  obtain ⟨pre, post, hl⟩ := List.append_of_mem hm
  have hr := reaches_play (p := p) env []
  rw [hl] at hr
  obtain ⟨next, hask, -⟩ := hr.split
  exact ⟨pre, next, hask⟩

/-- The transaction costs 23100, which the cap of 21000 allows by the overcapping. -/
theorem fulfil_within_estimate_sent : ∃ log next,
    Reaches (take Sample.daemon Sample.takenOrder) log
      (.ask (.lookup (.fulfill Sample.profitable)) next) ∧
    ∃ (s : Sending Sample.daemon Sample.profitable .legacy) (gasPrice gasLimit : ℤ),
      .signed 1 Sample.fulfilTxn ∈ s.broadcaster.journal ∧
      Judged Sample.daemon Sample.takenOrder log Sample.profitable.payload gasPrice gasLimit ∧
      Sample.fulfilTxn.gas * Sample.fulfilTxn.extension.price ≤
        s.signer.feeManager.opts.feeBound (gasPrice * gasLimit) := by
  obtain ⟨log, next, h⟩ := exists_ask_of_play (show ((play (Sample.answer true fun _ => true) []
    (take Sample.daemon Sample.takenOrder)).1.any fun e =>
      Request.fulfills Sample.profitable e.1) = true by decide +kernel)
  obtain ⟨b, hr, hp⟩ := Machine.exists_run_of_any
    (M := Evm.broadcaster (Evm.Sample.signer.sendTransaction Sample.fulfilTx))
    (t := Sample.signedFulfil) (p := fun b : Evm.Broadcaster .legacy => b.journal.any fun e =>
      decide (e = Evm.Entry.signed 1 Sample.fulfilTxn)) (by decide +kernel)
  obtain ⟨e, hm, he⟩ := List.any_eq_true.mp hp
  obtain rfl := of_decide_eq_true he
  have hcrafted := reaches_of_play (show (play (Sample.answer true fun _ => true) []
    (createOrderFullfillTx Sample.daemon Sample.profitable)).2 = .inr Sample.fulfilTx from rfl)
  let s : Sending Sample.daemon Sample.profitable .legacy :=
    ⟨Evm.Sample.signer, _, Sample.fulfilTx, hcrafted, Sample.signedFulfil, b, hr⟩
  obtain ⟨gasPrice, gasLimit, -, hj, -, hle, -⟩ := fulfil_within_estimate (by decide) h s hm
  exact ⟨log, next, h, s, gasPrice, gasLimit, hm, hj, hle⟩

end CreatedOrderTaker

end DlnTaker
