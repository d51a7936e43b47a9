import DlnTaker.Taking.Accounting

/-! # Estimations that divide by zero

Once an order has been validated and every lookup succeeds, only a division by
zero keeps an attempt from calling the fulfil transaction sender with a
profitable estimation or postponing the order as not profitable. The slippage of
the swap is divided by what the package estimates, the explanation by what the
order asks for, and neither divisor is checked.
-/

namespace DlnTaker

open Dialogue Taking CreatedOrderTaker

variable {executor : Executor} {order : CreatedOrder} {checked log log' : Talk} {α β : Type}
  {payload payload' : OrderEvaluationPayload} {raw : ExpectedTakeAmount}
  {estimation : OrderEstimation} {route : Route}

/-! ### Stops that no lookup has caused -/

namespace Taking

theorem LookedUp.append : LookedUp (log ++ log') ↔ LookedUp log ∧ LookedUp log' := by
  constructor
  · intro h
    exact ⟨fun l err hm => h l err (List.mem_append_left _ hm),
      fun l err hm => h l err (List.mem_append_right _ hm)⟩
  · rintro ⟨h, h'⟩ l err hm
    rcases List.mem_append.mp hm with hm | hm
    · exact h l err hm
    · exact h' l err hm

/-- Where every lookup succeeds, a part of an attempt stops only for such a reason. -/
def StopsFor (S : Stop → Prop) (p : Taking α) : Prop :=
  ∀ log s, LookedUp log → Reaches p log (.stop s) → S s

variable {S : Stop → Prop} {p : Taking α} {f : α → Taking β}

theorem stopsFor_done {value : α} : StopsFor S (.done value : Taking α) := by
  intro log s _ h
  cases (reaches_done.mp h).2

theorem stopsFor_stop {s : Stop} (hs : S s) : StopsFor S (.stop s : Taking α) := by
  intro log s' _ h
  cases (reaches_stop.mp h).2
  exact hs

theorem stopsFor_lookup {l : Lookup} : StopsFor S (lookup l) := by
  intro log s hl h
  obtain ⟨err, rfl⟩ := reaches_lookup_stop h
  exact absurd (List.mem_singleton_self _) (hl l err)

theorem stopsFor_call {x : Except String α} (hx : ∀ err, x = .error err → S (.thrown err)) :
    StopsFor S (call x) := by
  cases x with
  | ok value => exact stopsFor_done
  | error err => exact stopsFor_stop (hx err rfl)

theorem StopsFor.bind (hp : StopsFor S p)
    (hf : ∀ log value, Reaches p log (.done value) → StopsFor S (f value)) :
    StopsFor S (p >>= f) := by
  intro log s hl h
  rcases h.bind_stop with h | ⟨log₁, log₂, value, rfl, hd, h⟩
  · exact hp log s hl h
  · exact hf log₁ value hd log₂ s (LookedUp.append.mp hl).2 h

theorem StopsFor.seq (hp : StopsFor S p) (hf : ∀ value, StopsFor S (f value)) :
    StopsFor S (p >>= f) :=
  hp.bind fun _ value _ => hf value

end Taking

/-! ### What an evaluation depends on -/

/-- The tokens that an evaluation names can be written as text. -/
structure Named (executor : Executor) (order : CreatedOrder) : Prop where
  takeToken : ∃ text, executor.toolkit.tokenAddressToString order.takeChain
    order.orderData.take.tokenAddress = .ok text
  reserveToken : ∀ route, order.route executor = .ok route → ∃ text,
    executor.toolkit.tokenAddressToString order.takeChain route.reserveDstToken = .ok text

/-- The package has answered with this estimate. -/
def Estimates (executor : Executor) (order : CreatedOrder) (log : Talk)
    (raw : ExpectedTakeAmount) : Prop :=
  ∃ context, ⟨.lookup (.calculateExpectedTakeAmount order.orderData
    (order.legacyRequiredMargin executor) context), .ok raw⟩ ∈ log

/-- The swap connector has answered with this quote. -/
def Quotes (log : Talk) (quote : SwapConnectorResult) : Prop :=
  ∃ request, ⟨.lookup (.getSwap request), .ok quote⟩ ∈ log

/-- No divisor is zero: a swap is not built from an estimate of nothing, and what asks for nothing
is profitable, so that nothing has to be explained. -/
structure Divisible (executor : Executor) (order : CreatedOrder) (log : Talk) : Prop where
  slippage : ∀ route raw, order.route executor = .ok route → route.requiresSwap = true →
    Estimates executor order log raw → raw.profitableTakeAmount ≠ 0
  explanation : order.orderData.take.amount = 0 →
    (∀ raw, Estimates executor order log raw → raw.isProfitable = true) ∧
      ∀ quote, Quotes log quote → 0 ≤ quote.amountOut

/-- The evaluation is over: the fulfil transaction sender is called, or the attempt has stopped
without it. -/
def Evaluated (log : Talk) (p : Taking Unit) : Prop :=
  Silent log ∧ ((∃ estimation next, p = Dialogue.ask (.lookup (.fulfill estimation)) next) ∨
    ∃ s, p = .stop s)

/-- A profitable estimation is fulfilled, and any other is postponed for what it is. -/
def Handled (executor : Executor) (order : CreatedOrder) (log : Talk) (p : Taking Unit) : Prop :=
  (∃ estimation next, p = Dialogue.ask (.lookup (.fulfill estimation)) next ∧
    estimation.isProfitable = true ∧ Profitable executor order log estimation) ∨
  ∃ explanation, p = .stop (.postpone .notProfitable explanation none)

/-- A lookup whose answer decides on the profitability. -/
def Request.Decides : Request → Prop
  | .lookup (.calculateExpectedTakeAmount ..) | .lookup (.getSwap _) => True
  | _ => False

section Decides

theorem Estimates.append : Estimates executor order (log ++ log') raw ↔
    Estimates executor order log raw ∨ Estimates executor order log' raw := by
  constructor
  · rintro ⟨context, hm⟩
    exact (List.mem_append.mp hm).imp (fun hm => ⟨context, hm⟩) fun hm => ⟨context, hm⟩
  · rintro (⟨context, hm⟩ | ⟨context, hm⟩)
    · exact ⟨context, List.mem_append_left _ hm⟩
    · exact ⟨context, List.mem_append_right _ hm⟩

theorem Quotes.append {quote : SwapConnectorResult} :
    Quotes (log ++ log') quote ↔ Quotes log quote ∨ Quotes log' quote := by
  constructor
  · rintro ⟨request, hm⟩
    exact (List.mem_append.mp hm).imp (fun hm => ⟨request, hm⟩) fun hm => ⟨request, hm⟩
  · rintro (⟨request, hm⟩ | ⟨request, hm⟩)
    · exact ⟨request, List.mem_append_left _ hm⟩
    · exact ⟨request, List.mem_append_right _ hm⟩

theorem not_estimates (h : ∀ e ∈ log, ¬ e.1.Decides) : ¬ Estimates executor order log raw := by
  rintro ⟨context, hm⟩
  exact h _ hm trivial

theorem not_quotes {quote : SwapConnectorResult} (h : ∀ e ∈ log, ¬ e.1.Decides) :
    ¬ Quotes log quote := by
  rintro ⟨request, hm⟩
  exact h _ hm trivial

/-- What decides nothing changes no divisor. -/
theorem Divisible.append (h : ∀ e ∈ log', ¬ e.1.Decides) :
    Divisible executor order (log ++ log') ↔ Divisible executor order log := by
  constructor
  · rintro ⟨hslippage, hexplanation⟩
    refine ⟨fun route raw hroute hswap hraw => ?_, fun ht => ⟨fun raw hraw => ?_, fun _ hq => ?_⟩⟩
    · exact hslippage route raw hroute hswap (Estimates.append.mpr (.inl hraw))
    · exact (hexplanation ht).1 raw (Estimates.append.mpr (.inl hraw))
    · exact (hexplanation ht).2 _ (Quotes.append.mpr (.inl hq))
  · rintro ⟨hslippage, hexplanation⟩
    refine ⟨fun route raw hroute hswap hraw => ?_, fun ht => ⟨fun raw hraw => ?_, fun _ hq => ?_⟩⟩
    · exact hslippage route raw hroute hswap
        ((Estimates.append.mp hraw).resolve_right (not_estimates h))
    · exact (hexplanation ht).1 raw ((Estimates.append.mp hraw).resolve_right (not_estimates h))
    · exact (hexplanation ht).2 _ ((Quotes.append.mp hq).resolve_right (not_quotes h))

/-- A part of an attempt that makes no lookup of that kind. -/
abbrev Undecided (p : Taking α) : Prop := Within (fun query => ¬ query.Decides) (fun _ => True) p

theorem undecided_call {x : Except String α} : Undecided (call x) := by
  cases x with
  | error err => exact within_stop trivial
  | ok value => exact within_done

theorem undecided_assert {validation : Bool} {message : String} :
    Undecided (assert validation message) := by
  cases validation with
  | false => exact within_stop trivial
  | true => exact within_done

theorem undecided_lookup {l : Lookup} (hl : ¬ (Request.lookup l).Decides) : Undecided (lookup l) :=
  within_ask hl fun
    | .ok _ => within_done
    | .error _ => within_stop trivial

end Decides

/-! ### The estimator -/

namespace OrderEstimator

theorem getPreFulfillSlippage_error {evaluatedTakeAmount takeAmount : ℤ} {err : String} :
    getPreFulfillSlippage evaluatedTakeAmount takeAmount = .error err ↔
      evaluatedTakeAmount = 0 ∧ err = "RangeError: Division by zero" := by
  simp only [getPreFulfillSlippage]
  split
  · rename_i hzero
    rw [Except.error.injEq, eq_comm]
    exact (and_iff_right hzero).symm
  · rename_i hne
    refine iff_of_false (fun h => ?_) fun h => hne h.1
    split at h
    · cases h
    · split at h <;> cases h

theorem takeAmountDropShare_error {projectedFulfillAmount : ℤ} {takeAmount : ℕ} {err : String} :
    takeAmountDropShare projectedFulfillAmount takeAmount = .error err ↔
      takeAmount = 0 ∧ err = "RangeError: Division by zero" := by
  unfold takeAmountDropShare
  split
  · rename_i hzero
    rw [Except.error.injEq, eq_comm]
    exact (and_iff_right hzero).symm
  · rename_i hne
    exact iff_of_false (fun h => by cases h) fun h => hne h.1

theorem undecided_getRouteHint : Undecided (getRouteHint executor order payload) := by
  refine .seq undecided_call fun route => ?_
  split
  · exact .seq undecided_assert fun _ => within_done
  · exact within_done

theorem undecided_getExpectedTakeAmountContext :
    Undecided (getExpectedTakeAmountContext executor order payload) := by
  unfold getExpectedTakeAmountContext
  split
  · refine .seq (undecided_lookup fun h => h) fun gasPrice => ?_
    refine .seq (.seq undecided_assert fun _ => within_done) fun priced => ?_
    split
    · exact within_stop trivial
    · refine .seq (.seq undecided_assert fun _ => within_done) fun charged => ?_
      exact .seq (.seq undecided_getRouteHint fun _ => within_done) fun _ => within_done
  · exact .seq (.seq undecided_getRouteHint fun _ => within_done) fun _ => within_done

theorem undecided_explainEstimation : Undecided (explainEstimation executor estimation) := by
  have hformat : ∀ {chain : ChainId} {token : Address} {amount : ℤ},
      Undecided (Executor.formatTokenValue chain token amount) :=
    .seq (undecided_lookup fun h => h) fun _ => within_done
  exact .seq undecided_call fun _ => .seq undecided_call fun _ => .seq undecided_call fun _ =>
    .seq undecided_call fun _ => .seq hformat fun _ => .seq hformat fun _ =>
    .seq hformat fun _ => within_done

/-- The estimate is the only one that was made, and no swap was looked up for it. -/
theorem getRawOrderEstimation_estimates
    (h : Reaches (getRawOrderEstimation executor order payload) log (.done (raw, payload'))) :
    (∀ raw', Estimates executor order log raw' ↔ raw' = raw) ∧ ∀ quote, ¬ Quotes log quote := by
  unfold getRawOrderEstimation at h
  obtain ⟨before, _, ⟨context, _⟩, rfl, hc, h₁⟩ := h.bind_done
  have hbefore : ∀ e ∈ before, ¬ e.1.Decides := fun e he =>
    undecided_getExpectedTakeAmountContext.of_mem hc he
  obtain ⟨_, _, found, rfl, hl, h₂⟩ := h₁.bind_done
  obtain rfl := reaches_lookup_done.mp hl
  obtain ⟨rfl, heq⟩ := reaches_done.mp h₂
  obtain ⟨rfl, rfl⟩ := Prod.mk.inj (Dialogue.done.inj heq)
  rw [List.append_nil]
  constructor
  · intro raw'
    rw [Estimates.append, or_iff_right (not_estimates hbefore)]
    constructor
    · rintro ⟨context', hm⟩
      cases List.mem_singleton.mp hm
      rfl
    · rintro rfl
      exact ⟨context, List.mem_singleton_self _⟩
  · intro quote hq
    obtain ⟨request, hm⟩ := (Quotes.append.mp hq).resolve_left (not_quotes hbefore)
    cases List.mem_singleton.mp hm

/-- What an estimation is made of: the slippage had a divisor, and the quote decides. -/
theorem completeEstimation_done
    (h : Reaches (completeEstimation executor order raw route payload) log (.done estimation)) :
    estimation.order = order ∧ (route.requiresSwap = true → raw.profitableTakeAmount ≠ 0) ∧
      (∀ raw', ¬ Estimates executor order log raw') ∧
      ∃ quote : Option SwapConnectorResult, (∀ quote', Quotes log quote' ↔ quote = some quote') ∧
        estimation.isProfitable = (raw.isProfitable &&
          quote.all fun quote => decide ((order.orderData.take.amount : ℤ) ≤ quote.amountOut)) := by
  unfold completeEstimation at h
  split at h
  · obtain ⟨_, _, quote, rfl, hs, h₁⟩ := h.bind_done
    obtain ⟨request, rfl, -⟩ := getPreFulfillSwap_done hs
    simp only [getPreFulfillSwap] at hs
    obtain ⟨_, _, slippageBps, -, hc, -⟩ := hs.bind_done
    obtain ⟨_, _, _, rfl, hp, h₂⟩ := h₁.bind_done
    obtain ⟨rfl, -, -⟩ := reaches_setPayloadEntry_done.mp hp
    obtain ⟨rfl, heq⟩ := reaches_done.mp h₂
    obtain rfl := Dialogue.done.inj heq
    refine ⟨rfl, fun _ hzero => ?_, ?_, some quote, fun quote' => ⟨?_, ?_⟩, rfl⟩
    · have hslippage := (reaches_call_done.mp hc).2
      rw [getPreFulfillSlippage_error.mpr ⟨hzero, rfl⟩] at hslippage
      cases hslippage
    · rintro raw' ⟨context, hm⟩
      cases List.mem_singleton.mp hm
    · rintro ⟨request', hm⟩
      cases List.mem_singleton.mp hm
      rfl
    · rintro ⟨⟩
      exact ⟨request, List.mem_singleton_self _⟩
  · rename_i hswap
    obtain ⟨rfl, heq⟩ := reaches_done.mp h
    obtain rfl := Dialogue.done.inj heq
    refine ⟨rfl, fun h => absurd h hswap, ?_, none, fun quote' => ⟨?_, ?_⟩, ?_⟩
    · rintro raw' ⟨context, hm⟩
      exact absurd hm List.not_mem_nil
    · rintro ⟨request, hm⟩
      exact absurd hm List.not_mem_nil
    · rintro ⟨⟩
    · exact (Bool.and_true _).symm

/-- The divisors by the only estimate and the only quote, if there is one. -/
theorem divisible_iff_of_answers {quote : Option SwapConnectorResult}
    (hroute : order.route executor = .ok route)
    (hraw : ∀ raw', Estimates executor order log raw' ↔ raw' = raw)
    (hquote : ∀ quote', Quotes log quote' ↔ quote = some quote') :
    Divisible executor order log ↔
      (route.requiresSwap = true → raw.profitableTakeAmount ≠ 0) ∧
      (order.orderData.take.amount = 0 → raw.isProfitable = true ∧
        ∀ quote', quote = some quote' → 0 ≤ quote'.amountOut) := by
  constructor
  · rintro ⟨hslippage, hexplanation⟩
    refine ⟨fun hswap => hslippage route raw hroute hswap ((hraw raw).mpr rfl), fun ht => ?_⟩
    obtain ⟨hr, hq⟩ := hexplanation ht
    exact ⟨hr raw ((hraw raw).mpr rfl), fun quote' hq' => hq quote' ((hquote quote').mpr hq')⟩
  · rintro ⟨hslippage, hexplanation⟩
    constructor
    · intro route' raw' hroute' hswap hr
      obtain rfl := Except.ok.inj (hroute.symm.trans hroute')
      obtain rfl := (hraw raw').mp hr
      exact hslippage hswap
    · intro ht
      obtain ⟨hr, hq⟩ := hexplanation ht
      refine ⟨fun raw' hr' => ?_, fun quote' hq' => hq quote' ((hquote quote').mp hq')⟩
      obtain rfl := (hraw raw').mp hr'
      exact hr

/-- Once there is an estimation, only its explanation may divide by zero. -/
theorem divisible_iff_of_done
    (h : Reaches (getEstimation executor order payload) log (.done estimation)) :
    estimation.order = order ∧ (Divisible executor order log ↔
      (order.orderData.take.amount = 0 → estimation.isProfitable = true)) := by
  unfold getEstimation at h
  obtain ⟨estimated, _, ⟨raw, _⟩, rfl, hestimation, h₁⟩ := h.bind_done
  obtain ⟨hestimates, hquotes⟩ := getRawOrderEstimation_estimates hestimation
  obtain ⟨_, last, route, rfl, ha, h₂⟩ := h₁.bind_done
  obtain ⟨rfl, hroute, -⟩ := assertReserveToken_done ha
  obtain ⟨horder, hne, hnone, quote, hlast, hprofitable⟩ := completeEstimation_done h₂
  refine ⟨horder, ?_⟩
  rw [List.nil_append]
  have hraw : ∀ raw', Estimates executor order (estimated ++ last) raw' ↔ raw' = raw := by
    intro raw'
    rw [Estimates.append, hestimates, or_iff_left (hnone raw')]
  have hquote : ∀ quote', Quotes (estimated ++ last) quote' ↔ quote = some quote' := by
    intro quote'
    rw [Quotes.append, or_iff_right (hquotes quote'), hlast]
  rw [divisible_iff_of_answers hroute hraw hquote, and_iff_right hne, hprofitable]
  refine forall_congr' fun ht => ?_
  rw [Bool.and_eq_true, Option.all_eq_true, ht]
  simp only [Nat.cast_zero, decide_eq_true_eq]

theorem take_amount_ne_zero_of_explained {explanation : String}
    (h : Reaches (explainEstimation executor estimation) log (.done explanation)) :
    estimation.order.orderData.take.amount ≠ 0 := by
  intro hzero
  simp only [explainEstimation] at h
  obtain ⟨_, _, dropShare, -, hc, -⟩ := h.bind_done
  have hshare := (reaches_call_done.mp hc).2
  rw [takeAmountDropShare_error.mpr ⟨hzero, rfl⟩] at hshare
  cases hshare

/-! ### Where the estimator stops -/

section Stops

variable {S : Stop → Prop} (hroute : order.route executor = .ok route)
include hroute

theorem stopsFor_route : StopsFor S (call (order.route executor)) := by
  refine stopsFor_call fun err herr => ?_
  rw [hroute] at herr
  cases herr

theorem stopsFor_getRouteHint
    (hint : route.requiresSwap = true → payload.validationPreFulfillSwap.isSome = true) :
    StopsFor S (getRouteHint executor order payload) := by
  refine (stopsFor_route hroute).bind fun _ route' hr => ?_
  obtain rfl := Except.ok.inj (hroute.symm.trans (reaches_call_done.mp hr).2)
  split
  · rename_i hswap
    rw [hint hswap]
    exact .seq stopsFor_done fun _ => stopsFor_done
  · exact stopsFor_done

theorem stopsFor_getRawOrderEstimation (hp : Primed executor order payload)
    (hlimited : GasLimited executor order payload) :
    StopsFor (fun _ => False) (getRawOrderEstimation executor order payload) := by
  have hset : ∀ {key : String} {payload : OrderEvaluationPayload},
      StopsFor (fun _ => False) (setPayloadEntry key (none : Option ℤ) payload) :=
    .seq stopsFor_done fun _ => stopsFor_done
  refine .seq ?_ fun _ => .seq stopsFor_lookup fun _ => stopsFor_done
  unfold getExpectedTakeAmountContext
  split
  · rename_i hengine
    obtain ⟨gasLimit, hgas⟩ := Option.isSome_iff_exists.mp (hlimited hengine)
    refine .seq stopsFor_lookup fun gasPrice => ?_
    rw [hp.gasPrice]
    refine hset.bind fun _ priced hpriced => ?_
    obtain ⟨-, -, rfl⟩ := reaches_setPayloadEntry_done.mp hpriced
    rw [hgas, hp.fee]
    refine hset.bind fun _ charged hcharged => ?_
    obtain ⟨-, -, rfl⟩ := reaches_setPayloadEntry_done.mp hcharged
    refine .seq (.seq (stopsFor_getRouteHint hroute ?_) fun _ => stopsFor_done) fun _ =>
      stopsFor_done
    exact hp.hint route hroute
  · refine .seq (.seq (stopsFor_getRouteHint hroute ?_) fun _ => stopsFor_done) fun _ =>
      stopsFor_done
    exact hp.hint route hroute

theorem stopsFor_assertReserveToken (hn : Named executor order)
    (haligned : raw.reserveDstToken = route.reserveDstToken) :
    StopsFor (fun _ => False) (assertReserveToken executor order raw) := by
  obtain ⟨text, htext⟩ := hn.reserveToken route hroute
  simp only [assertReserveToken]
  refine (stopsFor_route hroute).bind fun _ route' hr => ?_
  obtain rfl := Except.ok.inj (hroute.symm.trans (reaches_call_done.mp hr).2)
  rw [haligned, htext, decide_eq_true rfl]
  exact .seq stopsFor_done fun _ => .seq stopsFor_done fun _ => .seq stopsFor_done fun _ =>
    stopsFor_done

/-- What is estimated to yield nothing stops the estimator if a swap is needed. -/
theorem stopsFor_completeEstimation
    (hint : route.requiresSwap = true → payload.validationPreFulfillSwap.isSome = true)
    (hnone : payload.preFulfillSwap = none) (hforwarding : Forwarding executor order) :
    StopsFor (fun s => s = .thrown "RangeError: Division by zero" ∧ route.requiresSwap = true ∧
      raw.profitableTakeAmount = 0) (completeEstimation executor order raw route payload) := by
  unfold completeEstimation
  split
  · rename_i hswap
    obtain ⟨forwarder, hforwarder⟩ := hforwarding route hroute hswap
    refine .seq (.seq (stopsFor_call ?_) fun _ => ?_) fun quote => ?_
    · intro err herr
      obtain ⟨hzero, rfl⟩ := getPreFulfillSlippage_error.mp herr
      exact ⟨rfl, hswap, hzero⟩
    · rw [hforwarder]
      exact .seq (stopsFor_getRouteHint hroute hint) fun _ => .seq stopsFor_done fun _ =>
        stopsFor_lookup
    · rw [hnone]
      exact .seq (.seq stopsFor_done fun _ => stopsFor_done) fun _ => stopsFor_done
  · exact stopsFor_done

theorem stopsFor_explainEstimation (hn : Named executor order) (horder : estimation.order = order) :
    StopsFor (fun s => s = .thrown "RangeError: Division by zero" ∧
      order.orderData.take.amount = 0) (explainEstimation executor estimation) := by
  obtain ⟨takeText, htake⟩ := hn.takeToken
  obtain ⟨reserveText, hreserve⟩ := hn.reserveToken route hroute
  have hformat : ∀ {S : Stop → Prop} {chain : ChainId} {token : Address} {amount : ℤ},
      StopsFor S (Executor.formatTokenValue chain token amount) :=
    .seq stopsFor_lookup fun _ => stopsFor_done
  simp only [explainEstimation, horder]
  refine .seq (stopsFor_call ?_) fun dropShare => ?_
  · intro err herr
    obtain ⟨hzero, rfl⟩ := takeAmountDropShare_error.mp herr
    exact ⟨rfl, hzero⟩
  · refine (stopsFor_route hroute).bind fun _ route' hr => ?_
    obtain rfl := Except.ok.inj (hroute.symm.trans (reaches_call_done.mp hr).2)
    rw [hreserve, htake]
    exact .seq stopsFor_done fun _ => .seq stopsFor_done fun _ => .seq hformat fun _ =>
      .seq hformat fun _ => .seq hformat fun _ => stopsFor_done

end Stops

end OrderEstimator

namespace CreatedOrderTaker

open OrderEstimator OrderValidator

/-- The estimator stops with an exception, never with a short circuit. -/
theorem getEstimation_stop_divisible {s : Stop} (hroute : order.route executor = .ok route)
    (hprimed : Primed executor order payload) (hforwarding : Forwarding executor order)
    (hlimited : GasLimited executor order payload) (hn : Named executor order)
    (hl : LookedUp log) (ha : Aligned executor order log)
    (h : Reaches (getEstimation executor order payload) log (.stop s)) :
    s = .thrown "RangeError: Division by zero" ∧ ¬ Divisible executor order log := by
  unfold getEstimation at h
  rcases h.bind_stop with hraw | ⟨estimated, _, ⟨raw, payload'⟩, rfl, hraw, h₁⟩
  · exact (stopsFor_getRawOrderEstimation hroute hprimed hlimited log s hl hraw).elim
  · obtain ⟨hestimates, -⟩ := getRawOrderEstimation_estimates hraw
    obtain ⟨context, hmem⟩ := (hestimates raw).mpr rfl
    obtain ⟨-, hf, hv⟩ := getRawOrderEstimation_done hraw
    have hl₁ := (LookedUp.append.mp hl).2
    rcases h₁.bind_stop with hassert | ⟨_, last, route', rfl, hassert, h₂⟩
    · have haligned := ha _ context raw route (List.mem_append_left _ hmem) hroute
      exact (stopsFor_assertReserveToken hroute hn haligned _ s hl₁ hassert).elim
    · obtain ⟨rfl, hroute', -⟩ := assertReserveToken_done hassert
      obtain rfl := Except.ok.inj (hroute.symm.trans hroute')
      rw [List.nil_append] at hl₁ ⊢
      have hint : route.requiresSwap = true → payload'.validationPreFulfillSwap.isSome = true :=
        hv ▸ hprimed.hint route hroute
      obtain ⟨rfl, hswap, hzero⟩ := stopsFor_completeEstimation hroute hint
        (hf.trans hprimed.preFulfillSwap) hforwarding last s hl₁ h₂
      refine ⟨rfl, fun hd => hd.slippage route raw hroute hswap ?_ hzero⟩
      exact ⟨context, List.mem_append_left _ hmem⟩

/-- An estimation is handled if and only if no divisor is zero. -/
theorem evaluation_handled_iff {p : Taking Unit}
    (hv : Reaches (validate executor order) checked (.done payload))
    (h : Reaches (take executor order) (checked ++ log) p) (hp : Evaluated log p)
    (hl : LookedUp log) (ha : Aligned executor order log) (hn : Named executor order) :
    Handled executor order log p ↔ Divisible executor order log := by
  obtain ⟨⟨hprimed, hforwarding, hlimited⟩, trail, -, hvalidated⟩ := validate_done hv
  obtain ⟨route, hroute, -⟩ := hvalidated.prefulfillSwapAbility
  obtain ⟨hsilent, ⟨estimation, next, rfl⟩ | ⟨s, rfl⟩⟩ := hp
  · -- the fulfil transaction sender is called
    obtain ⟨he, hprofitable, -⟩ := evaluated_ask hprimed hv h
    refine iff_of_true (.inl ⟨_, _, rfl, hprofitable, getEstimation_done he hprofitable⟩) ?_
    exact (divisible_iff_of_done he).2.mpr fun _ => hprofitable
  · -- the attempt stops without it
    have hthrown : ∀ err, ¬ Handled executor order log (Dialogue.stop (.thrown err)) := by
      rintro err (⟨_, _, heq, -⟩ | ⟨_, heq⟩)
      · cases heq
      · cases heq
    rcases evaluated_stop hv h hsilent with he | ⟨estimated, last, estimation, rfl, he, hnot, hx⟩
    · obtain ⟨rfl, hd⟩ :=
        getEstimation_stop_divisible hroute hprimed hforwarding hlimited hn hl ha he
      exact iff_of_false (hthrown _) hd
    · obtain ⟨horder, hdivisible⟩ := divisible_iff_of_done he
      rcases hx with hx | ⟨explanation, hx, rfl⟩
      · obtain ⟨rfl, hzero⟩ := stopsFor_explainEstimation hroute hn horder last s
          (LookedUp.append.mp hl).2 hx
        refine iff_of_false (hthrown _) fun hd => hnot ?_
        rw [Divisible.append fun e he => undecided_explainEstimation.of_mem hx he] at hd
        exact hdivisible.mp hd hzero
      · rw [Divisible.append fun e he => undecided_explainEstimation.of_mem hx he]
        refine iff_of_true (.inr ⟨explanation, rfl⟩) (hdivisible.mpr fun hzero => ?_)
        exact absurd hzero (horder ▸ take_amount_ne_zero_of_explained hx)

/-- An estimation that is not profitable and can be explained is postponed for that reason. -/
theorem take_postpones {explanation : String}
    (hv : Reaches (validate executor order) checked (.done payload))
    (he : Reaches (getEstimation executor order payload) log (.done estimation))
    (hunprofitable : estimation.isProfitable = false)
    (hx : Reaches (explainEstimation executor estimation) log' (.done explanation)) :
    Reaches (take executor order) (checked ++ (log ++ log'))
      (.stop (.postpone .notProfitable explanation none)) := by
  refine hv.seq (he.seq ?_)
  rw [hunprofitable, if_neg Bool.false_ne_true]
  exact hx.first

end CreatedOrderTaker

/-! ### Runs on fixed inputs -/

namespace Sample

/-- The order asks for another token than the reserve token. -/
def swappedOrder : CreatedOrder :=
  { takenOrder with orderData := orderData ⟨1, [10], 100⟩ ⟨2, [21], 99⟩ }

/-- The estimator asks for the gas price, and the package estimates that nothing can be paid. -/
def nothingToPay (order : CreatedOrder) (context : ExpectedTakeAmountContext) : Talk :=
  [⟨.lookup (.getGasPrice 2), .ok (1 : ℤ)⟩,
    ⟨.lookup (.calculateExpectedTakeAmount order.orderData 4 context), .ok ⟨false, [20], 0, 0⟩⟩]

end Sample

namespace CreatedOrderTaker

open OrderEstimator OrderValidator

/-- The reserve token that the package has picked in an exchange. -/
def pickedToken : Exchange Answer → Option Address
  | ⟨.lookup (.calculateExpectedTakeAmount ..), .ok raw⟩ => some raw.reserveDstToken
  | _ => none

theorem aligned_of_picked (hroute : order.route executor = .ok route)
    (h : (log.all fun e => (pickedToken e).all (· = route.reserveDstToken)) = true) :
    Aligned executor order log := by
  intro margin context raw route' hm hroute'
  obtain rfl := Except.ok.inj (hroute.symm.trans hroute')
  have hpicked := List.all_eq_true.mp h _ hm
  exact of_decide_eq_true hpicked

theorem named_sample (order : CreatedOrder) : Named Sample.daemon order :=
  ⟨⟨"0x", rfl⟩, fun _ _ => ⟨"0x", rfl⟩⟩

/-- Without a swap the estimate of nothing is handled. -/
theorem evaluation_handled_iff_postponed : ∃ checked log p,
    Reaches (take Sample.daemon Sample.takenOrder) (checked ++ log) p ∧
      Handled Sample.daemon Sample.takenOrder log p := by
  let payload : OrderEvaluationPayload := ⟨none, none, some 21000, none, none, none⟩
  let context : ExpectedTakeAmountContext := ⟨10, none, false, false, some 21000, some 1⟩
  let estimation : OrderEstimation :=
    ⟨Sample.takenOrder, false, 0, 0, ⟨none, none, some 21000, none, some 1, some 21000⟩⟩
  let decimals : Exchange Answer := ⟨.lookup (.getDecimals 2 [20]), .ok (0 : ℕ)⟩
  let log := Sample.nothingToPay Sample.takenOrder context ++ [decimals, decimals, decimals]
  have hv := reaches_of_play (show (play (Sample.answer true fun _ => true) []
    (validate Sample.daemon Sample.takenOrder)).2 = .inr payload by decide +kernel)
  have he : Reaches (getEstimation Sample.daemon Sample.takenOrder payload)
      (Sample.nothingToPay Sample.takenOrder context) (.done estimation) :=
    .answer _ _ (.answer _ _ (.refl _))
  have hx : ∃ explanation, Reaches (explainEstimation Sample.daemon estimation)
      [decimals, decimals, decimals] (.done explanation) :=
    ⟨_, .answer _ _ (.answer _ _ (.answer _ _ (.refl _)))⟩
  obtain ⟨explanation, hx⟩ := hx
  have h := take_postpones hv he rfl hx
  have hl : LookedUp log := lookedUp_of_all (by decide +kernel)
  have hs : Silent log := silent_of_all (by decide +kernel)
  have hroute : Sample.takenOrder.route Sample.daemon = .ok ⟨[20], false⟩ := by decide +kernel
  have ha : Aligned Sample.daemon Sample.takenOrder log :=
    aligned_of_picked hroute (by decide +kernel)
  have hd : Divisible Sample.daemon Sample.takenOrder log := by
    constructor
    · intro route raw hroute' hswap
      cases hroute.symm.trans hroute'
      cases hswap
    · intro ht
      cases ht
  have hp : Evaluated log (Dialogue.stop (.postpone .notProfitable explanation none)) :=
    ⟨hs, .inr ⟨_, rfl⟩⟩
  exact ⟨_, log, _, h, (evaluation_handled_iff hv h hp hl ha (named_sample _)).mpr hd⟩

/-- With a swap the slippage is divided by it, and the attempt ends as one that threw. -/
theorem estimate_of_nothing_thrown : ∃ checked payload context,
    Reaches (validate Sample.daemon Sample.swappedOrder) checked (.done payload) ∧
    Reaches (take Sample.daemon Sample.swappedOrder)
      (checked ++ Sample.nothingToPay Sample.swappedOrder context)
      (.stop (.thrown "RangeError: Division by zero")) ∧
    LookedUp (Sample.nothingToPay Sample.swappedOrder context) ∧
    Aligned Sample.daemon Sample.swappedOrder
      (Sample.nothingToPay Sample.swappedOrder context) ∧
    Named Sample.daemon Sample.swappedOrder ∧
    ¬ Handled Sample.daemon Sample.swappedOrder
      (Sample.nothingToPay Sample.swappedOrder context)
      (Dialogue.stop (.thrown "RangeError: Division by zero")) := by
  let payload : OrderEvaluationPayload := ⟨none, some ⟨100⟩, some 21000, none, none, none⟩
  let context : ExpectedTakeAmountContext := ⟨10, some ⟨100⟩, false, false, some 21000, some 1⟩
  have hv := reaches_of_play (show (play (Sample.answer true fun _ => true) []
    (validate Sample.daemon Sample.swappedOrder)).2 = .inr payload by decide +kernel)
  have he : Reaches (getEstimation Sample.daemon Sample.swappedOrder payload)
      (Sample.nothingToPay Sample.swappedOrder context)
      (.stop (.thrown "RangeError: Division by zero")) := .answer _ _ (.answer _ _ (.refl _))
  have hl : LookedUp (Sample.nothingToPay Sample.swappedOrder context) :=
    lookedUp_of_all (by decide +kernel)
  have hroute : Sample.swappedOrder.route Sample.daemon = .ok ⟨[20], true⟩ := by decide +kernel
  have ha : Aligned Sample.daemon Sample.swappedOrder
      (Sample.nothingToPay Sample.swappedOrder context) :=
    aligned_of_picked hroute (by decide +kernel)
  refine ⟨_, payload, context, hv, hv.seq he.first, hl, ha, named_sample _, ?_⟩
  rintro (⟨_, _, heq, -⟩ | ⟨_, heq⟩)
  · cases heq
  · cases heq

end CreatedOrderTaker

end DlnTaker
