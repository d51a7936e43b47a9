import DlnTaker.Taking.Fulfilment

/-! # What follows a fulfilment

Once the fulfil transaction sender has resolved with a hash, the attempt is
accounted for if and only if the order can be valued: the lookups of the price
and of the decimals stand between the send and all accounting, and their failure
is treated as that of the whole attempt.
-/

namespace DlnTaker

open Dialogue Taking CreatedOrderTaker

variable {executor : Executor} {order : CreatedOrder} {log post : Talk} {txHash : String}

theorem ThroughputController.addOrder_recorded {c c' : ThroughputController} {now n i : ℕ}
    {orderId : OrderId} {usdValue : ℚ} {threshold : Threshold}
    (h : c.addOrder now orderId n usdValue = .ok c')
    (hactive : c.getMetric n = some (threshold, i)) :
    ∃ record ∈ c'.orders, record.orderId = orderId ∧ record.usdValue = usdValue ∧
      record.metric = i := by
  unfold addOrder at h
  rw [hactive] at h
  cases hremoved : c.removeOrder orderId with
  | error crash =>
    rw [hremoved] at h
    cases h
  | ok removed =>
    rw [hremoved] at h
    obtain rfl := Except.ok.inj h
    exact ⟨_, List.mem_append_right _ (List.mem_singleton_self _), rfl, rfl, rfl⟩

namespace CreatedOrderTaker

/-- How the promise of `take` settles, whatever the attempt ends in. -/
def outcomeOf : Stop ⊕ Unit → Option TakeOutcome
  | .inl s => s.outcome
  | .inr () => some .success

def IsHook (query : Request) : Prop := ∃ params, query = .orderFulfilled params

/-- The order is recorded by the controller of its give chain, if its range is active. -/
def RecordedIn (executor : Executor) (order : CreatedOrder) (log : Talk) : Prop :=
  ∃ usdValue, ∃ now : ℕ, ∃ throughput : Answer (.throughput order.giveChain), ∃ throughput',
    [⟨.throughput order.giveChain, throughput⟩, ⟨.now, now⟩,
      ⟨.setThroughput order.giveChain throughput', ()⟩] <:+: log ∧
    throughput.1.addOrder now order.orderId (order.blockConfirmations executor) usdValue =
      .ok throughput' ∧
    ∀ threshold i, throughput.1.getMetric (order.blockConfirmations executor) =
      some (threshold, i) → ∃ record ∈ throughput'.orders,
        record.orderId = order.orderId ∧ record.metric = i

/-- The fulfilment is accounted for by what is said after it and by how the attempt ends: the order
is recorded, the TVL cache is flushed, the hook is called once, and `takeOrder` marks the order as
fulfilled and calls no other hook. -/
structure AccountedFor (executor : Executor) (order : CreatedOrder) (txHash : String)
    (log : Talk) (r : Stop ⊕ Unit) : Prop where
  recorded : RecordedIn executor order log
  flushed : ⟨.flushCache order.giveChain, ()⟩ ∈ log
  hooked : ∃ before after, log = before ++ ⟨.orderFulfilled
      { orderId := order.orderId, order := order.orderData, txHash }, ()⟩ :: after ∧
    ∀ e ∈ before ++ after, ¬ IsHook e.1
  marked : ∃ outcome, outcomeOf r = some outcome ∧
    ∀ (p : OrderProcessor) (network : Network) (pending : PendingTake),
      p.settleTake network pending outcome =
        p.markOrderAsFulfilled network pending.metadata.context.orderInfo.orderId ∧
      (p.settleTake network pending outcome).effects = p.effects

/-- No lookup has failed. -/
def LookedUp (log : Talk) : Prop :=
  ∀ (l : Lookup) (err : String), ⟨.lookup l, .error err⟩ ∉ log

theorem getUsdValue_done {usdValue : ℚ} (h : Reaches order.getUsdValue log (.done usdValue)) :
    ∃ price : ℚ, ∃ decimals : ℕ, log =
      [⟨.lookup (.getPrice order.orderData.give.chainId order.orderData.give.tokenAddress),
          .ok price⟩,
        ⟨.lookup (.getDecimals order.orderData.give.chainId order.orderData.give.tokenAddress),
          .ok decimals⟩] := by
  obtain ⟨_, _, value, rfl, hv, h₁⟩ := h.bind_done
  obtain ⟨rfl, -⟩ := reaches_done.mp h₁
  obtain ⟨_, _, price, rfl, hp, h₂⟩ := hv.bind_done
  obtain rfl := reaches_lookup_done.mp hp
  obtain ⟨_, _, decimals, rfl, hd, h₃⟩ := h₂.bind_done
  obtain rfl := reaches_lookup_done.mp hd
  obtain ⟨rfl, -⟩ := reaches_done.mp h₃
  exact ⟨price, decimals, rfl⟩

theorem reaches_lookup_stop {l : Lookup} {s : Stop} (h : Reaches (lookup l) log (.stop s)) :
    ∃ err, log = [⟨.lookup l, .error err⟩] := by
  unfold lookup at h
  rcases reaches_ask.mp h with ⟨-, heq⟩ | ⟨answer, log', rfl, hr⟩
  · cases heq
  · cases answer with
    | ok found => cases (reaches_done.mp hr).2
    | error err =>
      obtain ⟨rfl, -⟩ := reaches_stop.mp hr
      exact ⟨err, rfl⟩

theorem reaches_request_stop {query : Request} {s : Stop} :
    ¬ Reaches (ask query) log (.stop s) := by
  intro h
  rcases reaches_ask.mp h with ⟨-, heq⟩ | ⟨answer, log', -, hr⟩
  · cases heq
  · cases (reaches_done.mp hr).2

theorem getUsdValue_stop {s : Stop} (h : Reaches order.getUsdValue log (.stop s)) :
    ¬ LookedUp log := by
  intro hl
  rcases h.bind_stop with hv | ⟨_, _, value, -, -, h₁⟩
  · rcases hv.bind_stop with hp | ⟨_, _, price, rfl, -, h₂⟩
    · obtain ⟨err, rfl⟩ := reaches_lookup_stop hp
      exact hl _ err (List.mem_singleton_self _)
    · rcases h₂.bind_stop with hd | ⟨_, _, decimals, -, -, h₃⟩
      · obtain ⟨err, rfl⟩ := reaches_lookup_stop hd
        exact hl _ err (List.mem_append_right _ (List.mem_singleton_self _))
      · cases (reaches_done.mp h₃).2
  · cases (reaches_done.mp h₁).2

theorem addToThroughput_done {usdValue : ℚ} {u : Unit}
    (h : Reaches (addToThroughput executor order usdValue) log (.done u)) :
    ∃ throughput : Answer (.throughput order.giveChain), ∃ now : ℕ, ∃ throughput',
      log = [⟨.throughput order.giveChain, throughput⟩, ⟨.now, now⟩,
        ⟨.setThroughput order.giveChain throughput', ()⟩] ∧
      throughput.1.addOrder now order.orderId (order.blockConfirmations executor) usdValue =
        .ok throughput' := by
  unfold addToThroughput at h
  obtain ⟨_, _, throughput, rfl, ht, h₁⟩ := h.bind_done
  obtain rfl := reaches_request_done.mp ht
  obtain ⟨_, _, now, rfl, hn, h₂⟩ := h₁.bind_done
  obtain rfl := reaches_request_done.mp hn
  split at h₂
  · rename_i throughput' hadded
    obtain rfl := reaches_request_done.mp h₂
    exact ⟨throughput, now, throughput', rfl, hadded⟩
  · exact absurd h₂ (fails_stop _ _)
  · exact absurd h₂ (fails_stop _ _)

/-- The controllers of the give chain are sound, and nothing else can fail. -/
theorem addToThroughput_stop {usdValue : ℚ} {s : Stop} :
    ¬ Reaches (addToThroughput executor order usdValue) log (.stop s) := by
  intro h
  unfold addToThroughput at h
  rcases h.bind_stop with ht | ⟨_, _, throughput, -, -, h₁⟩
  · exact reaches_request_stop ht
  · rcases h₁.bind_stop with hn | ⟨_, _, now, -, -, h₂⟩
    · exact reaches_request_stop hn
    · obtain ⟨c, hc, -⟩ := throughput.2.addOrder now order.orderId
        (order.blockConfirmations executor) usdValue
      rw [hc] at h₂
      exact reaches_request_stop h₂

/-- All that is said in an accounting that comes to its end. -/
theorem account_done {u : Unit} (h : Reaches (account executor order txHash) log (.done u)) :
    ∃ price : ℚ, ∃ decimals : ℕ, ∃ usdValue, ∃ throughput : Answer (.throughput order.giveChain),
      ∃ now : ℕ, ∃ throughput', log =
        [⟨.lookup (.getPrice order.orderData.give.chainId order.orderData.give.tokenAddress),
            .ok price⟩,
          ⟨.lookup (.getDecimals order.orderData.give.chainId order.orderData.give.tokenAddress),
            .ok decimals⟩,
          ⟨.throughput order.giveChain, throughput⟩, ⟨.now, now⟩,
          ⟨.setThroughput order.giveChain throughput', ()⟩, ⟨.flushCache order.giveChain, ()⟩,
          ⟨.orderFulfilled
            { orderId := order.orderId, order := order.orderData, txHash }, ()⟩] ∧
        throughput.1.addOrder now order.orderId (order.blockConfirmations executor) usdValue =
          .ok throughput' := by
  unfold account at h
  obtain ⟨_, _, usdValue, rfl, hu, h₁⟩ := h.bind_done
  obtain ⟨price, decimals, rfl⟩ := getUsdValue_done hu
  obtain ⟨_, _, _, rfl, ht, h₂⟩ := h₁.bind_done
  obtain ⟨throughput, now, throughput', rfl, hadded⟩ := addToThroughput_done ht
  obtain ⟨_, _, _, rfl, hf, h₃⟩ := h₂.bind_done
  obtain rfl := reaches_request_done.mp hf
  obtain rfl := reaches_request_done.mp h₃
  exact ⟨price, decimals, usdValue, throughput, now, throughput', rfl, hadded⟩

/-- An accounting stops only at a lookup. -/
theorem account_stop {s : Stop} (h : Reaches (account executor order txHash) log (.stop s)) :
    ¬ LookedUp log := by
  unfold account at h
  rcases h.bind_stop with hu | ⟨_, _, usdValue, rfl, -, h₁⟩
  · exact getUsdValue_stop hu
  · exfalso
    rcases h₁.bind_stop with ht | ⟨_, _, _, -, -, h₂⟩
    · exact addToThroughput_stop ht
    · rcases h₂.bind_stop with hf | ⟨_, _, _, -, -, h₃⟩
      · exact reaches_request_stop hf
      · exact reaches_request_stop h₃

theorem accountedFor_of_done {u : Unit}
    (h : Reaches (account executor order txHash) log (.done u)) :
    LookedUp log ∧ AccountedFor executor order txHash log (.inr u) := by
  obtain ⟨price, decimals, usdValue, throughput, now, throughput', rfl, hadded⟩ := account_done h
  constructor
  · intro l err hm
    simp only [List.mem_cons, Sigma.mk.injEq, Request.lookup.injEq, reduceCtorEq, false_and,
      List.not_mem_nil, or_false] at hm
    rcases hm with ⟨rfl, heq⟩ | ⟨rfl, heq⟩
    · cases eq_of_heq heq
    · cases eq_of_heq heq
  · refine ⟨⟨usdValue, now, throughput, throughput', ⟨[_, _], [_, _], rfl⟩, hadded, ?_⟩, by simp,
      ⟨[_, _, _, _, _, _], [], rfl, ?_⟩, .success, rfl, fun p network pending => ⟨rfl, rfl⟩⟩
    · intro threshold i hactive
      obtain ⟨record, hm, hid, -, hmetric⟩ :=
        ThroughputController.addOrder_recorded hadded hactive
      exact ⟨record, hm, hid, hmetric⟩
    · simp [IsHook]

/-- A fulfilment that was sent is accounted for if and only if the lookups of the price and the
decimals that follow it do not fail. -/
theorem accounted_iff {pre : Talk} {estimation : OrderEstimation} {r : Stop ⊕ Unit}
    (h : Reaches (take executor order)
      (pre ++ ⟨.lookup (.fulfill estimation), .ok txHash⟩ :: post) (ended r)) :
    AccountedFor executor order txHash post r ↔ LookedUp post := by
  obtain ⟨next, hask, hr⟩ := h.split
  rw [(take_ask hask).2 txHash] at hr
  cases r with
  | inr u =>
    obtain ⟨hlooked, haccounted⟩ := accountedFor_of_done hr
    exact iff_of_true haccounted hlooked
  | inl s =>
    refine iff_of_false (fun haccounted => ?_) (account_stop hr)
    obtain ⟨outcome, houtcome, hmarked⟩ := haccounted.marked
    obtain ⟨outcome', houtcome', hends⟩ :=
      endsUnfulfilled_of_settles (calm_account.stopped _ _ hr)
    obtain rfl := Option.some.inj (houtcome.symm.trans houtcome')
    -- any call of `takeOrder` tells the two endings apart
    let pending : PendingTake :=
      ⟨order.orderId, ⟨0, 0, Sample.archivalCreated order.orderId, rfl, rfl⟩, true, false⟩
    obtain ⟨e, heffects, -⟩ := hends .initial Sample.network pending
    rw [(hmarked .initial Sample.network pending).2] at heffects
    simp at heffects

/-! ### Runs on fixed inputs -/

def isFailure : Exchange Answer → Bool
  | ⟨.lookup _, .error _⟩ => true
  | _ => false

/-- A request that the accounting makes and the checks do not. -/
def isAccounting : Request → Bool
  | .setThroughput .. | .flushCache _ | .orderFulfilled _ => true
  | _ => false

theorem lookedUp_of_all (h : (log.all fun e => !isFailure e) = true) : LookedUp log := by
  intro l err hm
  simpa [isFailure] using List.all_eq_true.mp h _ hm

theorem accounted_iff_priced :
    ∃ pre estimation txHash post r, Reaches (take Sample.daemon Sample.takenOrder)
      (pre ++ ⟨.lookup (.fulfill estimation), .ok txHash⟩ :: post) (ended r) ∧
      AccountedFor Sample.daemon Sample.takenOrder txHash post r := by
  obtain ⟨pre, estimation, sent, post, hl, hr⟩ :=
    exists_fulfill_of_play (take Sample.daemon Sample.takenOrder)
      (Sample.answer true fun _ => true) (by decide +kernel)
  have hlooked := lookedUp_of_all (show (List.all
    (play (Sample.answer true fun _ => true) [] (take Sample.daemon Sample.takenOrder)).1
    fun e => !isFailure e) = true by decide +kernel)
  rw [hl] at hlooked
  cases sent with
  | error err => exact absurd (by simp) (hlooked (.fulfill estimation) err)
  | ok txHash =>
    refine ⟨pre, estimation, txHash, post, _, hr, (accounted_iff hr).mpr ?_⟩
    exact fun l err hm => hlooked l err (by simp [hm])

/-- The price lookup fails after the fulfilment: nothing is recorded, flushed or announced, and the
attempt ends as one that threw. -/
theorem sent_and_not_accounted :
    ∃ pre estimation txHash post, Reaches (take Sample.daemon Sample.takenOrder)
      (pre ++ ⟨.lookup (.fulfill estimation), .ok txHash⟩ :: post)
      (.stop (.thrown "Error: no price")) ∧ (∀ e ∈ post, isAccounting e.1 = false) ∧
      ¬ AccountedFor Sample.daemon Sample.takenOrder txHash post
        (.inl (.thrown "Error: no price")) := by
  let env := Sample.answer true fun said => !(said.any (·.1.isFulfill))
  obtain ⟨pre, estimation, sent, post, hl, hr⟩ :=
    exists_fulfill_of_play (take Sample.daemon Sample.takenOrder) env (by decide +kernel)
  have hend : (play env [] (take Sample.daemon Sample.takenOrder)).2 =
      .inl (.thrown "Error: no price") := by decide +kernel
  have hsent : (List.all (play env [] (take Sample.daemon Sample.takenOrder)).1
    fun e => !(e.1.isFulfill && isFailure e)) = true := by decide +kernel
  have hsilent : (List.all (play env [] (take Sample.daemon Sample.takenOrder)).1
    fun e => !isAccounting e.1) = true := by decide +kernel
  rw [hl] at hsent hsilent
  rw [hend] at hr
  cases sent with
  | error err => simp [Request.isFulfill, isFailure] at hsent
  | ok txHash =>
    have hpost : ∀ e ∈ post, isAccounting e.1 = false := fun e hm => by
      simpa using List.all_eq_true.mp hsilent e (List.mem_append_right _ (.tail _ hm))
    refine ⟨pre, estimation, txHash, post, hr, hpost, fun haccounted => ?_⟩
    exact absurd (hpost _ haccounted.flushed) (by simp [isAccounting])

end CreatedOrderTaker

end DlnTaker
