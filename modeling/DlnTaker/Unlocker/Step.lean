import DlnTaker.Library.Journal
import DlnTaker.Unlocker.Basic

/-! # What one section of the unlocker does

For each operation the fields it changes, then `Change`: the effects of a step,
each with the guards under which the code reaches it. `Sound` holds in every
reachable state: at most one call of `tryUnlock` is in progress, it holds the
lock, and what it knows of its orders was looked up in the same attempt.
-/

namespace DlnTaker

namespace UnlockEntry

/-- A batch attempt begins. -/
def IsPicked : UnlockEntry → Prop
  | picked .. => True
  | _ => False

instance : DecidablePred IsPicked := fun e => by
  cases e <;> unfold IsPicked <;> infer_instance

/-- An entry that neither tells the state of an order nor is about a batch with success. -/
def isRoutine : UnlockEntry → Bool
  | added .. | removed .. | picked .. | orderUnlockFailed .. => true
  | lookedUp .. | handed .. | orderUnlockSent .. => false

/-- The orders whose unlock the entry reports as sent. -/
def sentIds : UnlockEntry → List OrderId
  | orderUnlockSent _ _ _ orderIds => orderIds
  | _ => []

end UnlockEntry

namespace BatchUnlocker

variable {config : UnlockerConfig} {u u' : BatchUnlocker} {i : UnlockerInput} {e : UnlockEntry}
  {batch : BatchUnlock} {stage : BatchStage} {n : ℕ} {orderId id : OrderId} {order : OrderData}
  {takeChain giveChainId c : ChainId} {unlockedOrders orderIds : List OrderId}
  {states : List (Option (Option TakeOrderState))} {answer : Except String String}

/-- The entries of the present batch attempt, or of the last one. -/
def attempt (log : List UnlockEntry) : List UnlockEntry := Journal.since UnlockEntry.IsPicked log

theorem attempt_picked {log : List UnlockEntry} :
    attempt (log ++ [.picked c orderIds]) = [] := Journal.since_concat_of_pos trivial

theorem attempt_concat {log : List UnlockEntry} (h : ¬ e.IsPicked) :
    attempt (log ++ [e]) = attempt log ++ [e] := Journal.since_concat_of_neg h

theorem mem_attempt_concat {log : List UnlockEntry} {e' : UnlockEntry} (h : ¬ e.IsPicked) :
    e' ∈ attempt (log ++ [e]) ↔ e' ∈ attempt log ∨ e' = e := by
  rw [attempt_concat h, List.mem_append, List.mem_singleton]

section Fields

@[simp] theorem pending_initial : initial.pending c = .empty := rfl

@[simp] theorem pending_emit : (u.emit e).pending c = u.pending c := rfl

@[simp] theorem emit_journal : (u.emit e).journal = u.journal ++ [e] := rfl

@[simp] theorem emit_batches : (u.emit e).batches = u.batches := rfl

@[simp] theorem emit_isBatchUnlockLocked :
    (u.emit e).isBatchUnlockLocked = u.isBatchUnlockLocked := rfl

@[simp] theorem emit_ordersDataMap : (u.emit e).ordersDataMap = u.ordersDataMap := rfl

theorem pending_remove : (u.remove takeChain orderId).pending c =
    if c = takeChain then (u.pending c).delete orderId else u.pending c := by
  unfold remove pending
  cases h : u.unlockBatchesOrderIdMap.get? takeChain with
  | none =>
    simp only [emit, h]
    split
    · rename_i hc
      rw [hc, h]
      rfl
    · rfl
  | some orderIds =>
    simp only [emit, h, InsertionMap.get?_set]
    split
    · rename_i hc
      rw [hc, h]
      rfl
    · rfl

@[simp] theorem remove_journal :
    (u.remove takeChain orderId).journal = u.journal ++ [.removed takeChain orderId] := by
  simp only [remove]; split <;> rfl

@[simp] theorem remove_batches : (u.remove takeChain orderId).batches = u.batches := by
  simp only [remove]; split <;> rfl

@[simp] theorem remove_isBatchUnlockLocked :
    (u.remove takeChain orderId).isBatchUnlockLocked = u.isBatchUnlockLocked := by
  simp only [remove]; split <;> rfl

theorem remove_ordersDataMap_of_some (h : (u.unlockBatchesOrderIdMap.get? takeChain).isSome) :
    (u.remove takeChain orderId).ordersDataMap = Function.update u.ordersDataMap orderId none := by
  obtain ⟨orderIds, h⟩ := Option.isSome_iff_exists.mp h
  simp [remove, emit, h]

/-- Without a set for the chain nothing is removed. -/
theorem remove_of_none (h : u.unlockBatchesOrderIdMap.get? takeChain = none) :
    u.remove takeChain orderId = u.emit (.removed takeChain orderId) := by
  simp [remove, emit, h]

theorem pending_pool : (u.pool orderId order).pending c =
    if c = order.give.chainId then (u.pending c).add orderId else u.pending c := by
  unfold pool
  rw [pending_emit]
  simp only [pending, InsertionMap.get?_set]
  split
  · rename_i hc
    rw [hc]
    rfl
  · rfl

@[simp] theorem pool_journal : (u.pool orderId order).journal =
    u.journal ++ [.added order.give.chainId orderId] := rfl

@[simp] theorem pool_batches : (u.pool orderId order).batches = u.batches := rfl

@[simp] theorem pool_isBatchUnlockLocked :
    (u.pool orderId order).isBatchUnlockLocked = u.isBatchUnlockLocked := rfl

@[simp] theorem pool_ordersDataMap : (u.pool orderId order).ordersDataMap =
    Function.update u.ordersDataMap orderId (some order) := rfl

theorem pending_cleanUp : (u.cleanUp config n batch unlockedOrders).pending c =
    if c = batch.giveChainId then (u.pending c).deleteAll unlockedOrders else u.pending c := by
  unfold cleanUp pending
  simp only [InsertionMap.get?_set]
  split
  · rename_i hc
    rw [hc]
    rfl
  · rfl

end Fields

/-- A batch of the give chain is started by `tryUnlock`. -/
def started (config : UnlockerConfig) (u : BatchUnlocker) (giveChainId : ChainId) : BatchUnlocker :=
  let batch := u.performBatchUnlock config giveChainId false
  { u with
    isBatchUnlockLocked := true
    batches := u.batches ++ [batch] }.emit (.picked giveChainId batch.orderIds)

/-- The call of `tryUnlock` in progress starts another batch. -/
def continued (config : UnlockerConfig) (u : BatchUnlocker) (giveChainId : ChainId) :
    BatchUnlocker :=
  let next := u.performBatchUnlock config giveChainId true
  { u with batches := u.batches.set 0 next }.emit (.picked giveChainId next.orderIds)

section Batches

/-! The calls of `tryUnlock` that are left in progress, where there is one before. -/

variable {j : ℕ} {orderState : Option TakeOrderState}

theorem mem_batches (hb : u.batches = [batch]) : batch ∈ u.batches := by
  rw [hb]
  exact List.mem_singleton_self batch

theorem batches_moved (hb : u.batches = [batch]) :
    (u.moved 0 batch stage).batches = [{ batch with stage }] := by
  simp [moved, hb]

theorem batches_lookedUp (hb : u.batches = [batch]) :
    (u.lookedUp 0 j batch states orderId orderState).batches =
      [{ batch with stage := .filtering (states.set j (some orderState)) }] := batches_moved hb

theorem batches_sendBatchUnlock (hb : u.batches = [batch]) :
    (u.sendBatchUnlock 0 batch states).batches = [{ batch with
      stage := .sending (batch.filtered states true) (batch.filtered states false) }] :=
  batches_moved hb

theorem batches_unlockOrders_ok {txHash : String} (hb : u.batches = [batch]) :
    (u.unlockOrders config 0 batch orderIds unlockedOrders (.ok txHash)).batches =
      [{ batch with stage := .unlocked (unlockedOrders ++ orderIds) }] := batches_moved hb

theorem batches_unlockOrders_error {message : String} (hb : u.batches = [batch]) :
    (u.unlockOrders config 0 batch orderIds unlockedOrders (.error message)).batches =
      [{ batch with stage := .unlocked unlockedOrders }] := batches_moved hb

theorem batches_cleanUp (hb : u.batches = [batch]) :
    (u.cleanUp config 0 batch unlockedOrders).batches = [{ batch with
      stage := .performed (unlockedOrders.length = config.batchUnlockSize batch.giveChainId) }] :=
  batches_moved hb

theorem batches_continued (hb : u.batches = [batch]) :
    (u.continued config c).batches = [u.performBatchUnlock config c true] := by
  simp [continued, hb]

theorem batches_rejected (hb : u.batches = [batch]) : (u.rejected 0).batches = [] := by
  simp [rejected, hb]

theorem batches_released (hb : u.batches = [batch]) : (u.released 0).batches = [] := by
  simp [released, hb]

end Batches

/-- What the synchronous part of `tryUnlock` does. -/
inductive Try (config : UnlockerConfig) (u : BatchUnlocker) (giveChainId : ChainId) :
    BatchUnlocker → Prop
  | refused :
      u.isBatchUnlockLocked = true ∨
        ((u.pending giveChainId).size : ℚ) < config.batchUnlockSize giveChainId →
      Try config u giveChainId u
  | started :
      u.isBatchUnlockLocked = false →
      config.batchUnlockSize giveChainId ≤ (u.pending giveChainId).size →
      Try config u giveChainId (u.started config giveChainId)

theorem try_tryUnlock : Try config u giveChainId (u.tryUnlock config giveChainId) := by
  unfold tryUnlock
  split
  · rename_i hl
    exact .refused (.inl hl)
  · rename_i hl
    split
    · rename_i hs
      exact .refused (.inr hs)
    · rename_i hs
      exact .started (by simpa using hl) (not_lt.mp hs)

/-- The effects of a section, when at most one call of `tryUnlock` is in progress. -/
inductive Change (config : UnlockerConfig) (u : BatchUnlocker) :
    UnlockerInput → BatchUnlocker → Prop
  | call (orderId : OrderId) (order : OrderData) :
      Change config u (.unlockOrder orderId order)
        { u with calls := u.calls ++ [⟨orderId, order⟩] }
  | remove (takeChain : ChainId) (orderId : OrderId) :
      Change config u (.remove takeChain orderId) (u.remove takeChain orderId)
  | tryUnlock (giveChainId : ChainId) (u' : BatchUnlocker) :
      Try config u giveChainId u' → Change config u (.tryUnlock giveChainId) u'
  | tryNothing (giveChainId : ChainId) : Change config u (.tryUnlock giveChainId) u
  | notAdded (n : ℕ) (call : UnlockOrderCall)
      (answer : Except String (Option TakeOrderState)) :
      u.calls[n]? = some call →
      Change config u (.orderState n answer) { u with calls := u.calls.eraseIdx n }
  | added (n : ℕ) (call : UnlockOrderCall) (orderState : Option TakeOrderState)
      (u' : BatchUnlocker) :
      u.calls[n]? = some call → isUnlockable config orderState = true →
      Try config (pool { u with calls := u.calls.eraseIdx n } call.orderId call.order)
        call.order.give.chainId u' →
      Change config u (.orderState n (.ok orderState)) u'
  | lookedUp (batch : BatchUnlock) (i : ℕ) (states : List (Option (Option TakeOrderState)))
      (orderId : OrderId) (orderState : Option TakeOrderState) :
      u.batches = [batch] → batch.stage = .filtering states →
      batch.orderIds[i]? = some orderId → states[i]? = some none →
      Change config u (.lookup 0 i (.ok orderState))
        (u.lookedUp 0 i batch states orderId orderState)
  | rejected (batch : BatchUnlock) (i : ℕ) (error : String) :
      u.batches = [batch] → Change config u (.lookup 0 i (.error error)) (u.rejected 0)
  | filtered (batch : BatchUnlock) (states : List (Option (Option TakeOrderState))) :
      u.batches = [batch] → batch.stage = .filtering states →
      states.all Option.isSome = true →
      Change config u (.resume 0) (u.sendBatchUnlock 0 batch states)
  | sent (batch : BatchUnlock) (orderIds unlockedOrders : List OrderId)
      (answer : Except String String) :
      u.batches = [batch] → batch.stage = .sending orderIds unlockedOrders →
      Change config u (.sender 0 answer)
        (u.unlockOrders config 0 batch orderIds unlockedOrders answer)
  | cleanedUp (batch : BatchUnlock) (unlockedOrders : List OrderId) :
      u.batches = [batch] → batch.stage = .unlocked unlockedOrders →
      Change config u (.resume 0) (u.cleanUp config 0 batch unlockedOrders)
  | next (batch : BatchUnlock) (giveChainId : ChainId) :
      u.batches = [batch] → batch.stage = .performed true →
      u.peekNextBatch config = some giveChainId →
      Change config u (.resume 0) (u.continued config giveChainId)
  | lastLook (batch : BatchUnlock) :
      u.batches = [batch] → batch.stage = .performed true → u.peekNextBatch config = none →
      Change config u (.resume 0) (u.moved 0 batch .finished)
  | stopped (batch : BatchUnlock) :
      u.batches = [batch] → batch.stage = .performed false → batch.nested = true →
      Change config u (.resume 0) (u.moved 0 batch .finished)
  | released (batch : BatchUnlock) :
      u.batches = [batch] → batch.stage = .finished ∨ batch.stage = .performed false →
      Change config u (.resume 0) (u.released 0)

theorem size_of_peek (h : u.peekNextBatch config = some c) :
    config.batchUnlockSize c ≤ (u.pending c).size := by
  obtain ⟨⟨_, orderIds⟩, hf, rfl⟩ := Option.map_eq_some_iff.mp h
  have hm := InsertionMap.mem_entries.mp (List.mem_of_find?_eq_some hf)
  have hsize := List.find?_some hf
  simpa [pending, hm] using hsize

theorem size_lt_of_peek_none (h : u.peekNextBatch config = none)
    (hsize : 1 ≤ config.batchUnlockSize c) :
    ((u.pending c).size : ℚ) < config.batchUnlockSize c := by
  cases hm : u.unlockBatchesOrderIdMap.get? c with
  | none =>
    simp only [pending, hm, Option.getD_none, InsertionSet.size_empty, Nat.cast_zero]
    linarith
  | some orderIds =>
    have hn := List.find?_eq_none.mp (Option.map_eq_none_iff.mp h) _
      (InsertionMap.mem_entries.mpr hm)
    simpa [pending, hm] using hn

theorem eq_of_batches_get (h1 : u.batches.length ≤ 1) (h : u.batches[n]? = some batch) :
    n = 0 ∧ u.batches = [batch] := by
  obtain ⟨hn, rfl⟩ := List.getElem?_eq_some_iff.mp h
  have h0 : n = 0 := by omega
  have hlen : u.batches.length = 1 := by omega
  subst h0
  obtain ⟨b, hb⟩ := List.length_eq_one_iff.mp hlen
  simp [hb]

theorem change_of_step (h1 : u.batches.length ≤ 1) (h : unlockerStep config u i = some u') :
    u.exited = false ∧ Change config u i u' := by
  unfold unlockerStep at h
  split at h
  · cases h
  rename_i hexited
  refine ⟨by simpa using hexited, ?_⟩
  cases i with
  | unlockOrder orderId order => obtain rfl := Option.some.inj h; exact .call orderId order
  | remove takeChain orderId => obtain rfl := Option.some.inj h; exact .remove takeChain orderId
  | tryUnlock giveChainId =>
    simp only at h
    split at h
    · obtain rfl := Option.some.inj h
      exact .tryUnlock giveChainId _ try_tryUnlock
    · obtain rfl := Option.some.inj h
      exact .tryNothing giveChainId
  | orderState n answer =>
    simp only at h
    split at h
    · cases h
    · rename_i call orderState hn
      split at h
      · rename_i hu
        obtain rfl := Option.some.inj h
        exact .added n call orderState _ hn hu try_tryUnlock
      · obtain rfl := Option.some.inj h
        exact .notAdded n call _ hn
    · rename_i call _ hn
      obtain rfl := Option.some.inj h
      exact .notAdded n call _ hn
  | lookup n i answer =>
    simp only at h
    split at h
    · cases h
    rename_i batch hn
    obtain ⟨rfl, hb⟩ := eq_of_batches_get h1 hn
    split at h
    · rename_i states hstage
      split at h
      · rename_i orderId orderState hid hstate
        obtain rfl := Option.some.inj h
        exact .lookedUp batch i states orderId orderState hb hstage hid hstate
      · rename_i error _ _
        obtain rfl := Option.some.inj h
        exact .rejected batch i error hb
      · cases h
    · cases h
  | sender n answer =>
    simp only at h
    split at h
    · cases h
    rename_i batch hn
    obtain ⟨rfl, hb⟩ := eq_of_batches_get h1 hn
    split at h
    · rename_i orderIds unlockedOrders hstage
      obtain rfl := Option.some.inj h
      exact .sent batch orderIds unlockedOrders answer hb hstage
    · cases h
  | resume n =>
    obtain ⟨batch, hn, h⟩ := Option.bind_eq_some_iff.mp h
    obtain ⟨rfl, hb⟩ := eq_of_batches_get h1 hn
    unfold resume at h
    split at h
    · rename_i states hstage
      split at h
      · rename_i hall
        obtain rfl := Option.some.inj h
        exact .filtered batch states hb hstage hall
      · cases h
    · cases h
    · rename_i unlockedOrders hstage
      obtain rfl := Option.some.inj h
      exact .cleanedUp batch unlockedOrders hb hstage
    · rename_i hstage
      obtain rfl := Option.some.inj h
      unfold unlockAny
      split
      · rename_i giveChainId hp
        exact .next batch giveChainId hb hstage hp
      · rename_i hp
        exact .lastLook batch hb hstage hp
    · rename_i hstage
      split at h
      · rename_i hnested
        obtain rfl := Option.some.inj h
        exact .stopped batch hb hstage hnested
      · obtain rfl := Option.some.inj h
        exact .released batch hb (.inr hstage)
    · rename_i hstage
      obtain rfl := Option.some.inj h
      exact .released batch hb (.inl hstage)

/-! What is known of the orders of a batch attempt. -/

section Known

variable {log : List UnlockEntry} {j : ℕ} {orderState : Option TakeOrderState}

/-- A lookup of the present attempt showed the order fulfilled. -/
def FoundFulfilled (log : List UnlockEntry) (orderId : OrderId) : Prop :=
  ∃ orderState, .lookedUp orderId orderState ∈ attempt log ∧ isFulfilled orderState = true

/-- A lookup of the present attempt did not show the order fulfilled. -/
def FoundOther (log : List UnlockEntry) (orderId : OrderId) : Prop :=
  ∃ orderState, .lookedUp orderId orderState ∈ attempt log ∧ isFulfilled orderState = false

/-- The batch of the present attempt was sent, with the order in it. -/
def SentNow (log : List UnlockEntry) (orderId : OrderId) : Prop :=
  ∃ e ∈ attempt log, orderId ∈ e.sentIds

theorem FoundFulfilled.concat (h : FoundFulfilled log id) (he : ¬ e.IsPicked) :
    FoundFulfilled (log ++ [e]) id := by
  obtain ⟨orderState, hm, hf⟩ := h
  exact ⟨orderState, (mem_attempt_concat he).mpr (.inl hm), hf⟩

theorem FoundOther.concat (h : FoundOther log id) (he : ¬ e.IsPicked) :
    FoundOther (log ++ [e]) id := by
  obtain ⟨orderState, hm, hf⟩ := h
  exact ⟨orderState, (mem_attempt_concat he).mpr (.inl hm), hf⟩

theorem SentNow.concat (h : SentNow log id) (he : ¬ e.IsPicked) : SentNow (log ++ [e]) id := by
  obtain ⟨sent, hm, hid⟩ := h
  exact ⟨sent, (mem_attempt_concat he).mpr (.inl hm), hid⟩

/-- What a call of `tryUnlock` knows of the orders of its batch, by its stage. -/
def Known (log : List UnlockEntry) (batch : BatchUnlock) : Prop :=
  match batch.stage with
  | .filtering states => states.length = batch.orderIds.length ∧
      ∀ (i : ℕ) (orderId : OrderId) (orderState : Option TakeOrderState),
        batch.orderIds[i]? = some orderId → states[i]? = some (some orderState) →
          .lookedUp orderId orderState ∈ attempt log
  | .sending orderIds unlockedOrders =>
      (orderIds ++ unlockedOrders).Perm batch.orderIds ∧
        (∀ id ∈ orderIds, FoundFulfilled log id) ∧ ∀ id ∈ unlockedOrders, FoundOther log id
  | .unlocked unlockedOrders =>
      ∀ id ∈ unlockedOrders, id ∈ batch.orderIds ∧ (FoundOther log id ∨ SentNow log id)
  | .performed _ | .finished => True

theorem Known.concat (h : Known log batch) (he : ¬ e.IsPicked) : Known (log ++ [e]) batch := by
  unfold Known at h ⊢
  cases hstage : batch.stage with
  | filtering states =>
    simp only [hstage] at h ⊢
    refine ⟨h.1, fun i orderId orderState hi hs => ?_⟩
    exact (mem_attempt_concat he).mpr (.inl (h.2 i orderId orderState hi hs))
  | sending orderIds unlockedOrders =>
    simp only [hstage] at h ⊢
    exact ⟨h.1, fun id hid => (h.2.1 id hid).concat he, fun id hid => (h.2.2 id hid).concat he⟩
  | unlocked unlockedOrders =>
    simp only [hstage] at h ⊢
    exact fun id hid => (h id hid).imp_right (Or.imp (·.concat he) (·.concat he))
  | performed batchSucceeded => trivial
  | finished => trivial

theorem Known.mem_filtered (hk : Known log batch) (hstage : batch.stage = .filtering states)
    (hall : states.all Option.isSome = true) {fulfilled : Bool}
    (hid : id ∈ batch.filtered states fulfilled) :
    ∃ orderState, .lookedUp id orderState ∈ attempt log ∧
      isFulfilled orderState = fulfilled := by
  simp only [Known, hstage] at hk
  obtain ⟨x, hx, rfl⟩ := List.mem_map.mp hid
  obtain ⟨hx, hf⟩ := List.mem_filter.mp hx
  obtain ⟨i, hi⟩ := List.mem_iff_getElem?.mp hx
  obtain ⟨hid, hstate⟩ := List.getElem?_zip_eq_some.mp hi
  obtain ⟨orderState, ho⟩ := Option.isSome_iff_exists.mp
    (List.all_eq_true.mp hall x.2 (List.mem_of_getElem? hstate))
  refine ⟨orderState, hk.2 i x.1 orderState hid (hstate.trans (by rw [ho])), ?_⟩
  simpa [ho] using hf

/-- The filter splits the picked orders. -/
theorem perm_filtered (hlen : states.length = batch.orderIds.length) :
    (batch.filtered states true ++ batch.filtered states false).Perm batch.orderIds := by
  have hmap : (batch.orderIds.zip states).map Prod.fst = batch.orderIds :=
    List.map_fst_zip hlen.ge
  have hp := (List.filter_append_perm (fun x => isFulfilled x.2.join)
    (batch.orderIds.zip states)).map Prod.fst
  rw [hmap, List.map_append] at hp
  simpa [BatchUnlock.filtered] using hp

/-- The answer to one lookup is noted. -/
theorem Known.lookedUp (hk : Known log batch) (hstage : batch.stage = .filtering states)
    (hid : batch.orderIds[j]? = some orderId) : Known (log ++ [.lookedUp orderId orderState])
      { batch with stage := .filtering (states.set j (some orderState)) } := by
  simp only [Known, hstage] at hk
  simp only [Known, List.length_set, hk.1, true_and]
  have he : ¬ (UnlockEntry.lookedUp orderId orderState).IsPicked := id
  intro k id state hk' hs'
  rw [mem_attempt_concat he]
  rw [List.getElem?_set] at hs'
  split at hs'
  · rename_i hjk
    subst hjk
    obtain rfl : orderId = id := Option.some.inj (hid.symm.trans hk')
    split at hs'
    · obtain rfl : orderState = state := by simpa using hs'
      exact .inr rfl
    · cases hs'
  · exact .inl (hk.2 k id state hk' hs')

/-- All lookups are answered, and the filter has split the orders. -/
theorem Known.filtered (hk : Known log batch) (hstage : batch.stage = .filtering states)
    (hall : states.all Option.isSome = true) (he : ¬ e.IsPicked) : Known (log ++ [e]) { batch with
      stage := .sending (batch.filtered states true) (batch.filtered states false) } := by
  have hlen : states.length = batch.orderIds.length := by
    simp only [Known, hstage] at hk
    exact hk.1
  refine ⟨perm_filtered hlen, fun orderId hid => ?_, fun orderId hid => ?_⟩
  · exact FoundFulfilled.concat (hk.mem_filtered hstage hall hid) he
  · exact FoundOther.concat (hk.mem_filtered hstage hall hid) he

/-- The transaction was sent, so the fulfilled orders are done as well. -/
theorem Known.sent (hk : Known log batch) (hstage : batch.stage = .sending orderIds unlockedOrders)
    (he : ¬ e.IsPicked) (hids : e.sentIds = orderIds) :
    Known (log ++ [e]) { batch with stage := .unlocked (unlockedOrders ++ orderIds) } := by
  simp only [Known, hstage] at hk
  intro id hid
  have hmem : id ∈ batch.orderIds :=
    hk.1.subset (List.mem_append.mpr (List.mem_append.mp hid).symm)
  rcases List.mem_append.mp hid with hid | hid
  · exact ⟨hmem, .inl ((hk.2.2 id hid).concat he)⟩
  · rw [← hids] at hid
    exact ⟨hmem, .inr ⟨e, (mem_attempt_concat he).mpr (.inr rfl), hid⟩⟩

/-- The transaction failed, so only the other orders are done. -/
theorem Known.notSent (hk : Known log batch)
    (hstage : batch.stage = .sending orderIds unlockedOrders) (he : ¬ e.IsPicked) :
    Known (log ++ [e]) { batch with stage := .unlocked unlockedOrders } := by
  simp only [Known, hstage] at hk
  intro id hid
  exact ⟨hk.1.subset (List.mem_append_right _ hid), .inl ((hk.2.2 id hid).concat he)⟩

end Known

/-- Holds in every reachable state. -/
structure Sound (config : UnlockerConfig) (u : BatchUnlocker) : Prop where
  single : u.batches.length ≤ 1
  locked : u.batches ≠ [] → u.isBatchUnlockLocked = true
  nodup : ∀ batch ∈ u.batches, batch.orderIds.Nodup
  size : ∀ batch ∈ u.batches,
    batch.orderIds.length = ⌊config.batchUnlockSize batch.giveChainId⌋₊
  known : ∀ batch ∈ u.batches, Known u.journal batch

namespace Sound

theorem nil_of_free (hs : Sound config u) (h : u.isBatchUnlockLocked = false) :
    u.batches = [] := by
  by_contra hne
  rw [hs.locked hne] at h
  cases h

/-- No batch is left. -/
theorem of_nil (hb : u.batches = []) : Sound config u where
  single := by simp [hb]
  locked h := absurd hb h
  nodup := by simp [hb]
  size := by simp [hb]
  known := by simp [hb]

theorem initial : Sound config .initial := of_nil rfl

theorem isLocked (hs : Sound config u) (hb : u.batches = [batch]) :
    u.isBatchUnlockLocked = true :=
  hs.locked (by simp [hb])

theorem batches_started (hs : Sound config u) (hf : u.isBatchUnlockLocked = false) :
    (u.started config c).batches = [u.performBatchUnlock config c false] := by
  change u.batches ++ [_] = _
  rw [hs.nil_of_free hf]
  rfl

/-- What does not touch the batch keeps what is known of it. -/
theorem congr (hs : Sound config u) (hb : u'.batches = u.batches)
    (hl : u'.isBatchUnlockLocked = u.isBatchUnlockLocked)
    (hj : u'.journal = u.journal ∨ ∃ e, u'.journal = u.journal ++ [e] ∧ ¬ e.IsPicked) :
    Sound config u' where
  single := by rw [hb]; exact hs.single
  locked := by rw [hb, hl]; exact hs.locked
  nodup := by rw [hb]; exact hs.nodup
  size := by rw [hb]; exact hs.size
  known := by
    rw [hb]
    intro batch hm
    rcases hj with hj | ⟨e, hj, he⟩ <;> rw [hj]
    · exact hs.known batch hm
    · exact (hs.known batch hm).concat he

theorem pool (hs : Sound config u) : Sound config (u.pool orderId order) :=
  hs.congr rfl rfl (.inr ⟨.added order.give.chainId orderId, rfl, fun h => h⟩)

theorem settled (hs : Sound config u) :
    Sound config { u with calls := u.calls.eraseIdx n } := hs.congr rfl rfl (.inl rfl)

/-- A call of `unlockOrder` settles and its order is put into the pool. -/
theorem added (hs : Sound config u) :
    Sound config (BatchUnlocker.pool { u with calls := u.calls.eraseIdx n } orderId order) :=
  hs.settled.pool

/-- The batch in progress goes on to another stage. -/
theorem moved (hs : Sound config u) (stage : BatchStage) (hb : u.batches = [batch])
    (hb' : u'.batches = [{ batch with stage }])
    (hl : u'.isBatchUnlockLocked = u.isBatchUnlockLocked)
    (hk : Known u'.journal { batch with stage }) : Sound config u' where
  single := by simp [hb']
  locked _ := hl.trans (hs.isLocked hb)
  nodup := by
    rw [hb']
    rintro _ hm
    obtain rfl := List.mem_singleton.mp hm
    exact hs.nodup batch (mem_batches hb)
  size := by
    rw [hb']
    rintro _ hm
    obtain rfl := List.mem_singleton.mp hm
    exact hs.size batch (mem_batches hb)
  known := by
    rw [hb']
    rintro _ hm
    obtain rfl := List.mem_singleton.mp hm
    exact hk

/-- A batch is started for a give chain whose set is large enough. -/
theorem begun (nested : Bool) (hb : u'.batches = [u.performBatchUnlock config c nested])
    (hl : u'.isBatchUnlockLocked = true)
    (hsize : config.batchUnlockSize c ≤ (u.pending c).size) : Sound config u' where
  single := by simp [hb]
  locked _ := hl
  nodup := by
    rw [hb]
    rintro _ hm
    obtain rfl := List.mem_singleton.mp hm
    exact (u.pending c).nodup.sublist (List.take_sublist _ _)
  size := by
    rw [hb]
    rintro _ hm
    obtain rfl := List.mem_singleton.mp hm
    have hle : ⌊config.batchUnlockSize c⌋₊ ≤ (u.pending c).toList.length :=
      Nat.floor_le_of_le hsize
    simp [performBatchUnlock, List.length_take, hle]
  known := by
    rw [hb]
    rintro _ hm
    obtain rfl := List.mem_singleton.mp hm
    simp only [Known, performBatchUnlock, List.length_map, true_and]
    intro i orderId orderState _ hstate
    have hm := List.mem_of_getElem? hstate
    simp at hm

theorem try_ (hs : Sound config u) (h : Try config u c u') : Sound config u' := by
  cases h with
  | refused => exact hs
  | started hf hsize =>
    exact begun (u := u) (c := c) false (hs.batches_started hf) rfl hsize

theorem change (hs : Sound config u) (h : Change config u i u') : Sound config u' := by
  cases h with
  | call orderId order => exact hs.congr rfl rfl (.inl rfl)
  | remove takeChain orderId =>
    exact hs.congr remove_batches remove_isBatchUnlockLocked
      (.inr ⟨.removed takeChain orderId, remove_journal, id⟩)
  | tryUnlock giveChainId _ ht => exact hs.try_ ht
  | tryNothing giveChainId => exact hs
  | notAdded n call answer hn => exact hs.settled
  | added n call orderState _ hn hu ht => exact hs.added.try_ ht
  | lookedUp batch j states orderId orderState hb hstage hid hstate =>
    exact hs.moved (.filtering (states.set j (some orderState))) hb (batches_lookedUp hb) rfl
      ((hs.known batch (mem_batches hb)).lookedUp hstage hid)
  | rejected batch j error hb => exact of_nil (batches_rejected hb)
  | filtered batch states hb hstage hall =>
    exact hs.moved (.sending (batch.filtered states true) (batch.filtered states false)) hb
      (batches_sendBatchUnlock hb) rfl
      ((hs.known batch (mem_batches hb)).filtered hstage hall fun h => h)
  | sent batch orderIds unlockedOrders answer hb hstage =>
    have hk := hs.known batch (mem_batches hb)
    cases answer with
    | ok txHash =>
      exact hs.moved (.unlocked (unlockedOrders ++ orderIds)) hb (batches_unlockOrders_ok hb) rfl
        (hk.sent hstage (fun h => h) rfl)
    | error message =>
      exact hs.moved (.unlocked unlockedOrders) hb (batches_unlockOrders_error hb) rfl
        (hk.notSent hstage fun h => h)
  | cleanedUp batch unlockedOrders hb hstage =>
    exact hs.moved
      (.performed (unlockedOrders.length = config.batchUnlockSize batch.giveChainId)) hb
      (batches_cleanUp hb) rfl trivial
  | next batch giveChainId hb hstage hp =>
    exact begun (u := u) (c := giveChainId) true (batches_continued hb) (hs.isLocked hb)
      (size_of_peek hp)
  | lastLook batch hb hstage hp =>
    exact hs.moved .finished hb (batches_moved hb) rfl trivial
  | stopped batch hb hstage hnested =>
    exact hs.moved .finished hb (batches_moved hb) rfl trivial
  | released batch hb hstage => exact of_nil (batches_released hb)

end Sound

/-- What a section writes to the journal. -/
inductive Wrote (config : UnlockerConfig) (u : BatchUnlocker) :
    UnlockerInput → List UnlockEntry → Prop
  | routine (i : UnlockerInput) (es : List UnlockEntry) :
      (∀ e ∈ es, e.isRoutine = true) → Wrote config u i es
  | lookedUp (batch : BatchUnlock) (j : ℕ) (states : List (Option (Option TakeOrderState)))
      (orderId : OrderId) (orderState : Option TakeOrderState) :
      u.batches = [batch] → batch.stage = .filtering states →
      batch.orderIds[j]? = some orderId →
      Wrote config u (.lookup 0 j (.ok orderState)) [.lookedUp orderId orderState]
  | handed (batch : BatchUnlock) (states : List (Option (Option TakeOrderState))) :
      u.batches = [batch] → batch.stage = .filtering states →
      states.all Option.isSome = true →
      Wrote config u (.resume 0)
        [.handed batch.giveChainId (u.withData (batch.filtered states true))]
  | sent (batch : BatchUnlock) (orderIds unlockedOrders : List OrderId) (txHash : String) :
      u.batches = [batch] → batch.stage = .sending orderIds unlockedOrders →
      Wrote config u (.sender 0 (.ok txHash))
        [.orderUnlockSent config.takeChain batch.giveChainId txHash orderIds]

theorem journal_of_try (h : Try config u c u') :
    ∃ es, u'.journal = u.journal ++ es ∧ ∀ e ∈ es, e.isRoutine = true := by
  cases h with
  | refused => exact ⟨[], by simp, by simp⟩
  | started => exact ⟨_, rfl, by simp [UnlockEntry.isRoutine]⟩

theorem wrote_of_change (h : Change config u i u') :
    ∃ es, u'.journal = u.journal ++ es ∧ Wrote config u i es := by
  have hnone : ∀ i, Wrote config u i [] := fun i => .routine i [] (by simp)
  have hone : ∀ i e, e.isRoutine = true → Wrote config u i [e] := fun i e he =>
    .routine i [e] (by simpa using he)
  cases h with
  | call orderId order => exact ⟨[], by simp, hnone _⟩
  | remove takeChain orderId => exact ⟨_, remove_journal, hone _ _ rfl⟩
  | tryUnlock giveChainId _ ht =>
    obtain ⟨es, hj, hes⟩ := journal_of_try ht
    exact ⟨es, hj, .routine _ es hes⟩
  | tryNothing giveChainId => exact ⟨[], by simp, hnone _⟩
  | notAdded n call answer hn => exact ⟨[], by simp, hnone _⟩
  | added n call orderState _ hn hu ht =>
    obtain ⟨es, hj, hes⟩ := journal_of_try ht
    refine ⟨.added call.order.give.chainId call.orderId :: es, ?_, .routine _ _ ?_⟩
    · rw [hj, pool_journal, List.append_assoc, List.singleton_append]
    · rintro e he
      rcases List.mem_cons.mp he with rfl | he
      · rfl
      · exact hes e he
  | lookedUp batch j states orderId orderState hb hstage hid hstate =>
    exact ⟨_, rfl, .lookedUp batch j states orderId orderState hb hstage hid⟩
  | rejected batch j error hb => exact ⟨[], by simp [rejected], hnone _⟩
  | filtered batch states hb hstage hall => exact ⟨_, rfl, .handed batch states hb hstage hall⟩
  | sent batch orderIds unlockedOrders answer hb hstage =>
    cases answer with
    | ok txHash => exact ⟨_, rfl, .sent batch orderIds unlockedOrders txHash hb hstage⟩
    | error message => exact ⟨_, rfl, hone _ _ rfl⟩
  | cleanedUp batch unlockedOrders hb hstage =>
    exact ⟨[], by simp [cleanUp, moved], hnone _⟩
  | next batch giveChainId hb hstage hp => exact ⟨_, rfl, hone _ _ rfl⟩
  | lastLook batch hb hstage hp => exact ⟨[], by simp [moved], hnone _⟩
  | stopped batch hb hstage hnested => exact ⟨[], by simp [moved], hnone _⟩
  | released batch hb hstage => exact ⟨[], by simp [released], hnone _⟩

section Run

variable {t : List UnlockerInput}

/-- A fact about every run whose steps all meet a condition follows from its initial case and the
effects of a section. -/
theorem guarded_induct {C : BatchUnlocker → UnlockerInput → Prop} [∀ u i, Decidable (C u i)]
    {J : BatchUnlocker → Prop} (init : J .initial)
    (step : ∀ u i u', Sound config u → u.exited = false → J u → C u i → Change config u i u' →
      J u')
    (h : ((unlocker config).guard C).Run t u) : Sound config u ∧ J u := by
  refine h.guarded_invariant (P := fun u => Sound config u ∧ J u) ⟨.initial, init⟩ ?_
  rintro u i u' ⟨hs, hj⟩ hcond hstep
  obtain ⟨he, hc⟩ := change_of_step hs.single hstep
  exact ⟨hs.change hc, step u i u' hs he hj hcond hc⟩

end Run

end BatchUnlocker

end DlnTaker
