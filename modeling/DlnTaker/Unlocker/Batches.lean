import DlnTaker.Unlocker.Step

/-! # The batches that are handed over

A batch is picked from the pool, filtered by lookups and handed to the sender,
while orders come and go. The first part says when every batch is well formed,
the second that no order is unlocked twice.
-/

namespace DlnTaker

namespace BatchStage

/-- The picked orders are still in the pool. -/
def inFlight : BatchStage → Bool
  | filtering _ | sending _ _ | unlocked _ => true
  | performed _ | finished => false

/-- The filter will not be left without orders. -/
def someFulfilled : BatchStage → Bool
  | filtering states => states.any fun state => isFulfilled state.join
  | _ => true

end BatchStage

namespace BatchUnlocker

variable {config : UnlockerConfig} {u u' : BatchUnlocker} {i : UnlockerInput}
  {t : List UnlockerInput} {batch : BatchUnlock} {id orderId : OrderId} {c : ChainId}
  {e : UnlockEntry} {states : List (Option (Option TakeOrderState))}

/-- What a list of orders handed to `getBatchOrderUnlockTxSender` must be like. -/
def WellFormed (config : UnlockerConfig) (log : List UnlockEntry) : UnlockEntry → Prop
  | .handed giveChainId orders =>
      orders ≠ [] ∧ (orders.map (·.orderId)).Nodup ∧
        (orders.length : ℚ) ≤ config.batchUnlockSize giveChainId ∧
        (∀ order ∈ orders, ∃ data, order.data = some data ∧ data.give.chainId = giveChainId) ∧
        ∀ order ∈ orders, FoundFulfilled log order.orderId
  | _ => True

/-- The order is in the batch in flight. -/
def InFlight (u : BatchUnlocker) (id : OrderId) : Prop :=
  ∃ batch ∈ u.batches, batch.stage.inFlight = true ∧ id ∈ batch.orderIds

instance : Decidable (u.InFlight id) := by unfold InFlight; infer_instance

/-- No set but that of the given chain has the order. -/
def OnlyIn (u : BatchUnlocker) (giveChainId : ChainId) (id : OrderId) : Prop :=
  ∀ c ∈ u.unlockBatchesOrderIdMap.keys.toList, c ≠ giveChainId → id ∉ u.pending c

instance : Decidable (u.OnlyIn c id) := by unfold OnlyIn; infer_instance

/-- A batch has an order left after the filter, an order is pending on one give chain at most, and
`remove` hits no order of another chain or of the batch in flight. -/
def Coherent (config : UnlockerConfig) (u : BatchUnlocker) : UnlockerInput → Prop
  | .remove takeChain orderId =>
      (u.unlockBatchesOrderIdMap.get? takeChain).isSome = true →
        u.OnlyIn takeChain orderId ∧ ¬ u.InFlight orderId
  | .orderState n (.ok orderState) =>
      isUnlockable config orderState = true →
        ∀ call ∈ u.calls[n]?, u.OnlyIn call.order.give.chainId call.orderId
  | .resume n => ∀ batch ∈ u.batches[n]?, batch.stage.someFulfilled = true
  | _ => True

instance (u : BatchUnlocker) (i : UnlockerInput) : Decidable (Coherent config u i) := by
  unfold Coherent
  repeat' split
  all_goals infer_instance

theorem not_mem_of_onlyIn (h : u.OnlyIn c id) {c' : ChainId} (hc : c' ≠ c) :
    id ∉ u.pending c' := by
  by_cases hk : c' ∈ u.unlockBatchesOrderIdMap.keys
  · exact h c' hk hc
  · have hn : u.unlockBatchesOrderIdMap.get? c' = none := by
      simpa [u.unlockBatchesOrderIdMap.mem_keys] using hk
    simp [pending, hn]

/-- The data of a pending order is there and names the chain that it is pending on; the orders of
the batch in flight are pending. -/
structure Housed (u : BatchUnlocker) : Prop where
  data : ∀ c id, id ∈ u.pending c →
    ∃ order, u.ordersDataMap id = some order ∧ order.give.chainId = c
  inFlight : ∀ batch ∈ u.batches, batch.stage.inFlight = true →
    ∀ id ∈ batch.orderIds, id ∈ u.pending batch.giveChainId

namespace Housed

theorem initial : Housed .initial where
  data c id h := absurd h (InsertionSet.not_mem_empty id)
  inFlight := by simp [BatchUnlocker.initial]

/-- An order is pending on one chain only. -/
theorem eq_chain (hh : Housed u) {c' : ChainId} (h : id ∈ u.pending c) (h' : id ∈ u.pending c') :
    c = c' := by
  obtain ⟨order, ho, rfl⟩ := hh.data c id h
  obtain ⟨order', ho', rfl⟩ := hh.data c' id h'
  rw [Option.some.inj (ho.symm.trans ho')]

/-- The pool stays as it is, and so do the orders in flight. -/
theorem congr (hh : Housed u) (hp : ∀ c, u'.pending c = u.pending c)
    (hd : u'.ordersDataMap = u.ordersDataMap)
    (hb : ∀ b' ∈ u'.batches, b'.stage.inFlight = true → ∀ id ∈ b'.orderIds,
      id ∈ u.pending b'.giveChainId) : Housed u' where
  data c id h := by
    rw [hp] at h
    rw [hd]
    exact hh.data c id h
  inFlight b hm hs id hid := by
    rw [hp]
    exact hb b hm hs id hid

/-- The batch in flight goes on to another stage. -/
theorem moved (hh : Housed u) (hb : u.batches = [batch]) (hstage : batch.stage.inFlight = true)
    (stage : BatchStage) (hb' : u'.batches = [{ batch with stage }])
    (hp : ∀ c, u'.pending c = u.pending c) (hd : u'.ordersDataMap = u.ordersDataMap) :
    Housed u' := by
  refine hh.congr hp hd ?_
  rw [hb']
  rintro _ hm -
  obtain rfl := List.mem_singleton.mp hm
  exact hh.inFlight batch (mem_batches hb) hstage

/-- The picked orders of a new batch are pending. -/
theorem begun (hh : Housed u) (config : UnlockerConfig) (nested : Bool)
    (hb : u'.batches = [u.performBatchUnlock config c nested])
    (hp : ∀ c, u'.pending c = u.pending c) (hd : u'.ordersDataMap = u.ordersDataMap) :
    Housed u' := by
  refine hh.congr hp hd ?_
  rw [hb]
  rintro _ hm - id hid
  obtain rfl := List.mem_singleton.mp hm
  exact List.mem_of_mem_take hid

theorem try_ (hs : Sound config u) (hh : Housed u) (h : Try config u c u') : Housed u' := by
  cases h with
  | refused => exact hh
  | started hf hsize =>
    exact hh.begun config false (hs.batches_started hf) (fun _ => rfl) rfl

theorem pool (hh : Housed u) {order : OrderData} (hc : u.OnlyIn order.give.chainId orderId) :
    Housed (u.pool orderId order) where
  data c id h := by
    rw [pending_pool] at h
    rw [pool_ordersDataMap]
    by_cases hid : id = orderId
    · subst hid
      refine ⟨order, by simp, ?_⟩
      split at h
      · rename_i hcc
        exact hcc.symm
      · rename_i hcc
        exact absurd h (not_mem_of_onlyIn hc hcc)
    · rw [Function.update_of_ne hid]
      apply hh.data
      split at h
      · exact (InsertionSet.mem_add.mp h).resolve_left hid
      · exact h
  inFlight b hm hstage id hid := by
    have hin := hh.inFlight b hm hstage id hid
    rw [pending_pool]
    split
    · exact InsertionSet.mem_add.mpr (.inr hin)
    · exact hin

theorem remove (hh : Housed u) {takeChain : ChainId}
    (hc : Coherent config u (.remove takeChain orderId)) : Housed (u.remove takeChain orderId) := by
  cases hk : u.unlockBatchesOrderIdMap.get? takeChain with
  | none =>
    rw [remove_of_none hk]
    exact hh.congr (fun _ => rfl) rfl hh.inFlight
  | some orderIds =>
    obtain ⟨honly, hfl⟩ := hc (by rw [hk]; rfl)
    constructor
    · intro c id h
      rw [remove_ordersDataMap_of_some (by rw [hk]; rfl)]
      rw [pending_remove] at h
      have hne : id ≠ orderId := by
        rintro rfl
        split at h
        · exact (InsertionSet.mem_delete.mp h).1 rfl
        · rename_i hcc
          exact not_mem_of_onlyIn honly hcc h
      rw [Function.update_of_ne hne]
      apply hh.data
      split at h
      · exact (InsertionSet.mem_delete.mp h).2
      · exact h
    · intro b hm hstage id hid
      rw [remove_batches] at hm
      have hin := hh.inFlight b hm hstage id hid
      rw [pending_remove]
      split
      · refine InsertionSet.mem_delete.mpr ⟨?_, hin⟩
        rintro rfl
        exact hfl ⟨b, hm, hstage, hid⟩
      · exact hin

theorem cleanUp (hs : Sound config u) (hh : Housed u) (hb : u.batches = [batch])
    {unlockedOrders : List OrderId} (hstage : batch.stage = .unlocked unlockedOrders) :
    Housed (u.cleanUp config 0 batch unlockedOrders) where
  data c id h := by
    have hk := hs.known batch (mem_batches hb)
    simp only [Known, hstage] at hk
    have hin := hh.inFlight batch (mem_batches hb) (by rw [hstage]; rfl)
    rw [pending_cleanUp] at h
    have hnot : id ∉ unlockedOrders := by
      intro hid
      split at h
      · exact (InsertionSet.mem_deleteAll.mp h).1 hid
      · rename_i hcc
        exact hcc (hh.eq_chain h (hin id (hk id hid).1))
    have hd : (u.cleanUp config 0 batch unlockedOrders).ordersDataMap id = u.ordersDataMap id := by
      simp [BatchUnlocker.cleanUp, hnot]
    rw [hd]
    apply hh.data
    split at h
    · exact (InsertionSet.mem_deleteAll.mp h).2
    · exact h
  inFlight b hm hfl := by
    rw [batches_cleanUp hb] at hm
    obtain rfl := List.mem_singleton.mp hm
    cases hfl

theorem change (hs : Sound config u) (hh : Housed u) (hc : Coherent config u i)
    (h : Change config u i u') : Housed u' := by
  cases h with
  | call orderId order => exact hh.congr (fun _ => rfl) rfl hh.inFlight
  | remove takeChain orderId => exact hh.remove hc
  | tryUnlock giveChainId _ ht => exact try_ hs hh ht
  | tryNothing giveChainId => exact hh
  | notAdded n call answer hn => exact hh.congr (fun _ => rfl) rfl hh.inFlight
  | added n call orderState _ hn hu ht =>
    have hv : Housed { u with calls := u.calls.eraseIdx n } :=
      hh.congr (fun _ => rfl) rfl hh.inFlight
    exact try_ hs.added (hv.pool (hc hu call hn)) ht
  | lookedUp batch j states orderId orderState hb hstage hid hstate =>
    exact hh.moved hb (by rw [hstage]; rfl) (.filtering (states.set j (some orderState)))
      (batches_lookedUp hb) (fun _ => rfl) rfl
  | rejected batch j error hb =>
    refine hh.congr (fun _ => rfl) rfl ?_
    rw [batches_rejected hb]
    exact fun batch hm => absurd hm List.not_mem_nil
  | filtered batch states hb hstage hall =>
    exact hh.moved hb (by rw [hstage]; rfl)
      (.sending (batch.filtered states true) (batch.filtered states false))
      (batches_sendBatchUnlock hb) (fun _ => rfl) rfl
  | sent batch orderIds unlockedOrders answer hb hstage =>
    cases answer with
    | ok txHash =>
      exact hh.moved hb (by rw [hstage]; rfl) (.unlocked (unlockedOrders ++ orderIds))
        (batches_unlockOrders_ok hb) (fun _ => rfl) rfl
    | error message =>
      exact hh.moved hb (by rw [hstage]; rfl) (.unlocked unlockedOrders)
        (batches_unlockOrders_error hb) (fun _ => rfl) rfl
  | cleanedUp batch unlockedOrders hb hstage => exact cleanUp hs hh hb hstage
  | next batch giveChainId hb hstage hp =>
    exact hh.begun config true (batches_continued hb) (fun _ => rfl) rfl
  | lastLook batch hb hstage hp =>
    refine hh.congr (fun _ => rfl) rfl ?_
    rw [batches_moved hb]
    simp [BatchStage.inFlight]
  | stopped batch hb hstage hnested =>
    refine hh.congr (fun _ => rfl) rfl ?_
    rw [batches_moved hb]
    simp [BatchStage.inFlight]
  | released batch hb hstage =>
    refine hh.congr (fun _ => rfl) rfl ?_
    rw [batches_released hb]
    exact fun batch hm => absurd hm List.not_mem_nil

end Housed

section WellFormed

/-- What the filter leaves is a well-formed batch. -/
theorem wellFormed_handed (hs : Sound config u) (hh : Housed u) (hb : u.batches = [batch])
    (hstage : batch.stage = .filtering states) (hall : states.all Option.isSome = true)
    (hsome : batch.stage.someFulfilled = true) :
    WellFormed config u.journal
      (.handed batch.giveChainId (u.withData (batch.filtered states true))) := by
  have hk := hs.known batch (mem_batches hb)
  have hlen : states.length = batch.orderIds.length := by
    simp only [Known, hstage] at hk
    exact hk.1
  have hperm := perm_filtered hlen
  have hsub : (batch.filtered states true).Subperm batch.orderIds :=
    (List.sublist_append_left _ _).subperm.trans hperm.subperm
  have hids : (u.withData (batch.filtered states true)).map (·.orderId) =
      batch.filtered states true := by simp [withData, Function.comp_def]
  refine ⟨?_, ?_, ?_, ?_, ?_⟩
  · rw [hstage] at hsome
    obtain ⟨state, hm, hf⟩ := List.any_eq_true.mp hsome
    obtain ⟨j, hj⟩ := List.mem_iff_getElem?.mp hm
    obtain ⟨hjs, -⟩ := List.getElem?_eq_some_iff.mp hj
    have hjo : j < batch.orderIds.length := hlen ▸ hjs
    obtain ⟨orderId, hid⟩ : ∃ orderId, batch.orderIds[j]? = some orderId :=
      ⟨_, List.getElem?_eq_getElem hjo⟩
    have hzip : (orderId, state) ∈ batch.orderIds.zip states :=
      List.mem_of_getElem? (i := j) (List.getElem?_zip_eq_some.mpr ⟨hid, hj⟩)
    intro hnil
    have : orderId ∈ batch.filtered states true :=
      List.mem_map.mpr ⟨_, List.mem_filter.mpr ⟨hzip, by simpa using hf⟩, rfl⟩
    rw [← hids, hnil] at this
    simp at this
  · rw [hids]
    exact (hperm.nodup_iff.mpr (hs.nodup batch (mem_batches hb))).of_append_left
  · have hle : (u.withData (batch.filtered states true)).length ≤
        ⌊config.batchUnlockSize batch.giveChainId⌋₊ := by
      rw [← hs.size batch (mem_batches hb), withData, List.length_map]
      exact hsub.length_le
    have hpos := one_le_of_getBatchSize (config.accepted batch.giveChainId)
    exact (Nat.le_floor_iff (by linarith)).mp hle
  · intro o ho
    obtain ⟨id, hid, rfl⟩ := List.mem_map.mp ho
    have hin := hh.inFlight batch (mem_batches hb) (by rw [hstage]; rfl) id (hsub.subset hid)
    exact hh.data _ _ hin
  · intro o ho
    obtain ⟨id, hid, rfl⟩ := List.mem_map.mp ho
    exact hk.mem_filtered hstage hall hid

theorem wellFormed_of_routine {es : List UnlockEntry} (hes : ∀ e ∈ es, e.isRoutine = true) :
    ∀ e ∈ es, ∀ log, WellFormed config log e := by
  intro e he log
  have hr := hes e he
  cases e with
  | handed c orders => cases hr
  | _ => trivial

/-- Every batch handed over is well formed, as long as the steps are coherent. -/
theorem batches_wellFormed (h : ((unlocker config).guard (Coherent config)).Run t u) :
    Journal.EachEntry (WellFormed config) u.journal := by
  refine (guarded_induct (J := fun u => Housed u ∧ Journal.EachEntry (WellFormed config) u.journal)
    ⟨.initial, Journal.eachEntry_nil⟩ ?_ h).2.2
  rintro u i u' hs - ⟨hh, hw⟩ hc hchange
  refine ⟨hh.change hs hc hchange, ?_⟩
  obtain ⟨es, hj, hwrote⟩ := wrote_of_change hchange
  rw [hj]
  cases hwrote with
  | routine _ _ hes => exact hw.append (wellFormed_of_routine hes)
  | lookedUp batch j states orderId orderState hb hstage hid =>
    exact Journal.eachEntry_concat.mpr ⟨hw, trivial⟩
  | handed batch states hb hstage hall =>
    have hsome := hc batch (by simp [hb])
    exact Journal.eachEntry_concat.mpr ⟨hw, wellFormed_handed hs hh hb hstage hall hsome⟩
  | sent batch orderIds unlockedOrders txHash hb hstage =>
    exact Journal.eachEntry_concat.mpr ⟨hw, trivial⟩

/-- A batch of two is sent while the orders of another give chain wait; one of these turns out to be
unlocked. -/
def Sample.twoBatches : List UnlockerInput :=
  announced 1 "0xa" ++ announced 3 "0xc" ++ announced 1 "0xb" ++ announced 3 "0xd" ++
    bothFulfilled ++ [.sender 0 (.ok "0x1"), .resume 0, .resume 0,
      .lookup 0 0 (.ok sentUnlock), .lookup 0 1 (.ok ours), .resume 0, .sender 0 (.ok "0x2")]

theorem batches_wellFormed_twoBatches : ∃ u,
    ((unlocker Sample.pairs).guard (Coherent Sample.pairs)).Run Sample.twoBatches u ∧
    Journal.EachEntry (WellFormed Sample.pairs) u.journal := by
  apply Machine.exists_run_and
  · decide +kernel
  · intro s hr
    exact batches_wellFormed hr

namespace Sample

/-- The only picked order turns out to be unlocked. -/
def emptied : List UnlockerInput :=
  announced 1 "0xa" ++ [.lookup 0 0 (.ok sentUnlock), .resume 0]

/-- An order is removed on a chain it is not pending on. -/
def orphaned : List UnlockerInput :=
  announced 2 "0xa" ++ announced 1 "0xb" ++ [.remove 2 "0xb"] ++ announced 1 "0xc" ++ bothFulfilled

/-- An order is announced with two give chains. -/
def relabelled : List UnlockerInput :=
  announced 1 "0xa" ++ announced 3 "0xa" ++ announced 1 "0xb" ++ bothFulfilled

/-- An order is announced again while its unlock is being sent, and the new lookup, answered late,
puts it back into the pool. Its second batch finds it unlocked. -/
def reannounced : List UnlockerInput :=
  announced 1 "0xa" ++ announced 1 "0xb" ++ bothFulfilled ++
    [.unlockOrder "0xa" (order 1), .sender 0 (.ok "0x1"), .resume 0, .resume 0, .resume 0,
      .orderState 0 (.ok ours)] ++ announced 1 "0xc" ++
    [.lookup 0 0 (.ok sentUnlock), .lookup 0 1 (.ok ours), .resume 0, .sender 0 (.ok "0x2")]

end Sample

/-- The only picked order turns out to be unlocked: an empty batch is handed over. An unlock
removes an order's data and leaves it pending on its give chain: the order is handed over without
data. An order is announced with two give chains: it is handed over in a batch of the other. -/
theorem malformed_batches :
    (∃ t u, (unlocker Sample.single).Run t u ∧
      ¬ Journal.EachEntry (WellFormed Sample.single) u.journal) ∧
    (∃ t u, (unlocker Sample.pairs).Run t u ∧ .removed 2 "0xb" ∈ u.journal ∧
      ¬ Journal.EachEntry (WellFormed Sample.pairs) u.journal) ∧
    (∃ t u, (unlocker Sample.pairs).Run t u ∧ (∀ c id, .removed c id ∉ u.journal) ∧
      ¬ Journal.EachEntry (WellFormed Sample.pairs) u.journal) := by
  refine ⟨?_, ?_, ?_⟩
  · obtain ⟨u, hr, hp⟩ := Machine.exists_run_of_any (M := unlocker Sample.single)
      (t := Sample.emptied) (p := fun u : BatchUnlocker =>
        decide (u.journal[3]? = some (UnlockEntry.handed 1 []))) (by decide +kernel)
    refine ⟨_, u, hr, fun hw => ?_⟩
    exact (hw.get (of_decide_eq_true hp)).1 rfl
  · obtain ⟨u, hr, hp⟩ := Machine.exists_run_of_any (M := unlocker Sample.pairs)
      (t := Sample.orphaned) (p := fun u : BatchUnlocker =>
        decide (UnlockEntry.removed 2 "0xb" ∈ u.journal ∧ u.journal[7]? =
          some (UnlockEntry.handed 1 [⟨"0xb", none⟩, ⟨"0xc", some (Sample.order 1)⟩])))
      (by decide +kernel)
    obtain ⟨hm, hj⟩ := of_decide_eq_true hp
    refine ⟨_, u, hr, hm, fun hw => ?_⟩
    obtain ⟨data, hd, -⟩ := (hw.get hj).2.2.2.1 ⟨"0xb", none⟩ (by simp)
    cases hd
  · obtain ⟨u, hr, hp⟩ := Machine.exists_run_of_any (M := unlocker Sample.pairs)
      (t := Sample.relabelled) (p := fun u : BatchUnlocker =>
        decide (u.journal = [.added 1 "0xa", .added 3 "0xa", .added 1 "0xb",
          .picked 1 ["0xa", "0xb"], .lookedUp "0xa" Sample.ours, .lookedUp "0xb" Sample.ours,
          .handed 1 [⟨"0xa", some (Sample.order 3)⟩, ⟨"0xb", some (Sample.order 1)⟩]]))
      (by decide +kernel)
    have hj := of_decide_eq_true hp
    refine ⟨_, u, hr, fun c id => by simp [hj], fun hw => ?_⟩
    have hget : u.journal[6]? = some (.handed 1
        [⟨"0xa", some (Sample.order 3)⟩, ⟨"0xb", some (Sample.order 1)⟩]) := by rw [hj]; rfl
    obtain ⟨data, hd, hc⟩ := (hw.get hget).2.2.2.1 ⟨"0xa", some (Sample.order 3)⟩ (by simp)
    obtain rfl := Option.some.inj hd
    exact absurd hc (by decide)

end WellFormed

/-! No order is unlocked twice. -/

section Once

variable {log : List UnlockEntry}

/-- No unlock of the order has been sent. -/
def NotSent (log : List UnlockEntry) (id : OrderId) : Prop := ∀ e ∈ log, id ∉ e.sentIds

instance : Decidable (NotSent log id) := by unfold NotSent; infer_instance

/-- The lookups of a batch attempt show the present state, in which an order whose unlock has been
sent is no longer fulfilled. -/
def Current (u : BatchUnlocker) : UnlockerInput → Prop
  | .lookup n j (.ok orderState) => isFulfilled orderState = true →
      ∀ batch ∈ u.batches[n]?, ∀ orderId ∈ batch.orderIds[j]?, NotSent u.journal orderId
  | _ => True

instance (u : BatchUnlocker) (i : UnlockerInput) : Decidable (Current u i) := by
  unfold Current
  split <;> infer_instance

theorem notSent_concat :
    NotSent (log ++ [e]) id ↔ NotSent log id ∧ id ∉ e.sentIds := by
  simp [NotSent, or_imp, forall_and]

theorem sentIds_of_routine (he : e.isRoutine = true) : e.sentIds = [] := by
  cases e <;> first | rfl | cases he

theorem notSent_append {es : List UnlockEntry} (hes : ∀ e ∈ es, e.isRoutine = true)
    (h : NotSent log id) : NotSent (log ++ es) id := by
  intro e he
  rcases List.mem_append.mp he with he | he
  · exact h e he
  · simp [sentIds_of_routine (hes e he)]

/-- An entry that shows no state shows no order fulfilled. -/
theorem foundFulfilled_of_concat (he : ∀ orderState, e ≠ .lookedUp id orderState)
    (h : FoundFulfilled (log ++ [e]) id) : FoundFulfilled log id := by
  obtain ⟨orderState, hm, hf⟩ := h
  by_cases hp : e.IsPicked
  · rw [attempt, Journal.since_concat_of_pos hp] at hm
    cases hm
  · rw [attempt_concat hp] at hm
    rcases List.mem_append.mp hm with hm | hm
    · exact ⟨orderState, hm, hf⟩
    · exact absurd (List.mem_singleton.mp hm).symm (he orderState)

theorem foundFulfilled_of_append {es : List UnlockEntry} (hes : ∀ e ∈ es, e.isRoutine = true)
    (h : FoundFulfilled (log ++ es) id) : FoundFulfilled log id := by
  induction es using List.reverseRecOn with
  | nil => simpa using h
  | append_singleton es e ih =>
    have he := hes e (by simp)
    rw [← List.append_assoc] at h
    refine ih (fun a ha => hes a (by simp [ha])) (foundFulfilled_of_concat ?_ h)
    rintro orderState rfl
    cases he

/-- The orders of a batch on its way have not been sent before. -/
def Unsent (log : List UnlockEntry) (batch : BatchUnlock) : Prop :=
  match batch.stage with
  | .filtering _ => ∀ id, FoundFulfilled log id → NotSent log id
  | .sending orderIds _ => ∀ id ∈ orderIds, NotSent log id
  | _ => True

theorem Unsent.append {es : List UnlockEntry} (hes : ∀ e ∈ es, e.isRoutine = true)
    (h : Unsent log batch) : Unsent (log ++ es) batch := by
  unfold Unsent at h ⊢
  cases hstage : batch.stage with
  | filtering states =>
    simp only [hstage] at h ⊢
    exact fun id hf => notSent_append hes (h id (foundFulfilled_of_append hes hf))
  | sending orderIds unlockedOrders =>
    simp only [hstage] at h ⊢
    exact fun id hid => notSent_append hes (h id hid)
  | _ => trivial

/-- A batch that has just been picked. -/
theorem unsent_picked {nested : Bool} {orderIds : List OrderId} :
    Unsent (log ++ [.picked c orderIds]) (u.performBatchUnlock config c nested) := by
  rintro id ⟨orderState, hm, -⟩
  rw [attempt_picked] at hm
  cases hm

theorem unsent_try (hs : Sound config u) (hu : ∀ batch ∈ u.batches, Unsent u.journal batch)
    (h : Try config u c u') : ∀ batch ∈ u'.batches, Unsent u'.journal batch := by
  cases h with
  | refused => exact hu
  | started hf hsize =>
    rw [hs.batches_started hf]
    rintro _ hm
    obtain rfl := List.mem_singleton.mp hm
    exact unsent_picked

theorem unsent_change (hs : Sound config u) (hu : ∀ batch ∈ u.batches, Unsent u.journal batch)
    (hc : Current u i) (h : Change config u i u') :
    ∀ batch ∈ u'.batches, Unsent u'.journal batch := by
  cases h with
  | call orderId order => exact hu
  | remove takeChain orderId =>
    rw [remove_batches, remove_journal]
    exact fun batch hm => (hu batch hm).append (by simp [UnlockEntry.isRoutine])
  | tryUnlock giveChainId _ ht => exact unsent_try hs hu ht
  | tryNothing giveChainId => exact hu
  | notAdded n call answer hn => exact hu
  | added n call orderState _ hn _ ht =>
    refine unsent_try hs.added ?_ ht
    exact fun batch hm => (hu batch hm).append (by simp [UnlockEntry.isRoutine])
  | lookedUp batch j states orderId orderState hb hstage hid hstate =>
    have hold := hu batch (mem_batches hb)
    simp only [Unsent, hstage] at hold
    rw [batches_lookedUp hb]
    rintro _ hm
    obtain rfl := List.mem_singleton.mp hm
    intro id hf
    change NotSent (u.journal ++ [.lookedUp orderId orderState]) id
    refine notSent_concat.mpr ⟨?_, List.not_mem_nil⟩
    obtain ⟨state, hm, hfound⟩ := hf
    have hm' : UnlockEntry.lookedUp id state ∈
        attempt (u.journal ++ [.lookedUp orderId orderState]) := hm
    rw [attempt_concat (e := .lookedUp orderId orderState) fun h => h] at hm'
    rcases List.mem_append.mp hm' with hm' | hm'
    · exact hold id ⟨state, hm', hfound⟩
    · obtain ⟨rfl, rfl⟩ := UnlockEntry.lookedUp.inj (List.mem_singleton.mp hm')
      exact hc hfound batch (by simp [hb]) id hid
  | rejected batch j error hb => simp [batches_rejected hb]
  | filtered batch states hb hstage hall =>
    have hold := hu batch (mem_batches hb)
    simp only [Unsent, hstage] at hold
    rw [batches_sendBatchUnlock hb]
    rintro _ hm
    obtain rfl := List.mem_singleton.mp hm
    intro id hid
    have hf := (hs.known batch (mem_batches hb)).mem_filtered hstage hall hid
    exact notSent_concat.mpr ⟨hold id hf, List.not_mem_nil⟩
  | sent batch orderIds unlockedOrders answer hb hstage =>
    cases answer with
    | ok txHash => simp [batches_unlockOrders_ok hb, Unsent]
    | error message => simp [batches_unlockOrders_error hb, Unsent]
  | cleanedUp batch unlockedOrders hb hstage => simp [batches_cleanUp hb, Unsent]
  | next batch giveChainId hb hstage hp =>
    rw [batches_continued hb]
    rintro _ hm
    obtain rfl := List.mem_singleton.mp hm
    exact unsent_picked
  | lastLook batch hb hstage hp => simp [batches_moved hb, Unsent]
  | stopped batch hb hstage hnested => simp [batches_moved hb, Unsent]
  | released batch hb hstage => simp [batches_released hb]

/-- No order belongs to two batches whose unlock was sent. -/
theorem no_order_sent_twice (h : ((unlocker config).guard Current).Run t u) :
    Journal.EachEntry (fun log e => ∀ id ∈ e.sentIds, NotSent log id) u.journal := by
  refine (guarded_induct (J := fun u => (∀ batch ∈ u.batches, Unsent u.journal batch) ∧
    Journal.EachEntry (fun log e => ∀ id ∈ e.sentIds, NotSent log id) u.journal)
    ⟨by simp [BatchUnlocker.initial], Journal.eachEntry_nil⟩ ?_ h).2.2
  rintro u i u' hs - ⟨hu, hj⟩ hc hchange
  refine ⟨unsent_change hs hu hc hchange, ?_⟩
  obtain ⟨es, hjournal, hwrote⟩ := wrote_of_change hchange
  rw [hjournal]
  cases hwrote with
  | routine _ _ hes =>
    refine hj.append fun e he log id hid => ?_
    rw [sentIds_of_routine (hes e he)] at hid
    cases hid
  | lookedUp batch j states orderId orderState hb hstage hid =>
    exact Journal.eachEntry_concat.mpr ⟨hj, fun id hid => absurd hid List.not_mem_nil⟩
  | handed batch states hb hstage hall =>
    exact Journal.eachEntry_concat.mpr ⟨hj, fun id hid => absurd hid List.not_mem_nil⟩
  | sent batch orderIds unlockedOrders txHash hb hstage =>
    have hunsent := hu batch (mem_batches hb)
    simp only [Unsent, hstage] at hunsent
    exact Journal.eachEntry_concat.mpr ⟨hj, hunsent⟩

/-- An order that comes back into the pool is not sent again. -/
theorem no_order_sent_twice_reannounced : ∃ u,
    ((unlocker Sample.pairs).guard Current).Run Sample.reannounced u ∧
    Journal.EachEntry (fun log e => ∀ id ∈ e.sentIds, NotSent log id) u.journal := by
  apply Machine.exists_run_and
  · decide +kernel
  · intro s hr
    exact no_order_sent_twice hr

end Once

end BatchUnlocker

end DlnTaker
