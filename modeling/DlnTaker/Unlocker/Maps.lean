import DlnTaker.Unlocker.Batches

/-! # The two maps of the unlocker

The data of the pending orders is kept by order, the pending orders by give
chain, and a batch knows its orders by what they were when it was picked. The
maps agree unless an order is removed on a chain that it is not pending on, and
a batch finds the data of its orders unless one was removed in between.
-/

namespace DlnTaker

/-- The order is removed from the set of the chain, or added to it. -/
def UnlockEntry.removal? (c : ChainId) (id : OrderId) : UnlockEntry → Option Bool
  | added giveChainId orderId => if giveChainId = c ∧ orderId = id then some false else none
  | removed takeChain orderId => if takeChain = c ∧ orderId = id then some true else none
  | _ => none

namespace BatchUnlocker

variable {config : UnlockerConfig} {u u' : BatchUnlocker} {i : UnlockerInput}
  {t : List UnlockerInput} {batch : BatchUnlock} {id orderId : OrderId} {c : ChainId}
  {e : UnlockEntry} {log : List UnlockEntry} {states : List (Option (Option TakeOrderState))}
  {orderOf : OrderId → OrderData}

/-- The maps have the same orders, and each is in the set of the give chain of its data. -/
structure Consistent (u : BatchUnlocker) : Prop where
  keys : ∀ id, (u.ordersDataMap id).isSome = true ↔ ∃ c, id ∈ u.pending c
  home : ∀ c id, id ∈ u.pending c →
    ∃ order, u.ordersDataMap id = some order ∧ order.give.chainId = c

/-- The order has been removed since the batch was picked, and not been added again. -/
def RemovedSince (log : List UnlockEntry) (c : ChainId) (id : OrderId) : Prop :=
  Journal.latest (UnlockEntry.removal? c id) (attempt log) = some true

instance : Decidable (RemovedSince log c id) := by unfold RemovedSince; infer_instance

/-- The orders that a batch in this stage is about to hand over have not been removed since it was
picked. -/
def Unremoved (log : List UnlockEntry) (batch : BatchUnlock) : Prop :=
  match batch.stage with
  | .filtering states => ∀ id ∈ batch.filtered states true, ¬ RemovedSince log batch.giveChainId id
  | _ => True

instance : Decidable (Unremoved log batch) := by
  unfold Unremoved
  split <;> infer_instance

/-- `remove` hits no order that is pending on another chain, and no order is handed over that has
been removed since its batch was picked. -/
def Tidy (u : BatchUnlocker) : UnlockerInput → Prop
  | .remove takeChain orderId =>
      (u.unlockBatchesOrderIdMap.get? takeChain).isSome = true → u.OnlyIn takeChain orderId
  | .resume n => ∀ batch ∈ u.batches[n]?, Unremoved u.journal batch
  | _ => True

instance (u : BatchUnlocker) : DecidablePred (Tidy u)
  | .remove takeChain orderId => inferInstanceAs (Decidable
      ((u.unlockBatchesOrderIdMap.get? takeChain).isSome = true → u.OnlyIn takeChain orderId))
  | .resume n => inferInstanceAs (Decidable (∀ batch ∈ u.batches[n]?, Unremoved u.journal batch))
  | .unlockOrder .. | .tryUnlock _ | .orderState .. | .lookup .. | .sender .. =>
      inferInstanceAs (Decidable True)

/-- The same order id always comes with the same data. -/
def Labelled (orderOf : OrderId → OrderData) : UnlockerInput → Prop
  | .unlockOrder orderId order => order = orderOf orderId
  | _ => True

instance : DecidablePred (Labelled orderOf)
  | .unlockOrder orderId order => inferInstanceAs (Decidable (order = orderOf orderId))
  | .remove .. | .tryUnlock _ | .orderState .. | .lookup .. | .sender .. | .resume _ =>
      inferInstanceAs (Decidable True)

theorem labelled_iff : (∀ i ∈ t, Labelled orderOf i) ↔
    ∀ orderId order, .unlockOrder orderId order ∈ t → order = orderOf orderId := by
  constructor
  · exact fun h orderId order hm => h _ hm
  · intro h i hm
    cases i with
    | unlockOrder orderId order => exact h orderId order hm
    | _ => trivial

/-! ### The maps agree -/

/-- An order is pending on its own give chain only, and its data is kept as long as it is. -/
structure Paired (orderOf : OrderId → OrderData) (u : BatchUnlocker) : Prop where
  calls : ∀ call ∈ u.calls, call.order = orderOf call.orderId
  data : ∀ c id, id ∈ u.pending c →
    u.ordersDataMap id = some (orderOf id) ∧ (orderOf id).give.chainId = c
  kept : ∀ id order, u.ordersDataMap id = some order → id ∈ u.pending (orderOf id).give.chainId
  batches : ∀ batch ∈ u.batches, ∀ id ∈ batch.orderIds,
    (orderOf id).give.chainId = batch.giveChainId

namespace Paired

theorem initial : Paired orderOf .initial where
  calls := by simp [BatchUnlocker.initial]
  data c id h := absurd h (InsertionSet.not_mem_empty id)
  kept id order h := by cases h
  batches := by simp [BatchUnlocker.initial]

theorem consistent (hp : Paired orderOf u) : Consistent u where
  keys id := by
    constructor
    · intro h
      obtain ⟨order, ho⟩ := Option.isSome_iff_exists.mp h
      exact ⟨_, hp.kept id order ho⟩
    · rintro ⟨c, h⟩
      rw [(hp.data c id h).1]
      rfl
  home c id h := ⟨orderOf id, hp.data c id h⟩

/-- What leaves the maps alone. -/
theorem congr (hp : Paired orderOf u) (hpend : ∀ c, u'.pending c = u.pending c)
    (hd : u'.ordersDataMap = u.ordersDataMap) (hc : ∀ call ∈ u'.calls, call ∈ u.calls)
    (hb : ∀ batch ∈ u'.batches, ∀ id ∈ batch.orderIds,
      (orderOf id).give.chainId = batch.giveChainId) : Paired orderOf u' where
  calls call hm := hp.calls call (hc call hm)
  data c id h := by
    rw [hpend] at h
    rw [hd]
    exact hp.data c id h
  kept id order h := by
    rw [hd] at h
    rw [hpend]
    exact hp.kept id order h
  batches := hb

theorem moved (hp : Paired orderOf u) (hb : u.batches = [batch]) (stage : BatchStage)
    (hb' : u'.batches = [{ batch with stage }]) (hpend : ∀ c, u'.pending c = u.pending c)
    (hd : u'.ordersDataMap = u.ordersDataMap) (hc : u'.calls = u.calls) : Paired orderOf u' := by
  refine hp.congr hpend hd (fun call hm => by rwa [hc] at hm) ?_
  rw [hb']
  rintro _ hm
  obtain rfl := List.mem_singleton.mp hm
  exact hp.batches batch (mem_batches hb)

theorem begun (hp : Paired orderOf u) (config : UnlockerConfig) (nested : Bool)
    (hb : u'.batches = [u.performBatchUnlock config c nested])
    (hpend : ∀ c, u'.pending c = u.pending c) (hd : u'.ordersDataMap = u.ordersDataMap)
    (hc : u'.calls = u.calls) : Paired orderOf u' := by
  refine hp.congr hpend hd (fun call hm => by rwa [hc] at hm) ?_
  rw [hb]
  rintro _ hm id hid
  obtain rfl := List.mem_singleton.mp hm
  exact (hp.data c id (List.mem_of_mem_take hid)).2

theorem try_ (hs : Sound config u) (hp : Paired orderOf u) (h : Try config u c u') :
    Paired orderOf u' := by
  cases h with
  | refused => exact hp
  | started hf hsize =>
    exact hp.begun config false (hs.batches_started hf) (fun _ => rfl) rfl rfl

theorem pool (hp : Paired orderOf u) : Paired orderOf (u.pool orderId (orderOf orderId)) where
  calls := hp.calls
  data c id h := by
    rw [pending_pool] at h
    rw [pool_ordersDataMap]
    by_cases hid : id = orderId
    · subst hid
      rw [Function.update_self]
      split at h
      · rename_i hc
        exact ⟨rfl, hc.symm⟩
      · exact ⟨rfl, (hp.data c id h).2⟩
    · rw [Function.update_of_ne hid]
      apply hp.data
      split at h
      · exact (InsertionSet.mem_add.mp h).resolve_left hid
      · exact h
  kept id order h := by
    rw [pool_ordersDataMap] at h
    rw [pending_pool]
    by_cases hid : id = orderId
    · subst hid
      rw [if_pos rfl]
      exact InsertionSet.mem_add.mpr (.inl rfl)
    · rw [Function.update_of_ne hid] at h
      have hin := hp.kept id order h
      split
      · exact InsertionSet.mem_add.mpr (.inr hin)
      · exact hin
  batches := hp.batches

theorem remove (hp : Paired orderOf u) {takeChain : ChainId}
    (hc : Tidy u (.remove takeChain orderId)) : Paired orderOf (u.remove takeChain orderId) := by
  cases hk : u.unlockBatchesOrderIdMap.get? takeChain with
  | none =>
    rw [remove_of_none hk]
    exact hp.congr (fun _ => rfl) rfl (fun _ => id) hp.batches
  | some orderIds =>
    have hsome : (u.unlockBatchesOrderIdMap.get? takeChain).isSome = true := by rw [hk]; rfl
    have honly := hc hsome
    constructor
    · simp only [BatchUnlocker.remove, emit, hk]
      exact hp.calls
    · intro c id h
      rw [remove_ordersDataMap_of_some hsome]
      rw [pending_remove] at h
      have hne : id ≠ orderId := by
        rintro rfl
        split at h
        · exact (InsertionSet.mem_delete.mp h).1 rfl
        · rename_i hcc
          exact not_mem_of_onlyIn honly hcc h
      rw [Function.update_of_ne hne]
      apply hp.data
      split at h
      · exact (InsertionSet.mem_delete.mp h).2
      · exact h
    · intro id order h
      rw [remove_ordersDataMap_of_some hsome] at h
      have hne : id ≠ orderId := by
        rintro rfl
        rw [Function.update_self] at h
        cases h
      rw [Function.update_of_ne hne] at h
      have hin := hp.kept id order h
      rw [pending_remove]
      split
      · exact InsertionSet.mem_delete.mpr ⟨hne, hin⟩
      · exact hin
    · rw [remove_batches]
      exact hp.batches

theorem cleanUp (hs : Sound config u) (hp : Paired orderOf u) (hb : u.batches = [batch])
    {unlockedOrders : List OrderId} (hstage : batch.stage = .unlocked unlockedOrders) :
    Paired orderOf (u.cleanUp config 0 batch unlockedOrders) := by
  have hk := hs.known batch (mem_batches hb)
  simp only [Known, hstage] at hk
  have hdata : ∀ id, id ∉ unlockedOrders →
      (u.cleanUp config 0 batch unlockedOrders).ordersDataMap id = u.ordersDataMap id :=
    fun id hid => if_neg hid
  constructor
  · exact hp.calls
  · intro c id h
    rw [pending_cleanUp] at h
    have hnot : id ∉ unlockedOrders := by
      intro hid
      split at h
      · exact (InsertionSet.mem_deleteAll.mp h).1 hid
      · rename_i hcc
        refine hcc ?_
        rw [← (hp.data c id h).2, hp.batches batch (mem_batches hb) id (hk id hid).1]
    rw [hdata id hnot]
    apply hp.data
    split at h
    · exact (InsertionSet.mem_deleteAll.mp h).2
    · exact h
  · intro id order h
    have hnot : id ∉ unlockedOrders := by
      intro hid
      rw [show (u.cleanUp config 0 batch unlockedOrders).ordersDataMap id = none from
        if_pos hid] at h
      cases h
    rw [hdata id hnot] at h
    have hin := hp.kept id order h
    rw [pending_cleanUp]
    split
    · exact InsertionSet.mem_deleteAll.mpr ⟨hnot, hin⟩
    · exact hin
  · rw [batches_cleanUp hb]
    rintro _ hm
    obtain rfl := List.mem_singleton.mp hm
    exact hp.batches batch (mem_batches hb)

theorem change (hs : Sound config u) (hp : Paired orderOf u) (hl : Labelled orderOf i)
    (hc : Tidy u i) (h : Change config u i u') : Paired orderOf u' := by
  cases h with
  | call orderId order =>
    refine ⟨fun call hm => ?_, hp.data, hp.kept, hp.batches⟩
    rcases List.mem_append.mp hm with hm | hm
    · exact hp.calls call hm
    · obtain rfl := List.mem_singleton.mp hm
      exact hl
  | remove takeChain orderId => exact hp.remove hc
  | tryUnlock giveChainId _ ht => exact try_ hs hp ht
  | tryNothing giveChainId => exact hp
  | notAdded n call answer hn =>
    exact hp.congr (fun _ => rfl) rfl (fun _ => List.mem_of_mem_eraseIdx) hp.batches
  | added n call orderState _ hn hu ht =>
    have hv : Paired orderOf { u with calls := u.calls.eraseIdx n } :=
      hp.congr (fun _ => rfl) rfl (fun _ => List.mem_of_mem_eraseIdx) hp.batches
    refine try_ hs.added ?_ ht
    rw [hp.calls call (List.mem_of_getElem? hn)]
    exact hv.pool
  | lookedUp batch j states orderId orderState hb hstage hid hstate =>
    exact hp.moved hb (.filtering (states.set j (some orderState)))
      (batches_lookedUp hb) (fun _ => rfl) rfl rfl
  | rejected batch j error hb =>
    refine hp.congr (fun _ => rfl) rfl (fun _ => id) ?_
    rw [batches_rejected hb]
    exact fun batch hm => absurd hm List.not_mem_nil
  | filtered batch states hb hstage hall =>
    exact hp.moved hb (.sending (batch.filtered states true) (batch.filtered states false))
      (batches_sendBatchUnlock hb) (fun _ => rfl) rfl rfl
  | sent batch orderIds unlockedOrders answer hb hstage =>
    cases answer with
    | ok txHash =>
      exact hp.moved hb (.unlocked (unlockedOrders ++ orderIds))
        (batches_unlockOrders_ok hb) (fun _ => rfl) rfl rfl
    | error message =>
      exact hp.moved hb (.unlocked unlockedOrders)
        (batches_unlockOrders_error hb) (fun _ => rfl) rfl rfl
  | cleanedUp batch unlockedOrders hb hstage => exact cleanUp hs hp hb hstage
  | next batch giveChainId hb hstage hpeek =>
    exact hp.begun config true (batches_continued hb) (fun _ => rfl) rfl rfl
  | lastLook batch hb hstage hpeek =>
    exact hp.moved hb .finished (batches_moved hb) (fun _ => rfl) rfl rfl
  | stopped batch hb hstage hnested =>
    exact hp.moved hb .finished (batches_moved hb) (fun _ => rfl) rfl rfl
  | released batch hb hstage =>
    refine hp.congr (fun _ => rfl) rfl (fun _ => id) ?_
    rw [batches_released hb]
    exact fun batch hm => absurd hm List.not_mem_nil

end Paired

/-! ### A batch and the orders it was picked with -/

theorem removedSince_concat (he : ¬ e.IsPicked) : RemovedSince (log ++ [e]) c id ↔
    e.removal? c id = some true ∨ e.removal? c id = none ∧ RemovedSince log c id := by
  rw [RemovedSince, attempt_concat he, Journal.latest_concat, Option.or_eq_some_iff, RemovedSince]

/-- The order is in the set of the chain, or has been taken out of it since the pick. -/
def Accounted (u : BatchUnlocker) (c : ChainId) (id : OrderId) : Prop :=
  id ∈ u.pending c ∨ RemovedSince u.journal c id

theorem Accounted.remove {takeChain : ChainId} (h : Accounted u c id) :
    Accounted (u.remove takeChain orderId) c id := by
  have he : ¬ (UnlockEntry.removed takeChain orderId).IsPicked := fun h => h
  by_cases heq : takeChain = c ∧ orderId = id
  · right
    rw [remove_journal, removedSince_concat he]
    exact .inl (if_pos heq)
  · refine h.imp (fun hin => ?_) fun hr => ?_
    · rw [pending_remove]
      split
      · rename_i hc
        refine InsertionSet.mem_delete.mpr ⟨?_, hin⟩
        rintro rfl
        exact heq ⟨hc.symm, rfl⟩
      · exact hin
    · rw [remove_journal, removedSince_concat he]
      exact .inr ⟨if_neg heq, hr⟩

theorem Accounted.pool {order : OrderData} (h : Accounted u c id) :
    Accounted (u.pool orderId order) c id := by
  have he : ¬ (UnlockEntry.added order.give.chainId orderId).IsPicked := fun h => h
  by_cases heq : order.give.chainId = c ∧ orderId = id
  · left
    rw [pending_pool, if_pos heq.1.symm]
    exact InsertionSet.mem_add.mpr (.inl heq.2.symm)
  · refine h.imp (fun hin => ?_) fun hr => ?_
    · rw [pending_pool]
      split
      · exact InsertionSet.mem_add.mpr (.inr hin)
      · exact hin
    · rw [pool_journal, removedSince_concat he]
      exact .inr ⟨if_neg heq, hr⟩

/-- While the states of its orders are looked up, the picked orders are accounted for. -/
def Watching (u : BatchUnlocker) : Prop :=
  ∀ batch ∈ u.batches, ∀ states, batch.stage = .filtering states →
    ∀ id ∈ batch.orderIds, Accounted u batch.giveChainId id

namespace Watching

theorem initial : Watching .initial := by simp [Watching, BatchUnlocker.initial]

theorem begun (config : UnlockerConfig) (nested : Bool)
    (hb : u'.batches = [u.performBatchUnlock config c nested])
    (hpend : ∀ c, u'.pending c = u.pending c) : Watching u' := by
  rw [Watching, hb]
  rintro _ hm states - id hid
  obtain rfl := List.mem_singleton.mp hm
  left
  rw [hpend]
  exact List.mem_of_mem_take hid

theorem of_nil (hb : u'.batches = []) : Watching u' := by
  rw [Watching, hb]
  exact fun batch hm => absurd hm List.not_mem_nil

/-- The lookups of the batch are over. -/
theorem of_stage {stage : BatchStage} (hb : u'.batches = [{ batch with stage }])
    (hstage : ∀ states, stage ≠ .filtering states) : Watching u' := by
  rw [Watching, hb]
  rintro _ hm states heq
  obtain rfl := List.mem_singleton.mp hm
  exact absurd heq (hstage states)

theorem try_ (hs : Sound config u) (hw : Watching u) (h : Try config u c u') : Watching u' := by
  cases h with
  | refused => exact hw
  | started hf hsize =>
    exact begun config false (hs.batches_started hf) fun _ => rfl

theorem change (hs : Sound config u) (hw : Watching u) (h : Change config u i u') :
    Watching u' := by
  cases h with
  | call orderId order => exact hw
  | remove takeChain orderId =>
    rw [Watching, remove_batches]
    exact fun batch hm states hstage id hid => (hw batch hm states hstage id hid).remove
  | tryUnlock giveChainId _ ht => exact try_ hs hw ht
  | tryNothing giveChainId => exact hw
  | notAdded n call answer hn => exact hw
  | added n call orderState _ hn hu ht =>
    refine try_ hs.added ?_ ht
    intro batch hm states hstage id hid
    have hacc : Accounted { u with calls := u.calls.eraseIdx n } batch.giveChainId id :=
      hw batch hm states hstage id hid
    exact hacc.pool
  | lookedUp batch j states orderId orderState hb hstage hid hstate =>
    have he : ¬ (UnlockEntry.lookedUp orderId orderState).IsPicked := fun h => h
    rw [Watching, batches_lookedUp hb]
    rintro _ hm _ - id hid
    obtain rfl := List.mem_singleton.mp hm
    refine (hw batch (mem_batches hb) states hstage id hid).imp_right fun hr => ?_
    exact (removedSince_concat he).mpr (.inr ⟨rfl, hr⟩)
  | rejected batch j error hb => exact of_nil (batches_rejected hb)
  | filtered batch states hb hstage hall => exact of_stage (batches_sendBatchUnlock hb) nofun
  | sent batch orderIds unlockedOrders answer hb hstage =>
    cases answer with
    | ok txHash => exact of_stage (batches_unlockOrders_ok hb) nofun
    | error message => exact of_stage (batches_unlockOrders_error hb) nofun
  | cleanedUp batch unlockedOrders hb hstage => exact of_stage (batches_cleanUp hb) nofun
  | next batch giveChainId hb hstage hpeek =>
    exact begun config true (batches_continued hb) fun _ => rfl
  | lastLook batch hb hstage hpeek => exact of_stage (batches_moved hb) nofun
  | stopped batch hb hstage hnested => exact of_stage (batches_moved hb) nofun
  | released batch hb hstage => exact of_nil (batches_released hb)

end Watching

/-- The orders have been handed over with their data. -/
def WithData (orderOf : OrderId → OrderData) : UnlockEntry → Prop
  | .handed _ orders => ∀ order ∈ orders, order.data = some (orderOf order.orderId)
  | _ => True

theorem withData_of_routine (he : e.isRoutine = true) : WithData orderOf e := by
  cases e with
  | handed c orders => cases he
  | _ => trivial

/-- What the lookups leave of a batch is pending, unless it has been removed. -/
theorem withData_handed (hs : Sound config u) (hp : Paired orderOf u) (hw : Watching u)
    (hc : Tidy u (.resume 0)) (hb : u.batches = [batch])
    (hstage : batch.stage = .filtering states) :
    WithData orderOf (.handed batch.giveChainId (u.withData (batch.filtered states true))) := by
  intro order hm
  obtain ⟨id, hid, rfl⟩ := List.mem_map.mp hm
  have hk := hs.known batch (mem_batches hb)
  simp only [Known, hstage] at hk
  have hpicked : id ∈ batch.orderIds :=
    (perm_filtered hk.1).subset (List.mem_append_left _ hid)
  have hunremoved := hc batch (by simp [hb])
  simp only [Unremoved, hstage] at hunremoved
  have hin := (hw batch (mem_batches hb) states hstage id hpicked).resolve_right (hunremoved id hid)
  exact (hp.data _ id hin).1

theorem withData_of_change (hs : Sound config u) (hp : Paired orderOf u) (hw : Watching u)
    (hj : ∀ e ∈ u.journal, WithData orderOf e) (hc : Tidy u i) (h : Change config u i u') :
    ∀ e ∈ u'.journal, WithData orderOf e := by
  obtain ⟨es, hjournal, hwrote⟩ := wrote_of_change h
  rw [hjournal]
  intro e hm
  rcases List.mem_append.mp hm with hm | hm
  · exact hj e hm
  · cases hwrote with
    | routine _ _ hes => exact withData_of_routine (hes e hm)
    | lookedUp batch j states orderId orderState hb hstage hid =>
      obtain rfl := List.mem_singleton.mp hm
      trivial
    | handed batch states hb hstage hall =>
      obtain rfl := List.mem_singleton.mp hm
      exact withData_handed hs hp hw hc hb hstage
    | sent batch orderIds unlockedOrders txHash hb hstage =>
      obtain rfl := List.mem_singleton.mp hm
      trivial

/-- As long as the removals are tidy, the two maps agree in every reachable state, and every order
is handed over with its data. -/
theorem maps_consistent (h : ((unlocker config).guard Tidy).Run t u)
    (hsame : ∀ orderId order, .unlockOrder orderId order ∈ t → order = orderOf orderId) :
    Consistent u ∧ ∀ c orders, .handed c orders ∈ u.journal →
      ∀ order ∈ orders, order.data = some (orderOf order.orderId) := by
  have hall := h.invariant_of_inputs (A := Labelled orderOf) (P := fun u => Sound config u ∧
    Paired orderOf u ∧ Watching u ∧ ∀ e ∈ u.journal, WithData orderOf e) (labelled_iff.mpr hsame)
    ⟨.initial, .initial, .initial, fun e he => absurd he List.not_mem_nil⟩ ?_
  · obtain ⟨-, hp, -, hj⟩ := hall
    exact ⟨hp.consistent, fun c orders hm => hj _ hm⟩
  · rintro u i u' hl ⟨hs, hp, hw, hj⟩ hstep
    obtain ⟨hc, hstep⟩ := Machine.guard_step.mp hstep
    have hchange := (change_of_step hs.single hstep).2
    exact ⟨hs.change hchange, hp.change hs hl hc hchange, hw.change hs hchange,
      withData_of_change hs hp hw hj hc hchange⟩

namespace Sample

/-- An order of the batch in flight is removed, and then announced again. -/
def removedAndAdded : List UnlockerInput :=
  announced 1 "0xa" ++ announced 1 "0xb" ++ [.lookup 0 0 (.ok ours), .remove 1 "0xb"] ++
    announced 1 "0xb" ++ [.lookup 0 1 (.ok ours), .resume 0]

/-- An order of the batch in flight is removed. -/
def removedInFlight : List UnlockerInput :=
  announced 1 "0xa" ++ announced 1 "0xb" ++
    [.lookup 0 0 (.ok ours), .remove 1 "0xb", .lookup 0 1 (.ok ours), .resume 0]

/-- An order is removed on the give chain of another one. -/
def removedElsewhere : List UnlockerInput :=
  announced 2 "0xa" ++ announced 1 "0xb" ++ [.remove 2 "0xb"]

/-- The data that the orders of these runs always come with. -/
def labels (orderId : OrderId) : OrderData := if orderId = "0xa" then order 2 else order 1

end Sample

theorem maps_consistent_removed : ∃ u,
    ((unlocker Sample.pairs).guard Tidy).Run Sample.removedAndAdded u ∧
    Consistent u ∧ ∀ c orders, .handed c orders ∈ u.journal →
      ∀ order ∈ orders, order.data = some (Sample.order 1) := by
  apply Machine.exists_run_and
  · decide +kernel
  · intro s hr
    have hl : ∀ i ∈ Sample.removedAndAdded, Labelled (fun _ => Sample.order 1) i := by decide
    exact maps_consistent hr (labelled_iff.mp hl)

/-- A removal on another chain takes the data of an order that stays pending. A removal from the
batch in flight takes the data of an order that is then handed over. -/
theorem inconsistent_maps :
    (∃ t u, (unlocker Sample.pairs).Run t u ∧
      (∀ orderId order, .unlockOrder orderId order ∈ t → order = Sample.labels orderId) ∧
      ¬ Consistent u) ∧
    ∃ t u, (unlocker Sample.pairs).Run t u ∧
      (∀ orderId order, .unlockOrder orderId order ∈ t → order = Sample.order 1) ∧
      .handed 1 [⟨"0xa", some (Sample.order 1)⟩, ⟨"0xb", none⟩] ∈ u.journal := by
  constructor
  · obtain ⟨u, hr, hp⟩ := Machine.exists_run_of_any (M := unlocker Sample.pairs)
      (t := Sample.removedElsewhere) (p := fun u : BatchUnlocker =>
        decide ("0xb" ∈ u.pending 1 ∧ u.ordersDataMap "0xb" = none)) (by decide +kernel)
    obtain ⟨hin, hnone⟩ := of_decide_eq_true hp
    refine ⟨_, u, hr, ?_, fun hc => ?_⟩
    · exact labelled_iff.mp (by decide)
    · have hsome := (hc.keys "0xb").mpr ⟨1, hin⟩
      rw [hnone] at hsome
      cases hsome
  · obtain ⟨u, hr, hp⟩ := Machine.exists_run_of_any (M := unlocker Sample.pairs)
      (t := Sample.removedInFlight) (p := fun u : BatchUnlocker =>
        decide (u.journal[6]? = some (UnlockEntry.handed 1
          [⟨"0xa", some (Sample.order 1)⟩, ⟨"0xb", none⟩]))) (by decide +kernel)
    have hl : ∀ i ∈ Sample.removedInFlight, Labelled (fun _ => Sample.order 1) i := by decide
    exact ⟨_, u, hr, labelled_iff.mp hl, List.mem_of_getElem? (of_decide_eq_true hp)⟩

end BatchUnlocker

end DlnTaker
