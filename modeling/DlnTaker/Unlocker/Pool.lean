import DlnTaker.Unlocker.Step

/-! # The pool of the unlocker

Why orders leave the pool, what a failure leaves behind, and when a free
unlocker has no full batch waiting. Each property holds of the runs in which
the answers and the arrivals meet a condition, and fails of others.
-/

namespace DlnTaker

/-- A state that an order reaches once it is no longer to be unlocked. -/
def OrderState.isPast : OrderState → Bool
  | past _ => true
  | _ => false

/-- The lookups are evaluated and the sender has settled. -/
def BatchStage.isUnlocked : BatchStage → Bool
  | unlocked _ => true
  | _ => false

namespace BatchUnlocker

variable {config : UnlockerConfig} {u u' : BatchUnlocker} {i : UnlockerInput}
  {t : List UnlockerInput} {batch : BatchUnlock} {id orderId : OrderId} {c giveChainId : ChainId}
  {e : UnlockEntry} {log es : List UnlockEntry} {orderIds : List OrderId}

section Leaving

/-- A lookup of the present attempt showed the order in a state past `Fulfilled`. -/
def FoundPast (log : List UnlockEntry) (orderId : OrderId) : Prop :=
  ∃ orderState, .lookedUp orderId (some orderState) ∈ attempt log ∧
    orderState.status.isPast = true

/-- A state that says whether the order is still to be unlocked. -/
def tells (orderState : Option TakeOrderState) : Bool :=
  orderState.any fun orderState => orderState.status = .fulfilled || orderState.status.isPast

/-- The lookups of a batch attempt yield a state, and not one before `Fulfilled`. -/
def Telling (_ : BatchUnlocker) : UnlockerInput → Prop
  | .lookup _ _ (.ok orderState) => tells orderState = true
  | _ => True

instance (u : BatchUnlocker) : DecidablePred (Telling u)
  | .lookup _ _ (.ok orderState) => inferInstanceAs (Decidable (tells orderState = true))
  | .lookup _ _ (.error _) | .unlockOrder .. | .remove .. | .tryUnlock _ | .orderState ..
  | .sender .. | .resume _ => inferInstanceAs (Decidable True)

theorem foundPast_of_foundOther (h : FoundOther log id)
    (htells : ∀ orderId orderState, .lookedUp orderId orderState ∈ log → tells orderState = true) :
    FoundPast log id := by
  obtain ⟨orderState, hm, hf⟩ := h
  have ht := htells id orderState (Journal.mem_of_mem_since hm)
  cases orderState with
  | none => cases ht
  | some orderState =>
    refine ⟨orderState, hm, ?_⟩
    have hne : ¬ orderState.status = .fulfilled := by simpa [isFulfilled] using hf
    simpa [tells, hne] using ht

theorem pending_try (h : Try config u giveChainId u') : u'.pending c = u.pending c := by
  cases h <;> rfl

/-- Orders leave the pool by `remove` and at the end of `performBatchUnlock`. -/
theorem leaves_of_change (h : Change config u i u') (hin : id ∈ u.pending c)
    (hout : id ∉ u'.pending c) :
    i = .remove c id ∨ ∃ batch unlockedOrders, u.batches = [batch] ∧
      batch.stage = .unlocked unlockedOrders ∧ id ∈ unlockedOrders := by
  cases h with
  | remove takeChain orderId =>
    rw [pending_remove] at hout
    split at hout
    · rename_i hc
      subst hc
      by_cases hid : id = orderId
      · rw [hid]
        exact .inl rfl
      · exact absurd (InsertionSet.mem_delete.mpr ⟨hid, hin⟩) hout
    · exact absurd hin hout
  | tryUnlock giveChainId _ ht =>
    rw [pending_try ht] at hout
    exact absurd hin hout
  | added n call orderState _ hn hu ht =>
    rw [pending_try ht, pending_pool] at hout
    split at hout
    · exact absurd (InsertionSet.mem_add.mpr (.inr hin)) hout
    · exact absurd hin hout
  | sent batch orderIds unlockedOrders answer hb hstage =>
    cases answer <;> exact absurd hin hout
  | cleanedUp batch unlockedOrders hb hstage =>
    refine .inr ⟨batch, unlockedOrders, hb, hstage, ?_⟩
    rw [pending_cleanUp] at hout
    split at hout
    · by_contra hid
      exact hout (InsertionSet.mem_deleteAll.mpr ⟨hid, hin⟩)
    · exact absurd hin hout
  | _ => exact absurd hin hout

theorem tells_of_change (hc : Telling u i)
    (hj : ∀ orderId orderState, .lookedUp orderId orderState ∈ u.journal →
      tells orderState = true) (h : Change config u i u') :
    ∀ orderId orderState, .lookedUp orderId orderState ∈ u'.journal →
      tells orderState = true := by
  obtain ⟨es, hjournal, hwrote⟩ := wrote_of_change h
  intro orderId orderState hm
  rw [hjournal] at hm
  rcases List.mem_append.mp hm with hm | hm
  · exact hj orderId orderState hm
  · cases hwrote with
    | routine _ _ hes => cases hes _ hm
    | lookedUp batch j states orderId' orderState' hb hstage hid =>
      obtain ⟨rfl, rfl⟩ := UnlockEntry.lookedUp.inj (List.mem_singleton.mp hm)
      exact hc
    | handed batch states hb hstage hall => cases List.mem_singleton.mp hm
    | sent batch orderIds unlockedOrders txHash hb hstage => cases List.mem_singleton.mp hm

theorem cause_of_leaving (hs : Sound config u)
    (hj : ∀ orderId orderState, .lookedUp orderId orderState ∈ u.journal →
      tells orderState = true) (h : Change config u i u') (hin : id ∈ u.pending c)
    (hout : id ∉ u'.pending c) :
    i = .remove c id ∨ SentNow u.journal id ∨ FoundPast u.journal id := by
  refine (leaves_of_change h hin hout).imp_right ?_
  rintro ⟨batch, unlockedOrders, hb, hstage, hid⟩
  have hk := hs.known batch (mem_batches hb)
  simp only [Known, hstage] at hk
  rcases (hk id hid).2 with hother | hsent
  · exact .inr (foundPast_of_foundOther hother hj)
  · exact .inl hsent

/-- An order leaves the pool only because it was removed, or because in the same attempt its batch
was sent or its lookup showed it in a state past `Fulfilled`. -/
theorem leaves_pool (h : ((unlocker config).guard Telling).Run t u)
    (hstep : (unlocker config).step u i = some u') (hin : id ∈ u.pending c)
    (hout : id ∉ u'.pending c) :
    i = .remove c id ∨ SentNow u.journal id ∨ FoundPast u.journal id := by
  obtain ⟨hs, hj⟩ := guarded_induct (J := fun u => ∀ orderId orderState,
      .lookedUp orderId orderState ∈ u.journal → tells orderState = true)
    (by simp [BatchUnlocker.initial])
    (fun u i u' _ _ hj hc hchange => tells_of_change hc hj hchange) h
  exact cause_of_leaving hs hj (change_of_step hs.single hstep).2 hin hout

/-- The lookup of an order gives no state, and the send of the rest of its batch fails. -/
def Sample.stateless (answer : Option TakeOrderState) : List UnlockerInput :=
  announced 1 "0xa" ++ announced 1 "0xb" ++
    [.lookup 0 0 (.ok answer), .lookup 0 1 (.ok ours), .resume 0, .sender 0 (.error "timeout")]

/-- The next section drops the order. -/
def Sample.dropped (answer : Option TakeOrderState) (u : BatchUnlocker) : Bool :=
  decide ("0xa" ∈ u.pending 1 ∧
    attempt u.journal = [.lookedUp "0xa" answer, .lookedUp "0xb" ours,
      .handed 1 [⟨"0xb", some (order 1)⟩],
      .orderUnlockFailed 2 1 "trying to unlock 1 orders from chain 2 to chain 1 failed: timeout"
        ["0xb"]]) &&
    (unlockerStep pairs u (.resume 0)).any fun u' => decide ("0xa" ∉ u'.pending 1)

/-- An order whose unlock was sent by someone else leaves the pool. -/
theorem leaves_pool_unlocked : ∃ u u' : BatchUnlocker,
    ((unlocker Sample.pairs).guard Telling).Run (Sample.stateless Sample.sentUnlock) u ∧
    "0xa" ∈ u.pending 1 ∧ "0xa" ∉ u'.pending 1 ∧
    (UnlockerInput.resume 0 = .remove 1 "0xa" ∨ SentNow u.journal "0xa" ∨
      FoundPast u.journal "0xa") := by
  obtain ⟨u, hr, hp⟩ := Machine.exists_run_of_any (M := (unlocker Sample.pairs).guard Telling)
    (t := Sample.stateless Sample.sentUnlock) (p := fun u : BatchUnlocker =>
      decide ("0xa" ∈ u.pending 1) && ((unlocker Sample.pairs).step u (.resume 0)).any
        fun u' : BatchUnlocker => decide ("0xa" ∉ u'.pending 1)) (by decide +kernel)
  simp only [Bool.and_eq_true, decide_eq_true_eq, Option.any_eq_true] at hp
  obtain ⟨hin, u', hstep, hout⟩ := hp
  exact ⟨u, u', hr, hin, hout, leaves_pool hr hstep hin hout⟩

/-- An order leaves the pool though it was not removed, its batch was not sent, and the given
answer did not show it past `Fulfilled`. -/
def DroppedFor (answer : Option TakeOrderState) : Prop :=
  ∃ u u' : BatchUnlocker, (unlocker Sample.pairs).Run (Sample.stateless answer) u ∧
    (unlocker Sample.pairs).step u (.resume 0) = some u' ∧
    "0xa" ∈ u.pending 1 ∧ "0xa" ∉ u'.pending 1 ∧
    ¬ (UnlockerInput.resume 0 = .remove 1 "0xa" ∨ SentNow u.journal "0xa" ∨
      FoundPast u.journal "0xa")

theorem droppedFor_of_run {answer : Option TakeOrderState}
    (hanswer : ∀ orderState ∈ answer, orderState.status.isPast = false)
    (h : ∃ u, (unlocker Sample.pairs).Run (Sample.stateless answer) u ∧
      Sample.dropped answer u = true) : DroppedFor answer := by
  obtain ⟨u, hr, hp⟩ := h
  simp only [Sample.dropped, Bool.and_eq_true, decide_eq_true_eq, Option.any_eq_true] at hp
  obtain ⟨⟨hin, hattempt⟩, u', hstep, hout⟩ := hp
  refine ⟨u, u', hr, hstep, hin, hout, ?_⟩
  rintro (h | ⟨e, hm, hid⟩ | ⟨orderState, hm, hpast⟩)
  · cases h
  · have hnil : ∀ e ∈ attempt u.journal, e.sentIds = [] := by
      rw [hattempt]
      simp [UnlockEntry.sentIds]
    rw [hnil e hm] at hid
    cases hid
  · rw [hattempt] at hm
    have hstate : some orderState = answer := by simpa using hm
    rw [hanswer orderState hstate.symm] at hpast
    cases hpast

/-- The lookup of an order gives no state, or `NotSet`, and the order is dropped. -/
theorem order_dropped : DroppedFor none ∧ DroppedFor (some ⟨.notSet, []⟩) :=
  ⟨droppedFor_of_run (by simp) (Machine.exists_run_of_any (by decide +kernel)),
    droppedFor_of_run (by simp [OrderState.isPast]) (Machine.exists_run_of_any (by decide +kernel))⟩

end Leaving

section Wedged

/-- The order was not left to be unlocked: a batch with it was sent, a lookup showed it in a state
past `Fulfilled`, or it was removed. -/
def Unlocked (log : List UnlockEntry) (c : ChainId) (id : OrderId) : Prop :=
  (∃ e ∈ log, id ∈ e.sentIds) ∨
    (∃ orderState, .lookedUp id (some orderState) ∈ log ∧ orderState.status.isPast = true) ∨
    .removed c id ∈ log

/-- The lookups of a batch attempt succeed and are telling. -/
def Answered (_ : BatchUnlocker) : UnlockerInput → Prop
  | .lookup _ _ answer => ∃ orderState, answer = .ok orderState ∧ tells orderState = true
  | _ => True

instance (u : BatchUnlocker) (i : UnlockerInput) : Decidable (Answered u i) := by
  unfold Answered
  split
  · rename_i answer
    cases answer with
    | ok orderState => exact decidable_of_iff (tells orderState = true) (by simp)
    | error message => exact .isFalse (by simp)
  · exact .isTrue trivial

theorem Answered.telling (h : Answered u i) : Telling u i := by
  cases i with
  | lookup n j answer =>
    obtain ⟨orderState, rfl, ht⟩ := h
    exact ht
  | _ => trivial

/-- What holds in every state of a run in which the lookups are answered. -/
structure Unwedged (u : BatchUnlocker) : Prop where
  telling : ∀ orderId orderState, .lookedUp orderId orderState ∈ u.journal →
    tells orderState = true
  free : u.batches = [] → u.isBatchUnlockLocked = false
  running : u.batches = [] → u.exited = false
  kept : ∀ c id, .added c id ∈ u.journal → id ∈ u.pending c ∨ Unlocked u.journal c id

theorem Unlocked.append (h : Unlocked log c id) : Unlocked (log ++ es) c id := by
  rcases h with ⟨e, hm, hid⟩ | ⟨orderState, hm, hpast⟩ | hm
  · exact .inl ⟨e, List.mem_append_left _ hm, hid⟩
  · exact .inr (.inl ⟨orderState, List.mem_append_left _ hm, hpast⟩)
  · exact .inr (.inr (List.mem_append_left _ hm))

theorem added_of_try (h : Try config u giveChainId u') (hm : .added c id ∈ u'.journal) :
    .added c id ∈ u.journal := by
  cases h with
  | refused => exact hm
  | started =>
    rcases List.mem_append.mp hm with hm | hm
    · exact hm
    · cases List.mem_singleton.mp hm

/-- An order that is added is pending right after. -/
theorem added_of_change (h : Change config u i u') (hm : .added c id ∈ u'.journal) :
    .added c id ∈ u.journal ∨ id ∈ u'.pending c := by
  by_cases hnew : ∃ n call orderState, i = .orderState n (.ok orderState) ∧
      u.calls[n]? = some call ∧ Try config
        (pool { u with calls := u.calls.eraseIdx n } call.orderId call.order)
        call.order.give.chainId u'
  · obtain ⟨n, call, orderState, -, -, ht⟩ := hnew
    have hm := added_of_try ht hm
    rw [pool_journal] at hm
    rcases List.mem_append.mp hm with hm | hm
    · exact .inl hm
    · obtain ⟨rfl, rfl⟩ := UnlockEntry.added.inj (List.mem_singleton.mp hm)
      right
      rw [pending_try ht, pending_pool, if_pos rfl]
      exact InsertionSet.mem_add.mpr (.inl rfl)
  · left
    cases h with
    | added n call orderState _ hn hu ht => exact absurd ⟨n, call, orderState, rfl, hn, ht⟩ hnew
    | tryUnlock giveChainId _ ht => exact added_of_try ht hm
    | remove takeChain orderId =>
      rw [remove_journal] at hm
      simpa using hm
    | sent batch orderIds unlockedOrders answer hb hstage =>
      cases answer <;> simpa [unlockOrders, moved] using hm
    | _ => simpa [lookedUp, moved, rejected, sendBatchUnlock, cleanUp, continued, released] using hm

namespace Unwedged

theorem initial : Unwedged .initial where
  telling := by simp [BatchUnlocker.initial]
  free _ := rfl
  running _ := rfl
  kept := by simp [BatchUnlocker.initial]

theorem kept_of_change (hs : Sound config u) (hw : Unwedged u) (h : Change config u i u') :
    ∀ c id, .added c id ∈ u'.journal → id ∈ u'.pending c ∨ Unlocked u'.journal c id := by
  intro c id hm
  by_cases hout : id ∈ u'.pending c
  · exact .inl hout
  right
  obtain ⟨es, hjournal, -⟩ := wrote_of_change h
  have hold := (added_of_change h hm).resolve_right hout
  rcases hw.kept c id hold with hin | hun
  · rcases cause_of_leaving hs hw.telling h hin hout with rfl | ⟨e, hm, hid⟩ |
      ⟨orderState, hm, hpast⟩
    · cases h with
      | remove => exact .inr (.inr (by simp))
    · rw [hjournal]
      exact .inl ⟨e, List.mem_append_left _ (Journal.mem_of_mem_since hm), hid⟩
    · rw [hjournal]
      exact .inr (.inl ⟨orderState, List.mem_append_left _ (Journal.mem_of_mem_since hm), hpast⟩)
  · rw [hjournal]
    exact hun.append

/-- The lock is held only as long as the call that took it is in progress. -/
theorem settled_of_change (hx : u.exited = false) (hw : Unwedged u) (hc : Answered u i)
    (h : Change config u i u') (hnil : u'.batches = []) :
    u'.isBatchUnlockLocked = false ∧ u'.exited = false := by
  have hsame : u.batches = [] → u.isBatchUnlockLocked = false ∧ u.exited = false :=
    fun h => ⟨hw.free h, hx⟩
  cases h with
  | call orderId order => exact hsame hnil
  | remove takeChain orderId =>
    rw [remove_batches] at hnil
    rw [remove_isBatchUnlockLocked]
    refine ⟨hw.free hnil, ?_⟩
    simp only [BatchUnlocker.remove]
    split <;> exact hx
  | tryUnlock giveChainId _ ht =>
    cases ht with
    | refused => exact hsame hnil
    | started => simp [started] at hnil
  | tryNothing giveChainId => exact hsame hnil
  | notAdded n call answer hn => exact hsame hnil
  | added n call orderState _ hn hu ht =>
    cases ht with
    | refused => exact hsame hnil
    | started => simp [started] at hnil
  | rejected batch j error hb =>
    obtain ⟨orderState, he, -⟩ := hc
    cases he
  | sent batch orderIds unlockedOrders answer hb hstage =>
    cases answer with
    | ok txHash => simp [batches_unlockOrders_ok hb] at hnil
    | error message => simp [batches_unlockOrders_error hb] at hnil
  | released batch hb hstage => exact ⟨rfl, hx⟩
  | _ => simp [lookedUp, sendBatchUnlock, moved, cleanUp, continued, *] at hnil

theorem change (hs : Sound config u) (hx : u.exited = false) (hw : Unwedged u)
    (hc : Answered u i) (h : Change config u i u') : Unwedged u' where
  telling := tells_of_change hc.telling hw.telling h
  free hnil := (settled_of_change hx hw hc h hnil).1
  running hnil := (settled_of_change hx hw hc h hnil).2
  kept := kept_of_change hs hw h

end Unwedged

/-- An arrival that completes a batch while no call is in progress has the batch attempted. -/
theorem attempted_of_settled (hw : Unwedged u) (hnil : u.batches = []) {n : ℕ}
    {call : UnlockOrderCall} {orderState : Option TakeOrderState} (hn : u.calls[n]? = some call)
    (hu : isUnlockable config orderState = true) :
    ∃ u', (unlocker config).step u (.orderState n (.ok orderState)) = some u' ∧
      (config.batchUnlockSize call.order.give.chainId ≤
          (u'.pending call.order.give.chainId).size → u'.batches ≠ []) := by
  refine ⟨BatchUnlocker.addOrder config { u with calls := u.calls.eraseIdx n } call.orderId
    call.order, ?_, ?_⟩
  · simp [unlocker, unlockerStep, hw.running hnil, hn, hu]
  · have ht : Try config (pool { u with calls := u.calls.eraseIdx n } call.orderId call.order)
        call.order.give.chainId (BatchUnlocker.addOrder config
          { u with calls := u.calls.eraseIdx n } call.orderId call.order) := try_tryUnlock
    intro hfull hnone
    rw [pending_try ht] at hfull
    generalize BatchUnlocker.addOrder config { u with calls := u.calls.eraseIdx n } call.orderId
      call.order = v at ht hnone
    cases ht with
    | refused hr =>
      rcases hr with hl | hsize
      · have hl' : u.isBatchUnlockLocked = true := hl
        rw [hw.free hnil] at hl'
        cases hl'
      · exact absurd hfull (not_le.mpr hsize)
    | started => simp [started] at hnone

/-- Once `tryUnlock` settles the lock is free, the pool holds every order that came into it and was
not unlocked, and the next batch that becomes full is attempted. -/
theorem never_wedged (h : ((unlocker config).guard Answered).Run t u) (hnil : u.batches = []) :
    u.isBatchUnlockLocked = false ∧
    (∀ c id, .added c id ∈ u.journal → id ∈ u.pending c ∨ Unlocked u.journal c id) ∧
    ∀ n call orderState, u.calls[n]? = some call → isUnlockable config orderState = true →
      ∃ u', (unlocker config).step u (.orderState n (.ok orderState)) = some u' ∧
        (config.batchUnlockSize call.order.give.chainId ≤
          (u'.pending call.order.give.chainId).size → u'.batches ≠ []) := by
  obtain ⟨-, hw⟩ := guarded_induct (J := Unwedged) .initial
    (fun u i u' hs hx hw hc hchange => hw.change hs hx hc hchange) h
  exact ⟨hw.free hnil, hw.kept, fun n call orderState hn hu => attempted_of_settled hw hnil hn hu⟩

/-- The sender fails, and the call of `tryUnlock` settles. -/
def Sample.failedSend : List UnlockerInput :=
  announced 1 "0xa" ++ sentAs (.error "timeout") ++ [.resume 0]

/-- A lookup of the batch fails. -/
def Sample.failedLookup : List UnlockerInput :=
  announced 1 "0xa" ++ [.lookup 0 0 (.error "timeout")]

theorem never_wedged_failedSend : ∃ u,
    ((unlocker Sample.single).guard Answered).Run Sample.failedSend u ∧ u.batches = [] ∧
    u.isBatchUnlockLocked = false ∧
    (∀ c id, .added c id ∈ u.journal → id ∈ u.pending c ∨ Unlocked u.journal c id) ∧
    ∀ n call orderState, u.calls[n]? = some call →
      isUnlockable Sample.single orderState = true →
      ∃ u', (unlocker Sample.single).step u (.orderState n (.ok orderState)) = some u' ∧
        (Sample.single.batchUnlockSize call.order.give.chainId ≤
          (u'.pending call.order.give.chainId).size → u'.batches ≠ []) := by
  obtain ⟨u, hr, hp⟩ := Machine.exists_run_of_any
    (M := (unlocker Sample.single).guard Answered) (t := Sample.failedSend)
    (p := fun u : BatchUnlocker => decide (u.batches = [])) (by decide +kernel)
  have hnil := of_decide_eq_true hp
  exact ⟨u, hr, hnil, never_wedged hr hnil⟩

/-- The call of `tryUnlock` rejects and leaves the lock. A full batch that arrives later is not
attempted. -/
theorem wedged_by_lookup : ∃ u u' : BatchUnlocker,
    (unlocker Sample.single).Run Sample.failedLookup u ∧ u.batches = [] ∧
    u.isBatchUnlockLocked = true ∧
    (unlocker Sample.single).Run (Sample.failedLookup ++ Sample.announced 1 "0xb") u' ∧
    Sample.single.batchUnlockSize 1 ≤ (u'.pending 1).size ∧ u'.batches = [] := by
  obtain ⟨u, hr, hp⟩ := Machine.exists_run_of_any (M := unlocker Sample.single)
    (t := Sample.failedLookup) (p := fun u : BatchUnlocker =>
      decide (u.batches = [] ∧ u.isBatchUnlockLocked = true)) (by decide +kernel)
  obtain ⟨u', hr', hp'⟩ := Machine.exists_run_of_any (M := unlocker Sample.single)
    (t := Sample.failedLookup ++ Sample.announced 1 "0xb") (p := fun u : BatchUnlocker =>
      decide ((u.pending 1).size = 2 ∧ u.batches = [])) (by decide +kernel)
  obtain ⟨hnil, hlock⟩ := of_decide_eq_true hp
  obtain ⟨hsize, hnil'⟩ := of_decide_eq_true hp'
  refine ⟨u, u', hr, hnil, hlock, hr', ?_, hnil'⟩
  rw [hsize]
  norm_num [Sample.single, Sample.config]

end Wedged

section Waiting

/-- How the most recent batch attempt went, from the entries that tell. -/
def lastOutcome : UnlockEntry → Option Bool
  | .picked .. | .orderUnlockFailed .. => some false
  | .orderUnlockSent .. => some true
  | _ => none

/-- The most recent batch attempt, if any, was sent. -/
def LastSucceeded (log : List UnlockEntry) : Prop := Journal.latest lastOutcome log ≠ some false

instance : Decidable (LastSucceeded log) := by unfold LastSucceeded; infer_instance

/-- No give chain has a full batch. -/
def AllSmall (config : UnlockerConfig) (u : BatchUnlocker) : Prop :=
  ∀ c, ((u.pending c).size : ℚ) < config.batchUnlockSize c

/-- When the last batch was sent, its size is a whole number, and no order completes another batch
between the last look for one and the release of the lock. -/
def Watched (config : UnlockerConfig) (u : BatchUnlocker) : UnlockerInput → Prop
  | .resume n => LastSucceeded u.journal → ∀ batch ∈ u.batches[n]?, batch.stage.isUnlocked = true →
      (⌊config.batchUnlockSize batch.giveChainId⌋₊ : ℚ) = config.batchUnlockSize batch.giveChainId
  | .orderState n (.ok orderState) =>
      isUnlockable config orderState = true → LastSucceeded u.journal →
        (∃ batch ∈ u.batches, batch.stage = .finished) → ∀ call ∈ u.calls[n]?,
          (((u.pending call.order.give.chainId).add call.orderId).size : ℚ) <
            config.batchUnlockSize call.order.give.chainId
  | _ => True

instance (u : BatchUnlocker) : DecidablePred (Watched config u)
  | .resume _ => inferInstanceAs (Decidable (_ → _))
  | .orderState _ (.ok _) => inferInstanceAs (Decidable (_ → _ → _ → _))
  | .orderState _ (.error _) | .unlockOrder .. | .remove .. | .tryUnlock _ | .lookup ..
  | .sender .. => inferInstanceAs (Decidable True)

/-- What is known of the pool at a stage of a batch, when the last attempt succeeded. -/
def Attended (config : UnlockerConfig) (u : BatchUnlocker) (batch : BatchUnlock) : Prop :=
  match batch.stage with
  | .filtering _ | .sending _ _ => False
  | .unlocked unlockedOrders => unlockedOrders.length = batch.orderIds.length
  | .performed batchSucceeded => batchSucceeded = true
  | .finished => AllSmall config u

/-- Holds in every state of a run that is watched. -/
structure Vigilant (config : UnlockerConfig) (u : BatchUnlocker) : Prop where
  free : u.isBatchUnlockLocked = false → LastSucceeded u.journal → AllSmall config u
  attended : ∀ batch ∈ u.batches, LastSucceeded u.journal → Attended config u batch

theorem not_lastSucceeded_picked : ¬ LastSucceeded (log ++ [.picked c orderIds]) := by
  simp [LastSucceeded, Journal.latest_concat, lastOutcome]

theorem lastSucceeded_concat (he : lastOutcome e = none) :
    LastSucceeded (log ++ [e]) ↔ LastSucceeded log := by
  simp [LastSucceeded, Journal.latest_concat, he]

namespace AllSmall

theorem of_le (h : AllSmall config u) (hle : ∀ c, (u'.pending c).size ≤ (u.pending c).size) :
    AllSmall config u' :=
  fun c => lt_of_le_of_lt (by exact_mod_cast hle c) (h c)

theorem remove (h : AllSmall config u) : AllSmall config (u.remove c id) := by
  refine h.of_le fun giveChainId => ?_
  rw [pending_remove]
  split
  · exact InsertionSet.size_delete_le
  · exact le_rfl

theorem pool {order : OrderData} (h : AllSmall config u)
    (hsize : (((u.pending order.give.chainId).add id).size : ℚ) <
      config.batchUnlockSize order.give.chainId) : AllSmall config (u.pool id order) := by
  intro giveChainId
  rw [pending_pool]
  split
  · rename_i hc
    rw [hc]
    exact hsize
  · exact h giveChainId

end AllSmall

theorem Attended.mono {batch : BatchUnlock} (ha : Attended config u batch)
    (hp : batch.stage = .finished → AllSmall config u → AllSmall config u') :
    Attended config u' batch := by
  unfold Attended at ha ⊢
  cases hstage : batch.stage with
  | filtering states => simp only [hstage] at ha
  | sending orderIds unlockedOrders => simp only [hstage] at ha
  | unlocked unlockedOrders => simpa only [hstage] using ha
  | performed batchSucceeded => simpa only [hstage] using ha
  | finished =>
    simp only [hstage] at ha ⊢
    exact hp hstage ha

namespace Vigilant

theorem initial : Vigilant config .initial where
  free _ _ c := by
    have hpos := one_le_of_getBatchSize (config.accepted c)
    simp only [pending_initial, InsertionSet.size_empty, Nat.cast_zero]
    linarith
  attended := by simp [BatchUnlocker.initial]

/-- The batch in progress goes on to another stage. -/
theorem moved (batch : BatchUnlock) (hl : u'.isBatchUnlockLocked = true)
    (hb : u'.batches = [batch]) (ha : LastSucceeded u'.journal → Attended config u' batch) :
    Vigilant config u' where
  free h := by
    rw [hl] at h
    cases h
  attended := by
    rw [hb]
    rintro _ hm
    obtain rfl := List.mem_singleton.mp hm
    exact ha

/-- A batch has just been picked. -/
theorem begun (nested : Bool) (hl : u'.isBatchUnlockLocked = true)
    (hb : u'.batches = [u.performBatchUnlock config c nested])
    (hj : u'.journal = log ++ [.picked c orderIds]) : Vigilant config u' :=
  moved _ hl hb fun hlast => absurd (hj ▸ hlast) not_lastSucceeded_picked

/-- Nothing but the pool changes, and it stays small where it was. -/
theorem congr (hv : Vigilant config u) (hl : u'.isBatchUnlockLocked = u.isBatchUnlockLocked)
    (hb : u'.batches = u.batches) (hj : LastSucceeded u'.journal → LastSucceeded u.journal)
    (hp : AllSmall config u → AllSmall config u') : Vigilant config u' where
  free hf hlast := by
    rw [hl] at hf
    exact hp (hv.free hf (hj hlast))
  attended := by
    rw [hb]
    exact fun batch hm hlast => (hv.attended batch hm (hj hlast)).mono fun _ => hp

theorem started (hs : Sound config u) (hf : u.isBatchUnlockLocked = false) :
    Vigilant config (u.started config c) :=
  begun (u := u) (c := c) false rfl (hs.batches_started hf) rfl

theorem added (hs : Sound config u) (hv : Vigilant config u) {order : OrderData}
    (hc : LastSucceeded u.journal → (∃ batch ∈ u.batches, batch.stage = .finished) →
      (((u.pending order.give.chainId).add id).size : ℚ) <
        config.batchUnlockSize order.give.chainId)
    (h : Try config (u.pool id order) order.give.chainId u') : Vigilant config u' := by
  have hlast : LastSucceeded (u.pool id order).journal → LastSucceeded u.journal :=
    (lastSucceeded_concat rfl).mp
  have hsize : (u.pool id order).pending order.give.chainId =
      (u.pending order.give.chainId).add id := by rw [pending_pool, if_pos rfl]
  cases h with
  | started hf => exact started hs.pool hf
  | refused hr =>
    constructor
    · intro hf hl
      have hlt := hr.resolve_left (by rw [hf]; exact Bool.false_ne_true)
      rw [hsize] at hlt
      exact (hv.free hf (hlast hl)).pool hlt
    · intro batch hm hl
      refine (hv.attended batch hm (hlast hl)).mono fun hstage hsmall => ?_
      exact hsmall.pool (hc (hlast hl) ⟨batch, hm, hstage⟩)

theorem change (hs : Sound config u) (hv : Vigilant config u) (hc : Watched config u i)
    (h : Change config u i u') : Vigilant config u' := by
  cases h with
  | call orderId order => exact hv.congr rfl rfl id id
  | remove takeChain orderId =>
    refine hv.congr remove_isBatchUnlockLocked remove_batches ?_ AllSmall.remove
    rw [remove_journal]
    exact (lastSucceeded_concat rfl).mp
  | tryUnlock giveChainId _ ht =>
    cases ht with
    | refused => exact hv
    | started hf => exact started hs hf
  | tryNothing giveChainId => exact hv
  | notAdded n call answer hn => exact hv.congr rfl rfl id id
  | added n call orderState _ hn hu ht =>
    have hv' : Vigilant config { u with calls := u.calls.eraseIdx n } := hv.congr rfl rfl id id
    exact hv'.added hs.settled (fun hl hf => hc hu hl hf call hn) ht
  | lookedUp batch j states orderId orderState hb hstage hid hstate =>
    have ha := hv.attended batch (mem_batches hb)
    simp only [Attended, hstage] at ha
    refine moved { batch with
      stage := .filtering (states.set j (some orderState)) } (hs.isLocked hb)
      (batches_lookedUp hb) ?_
    exact fun hl => ha ((lastSucceeded_concat rfl).mp hl)
  | rejected batch j error hb =>
    -- the lock stays, so nothing is promised any more
    have hl : (u.rejected 0).isBatchUnlockLocked = true := hs.isLocked hb
    constructor
    · intro hf
      rw [hl] at hf
      cases hf
    · simp [batches_rejected hb]
  | filtered batch states hb hstage hall =>
    have ha := hv.attended batch (mem_batches hb)
    simp only [Attended, hstage] at ha
    refine moved { batch with
      stage := .sending (batch.filtered states true) (batch.filtered states false) }
      (hs.isLocked hb)
      (batches_sendBatchUnlock hb) ?_
    exact fun hl => ha ((lastSucceeded_concat rfl).mp hl)
  | sent batch orderIds unlockedOrders answer hb hstage =>
    have hk := hs.known batch (mem_batches hb)
    simp only [Known, hstage] at hk
    have hlock := hs.isLocked hb
    cases answer with
    | ok txHash =>
      refine moved { batch with stage := .unlocked (unlockedOrders ++ orderIds) } hlock
        (batches_unlockOrders_ok hb) fun _ => ?_
      change (unlockedOrders ++ orderIds).length = batch.orderIds.length
      rw [← hk.1.length_eq, List.length_append, List.length_append, Nat.add_comm]
    | error message =>
      refine moved { batch with stage := .unlocked unlockedOrders } hlock
        (batches_unlockOrders_error hb) fun hl => ?_
      refine absurd hl ?_
      simp [unlockOrders, LastSucceeded, Journal.latest_concat, lastOutcome]
  | cleanedUp batch unlockedOrders hb hstage =>
    have ha := hv.attended batch (mem_batches hb)
    simp only [Attended, hstage] at ha
    have hsize := hs.size batch (mem_batches hb)
    refine moved { batch with
      stage := .performed (unlockedOrders.length = config.batchUnlockSize batch.giveChainId) }
      (hs.isLocked hb)
      (batches_cleanUp hb) fun hl => ?_
    have hwhole := hc hl batch (by simp [hb]) (by rw [hstage]; rfl)
    have hlen : (unlockedOrders.length : ℚ) = config.batchUnlockSize batch.giveChainId := by
      rw [ha hl, hsize, hwhole]
    exact decide_eq_true hlen
  | next batch giveChainId hb hstage hp =>
    exact begun (u := u) (c := giveChainId) true (hs.isLocked hb) (batches_continued hb)
      rfl
  | lastLook batch hb hstage hp =>
    refine moved { batch with stage := .finished } (hs.isLocked hb)
      (batches_moved hb) fun _ c => ?_
    exact size_lt_of_peek_none hp (one_le_of_getBatchSize (config.accepted c))
  | stopped batch hb hstage hnested =>
    have ha := hv.attended batch (mem_batches hb)
    simp only [Attended, hstage] at ha
    refine moved { batch with stage := .finished } (hs.isLocked hb)
      (batches_moved hb) fun hl => ?_
    cases ha hl
  | released batch hb hstage =>
    have ha := hv.attended batch (mem_batches hb)
    constructor
    · intro _ hl
      rcases hstage with hstage | hstage
      · simp only [Attended, hstage] at ha
        exact ha hl
      · simp only [Attended, hstage] at ha
        cases ha hl
    · simp [batches_released hb]

end Vigilant

/-- Whenever the lock is free and the most recent batch attempt succeeded, no give chain has a full
batch. -/
theorem no_full_batch_left (h : ((unlocker config).guard (Watched config)).Run t u)
    (hf : u.isBatchUnlockLocked = false) (hl : LastSucceeded u.journal) (c : ChainId) :
    ((u.pending c).size : ℚ) < config.batchUnlockSize c := by
  obtain ⟨-, hv⟩ := guarded_induct (J := Vigilant config) .initial
    (fun u i u' hs _ hv hc hchange => hv.change hs hc hchange) h
  exact hv.free hf hl c

namespace Sample

/-- A batch that the code slices to one order. -/
def fractional : UnlockerConfig := Sample.config (3 / 2) (by norm_num)

/-- A batch of two is sent while another order arrives, and the unlocker looks for another batch
before it releases the lock. -/
def sentAndReleased : List UnlockerInput :=
  announced 1 "0xa" ++ announced 1 "0xb" ++ bothFulfilled ++ announced 1 "0xc" ++
    [.sender 0 (.ok "0x1"), .resume 0, .resume 0, .resume 0]

/-- An order arrives after the last look. -/
def late : List UnlockerInput :=
  announced 1 "0xa" ++ sentAs (.ok "0x1") ++ [.resume 0] ++ announced 1 "0xb" ++ [.resume 0]

/-- The batch is sent while two more orders arrive. -/
def fractionalBatch : List UnlockerInput :=
  announced 1 "0xa" ++ announced 1 "0xb" ++ announced 1 "0xc" ++ sentAs (.ok "0x1") ++ [.resume 0]

end Sample

theorem no_full_batch_left_sent : ∃ u,
    ((unlocker Sample.pairs).guard (Watched Sample.pairs)).Run Sample.sentAndReleased u ∧
    u.isBatchUnlockLocked = false ∧ LastSucceeded u.journal ∧
    ((u.pending 1).size : ℚ) < Sample.pairs.batchUnlockSize 1 := by
  obtain ⟨u, hr, hp⟩ := Machine.exists_run_of_any
    (M := (unlocker Sample.pairs).guard (Watched Sample.pairs)) (t := Sample.sentAndReleased)
    (p := fun u : BatchUnlocker =>
      decide (u.isBatchUnlockLocked = false ∧ LastSucceeded u.journal)) (by decide +kernel)
  obtain ⟨hf, hl⟩ := of_decide_eq_true hp
  exact ⟨u, hr, hf, hl, no_full_batch_left hr hf hl 1⟩

/-- A run leaves a full batch behind. -/
def LeavesFullBatch (config : UnlockerConfig) (t : List UnlockerInput) (c : ChainId) : Prop :=
  ∃ u : BatchUnlocker, (unlocker config).Run t u ∧ u.isBatchUnlockLocked = false ∧
    LastSucceeded u.journal ∧ config.batchUnlockSize c ≤ (u.pending c).size

theorem leavesFullBatch_of_any
    (h : ((unlocker config).exec .initial t).any (fun u : BatchUnlocker =>
      decide (u.isBatchUnlockLocked = false ∧ LastSucceeded u.journal ∧
        config.batchUnlockSize c ≤ (u.pending c).size)) = true) :
    LeavesFullBatch config t c := by
  obtain ⟨u, hr, hp⟩ := Machine.exists_run_of_any (M := unlocker config) h
  exact ⟨u, hr, of_decide_eq_true hp⟩

/-- A full batch is left behind by an order that arrives after the last look, and by a batch whose
size is not a whole number, which never counts as succeeded. -/
theorem full_batch_left : LeavesFullBatch Sample.single Sample.late 1 ∧
    LeavesFullBatch Sample.fractional Sample.fractionalBatch 1 :=
  ⟨leavesFullBatch_of_any (by decide +kernel), leavesFullBatch_of_any (by decide +kernel)⟩

end Waiting

end BatchUnlocker

end DlnTaker
