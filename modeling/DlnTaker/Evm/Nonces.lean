import DlnTaker.Evm.Broadcaster

/-! # The nonces of a broadcast

A run takes its nonce from the node once and changes it only when the node
reports it as too low. `Turn` lists what a step can do to the nonce, to the
signed transaction the node has not answered yet, and to the journal.
-/

namespace DlnTaker

namespace Evm

variable {market : FeeMarket}

/-- How a run stands with its nonce: not yet known, in use, or no longer needed. -/
inductive Stage
  | fresh
  | using (nonce : ℕ)
  | ended
  deriving DecidableEq, Repr

def Phase.stage : Phase market → Stage
  | .blockNumber none => .fresh
  | .blockNumber (some nonce) => .using nonce
  | .template _ none _ => .fresh
  | .template _ (some nonce) _ => .using nonce
  | .populating tx _ => .using tx.nonce
  | .replacing broadcast _ => .using broadcast.tx.nonce
  | .capping tx => .using tx.nonce
  | .signing broadcast => .using broadcast.tx.nonce
  | .publishing broadcast => .using broadcast.tx.nonce
  | .waiting broadcast _ _ => .using broadcast.tx.nonce
  | .polling broadcast _ _ => .using broadcast.tx.nonce
  | .seeking _ _ => .ended
  | .resolved _ => .ended
  | .rejected _ => .ended

/-- The transaction that is signed and not yet answered by the node. -/
def Phase.outstanding : Phase market → Option (PopulatedTxn market)
  | .signing broadcast => some broadcast.tx
  | .publishing broadcast => some broadcast.tx
  | _ => none

def Broadcaster.outstanding (b : Broadcaster market) : Option (PopulatedTxn market) :=
  b.phase.outstanding

def Broadcaster.stage (b : Broadcaster market) : Stage := b.phase.stage

/-- An entry that neither signs nor accepts a transaction nor makes the nonce change. -/
def Entry.isSilent : Entry market → Bool
  | .signed .. | .accepted .. | .refused _ .nonceTooLow => false
  | _ => true

/-- The nonce that the run takes over with an answer: the transaction count of the node, or the
next one after a nonce that is too low. -/
def Broadcaster.assigned (b : Broadcaster market) : Answer market → Option ℕ
  | .transactionCount (.ok count) => some count
  | .signature (.error err) => next err
  | .sendRawTransaction response =>
    match rpcCall "eth_sendRawTransaction" response with
    | .error err => next err
    | .ok _ => none
  | _ => none
where
  next (err : String) : Option ℕ :=
    if stringToError err = .nonceTooLow then b.outstanding.map (·.nonce + 1) else none

/-- What one step does to the nonce, the journal and the outstanding transaction. -/
inductive Turn (b : Broadcaster market) : Answer market → Broadcaster market → Prop
  | assign (a : Answer market) (nonce : ℕ) (b' : Broadcaster market) (es : List (Entry market)) :
      b.stage = .fresh → b'.stage = .using nonce → b'.outstanding = none →
      b'.journal = b.journal ++ es → (∀ e ∈ es, e.isSilent = true) →
      b.assigned a = some nonce → Turn b a b'
  | stay (a : Answer market) (b' : Broadcaster market) (es : List (Entry market)) :
      b'.stage = b.stage → b'.outstanding = none → b'.journal = b.journal ++ es →
      (∀ e ∈ es, e.isSilent = true) → Turn b a b'
  | sign (a : Answer market) (b' : Broadcaster market)
      (broadcast : InitiatedBroadcastAttempt market) :
      b.stage = .using broadcast.tx.nonce → b'.phase = .signing broadcast →
      b'.journal = b.journal ++ [.signed broadcast.attempt broadcast.tx] → Turn b a b'
  | publish (a : Answer market) (b' : Broadcaster market)
      (broadcast : InitiatedBroadcastAttempt market) :
      b.phase = .signing broadcast → b'.phase = .publishing broadcast →
      b'.journal = b.journal → Turn b a b'
  | accept (response : RpcResponse String) (b' : Broadcaster market)
      (broadcast : InitiatedBroadcastAttempt market) (txHash : String) :
      b.phase = .publishing broadcast → b'.stage = .using broadcast.tx.nonce →
      b'.outstanding = none → rpcCall "eth_sendRawTransaction" response = .ok (some txHash) →
      b'.journal = b.journal ++ [.accepted broadcast.tx txHash] →
      Turn b (.sendRawTransaction response) b'
  | bump (a : Answer market) (b' : Broadcaster market) (tx : PopulatedTxn market) :
      b.outstanding = some tx → b'.stage = .using (tx.nonce + 1) → b'.outstanding = none →
      b'.journal = b.journal ++ [.refused tx .nonceTooLow] →
      b.assigned a = some (tx.nonce + 1) → Turn b a b'
  | finish (a : Answer market) (b' : Broadcaster market) (es : List (Entry market)) :
      b'.stage = .ended → b'.journal = b.journal ++ es → (∀ e ∈ es, e.isSilent = true) →
      Turn b a b'

theorem stage_of_outstanding {b : Broadcaster market} {tx : PopulatedTxn market}
    (h : b.outstanding = some tx) : b.stage = .using tx.nonce := by
  unfold Broadcaster.outstanding at h
  unfold Broadcaster.stage
  cases hp : b.phase <;> simp_all [Phase.outstanding, Phase.stage]

section Populating

variable {m : EvmFeeManager market} {tx : TransactionTemplate} {gasCategory : GasCategory}
  {fees : NodeFees market} {replaceTx : PopulatedTxn market}

@[simp] theorem populateTx_template :
    (m.populateTx tx gasCategory fees).toTransactionTemplate = tx := by
  cases fees <;> rfl

@[simp] theorem populateReplacementTx_template :
    (m.populateReplacementTx tx replaceTx gasCategory fees).toTransactionTemplate = tx := by
  obtain ⟨_, extension⟩ := replaceTx
  cases fees <;> cases extension <;> rfl

end Populating

namespace Broadcaster

variable {config : BroadcasterConfig market} {b b' : Broadcaster market} {a : Answer market}
  {tx : PopulatedTxn market} {err : String} {es : List (Entry market)}
  {broadcast : InitiatedBroadcastAttempt market}

@[simp] theorem await_stage {phase : Phase market} : (b.await phase).stage = phase.stage := rfl

@[simp] theorem await_journal {phase : Phase market} : (b.await phase).journal = b.journal := rfl

@[simp] theorem seekSuccessfulBroadcast_stage : (b.seekSuccessfulBroadcast err).stage = .ended := by
  unfold seekSuccessfulBroadcast; split <;> rfl

@[simp] theorem seekSuccessfulBroadcast_journal :
    (b.seekSuccessfulBroadcast err).journal = b.journal := by
  unfold seekSuccessfulBroadcast; split <;> rfl

@[simp] theorem fail_stage {useNonce : Option ℕ} : (b.fail useNonce err).stage = .ended := by
  unfold fail; split
  · exact seekSuccessfulBroadcast_stage
  · rfl

@[simp] theorem fail_journal {useNonce : Option ℕ} : (b.fail useNonce err).journal = b.journal := by
  unfold fail; split
  · exact seekSuccessfulBroadcast_journal
  · rfl

@[simp] theorem pushTransaction_stage {template : TransactionTemplate} :
    (b.pushTransaction config template).stage = .using template.nonce := rfl

@[simp] theorem pushTransaction_journal {template : TransactionTemplate} :
    (b.pushTransaction config template).journal =
      b.journal ++ [.feesRequested (config.feeManager.effectiveGasCategory none)] := rfl

@[simp] theorem pushReplacementTransaction_stage :
    (b.pushReplacementTransaction config broadcast).stage = .using broadcast.tx.nonce := rfl

/-- A priced transaction is signed, or the attempts are used up. -/
theorem turn_initiateBroadcast {b₀ : Broadcaster market} (hj : b.journal = b₀.journal)
    (hs : b₀.stage = .using tx.nonce) : Turn b₀ a (b.initiateBroadcast config tx) := by
  simp only [initiateBroadcast]
  split
  · exact .finish _ _ [] (by simp) (by simp [hj]) (by simp)
  · refine .sign _ _ ⟨tx, b.broadcasts.length + 1, none⟩ hs rfl ?_
    simp [emit, hj]

theorem turn_checkCappingAndPopulate {b₀ : Broadcaster market} {gasLimit : ℤ}
    (hj : b.journal = b₀.journal) (hs : b₀.stage = .using tx.nonce) :
    Turn b₀ a (b.checkCappingAndPopulate config tx gasLimit) := by
  unfold checkCappingAndPopulate
  split
  · exact .finish _ _ [] (by simp) (by simp [hj]) (by simp)
  · exact turn_initiateBroadcast hj hs

theorem turn_populated (hs : b.stage = .using tx.nonce) : Turn b a (b.populated config tx) := by
  unfold populated
  split
  · exact .stay _ _ [] (by simp [hs, Phase.stage]) rfl (by simp) (by simp)
  · exact turn_checkCappingAndPopulate rfl hs

theorem templateReady_stage {useNonce : Option ℕ} {nonce : ℕ} {gas : Option ℤ} :
    (b.templateReady config useNonce (some nonce) gas).stage = .using nonce := by
  cases gas <;> rfl

theorem templateReady_outstanding {useNonce nonce : Option ℕ} {gas : Option ℤ} :
    (b.templateReady config useNonce nonce gas).outstanding = none := by
  cases nonce <;> cases gas <;> rfl

theorem templateReady_journal {useNonce nonce : Option ℕ} {gas : Option ℤ} :
    ∃ es, (b.templateReady config useNonce nonce gas).journal = b.journal ++ es ∧
      ∀ e ∈ es, e.isSilent = true := by
  rcases nonce with _ | nonce
  · exact ⟨[], by simp [templateReady], by simp⟩
  · rcases gas with _ | gas
    · exact ⟨[], by simp [templateReady], by simp⟩
    · exact ⟨_, rfl, by simp [Entry.isSilent]⟩

theorem turn_handleBroadcastRejection (ho : b.outstanding = some broadcast.tx)
    (ha : b.assigned a = assigned.next b err) :
    Turn b a (b.handleBroadcastRejection config broadcast err) := by
  have hs := stage_of_outstanding ho
  unfold handleBroadcastRejection
  cases hc : stringToError err with
  | nonceTooLow => exact .bump _ _ broadcast.tx ho rfl rfl rfl (by simp [ha, assigned.next, hc, ho])
  | transactionUnderpriced =>
    exact .stay _ _ [.refused broadcast.tx .transactionUnderpriced, .feesRequested _]
      (by simp [hs]) rfl (by simp [emit, pushReplacementTransaction]; rfl)
      (by simp [Entry.isSilent])
  | stuck =>
    exact .stay _ _ [.refused broadcast.tx .stuck, .feesRequested _]
      (by simp [hs]) rfl (by simp [emit, pushReplacementTransaction]; rfl)
      (by simp [Entry.isSilent])
  | other =>
    exact .finish _ _ [.refused broadcast.tx .other] (by simp) (by simp [emit])
      (by simp [Entry.isSilent])

end Broadcaster

open Broadcaster

variable {config : BroadcasterConfig market} {b b' : Broadcaster market} {a : Answer market}

/-- Every step of a run is a turn. -/
theorem turn_of_step (h : broadcasterStep config b a = some b') : Turn b a b' := by
  have hfinish : ∀ {b'}, b'.stage = .ended → b'.journal = b.journal → Turn b a b' := by
    intro b' hs hj
    exact .finish _ _ [] hs (by simp [hj]) (by simp)
  cases a with
  | blockNumber answer =>
    simp only [broadcasterStep] at h
    split at h
    · rename_i useNonce _ hp
      obtain rfl := Option.some.inj h
      refine .stay _ _ [] ?_ rfl (by simp) (by simp)
      rw [await_stage, stage, hp]
      cases useNonce <;> rfl
    · obtain rfl := Option.some.inj h
      exact hfinish fail_stage fail_journal
    · cases h
  | transactionCount answer =>
    simp only [broadcasterStep] at h
    split at h
    · rename_i gas count hp
      obtain rfl := Option.some.inj h
      obtain ⟨es, hj, hes⟩ := @templateReady_journal _ config b none (some count) gas
      exact .assign _ count _ es (by rw [stage, hp]; rfl) templateReady_stage
        templateReady_outstanding hj hes rfl
    · obtain rfl := Option.some.inj h
      exact hfinish fail_stage fail_journal
    · cases h
  | estimateGas answer =>
    simp only [broadcasterStep] at h
    split at h
    · rename_i useNonce nonce gas hp
      obtain rfl := Option.some.inj h
      obtain ⟨es, hj, hes⟩ := @templateReady_journal _ config b useNonce nonce
        (some (config.feeManager.estimateTx gas))
      refine .stay _ _ es ?_ templateReady_outstanding hj hes
      rw [stage, stage, hp]
      cases nonce <;> rfl
    · obtain rfl := Option.some.inj h
      exact hfinish fail_stage fail_journal
    · rename_i tx gas hp
      obtain rfl := Option.some.inj h
      exact turn_checkCappingAndPopulate rfl (by rw [stage, hp]; rfl)
    · obtain rfl := Option.some.inj h
      exact hfinish seekSuccessfulBroadcast_stage seekSuccessfulBroadcast_journal
    · cases h
  | fees answer =>
    simp only [broadcasterStep] at h
    split at h
    · rename_i template gasCategory fees hp
      obtain rfl := Option.some.inj h
      apply turn_populated
      rw [stage, hp, populateTx_template]
      rfl
    · rename_i broadcast gasCategory fees hp
      obtain rfl := Option.some.inj h
      apply turn_populated
      rw [stage, hp, populateReplacementTx_template]
      rfl
    · obtain rfl := Option.some.inj h
      exact hfinish seekSuccessfulBroadcast_stage seekSuccessfulBroadcast_journal
    · obtain rfl := Option.some.inj h
      exact hfinish seekSuccessfulBroadcast_stage seekSuccessfulBroadcast_journal
    · cases h
  | signature answer =>
    simp only [broadcasterStep] at h
    split at h
    · rename_i broadcast _ hp
      obtain rfl := Option.some.inj h
      exact .publish _ _ broadcast hp rfl rfl
    · rename_i broadcast err hp
      obtain rfl := Option.some.inj h
      exact turn_handleBroadcastRejection (by rw [outstanding, hp]; rfl) rfl
    · cases h
  | sendRawTransaction response =>
    simp only [broadcasterStep] at h
    split at h
    · rename_i broadcast hp
      have ho : b.outstanding = some broadcast.tx := by rw [outstanding, hp]; rfl
      split at h
      · rename_i err hrpc
        obtain rfl := Option.some.inj h
        exact turn_handleBroadcastRejection ho (by simp only [assigned, hrpc])
      · rename_i txHash hrpc
        split at h
        · rename_i hash hh
          obtain rfl := Option.some.inj h
          obtain ⟨rfl, -⟩ := Option.filter_eq_some_iff.mp hh
          refine .accept _ _ broadcast hash hp ?_ ?_ hrpc ?_
          · unfold handleBroadcastSuccess; dsimp only; split <;> rfl
          · unfold handleBroadcastSuccess; dsimp only; split <;> rfl
          · unfold handleBroadcastSuccess; dsimp only; split <;> rfl
        · obtain rfl := Option.some.inj h
          apply turn_handleBroadcastRejection ho
          have hc : stringToError "Error: publishing returned empty result" = .other := by
            decide +kernel
          simp [assigned, hrpc, assigned.next, hc]
    · cases h
  | timeout =>
    simp only [broadcasterStep] at h
    split at h
    · rename_i broadcast txHash pollingAttempt hp
      obtain rfl := Option.some.inj h
      exact .stay _ _ [] (by rw [await_stage, stage, hp]; rfl) rfl (by simp) (by simp)
    · cases h
  | receipt response =>
    simp only [broadcasterStep] at h
    split at h
    · rename_i broadcast txHash pollingAttempt hp
      have hs : b.stage = .using broadcast.tx.nonce := by rw [stage, hp]; rfl
      split at h
      · obtain rfl := Option.some.inj h
        exact .finish _ _ [.polled _ _] rfl rfl (by simp [Entry.isSilent])
      · obtain rfl := Option.some.inj h
        unfold scheduleNextPoll
        split
        · exact .stay _ _ [.polled _ _, .feesRequested _] (by simp [hs]) rfl
            (by simp [emit, pushReplacementTransaction]; exact ⟨⟨rfl, rfl⟩, rfl⟩)
            (by simp [Entry.isSilent])
        · exact .stay _ _ [.polled _ _] (by rw [hs]; rfl) rfl rfl (by simp [Entry.isSilent])
    · cases h
  | receipts responses =>
    simp only [broadcasterStep] at h
    split at h
    · rename_i previousError hashes hp
      split at h
      · obtain rfl := Option.some.inj h
        refine .finish _ _ _ ?_ rfl ?_
        · change (selectReceipt _ _).stage = .ended
          unfold selectReceipt; dsimp only; repeat' split
          all_goals rfl
        · intro e he
          obtain ⟨_, _, rfl⟩ := List.mem_map.mp he
          rfl
      · cases h
    · cases h

/-- A step keeps the nonce, gives it up, or takes over the assigned one. -/
theorem Turn.stage_cases (h : Turn b a b') : b'.stage = b.stage ∨ b'.stage = .ended ∨
    ∃ nonce, b.assigned a = some nonce ∧ b'.stage = .using nonce := by
  cases h with
  | assign _ nonce _ es _ hs _ _ _ ha => exact .inr (.inr ⟨nonce, ha, hs⟩)
  | stay _ _ es hs => exact .inl hs
  | sign _ _ broadcast hs hp => exact .inl (by rw [hs, stage, hp]; rfl)
  | publish _ _ broadcast hp hp' => exact .inl (by rw [stage, stage, hp, hp']; rfl)
  | accept _ _ broadcast txHash hp hs => exact .inl (by rw [hs, stage, hp]; rfl)
  | bump _ _ tx _ hs _ _ ha => exact .inr (.inr ⟨_, ha, hs⟩)
  | finish _ _ es hs => exact .inr (.inl hs)

end Evm

end DlnTaker
