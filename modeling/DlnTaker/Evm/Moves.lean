import DlnTaker.Evm.Nonces

/-! # The moves of a broadcast

`Move` lists everything a step of a run does, each case with the phase it starts
from and the function of the broadcaster that makes the next state. Facts about
whole runs are proved by going through these cases once.
-/

namespace DlnTaker

namespace Evm

variable {market : FeeMarket}

open Broadcaster

/-- The effects of a step, by the phase it is taken in. -/
inductive Move (config : BroadcasterConfig market) (b : Broadcaster market) :
    Broadcaster market → Prop
  | located (useNonce : Option ℕ) :
      b.phase = .blockNumber useNonce → Move config b (b.await (.template useNonce useNonce none))
  | counted (gas : Option ℤ) (count : ℕ) :
      b.phase = .template none none gas →
      Move config b (b.templateReady config none (some count) gas)
  | estimated (useNonce nonce : Option ℕ) (gas : ℕ) :
      b.phase = .template useNonce nonce none →
      Move config b
        (b.templateReady config useNonce nonce (some (config.feeManager.estimateTx gas)))
  | failed (useNonce : Option ℕ) (err : String) :
      (b.phase = .blockNumber useNonce ∨ ∃ nonce gas, b.phase = .template useNonce nonce gas) →
      Move config b (b.fail useNonce err)
  | populated (template : TransactionTemplate) (gasCategory : GasCategory)
      (fees : NodeFees market) :
      b.phase = .populating template gasCategory →
      Move config b (b.populated config (config.feeManager.populateTx template gasCategory fees))
  | replaced (broadcast : InitiatedBroadcastAttempt market) (gasCategory : GasCategory)
      (fees : NodeFees market) :
      b.phase = .replacing broadcast gasCategory →
      Move config b (b.populated config (config.feeManager.populateReplacementTx
        broadcast.tx.toTransactionTemplate broadcast.tx gasCategory fees))
  | capped (tx : PopulatedTxn market) (gas : ℕ) :
      b.phase = .capping tx →
      Move config b (b.checkCappingAndPopulate config tx (config.feeManager.estimateTx gas))
  | unpriced (err : String) :
      ((∃ template gasCategory, b.phase = .populating template gasCategory) ∨
        (∃ broadcast gasCategory, b.phase = .replacing broadcast gasCategory) ∨
        ∃ tx, b.phase = .capping tx) →
      Move config b (b.seekSuccessfulBroadcast err)
  | publish (broadcast : InitiatedBroadcastAttempt market) :
      b.phase = .signing broadcast → Move config b (b.await (.publishing broadcast))
  | refused (broadcast : InitiatedBroadcastAttempt market) (err : String) :
      (b.phase = .signing broadcast ∨ b.phase = .publishing broadcast) →
      Move config b (b.handleBroadcastRejection config broadcast err)
  | accepted (broadcast : InitiatedBroadcastAttempt market) (txHash : String) :
      b.phase = .publishing broadcast →
      Move config b (b.handleBroadcastSuccess config broadcast txHash)
  | timeout (broadcast : InitiatedBroadcastAttempt market) (txHash : String)
      (pollingAttempt : ℕ) :
      b.phase = .waiting broadcast txHash pollingAttempt →
      Move config b (b.await (.polling broadcast txHash (pollingAttempt + 1)))
  | found (broadcast : InitiatedBroadcastAttempt market) (txHash : String) (pollingAttempt : ℕ)
      (receipt : TransactionReceipt) :
      b.phase = .polling broadcast txHash pollingAttempt →
      Move config b ((b.emit (.polled txHash (.ok receipt))).await (.resolved receipt))
  | missing (broadcast : InitiatedBroadcastAttempt market) (txHash : String) (pollingAttempt : ℕ)
      (err : String) :
      b.phase = .polling broadcast txHash pollingAttempt →
      Move config b ((b.emit (.polled txHash (.error err))).scheduleNextPoll config broadcast
        txHash pollingAttempt)
  | sought (previousError : String) (hashes : List String)
      (receipts : List (Except String TransactionReceipt)) :
      b.phase = .seeking previousError hashes → receipts.length = hashes.length →
      Move config b { b with
        phase := selectReceipt previousError receipts
        journal := b.journal ++
          (hashes.zip receipts).map fun x => Entry.sought x.1 x.2 }

variable {config : BroadcasterConfig market} {b b' : Broadcaster market} {a : Answer market}

theorem move_of_step (h : broadcasterStep config b a = some b') : Move config b b' := by
  cases a with
  | blockNumber answer =>
    simp only [broadcasterStep] at h
    split at h
    · rename_i useNonce _ hp
      obtain rfl := Option.some.inj h
      exact .located useNonce hp
    · rename_i useNonce err hp
      obtain rfl := Option.some.inj h
      exact .failed useNonce err (.inl hp)
    · cases h
  | transactionCount answer =>
    simp only [broadcasterStep] at h
    split at h
    · rename_i gas count hp
      obtain rfl := Option.some.inj h
      exact .counted gas count hp
    · rename_i gas err hp
      obtain rfl := Option.some.inj h
      exact .failed none err (.inr ⟨_, _, hp⟩)
    · cases h
  | estimateGas answer =>
    simp only [broadcasterStep] at h
    split at h
    · rename_i useNonce nonce gas hp
      obtain rfl := Option.some.inj h
      exact .estimated useNonce nonce gas hp
    · rename_i useNonce nonce err hp
      obtain rfl := Option.some.inj h
      exact .failed useNonce err (.inr ⟨_, _, hp⟩)
    · rename_i tx gas hp
      obtain rfl := Option.some.inj h
      exact .capped tx gas hp
    · rename_i tx err hp
      obtain rfl := Option.some.inj h
      exact .unpriced err (.inr (.inr ⟨tx, hp⟩))
    · cases h
  | fees answer =>
    simp only [broadcasterStep] at h
    split at h
    · rename_i template gasCategory fees hp
      obtain rfl := Option.some.inj h
      exact .populated template gasCategory fees hp
    · rename_i broadcast gasCategory fees hp
      obtain rfl := Option.some.inj h
      exact .replaced broadcast gasCategory fees hp
    · rename_i template gasCategory err hp
      obtain rfl := Option.some.inj h
      exact .unpriced err (.inl ⟨template, gasCategory, hp⟩)
    · rename_i broadcast gasCategory err hp
      obtain rfl := Option.some.inj h
      exact .unpriced err (.inr (.inl ⟨broadcast, gasCategory, hp⟩))
    · cases h
  | signature answer =>
    simp only [broadcasterStep] at h
    split at h
    · rename_i broadcast _ hp
      obtain rfl := Option.some.inj h
      exact .publish broadcast hp
    · rename_i broadcast err hp
      obtain rfl := Option.some.inj h
      exact .refused broadcast err (.inl hp)
    · cases h
  | sendRawTransaction response =>
    simp only [broadcasterStep] at h
    split at h
    · rename_i broadcast hp
      split at h
      · rename_i err hrpc
        obtain rfl := Option.some.inj h
        exact .refused broadcast err (.inr hp)
      · split at h
        · rename_i txHash hh
          obtain rfl := Option.some.inj h
          exact .accepted broadcast txHash hp
        · obtain rfl := Option.some.inj h
          exact .refused broadcast _ (.inr hp)
    · cases h
  | timeout =>
    simp only [broadcasterStep] at h
    split at h
    · rename_i broadcast txHash pollingAttempt hp
      obtain rfl := Option.some.inj h
      exact .timeout broadcast txHash pollingAttempt hp
    · cases h
  | receipt response =>
    simp only [broadcasterStep] at h
    split at h
    · rename_i broadcast txHash pollingAttempt hp
      split at h
      · rename_i receipt hr
        obtain rfl := Option.some.inj h
        rw [hr]
        exact .found broadcast txHash pollingAttempt receipt hp
      · rename_i err hr
        obtain rfl := Option.some.inj h
        rw [hr]
        exact .missing broadcast txHash pollingAttempt err hp
    · cases h
  | receipts responses =>
    simp only [broadcasterStep] at h
    split at h
    · rename_i previousError hashes hp
      split at h
      · rename_i hlen
        obtain rfl := Option.some.inj h
        exact .sought previousError hashes _ hp (by simp [hlen])
      · cases h
    · cases h

end Evm

end DlnTaker
