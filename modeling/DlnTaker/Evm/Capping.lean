import Mathlib.Algebra.Order.Ring.Int
import DlnTaker.Evm.Moves

/-! # What a transaction may cost

Every transaction that is handed to the signer has been priced and checked
against the cap in the same step. The bound is kept through replacements and
changes of the nonce, since each of them prices the transaction anew.
-/

namespace DlnTaker

namespace Evm

variable {market : FeeMarket}

section Arithmetic

variable {values : List ℤ} {value acc amount : ℤ} {multiplier : ℚ}

theorem le_foldl_max : acc ≤ values.foldl (fun max curr => if curr > max then curr else max) acc ∧
    ∀ v ∈ values, v ≤ values.foldl (fun max curr => if curr > max then curr else max) acc := by
  induction values generalizing acc with
  | nil => simp
  | cons v values ih =>
    obtain ⟨hacc, hle⟩ := @ih (if v > acc then v else acc)
    have hv : v ≤ (if v > acc then v else acc) ∧ acc ≤ (if v > acc then v else acc) := by
      split <;> omega
    refine ⟨hv.2.trans hacc, fun w hw => ?_⟩
    rcases List.mem_cons.mp hw with rfl | hw
    · exact hv.1.trans hacc
    · exact hle w hw

theorem le_findMaxBigInt (h : value ∈ values) : value ≤ findMaxBigInt values := le_foldl_max.2 _ h

theorem findMaxBigInt_nonneg : 0 ≤ findMaxBigInt values := le_foldl_max.1

theorem multiplied_nonneg (ha : 0 ≤ amount) (hm : 0 ≤ safeIntToBigInt (multiplier * 10000)) :
    0 ≤ multiplied amount multiplier :=
  Int.tdiv_nonneg (Int.mul_nonneg ha hm) (by norm_num)

/-- Truncation is rounding down unless the product is negative. -/
theorem multiplied_le (ha : 0 ≤ amount) :
    multiplied amount multiplier ≤
      max amount (amount * safeIntToBigInt (multiplier * 10000) / 10000) := by
  unfold multiplied
  rcases le_or_gt 0 (amount * safeIntToBigInt (multiplier * 10000)) with h | h
  · rw [Int.tdiv_eq_ediv_of_nonneg h]
    exact le_max_right _ _
  · have hneg := Int.tdiv_nonneg (Int.neg_nonneg_of_nonpos h.le) (by norm_num : (0 : ℤ) ≤ 10000)
    rw [Int.neg_tdiv] at hneg
    exact le_max_of_le_left (by omega)

end Arithmetic

/-- The cap for what a transaction may cost. -/
def EvmFeeManagerOpts.feeBound (opts : EvmFeeManagerOpts) (cappedFee : ℤ) : ℤ :=
  if opts.overcappingAllowed then
    max cappedFee (cappedFee * safeIntToBigInt (opts.overcappingAllowance * 10000) / 10000)
  else cappedFee

/-- The fee of the transaction is within the cap, if there is a positive one. -/
def WithinCap (config : BroadcasterConfig market) (tx : PopulatedTxn market) : Prop :=
  ∀ cappedFee, config.cappedFee = some cappedFee → 0 < cappedFee →
    tx.gas * tx.extension.price ≤ config.feeManager.opts.feeBound cappedFee

/-- The transaction carries what the input transaction does. -/
structure SamePayload (config : BroadcasterConfig market) (tx : TransactionTemplate) : Prop where
  from_eq : tx.from = config.inputTx.from
  to_eq : tx.to = config.inputTx.to
  data_eq : tx.data = config.inputTx.data
  value_eq : tx.value = config.inputTx.value

/-- The priority fee is part of the maximal fee. -/
def GasExtension.Prioritized : GasExtension market → Prop
  | legacy _ => True
  | eip1559 maxPriorityFeePerGas maxFeePerGas => maxPriorityFeePerGas ≤ maxFeePerGas

/-- The multipliers of the base fee that a broadcast uses are not negative. -/
def EvmFeeManager.NonnegativeBase (m : EvmFeeManager market) : Prop :=
  ∀ gasCategory, gasCategory ≠ .projected →
    0 ≤ safeIntToBigInt (m.baseFeeMultiplier gasCategory * 10000)

/-- What holds of every transaction handed to the signer. -/
structure Affordable (config : BroadcasterConfig market) (tx : PopulatedTxn market) : Prop where
  withinCap : WithinCap config tx
  samePayload : SamePayload config tx.toTransactionTemplate
  prioritized : config.feeManager.NonnegativeBase → tx.extension.Prioritized

namespace EvmFeeManager

variable {m : EvmFeeManager market} {tx : TransactionTemplate} {replaceTx : PopulatedTxn market}
  {gasCategory : GasCategory} {fees : NodeFees market} {gasLimit gasPrice cappedFee : ℤ}

theorem effectiveGasCategory_ne {desired : Option GasCategory} (h : desired ≠ some .projected) :
    m.effectiveGasCategory desired ≠ .projected := by
  unfold effectiveGasCategory
  cases desired with
  | none =>
    simp only [Option.getD_none]
    split <;> split <;> simp
  | some desired => simpa using h

theorem baseFee_nonneg (history : FeeHistory) (hm : m.NonnegativeBase)
    (hc : gasCategory ≠ .projected) : 0 ≤ (m.feeFetcher gasCategory history).baseFee :=
  multiplied_nonneg findMaxBigInt_nonneg (hm gasCategory hc)

theorem prioritized_populateTx (hm : m.NonnegativeBase) (hc : gasCategory ≠ .projected) :
    (m.populateTx tx gasCategory fees).extension.Prioritized := by
  cases fees with
  | gasPrice gasPrice => trivial
  | feeHistory history =>
    have hb := baseFee_nonneg history hm hc
    change (m.feeFetcher gasCategory history).maxPriorityFeePerGas ≤
      (m.feeFetcher gasCategory history).baseFee +
        (m.feeFetcher gasCategory history).maxPriorityFeePerGas
    omega

theorem prioritized_populateReplacementTx (hm : m.NonnegativeBase) (hc : gasCategory ≠ .projected) :
    (m.populateReplacementTx tx replaceTx gasCategory fees).extension.Prioritized := by
  obtain ⟨replaced, extension⟩ := replaceTx
  cases fees with
  | gasPrice gasPrice =>
    cases extension
    trivial
  | feeHistory history =>
    cases extension with
    | eip1559 replacedPriority replacedMax =>
      have hb := baseFee_nonneg history hm hc
      refine le_trans ?_ (le_findMaxBigInt List.mem_cons_self)
      omega

/-- The check lets no fee pass that exceeds the bound. -/
theorem le_feeBound (h : m.checkCapping gasLimit gasPrice (some cappedFee) = .ok ())
    (hpos : 0 < cappedFee) : gasPrice * gasLimit ≤ m.opts.feeBound cappedFee := by
  have heff : effectiveCap (some cappedFee) = some cappedFee := by simp [effectiveCap, hpos]
  simp only [checkCapping, heff] at h
  unfold EvmFeeManagerOpts.feeBound
  split at h
  · split at h
    · cases h
    · rename_i hallowed
      split at h
      · cases h
      · rename_i hle
        rw [if_pos (by simpa using hallowed)]
        exact (not_lt.mp hle).trans (multiplied_le hpos.le)
  · rename_i hle
    split
    · exact le_max_of_le_left (not_lt.mp hle)
    · exact not_lt.mp hle

end EvmFeeManager

/-- What holds of the transaction that a phase works with. -/
def Phase.Sane (config : BroadcasterConfig market) : Phase market → Prop
  | .populating tx gasCategory => SamePayload config tx ∧ gasCategory ≠ .projected
  | .replacing broadcast gasCategory =>
      SamePayload config broadcast.tx.toTransactionTemplate ∧ gasCategory ≠ .projected
  | .capping tx => SamePayload config tx.toTransactionTemplate ∧ tx.gas = 0 ∧
      (config.feeManager.NonnegativeBase → tx.extension.Prioritized)
  | .signing broadcast | .publishing broadcast | .waiting broadcast _ _ | .polling broadcast _ _ =>
      SamePayload config broadcast.tx.toTransactionTemplate
  | _ => True

/-- Holds in every reachable state. -/
structure Frugal (config : BroadcasterConfig market) (b : Broadcaster market) : Prop where
  signed : ∀ attempt tx, .signed attempt tx ∈ b.journal → Affordable config tx
  phase : b.phase.Sane config

namespace Frugal

open Broadcaster

variable {config : BroadcasterConfig market} {b b' : Broadcaster market}
  {tx : PopulatedTxn market} {broadcast : InitiatedBroadcastAttempt market} {err : String}

theorem initial : Frugal config .initial where
  signed _ _ h := by simp [Broadcaster.initial] at h
  phase := trivial

/-- Nothing is signed. -/
theorem congr (hf : Frugal config b) (es : List (Entry market))
    (hj : b'.journal = b.journal ++ es) (hes : ∀ attempt tx, .signed attempt tx ∉ es)
    (hp : b'.phase.Sane config) : Frugal config b' where
  signed attempt tx hm := by
    rw [hj] at hm
    exact hf.signed attempt tx ((List.mem_append.mp hm).resolve_right (hes attempt tx))
  phase := hp

theorem await (hf : Frugal config b) {phase : Phase market} (hp : phase.Sane config) :
    Frugal config (b.await phase) := hf.congr [] (by simp) (by simp) hp

theorem emit (hf : Frugal config b) {e : Entry market} (he : ∀ attempt tx, e ≠ .signed attempt tx) :
    Frugal config (b.emit e) :=
  hf.congr [e] rfl (fun attempt tx hm => he attempt tx (List.mem_singleton.mp hm).symm) hf.phase

theorem seek (hf : Frugal config b) : Frugal config (b.seekSuccessfulBroadcast err) := by
  refine hf.congr [] (by simp) (by simp) ?_
  unfold seekSuccessfulBroadcast
  split <;> trivial

theorem initiateBroadcast (hf : Frugal config b) (ha : Affordable config tx) :
    Frugal config (b.initiateBroadcast config tx) := by
  simp only [Broadcaster.initiateBroadcast]
  split
  · exact hf.seek
  · constructor
    · intro attempt tx' hm
      rcases List.mem_append.mp hm with hm | hm
      · exact hf.signed attempt tx' hm
      · obtain ⟨-, rfl⟩ := Entry.signed.inj (List.mem_singleton.mp hm)
        exact ha
    · exact ha.samePayload

/-- The gas limit that is checked is that of the transaction, unless it has none. -/
theorem checkCappingAndPopulate (hf : Frugal config b) {gasLimit : ℤ}
    (hg : tx.gas = 0 ∨ gasLimit = tx.gas) (hs : SamePayload config tx.toTransactionTemplate)
    (hp : config.feeManager.NonnegativeBase → tx.extension.Prioritized) :
    Frugal config (b.checkCappingAndPopulate config tx gasLimit) := by
  unfold Broadcaster.checkCappingAndPopulate
  split
  · exact hf.seek
  · rename_i hok
    refine hf.initiateBroadcast ⟨fun cappedFee hcap hpos => ?_, hs, hp⟩
    rw [hcap] at hok
    have hle := EvmFeeManager.le_feeBound hok hpos
    rcases hg with hg | hg
    · rw [hg, zero_mul]
      unfold EvmFeeManagerOpts.feeBound
      split
      · exact le_max_of_le_left hpos.le
      · exact hpos.le
    · rwa [hg, mul_comm] at hle

theorem populated (hf : Frugal config b) (hs : SamePayload config tx.toTransactionTemplate)
    (hp : config.feeManager.NonnegativeBase → tx.extension.Prioritized) :
    Frugal config (b.populated config tx) := by
  unfold Broadcaster.populated
  split
  · rename_i h
    exact hf.await ⟨hs, h.2, hp⟩
  · exact hf.checkCappingAndPopulate (.inr rfl) hs hp

theorem templateReady (hf : Frugal config b) {useNonce nonce : Option ℕ} {gas : Option ℤ} :
    Frugal config (b.templateReady config useNonce nonce gas) := by
  unfold Broadcaster.templateReady
  split
  · refine (hf.emit (by simp)).await ⟨⟨rfl, rfl, rfl, rfl⟩, ?_⟩
    exact EvmFeeManager.effectiveGasCategory_ne (by simp)
  · exact hf.await trivial

theorem pushReplacementTransaction (hf : Frugal config b)
    (hs : SamePayload config broadcast.tx.toTransactionTemplate) :
    Frugal config (b.pushReplacementTransaction config broadcast) := by
  refine (hf.emit (by simp)).await ⟨hs, EvmFeeManager.effectiveGasCategory_ne ?_⟩
  split <;> simp

theorem handleBroadcastRejection (hf : Frugal config b)
    (hs : SamePayload config broadcast.tx.toTransactionTemplate) :
    Frugal config (b.handleBroadcastRejection config broadcast err) := by
  have hf' := hf.emit (e := .refused broadcast.tx (stringToError err)) (by simp)
  simp only [Broadcaster.handleBroadcastRejection]
  split
  · exact hf'.await trivial
  · exact hf'.pushReplacementTransaction hs
  · exact hf'.pushReplacementTransaction hs
  · exact hf'.seek

theorem move (hf : Frugal config b) (h : Move config b b') : Frugal config b' := by
  have hsane := hf.phase
  cases h with
  | located useNonce hp => exact hf.await trivial
  | counted gas count hp => exact hf.templateReady
  | estimated useNonce nonce gas hp => exact hf.templateReady
  | failed useNonce err hp =>
    unfold fail
    split
    · exact hf.seek
    · exact hf.await trivial
  | populated template gasCategory fees hp =>
    rw [hp] at hsane
    refine hf.populated ?_ fun hm => EvmFeeManager.prioritized_populateTx hm hsane.2
    rw [populateTx_template]
    exact hsane.1
  | replaced broadcast gasCategory fees hp =>
    rw [hp] at hsane
    refine hf.populated ?_ fun hm => EvmFeeManager.prioritized_populateReplacementTx hm hsane.2
    rw [populateReplacementTx_template]
    exact hsane.1
  | capped tx gas hp =>
    rw [hp] at hsane
    exact hf.checkCappingAndPopulate (.inl hsane.2.1) hsane.1 hsane.2.2
  | unpriced err hp => exact hf.seek
  | publish broadcast hp =>
    rw [hp] at hsane
    exact hf.await hsane
  | refused broadcast err hp =>
    refine hf.handleBroadcastRejection ?_
    rcases hp with hp | hp
    · rw [hp] at hsane
      exact hsane
    · rw [hp] at hsane
      exact hsane
  | accepted broadcast txHash hp =>
    rw [hp] at hsane
    refine hf.congr [.accepted broadcast.tx txHash] ?_ (by simp) ?_
    · simp only [handleBroadcastSuccess]
      split <;> rfl
    · simp only [handleBroadcastSuccess]
      split <;> exact hsane
  | timeout broadcast txHash pollingAttempt hp =>
    rw [hp] at hsane
    exact hf.await hsane
  | found broadcast txHash pollingAttempt receipt hp => exact (hf.emit (by simp)).await trivial
  | missing broadcast txHash pollingAttempt err hp =>
    rw [hp] at hsane
    have hf' := hf.emit (e := .polled txHash (.error err)) (by simp)
    unfold scheduleNextPoll
    split
    · exact hf'.pushReplacementTransaction hsane
    · exact hf'.await hsane
  | sought previousError hashes receipts hp hlen =>
    refine hf.congr _ rfl (by simp) ?_
    simp only [selectReceipt]
    repeat' split
    all_goals trivial

end Frugal

variable {config : BroadcasterConfig market} {b : Broadcaster market} {t : List (Answer market)}
  {attempt : ℕ} {tx : PopulatedTxn market}

/-- A transaction that is handed to the signer is within the cap and carries the payload of the
run; its priority fee is part of its maximal fee if the base fee is not multiplied by a negative
number. -/
theorem signed_affordable (h : (broadcaster config).Run t b)
    (hs : .signed attempt tx ∈ b.journal) : Affordable config tx := by
  have hf : Frugal config b :=
    h.invariant .initial fun _ _ _ hf hstep => hf.move (move_of_step hstep)
  exact hf.signed attempt tx hs

namespace Sample

/-- A fee of 110 for each of 23100 units of gas is allowed by the cap. -/
def capped : BroadcasterConfig .legacy := { Sample.config with cappedFee := some 1000000 }

/-- The base fee is multiplied by a negative number. -/
def negativeBase : BroadcasterConfig .eip1559 where
  inputTx := ⟨"0x1", "0x", "0x2", none⟩
  cappedFee := some 1000000
  feeManager := ⟨{ defaultFeeManagerOpts with eip1559BaseFeeNormalMultiplier := -1 }⟩
  opts := ⟨4, 1⟩
  pollImmediately := false

/-- Up to the signature of the first transaction of an EIP-1559 chain. -/
def signed1559 : List (Answer .eip1559) :=
  [.blockNumber (.ok 1), .transactionCount (.ok 5), .estimateGas (.ok 21000),
    .fees (.ok (.feeHistory ⟨[10], [100, 100]⟩)), .signature (.ok "0x")]

end Sample

/-- The fee of 2541000 exceeds the cap, but not three times the cap. -/
theorem signed_affordable_overcapped : ∃ (b : Broadcaster .legacy) (tx : PopulatedTxn .legacy),
    (broadcaster Sample.capped).Run Sample.signed b ∧ .signed 1 tx ∈ b.journal ∧
    tx.gas * tx.extension.price = 2541000 ∧ Affordable Sample.capped tx := by
  obtain ⟨b, hr, hp⟩ := Machine.exists_run_of_any (M := broadcaster Sample.capped)
    (t := Sample.signed) (p := fun b : Broadcaster .legacy => b.journal.any fun e =>
      decide (e = Entry.signed 1 ⟨⟨"0x1", "0x2", "0x", none, 23100, 5⟩, .legacy 110⟩))
    (by decide +kernel)
  obtain ⟨e, hm, he⟩ := List.any_eq_true.mp hp
  obtain rfl := of_decide_eq_true he
  exact ⟨b, _, hr, hm, by decide, signed_affordable hr hm⟩

/-- With a negative multiplier the priority fee exceeds the maximal fee. -/
theorem priority_exceeds_maximum : ∃ (b : Broadcaster .eip1559) (tx : PopulatedTxn .eip1559),
    (broadcaster Sample.negativeBase).Run Sample.signed1559 b ∧ .signed 1 tx ∈ b.journal ∧
    tx.extension = .eip1559 10 (-90) ∧ ¬ tx.extension.Prioritized := by
  obtain ⟨b, hr, hp⟩ := Machine.exists_run_of_any (M := broadcaster Sample.negativeBase)
    (t := Sample.signed1559) (p := fun b : Broadcaster .eip1559 => b.journal.any fun e =>
      decide (e = Entry.signed 1 ⟨⟨"0x1", "0x2", "0x", none, 23100, 5⟩, .eip1559 10 (-90)⟩))
    (by decide +kernel)
  obtain ⟨e, hm, he⟩ := List.any_eq_true.mp hp
  obtain rfl := of_decide_eq_true he
  refine ⟨b, _, hr, hm, rfl, fun h => ?_⟩
  have hle : (10 : ℤ) ≤ -90 := h
  omega

end Evm

end DlnTaker
