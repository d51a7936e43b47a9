import Mathlib.Algebra.Order.Field.Rat
import Mathlib.Tactic.GCongr
import Mathlib.Tactic.Linarith
import Mathlib.Tactic.Positivity
import DlnTaker.Evm.Replacement

/-! # The escalation of fees

A replacement pays the fetched fee or the replaced one times the bumper,
whichever is more. As long as the fetched fees stay within bounds, the price of
the `n`-th attempt is within the bounds times the bumper to the power `n - 1`,
with or without a cap, whatever the node answers.
-/

namespace DlnTaker

namespace Evm

variable {market : FeeMarket}

/-- A fetched base fee, or gas price, and a fetched tip are within the bounds. -/
def FetchedFee.Within (base tip : ℚ) : FetchedFee market → Prop
  | legacy gasPrice => gasPrice ≤ base
  | eip1559 fee => fee.baseFee ≤ base ∧ fee.maxPriorityFeePerGas ≤ tip

instance {base tip : ℚ} : DecidablePred (@FetchedFee.Within market base tip)
  | .legacy gasPrice => inferInstanceAs (Decidable ((gasPrice : ℚ) ≤ base))
  | .eip1559 fee =>
    inferInstanceAs (Decidable ((fee.baseFee : ℚ) ≤ base ∧ (fee.maxPriorityFeePerGas : ℚ) ≤ tip))

/-- The fees of a transaction are within the bounds, times a factor. -/
def GasExtension.Within (base tip factor : ℚ) : GasExtension market → Prop
  | legacy gasPrice => gasPrice ≤ base * factor
  | eip1559 maxPriorityFeePerGas maxFeePerGas =>
      maxPriorityFeePerGas ≤ tip * factor ∧ maxFeePerGas ≤ (base + tip) * factor

/-- What a replacement multiplies the replaced fees by. -/
def EvmFeeManager.bumpRatio (m : EvmFeeManager market) : ℚ := m.bumperNumerator / 10000

section Arithmetic

variable {amount a b : ℤ} {multiplier bound base tip factor factor' : ℚ}
  {m : EvmFeeManager market} {tx : TransactionTemplate} {replaceTx : PopulatedTxn market}
  {fetched : FetchedFee market} {extension : GasExtension market} {gasCategory : GasCategory}
  {fees : NodeFees market}

/-- Truncation never rounds above a nonnegative bound. -/
theorem multiplied_le_mul (h : (amount : ℚ) ≤ bound) (hb : 0 ≤ bound)
    (hm : 0 ≤ safeIntToBigInt (multiplier * 10000)) :
    (multiplied amount multiplier : ℚ) ≤
      bound * (safeIntToBigInt (multiplier * 10000) / 10000) := by
  unfold multiplied
  generalize safeIntToBigInt (multiplier * 10000) = n at hm ⊢
  have hn : (0 : ℚ) ≤ n := by exact_mod_cast hm
  rcases le_or_gt 0 (amount * n) with hpos | hneg
  · rw [Int.tdiv_eq_ediv_of_nonneg hpos]
    have hdiv : ((amount * n / 10000 : ℤ) : ℚ) ≤ ((amount * n : ℤ) : ℚ) / 10000 := by
      rw [le_div_iff₀ (by norm_num)]
      exact_mod_cast Int.ediv_mul_le (amount * n) (by norm_num)
    calc ((amount * n / 10000 : ℤ) : ℚ) ≤ ((amount * n : ℤ) : ℚ) / 10000 := hdiv
      _ = amount * (n / 10000) := by push_cast; ring
      _ ≤ bound * (n / 10000) := by gcongr
  · have hle : (amount * n).tdiv 10000 ≤ 0 := by
      have h := Int.tdiv_nonneg (Int.neg_nonneg_of_nonpos hneg.le) (by norm_num : (0 : ℤ) ≤ 10000)
      rw [Int.neg_tdiv] at h
      omega
    calc (((amount * n).tdiv 10000 : ℤ) : ℚ) ≤ 0 := by exact_mod_cast hle
      _ ≤ bound * (n / 10000) := by positivity

theorem findMaxBigInt_pair_le (h : 0 ≤ bound) (ha : (a : ℚ) ≤ bound) (hb : (b : ℚ) ≤ bound) :
    (findMaxBigInt [a, b] : ℚ) ≤ bound := by
  simp only [findMaxBigInt, List.foldl_cons, List.foldl_nil]
  split
  · split
    · exact hb
    · exact ha
  · split
    · exact hb
    · exact_mod_cast h

theorem GasExtension.Within.mono (h : extension.Within base tip factor) (hbase : 0 ≤ base)
    (htip : 0 ≤ tip) (hle : factor ≤ factor') : extension.Within base tip factor' := by
  cases extension with
  | legacy gasPrice =>
    change (gasPrice : ℚ) ≤ _ at h
    exact h.trans (by gcongr)
  | eip1559 maxPriorityFeePerGas maxFeePerGas =>
    exact ⟨h.1.trans (by gcongr), h.2.trans (by gcongr)⟩

theorem within_populateTx (h : (m.fetch gasCategory fees).Within base tip) :
    (m.populateTx tx gasCategory fees).extension.Within base tip 1 := by
  cases fees with
  | gasPrice gasPrice =>
    change ((m.legacyFeeFetcher gasCategory gasPrice : ℤ) : ℚ) ≤ base * 1
    rw [mul_one]
    exact h
  | feeHistory history =>
    change (((m.feeFetcher gasCategory history).maxPriorityFeePerGas : ℤ) : ℚ) ≤ tip * 1 ∧
      (((m.feeFetcher gasCategory history).baseFee +
        (m.feeFetcher gasCategory history).maxPriorityFeePerGas : ℤ) : ℚ) ≤ (base + tip) * 1
    rw [mul_one, mul_one]
    push_cast
    exact ⟨h.2, add_le_add h.1 h.2⟩

/-- A replacement is within the bounds if the replaced fees are, with one more factor. -/
theorem within_populateReplacement (h : fetched.Within base tip)
    (hr : replaceTx.extension.Within base tip factor) (hbase : 0 ≤ base) (htip : 0 ≤ tip)
    (hfactor : 1 ≤ factor) (hm : 1 ≤ m.bumpRatio) :
    (m.populateReplacement tx replaceTx fetched).extension.Within base tip
      (factor * m.bumpRatio) := by
  obtain ⟨replaced, extension⟩ := replaceTx
  have hn : 0 ≤ m.bumperNumerator := by
    have h1 : (1 : ℚ) * 10000 ≤ m.bumperNumerator := by
      rw [EvmFeeManager.bumpRatio, le_div_iff₀ (by norm_num)] at hm
      exact hm
    have h2 : (0 : ℚ) ≤ m.bumperNumerator := by linarith
    exact_mod_cast h2
  have hone : 1 ≤ factor * m.bumpRatio := by
    calc (1 : ℚ) = 1 * 1 := (mul_one 1).symm
      _ ≤ factor * m.bumpRatio := by gcongr
  have hgrow : ∀ {x : ℚ}, 0 ≤ x → x ≤ x * (factor * m.bumpRatio) := by
    intro x hx
    calc x = x * 1 := (mul_one x).symm
      _ ≤ x * (factor * m.bumpRatio) := by gcongr
  -- a replaced fee within its bound, bumped
  have hbump : ∀ {fee : ℤ} {x : ℚ}, 0 ≤ x → (fee : ℚ) ≤ x * factor →
      (multiplied fee m.bumper : ℚ) ≤ x * (factor * m.bumpRatio) := by
    intro fee x hx hfee
    rw [← mul_assoc]
    exact multiplied_le_mul hfee (by positivity) hn
  cases fetched with
  | legacy gasPrice =>
    cases extension with
    | legacy old =>
      change (findMaxBigInt [gasPrice, multiplied old m.bumper] : ℚ) ≤ _
      refine findMaxBigInt_pair_le (by positivity) ?_ (hbump hbase hr)
      exact le_trans h (hgrow hbase)
  | eip1559 fee =>
    cases extension with
    | eip1559 oldPriority oldMax =>
      have hpriority : (findMaxBigInt
          [fee.maxPriorityFeePerGas, multiplied oldPriority m.bumper] : ℚ) ≤
            tip * (factor * m.bumpRatio) :=
        findMaxBigInt_pair_le (by positivity) (h.2.trans (hgrow htip)) (hbump htip hr.1)
      refine ⟨hpriority, findMaxBigInt_pair_le (by positivity) ?_ (hbump (by positivity) hr.2)⟩
      push_cast
      calc (fee.baseFee : ℚ) + findMaxBigInt
              [fee.maxPriorityFeePerGas, multiplied oldPriority m.bumper]
          ≤ base * (factor * m.bumpRatio) + tip * (factor * m.bumpRatio) :=
            add_le_add (h.1.trans (hgrow hbase)) hpriority
        _ = (base + tip) * (factor * m.bumpRatio) := by ring

end Arithmetic

/-! ### What holds of every attempt -/

/-- What holds of the transaction that a phase works with, by the number of the attempts before
it. -/
def Phase.OfAttempt (Q : ℕ → GasExtension market → Prop) (attempts : ℕ) : Phase market → Prop
  | .capping tx => Q attempts tx.extension
  | .replacing broadcast _ | .signing broadcast | .publishing broadcast | .waiting broadcast _ _
  | .polling broadcast _ _ => broadcast.attempt = attempts ∧ 1 ≤ attempts ∧
      Q (attempts - 1) broadcast.tx.extension
  | _ => True

/-- The fees of every attempt have a property that depends on the number of attempts before it. -/
structure PerAttempt (Q : ℕ → GasExtension market → Prop) (b : Broadcaster market) : Prop where
  signed : ∀ attempt tx, .signed attempt tx ∈ b.journal → Q (attempt - 1) tx.extension
  phase : b.phase.OfAttempt Q b.broadcasts.length

namespace PerAttempt

open Broadcaster

variable {config : BroadcasterConfig market} {Q : ℕ → GasExtension market → Prop}
  {b b' : Broadcaster market} {a : Answer market} {tx : PopulatedTxn market}
  {broadcast : InitiatedBroadcastAttempt market} {err : String} {gasCategory : GasCategory}
  {template : TransactionTemplate}

theorem initial : PerAttempt Q .initial where
  signed _ _ h := by simp [Broadcaster.initial] at h
  phase := trivial

/-- Nothing is signed. -/
theorem congr (h : PerAttempt Q b) (es : List (Entry market))
    (hj : b'.journal = b.journal ++ es) (hes : ∀ attempt tx, .signed attempt tx ∉ es)
    (hp : b'.phase.OfAttempt Q b'.broadcasts.length) : PerAttempt Q b' where
  signed attempt tx hm := by
    rw [hj] at hm
    exact h.signed attempt tx ((List.mem_append.mp hm).resolve_right (hes attempt tx))
  phase := hp

theorem await (h : PerAttempt Q b) {phase : Phase market}
    (hp : phase.OfAttempt Q b.broadcasts.length) : PerAttempt Q (b.await phase) :=
  h.congr [] (by simp [Broadcaster.await]) (by simp) hp

theorem emit (h : PerAttempt Q b) {e : Entry market}
    (he : ∀ attempt tx, e ≠ .signed attempt tx) : PerAttempt Q (b.emit e) :=
  h.congr [e] rfl (fun attempt tx hm => he attempt tx (List.mem_singleton.mp hm).symm) h.phase

theorem seek (h : PerAttempt Q b) : PerAttempt Q (b.seekSuccessfulBroadcast err) := by
  unfold seekSuccessfulBroadcast
  split
  · exact h.await trivial
  · exact h.await trivial

theorem initiateBroadcast (h : PerAttempt Q b) (ht : Q b.broadcasts.length tx.extension) :
    PerAttempt Q (b.initiateBroadcast config tx) := by
  simp only [Broadcaster.initiateBroadcast]
  split
  · exact h.seek
  · constructor
    · intro attempt tx' hm
      rcases List.mem_append.mp hm with hm | hm
      · exact h.signed attempt tx' hm
      · obtain ⟨rfl, rfl⟩ := Entry.signed.inj (List.mem_singleton.mp hm)
        exact ht
    · simp only [Broadcaster.emit, Broadcaster.await, Phase.OfAttempt, List.length_append,
        List.length_singleton]
      exact ⟨trivial, by omega, ht⟩

theorem checkCappingAndPopulate (h : PerAttempt Q b) (ht : Q b.broadcasts.length tx.extension)
    {gasLimit : ℤ} : PerAttempt Q (b.checkCappingAndPopulate config tx gasLimit) := by
  unfold Broadcaster.checkCappingAndPopulate
  split
  · exact h.seek
  · exact h.initiateBroadcast ht

theorem populated (h : PerAttempt Q b) (ht : Q b.broadcasts.length tx.extension) :
    PerAttempt Q (b.populated config tx) := by
  unfold Broadcaster.populated
  split
  · exact h.await ht
  · exact h.checkCappingAndPopulate ht

theorem templateReady (h : PerAttempt Q b) {useNonce nonce : Option ℕ} {gas : Option ℤ} :
    PerAttempt Q (b.templateReady config useNonce nonce gas) := by
  unfold Broadcaster.templateReady
  split
  · exact (h.emit (by simp)).await trivial
  · exact h.await trivial

theorem pushReplacementTransaction (h : PerAttempt Q b)
    (hp : (Phase.signing broadcast).OfAttempt Q b.broadcasts.length) :
    PerAttempt Q (b.pushReplacementTransaction config broadcast) :=
  (h.emit (by simp)).await hp

theorem handleBroadcastRejection (h : PerAttempt Q b)
    (hp : (Phase.signing broadcast).OfAttempt Q b.broadcasts.length) :
    PerAttempt Q (b.handleBroadcastRejection config broadcast err) := by
  have h' := h.emit (e := .refused broadcast.tx (stringToError err)) (by simp)
  simp only [Broadcaster.handleBroadcastRejection]
  split
  · exact h'.await trivial
  · exact h'.pushReplacementTransaction hp
  · exact h'.pushReplacementTransaction hp
  · exact h'.seek

/-- A step that prices nothing. -/
theorem move (h : PerAttempt Q b) (hm : Move config b b')
    (hpopulating : ∀ template gasCategory, b.phase ≠ .populating template gasCategory)
    (hreplacing : ∀ broadcast gasCategory, b.phase ≠ .replacing broadcast gasCategory) :
    PerAttempt Q b' := by
  have hq := h.phase
  cases hm with
  | located useNonce hp => exact h.await trivial
  | counted gas count hp => exact h.templateReady
  | estimated useNonce nonce gas hp => exact h.templateReady
  | failed useNonce err hp =>
    unfold fail
    split
    · exact h.seek
    · exact h.await trivial
  | populated template gasCategory fees hp => exact absurd hp (hpopulating template gasCategory)
  | replaced broadcast gasCategory fees hp => exact absurd hp (hreplacing broadcast gasCategory)
  | capped tx gas hp =>
    rw [hp] at hq
    exact h.checkCappingAndPopulate hq
  | unpriced err hp => exact h.seek
  | publish broadcast hp =>
    rw [hp] at hq
    exact h.await hq
  | refused broadcast err hp =>
    refine h.handleBroadcastRejection ?_
    rcases hp with hp | hp
    · rwa [hp] at hq
    · rwa [hp] at hq
  | accepted broadcast txHash hp =>
    rw [hp] at hq
    refine h.congr [.accepted broadcast.tx txHash] ?_ (by simp) ?_
    · simp only [handleBroadcastSuccess]
      split <;> rfl
    · simp only [handleBroadcastSuccess]
      split <;> simpa [Broadcaster.emit, Broadcaster.await, Phase.OfAttempt] using hq
  | timeout broadcast txHash pollingAttempt hp =>
    rw [hp] at hq
    exact h.await hq
  | found broadcast txHash pollingAttempt receipt hp => exact (h.emit (by simp)).await trivial
  | missing broadcast txHash pollingAttempt err hp =>
    rw [hp] at hq
    have h' := h.emit (e := .polled txHash (.error err)) (by simp)
    unfold scheduleNextPoll
    split
    · exact h'.pushReplacementTransaction hq
    · exact h'.await hq
  | sought previousError hashes receipts hp hlen =>
    refine h.congr _ rfl (by simp) ?_
    simp only [selectReceipt]
    repeat' split
    all_goals trivial

/-- Only fees that are fetched, or a failure, take a run on from where a transaction is priced. -/
theorem step_of_populating (hp : b.phase = .populating template gasCategory)
    (hs : broadcasterStep config b a = some b') :
    (∃ fees, a = .fees (.ok fees) ∧ b' = b.populated config
      (config.feeManager.populateTx template gasCategory fees)) ∨
      ∃ err, b' = b.seekSuccessfulBroadcast err := by
  cases a with
  | fees answer =>
    simp only [broadcasterStep, hp] at hs
    cases answer with
    | error err => exact .inr ⟨err, (Option.some.inj hs).symm⟩
    | ok fees => exact .inl ⟨fees, rfl, (Option.some.inj hs).symm⟩
  | _ => simp [broadcasterStep, hp] at hs

/-- A property of the attempts is kept if every fresh price has it for any number of attempts, and
every replacement for one attempt more than the replaced one. -/
theorem step (h : PerAttempt Q b) (hs : broadcasterStep config b a = some b')
    (fresh : ∀ template gasCategory fees, b.phase = .populating template gasCategory →
      a = .fees (.ok fees) →
      ∀ n, Q n (config.feeManager.populateTx template gasCategory fees).extension)
    (replaced : ∀ broadcast gasCategory fees, b.phase = .replacing broadcast gasCategory →
      a = .fees (.ok fees) → ∀ n, Q n broadcast.tx.extension →
      Q (n + 1) (config.feeManager.populateReplacementTx broadcast.tx.toTransactionTemplate
        broadcast.tx gasCategory fees).extension) : PerAttempt Q b' := by
  by_cases hpopulating : ∃ template gasCategory, b.phase = .populating template gasCategory
  · obtain ⟨template, gasCategory, hp⟩ := hpopulating
    rcases step_of_populating hp hs with ⟨fees, rfl, rfl⟩ | ⟨err, rfl⟩
    · exact h.populated (fresh template gasCategory fees hp rfl _)
    · exact h.seek
  by_cases hreplacing : ∃ broadcast gasCategory, b.phase = .replacing broadcast gasCategory
  · obtain ⟨broadcast, gasCategory, hp⟩ := hreplacing
    rcases step_of_replacing hp hs with ⟨fees, rfl, rfl⟩ | ⟨err, rfl⟩
    · have hq := h.phase
      rw [hp] at hq
      obtain ⟨-, hpos, hold⟩ := hq
      apply h.populated
      rw [← Nat.sub_add_cancel hpos]
      exact replaced broadcast gasCategory fees hp rfl _ hold
    · exact h.seek
  · exact h.move (move_of_step hs) (fun template gasCategory hp => hpopulating ⟨_, _, hp⟩)
      fun broadcast gasCategory hp => hreplacing ⟨_, _, hp⟩

end PerAttempt

section Bounds

variable {config : BroadcasterConfig market} {base tip : ℚ} {t : List (Answer market)}
  {b : Broadcaster market} {a : Answer market} {attempt : ℕ} {tx : PopulatedTxn market}

/-- The fee fetched from an answer, in the category it is asked for, is within the bounds. -/
def FetchesWithin (config : BroadcasterConfig market) (base tip : ℚ) (b : Broadcaster market) :
    Answer market → Prop
  | .fees (.ok fees) =>
    match b.phase with
    | .populating _ gasCategory | .replacing _ gasCategory =>
      (config.feeManager.fetch gasCategory fees).Within base tip
    | _ => True
  | _ => True

instance : Decidable (FetchesWithin config base tip b a) := by
  unfold FetchesWithin
  split
  · split <;> infer_instance
  · infer_instance

/-- As long as the fetched fees stay within the bounds, the price of an attempt is within them times
the bumper for each attempt before it. -/
theorem fee_escalation_bounded (hbase : 0 ≤ base) (htip : 0 ≤ tip)
    (hm : 1 ≤ config.feeManager.bumpRatio)
    (h : ((broadcaster config).guard (FetchesWithin config base tip)).Run t b)
    (hs : .signed attempt tx ∈ b.journal) :
    (tx.extension.price : ℚ) ≤ (base + tip) * config.feeManager.bumpRatio ^ (attempt - 1) := by
  have hq : PerAttempt (fun n extension => extension.Within base tip
      (config.feeManager.bumpRatio ^ n)) b := by
    refine h.guarded_invariant .initial fun b a b' hq ha hstep => ?_
    refine hq.step hstep (fun template gasCategory fees hp he n => ?_)
      fun broadcast gasCategory fees hp he n hold => ?_
    · have hw : (config.feeManager.fetch gasCategory fees).Within base tip := by
        simpa only [FetchesWithin, he, hp] using ha
      exact (within_populateTx hw).mono hbase htip (one_le_pow₀ hm)
    · have hw : (config.feeManager.fetch gasCategory fees).Within base tip := by
        simpa only [FetchesWithin, he, hp] using ha
      rw [EvmFeeManager.populateReplacementTx_eq, pow_succ]
      exact within_populateReplacement hw hold hbase htip (one_le_pow₀ hm) hm
  have hw := hq.signed attempt tx hs
  obtain ⟨template, extension⟩ := tx
  cases extension with
  | legacy gasPrice =>
    calc (gasPrice : ℚ) ≤ base * config.feeManager.bumpRatio ^ (attempt - 1) := hw
      _ ≤ (base + tip) * config.feeManager.bumpRatio ^ (attempt - 1) := by
        gcongr
        exact le_add_of_nonneg_right htip
  | eip1559 maxPriorityFeePerGas maxFeePerGas => exact hw.2

namespace Sample

/-- The first attempt is underpriced, and the node asks for the same price again. -/
def underpricedOnce : List (Answer .legacy) :=
  signed ++ [.sendRawTransaction (.error "underpriced"), .fees (.ok (.gasPrice 100))]

/-- The transaction of the second attempt. -/
def replacement : PopulatedTxn .legacy := ⟨⟨"0x1", "0x2", "0x", none, 23100, 5⟩, .legacy 143⟩

end Sample

theorem fee_escalation_bounded_bumped : ∃ b : Broadcaster .legacy,
    ((broadcaster Sample.config).guard (FetchesWithin Sample.config 130 0)).Run
      Sample.underpricedOnce b ∧
    .signed 2 Sample.replacement ∈ b.journal ∧
    (Sample.replacement.extension.price : ℚ) ≤
      (130 + 0) * Sample.config.feeManager.bumpRatio ^ (2 - 1) := by
  obtain ⟨b, hr, hp⟩ := Machine.exists_run_of_any
    (M := (broadcaster Sample.config).guard (FetchesWithin Sample.config 130 0))
    (t := Sample.underpricedOnce) (p := fun b : Broadcaster .legacy => b.journal.any fun e =>
      decide (e = Entry.signed 2 Sample.replacement)) (by decide +kernel)
  obtain ⟨e, hm, he⟩ := List.any_eq_true.mp hp
  obtain rfl := of_decide_eq_true he
  have hratio : 1 ≤ Sample.config.feeManager.bumpRatio := by decide +kernel
  exact ⟨b, hr, hm, fee_escalation_bounded (by norm_num) le_rfl hratio hr hm⟩

end Bounds

end Evm

end DlnTaker
