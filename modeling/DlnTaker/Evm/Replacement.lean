import DlnTaker.Evm.Capping
import DlnTaker.Evm.Outcome

/-! # Fees of replacement transactions

A node takes a replacement only if every fee field exceeds the replaced one, by
a tenth of it. The bumped fee is truncated, so that a fee of zero or of a few
wei is not raised by the bump; then it depends on the fetched fee.
-/

namespace DlnTaker

namespace Evm

variable {market : FeeMarket}

/-- What a fee fetcher resolves with. -/
inductive FetchedFee : FeeMarket → Type
  | legacy (gasPrice : ℤ) : FetchedFee .legacy
  | eip1559 (fee : EIP1551Fee) : FetchedFee .eip1559
  deriving DecidableEq, Repr

/-- The new fee is accepted by a node in place of the old one. -/
def Outbids (new old : ℤ) : Prop := old < new ∧ old * 110 / 100 ≤ new

/-- The node accepts all fees in place of those of the replaced transaction. -/
def GasExtension.Replaces : GasExtension market → GasExtension market → Prop
  | legacy new, legacy old => Outbids new old
  | eip1559 newPriority newMax, eip1559 oldPriority oldMax =>
      Outbids newPriority oldPriority ∧ Outbids newMax oldMax

/-- All fees are higher. -/
def GasExtension.Exceeds : GasExtension market → GasExtension market → Prop
  | legacy new, legacy old => old < new
  | eip1559 newPriority newMax, eip1559 oldPriority oldMax =>
      oldPriority < newPriority ∧ oldMax < newMax

/-- The fee, bumped by so many ten thousandths and truncated, reaches a positive target. -/
def BumpReaches (numerator fee target : ℤ) : Prop := target * 10000 ≤ fee * numerator

instance (numerator fee target : ℤ) : Decidable (BumpReaches numerator fee target) :=
  inferInstanceAs (Decidable (_ ≤ _))

/-- The old fee is below the fetched one, or large enough for the bump to raise it. -/
def Raisable (numerator old fetched : ℤ) : Prop :=
  old < 0 ∨ old < fetched ∨ BumpReaches numerator old (old + 1)

instance (numerator old fetched : ℤ) : Decidable (Raisable numerator old fetched) :=
  inferInstanceAs (Decidable (_ ∨ _))

namespace EvmFeeManager

variable (m : EvmFeeManager market)

/-- The fetchers that the manager has by default. -/
def fetch (gasCategory : GasCategory) : NodeFees market → FetchedFee market
  | .gasPrice gasPrice => .legacy (m.legacyFeeFetcher gasCategory gasPrice)
  | .feeHistory history => .eip1559 (m.feeFetcher gasCategory history)

/-- The bumper in ten thousandths, truncated. -/
def bumperNumerator : ℤ := safeIntToBigInt (m.bumper * 10000)

/-- `populateReplacementTx` with any fee that a fetcher resolves with. -/
def populateReplacement (tx : TransactionTemplate) (replaceTx : PopulatedTxn market)
    (fetched : FetchedFee market) : PopulatedTxn market :=
  match fetched, replaceTx.extension with
  | .legacy gasPrice, .legacy replaced =>
    let gasPrice := findMaxBigInt [gasPrice, multiplied replaced m.bumper]
    { tx with extension := .legacy gasPrice }
  | .eip1559 fee, .eip1559 replacedPriority replacedMax =>
    let maxPriorityFeePerGas := findMaxBigInt
      [fee.maxPriorityFeePerGas, multiplied replacedPriority m.bumper]
    let maxFeePerGas := findMaxBigInt
      [fee.baseFee + maxPriorityFeePerGas, multiplied replacedMax m.bumper]
    { tx with extension := .eip1559 maxPriorityFeePerGas maxFeePerGas }

/-- Every fee is negative, below what is fetched, or large enough for the bump to raise it; the
maximal fee may also be below the base fee alone or with the bumped priority fee. -/
def Raises : GasExtension market → FetchedFee market → Prop
  | .legacy replaced, .legacy gasPrice => Raisable m.bumperNumerator replaced gasPrice
  | .eip1559 replacedPriority replacedMax, .eip1559 fee =>
      Raisable m.bumperNumerator replacedPriority fee.maxPriorityFeePerGas ∧
        (Raisable m.bumperNumerator replacedMax (fee.baseFee + fee.maxPriorityFeePerGas) ∨
          replacedMax < fee.baseFee ∨
          BumpReaches m.bumperNumerator replacedPriority (replacedMax - fee.baseFee + 1))

instance (extension : GasExtension market) (fetched : FetchedFee market) :
    Decidable (m.Raises extension fetched) :=
  match market, m, extension, fetched with
  | _, _, .legacy _, .legacy _ => inferInstanceAs (Decidable (Raisable _ _ _))
  | _, _, .eip1559 _ _, .eip1559 _ => inferInstanceAs (Decidable (Raisable _ _ _ ∧ _))

variable {m} {tx : TransactionTemplate} {replaceTx : PopulatedTxn market}

theorem populateReplacementTx_eq {gasCategory : GasCategory} {fees : NodeFees market} :
    m.populateReplacementTx tx replaceTx gasCategory fees =
      m.populateReplacement tx replaceTx (m.fetch gasCategory fees) := by
  obtain ⟨replaced, extension⟩ := replaceTx
  cases fees with
  | gasPrice gasPrice =>
    cases extension
    rfl
  | feeHistory history =>
    cases extension
    rfl

end EvmFeeManager

section Arithmetic

variable {fee target numerator old fetched : ℤ} {bumper : ℚ} {values : List ℤ}

theorem lt_findMaxBigInt_iff {a b : ℤ} :
    fee < findMaxBigInt [a, b] ↔ fee < 0 ∨ fee < a ∨ fee < b := by
  simp only [findMaxBigInt, List.foldl_cons, List.foldl_nil]
  split <;> split <;> omega

/-- Truncation rounds down to what a positive target is compared with. -/
theorem le_multiplied_iff (ht : 0 < target) :
    target ≤ multiplied fee bumper ↔ BumpReaches (safeIntToBigInt (bumper * 10000)) fee target := by
  unfold multiplied BumpReaches
  generalize fee * safeIntToBigInt (bumper * 10000) = product
  rcases le_or_gt 0 product with h | h
  · rw [Int.tdiv_eq_ediv_of_nonneg h]
    omega
  · have hneg := Int.tdiv_nonneg (Int.neg_nonneg_of_nonpos h.le) (by norm_num : (0 : ℤ) ≤ 10000)
    rw [Int.neg_tdiv] at hneg
    omega

/-- A bump of more than a tenth reaches what the node asks of a fee. -/
theorem tenth_le_findMaxBigInt (hn : 11000 < safeIntToBigInt (bumper * 10000)) :
    old * 110 / 100 ≤ findMaxBigInt [fetched, multiplied old bumper] := by
  rcases lt_or_ge old 1 with hold | hold
  · have hpos : 0 ≤ findMaxBigInt [fetched, multiplied old bumper] := findMaxBigInt_nonneg
    omega
  · refine le_trans ?_ (le_findMaxBigInt (List.mem_cons_of_mem _ List.mem_cons_self))
    have hproduct : old * 11000 ≤ old * safeIntToBigInt (bumper * 10000) :=
      Int.mul_le_mul_of_nonneg_left hn.le (by omega)
    rw [le_multiplied_iff (by omega), BumpReaches]
    omega

theorem outbids_findMaxBigInt_iff (hn : 11000 < safeIntToBigInt (bumper * 10000)) :
    Outbids (findMaxBigInt [fetched, multiplied old bumper]) old ↔
      old < 0 ∨ old < fetched ∨ old < multiplied old bumper := by
  rw [Outbids, and_iff_left (tenth_le_findMaxBigInt hn), lt_findMaxBigInt_iff]

theorem lt_multiplied_iff (ho : 0 ≤ old) :
    old < multiplied old bumper ↔ BumpReaches (safeIntToBigInt (bumper * 10000)) old (old + 1) := by
  rw [← le_multiplied_iff (by omega), Int.add_one_le_iff]

theorem outbids_iff_raisable (hn : 11000 < safeIntToBigInt (bumper * 10000)) :
    Outbids (findMaxBigInt [fetched, multiplied old bumper]) old ↔
      Raisable (safeIntToBigInt (bumper * 10000)) old fetched := by
  rw [outbids_findMaxBigInt_iff hn, Raisable]
  rcases lt_or_ge old 0 with ho | ho
  · simp [ho]
  · rw [lt_multiplied_iff ho]

/-- The maximal fee follows the priority fee, which has been bumped before. -/
theorem lt_add_findMaxBigInt_iff {baseFee priority oldPriority : ℤ} :
    old < baseFee + findMaxBigInt [priority, multiplied oldPriority bumper] ↔
      old < baseFee + priority ∨ old < baseFee ∨
        BumpReaches (safeIntToBigInt (bumper * 10000)) oldPriority (old - baseFee + 1) := by
  have hsub : ∀ value, old < baseFee + value ↔ old - baseFee < value := by
    intro value
    omega
  rw [hsub, hsub, lt_findMaxBigInt_iff]
  rcases lt_or_ge old baseFee with hlt | hge
  · have hneg : old - baseFee < 0 := by omega
    simp [hlt, hneg]
  · rw [← le_multiplied_iff (by omega), Int.add_one_le_iff]
    have hneg : ¬ old - baseFee < 0 := by omega
    have hle : ¬ old < baseFee := not_lt.mpr hge
    simp only [hneg, hle, false_or]

end Arithmetic

namespace EvmFeeManager

variable {m : EvmFeeManager market} {tx : TransactionTemplate} {replaceTx : PopulatedTxn market}
  {fetched : FetchedFee market}

/-- The node accepts a replacement if and only if every fee is raised. -/
theorem replaces_populateReplacement_iff (hn : 11000 < m.bumperNumerator) :
    (m.populateReplacement tx replaceTx fetched).extension.Replaces replaceTx.extension ↔
      m.Raises replaceTx.extension fetched := by
  obtain ⟨replaced, extension⟩ := replaceTx
  cases fetched with
  | legacy gasPrice =>
    cases extension with
    | legacy old => exact outbids_iff_raisable hn
  | eip1559 fee =>
    cases extension with
    | eip1559 oldPriority oldMax =>
      refine and_congr (outbids_iff_raisable hn) ?_
      rw [outbids_findMaxBigInt_iff hn, lt_add_findMaxBigInt_iff, Raisable]
      rcases lt_or_ge oldMax 0 with ho | ho
      · simp [ho]
      · rw [lt_multiplied_iff ho]
        tauto

end EvmFeeManager

theorem GasExtension.Replaces.exceeds {new old : GasExtension market} (h : new.Replaces old) :
    new.Exceeds old := by
  cases new with
  | legacy new =>
    cases old
    exact h.1
  | eip1559 newPriority newMax =>
    cases old
    exact ⟨h.1.1, h.2.1⟩

theorem GasExtension.Exceeds.trans {new mid old : GasExtension market} (h : new.Exceeds mid)
    (h' : mid.Exceeds old) : new.Exceeds old := by
  cases new with
  | legacy new =>
    cases mid
    cases old
    exact lt_trans h' h
  | eip1559 newPriority newMax =>
    cases mid
    cases old
    exact ⟨h'.1.trans h.1, h'.2.trans h.2⟩

/-! ### Chains of replacements -/

open Broadcaster

def Entry.transaction? : Entry market → Option (PopulatedTxn market)
  | signed _ tx => some tx
  | _ => none

/-- The transactions that were signed, in order. -/
def signedTransactions (log : List (Entry market)) : List (PopulatedTxn market) :=
  log.filterMap Entry.transaction?

/-- Transactions with the same nonce have higher fees, the later they were signed. -/
def Rising (txs : List (PopulatedTxn market)) : Prop :=
  txs.Pairwise fun old new => new.nonce = old.nonce → new.extension.Exceeds old.extension

/-- A fee that is fetched for a replacement raises the fees of the replaced transaction. -/
def raising (config : BroadcasterConfig market) (b : Broadcaster market) (a : Answer market) :
    Bool :=
  match b.phase, a with
  | .replacing broadcast gasCategory, .fees (.ok fees) =>
    decide (config.feeManager.Raises broadcast.tx.extension
      (config.feeManager.fetch gasCategory fees))
  | _, _ => true

/-- The nonce is greater than those signed with. -/
def Unspent (txs : List (PopulatedTxn market)) (nonce : ℕ) : Prop := ∀ tx ∈ txs, tx.nonce < nonce

/-- The transaction may be signed next. -/
def Tops (txs : List (PopulatedTxn market)) (tx : PopulatedTxn market) : Prop :=
  ∀ old ∈ txs, old.nonce ≤ tx.nonce ∧ (tx.nonce = old.nonce → tx.extension.Exceeds old.extension)

/-- The transaction is the last one of its chain. -/
def Heads (txs : List (PopulatedTxn market)) (tx : PopulatedTxn market) : Prop :=
  ∀ old ∈ txs, old.nonce ≤ tx.nonce ∧
    (tx.nonce = old.nonce → tx.extension = old.extension ∨ tx.extension.Exceeds old.extension)

/-- The nonce of a phase is not behind those signed with. -/
def Phase.Climbs (txs : List (PopulatedTxn market)) : Phase market → Prop
  | .blockNumber useNonce => ∀ nonce, useNonce.getD nonce = nonce → Unspent txs nonce
  | .template useNonce nonce _ => (∀ nonce, useNonce.getD nonce = nonce → Unspent txs nonce) ∧
      ∀ known, nonce = some known → Unspent txs known
  | .populating tx _ => Unspent txs tx.nonce
  | .capping tx => Tops txs tx
  | .replacing broadcast _ | .signing broadcast | .publishing broadcast | .waiting broadcast _ _
  | .polling broadcast _ _ => Heads txs broadcast.tx
  | _ => True

/-- Holds in every state of a run in which every replacement raises the fees. -/
structure Climbing (b : Broadcaster market) : Prop where
  rising : Rising (signedTransactions b.journal)
  climbs : b.phase.Climbs (signedTransactions b.journal)

section Chains

variable {txs : List (PopulatedTxn market)} {tx old : PopulatedTxn market} {nonce : ℕ}

theorem Unspent.tops (h : Unspent txs tx.nonce) : Tops txs tx := by
  intro old ho
  have hlt := h old ho
  exact ⟨hlt.le, fun he => absurd he hlt.ne'⟩

theorem Heads.tops (h : Heads txs old) (hn : tx.nonce = old.nonce)
    (he : tx.extension.Exceeds old.extension) : Tops txs tx := by
  intro older ho
  obtain ⟨hle, hfees⟩ := h older ho
  refine ⟨hn ▸ hle, fun hsame => ?_⟩
  rcases hfees (hn ▸ hsame) with heq | hexceeds
  · exact heq ▸ he
  · exact he.trans hexceeds

theorem Heads.unspent (h : Heads txs tx) : Unspent txs (tx.nonce + 1) :=
  fun old ho => Nat.lt_succ_of_le (h old ho).1

theorem Tops.heads (h : Tops txs tx) : Heads (txs ++ [tx]) tx := by
  intro old ho
  rcases List.mem_append.mp ho with ho | ho
  · exact ⟨(h old ho).1, fun hn => .inr ((h old ho).2 hn)⟩
  · obtain rfl := List.mem_singleton.mp ho
    exact ⟨le_rfl, fun _ => .inl rfl⟩

theorem Rising.concat (h : Rising txs) (ht : Tops txs tx) : Rising (txs ++ [tx]) := by
  refine List.pairwise_append.mpr ⟨h, List.pairwise_singleton _ _, fun old ho new hn => ?_⟩
  obtain rfl := List.mem_singleton.mp hn
  exact (ht old ho).2

end Chains

variable {config : BroadcasterConfig market} {b b' : Broadcaster market} {a : Answer market}
  {tx : PopulatedTxn market} {broadcast : InitiatedBroadcastAttempt market}
  {log : List (Entry market)} {err txHash : String}

theorem signedTransactions_append {es : List (Entry market)} :
    signedTransactions (log ++ es) = signedTransactions log ++ signedTransactions es :=
  List.filterMap_append

/-- Only fees that are fetched for a replacement, or a failure, take a run on from there. -/
theorem step_of_replacing {gasCategory : GasCategory}
    (hp : b.phase = .replacing broadcast gasCategory)
    (hs : broadcasterStep config b a = some b') :
    (∃ fees, a = .fees (.ok fees) ∧ b' = b.populated config
      (config.feeManager.populateReplacementTx broadcast.tx.toTransactionTemplate broadcast.tx
        gasCategory fees)) ∨ ∃ err, b' = b.seekSuccessfulBroadcast err := by
  cases a with
  | fees answer =>
    simp only [broadcasterStep, hp] at hs
    cases answer with
    | error err => exact .inr ⟨err, (Option.some.inj hs).symm⟩
    | ok fees => exact .inl ⟨fees, rfl, (Option.some.inj hs).symm⟩
  | _ => simp [broadcasterStep, hp] at hs

namespace Climbing

theorem initial : Climbing (Broadcaster.initial : Broadcaster market) where
  rising := .nil
  climbs _ _ _ h := nomatch h

/-- Entries that sign nothing, and a change of phase. -/
theorem pass (h : Climbing b) (es : List (Entry market)) (hj : b'.journal = b.journal ++ es)
    (hes : signedTransactions es = []) (hp : b'.phase.Climbs (signedTransactions b.journal)) :
    Climbing b' := by
  have hsame : signedTransactions b'.journal = signedTransactions b.journal := by
    rw [hj, signedTransactions_append, hes, List.append_nil]
  exact ⟨hsame ▸ h.rising, hsame ▸ hp⟩

theorem await (h : Climbing b) {phase : Phase market}
    (hp : phase.Climbs (signedTransactions b.journal)) : Climbing (b.await phase) :=
  h.pass [] (by simp [Broadcaster.await]) rfl hp

theorem seek (h : Climbing b) (es : List (Entry market)) (hj : b'.journal = b.journal ++ es)
    (hes : signedTransactions es = []) : Climbing (b'.seekSuccessfulBroadcast err) := by
  unfold seekSuccessfulBroadcast
  split
  all_goals exact h.pass es hj hes trivial

theorem fail (h : Climbing b) {useNonce : Option ℕ} : Climbing (b.fail useNonce err) := by
  unfold Broadcaster.fail
  split
  · exact h.seek [] (by simp) rfl
  · exact h.await trivial

theorem initiateBroadcast (h : Climbing b) (ht : Tops (signedTransactions b.journal) tx) :
    Climbing (b.initiateBroadcast config tx) := by
  simp only [Broadcaster.initiateBroadcast]
  split
  · exact h.seek [] (by simp) rfl
  · constructor
    · change Rising (signedTransactions (b.journal ++ [_]))
      rw [signedTransactions_append]
      exact h.rising.concat ht
    · change Heads (signedTransactions (b.journal ++ [_])) tx
      rw [signedTransactions_append]
      exact ht.heads

theorem checkCappingAndPopulate (h : Climbing b) (ht : Tops (signedTransactions b.journal) tx)
    {gasLimit : ℤ} : Climbing (b.checkCappingAndPopulate config tx gasLimit) := by
  unfold Broadcaster.checkCappingAndPopulate
  split
  · exact h.seek [] (by simp) rfl
  · exact h.initiateBroadcast ht

theorem populated (h : Climbing b) (ht : Tops (signedTransactions b.journal) tx) :
    Climbing (b.populated config tx) := by
  unfold Broadcaster.populated
  split
  · exact h.await ht
  · exact h.checkCappingAndPopulate ht

theorem templateReady (h : Climbing b) {useNonce nonce : Option ℕ} {gas : Option ℤ}
    (hu : ∀ nonce, useNonce.getD nonce = nonce → Unspent (signedTransactions b.journal) nonce)
    (hn : ∀ known, nonce = some known → Unspent (signedTransactions b.journal) known) :
    Climbing (b.templateReady config useNonce nonce gas) := by
  unfold Broadcaster.templateReady
  split
  · rename_i known _
    exact h.pass [.feesRequested _] rfl rfl (hn known rfl)
  · exact h.await ⟨hu, hn⟩

theorem replace (h : Climbing b) (es : List (Entry market)) (hj : b'.journal = b.journal ++ es)
    (hes : signedTransactions es = [])
    (ht : Heads (signedTransactions b.journal) broadcast.tx) :
    Climbing (b'.pushReplacementTransaction config broadcast) := by
  obtain ⟨gasCategory, hgas⟩ : ∃ gasCategory,
      (b'.pushReplacementTransaction config broadcast).journal =
        b'.journal ++ [.feesRequested gasCategory] := ⟨_, rfl⟩
  rw [hj, List.append_assoc] at hgas
  refine h.pass _ hgas ?_ ht
  rw [signedTransactions_append, hes]
  rfl

theorem handleBroadcastRejection (h : Climbing b)
    (ht : Heads (signedTransactions b.journal) broadcast.tx) :
    Climbing (b.handleBroadcastRejection config broadcast err) := by
  simp only [Broadcaster.handleBroadcastRejection]
  split
  · refine h.pass [.refused _ _] rfl rfl fun nonce hn => ?_
    obtain rfl : broadcast.tx.nonce + 1 = nonce := hn
    exact ht.unspent
  · exact h.replace [.refused _ _] rfl rfl ht
  · exact h.replace [.refused _ _] rfl rfl ht
  · exact h.seek [.refused _ _] rfl rfl

theorem handleBroadcastSuccess (h : Climbing b)
    (ht : Heads (signedTransactions b.journal) broadcast.tx) :
    Climbing (b.handleBroadcastSuccess config broadcast txHash) := by
  simp only [Broadcaster.handleBroadcastSuccess]
  split
  all_goals exact h.pass [.accepted _ _] rfl rfl ht

theorem scheduleNextPoll (h : Climbing b) {receipt : Except String TransactionReceipt}
    {pollingAttempt : ℕ} (ht : Heads (signedTransactions b.journal) broadcast.tx) :
    Climbing ((b.emit (.polled txHash receipt)).scheduleNextPoll config broadcast txHash
      pollingAttempt) := by
  unfold Broadcaster.scheduleNextPoll
  split
  · exact h.replace [.polled _ _] rfl rfl ht
  · exact h.pass [.polled _ _] rfl rfl ht

/-- A replacement has the nonce of the replaced transaction, and higher fees. -/
theorem replaced (h : Climbing b) {gasCategory : GasCategory} {fees : NodeFees market}
    (hn : 11000 < config.feeManager.bumperNumerator)
    (hp : b.phase = .replacing broadcast gasCategory)
    (hr : raising config b (.fees (.ok fees)) = true) :
    Climbing (b.populated config (config.feeManager.populateReplacementTx
      broadcast.tx.toTransactionTemplate broadcast.tx gasCategory fees)) := by
  have ht := h.climbs
  rw [hp] at ht
  simp only [raising, hp, decide_eq_true_eq] at hr
  apply h.populated
  apply Heads.tops ht
  · rw [populateReplacementTx_template]
  · rw [EvmFeeManager.populateReplacementTx_eq]
    exact ((EvmFeeManager.replaces_populateReplacement_iff hn).mpr hr).exceeds

theorem move (h : Climbing b) (hm : Move config b b')
    (hr : ∀ broadcast gasCategory, b.phase ≠ .replacing broadcast gasCategory) : Climbing b' := by
  have ht := h.climbs
  cases hm with
  | located useNonce hp =>
    rw [hp] at ht
    refine h.await ⟨ht, fun known hk => ht known ?_⟩
    rw [hk]
    rfl
  | counted gas count hp =>
    rw [hp] at ht
    exact h.templateReady ht.1 fun known _ => ht.1 known rfl
  | estimated useNonce nonce gas hp =>
    rw [hp] at ht
    exact h.templateReady ht.1 ht.2
  | failed useNonce err hp => exact h.fail
  | populated template gasCategory fees hp =>
    rw [hp] at ht
    apply h.populated
    apply Unspent.tops
    rwa [populateTx_template]
  | replaced broadcast gasCategory fees hp => exact absurd hp (hr _ _)
  | capped tx gas hp =>
    rw [hp] at ht
    exact h.checkCappingAndPopulate ht
  | unpriced err hp => exact h.seek [] (by simp) rfl
  | publish broadcast hp =>
    rw [hp] at ht
    exact h.await ht
  | refused broadcast err hp =>
    apply h.handleBroadcastRejection
    rcases hp with hp | hp
    all_goals rwa [hp] at ht
  | accepted broadcast txHash hp =>
    rw [hp] at ht
    exact h.handleBroadcastSuccess ht
  | timeout broadcast txHash pollingAttempt hp =>
    rw [hp] at ht
    exact h.await ht
  | found broadcast txHash pollingAttempt receipt hp =>
    exact h.pass [.polled _ _] rfl rfl trivial
  | missing broadcast txHash pollingAttempt err hp =>
    rw [hp] at ht
    exact h.scheduleNextPoll ht
  | sought previousError hashes receipts hp hlen =>
    refine h.pass _ rfl ?_ ?_
    · refine List.filterMap_eq_nil_iff.mpr fun e he => ?_
      obtain ⟨x, -, rfl⟩ := List.mem_map.mp he
      rfl
    · rcases @selectReceipt_over market previousError receipts with ⟨_, h, -⟩ | ⟨h, -⟩
      all_goals rw [h]; trivial

theorem step (h : Climbing b) (hn : 11000 < config.feeManager.bumperNumerator)
    (hr : raising config b a = true) (hs : broadcasterStep config b a = some b') :
    Climbing b' := by
  by_cases hp : ∃ broadcast gasCategory, b.phase = .replacing broadcast gasCategory
  · obtain ⟨broadcast, gasCategory, hp⟩ := hp
    rcases step_of_replacing hp hs with ⟨fees, rfl, rfl⟩ | ⟨err, rfl⟩
    · exact h.replaced hn hp hr
    · exact h.seek [] (by simp) rfl
  · exact h.move (move_of_step hs) fun broadcast gasCategory h => hp ⟨broadcast, gasCategory, h⟩

end Climbing

/-- Of a replacement whose bumper is above 1.1 the node accepts all fees if and only if the fees of
the replaced transaction are exceeded by the fetched ones or large enough to be bumped; in a run in
which they always are, the fees rise along every chain of replacements. -/
theorem replacement_accepted_iff (m : EvmFeeManager market) (hn : 11000 < m.bumperNumerator) :
    (∀ tx replaceTx fetched,
      (m.populateReplacement tx replaceTx fetched).extension.Replaces replaceTx.extension ↔
        m.Raises replaceTx.extension fetched) ∧
    ∀ (config : BroadcasterConfig market) t b, config.feeManager = m →
      ((broadcaster config).guard fun b a => raising config b a = true).Run t b →
        Rising (signedTransactions b.journal) := by
  constructor
  · intro tx replaceTx fetched
    exact EvmFeeManager.replaces_populateReplacement_iff hn
  · rintro config t b rfl h
    have hc : Climbing b :=
      h.guarded_invariant .initial fun _ _ _ hc hr hs => hc.step hn hr hs
    exact hc.rising

namespace Sample

def manager : EvmFeeManager .eip1559 := ⟨defaultFeeManagerOpts⟩

/-- A fee of a chain where no tip is paid, and a transaction that was priced with it. -/
def zeroTip : EIP1551Fee := ⟨100, 100, 0⟩

def untipped : PopulatedTxn .eip1559 := ⟨⟨"0x1", "0x2", "0x", none, 23100, 5⟩, .eip1559 0 100⟩

end Sample

theorem replacement_accepted_iff_default :
    (∀ tx replaceTx fetched,
      (Sample.manager.populateReplacement tx replaceTx fetched).extension.Replaces
          replaceTx.extension ↔ Sample.manager.Raises replaceTx.extension fetched) ∧
    ∀ (config : BroadcasterConfig .eip1559) t b, config.feeManager = Sample.manager →
      ((broadcaster config).guard fun b a => raising config b a = true).Run t b →
        Rising (signedTransactions b.journal) :=
  replacement_accepted_iff Sample.manager (by decide +kernel)

/-- The replacement pays 30 more for the gas, but again no tip. -/
theorem zero_tip_not_replaced :
    11000 < Sample.manager.bumperNumerator ∧
    (Sample.manager.populateReplacement Sample.untipped.toTransactionTemplate Sample.untipped
      (.eip1559 Sample.zeroTip)).extension = .eip1559 0 130 ∧
    ¬ (Sample.manager.populateReplacement Sample.untipped.toTransactionTemplate Sample.untipped
      (.eip1559 Sample.zeroTip)).extension.Replaces Sample.untipped.extension := by
  refine ⟨by decide +kernel, by decide +kernel, fun h => ?_⟩
  have hzero : (Sample.manager.populateReplacement Sample.untipped.toTransactionTemplate
      Sample.untipped (.eip1559 Sample.zeroTip)).extension = .eip1559 0 130 := by decide +kernel
  rw [hzero] at h
  exact absurd h.1.1 (by decide)

end Evm

end DlnTaker
