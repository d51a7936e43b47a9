import DlnTaker.Evm.Outcome

/-! # The price of the last attempt

A replacement that is the last allowed attempt asks for aggressive fees, whatever
the attempts before it have met. A transaction that is pushed anew, after a
rejection that tells that the nonce is too low, is priced as any other.
-/

namespace DlnTaker

namespace Evm

open Journal

variable {market : FeeMarket}

namespace Entry

def requestedCategory : Entry market → Option GasCategory
  | feesRequested gasCategory => some gasCategory
  | _ => none

/-- Whether an attempt has ended because the nonce was too low, from the entries that tell. -/
def endedTooLow : Entry market → Option Bool
  | refused _ error => some (error == .nonceTooLow)
  | polled .. => some false
  | _ => none

end Entry

/-- The fees of what is signed after the log are those of the aggressive category. -/
def PricedAggressively (log : List (Entry market)) : Prop :=
  latest Entry.requestedCategory log = some .aggressive

/-- The attempt before was rejected because the nonce was too low. -/
def AfterNonceTooLow (log : List (Entry market)) : Prop :=
  latest Entry.endedTooLow log = some true

/-- What is signed as the last allowed attempt has a property. -/
def OfLastAttempt (config : BroadcasterConfig market) (P : List (Entry market) → Prop)
    (log : List (Entry market)) : Entry market → Prop
  | .signed attempt _ => (attempt : ℤ) = config.opts.sendMaxAttempts → P log
  | _ => True

namespace BroadcasterConfig

/-- The category of fees where none is asked for. -/
def EnforcesAggressive (config : BroadcasterConfig market) : Prop :=
  config.feeManager.effectiveGasCategory none = .aggressive

/-- Aggressive fees are those of a replacement, or of any transaction if the options say so. -/
def PricesLast (config : BroadcasterConfig market) (log : List (Entry market)) : Prop :=
  PricedAggressively log ↔ config.EnforcesAggressive ∨ ¬ AfterNonceTooLow log

end BroadcasterConfig

namespace Broadcaster

/-- If the next attempt is the last allowed one, and not the first, it is priced as told. -/
def Ready (config : BroadcasterConfig market) (b : Broadcaster market) : Prop :=
  b.broadcasts ≠ [] → ((b.broadcasts.length + 1 : ℕ) : ℤ) = config.opts.sendMaxAttempts →
    config.PricesLast b.journal

/-- What a phase knows of the next attempt. -/
def Prepares (config : BroadcasterConfig market) (b : Broadcaster market) : Prop :=
  match b.phase with
  | .blockNumber _ | .template _ _ _ => b.broadcasts = [] ∨ AfterNonceTooLow b.journal
  | .populating _ _ | .replacing _ _ | .capping _ => b.Ready config
  | .signing broadcast | .publishing broadcast | .waiting broadcast _ _
  | .polling broadcast _ _ => broadcast.attempt = b.broadcasts.length
  | _ => True

end Broadcaster

/-- Holds in every reachable state of a run that allows more than one attempt. -/
structure Priced (config : BroadcasterConfig market) (b : Broadcaster market) : Prop where
  signed : EachEntry (OfLastAttempt config config.PricesLast) b.journal
  prepares : b.Prepares config

open Broadcaster

variable {config : BroadcasterConfig market} {b b' : Broadcaster market}
  {log es : List (Entry market)} {err txHash : String} {tx : PopulatedTxn market}
  {broadcast : InitiatedBroadcastAttempt market} {gasCategory : GasCategory}

theorem pricedAggressively_concat :
    PricedAggressively (log ++ [.feesRequested gasCategory]) ↔ gasCategory = .aggressive := by
  rw [PricedAggressively, latest_concat]
  exact Option.some_inj

theorem afterNonceTooLow_concat_feesRequested :
    AfterNonceTooLow (log ++ [.feesRequested gasCategory]) ↔ AfterNonceTooLow log := by
  rw [AfterNonceTooLow, latest_concat]
  rfl

theorem afterNonceTooLow_concat_refused {error : EvmRpcError} :
    AfterNonceTooLow (log ++ [.refused tx error]) ↔ error = .nonceTooLow := by
  rw [AfterNonceTooLow, latest_concat]
  simp [Entry.endedTooLow]

theorem not_afterNonceTooLow_concat_polled {receipt : Except String TransactionReceipt} :
    ¬ AfterNonceTooLow (log ++ [.polled txHash receipt]) := by
  rw [AfterNonceTooLow, latest_concat]
  simp [Entry.endedTooLow]

namespace Priced

theorem prepares_of_isOver (h : b.phase.isOver = true) : b.Prepares config := by
  unfold Broadcaster.Prepares
  cases hp : b.phase with
  | resolved receipt => trivial
  | rejected err => trivial
  | _ => simp [hp, Phase.isOver] at h

theorem initial : Priced config .initial where
  signed := eachEntry_nil
  prepares := .inl rfl

/-- Entries other than signatures. -/
theorem pass (h : Priced config b) (es : List (Entry market))
    (hj : b'.journal = b.journal ++ es) (hes : ∀ e ∈ es, ∀ attempt tx, e ≠ .signed attempt tx)
    (hp : b'.Prepares config) : Priced config b' where
  signed := by
    rw [hj]
    apply h.signed.append
    intro e he pre
    cases e with
    | signed attempt tx => exact absurd rfl (hes _ he attempt tx)
    | _ => trivial
  prepares := hp

theorem await (h : Priced config b) {phase : Phase market}
    (hp : (b.await phase).Prepares config) : Priced config (b.await phase) :=
  h.pass [] (by simp [Broadcaster.await]) (by simp) hp

theorem seek (h : Priced config b) : Priced config (b.seekSuccessfulBroadcast err) := by
  unfold seekSuccessfulBroadcast
  split
  · exact h.await trivial
  · exact h.await trivial

theorem fail (h : Priced config b) {useNonce : Option ℕ} :
    Priced config (b.fail useNonce err) := by
  unfold Broadcaster.fail
  split
  · exact h.seek
  · exact h.await trivial

theorem initiateBroadcast (h : Priced config b) (hmax : 2 ≤ config.opts.sendMaxAttempts)
    (hr : b.Ready config) : Priced config (b.initiateBroadcast config tx) := by
  simp only [Broadcaster.initiateBroadcast]
  split
  · exact h.seek
  · constructor
    · change EachEntry _ (b.journal ++ [_])
      rw [eachEntry_concat]
      refine ⟨h.signed, fun hlast => hr (fun hnil => ?_) hlast⟩
      rw [hnil] at hlast
      simp at hlast
      omega
    · change _ = (b.broadcasts ++ [_]).length
      simp

theorem checkCappingAndPopulate (h : Priced config b) (hmax : 2 ≤ config.opts.sendMaxAttempts)
    (hr : b.Ready config) {gasLimit : ℤ} :
    Priced config (b.checkCappingAndPopulate config tx gasLimit) := by
  unfold Broadcaster.checkCappingAndPopulate
  split
  · exact h.seek
  · exact h.initiateBroadcast hmax hr

theorem populated (h : Priced config b) (hmax : 2 ≤ config.opts.sendMaxAttempts)
    (hr : b.Ready config) : Priced config (b.populated config tx) := by
  unfold Broadcaster.populated
  split
  · exact h.await hr
  · exact h.checkCappingAndPopulate hmax hr

/-- A transaction is pushed anew when there was none before, or the nonce was too low. -/
theorem pushTransaction (h : Priced config b) {template : TransactionTemplate}
    (hf : b.broadcasts = [] ∨ AfterNonceTooLow b.journal) :
    Priced config (b.pushTransaction config template) := by
  apply h.pass [.feesRequested (config.feeManager.effectiveGasCategory none)] rfl (by simp)
  intro hne _
  have hlow := hf.resolve_left hne
  change config.PricesLast (b.journal ++ [_])
  rw [BroadcasterConfig.PricesLast, pricedAggressively_concat,
    afterNonceTooLow_concat_feesRequested]
  exact (or_iff_left (not_not_intro hlow)).symm

theorem templateReady (h : Priced config b) {useNonce nonce : Option ℕ} {gas : Option ℤ}
    (hf : b.broadcasts = [] ∨ AfterNonceTooLow b.journal) :
    Priced config (b.templateReady config useNonce nonce gas) := by
  unfold Broadcaster.templateReady
  split
  · exact h.pushTransaction hf
  · exact h.await hf

/-- A replacement that is the last allowed attempt asks for aggressive fees. -/
theorem pushReplacementTransaction (h : Priced config b)
    (ha : broadcast.attempt = b.broadcasts.length) (hlow : ¬ AfterNonceTooLow b.journal) :
    Priced config (b.pushReplacementTransaction config broadcast) := by
  unfold Broadcaster.pushReplacementTransaction
  apply h.pass [.feesRequested _] rfl (by simp)
  intro _ hlast
  change config.PricesLast (b.journal ++ [_])
  rw [BroadcasterConfig.PricesLast, pricedAggressively_concat,
    afterNonceTooLow_concat_feesRequested]
  have hlast : config.opts.sendMaxAttempts = broadcast.attempt + 1 := by
    rw [← hlast, ha]
    rfl
  rw [if_pos hlast]
  exact iff_of_true rfl (.inr hlow)

theorem handleBroadcastRejection (h : Priced config b)
    (ha : broadcast.attempt = b.broadcasts.length) :
    Priced config (b.handleBroadcastRejection config broadcast err) := by
  have hemit : ∀ phase error, ((b.emit (.refused broadcast.tx error)).await phase).Prepares config →
      Priced config ((b.emit (.refused broadcast.tx error)).await phase) := by
    intro phase error hp
    exact h.pass [.refused broadcast.tx error] rfl (by simp) hp
  have hreplace : ∀ error, error ≠ .nonceTooLow → Priced config
      ((b.emit (.refused broadcast.tx error)).pushReplacementTransaction config broadcast) := by
    intro error hne
    apply (hemit (.signing broadcast) error ha).pushReplacementTransaction ha
    exact fun hlow => hne (afterNonceTooLow_concat_refused.mp hlow)
  simp only [Broadcaster.handleBroadcastRejection]
  generalize stringToError err = error
  cases error with
  | nonceTooLow => exact hemit _ _ (.inr (afterNonceTooLow_concat_refused.mpr rfl))
  | transactionUnderpriced => exact hreplace _ (by decide)
  | stuck => exact hreplace _ (by decide)
  | other => exact (hemit (.rejected err) _ trivial).seek

theorem handleBroadcastSuccess (h : Priced config b)
    (ha : broadcast.attempt = b.broadcasts.length) :
    Priced config (b.handleBroadcastSuccess config broadcast txHash) := by
  unfold Broadcaster.handleBroadcastSuccess
  split
  all_goals
    apply h.pass [.accepted broadcast.tx txHash] rfl (by simp)
    change _ = (b.broadcasts.map _).length
    rw [List.length_map]
    exact ha

theorem scheduleNextPoll (h : Priced config b) {error : String} {pollingAttempt : ℕ}
    (ha : broadcast.attempt = b.broadcasts.length) :
    Priced config ((b.emit (.polled txHash (.error error))).scheduleNextPoll config broadcast
      txHash pollingAttempt) := by
  have hpolled : Priced config ((b.emit (.polled txHash (.error error))).await
      (.waiting broadcast txHash pollingAttempt)) :=
    h.pass [.polled txHash (.error error)] rfl (by simp) ha
  unfold Broadcaster.scheduleNextPoll
  split
  · exact hpolled.pushReplacementTransaction ha not_afterNonceTooLow_concat_polled
  · exact hpolled

theorem move (h : Priced config b) (hmax : 2 ≤ config.opts.sendMaxAttempts)
    (hm : Move config b b') : Priced config b' := by
  have hprep := h.prepares
  unfold Broadcaster.Prepares at hprep
  cases hm with
  | located useNonce hp =>
    rw [hp] at hprep
    exact h.await hprep
  | counted gas count hp =>
    rw [hp] at hprep
    exact h.templateReady hprep
  | estimated useNonce nonce gas hp =>
    rw [hp] at hprep
    exact h.templateReady hprep
  | failed useNonce err hp => exact h.fail
  | populated template gasCategory fees hp =>
    rw [hp] at hprep
    exact h.populated hmax hprep
  | replaced broadcast gasCategory fees hp =>
    rw [hp] at hprep
    exact h.populated hmax hprep
  | capped tx gas hp =>
    rw [hp] at hprep
    exact h.checkCappingAndPopulate hmax hprep
  | unpriced err hp => exact h.seek
  | publish broadcast hp =>
    rw [hp] at hprep
    exact h.await hprep
  | refused broadcast err hp =>
    rcases hp with hp | hp
    · rw [hp] at hprep
      exact h.handleBroadcastRejection hprep
    · rw [hp] at hprep
      exact h.handleBroadcastRejection hprep
  | accepted broadcast txHash hp =>
    rw [hp] at hprep
    exact h.handleBroadcastSuccess hprep
  | timeout broadcast txHash pollingAttempt hp =>
    rw [hp] at hprep
    exact h.await hprep
  | found broadcast txHash pollingAttempt receipt hp =>
    exact h.pass [.polled txHash (.ok receipt)] rfl (by simp) trivial
  | missing broadcast txHash pollingAttempt err hp =>
    rw [hp] at hprep
    exact h.scheduleNextPoll hprep
  | sought previousError hashes receipts hp hlen =>
    refine h.pass _ rfl (fun e he attempt tx hs => ?_) ?_
    · obtain ⟨x, -, rfl⟩ := List.mem_map.mp he
      cases hs
    · exact prepares_of_isOver isOver_selectReceipt

end Priced

variable {t : List (Answer market)}

/-- The last allowed attempt is priced aggressively exactly if the options say so for all
transactions, or it does not follow a rejection because of the nonce. -/
theorem last_attempt_aggressive_iff (hmax : 2 ≤ config.opts.sendMaxAttempts)
    (h : (broadcaster config).Run t b) :
    EachEntry (OfLastAttempt config PricedAggressively) b.journal ↔
      config.EnforcesAggressive ∨
        EachEntry (OfLastAttempt config fun log => ¬ AfterNonceTooLow log) b.journal := by
  have hpriced : Priced config b :=
    h.invariant .initial fun _ _ _ hi hs => hi.move hmax (move_of_step hs)
  constructor
  · intro ha
    by_cases henforced : config.EnforcesAggressive
    · exact .inl henforced
    · right
      intro pre e post hlog
      cases e with
      | signed attempt tx =>
        intro hlast
        have hprice := hpriced.signed _ _ _ hlog hlast
        exact (hprice.mp (ha _ _ _ hlog hlast)).resolve_left henforced
      | _ => trivial
  · rintro hn pre e post hlog
    cases e with
    | signed attempt tx =>
      intro hlast
      have hprice := hpriced.signed _ _ _ hlog hlast
      exact hprice.mpr (hn.imp_right fun hn => hn _ _ _ hlog hlast)
    | _ => trivial

namespace Sample

/-- Two attempts are allowed. -/
def twoAttempts : BroadcasterConfig .legacy := { Sample.config with opts := ⟨2, 1⟩ }

/-- The second transaction is signed, after a rejection of the first one. -/
def rejectedOnce (answers : List (Answer .legacy)) : List (Answer .legacy) :=
  signed ++ answers ++ [.fees (.ok (.gasPrice 100)), .signature (.ok "0x")]

/-- What is signed for the nonce after that of the first transaction. -/
def second : PopulatedTxn .legacy := ⟨⟨"0x1", "0x2", "0x", none, 23100, 6⟩, .legacy 110⟩

end Sample

/-- The first transaction is underpriced, and its replacement is the last allowed attempt. -/
theorem last_attempt_aggressive_iff_underpriced :
    ∃ b, (broadcaster Sample.twoAttempts).Run
      (Sample.rejectedOnce [.sendRawTransaction (.error "underpriced")]) b ∧
      (EachEntry (OfLastAttempt Sample.twoAttempts PricedAggressively) b.journal ↔
        Sample.twoAttempts.EnforcesAggressive ∨
          EachEntry (OfLastAttempt Sample.twoAttempts fun log => ¬ AfterNonceTooLow log)
            b.journal) :=
  Machine.exists_run_and (by decide +kernel) fun _ h => last_attempt_aggressive_iff (by decide) h

/-- The first transaction is rejected because of its nonce, and the last allowed attempt has normal
fees. -/
theorem last_attempt_normal_after_nonce_too_low :
    ∃ b, (broadcaster Sample.twoAttempts).Run
      (Sample.rejectedOnce [.sendRawTransaction (.error "nonce too low"), .blockNumber (.ok 1),
        .estimateGas (.ok 21000)]) b ∧
      ¬ EachEntry (OfLastAttempt Sample.twoAttempts PricedAggressively) b.journal := by
  obtain ⟨b, hr, hb⟩ := Machine.exists_run_of_any (M := broadcaster Sample.twoAttempts)
    (t := Sample.rejectedOnce [.sendRawTransaction (.error "nonce too low"), .blockNumber (.ok 1),
      .estimateGas (.ok 21000)])
    (p := fun b => decide (b.journal[4]? = some (Entry.signed 2 Sample.second)) &&
      decide (latest Entry.requestedCategory (b.journal.take 4) = some .normal))
    (by decide +kernel)
  rw [Bool.and_eq_true, decide_eq_true_eq, decide_eq_true_eq] at hb
  obtain ⟨hsigned, hcategory⟩ := hb
  refine ⟨b, hr, fun h => ?_⟩
  have hprice : PricedAggressively (b.journal.take 4) := h.get hsigned rfl
  rw [PricedAggressively, hcategory] at hprice
  cases hprice

end Evm

end DlnTaker
