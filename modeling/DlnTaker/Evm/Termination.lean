import DlnTaker.Evm.Outcome

/-! # The limits of a broadcast

A run ends whatever is answered: every step lowers a rank that starts from the
attempts to send and to poll. Until then the run waits for calls, any outcome of
which it goes on with.
-/

namespace DlnTaker

namespace Evm

open Journal

variable {market : FeeMarket}

/-- A call whose outcome the run waits for. -/
inductive Call
  | getBlockNumber | getTransactionCount | estimateGas | fetchFees | sign | sendRawTransaction
  | setTimeout | getTransactionReceipt
  | getTransactionReceipts (count : ℕ)
  deriving DecidableEq, Repr

def Answer.call : Answer market → Call
  | blockNumber _ => .getBlockNumber
  | transactionCount _ => .getTransactionCount
  | estimateGas _ => .estimateGas
  | fees _ => .fetchFees
  | signature _ => .sign
  | sendRawTransaction _ => .sendRawTransaction
  | timeout => .setTimeout
  | receipt _ => .getTransactionReceipt
  | receipts responses => .getTransactionReceipts responses.length

/-- The calls that have been made and not been answered. -/
def Phase.pending : Phase market → List Call
  | blockNumber _ => [.getBlockNumber]
  | template _ none none => [.getTransactionCount, .estimateGas]
  | template _ none (some _) => [.getTransactionCount]
  | template _ (some _) _ | capping _ => [.estimateGas]
  | populating .. | replacing .. => [.fetchFees]
  | signing _ => [.sign]
  | publishing _ => [.sendRawTransaction]
  | waiting .. => [.setTimeout]
  | polling .. => [.getTransactionReceipt]
  | seeking _ hashes => [.getTransactionReceipts hashes.length]
  | resolved _ | rejected _ => []

/-- A given nonce is used, and a complete template does not wait. -/
def Phase.Expectant : Phase market → Prop
  | template useNonce nonce gas => (nonce = none → useNonce = none) ∧ (nonce = none ∨ gas = none)
  | _ => True

namespace EvmTxBroadcasterOpts

variable (opts : EvmTxBroadcasterOpts)

/-- How often a run signs at most. -/
def sendLimit : ℕ := opts.sendMaxAttempts.toNat

/-- How often a transaction is polled at most; the first poll is never left out. -/
def pollLimit : ℕ := max 1 opts.pollingMaxAttempts.toNat

/-- The steps of an attempt, with those to the next one. -/
def stepsPerAttempt : ℕ := 2 * opts.pollLimit + 7

/-- No run is longer. -/
def maxSteps : ℕ := opts.sendLimit * opts.stepsPerAttempt + 6

end EvmTxBroadcasterOpts

/-- The steps that a phase is away from the next attempt or from the end. -/
def Phase.rank (opts : EvmTxBroadcasterOpts) : Phase market → ℕ
  | signing _ => 8 + 2 * opts.pollLimit
  | publishing _ => 7 + 2 * opts.pollLimit
  | waiting _ _ pollingAttempt => 8 + 2 * (opts.pollLimit - (pollingAttempt + 1))
  | polling _ _ pollingAttempt => 7 + 2 * (opts.pollLimit - pollingAttempt)
  | blockNumber _ => 6
  | template _ none none => 5
  | template .. => 4
  | populating .. | replacing .. => 3
  | capping _ => 2
  | seeking .. => 1
  | resolved _ | rejected _ => 0

namespace Broadcaster

variable (opts : EvmTxBroadcasterOpts) (b : Broadcaster market)

/-- The steps that the attempts left over allow for. -/
def reserve : ℕ := (opts.sendLimit - b.broadcasts.length) * opts.stepsPerAttempt

def rank : ℕ := b.reserve opts + b.phase.rank opts

@[simp] theorem reserve_emit {e : Entry market} : (b.emit e).reserve opts = b.reserve opts := rfl

@[simp] theorem rank_await {phase : Phase market} :
    (b.await phase).rank opts = b.reserve opts + phase.rank opts := rfl

end Broadcaster

namespace Entry

def isSigned : Entry market → Bool
  | signed .. => true
  | _ => false

/-- The outcome of a poll of the hash. -/
def IsPollOf (txHash : String) (e : Entry market) : Prop := ∃ receipt, e = .polled txHash receipt

end Entry

/-- The log ends with an acceptance and some polls of its hash. -/
def EndsPolling (log : List (Entry market)) (tx : PopulatedTxn market) (txHash : String)
    (count : ℕ) : Prop :=
  ∃ pre polls, log = pre ++ .accepted tx txHash :: polls ∧
    (∀ e ∈ polls, e.IsPollOf txHash) ∧ polls.length = count

/-- A poll follows the acceptance of its hash, with nothing but polls of this hash in between, and
is one of the first ones of these. -/
def PolledWithin (limit : ℕ) (pre : List (Entry market)) (e : Entry market) : Prop :=
  ∀ txHash, e.IsPollOf txHash → ∃ tx count, EndsPolling pre tx txHash count ∧ count < limit

/-- What the limits of a broadcast say of a run: it is no longer than they allow, and until it is
over it waits for calls and goes on with any outcome of them. -/
structure WithinLimits (config : BroadcasterConfig market) (t : List (Answer market))
    (b : Broadcaster market) : Prop where
  length : t.length ≤ config.opts.maxSteps
  pending : b.phase.isOver = false → b.phase.pending ≠ []
  answered : ∀ a, Answer.call a ∈ b.phase.pending → (broadcasterStep config b a).isSome = true
  signed : b.journal.countP Entry.isSigned ≤ config.opts.sendMaxAttempts.toNat
  polled : EachEntry (PolledWithin (max 1 config.opts.pollingMaxAttempts.toNat)) b.journal
  sought : ∀ t₁ t₂ b₁ err hashes, t = t₁ ++ t₂ → (broadcaster config).Run t₁ b₁ →
    b₁.phase = .seeking err hashes → t₂ = [] ∨ t₂.length = 1 ∧ b.phase.isOver = true

/-- What the poller of the present phase has done. -/
def Broadcaster.Polls (opts : EvmTxBroadcasterOpts) (b : Broadcaster market) : Prop :=
  match b.phase with
  | .waiting broadcast txHash pollingAttempt => pollingAttempt < opts.pollLimit ∧
      EndsPolling b.journal broadcast.tx txHash pollingAttempt
  | .polling broadcast txHash pollingAttempt =>
      ∃ before, pollingAttempt = before + 1 ∧ before < opts.pollLimit ∧
        EndsPolling b.journal broadcast.tx txHash before
  | _ => True

/-- Holds in every reachable state. -/
structure Limited (config : BroadcasterConfig market) (b : Broadcaster market) : Prop where
  signed : b.journal.countP Entry.isSigned = b.broadcasts.length
  attempts : b.broadcasts.length ≤ config.opts.sendLimit
  polled : EachEntry (PolledWithin config.opts.pollLimit) b.journal
  polls : b.Polls config.opts
  expectant : b.phase.Expectant

open Broadcaster

variable {config : BroadcasterConfig market} {opts : EvmTxBroadcasterOpts}
  {b b' : Broadcaster market} {tx : PopulatedTxn market} {err txHash : String}
  {broadcast : InitiatedBroadcastAttempt market} {log : List (Entry market)} {count : ℕ}

/-! ### The end of a run -/

theorem Phase.rank_of_isOver {phase : Phase market} (h : phase.isOver = true) :
    phase.rank opts = 0 := by
  cases phase with
  | resolved receipt => rfl
  | rejected err => rfl
  | _ => cases h

theorem Phase.expectant_of_isOver {phase : Phase market} (h : phase.isOver = true) :
    phase.Expectant := by
  cases phase with
  | template useNonce nonce gas => cases h
  | _ => trivial

theorem polls_of_isOver (h : b.phase.isOver = true) : b.Polls opts := by
  unfold Polls
  split
  · rename_i hp
    rw [hp] at h
    cases h
  · rename_i hp
    rw [hp] at h
    cases h
  · trivial

/-! ### The rank -/

namespace Broadcaster

theorem rank_seekSuccessfulBroadcast_le :
    (b.seekSuccessfulBroadcast err).rank opts ≤ b.reserve opts + 1 := by
  unfold seekSuccessfulBroadcast
  split
  · exact Nat.le_succ _
  · exact le_rfl

theorem rank_fail_le {useNonce : Option ℕ} :
    (b.fail useNonce err).rank opts ≤ b.reserve opts + 1 := by
  unfold fail
  split
  · exact rank_seekSuccessfulBroadcast_le
  · exact Nat.le_succ _

/-- The next attempt is paid for by the reserve. -/
theorem rank_initiateBroadcast_le :
    (b.initiateBroadcast config tx).rank config.opts ≤ b.reserve config.opts + 1 := by
  simp only [initiateBroadcast]
  split
  · exact rank_seekSuccessfulBroadcast_le
  · rename_i hle
    have hlt : b.broadcasts.length < config.opts.sendLimit := by
      unfold EvmTxBroadcasterOpts.sendLimit
      omega
    have hreserve : b.reserve config.opts = config.opts.stepsPerAttempt +
        (config.opts.sendLimit - (b.broadcasts.length + 1)) * config.opts.stepsPerAttempt := by
      rw [reserve, ← one_add_mul]
      congr 1
      omega
    rw [rank_await, reserve_emit, reserve, List.length_append, List.length_singleton, hreserve,
      Phase.rank, EvmTxBroadcasterOpts.stepsPerAttempt]
    omega

theorem rank_checkCappingAndPopulate_le {gasLimit : ℤ} :
    (b.checkCappingAndPopulate config tx gasLimit).rank config.opts ≤
      b.reserve config.opts + 1 := by
  unfold checkCappingAndPopulate
  split
  · exact rank_seekSuccessfulBroadcast_le
  · exact rank_initiateBroadcast_le

theorem rank_populated_le :
    (b.populated config tx).rank config.opts ≤ b.reserve config.opts + 2 := by
  unfold populated
  split
  · exact le_rfl
  · exact rank_checkCappingAndPopulate_le.trans (Nat.le_succ _)

theorem rank_handleBroadcastRejection_le :
    (b.handleBroadcastRejection config broadcast err).rank config.opts ≤
      b.reserve config.opts + 6 := by
  simp only [handleBroadcastRejection]
  split
  · exact le_rfl
  · exact Nat.add_le_add_left (show 3 ≤ 6 by decide) _
  · exact Nat.add_le_add_left (show 3 ≤ 6 by decide) _
  · exact rank_seekSuccessfulBroadcast_le.trans (Nat.add_le_add_left (by decide) _)

/-- The poller either starts at once or waits for the first poll. -/
theorem rank_handleBroadcastSuccess_lt :
    (b.handleBroadcastSuccess config broadcast txHash).rank config.opts <
      b.reserve config.opts + (7 + 2 * config.opts.pollLimit) := by
  have hpos : 1 ≤ config.opts.pollLimit := le_max_left _ _
  have hreserve : (b.handleBroadcastSuccess config broadcast txHash).reserve config.opts =
      b.reserve config.opts := by
    simp only [handleBroadcastSuccess]
    split <;> simp [reserve, await, emit]
  rw [rank, hreserve, Nat.add_lt_add_iff_left]
  simp only [handleBroadcastSuccess]
  split
  · change 7 + 2 * (config.opts.pollLimit - 1) < _
    omega
  · change 8 + 2 * (config.opts.pollLimit - 1) < _
    omega

theorem rank_scheduleNextPoll_lt {pollingAttempt : ℕ} :
    (b.scheduleNextPoll config broadcast txHash pollingAttempt).rank config.opts <
      b.reserve config.opts + (7 + 2 * (config.opts.pollLimit - pollingAttempt)) := by
  unfold scheduleNextPoll
  split
  · rw [pushReplacementTransaction, rank_await, reserve_emit, Phase.rank]
    omega
  · rename_i hlt
    have hlimit : pollingAttempt < config.opts.pollLimit := by
      unfold EvmTxBroadcasterOpts.pollLimit
      omega
    rw [rank_await, Phase.rank]
    omega

end Broadcaster

/-- Every step of a run lowers the rank. -/
theorem rank_lt_of_move (hm : Move config b b') : b'.rank config.opts < b.rank config.opts := by
  have hrank : ∀ {phase : Phase market}, b.phase = phase →
      b.rank config.opts = b.reserve config.opts + phase.rank config.opts := by
    rintro _ rfl
    rfl
  cases hm with
  | located useNonce hp =>
    rw [hrank hp]
    cases useNonce
    · exact Nat.add_lt_add_left (show 5 < 6 by decide) _
    · exact Nat.add_lt_add_left (show 4 < 6 by decide) _
  | counted gas count hp =>
    rw [hrank hp]
    cases gas
    · exact Nat.add_lt_add_left (show 4 < 5 by decide) _
    · exact Nat.add_lt_add_left (show 3 < 4 by decide) _
  | estimated useNonce nonce gas hp =>
    rw [hrank hp]
    cases nonce
    · exact Nat.add_lt_add_left (show 4 < 5 by decide) _
    · exact Nat.add_lt_add_left (show 3 < 4 by decide) _
  | failed useNonce err hp =>
    refine rank_fail_le.trans_lt ?_
    rcases hp with hp | ⟨nonce, gas, hp⟩
    · rw [hrank hp]
      exact Nat.add_lt_add_left (show 1 < 6 by decide) _
    · rw [hrank hp]
      cases nonce <;> cases gas
      · exact Nat.add_lt_add_left (show 1 < 5 by decide) _
      all_goals exact Nat.add_lt_add_left (show 1 < 4 by decide) _
  | populated template gasCategory fees hp =>
    rw [hrank hp]
    exact rank_populated_le.trans_lt (Nat.lt_succ_self _)
  | replaced broadcast gasCategory fees hp =>
    rw [hrank hp]
    exact rank_populated_le.trans_lt (Nat.lt_succ_self _)
  | capped tx gas hp =>
    rw [hrank hp]
    exact rank_checkCappingAndPopulate_le.trans_lt (Nat.lt_succ_self _)
  | unpriced err hp =>
    refine rank_seekSuccessfulBroadcast_le.trans_lt ?_
    rcases hp with ⟨_, _, hp⟩ | ⟨_, _, hp⟩ | ⟨_, hp⟩
    · rw [hrank hp]
      exact Nat.add_lt_add_left (show 1 < 3 by decide) _
    · rw [hrank hp]
      exact Nat.add_lt_add_left (show 1 < 3 by decide) _
    · rw [hrank hp]
      exact Nat.lt_succ_self _
  | publish broadcast hp =>
    rw [hrank hp]
    exact Nat.add_lt_add_left (Nat.add_lt_add_right (by decide) _) _
  | refused broadcast err hp =>
    refine rank_handleBroadcastRejection_le.trans_lt ?_
    rcases hp with hp | hp
    · rw [hrank hp]
      exact Nat.add_lt_add_left (Nat.lt_add_right _ (by decide)) _
    · rw [hrank hp]
      exact Nat.add_lt_add_left (Nat.lt_add_right _ (by decide)) _
  | accepted broadcast txHash hp =>
    rw [hrank hp]
    exact rank_handleBroadcastSuccess_lt
  | timeout broadcast txHash pollingAttempt hp =>
    rw [hrank hp]
    exact Nat.add_lt_add_left (Nat.add_lt_add_right (by decide) _) _
  | found broadcast txHash pollingAttempt receipt hp =>
    rw [hrank hp]
    exact Nat.add_lt_add_left (Nat.lt_add_right _ (show 0 < 7 by decide)) _
  | missing broadcast txHash pollingAttempt err hp =>
    rw [hrank hp]
    exact rank_scheduleNextPoll_lt
  | sought previousError hashes receipts hp hlen =>
    rw [hrank hp]
    refine Nat.add_lt_add_left ?_ _
    rw [Phase.rank_of_isOver isOver_selectReceipt]
    exact Nat.one_pos

/-! ### The calls that are waited for -/

theorem pending_eq_nil_iff {phase : Phase market} : phase.pending = [] ↔ phase.isOver = true := by
  cases phase with
  | template useNonce nonce gas => cases nonce <;> cases gas <;> simp [Phase.pending, Phase.isOver]
  | _ => simp [Phase.pending, Phase.isOver]

/-- What a call is answered with. -/
theorem Answer.of_call {a : Answer market} {call : Call} (h : a.call = call) :
    match call with
    | .getBlockNumber => ∃ answer, a = .blockNumber answer
    | .getTransactionCount => ∃ answer, a = .transactionCount answer
    | .estimateGas => ∃ answer, a = .estimateGas answer
    | .fetchFees => ∃ answer, a = .fees answer
    | .sign => ∃ answer, a = .signature answer
    | .sendRawTransaction => ∃ response, a = .sendRawTransaction response
    | .setTimeout => a = .timeout
    | .getTransactionReceipt => ∃ response, a = .receipt response
    | .getTransactionReceipts count =>
      ∃ responses, a = .receipts responses ∧ responses.length = count := by
  subst h
  cases a with
  | timeout => rfl
  | receipts responses => exact ⟨responses, rfl, rfl⟩
  | _ => exact ⟨_, rfl⟩

/-- A run goes on with any outcome of a call it waits for. -/
theorem isSome_step_of_pending {a : Answer market} (he : b.phase.Expectant)
    (h : a.call ∈ b.phase.pending) : (broadcasterStep config b a).isSome = true := by
  obtain ⟨phase, hp⟩ : ∃ phase, b.phase = phase := ⟨_, rfl⟩
  rw [hp] at h he
  cases phase with
  | blockNumber useNonce =>
    obtain ⟨answer, rfl⟩ := Answer.of_call (List.mem_singleton.mp h)
    simp only [broadcasterStep, hp]
    cases answer <;> rfl
  | template useNonce nonce gas =>
    cases nonce with
    | none =>
      obtain rfl := he.1 rfl
      cases gas with
      | none =>
        rcases List.mem_pair.mp h with h | h
        · obtain ⟨answer, rfl⟩ := Answer.of_call h
          simp only [broadcasterStep, hp]
          cases answer <;> rfl
        · obtain ⟨answer, rfl⟩ := Answer.of_call h
          simp only [broadcasterStep, hp]
          cases answer <;> rfl
      | some gas =>
        obtain ⟨answer, rfl⟩ := Answer.of_call (List.mem_singleton.mp h)
        simp only [broadcasterStep, hp]
        cases answer <;> rfl
    | some nonce =>
      obtain rfl : gas = none := he.2.resolve_left (by simp)
      obtain ⟨answer, rfl⟩ := Answer.of_call (List.mem_singleton.mp h)
      simp only [broadcasterStep, hp]
      cases answer <;> rfl
  | populating template gasCategory =>
    obtain ⟨answer, rfl⟩ := Answer.of_call (List.mem_singleton.mp h)
    simp only [broadcasterStep, hp]
    cases answer <;> rfl
  | replacing broadcast gasCategory =>
    obtain ⟨answer, rfl⟩ := Answer.of_call (List.mem_singleton.mp h)
    simp only [broadcasterStep, hp]
    cases answer <;> rfl
  | capping tx =>
    obtain ⟨answer, rfl⟩ := Answer.of_call (List.mem_singleton.mp h)
    simp only [broadcasterStep, hp]
    cases answer <;> rfl
  | signing broadcast =>
    obtain ⟨answer, rfl⟩ := Answer.of_call (List.mem_singleton.mp h)
    simp only [broadcasterStep, hp]
    cases answer <;> rfl
  | publishing broadcast =>
    obtain ⟨response, rfl⟩ := Answer.of_call (List.mem_singleton.mp h)
    simp only [broadcasterStep, hp]
    split
    · rfl
    · split <;> rfl
  | waiting broadcast txHash pollingAttempt =>
    obtain rfl : a = .timeout := Answer.of_call (List.mem_singleton.mp h)
    simp only [broadcasterStep, hp]
    rfl
  | polling broadcast txHash pollingAttempt =>
    obtain ⟨response, rfl⟩ := Answer.of_call (List.mem_singleton.mp h)
    simp only [broadcasterStep, hp]
    split <;> rfl
  | seeking previousError hashes =>
    obtain ⟨responses, rfl, hlen⟩ := Answer.of_call (List.mem_singleton.mp h)
    simp only [broadcasterStep, hp, if_pos hlen]
    rfl
  | resolved receipt => cases h
  | rejected err => cases h

/-- A search is followed by the end. -/
theorem isOver_of_seeking {hashes : List String} (hm : Move config b b')
    (hp : b.phase = .seeking err hashes) : b'.phase.isOver = true := by
  cases hm with
  | sought previousError hashes receipts => exact isOver_selectReceipt
  | failed useNonce err hp' =>
    rcases hp' with hp' | ⟨_, _, hp'⟩
    all_goals cases hp.symm.trans hp'
  | unpriced err hp' =>
    rcases hp' with ⟨_, _, hp'⟩ | ⟨_, _, hp'⟩ | ⟨_, hp'⟩
    all_goals cases hp.symm.trans hp'
  | refused broadcast err hp' =>
    rcases hp' with hp' | hp'
    all_goals cases hp.symm.trans hp'
  | _ => simp_all

/-- The end is followed by nothing. -/
theorem isOver_eq_false_of_move (hm : Move config b b') : b.phase.isOver = false := by
  cases hm with
  | failed useNonce err hp =>
    rcases hp with hp | ⟨_, _, hp⟩
    all_goals rw [hp]; rfl
  | unpriced err hp =>
    rcases hp with ⟨_, _, hp⟩ | ⟨_, _, hp⟩ | ⟨_, hp⟩
    all_goals rw [hp]; rfl
  | refused broadcast err hp =>
    rcases hp with hp | hp
    all_goals rw [hp]; rfl
  | _ => simp_all [Phase.isOver]

/-! ### The invariant -/

namespace Entry

/-- An entry that is neither a signature nor a poll. -/
def IsIdle (e : Entry market) : Prop := e.isSigned = false ∧ ∀ txHash, ¬ e.IsPollOf txHash

@[simp] theorem isIdle_feesRequested {gasCategory : GasCategory} :
    (feesRequested gasCategory : Entry market).IsIdle :=
  ⟨rfl, by rintro _ ⟨_, h⟩; cases h⟩

@[simp] theorem isIdle_accepted : (accepted tx txHash : Entry market).IsIdle :=
  ⟨rfl, by rintro _ ⟨_, h⟩; cases h⟩

@[simp] theorem isIdle_refused {err : EvmRpcError} : (refused tx err : Entry market).IsIdle :=
  ⟨rfl, by rintro _ ⟨_, h⟩; cases h⟩

@[simp] theorem isIdle_sought {receipt : Except String TransactionReceipt} :
    (sought txHash receipt : Entry market).IsIdle :=
  ⟨rfl, by rintro _ ⟨_, h⟩; cases h⟩

end Entry

theorem endsPolling_accepted : EndsPolling (log ++ [.accepted tx txHash]) tx txHash 0 :=
  ⟨log, [], rfl, by simp, rfl⟩

theorem EndsPolling.poll (h : EndsPolling log tx txHash count)
    (receipt : Except String TransactionReceipt) :
    EndsPolling (log ++ [.polled txHash receipt]) tx txHash (count + 1) := by
  obtain ⟨pre, polls, rfl, hpolls, rfl⟩ := h
  refine ⟨pre, polls ++ [.polled txHash receipt], by simp, fun e he => ?_, by simp⟩
  rcases List.mem_append.mp he with he | he
  · exact hpolls e he
  · rw [List.mem_singleton.mp he]
    exact ⟨receipt, rfl⟩

namespace Limited

theorem initial : Limited config .initial where
  signed := rfl
  attempts := Nat.zero_le _
  polled := eachEntry_nil
  polls := trivial
  expectant := trivial

variable {es : List (Entry market)}

/-- Idle entries and a change of phase. -/
theorem pass (hl : Limited config b) (es : List (Entry market))
    (hb : b'.broadcasts.length = b.broadcasts.length) (hj : b'.journal = b.journal ++ es)
    (hes : ∀ e ∈ es, e.IsIdle) (hp : b'.Polls config.opts) (he : b'.phase.Expectant) :
    Limited config b' where
  signed := by
    have hnone : es.countP Entry.isSigned = 0 :=
      List.countP_eq_zero.mpr fun e hm => by simp [(hes e hm).1]
    rw [hj, hb, List.countP_append, hnone, Nat.add_zero]
    exact hl.signed
  attempts := hb ▸ hl.attempts
  polled := by
    rw [hj]
    exact hl.polled.append fun e hm pre txHash hpoll => absurd hpoll ((hes e hm).2 txHash)
  polls := hp
  expectant := he

theorem await (hl : Limited config b) {phase : Phase market}
    (hp : (b.await phase).Polls config.opts) (he : phase.Expectant) :
    Limited config (b.await phase) :=
  hl.pass [] rfl (by simp) (by simp) hp he

theorem seek (hl : Limited config b) (es : List (Entry market))
    (hb : b'.broadcasts.length = b.broadcasts.length) (hj : b'.journal = b.journal ++ es)
    (hes : ∀ e ∈ es, e.IsIdle) : Limited config (b'.seekSuccessfulBroadcast err) := by
  unfold seekSuccessfulBroadcast
  split
  all_goals exact hl.pass es hb hj hes trivial trivial

theorem fail (hl : Limited config b) {useNonce : Option ℕ} :
    Limited config (b.fail useNonce err) := by
  unfold Broadcaster.fail
  split
  · exact hl.seek [] rfl (by simp) (by simp)
  · exact hl.await trivial trivial

theorem initiateBroadcast (hl : Limited config b) :
    Limited config (b.initiateBroadcast config tx) := by
  simp only [Broadcaster.initiateBroadcast]
  split
  · exact hl.seek [] rfl (by simp) (by simp)
  · rename_i hle
    constructor
    · change (b.journal ++ [_]).countP _ = (b.broadcasts ++ [_]).length
      rw [List.countP_append, hl.signed, List.length_append]
      rfl
    · change (b.broadcasts ++ [_]).length ≤ _
      rw [List.length_append, List.length_singleton, EvmTxBroadcasterOpts.sendLimit]
      omega
    · change EachEntry _ (b.journal ++ [_])
      rw [eachEntry_concat]
      refine ⟨hl.polled, ?_⟩
      rintro _ ⟨_, h⟩
      cases h
    · trivial
    · trivial

theorem checkCappingAndPopulate (hl : Limited config b) {gasLimit : ℤ} :
    Limited config (b.checkCappingAndPopulate config tx gasLimit) := by
  unfold Broadcaster.checkCappingAndPopulate
  split
  · exact hl.seek [] rfl (by simp) (by simp)
  · exact hl.initiateBroadcast

theorem populated (hl : Limited config b) : Limited config (b.populated config tx) := by
  unfold Broadcaster.populated
  split
  · exact hl.await trivial trivial
  · exact hl.checkCappingAndPopulate

theorem templateReady (hl : Limited config b) {useNonce nonce : Option ℕ} {gas : Option ℤ}
    (hnone : nonce = none → useNonce = none) :
    Limited config (b.templateReady config useNonce nonce gas) := by
  unfold Broadcaster.templateReady
  split
  · exact hl.pass [.feesRequested _] rfl rfl (by simp) trivial trivial
  · rename_i hincomplete
    refine hl.await trivial ⟨hnone, ?_⟩
    cases nonce with
    | none => exact .inl rfl
    | some nonce =>
      cases gas with
      | none => exact .inr rfl
      | some gas => exact absurd rfl (hincomplete nonce gas rfl)

theorem replace (hl : Limited config b) (hb : b'.broadcasts = b.broadcasts)
    (hj : b'.journal = b.journal) :
    Limited config (b'.pushReplacementTransaction config broadcast) := by
  obtain ⟨gasCategory, hgas⟩ : ∃ gasCategory,
      (b'.pushReplacementTransaction config broadcast).journal =
        b'.journal ++ [.feesRequested gasCategory] := ⟨_, rfl⟩
  rw [hj] at hgas
  exact hl.pass _ (congrArg List.length hb) hgas (by simp) trivial trivial

theorem handleBroadcastRejection (hl : Limited config b) :
    Limited config (b.handleBroadcastRejection config broadcast err) := by
  have hrefused : Limited config
      ((b.emit (.refused broadcast.tx (stringToError err))).await (.rejected err)) :=
    hl.pass [.refused _ _] rfl rfl (by simp) trivial trivial
  simp only [Broadcaster.handleBroadcastRejection]
  split
  · exact hl.pass [.refused _ _] rfl rfl (by simp) trivial trivial
  · exact hrefused.replace rfl rfl
  · exact hrefused.replace rfl rfl
  · exact hl.seek [.refused _ _] rfl rfl (by simp)

theorem handleBroadcastSuccess (hl : Limited config b) :
    Limited config (b.handleBroadcastSuccess config broadcast txHash) := by
  have hpos : 0 < config.opts.pollLimit := Nat.lt_of_lt_of_le Nat.one_pos (le_max_left _ _)
  simp only [Broadcaster.handleBroadcastSuccess]
  split
  · refine hl.pass [.accepted broadcast.tx txHash] (List.length_map _) rfl (by simp) ?_ trivial
    exact ⟨0, rfl, hpos, endsPolling_accepted⟩
  · refine hl.pass [.accepted broadcast.tx txHash] (List.length_map _) rfl (by simp) ?_ trivial
    exact ⟨hpos, endsPolling_accepted⟩

/-- The outcome of a poll, and a change of phase. -/
theorem poll (hl : Limited config b) (he : EndsPolling b.journal tx txHash count)
    (hlt : count < config.opts.pollLimit) (receipt : Except String TransactionReceipt)
    {phase : Phase market}
    (hp : ((b.emit (.polled txHash receipt)).await phase).Polls config.opts)
    (hx : phase.Expectant) :
    Limited config ((b.emit (.polled txHash receipt)).await phase) where
  signed := by
    change (b.journal ++ [_]).countP _ = _
    rw [List.countP_append, hl.signed]
    rfl
  attempts := hl.attempts
  polled := by
    change EachEntry _ (b.journal ++ [_])
    rw [eachEntry_concat]
    refine ⟨hl.polled, ?_⟩
    rintro _ ⟨_, h⟩
    cases h
    exact ⟨tx, count, he, hlt⟩
  polls := hp
  expectant := hx

theorem scheduleNextPoll (hl : Limited config b)
    (he : EndsPolling b.journal broadcast.tx txHash count) (hlt : count < config.opts.pollLimit) :
    Limited config ((b.emit (.polled txHash (.error err))).scheduleNextPoll config broadcast txHash
      (count + 1)) := by
  unfold Broadcaster.scheduleNextPoll
  split
  · have hpolled : Limited config ((b.emit (.polled txHash (.error err))).await (.rejected err)) :=
      hl.poll he hlt _ trivial trivial
    exact hpolled.replace rfl rfl
  · rename_i hnext
    refine hl.poll he hlt _ ⟨?_, he.poll _⟩ trivial
    unfold EvmTxBroadcasterOpts.pollLimit
    omega

theorem move (hl : Limited config b) (hm : Move config b b') : Limited config b' := by
  have hpolls := hl.polls
  have hexpectant := hl.expectant
  unfold Polls at hpolls
  cases hm with
  | located useNonce hp => exact hl.await trivial ⟨id, .inr rfl⟩
  | counted gas count hp => exact hl.templateReady fun _ => rfl
  | estimated useNonce nonce gas hp =>
    rw [hp] at hexpectant
    exact hl.templateReady hexpectant.1
  | failed useNonce err hp => exact hl.fail
  | populated template gasCategory fees hp => exact hl.populated
  | replaced broadcast gasCategory fees hp => exact hl.populated
  | capped tx gas hp => exact hl.checkCappingAndPopulate
  | unpriced err hp => exact hl.seek [] rfl (by simp) (by simp)
  | publish broadcast hp => exact hl.await trivial trivial
  | refused broadcast err hp => exact hl.handleBroadcastRejection
  | accepted broadcast txHash hp => exact hl.handleBroadcastSuccess
  | timeout broadcast txHash pollingAttempt hp =>
    rw [hp] at hpolls
    exact hl.await ⟨pollingAttempt, rfl, hpolls⟩ trivial
  | found broadcast txHash pollingAttempt receipt hp =>
    rw [hp] at hpolls
    obtain ⟨before, rfl, hlt, he⟩ := hpolls
    exact hl.poll he hlt _ trivial trivial
  | missing broadcast txHash pollingAttempt err hp =>
    rw [hp] at hpolls
    obtain ⟨before, rfl, hlt, he⟩ := hpolls
    exact hl.scheduleNextPoll he hlt
  | sought previousError hashes receipts hp hlen =>
    refine hl.pass ((hashes.zip receipts).map fun x => .sought x.1 x.2) rfl rfl ?_ ?_ ?_
    · intro e he
      obtain ⟨x, -, rfl⟩ := List.mem_map.mp he
      exact Entry.isIdle_sought
    · exact polls_of_isOver isOver_selectReceipt
    · exact Phase.expectant_of_isOver isOver_selectReceipt

end Limited

variable {t t₁ t₂ : List (Answer market)} {b₁ : Broadcaster market}

/-- A search takes one step, which is the last one. -/
theorem search_is_last {hashes : List String} (h : (broadcaster config).Run (t₁ ++ t₂) b)
    (h₁ : (broadcaster config).Run t₁ b₁) (hp : b₁.phase = .seeking err hashes) :
    t₂ = [] ∨ t₂.length = 1 ∧ b.phase.isOver = true := by
  have hexec : (broadcaster config).exec b₁ t₂ = some b := by
    have hexec := Machine.run_iff_exec.mp h
    rwa [Machine.exec_append, Machine.run_iff_exec.mp h₁] at hexec
  cases t₂ with
  | nil => exact .inl rfl
  | cons a t₂ =>
    obtain ⟨b₂, hs, hexec⟩ := Option.bind_eq_some_iff.mp hexec
    have hover : b₂.phase.isOver = true := isOver_of_seeking (move_of_step hs) hp
    cases t₂ with
    | nil =>
      obtain rfl := Option.some.inj hexec
      exact .inr ⟨rfl, hover⟩
    | cons a' t₂ =>
      obtain ⟨b₃, hs', -⟩ := Option.bind_eq_some_iff.mp hexec
      rw [isOver_eq_false_of_move (move_of_step hs')] at hover
      cases hover

/-- Every run is within the limits, whatever the node, the fee manager and the signer answer. -/
theorem broadcast_within_limits (h : (broadcaster config).Run t b) : WithinLimits config t b := by
  have hl : Limited config b :=
    h.invariant .initial fun _ _ _ hl hs => hl.move (move_of_step hs)
  constructor
  · have hlen := h.length_add_rank_le fun _ _ _ hs => rank_lt_of_move (move_of_step hs)
    exact (Nat.le_add_right _ _).trans hlen
  · intro hover hnil
    rw [pending_eq_nil_iff.mp hnil] at hover
    cases hover
  · intro a ha
    exact isSome_step_of_pending hl.expectant ha
  · exact hl.signed.trans_le hl.attempts
  · exact hl.polled
  · rintro t₁ t₂ b₁ err hashes rfl h₁ hp
    exact search_is_last h h₁ hp

namespace Sample

/-- Both polls fail, the replacement is refused, and the search finds the first transaction. -/
def sought : List (Answer .legacy) :=
  signed ++ [.sendRawTransaction (.result (some "0xa")), .timeout, .receipt (.result none),
    .fees (.ok (.gasPrice 100)), .signature (.ok "0x"), .sendRawTransaction (.error "refused"),
    .receipts [.result (some ⟨"0xa", .bool true⟩)]]

end Sample

theorem broadcast_within_limits_sought :
    ∃ b, (broadcaster Sample.config).Run Sample.sought b ∧
      WithinLimits Sample.config Sample.sought b := by
  apply Machine.exists_run_and
  · decide +kernel
  · intro b hr
    exact broadcast_within_limits hr

end Evm

end DlnTaker
