import Mathlib.Logic.Function.Basic
import DlnTaker.Evm.Nonces

/-! # Two payloads of one signer

The fulfilment of an order and a batch unlock may be sent by the same account at
the same time, each by a broadcaster of its own that knows nothing of the other.
The node keeps the accepted transactions of the account by nonce until they are
included. As long as a run takes over only nonces that the other one does not
use, no transaction of either replaces one of the other.
-/

namespace DlnTaker

namespace Evm

variable {market : FeeMarket}

structure InputTransaction where
  data : String
  «to» : String
  value : Option String
  cappedFee : Option ℤ

structure EvmTxSigner (market : FeeMarket) where
  address : String
  feeManager : EvmFeeManager market
  broadcasterOpts : EvmTxBroadcasterOpts
  pollImmediately : Bool

/-- The broadcaster that `sendTransaction` creates. -/
def EvmTxSigner.sendTransaction (signer : EvmTxSigner market) (tx : InputTransaction) :
    BroadcasterConfig market where
  inputTx := { «from» := signer.address, data := tx.data, «to» := tx.to, value := tx.value }
  cappedFee := tx.cappedFee
  feeManager := signer.feeManager
  opts := signer.broadcasterOpts
  pollImmediately := signer.pollImmediately

/-- Who sends: the order processor or the batch unlocker. -/
inductive Payload
  | fulfil | unlock
  deriving DecidableEq, Repr

def Payload.other : Payload → Payload
  | fulfil => unlock
  | unlock => fulfil

@[simp] theorem Payload.other_other (i : Payload) : i.other.other = i := by cases i <;> rfl

@[simp] theorem Payload.other_ne (i : Payload) : i.other ≠ i := by cases i <;> decide

theorem Payload.eq_other_of_ne {i j : Payload} (h : j ≠ i) : j = i.other := by
  cases i <;> cases j <;> first | rfl | exact absurd rfl h

/-- The two runs, the transaction count of the account at the node, and for each nonce the run
whose accepted transaction waits to be included. -/
structure SignerState (market : FeeMarket) where
  runs : Payload → Broadcaster market
  transactionCount : ℕ
  pool : ℕ → Option Payload

inductive SignerInput (market : FeeMarket)
  | answer (i : Payload) (answer : Answer market)
  | mined
  | drop (nonce : ℕ)

/-- The nonce of the transaction that the node accepts with an answer. -/
def Broadcaster.acceptedNonce (b : Broadcaster market) : Answer market → Option ℕ
  | .sendRawTransaction response =>
    match rpcCall "eth_sendRawTransaction" response with
    | .ok (some txHash) => if txHash ≠ "" then b.outstanding.map (·.nonce) else none
    | _ => none
  | _ => none

/-- The node reports no transaction count it has not reached and accepts no transaction whose
nonce is included; in all other answers it is free. -/
def signerStep (config : Payload → BroadcasterConfig market) (s : SignerState market) :
    SignerInput market → Option (SignerState market)
  | .answer i answer =>
    match broadcasterStep (config i) (s.runs i) answer with
    | none => none
    | some b =>
      let runs := Function.update s.runs i b
      match answer, (s.runs i).acceptedNonce answer with
      | .transactionCount (.ok count), _ =>
        if count ≤ s.transactionCount then some { s with runs } else none
      | _, some nonce =>
        if s.transactionCount ≤ nonce then
          some { s with runs, pool := Function.update s.pool nonce (some i) }
        else none
      | _, none => some { s with runs }
  | .mined =>
    if (s.pool s.transactionCount).isSome then
      some { s with
        transactionCount := s.transactionCount + 1
        pool := Function.update s.pool s.transactionCount none }
    else none
  | .drop nonce => some { s with pool := Function.update s.pool nonce none }

/-- Two concurrent calls of `sendTransaction` of one signer. -/
def signerSystem (signer : EvmTxSigner market) (payloads : Payload → InputTransaction)
    (transactionCount : ℕ) : Machine (SignerState market) (SignerInput market) where
  init := ⟨fun _ => .initial, transactionCount, fun _ => none⟩
  step := signerStep fun i => signer.sendTransaction (payloads i)

/-- No signed transaction has the nonce of a pending transaction of the other payload. -/
def NoCompetition (s : SignerState market) : Prop := ∀ i tx,
  (s.runs i).outstanding = some tx → s.pool tx.nonce ≠ some i.other

/-- The other payload neither works with the nonce nor has a transaction pending with it. -/
def SignerState.Unused (s : SignerState market) (i : Payload) (nonce : ℕ) : Prop :=
  (s.runs i.other).stage ≠ .using nonce ∧ s.pool nonce ≠ some i.other

/-- A run that takes over a nonce with this input finds it unused by the other one. -/
def TakesUnused (s : SignerState market) : SignerInput market → Prop
  | .answer i answer =>
    match (s.runs i).assigned answer with
    | some nonce => s.Unused i nonce
    | none => True
  | _ => True

instance (s : SignerState market) (i : SignerInput market) : Decidable (TakesUnused s i) := by
  unfold TakesUnused SignerState.Unused; split
  · split <;> infer_instance
  · infer_instance

/-- The runs work with different nonces, and with none that is pending for the other. -/
structure Apart (s : SignerState market) : Prop where
  stages : ∀ i nonce, (s.runs i).stage = .using nonce → (s.runs i.other).stage ≠ .using nonce
  pool : ∀ i nonce, s.pool nonce = some i → (s.runs i.other).stage ≠ .using nonce

variable {s s' : SignerState market} {i : Payload} {b : Broadcaster market}
  {a : Answer market} {config : Payload → BroadcasterConfig market}

theorem Apart.noCompetition (h : Apart s) : NoCompetition s := by
  intro i tx htx hp
  have hn := h.pool i.other tx.nonce hp
  rw [Payload.other_other] at hn
  exact hn (stage_of_outstanding htx)

/-- What an answer does: a step of one run, and maybe a transaction of it becomes pending. -/
theorem signerStep_answer (h : signerStep config s (.answer i a) = some s') :
    ∃ b, broadcasterStep (config i) (s.runs i) a = some b ∧
      s'.runs = Function.update s.runs i b ∧
      (s'.pool = s.pool ∨ ∃ nonce, (s.runs i).acceptedNonce a = some nonce ∧
        s'.pool = Function.update s.pool nonce (some i)) := by
  simp only [signerStep] at h
  split at h
  · cases h
  · rename_i b hb
    refine ⟨b, hb, ?_⟩
    split at h
    · split at h
      · obtain rfl := Option.some.inj h
        exact ⟨rfl, .inl rfl⟩
      · cases h
    · rename_i nonce _ hn
      split at h
      · obtain rfl := Option.some.inj h
        exact ⟨rfl, .inr ⟨nonce, hn, rfl⟩⟩
      · cases h
    · obtain rfl := Option.some.inj h
      exact ⟨rfl, .inl rfl⟩

theorem stage_of_acceptedNonce {b : Broadcaster market} {nonce : ℕ}
    (h : b.acceptedNonce a = some nonce) : b.stage = .using nonce := by
  have : b.outstanding.map (·.nonce) = some nonce := by
    unfold Broadcaster.acceptedNonce at h
    repeat' split at h
    all_goals first | exact h | cases h
  obtain ⟨tx, htx, rfl⟩ := Option.map_eq_some_iff.mp this
  exact stage_of_outstanding htx

/-- A step of one run that takes over only an unused nonce. -/
theorem Apart.ofAnswer (h : Apart s) (hu : TakesUnused s (.answer i a))
    (hs : signerStep config s (.answer i a) = some s') : Apart s' := by
  obtain ⟨b, hb, hruns, hpool⟩ := signerStep_answer hs
  have hrun : s'.runs i = b := by simp [hruns]
  have hother : s'.runs i.other = s.runs i.other := by simp [hruns]
  -- the nonce the run works with now: its old one, or one the other does not use
  have hstage : ∀ nonce, b.stage = .using nonce → s.Unused i nonce := by
    intro nonce hn
    rcases (turn_of_step hb).stage_cases with hk | he | ⟨nonce', ha, hk⟩
    · have hold : (s.runs i).stage = .using nonce := hk ▸ hn
      refine ⟨h.stages i nonce hold, fun hp => h.pool i.other nonce hp ?_⟩
      rw [Payload.other_other]
      exact hold
    · rw [he] at hn; cases hn
    · obtain rfl : nonce' = nonce := Stage.using.inj (hk.symm.trans hn)
      simpa only [TakesUnused, ha] using hu
  have hold : ∀ j nonce, s.pool nonce = some j → (s'.runs j.other).stage ≠ .using nonce := by
    intro j nonce hp hn
    by_cases hj : j = i
    · subst hj
      rw [hother] at hn
      exact h.pool j nonce hp hn
    · obtain rfl := Payload.eq_other_of_ne hj
      rw [Payload.other_other, hrun] at hn
      exact (hstage nonce hn).2 hp
  constructor
  · intro j nonce hn ho
    by_cases hj : j = i
    · subst hj
      rw [hrun] at hn
      rw [hother] at ho
      exact (hstage nonce hn).1 ho
    · obtain rfl := Payload.eq_other_of_ne hj
      rw [hother] at hn
      rw [Payload.other_other, hrun] at ho
      exact (hstage nonce ho).1 hn
  · intro j nonce hp
    rcases hpool with hpool | ⟨nonce', ha, hpool⟩
    · exact hold j nonce (hpool ▸ hp)
    · rw [hpool] at hp
      by_cases hn : nonce = nonce'
      · subst hn
        obtain rfl : i = j := by simpa using hp
        rw [hother]
        exact h.stages i nonce (stage_of_acceptedNonce ha)
      · rw [Function.update_of_ne hn] at hp
        exact hold j nonce hp

/-- A transaction leaves the pool. -/
theorem Apart.forget (h : Apart s) (hruns : s'.runs = s.runs) {nonce : ℕ}
    (hpool : s'.pool = Function.update s.pool nonce none) : Apart s' := by
  constructor
  · intro i n hn
    rw [hruns] at hn ⊢
    exact h.stages i n hn
  · intro i n hp
    rw [hpool] at hp
    rw [hruns]
    by_cases hn : n = nonce
    · subst hn; simp at hp
    · rw [Function.update_of_ne hn] at hp
      exact h.pool i n hp

theorem Apart.step (h : Apart s) {input : SignerInput market} (hu : TakesUnused s input)
    (hs : signerStep config s input = some s') : Apart s' := by
  cases input with
  | answer i answer => exact h.ofAnswer hu hs
  | mined =>
    simp only [signerStep] at hs
    split at hs
    · obtain rfl := Option.some.inj hs
      exact h.forget rfl rfl
    · cases hs
  | drop nonce =>
    obtain rfl := Option.some.inj hs
    exact h.forget rfl rfl

theorem Apart.initial {transactionCount : ℕ} :
    Apart (⟨fun _ => .initial, transactionCount, fun _ => none⟩ : SignerState market) where
  stages _ _ hn := nomatch hn
  pool _ _ hp := nomatch hp

/-- In every run in which a payload takes over only nonces the other one does not use, no signed
transaction competes with a pending transaction of the other payload. -/
theorem no_competition {signer : EvmTxSigner market} {payloads : Payload → InputTransaction}
    {transactionCount : ℕ} {t : List (SignerInput market)}
    (h : ((signerSystem signer payloads transactionCount).guard TakesUnused).Run t s) :
    NoCompetition s :=
  (h.guarded_invariant (P := Apart) .initial fun _ _ _ ha hu hs => ha.step hu hs).noCompetition

namespace Sample

def signer : EvmTxSigner .legacy := ⟨"0x1", ⟨defaultFeeManagerOpts⟩, ⟨4, 1⟩, false⟩

def payloads : Payload → InputTransaction := fun _ => ⟨"0x", "0x2", none, none⟩

/-- The answers to one run up to the node's acceptance, for the given transaction count. -/
def sent (i : Payload) (count : ℕ) : List (SignerInput .legacy) :=
  [.answer i (.blockNumber (.ok 1)), .answer i (.transactionCount (.ok count)),
    .answer i (.estimateGas (.ok 21000)), .answer i (.fees (.ok (.gasPrice 100))),
    .answer i (.signature (.ok "0x")), .answer i (.sendRawTransaction (.result (some "0xa")))]

end Sample

/-- The unlock reads the transaction count after the fulfilment has been included. -/
theorem no_competition_in_sequence :
    ∃ s, ((signerSystem Sample.signer Sample.payloads 5).guard TakesUnused).Run
      (Sample.sent .fulfil 5 ++ [.mined] ++ Sample.sent .unlock 6) s ∧ NoCompetition s := by
  apply Machine.exists_run_and
  · decide +kernel
  · intro s hr
    exact no_competition hr

/-- Both payloads read the same transaction count: the unlock signs a transaction with the nonce
of the pending fulfilment. -/
theorem unlock_competes_with_fulfil :
    ∃ s, (signerSystem Sample.signer Sample.payloads 5).Run
      (Sample.sent .fulfil 5 ++ (Sample.sent .unlock 5).take 4) s ∧ ¬ NoCompetition s := by
  obtain ⟨s, hr, hs⟩ := Machine.exists_run_of_any
    (M := signerSystem Sample.signer Sample.payloads 5)
    (t := Sample.sent .fulfil 5 ++ (Sample.sent .unlock 5).take 4)
    (p := fun s => (s.runs .unlock).outstanding.any fun tx => s.pool tx.nonce == some .fulfil)
    (by decide +kernel)
  obtain ⟨tx, htx, hp⟩ := (Option.any_eq_true _ _).mp hs
  exact ⟨s, hr, fun hn => hn .unlock tx htx (beq_iff_eq.mp hp)⟩

end Evm

end DlnTaker
