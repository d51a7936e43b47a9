import DlnTaker.Evm.Signer
import DlnTaker.Launch.Ranges
import DlnTaker.Library.Environment

/-! # The approvals of a launch

Before the processor of an EVM chain starts, the contracts that are paid with
tokens of the taker get an unlimited approval of every token of the buckets on the
chain, unless the node answers that they have an allowance already. The node may
fail, and a transaction that is reported as failed may have been included.
-/

namespace DlnTaker

open Dialogue

def TokensBucket.findTokens (bucket : TokensBucket) (chain : ChainId) : List Address :=
  ((bucket.tokens.find? (·.1 = chain)).map (·.2)).getD []

/-- What the initialization of a processor asks the node and its signer. -/
inductive InitQuery
  | getAllowance (tokenAddress ownerAddress spenderAddress : String)
  | sendTransaction (tx : Evm.InputTransaction)

namespace InitQuery

def Found : InitQuery → Type
  | getAllowance .. => ℕ
  | sendTransaction _ => String

end InitQuery

/-- A program of the launch stops at the first exception. -/
abbrev Initialization :=
  Dialogue InitQuery (fun query => Except String query.Found) String

namespace Initialization

def await (query : InitQuery) : Initialization query.Found :=
  .ask query fun
    | .ok found => .done found
    | .error err => .stop err

def call {α : Type} : Except String α → Initialization α
  | .ok value => .done value
  | .error err => .stop err

end Initialization

open Initialization

/-! ### The translation -/

def MAX_UINT256 : String := "0xffffffffffffffffffffffffffffffffffffffffffffffffffffffffffffffff"

/-- How calls of an ERC-20 contract are encoded, which account the text of an address names, and
what the contract makes of the encoding of `approve`. -/
structure Erc20 where
  account : String → Address
  approve : String → String → String
  approved : String → Option (Address × ℕ)
  approved_approve : ∀ spender,
    approved (approve spender MAX_UINT256) = some (account spender, 2 ^ 256 - 1)

structure ApprovalTxDetails where
  token : String
  spender : String
  tx : Evm.InputTransaction

structure EvmTransactionBuilder where
  chain : ChainId
  contractsForApprove : List String
  signer : String

section Approvals

variable (erc20 : Erc20) (executor : Executor)

def getApproveTx (tokenAddress spenderAddress : String) : Evm.InputTransaction where
  data := erc20.approve spenderAddress MAX_UINT256
  «to» := tokenAddress
  value := none
  cappedFee := none

/-- The tokens of the buckets that are contracts of the chain. -/
def tokensForApprove (chain : ChainId) : Except String (List String) :=
  let tokens := executor.buckets.flatMap fun bucket =>
    (bucket.findTokens chain).filter (· ≠ List.replicate 20 0)
  tokens.mapM (executor.toolkit.tokenAddressToString chain)

def createERC20ApproveTxs (builder : EvmTransactionBuilder) :
    Initialization (List ApprovalTxDetails) := do
  let tokens ← call (tokensForApprove executor builder.chain)
  tokens.foldlM (fun txns token => builder.contractsForApprove.foldlM (fun txns contract => do
    let currentAllowance : ℕ ← await (.getAllowance token builder.signer contract)
    if currentAllowance = 0 then
      return txns ++ [⟨token, contract, getApproveTx erc20 token contract⟩]
    else return txns) txns) []

def EvmTransactionBuilder.getInitTxSenders (builder : EvmTransactionBuilder) :
    Initialization (List (Initialization String)) := do
  let approvalTxns ← createERC20ApproveTxs erc20 executor builder
  return approvalTxns.map fun details => await (.sendTransaction details.tx)

/-- `OrderProcessor.init`. -/
def initProcessor (builder : EvmTransactionBuilder) : Initialization Unit := do
  let txSenders ← builder.getInitTxSenders erc20 executor
  txSenders.forM fun txSender => discard txSender

/-- The provider that an EVM chain is launched with. -/
def ChainDefinition.getEVMProvider (chain : ChainDefinition)
    (dlnDestinationAddress crossChainForwarderAddress signer : String) :
    EvmTransactionBuilder where
  chain := chain.chain
  contractsForApprove :=
    if chain.disabled then [] else [dlnDestinationAddress, crossChainForwarderAddress]
  signer := signer

/-! ### The chain -/

/-- What the signer lets be spent, by token and spender. -/
abbrev Allowances := Address → Address → ℕ

/-- A transaction of the signer is included. -/
def Allowances.included (w : Allowances) (tx : Evm.InputTransaction) : Allowances :=
  match erc20.approved tx.data with
  | some (spender, amount) => fun token spender' =>
    if token = erc20.account tx.to ∧ spender' = spender then amount else w token spender'
  | none => w

/-- The node answers what is the case, if it answers, and a transaction that is reported as sent has
been included; one that is reported as failed may have been. -/
def Erc20.node (signer : String) :
    Environment (fun query : InitQuery => Except String query.Found) Allowances
  | w, .getAllowance token owner spender, answer, w' => w' = w ∧ ∀ amount : ℕ,
      answer = .ok amount → owner = signer →
      amount = w (erc20.account token) (erc20.account spender)
  | w, .sendTransaction tx, answer, w' =>
    w' = w.included erc20 tx ∨ w' = w ∧ ∀ hash : String, answer ≠ .ok hash

/-- The text of a token's address and a contract to be approved for it. -/
def Approvable (builder : EvmTransactionBuilder) (token spender : String) : Prop :=
  (∃ bucket ∈ executor.buckets, ∃ address ∈ bucket.findTokens builder.chain,
    address ≠ List.replicate 20 0 ∧
    executor.toolkit.tokenAddressToString builder.chain address = .ok token) ∧
  spender ∈ builder.contractsForApprove

/-- Only approvals that were missing have been added, and they are unlimited. -/
def Widened (builder : EvmTransactionBuilder) (w w' : Allowances) : Prop :=
  ∀ token spender, w' token spender = w token spender ∨
    w token spender = 0 ∧ w' token spender = 2 ^ 256 - 1 ∧
      ∃ tokenText spenderText, Approvable executor builder tokenText spenderText ∧
        erc20.account tokenText = token ∧ erc20.account spenderText = spender

variable {erc20 executor} {builder : EvmTransactionBuilder} {w w' : Allowances}

theorem mem_tokensForApprove {tokens : List String} {token : String}
    (h : tokensForApprove executor builder.chain = .ok tokens) : token ∈ tokens ↔
      ∃ bucket ∈ executor.buckets, ∃ address ∈ bucket.findTokens builder.chain,
        address ≠ List.replicate 20 0 ∧
        executor.toolkit.tokenAddressToString builder.chain address = .ok token := by
  rw [Fallible.mem_of_mapM_eq_ok h]
  simp only [List.mem_flatMap, List.mem_filter, decide_eq_true_eq]
  constructor
  · rintro ⟨address, ⟨bucket, hbucket, haddress, hne⟩, htext⟩
    exact ⟨bucket, hbucket, address, haddress, hne, htext⟩
  · rintro ⟨bucket, hbucket, address, haddress, hne, htext⟩
    exact ⟨address, ⟨bucket, hbucket, haddress, hne⟩, htext⟩

/-- The approvals of a token that are missing. -/
def missingApprovals (erc20 : Erc20) (w : Allowances) (contracts : List String) (token : String) :
    List ApprovalTxDetails :=
  (contracts.filter fun contract => w (erc20.account token) (erc20.account contract) = 0).map
    fun contract => ⟨token, contract, getApproveTx erc20 token contract⟩

/-- While the approvals are collected nothing is sent. -/
def Collecting (w w' : Allowances) (query : InitQuery) : Prop :=
  w' = w ∧ ∀ tx, query ≠ .sendTransaction tx

/-- The collection changes nothing and finds exactly the approvals that are missing. -/
theorem createERC20ApproveTxs_meets :
    Meets (erc20.node builder.signer) (Collecting w) (fun w' _ => w' = w)
      (fun w' txns => w' = w ∧ ∃ tokens, tokensForApprove executor builder.chain = .ok tokens ∧
        txns = tokens.flatMap (missingApprovals erc20 w builder.contractsForApprove))
      w (createERC20ApproveTxs erc20 executor builder) := by
  rw [createERC20ApproveTxs]
  cases htokens : tokensForApprove executor builder.chain with
  | error err => exact rfl
  | ok tokens =>
    refine Meets.imp (Meets.foldlM (J := fun pre w' txns => w' = w ∧
      txns = pre.flatMap (missingApprovals erc20 w builder.contractsForApprove)) ⟨rfl, rfl⟩ ?_)
      (fun _ _ h => h) (fun _ _ h => h) fun w' txns h => ⟨h.1, tokens, rfl, h.2⟩
    rintro pre token w' txns - ⟨hw, rfl⟩
    subst hw
    refine Meets.imp (Meets.foldlM (J := fun done w txns => w = w' ∧ txns =
      pre.flatMap (missingApprovals erc20 w' builder.contractsForApprove) ++
        missingApprovals erc20 w' done token)
      ⟨rfl, by simp [missingApprovals]⟩ ?_) (fun _ _ h => h) (fun _ _ h => h) fun w txns h =>
        ⟨h.1, by simp [h.2]⟩
    rintro done contract w txns - ⟨hw, rfl⟩
    subst hw
    refine ⟨⟨rfl, fun tx => by simp⟩, ?_⟩
    rintro (err | amount) w' ⟨hw, hamount⟩
    · exact hw
    · subst hw
      have hallowance : amount = w' (erc20.account token) (erc20.account contract) :=
        hamount amount rfl rfl
      subst hallowance
      change Meets _ _ _ _ _ (if _ then _ else _)
      split
      · rename_i hzero
        refine ⟨rfl, ?_⟩
        simp [missingApprovals, hzero]
      · rename_i hpositive
        refine ⟨rfl, ?_⟩
        simp [missingApprovals, hpositive]

theorem included_getApproveTx {token spender : String} (token' spender' : Address) :
    w.included erc20 (getApproveTx erc20 token spender) token' spender' =
      if token' = erc20.account token ∧ spender' = erc20.account spender then 2 ^ 256 - 1
      else w token' spender' := by
  rw [Allowances.included, getApproveTx, erc20.approved_approve]

theorem Widened.refl : Widened erc20 executor builder w w := fun _ _ => .inl rfl

/-- The approvals that are missing and have been given so far. -/
def Approving (erc20 : Erc20) (executor : Executor) (builder : EvmTransactionBuilder)
    (w : Allowances) (given : List ApprovalTxDetails) (w' : Allowances) : Prop :=
  Widened erc20 executor builder w w' ∧ ∀ details ∈ given,
    w' (erc20.account details.token) (erc20.account details.spender) = 2 ^ 256 - 1

theorem Approving.included {given : List ApprovalTxDetails} {token spender : String}
    (h : Approving erc20 executor builder w given w')
    (happrovable : Approvable executor builder token spender)
    (hzero : w (erc20.account token) (erc20.account spender) = 0) :
    Approving erc20 executor builder w
      (given ++ [⟨token, spender, getApproveTx erc20 token spender⟩])
      (w'.included erc20 (getApproveTx erc20 token spender)) := by
  constructor
  · intro token' spender'
    rw [included_getApproveTx]
    split
    · rename_i hsame
      obtain ⟨rfl, rfl⟩ := hsame
      exact .inr ⟨hzero, rfl, token, spender, happrovable, rfl, rfl⟩
    · exact h.1 token' spender'
  · intro details hm
    rw [included_getApproveTx]
    split
    · rfl
    · rename_i hother
      rcases List.mem_append.mp hm with hm | hm
      · exact h.2 details hm
      · obtain rfl := List.mem_singleton.mp hm
        exact absurd ⟨rfl, rfl⟩ hother

/-- The missing approvals are given one after the other. -/
theorem senders_meets {txns : List ApprovalTxDetails}
    (hmissing : ∀ details ∈ txns, ∃ token spender,
      details = ⟨token, spender, getApproveTx erc20 token spender⟩ ∧
      Approvable executor builder token spender ∧
      w (erc20.account token) (erc20.account spender) = 0) :
    Meets (erc20.node builder.signer) (fun w' _ => Widened erc20 executor builder w w')
      (fun w' _ => Widened erc20 executor builder w w')
      (fun w' _ => Approving erc20 executor builder w txns w') w
      ((txns.map fun details => await (.sendTransaction details.tx)).forM discard) := by
  have hmap : (txns.map fun details => await (.sendTransaction details.tx)).forM discard =
      txns.forM fun details => discard (await (.sendTransaction details.tx)) := List.forM_map
  rw [hmap]
  refine Meets.forM (J := fun given w' => Approving erc20 executor builder w given w')
    ⟨.refl, by simp⟩ ?_
  intro given details w' hpre hgiven
  obtain ⟨token, spender, rfl, happrovable, hzero⟩ :=
    hmissing details (hpre.subset (List.mem_append_right _ (List.mem_singleton_self _)))
  have hnext := hgiven.included happrovable hzero
  refine ⟨hgiven.1, ?_⟩
  rintro (err | hash) w'' (rfl | ⟨rfl, hnot⟩)
  · exact hnext.1
  · exact hgiven.1
  · exact hnext
  · exact absurd rfl (hnot hash)

theorem missing_of_mem {tokens : List String} {details : ApprovalTxDetails}
    (htokens : tokensForApprove executor builder.chain = .ok tokens)
    (hm : details ∈ tokens.flatMap (missingApprovals erc20 w builder.contractsForApprove)) :
    ∃ token spender, details = ⟨token, spender, getApproveTx erc20 token spender⟩ ∧
      Approvable executor builder token spender ∧
      w (erc20.account token) (erc20.account spender) = 0 := by
  obtain ⟨token, htoken, hm⟩ := List.mem_flatMap.mp hm
  obtain ⟨contract, hcontract, rfl⟩ := List.mem_map.mp hm
  obtain ⟨hcontract, hzero⟩ := List.mem_filter.mp hcontract
  exact ⟨token, contract, rfl, ⟨(mem_tokensForApprove htokens).mp htoken, hcontract⟩,
    of_decide_eq_true hzero⟩

theorem mem_missing {tokens : List String} {token spender : String}
    (htokens : tokensForApprove executor builder.chain = .ok tokens)
    (happrovable : Approvable executor builder token spender)
    (hzero : w (erc20.account token) (erc20.account spender) = 0) :
    ⟨token, spender, getApproveTx erc20 token spender⟩ ∈
      tokens.flatMap (missingApprovals erc20 w builder.contractsForApprove) := by
  refine List.mem_flatMap.mpr ⟨token, (mem_tokensForApprove htokens).mpr happrovable.1, ?_⟩
  refine List.mem_map.mpr ⟨spender, List.mem_filter.mpr ⟨happrovable.2, ?_⟩, rfl⟩
  exact decide_eq_true hzero

/-- Every approval is there. -/
def Approved (erc20 : Erc20) (executor : Executor) (builder : EvmTransactionBuilder)
    (w : Allowances) : Prop :=
  ∀ token spender, Approvable executor builder token spender →
    0 < w (erc20.account token) (erc20.account spender)

/-- The collection, and then what the initialization does with what has been collected. -/
theorem initProcessor_eq : initProcessor erc20 executor builder =
    createERC20ApproveTxs erc20 executor builder >>= fun txns =>
      (txns.map fun details => await (.sendTransaction details.tx)).forM discard := by
  rw [initProcessor, EvmTransactionBuilder.getInitTxSenders, bind_assoc]
  rfl

theorem initProcessor_meets :
    Meets (erc20.node builder.signer) (fun w' _ => Widened erc20 executor builder w w')
      (fun w' _ => Widened erc20 executor builder w w')
      (fun w' _ => Widened erc20 executor builder w w' ∧ Approved erc20 executor builder w') w
      (initProcessor erc20 executor builder) := by
  rw [initProcessor_eq]
  have hcollects : Meets (erc20.node builder.signer)
      (fun w' _ => Widened erc20 executor builder w w')
      (fun w' _ => Widened erc20 executor builder w w')
      (fun w' txns => w' = w ∧ ∃ tokens, tokensForApprove executor builder.chain = .ok tokens ∧
        txns = tokens.flatMap (missingApprovals erc20 w builder.contractsForApprove))
      w (createERC20ApproveTxs erc20 executor builder) :=
    createERC20ApproveTxs_meets.imp (fun _ _ h => h.1 ▸ .refl) (fun _ _ h => h ▸ .refl)
      fun _ _ h => h
  refine hcollects.bind ?_
  rintro w' txns ⟨hw, tokens, htokens, rfl⟩
  subst hw
  refine (senders_meets fun details hm => missing_of_mem htokens hm).imp (fun _ _ h => h)
    (fun _ _ h => h) ?_
  rintro w'' - ⟨hwidened, hgiven⟩
  refine ⟨hwidened, fun token spender happrovable => ?_⟩
  rcases Nat.eq_zero_or_pos (w' (erc20.account token) (erc20.account spender)) with hzero | hpos
  · rw [hgiven _ (mem_missing htokens happrovable hzero)]
    norm_num
  · rcases hwidened (erc20.account token) (erc20.account spender) with hsame | ⟨hzero, -⟩
    · rw [hsame]
      exact hpos
    · omega

/-- Where every approval is there, nothing is sent. -/
theorem initProcessor_collects (h : Approved erc20 executor builder w) :
    Meets (erc20.node builder.signer) (Collecting w) (fun w' _ => w' = w) (fun w' _ => w' = w) w
      (initProcessor erc20 executor builder) := by
  rw [initProcessor_eq]
  refine createERC20ApproveTxs_meets.bind ?_
  rintro w' txns ⟨hw, tokens, htokens, rfl⟩
  subst hw
  have hnone : tokens.flatMap (missingApprovals erc20 w' builder.contractsForApprove) = [] := by
    refine List.eq_nil_iff_forall_not_mem.mpr fun details hm => ?_
    obtain ⟨token, spender, -, happrovable, hzero⟩ := missing_of_mem htokens hm
    exact (h token spender happrovable).ne' hzero
  rw [hnone]
  exact rfl

/-! ### Launches -/

/-- Whatever the node answers and whichever transactions are included, a launch adds approvals only
where there were none, unlimited ones of the tokens of the buckets for the contracts of a chain that
is not disabled. A launch that comes to its end has added all of them, and then another one sends
nothing. -/
theorem launch_approves {chain : ChainDefinition} {dlnDestination forwarder signer : String}
    {r : Initialization Unit}
    (hr : Proceeds (erc20.node signer) w
      (initProcessor erc20 executor (chain.getEVMProvider dlnDestination forwarder signer)) w' r) :
    Widened erc20 executor (chain.getEVMProvider dlnDestination forwarder signer) w w' ∧
    (chain.disabled = true → w' = w) ∧
    (r = .done () →
      Approved erc20 executor (chain.getEVMProvider dlnDestination forwarder signer) w' ∧
      ∀ w'' r', Proceeds (erc20.node signer) w'
        (initProcessor erc20 executor (chain.getEVMProvider dlnDestination forwarder signer))
          w'' r' →
        w'' = w' ∧ ∀ tx next, r' ≠ .ask (.sendTransaction tx) next) := by
  have hmeets := (@initProcessor_meets erc20 executor
    (chain.getEVMProvider dlnDestination forwarder signer) w).proceeds hr
  have hwidened : Widened erc20 executor
      (chain.getEVMProvider dlnDestination forwarder signer) w w' :=
    hmeets.here (fun _ h => h) (fun _ h => h) fun _ h => h.1
  refine ⟨hwidened, fun hdisabled => ?_, ?_⟩
  · funext token spender
    refine (hwidened token spender).resolve_right ?_
    rintro ⟨-, -, _, _, ⟨-, hcontract⟩, -⟩
    simp [ChainDefinition.getEVMProvider, hdisabled] at hcontract
  · rintro rfl
    have happroved : Approved erc20 executor
        (chain.getEVMProvider dlnDestination forwarder signer) w' := hmeets.2
    refine ⟨happroved, fun w'' r' hr' => ?_⟩
    have hcollects := (initProcessor_collects happroved).proceeds hr'
    constructor
    · exact hcollects.here (fun _ h => h.1) (fun _ h => h) fun _ h => h
    · rintro tx next rfl
      exact hcollects.1.2 tx rfl

end Approvals

namespace Sample

/-- Texts name accounts by their characters, and a call of `approve` is encoded as its spender. -/
def erc20 : Erc20 where
  account := toolkit.hexToBuffer
  approve spender _ := spender
  approved data := some (toolkit.hexToBuffer data, 2 ^ 256 - 1)
  approved_approve _ := rfl

/-- The second contract has an allowance already. -/
def allowances : Allowances := fun _ spender =>
  if spender = toolkit.hexToBuffer "0xf" then 5 else 0

def provider : EvmTransactionBuilder :=
  (chainDefinition 2 ⟨⟨none, none, none⟩, ⟨none, none, none⟩, []⟩).getEVMProvider "0xd" "0xf" "0x7"

theorem approves : ∃ w, Proceeds (erc20.node "0x7") allowances
    (initProcessor erc20 daemon provider) w (.done ()) := by
  have hfirst : erc20.node "0x7" allowances (.getAllowance "0x" "0x7" "0xd") (.ok (0 : ℕ))
      allowances := by
    refine ⟨rfl, fun amount hamount _ => ?_⟩
    obtain rfl := Except.ok.inj hamount
    decide +kernel
  have hsecond : erc20.node "0x7" allowances (.getAllowance "0x" "0x7" "0xf") (.ok (5 : ℕ))
      allowances := by
    refine ⟨rfl, fun amount hamount _ => ?_⟩
    obtain rfl := Except.ok.inj hamount
    decide +kernel
  have hsent : erc20.node "0x7" allowances (.sendTransaction (getApproveTx erc20 "0x" "0xd"))
      (.ok "0xa") (allowances.included erc20 (getApproveTx erc20 "0x" "0xd")) := .inl rfl
  exact ⟨_, .answer hfirst (.answer hsecond (.answer hsent (.refl _ _)))⟩

end Sample

theorem launch_approves_missing : ∃ w, Proceeds (Sample.erc20.node "0x7") Sample.allowances
      (initProcessor Sample.erc20 Sample.daemon Sample.provider) w (.done ()) ∧
    Widened Sample.erc20 Sample.daemon Sample.provider Sample.allowances w ∧
    Approved Sample.erc20 Sample.daemon Sample.provider w := by
  obtain ⟨w, hr⟩ := Sample.approves
  have happroves := launch_approves hr
  exact ⟨w, hr, happroves.1, (happroves.2.2 rfl).1⟩

end DlnTaker
