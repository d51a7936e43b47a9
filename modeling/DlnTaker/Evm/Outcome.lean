import DlnTaker.Evm.Moves
import DlnTaker.Library.Journal

/-! # How truthful the outcome of a broadcast is

A run that resolves has a receipt of one of its own transactions. A run that
fails looks for the receipts of its earlier transactions first, but not for that
of the transaction it signed last, although this one may have been accepted and
be pending when its replacement fails.
-/

namespace DlnTaker

namespace Evm

open Journal

variable {market : FeeMarket}

namespace Entry

def acceptedHash : Entry market → Option String
  | accepted _ txHash => some txHash
  | _ => none

/-- Whether the transaction that was signed last is known to be accepted, from the entries that
tell. -/
def lastAttempt : Entry market → Option (Option String)
  | signed .. => some none
  | accepted _ txHash => some (some txHash)
  | _ => none

def isSought : Entry market → Bool
  | sought .. => true
  | _ => false

/-- An entry that is neither a signature, an acceptance nor a search. -/
def IsPassing (e : Entry market) : Prop :=
  e.acceptedHash = none ∧ e.lastAttempt = none ∧ e.isSought = false

end Entry

/-- The hashes that the node returned, in order. -/
def acceptedHashes (log : List (Entry market)) : List String := log.filterMap Entry.acceptedHash

/-- The node returned the receipt for a hash that it had returned for a signed transaction. -/
def OwnReceipt (log : List (Entry market)) (receipt : TransactionReceipt) : Prop :=
  ∃ txHash tx attempt, (.polled txHash (.ok receipt) ∈ log ∨ .sought txHash (.ok receipt) ∈ log) ∧
    .accepted tx txHash ∈ log ∧ .signed attempt tx ∈ log

/-- The log ends with a search in which no receipt was found for the given hashes, and no other
hash was sought. -/
def SearchedInVain (log : List (Entry market)) (hashes : List String) : Prop :=
  ∃ pre post, log = pre ++ post ∧ (∀ e ∈ pre, e.isSought = false) ∧
    (∀ e ∈ post, ∃ txHash ∈ hashes, ∃ err, e = .sought txHash (.error err)) ∧
    ∀ txHash ∈ hashes, ∃ err, .sought txHash (.error err) ∈ post

/-- What the run ends with is true: a receipt is one of its own transactions, and a failure means
that after it no receipt was found for any accepted transaction. -/
structure Truthful (b : Broadcaster market) : Prop where
  resolved : ∀ receipt, b.phase = .resolved receipt → OwnReceipt b.journal receipt
  rejected : ∀ err, b.phase = .rejected err →
    SearchedInVain b.journal (acceptedHashes b.journal)

/-- The transaction that was signed last was not accepted, or under a hash of an earlier one. -/
def LastUnaccepted (log : List (Entry market)) : Prop :=
  ∀ txHash, latest Entry.lastAttempt log = some (some txHash) →
    txHash ∈ (acceptedHashes log).dropLast

namespace Broadcaster

/-- The hashes that a search asks for. -/
def earlierHashes (b : Broadcaster market) : List String :=
  b.broadcasts.dropLast.filterMap (·.hash)

/-- What a phase knows of the broadcasts. -/
def Tracks (b : Broadcaster market) : Prop :=
  match b.phase with
  | .blockNumber useNonce => useNonce = none → b.broadcasts = []
  | .template useNonce _ _ => useNonce = none → b.broadcasts = []
  | .signing broadcast | .publishing broadcast =>
      broadcast.hash = none ∧ b.broadcasts.getLast? = some broadcast ∧
        .signed broadcast.attempt broadcast.tx ∈ b.journal
  | .waiting broadcast txHash _ | .polling broadcast txHash _ =>
      .accepted broadcast.tx txHash ∈ b.journal
  | .seeking _ hashes => hashes = b.earlierHashes
  | .resolved receipt => OwnReceipt b.journal receipt
  | .rejected _ => SearchedInVain b.journal b.earlierHashes
  | _ => True

end Broadcaster

/-- The run is over. -/
def Phase.isOver : Phase market → Bool
  | resolved _ | rejected _ => true
  | _ => false

/-- Holds in every reachable state: the broadcasts agree with the journal. -/
structure Tallied (b : Broadcaster market) : Prop where
  hashes : acceptedHashes b.journal = b.broadcasts.filterMap (·.hash)
  last : latest Entry.lastAttempt b.journal = b.broadcasts.getLast?.map (·.hash)
  attempts : ∀ i broadcast, b.broadcasts[i]? = some broadcast → broadcast.attempt = i + 1
  signed : ∀ tx txHash, .accepted tx txHash ∈ b.journal → ∃ attempt, .signed attempt tx ∈ b.journal
  unsought : b.phase.isOver = false → ∀ e ∈ b.journal, e.isSought = false
  tracks : b.Tracks

open Broadcaster

variable {config : BroadcasterConfig market} {b b' : Broadcaster market}
  {log es : List (Entry market)} {hashes : List String} {err txHash : String}
  {tx : PopulatedTxn market} {broadcast : InitiatedBroadcastAttempt market}
  {receipt : TransactionReceipt}

namespace Entry

@[simp] theorem isPassing_feesRequested {gasCategory : GasCategory} :
    (feesRequested gasCategory : Entry market).IsPassing := ⟨rfl, rfl, rfl⟩

@[simp] theorem isPassing_refused {err : EvmRpcError} :
    (refused tx err : Entry market).IsPassing := ⟨rfl, rfl, rfl⟩

@[simp] theorem isPassing_polled {receipt : Except String TransactionReceipt} :
    (polled txHash receipt : Entry market).IsPassing := ⟨rfl, rfl, rfl⟩

end Entry

theorem acceptedHashes_append : acceptedHashes (log ++ es) =
    acceptedHashes log ++ acceptedHashes es := List.filterMap_append

theorem mem_acceptedHashes : txHash ∈ acceptedHashes log ↔ ∃ tx, .accepted tx txHash ∈ log := by
  simp only [acceptedHashes, List.mem_filterMap]
  constructor
  · rintro ⟨e, hm, he⟩
    cases e with
    | accepted tx hash =>
      obtain rfl := Option.some.inj he
      exact ⟨tx, hm⟩
    | _ => cases he
  · rintro ⟨tx, hm⟩
    exact ⟨_, hm, rfl⟩

theorem SearchedInVain.congr {hashes' : List String} (h : SearchedInVain log hashes)
    (hiff : ∀ txHash, txHash ∈ hashes' ↔ txHash ∈ hashes) : SearchedInVain log hashes' := by
  obtain ⟨pre, post, hl, hpre, hpost, hall⟩ := h
  refine ⟨pre, post, hl, hpre, fun e he => ?_, fun txHash hm => hall txHash ((hiff txHash).mp hm)⟩
  obtain ⟨txHash, hm, herr⟩ := hpost e he
  exact ⟨txHash, (hiff txHash).mpr hm, herr⟩

/-- The hashes sought for are those of the search. -/
theorem SearchedInVain.mem_iff (h : SearchedInVain log hashes) :
    txHash ∈ hashes ↔ ∃ receipt, .sought txHash receipt ∈ log := by
  obtain ⟨pre, post, rfl, hpre, hpost, hall⟩ := h
  constructor
  · intro hm
    obtain ⟨err, hs⟩ := hall txHash hm
    exact ⟨_, List.mem_append_right _ hs⟩
  · rintro ⟨receipt, hm⟩
    rcases List.mem_append.mp hm with hm | hm
    · cases hpre _ hm
    · obtain ⟨txHash', hm', err, he⟩ := hpost _ hm
      rwa [(Entry.sought.inj he).1]

/-- Nothing was sought for, since there was nothing to seek. -/
theorem searchedInVain_nil (h : ∀ e ∈ log, e.isSought = false) : SearchedInVain log [] :=
  ⟨log, [], by simp, h, by simp, by simp⟩

theorem tracks_resolved (hp : b.phase = .resolved receipt)
    (h : OwnReceipt b.journal receipt) : b.Tracks := by
  rw [Tracks, hp]
  exact h

theorem tracks_rejected (hp : b.phase = .rejected err)
    (h : SearchedInVain b.journal b.earlierHashes) : b.Tracks := by
  rw [Tracks, hp]
  exact h

/-- The receipts decide: one of them is taken, or there is none. -/
theorem selectReceipt_over (err : String) (receipts : List (Except String TransactionReceipt)) :
    (∃ receipt, selectReceipt err receipts = (.resolved receipt : Phase market) ∧
        .ok receipt ∈ receipts) ∨
      selectReceipt err receipts = (.rejected err : Phase market) ∧
        ∀ receipt ∈ receipts, ∃ err', receipt = .error err' := by
  have hfulfilled : ∀ receipt, receipt ∈ receipts.filterMap Except.toOption →
      .ok receipt ∈ receipts := by
    intro receipt h
    obtain ⟨x, hx, hr⟩ := List.mem_filterMap.mp h
    cases x with
    | error _ => cases hr
    | ok _ =>
      cases hr
      exact hx
  simp only [selectReceipt]
  split
  · rename_i receipt hfind
    exact .inl ⟨receipt, rfl, hfulfilled _ (List.mem_of_find?_eq_some hfind)⟩
  · rename_i hsuccessful
    split
    · rename_i receipt hfind
      have hm := List.mem_reverse.mp (List.mem_of_find?_eq_some hfind)
      exact .inl ⟨receipt, rfl, hfulfilled _ hm⟩
    · rename_i hunsuccessful
      refine .inr ⟨rfl, fun receipt hm => ?_⟩
      cases receipt with
      | error err' => exact ⟨err', rfl⟩
      | ok receipt =>
        have hm : receipt ∈ receipts.filterMap Except.toOption :=
          List.mem_filterMap.mpr ⟨_, hm, rfl⟩
        have hs := List.find?_eq_none.mp hsuccessful receipt hm
        have hu := List.find?_eq_none.mp hunsuccessful receipt (List.mem_reverse.mpr hm)
        cases hstatus : receipt.status <;> simp [hstatus] at hs hu

theorem isOver_selectReceipt {err : String} {receipts : List (Except String TransactionReceipt)} :
    (selectReceipt err receipts : Phase market).isOver = true := by
  rcases @selectReceipt_over market err receipts with ⟨receipt, h, -⟩ | ⟨h, -⟩
  · rw [h]
    rfl
  · rw [h]
    rfl

namespace Tallied

theorem initial : Tallied (Broadcaster.initial : Broadcaster market) where
  hashes := rfl
  last := rfl
  attempts i broadcast h := by simp [Broadcaster.initial] at h
  signed tx txHash h := by simp [Broadcaster.initial] at h
  unsought _ e h := by simp [Broadcaster.initial] at h
  tracks _ := rfl

theorem unsought_append (ht : Tallied b) (hover : b.phase.isOver = false)
    (hes : ∀ e ∈ es, e.isSought = false) : ∀ e ∈ b.journal ++ es, e.isSought = false := by
  intro e hm
  rcases List.mem_append.mp hm with hm | hm
  · exact ht.unsought hover e hm
  · exact hes e hm

theorem signed_append (ht : Tallied b) (hacc : .accepted tx txHash ∈ b.journal) :
    ∃ attempt, .signed attempt tx ∈ b.journal ++ es := by
  obtain ⟨attempt, hs⟩ := ht.signed tx txHash hacc
  exact ⟨attempt, List.mem_append_left _ hs⟩

/-- A receipt that is found for an accepted hash. -/
theorem ownReceipt_append (ht : Tallied b) (hacc : .accepted tx txHash ∈ b.journal)
    (hr : .polled txHash (.ok receipt) ∈ es ∨ .sought txHash (.ok receipt) ∈ es) :
    OwnReceipt (b.journal ++ es) receipt := by
  obtain ⟨attempt, hs⟩ := ht.signed tx txHash hacc
  exact ⟨txHash, tx, attempt, hr.imp (List.mem_append_right _) (List.mem_append_right _),
    List.mem_append_left _ hacc, List.mem_append_left _ hs⟩

/-- Entries that neither sign nor accept, and a change of phase. -/
theorem congr (ht : Tallied b) (es : List (Entry market)) (hb : b'.broadcasts = b.broadcasts)
    (hj : b'.journal = b.journal ++ es)
    (hes : ∀ e ∈ es, e.acceptedHash = none ∧ e.lastAttempt = none)
    (hun : b'.phase.isOver = false → ∀ e ∈ b'.journal, e.isSought = false)
    (htr : b'.Tracks) : Tallied b' where
  hashes := by
    have hnil : acceptedHashes es = [] := List.filterMap_eq_nil_iff.mpr fun e he => (hes e he).1
    rw [hj, hb, acceptedHashes_append, hnil, List.append_nil]
    exact ht.hashes
  last := by
    rw [hj, hb, latest_append_of_none fun e he => (hes e he).2]
    exact ht.last
  attempts := by
    rw [hb]
    exact ht.attempts
  signed tx txHash hm := by
    rw [hj] at hm ⊢
    rcases List.mem_append.mp hm with hm | hm
    · exact ht.signed_append hm
    · exact absurd (hes _ hm).1 (by simp [Entry.acceptedHash])
  unsought := hun
  tracks := htr

/-- Entries that say nothing of the broadcasts, and a change of phase. -/
theorem pass (ht : Tallied b) (es : List (Entry market)) (hover : b.phase.isOver = false)
    (hb : b'.broadcasts = b.broadcasts) (hj : b'.journal = b.journal ++ es)
    (hes : ∀ e ∈ es, e.IsPassing) (htr : b'.Tracks) : Tallied b' := by
  refine ht.congr _ hb hj (fun e he => ⟨(hes e he).1, (hes e he).2.1⟩) (fun _ => ?_) htr
  rw [hj]
  exact ht.unsought_append hover fun e he => (hes e he).2.2

theorem await (ht : Tallied b) (hover : b.phase.isOver = false) {phase : Phase market}
    (htr : (b.await phase).Tracks) : Tallied (b.await phase) :=
  ht.pass [] hover rfl (by simp) (by simp) htr

/-- A failure is followed by a search, if there is anything to seek. -/
theorem passSeek (ht : Tallied b) (es : List (Entry market)) (hover : b.phase.isOver = false)
    (hb : b'.broadcasts = b.broadcasts) (hj : b'.journal = b.journal ++ es)
    (hes : ∀ e ∈ es, e.IsPassing) : Tallied (b'.seekSuccessfulBroadcast err) := by
  unfold seekSuccessfulBroadcast
  split
  · rename_i hnil
    refine ht.pass _ hover hb hj hes ?_
    change SearchedInVain b'.journal b'.earlierHashes
    rw [earlierHashes, hnil, hj]
    exact searchedInVain_nil (ht.unsought_append hover fun e he => (hes e he).2.2)
  · exact ht.pass _ hover hb hj hes rfl

theorem seek (ht : Tallied b) (hover : b.phase.isOver = false) :
    Tallied (b.seekSuccessfulBroadcast err) :=
  ht.passSeek [] hover rfl (by simp) (by simp)

/-- A failure before anything was signed is not followed by a search. -/
theorem fail (ht : Tallied b) (hover : b.phase.isOver = false) {useNonce : Option ℕ}
    (hnone : useNonce = none → b.broadcasts = []) : Tallied (b.fail useNonce err) := by
  unfold Broadcaster.fail
  split
  · exact ht.seek hover
  · rename_i h
    refine ht.await hover ?_
    change SearchedInVain b.journal b.earlierHashes
    rw [earlierHashes, hnone (by simpa using h)]
    exact searchedInVain_nil (ht.unsought hover)

theorem initiateBroadcast (ht : Tallied b) (hover : b.phase.isOver = false) :
    Tallied (b.initiateBroadcast config tx) := by
  simp only [Broadcaster.initiateBroadcast]
  split
  · exact ht.seek hover
  · constructor
    · change acceptedHashes (b.journal ++ [_]) = List.filterMap _ (b.broadcasts ++ [_])
      rw [acceptedHashes_append, List.filterMap_append, ht.hashes]
      rfl
    · change latest _ (b.journal ++ [_]) = Option.map _ (b.broadcasts ++ [_]).getLast?
      rw [latest_concat, List.getLast?_concat]
      rfl
    · intro i broadcast hi
      change (b.broadcasts ++ [_])[i]? = some broadcast at hi
      rw [List.getElem?_append] at hi
      split at hi
      · exact ht.attempts i broadcast hi
      · obtain ⟨hlt, rfl⟩ := List.getElem?_eq_some_iff.mp hi
        simp only [List.length_singleton] at hlt
        have hi' : i = b.broadcasts.length := by omega
        simp [hi']
    · intro tx' txHash hm
      rcases List.mem_append.mp hm with hm | hm
      · exact ht.signed_append hm
      · cases List.mem_singleton.mp hm
    · exact fun _ => ht.unsought_append hover (by simp [Entry.isSought])
    · exact ⟨rfl, List.getLast?_concat, List.mem_append_right _ (List.mem_singleton_self _)⟩

theorem checkCappingAndPopulate (ht : Tallied b) (hover : b.phase.isOver = false) {gasLimit : ℤ} :
    Tallied (b.checkCappingAndPopulate config tx gasLimit) := by
  unfold Broadcaster.checkCappingAndPopulate
  split
  · exact ht.seek hover
  · exact ht.initiateBroadcast hover

theorem populated (ht : Tallied b) (hover : b.phase.isOver = false) :
    Tallied (b.populated config tx) := by
  unfold Broadcaster.populated
  split
  · exact ht.await hover trivial
  · exact ht.checkCappingAndPopulate hover

theorem templateReady (ht : Tallied b) (hover : b.phase.isOver = false)
    {useNonce nonce : Option ℕ} {gas : Option ℤ} (hnone : useNonce = none → b.broadcasts = []) :
    Tallied (b.templateReady config useNonce nonce gas) := by
  unfold Broadcaster.templateReady
  split
  · exact ht.pass [.feesRequested _] hover rfl rfl (by simp) trivial
  · exact ht.await hover hnone

theorem passReplace (ht : Tallied b) (es : List (Entry market)) (hover : b.phase.isOver = false)
    (hb : b'.broadcasts = b.broadcasts) (hj : b'.journal = b.journal ++ es)
    (hes : ∀ e ∈ es, e.IsPassing) :
    Tallied (b'.pushReplacementTransaction config broadcast) := by
  obtain ⟨gasCategory, hgas⟩ : ∃ gasCategory,
      (b'.pushReplacementTransaction config broadcast).journal =
        b'.journal ++ [.feesRequested gasCategory] := ⟨_, rfl⟩
  refine ht.pass (es ++ [.feesRequested gasCategory]) hover hb ?_ ?_ trivial
  · rw [hgas, hj, List.append_assoc]
  · intro e he
    rcases List.mem_append.mp he with he | he
    · exact hes e he
    · rw [List.mem_singleton.mp he]
      exact Entry.isPassing_feesRequested

theorem handleBroadcastRejection (ht : Tallied b) (hover : b.phase.isOver = false) :
    Tallied (b.handleBroadcastRejection config broadcast err) := by
  simp only [Broadcaster.handleBroadcastRejection]
  have hpass : ∀ e ∈ [Entry.refused broadcast.tx (stringToError err)], e.IsPassing := by simp
  split
  · exact ht.pass _ hover rfl rfl hpass (fun h => by simp at h)
  · exact ht.passReplace _ hover rfl rfl hpass
  · exact ht.passReplace _ hover rfl rfl hpass
  · exact ht.passSeek _ hover rfl rfl hpass

theorem scheduleNextPoll (ht : Tallied b) (hover : b.phase.isOver = false)
    {receipt : Except String TransactionReceipt} {pollingAttempt : ℕ}
    (hacc : .accepted broadcast.tx txHash ∈ b.journal) :
    Tallied ((b.emit (.polled txHash receipt)).scheduleNextPoll config broadcast txHash
      pollingAttempt) := by
  have hpass : ∀ e ∈ [(Entry.polled txHash receipt : Entry market)], e.IsPassing := by simp
  unfold Broadcaster.scheduleNextPoll
  split
  · exact ht.passReplace _ hover rfl rfl hpass
  · exact ht.pass _ hover rfl rfl hpass (List.mem_append_left _ hacc)

/-- The hash is kept in the last broadcast. -/
theorem broadcasts_success (ht : Tallied b) (config : BroadcasterConfig market) (txHash : String)
    (hlast : b.broadcasts.getLast? = some broadcast) :
    ∃ earlier, b.broadcasts = earlier ++ [broadcast] ∧
      (b.handleBroadcastSuccess config broadcast txHash).broadcasts =
        earlier ++ [{ broadcast with hash := some txHash }] := by
  obtain ⟨earlier, hb⟩ := List.getLast?_eq_some_iff.mp hlast
  refine ⟨earlier, hb, ?_⟩
  have hattempt : broadcast.attempt = earlier.length + 1 := ht.attempts _ _ (by simp [hb])
  have hearlier : ∀ known ∈ earlier, known.attempt ≠ broadcast.attempt := by
    intro known hm
    obtain ⟨i, hi⟩ := List.mem_iff_getElem?.mp hm
    obtain ⟨hlt, -⟩ := List.getElem?_eq_some_iff.mp hi
    have := ht.attempts i known (by rw [hb, List.getElem?_append_left hlt, hi])
    omega
  have hstored : (b.handleBroadcastSuccess config broadcast txHash).broadcasts =
      b.broadcasts.map fun known =>
        if known.attempt = broadcast.attempt then { known with hash := some txHash }
        else known := by
    simp only [Broadcaster.handleBroadcastSuccess]
    split <;> rfl
  rw [hstored, hb, List.map_append, List.map_singleton, if_pos rfl]
  congr 1
  refine (List.map_congr_left fun known hm => ?_).trans (List.map_id earlier)
  rw [if_neg (hearlier known hm), id]

theorem handleBroadcastSuccess (ht : Tallied b) (hover : b.phase.isOver = false)
    (hhash : broadcast.hash = none) (hlast : b.broadcasts.getLast? = some broadcast)
    (hsig : .signed broadcast.attempt broadcast.tx ∈ b.journal) :
    Tallied (b.handleBroadcastSuccess config broadcast txHash) := by
  obtain ⟨earlier, hb, hb'⟩ := ht.broadcasts_success config txHash hlast
  have hj : (b.handleBroadcastSuccess config broadcast txHash).journal =
      b.journal ++ [.accepted broadcast.tx txHash] := by
    simp only [Broadcaster.handleBroadcastSuccess]
    split <;> rfl
  constructor
  · rw [hj, hb', acceptedHashes_append, ht.hashes, hb, List.filterMap_append, List.filterMap_append]
    simp [acceptedHashes, Entry.acceptedHash, hhash]
  · rw [hj, hb', latest_concat, List.getLast?_concat]
    rfl
  · intro i known hi
    rw [hb', List.getElem?_append] at hi
    split at hi
    · rename_i hlt
      exact ht.attempts i known (by rw [hb, List.getElem?_append_left hlt, hi])
    · obtain ⟨hlt, rfl⟩ := List.getElem?_eq_some_iff.mp hi
      simp only [List.length_singleton] at hlt
      obtain rfl : i = earlier.length := by omega
      have hattempt := ht.attempts earlier.length broadcast (by simp [hb])
      simpa using hattempt
  · intro tx hash hm
    rw [hj] at hm ⊢
    rcases List.mem_append.mp hm with hm | hm
    · exact ht.signed_append hm
    · obtain ⟨rfl, -⟩ := Entry.accepted.inj (List.mem_singleton.mp hm)
      exact ⟨_, List.mem_append_left _ hsig⟩
  · intro _
    rw [hj]
    exact ht.unsought_append hover (by simp [Entry.isSought])
  · have hacc : .accepted broadcast.tx txHash ∈ b.journal ++ [.accepted broadcast.tx txHash] :=
      List.mem_append_right _ (List.mem_singleton_self _)
    simp only [Broadcaster.handleBroadcastSuccess]
    split
    · exact hacc
    · exact hacc

/-- The search is over: what it found decides. -/
theorem sought (ht : Tallied b) {receipts : List (Except String TransactionReceipt)}
    (hp : b.phase = .seeking err hashes) (hlen : receipts.length = hashes.length) :
    Tallied { b with
      phase := selectReceipt err receipts
      journal := b.journal ++ (hashes.zip receipts).map fun x => Entry.sought x.1 x.2 } := by
  have hover : b.phase.isOver = false := by rw [hp]; rfl
  have hhashes : hashes = b.earlierHashes := by
    have htracks := ht.tracks
    rwa [Tracks, hp] at htracks
  refine ht.congr _ rfl rfl ?_ ?_ ?_
  · intro e he
    obtain ⟨x, -, rfl⟩ := List.mem_map.mp he
    exact ⟨rfl, rfl⟩
  · intro hn
    rw [isOver_selectReceipt] at hn
    cases hn
  · rcases selectReceipt_over err receipts with ⟨receipt, h, hm⟩ | ⟨h, hno⟩
    · refine tracks_resolved h ?_
      obtain ⟨⟨txHash, _⟩, hz, rfl⟩ :=
        List.mem_map.mp ((List.map_snd_zip hlen.le).symm ▸ hm)
      have hacc : txHash ∈ acceptedHashes b.journal := by
        rw [ht.hashes]
        refine (List.dropLast_sublist b.broadcasts).filterMap _ |>.subset ?_
        rw [hhashes] at hz
        exact (List.of_mem_zip hz).1
      obtain ⟨tx, hacc⟩ := mem_acceptedHashes.mp hacc
      exact ht.ownReceipt_append hacc (.inr (List.mem_map_of_mem hz))
    · refine tracks_rejected h ⟨b.journal, _, rfl, ht.unsought hover, ?_, ?_⟩
      · intro e he
        obtain ⟨⟨txHash, receipt⟩, hz, rfl⟩ := List.mem_map.mp he
        obtain ⟨err', rfl⟩ := hno receipt (List.of_mem_zip hz).2
        exact ⟨txHash, hhashes ▸ (List.of_mem_zip hz).1, err', rfl⟩
      · intro txHash hm
        have hm : txHash ∈ hashes := hhashes ▸ hm
        obtain ⟨⟨_, receipt⟩, hz, rfl⟩ :=
          List.mem_map.mp ((List.map_fst_zip hlen.ge).symm ▸ hm)
        obtain ⟨err', rfl⟩ := hno receipt (List.of_mem_zip hz).2
        exact ⟨err', List.mem_map_of_mem hz⟩

theorem move (ht : Tallied b) (hm : Move config b b') : Tallied b' := by
  have htracks := ht.tracks
  unfold Tracks at htracks
  cases hm with
  | located useNonce hp =>
    rw [hp] at htracks
    exact ht.await (by rw [hp]; rfl) htracks
  | counted gas count hp =>
    rw [hp] at htracks
    exact ht.templateReady (by rw [hp]; rfl) htracks
  | estimated useNonce nonce gas hp =>
    rw [hp] at htracks
    exact ht.templateReady (by rw [hp]; rfl) htracks
  | failed useNonce err hp =>
    rcases hp with hp | ⟨nonce, gas, hp⟩
    · rw [hp] at htracks
      exact ht.fail (by rw [hp]; rfl) htracks
    · rw [hp] at htracks
      exact ht.fail (by rw [hp]; rfl) htracks
  | populated template gasCategory fees hp => exact ht.populated (by rw [hp]; rfl)
  | replaced broadcast gasCategory fees hp => exact ht.populated (by rw [hp]; rfl)
  | capped tx gas hp => exact ht.checkCappingAndPopulate (by rw [hp]; rfl)
  | unpriced err hp =>
    rcases hp with ⟨_, _, hp⟩ | ⟨_, _, hp⟩ | ⟨_, hp⟩
    all_goals exact ht.seek (by rw [hp]; rfl)
  | publish broadcast hp =>
    rw [hp] at htracks
    exact ht.await (by rw [hp]; rfl) htracks
  | refused broadcast err hp =>
    rcases hp with hp | hp
    all_goals exact ht.handleBroadcastRejection (by rw [hp]; rfl)
  | accepted broadcast txHash hp =>
    rw [hp] at htracks
    exact ht.handleBroadcastSuccess (by rw [hp]; rfl) htracks.1 htracks.2.1 htracks.2.2
  | timeout broadcast txHash pollingAttempt hp =>
    rw [hp] at htracks
    exact ht.await (by rw [hp]; rfl) htracks
  | found broadcast txHash pollingAttempt receipt hp =>
    rw [hp] at htracks
    refine ht.congr [.polled txHash (.ok receipt)] rfl rfl ?_ (fun h => by cases h) ?_
    · simp [Entry.acceptedHash, Entry.lastAttempt]
    · exact ht.ownReceipt_append htracks (.inl (List.mem_singleton_self _))
  | missing broadcast txHash pollingAttempt err hp =>
    rw [hp] at htracks
    exact ht.scheduleNextPoll (by rw [hp]; rfl) htracks
  | sought previousError hashes receipts hp hlen => exact ht.sought hp hlen

theorem resolved (ht : Tallied b)
    (hp : b.phase = .resolved receipt) : OwnReceipt b.journal receipt := by
  have htracks := ht.tracks
  rwa [Tracks, hp] at htracks

theorem rejected (ht : Tallied b) (hp : b.phase = .rejected err) :
    SearchedInVain b.journal b.earlierHashes := by
  have htracks := ht.tracks
  rwa [Tracks, hp] at htracks

/-- The search was for all accepted hashes, unless the transaction signed last has another one. -/
theorem searched_iff (ht : Tallied b) (hs : SearchedInVain b.journal b.earlierHashes) :
    SearchedInVain b.journal (acceptedHashes b.journal) ↔ LastUnaccepted b.journal := by
  rcases List.eq_nil_or_concat b.broadcasts with hb | ⟨earlier, broadcast, hb⟩
  · have hlast : latest Entry.lastAttempt b.journal = none := by rw [ht.last, hb]; rfl
    have hnil : b.earlierHashes = acceptedHashes b.journal := by
      rw [ht.hashes, earlierHashes, hb]
      rfl
    refine iff_of_true (hnil ▸ hs) fun txHash h => ?_
    rw [hlast] at h
    cases h
  · rw [List.concat_eq_append] at hb
    have hearlier : b.earlierHashes = earlier.filterMap (·.hash) := by
      rw [earlierHashes, hb, List.dropLast_concat]
    have hlast : latest Entry.lastAttempt b.journal = some broadcast.hash := by
      rw [ht.last, hb, List.getLast?_concat]
      rfl
    have hhashes : acceptedHashes b.journal = b.earlierHashes ++ broadcast.hash.toList := by
      rw [ht.hashes, hb, hearlier, List.filterMap_append]
      cases h : broadcast.hash <;> simp [h]
    cases hhash : broadcast.hash with
    | none =>
      rw [hhash, Option.toList_none, List.append_nil] at hhashes
      refine iff_of_true (hhashes ▸ hs) fun txHash h => ?_
      rw [hlast, hhash] at h
      cases h
    | some txHash =>
      rw [hhash, Option.toList_some] at hhashes
      have hunaccepted : LastUnaccepted b.journal ↔ txHash ∈ b.earlierHashes := by
        rw [LastUnaccepted, hlast, hhash, hhashes, List.dropLast_concat]
        constructor
        · exact fun h => h txHash rfl
        · rintro h _ ⟨⟩
          exact h
      rw [hunaccepted, hhashes]
      constructor
      · intro hall
        exact hs.mem_iff.mpr (hall.mem_iff.mp (by simp))
      · intro hm
        refine hs.congr fun x => ?_
        simp only [List.mem_append, List.mem_singleton, or_iff_left_iff_imp]
        rintro rfl
        exact hm

end Tallied

theorem tallied_of_run {t : List (Answer market)} (h : (broadcaster config).Run t b) :
    Tallied b :=
  h.invariant .initial fun _ _ _ ht hs => ht.move (move_of_step hs)

/-- The outcome of every run is truthful, unless it fails while the transaction signed last has
been accepted. -/
theorem truthful_iff {t : List (Answer market)} (h : (broadcaster config).Run t b) :
    Truthful b ↔ ∀ err, b.phase = .rejected err → LastUnaccepted b.journal := by
  have ht := tallied_of_run h
  constructor
  · intro htrue err hp
    exact (ht.searched_iff (ht.rejected hp)).mp (htrue.rejected err hp)
  · intro hlast
    refine ⟨fun receipt hp => ht.resolved hp, fun err hp => ?_⟩
    exact (ht.searched_iff (ht.rejected hp)).mpr (hlast err hp)

namespace Sample

/-- The first transaction is accepted and not mined in time. -/
def pending : List (Answer .legacy) :=
  signed ++ [.sendRawTransaction (.result (some "0xa")), .timeout, .receipt (.result none)]

/-- Its replacement cannot be signed, and no receipt is found. -/
def soughtInVain : List (Answer .legacy) :=
  pending ++ [.fees (.ok (.gasPrice 100)), .signature (.error "locked"),
    .receipts [.result none]]

/-- Its replacement cannot be priced. -/
def unpriced : List (Answer .legacy) := pending ++ [.fees (.error "unavailable")]

end Sample

theorem truthful_iff_soughtInVain :
    ∃ b, (broadcaster Sample.config).Run Sample.soughtInVain b ∧ b.phase = .rejected "locked" ∧
      Truthful b := by
  obtain ⟨b, hr, hb⟩ := Machine.exists_run_of_any (M := broadcaster Sample.config)
    (t := Sample.soughtInVain) (p := fun b => decide (b.phase = .rejected "locked") &&
      decide (latest Entry.lastAttempt b.journal = some none)) (by decide +kernel)
  rw [Bool.and_eq_true, decide_eq_true_eq, decide_eq_true_eq] at hb
  obtain ⟨hp, hlast⟩ := hb
  refine ⟨b, hr, hp, (truthful_iff hr).mpr fun err _ txHash h => ?_⟩
  rw [hlast] at h
  cases h

/-- The transaction that is pending is not looked up when the pricing of its replacement fails. -/
theorem rejected_while_pending :
    ∃ b, (broadcaster Sample.config).Run Sample.unpriced b ∧ b.phase = .rejected "unavailable" ∧
      acceptedHashes b.journal = ["0xa"] ∧ ¬ Truthful b := by
  obtain ⟨b, hr, hb⟩ := Machine.exists_run_of_any (M := broadcaster Sample.config)
    (t := Sample.unpriced) (p := fun b => decide (b.phase = .rejected "unavailable") &&
      decide (acceptedHashes b.journal = ["0xa"]) &&
      b.journal.all fun e => !e.isSought) (by decide +kernel)
  rw [Bool.and_eq_true, Bool.and_eq_true, decide_eq_true_eq, decide_eq_true_eq] at hb
  obtain ⟨⟨hp, hhashes⟩, hunsought⟩ := hb
  refine ⟨b, hr, hp, hhashes, fun htrue => ?_⟩
  have hs := htrue.rejected _ hp
  rw [hhashes] at hs
  obtain ⟨receipt, hm⟩ := hs.mem_iff.mp (List.mem_singleton_self _)
  simpa [Entry.isSought] using List.all_eq_true.mp hunsought _ hm

end Evm

end DlnTaker
