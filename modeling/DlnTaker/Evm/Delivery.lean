import Mathlib.Data.List.Nodup
import DlnTaker.Evm.Nonces
import DlnTaker.Library.Journal

/-! # A payload is delivered at most once

A nonce that is reported as too low after one of the run's transactions has been
accepted means that this transaction may be in the chain already. The run signs
the payload anew with the next nonce all the same: this is the only way in which
two of its transactions can be included.
-/

namespace DlnTaker

namespace Evm

open Journal

variable {market : FeeMarket} {config : BroadcasterConfig market} {b b' : Broadcaster market}
  {a : Answer market} {t : List (Answer market)}

def Entry.IsAccepted (e : Entry market) : Prop := ∃ tx txHash, e = .accepted tx txHash

def Entry.IsTooLow (e : Entry market) : Prop := ∃ tx, e = .refused tx .nonceTooLow

def Entry.IsSigned (e : Entry market) : Prop := ∃ attempt tx, e = .signed attempt tx

/-- No transaction is signed with another nonce than one accepted before. -/
def SameNonce (pre : List (Entry market)) (e : Entry market) : Prop := ∀ attempt tx tx' txHash,
  e = .signed attempt tx → .accepted tx' txHash ∈ pre → tx.nonce = tx'.nonce

/-- Of the accepted transactions a chain, which holds one for each nonce, includes at most one. -/
def IncludedOnce (log : List (Entry market)) : Prop :=
  ∀ chain : List (PopulatedTxn market), (chain.map (·.nonce)).Nodup →
    ∀ tx ∈ chain, ∀ tx' ∈ chain, (∃ txHash, .accepted tx txHash ∈ log) →
      (∃ txHash, .accepted tx' txHash ∈ log) → tx = tx'

def DeliveredOnce (log : List (Entry market)) : Prop := EachEntry SameNonce log ∧ IncludedOnce log

/-- A nonce was reported as too low after a transaction had been accepted. -/
def Bumped (log : List (Entry market)) : Prop := InOrder [Entry.IsAccepted, Entry.IsTooLow] log

/-- And a transaction was signed after that. -/
def SignedAnew (log : List (Entry market)) : Prop :=
  InOrder [Entry.IsAccepted, Entry.IsTooLow, Entry.IsSigned] log

/-- Some transaction was accepted with another nonce. -/
def AcceptedOther (log : List (Entry market)) (nonce : ℕ) : Prop :=
  ∃ tx txHash, .accepted tx txHash ∈ log ∧ tx.nonce ≠ nonce

/-- The nonce in use differs from an accepted one exactly if it was bumped since. -/
structure Aged (b : Broadcaster market) : Prop where
  fresh : b.stage = .fresh → ∀ tx txHash, .accepted tx txHash ∉ b.journal
  bound : ∀ nonce, b.stage = .using nonce → ∀ tx txHash, .accepted tx txHash ∈ b.journal →
    tx.nonce ≤ nonce
  moved : ∀ nonce, b.stage = .using nonce → (AcceptedOther b.journal nonce ↔ Bumped b.journal)
  outstanding : ∀ tx, b.outstanding = some tx → Bumped b.journal → SignedAnew b.journal
  signed : EachEntry (fun pre e => ∀ attempt tx, e = .signed attempt tx →
    (AcceptedOther pre tx.nonce ↔ Bumped pre)) b.journal
  uniform : ¬ SignedAnew b.journal → ∀ tx txHash tx' txHash', .accepted tx txHash ∈ b.journal →
    .accepted tx' txHash' ∈ b.journal → tx.nonce = tx'.nonce

variable {log es : List (Entry market)}

theorem accepted_mem_append_silent {tx : PopulatedTxn market} {txHash : String}
    (hes : ∀ e ∈ es, e.isSilent = true) :
    .accepted tx txHash ∈ log ++ es ↔ .accepted tx txHash ∈ log := by
  rw [List.mem_append, or_iff_left_iff_imp]
  intro h
  simpa [Entry.isSilent] using hes _ h

theorem not_kind_of_silent {e : Entry market} (h : e.isSilent = true) :
    ¬ e.IsAccepted ∧ ¬ e.IsTooLow ∧ ¬ e.IsSigned := by
  refine ⟨?_, ?_, ?_⟩
  · rintro ⟨_, _, rfl⟩; simp [Entry.isSilent] at h
  · rintro ⟨_, rfl⟩; simp [Entry.isSilent] at h
  · rintro ⟨_, _, rfl⟩; simp [Entry.isSilent] at h

theorem bumped_append_silent (hes : ∀ e ∈ es, e.isSilent = true) :
    Bumped (log ++ es) ↔ Bumped log := by
  refine inOrder_append_of_not fun e he k hk => ?_
  have hn := not_kind_of_silent (hes e he)
  simp only [List.mem_cons, List.not_mem_nil, or_false] at hk
  rcases hk with rfl | rfl
  · exact hn.1
  · exact hn.2.1

theorem signedAnew_append_silent (hes : ∀ e ∈ es, e.isSilent = true) :
    SignedAnew (log ++ es) ↔ SignedAnew log := by
  refine inOrder_append_of_not fun e he k hk => ?_
  have hn := not_kind_of_silent (hes e he)
  simp only [List.mem_cons, List.not_mem_nil, or_false] at hk
  rcases hk with rfl | rfl | rfl
  · exact hn.1
  · exact hn.2.1
  · exact hn.2.2

/-- Silent entries and a change of phase that keeps the nonce keep the invariant. -/
theorem Aged.silent (h : Aged b) (hes : ∀ e ∈ es, e.isSilent = true)
    (hj : b'.journal = b.journal ++ es) (hs : b'.stage = b.stage ∨ b'.stage = .ended)
    (ho : b'.outstanding = none ∨ b'.outstanding = b.outstanding) : Aged b' := by
  have hstage : ∀ {s}, s ≠ .ended → b'.stage = s → b.stage = s := by
    intro s hne hb
    rcases hs with hs | hs
    · rw [← hs, hb]
    · exact absurd (hb.symm.trans hs) hne
  constructor
  · intro hf tx txHash
    rw [hj, accepted_mem_append_silent hes]
    exact h.fresh (hstage (by simp) hf) tx txHash
  · intro nonce hn tx txHash
    rw [hj, accepted_mem_append_silent hes]
    exact h.bound nonce (hstage (by simp) hn) tx txHash
  · intro nonce hn
    rw [hj, bumped_append_silent hes, ← h.moved nonce (hstage (by simp) hn)]
    simp only [AcceptedOther, accepted_mem_append_silent hes]
  · intro tx htx
    rw [hj, bumped_append_silent hes, signedAnew_append_silent hes]
    rcases ho with ho | ho
    · rw [ho] at htx; cases htx
    · exact h.outstanding tx (ho ▸ htx)
  · rw [hj]
    refine h.signed.append fun e he pre attempt tx hsig => ?_
    subst hsig
    simpa [Entry.isSilent] using hes _ he
  · rw [hj, signedAnew_append_silent hes]
    intro hn tx txHash tx' txHash'
    rw [accepted_mem_append_silent hes, accepted_mem_append_silent hes]
    exact h.uniform hn tx txHash tx' txHash'

theorem acceptedOther_concat {e : Entry market} {nonce : ℕ} (he : ¬ e.IsAccepted) :
    AcceptedOther (log ++ [e]) nonce ↔ AcceptedOther log nonce := by
  constructor
  · rintro ⟨tx, txHash, hm, hn⟩
    rcases List.mem_append.mp hm with hm | hm
    · exact ⟨tx, txHash, hm, hn⟩
    · exact absurd ⟨tx, txHash, (List.mem_singleton.mp hm).symm⟩ he
  · rintro ⟨tx, txHash, hm, hn⟩
    exact ⟨tx, txHash, List.mem_append_left _ hm, hn⟩

theorem accepted_mem_concat {e : Entry market} {tx : PopulatedTxn market} {txHash : String}
    (he : ¬ e.IsAccepted) : .accepted tx txHash ∈ log ++ [e] ↔ .accepted tx txHash ∈ log := by
  rw [List.mem_append, or_iff_left_iff_imp]
  intro h
  exact absurd ⟨tx, txHash, (List.mem_singleton.mp h).symm⟩ he

theorem bumped_concat_of_not {e : Entry market} (he : ¬ e.IsTooLow) :
    Bumped (log ++ [e]) ↔ Bumped log := by
  rw [Bumped, inOrder_pair_concat]
  exact or_iff_left fun hb => he hb.1

theorem signedAnew_concat_of_not {e : Entry market} (he : ¬ e.IsSigned) :
    SignedAnew (log ++ [e]) ↔ SignedAnew log := by
  rw [SignedAnew, inOrder_triple_concat]
  exact or_iff_left fun ha => he ha.1

theorem exists_accepted {nonce : ℕ} (h : AcceptedOther log nonce) : ∃ e ∈ log, e.IsAccepted := by
  obtain ⟨tx, txHash, hm, -⟩ := h
  exact ⟨_, hm, tx, txHash, rfl⟩

theorem Aged.sign (h : Aged b) {broadcast : InitiatedBroadcastAttempt market}
    (hs : b.stage = .using broadcast.tx.nonce) (hp : b'.phase = .signing broadcast)
    (hj : b'.journal = b.journal ++ [.signed broadcast.attempt broadcast.tx]) : Aged b' := by
  have hstage : b'.stage = .using broadcast.tx.nonce := by rw [Broadcaster.stage, hp]; rfl
  have hacc : ¬ (Entry.signed broadcast.attempt broadcast.tx).IsAccepted := by
    rintro ⟨_, _, he⟩; cases he
  have hlow : ¬ (Entry.signed broadcast.attempt broadcast.tx).IsTooLow := by
    rintro ⟨_, he⟩; cases he
  have hsig : (Entry.signed broadcast.attempt broadcast.tx).IsSigned := ⟨_, _, rfl⟩
  have hbumped : Bumped b'.journal ↔ Bumped b.journal := by
    rw [hj]
    exact bumped_concat_of_not hlow
  have hanew : SignedAnew b'.journal ↔ SignedAnew b.journal ∨ Bumped b.journal := by
    rw [hj, SignedAnew, inOrder_triple_concat, and_iff_right hsig]
    rfl
  constructor
  · intro hf
    rw [hstage] at hf; cases hf
  · intro nonce hn tx txHash
    rw [hj, accepted_mem_concat hacc]
    exact h.bound nonce (hs.trans (hstage ▸ hn)) tx txHash
  · intro nonce hn
    rw [hbumped, hj, acceptedOther_concat hacc]
    exact h.moved nonce (hs.trans (hstage ▸ hn))
  · intro tx _
    rw [hbumped, hanew]
    exact .inr
  · rw [hj, eachEntry_concat]
    refine ⟨h.signed, fun attempt tx he => ?_⟩
    obtain ⟨rfl, rfl⟩ := Entry.signed.inj he
    exact h.moved _ hs
  · intro hn tx txHash tx' txHash'
    rw [hj, accepted_mem_concat hacc, accepted_mem_concat hacc]
    exact h.uniform (fun ha => hn (hanew.mpr (.inl ha))) tx txHash tx' txHash'

theorem Aged.accept (h : Aged b) {broadcast : InitiatedBroadcastAttempt market} {txHash : String}
    (hp : b.phase = .publishing broadcast) (hs : b'.stage = .using broadcast.tx.nonce)
    (ho : b'.outstanding = none) (hj : b'.journal = b.journal ++ [.accepted broadcast.tx txHash]) :
    Aged b' := by
  have hstage : b.stage = .using broadcast.tx.nonce := by rw [Broadcaster.stage, hp]; rfl
  have hout : b.outstanding = some broadcast.tx := by rw [Broadcaster.outstanding, hp]; rfl
  have hlow : ¬ (Entry.accepted broadcast.tx txHash).IsTooLow := by rintro ⟨_, he⟩; cases he
  have hsig : ¬ (Entry.accepted broadcast.tx txHash).IsSigned := by rintro ⟨_, _, he⟩; cases he
  have hmem : ∀ {tx hash}, .accepted tx hash ∈ b'.journal →
      .accepted tx hash ∈ b.journal ∨ tx = broadcast.tx := by
    intro tx hash hm
    rw [hj] at hm
    rcases List.mem_append.mp hm with hm | hm
    · exact .inl hm
    · exact .inr (Entry.accepted.inj (List.mem_singleton.mp hm)).1
  have hbumped : Bumped b'.journal ↔ Bumped b.journal := by
    rw [hj]
    exact bumped_concat_of_not hlow
  have hanew : SignedAnew b'.journal ↔ SignedAnew b.journal := by
    rw [hj]
    exact signedAnew_concat_of_not hsig
  -- before this acceptance, another accepted nonce means that a bump and this signature followed
  have hother : ∀ tx hash, .accepted tx hash ∈ b.journal → tx.nonce ≠ broadcast.tx.nonce →
      SignedAnew b.journal := fun tx hash hm hne =>
    h.outstanding _ hout ((h.moved _ hstage).mp ⟨tx, hash, hm, hne⟩)
  constructor
  · intro hf
    rw [hs] at hf; cases hf
  · intro nonce hn tx hash hm
    obtain rfl : broadcast.tx.nonce = nonce := Stage.using.inj (hs.symm.trans hn)
    rcases hmem hm with hm | rfl
    · exact h.bound _ hstage tx hash hm
    · exact le_rfl
  · intro nonce hn
    obtain rfl : broadcast.tx.nonce = nonce := Stage.using.inj (hs.symm.trans hn)
    rw [hbumped, ← h.moved _ hstage]
    constructor
    · rintro ⟨tx, hash, hm, hne⟩
      rcases hmem hm with hm | rfl
      · exact ⟨tx, hash, hm, hne⟩
      · exact absurd rfl hne
    · rintro ⟨tx, hash, hm, hne⟩
      exact ⟨tx, hash, hj ▸ List.mem_append_left _ hm, hne⟩
  · intro tx htx
    rw [ho] at htx; cases htx
  · rw [hj, eachEntry_concat]
    exact ⟨h.signed, fun attempt tx he => by cases he⟩
  · rw [hanew]
    intro hn tx hash tx' hash' hm hm'
    have heq : ∀ {tx hash}, .accepted tx hash ∈ b'.journal → tx.nonce = broadcast.tx.nonce := by
      intro tx hash hm
      by_contra hne
      rcases hmem hm with hm | rfl
      · exact hn (hother tx hash hm hne)
      · exact hne rfl
    rw [heq hm, heq hm']

theorem Aged.bump (h : Aged b) {tx : PopulatedTxn market} (hout : b.outstanding = some tx)
    (hs : b'.stage = .using (tx.nonce + 1)) (ho : b'.outstanding = none)
    (hj : b'.journal = b.journal ++ [.refused tx .nonceTooLow]) : Aged b' := by
  have hstage := stage_of_outstanding hout
  have hacc : ¬ (Entry.refused tx .nonceTooLow).IsAccepted := by rintro ⟨_, _, he⟩; cases he
  have hsig : ¬ (Entry.refused tx .nonceTooLow).IsSigned := by rintro ⟨_, _, he⟩; cases he
  have hlow : (Entry.refused tx .nonceTooLow).IsTooLow := ⟨tx, rfl⟩
  have hbumped : Bumped b'.journal ↔ Bumped b.journal ∨ ∃ e ∈ b.journal, e.IsAccepted := by
    rw [hj, Bumped, inOrder_pair_concat, and_iff_right hlow]
    rfl
  have hanew : SignedAnew b'.journal ↔ SignedAnew b.journal := by
    rw [hj]
    exact signedAnew_concat_of_not hsig
  refine ⟨fun hf => ?_, fun nonce hn tx' hash hm => ?_, fun nonce hn => ?_, fun tx' htx => ?_, ?_,
    ?_⟩
  · rw [hs] at hf; cases hf
  · obtain rfl : tx.nonce + 1 = nonce := Stage.using.inj (hs.symm.trans hn)
    rw [hj, accepted_mem_concat hacc] at hm
    have := h.bound _ hstage tx' hash hm
    omega
  · obtain rfl : tx.nonce + 1 = nonce := Stage.using.inj (hs.symm.trans hn)
    rw [hbumped, hj, acceptedOther_concat hacc]
    constructor
    · exact fun ha => .inr (exists_accepted ha)
    · intro hb
      obtain ⟨e, he, tx', hash, rfl⟩ : ∃ e ∈ b.journal, e.IsAccepted := by
        rcases hb with hb | hb
        · exact exists_accepted ((h.moved _ hstage).mpr hb)
        · exact hb
      have := h.bound _ hstage tx' hash he
      exact ⟨tx', hash, he, by omega⟩
  · rw [ho] at htx; cases htx
  · rw [hj, eachEntry_concat]
    exact ⟨h.signed, fun attempt tx' he => by cases he⟩
  · rw [hanew]
    intro hn tx' hash tx'' hash'
    rw [hj, accepted_mem_concat hacc, accepted_mem_concat hacc]
    exact h.uniform hn tx' hash tx'' hash'

theorem Aged.assign (h : Aged b) (hf : b.stage = .fresh) (ho : b'.outstanding = none)
    (hj : b'.journal = b.journal ++ es) (hes : ∀ e ∈ es, e.isSilent = true) : Aged b' := by
  have hno : ∀ tx txHash, .accepted tx txHash ∉ b'.journal := by
    intro tx txHash
    rw [hj, accepted_mem_append_silent hes]
    exact h.fresh hf tx txHash
  have hb : ¬ Bumped b'.journal := by
    intro hb
    obtain ⟨e, hm, tx, txHash, rfl⟩ := hb.exists_mem (k := Entry.IsAccepted) (by simp)
    exact hno tx txHash hm
  refine ⟨fun _ => hno, fun _ _ tx hash hm => absurd hm (hno tx hash), fun n _ => ?_,
    fun tx htx => ?_, ?_, fun _ tx hash _ _ hm => absurd hm (hno tx hash)⟩
  · refine iff_of_false ?_ hb
    rintro ⟨tx, hash, hm, -⟩
    exact hno tx hash hm
  · rw [ho] at htx; cases htx
  · rw [hj]
    refine h.signed.append fun e he pre attempt tx hsig => ?_
    subst hsig
    simpa [Entry.isSilent] using hes _ he

theorem Aged.turn (h : Aged b) (ht : Turn b a b') : Aged b' := by
  cases ht with
  | assign _ nonce _ es hf hs ho hj hes _ => exact h.assign hf ho hj hes
  | stay _ _ es hs ho hj hes => exact h.silent hes hj (.inl hs) (.inl ho)
  | sign _ _ broadcast hs hp hj => exact h.sign hs hp hj
  | publish _ _ broadcast hp hp' hj =>
    have hj' : b'.journal = b.journal ++ [] := by rw [hj, List.append_nil]
    refine h.silent (by simp) hj' (.inl ?_) (.inr ?_)
    · rw [Broadcaster.stage, Broadcaster.stage, hp, hp']; rfl
    · rw [Broadcaster.outstanding, Broadcaster.outstanding, hp, hp']; rfl
  | accept response _ broadcast txHash hp hs ho _ hj => exact h.accept hp hs ho hj
  | bump _ _ tx hout hs ho hj _ => exact h.bump hout hs ho hj
  | finish _ _ es hs hj hes =>
    refine h.silent hes hj (.inr hs) (.inl ?_)
    rcases ho : b'.outstanding with _ | tx
    · rfl
    · rw [stage_of_outstanding ho] at hs; cases hs

theorem Aged.initial : Aged (Broadcaster.initial : Broadcaster market) where
  fresh _ := by simp [Broadcaster.initial]
  bound _ hn := nomatch hn
  moved _ hn := nomatch hn
  outstanding _ htx := nomatch htx
  signed := eachEntry_nil
  uniform _ := by simp [Broadcaster.initial]

theorem run_aged (h : (broadcaster config).Run t b) : Aged b :=
  h.invariant .initial fun _ _ _ ha hs => ha.turn (turn_of_step hs)

/-- The payload is delivered at most once if and only if no transaction is signed after a nonce
was reported as too low after an acceptance. -/
theorem delivered_once_iff (h : (broadcaster config).Run t b) :
    DeliveredOnce b.journal ↔ ¬ SignedAnew b.journal := by
  have ha := run_aged h
  constructor
  · rintro ⟨hsame, -⟩ hanew
    obtain ⟨pre, e, post, hl, ⟨attempt, tx, rfl⟩, hb⟩ :=
      (@inOrder_iff_exists_last _ _ [Entry.IsAccepted, Entry.IsTooLow] Entry.IsSigned).mp hanew
    obtain ⟨tx', txHash, hm, hne⟩ := (ha.signed pre _ post hl attempt tx rfl).mpr hb
    exact hne (hsame pre _ post hl attempt tx tx' txHash rfl hm).symm
  · intro hanew
    constructor
    · rintro pre e post hl attempt tx tx' txHash rfl hm
      by_contra hne
      refine hanew ((@inOrder_iff_exists_last _ _ [Entry.IsAccepted, Entry.IsTooLow]
        Entry.IsSigned).mpr ⟨pre, _, post, hl, ⟨attempt, tx, rfl⟩, ?_⟩)
      exact (ha.signed pre _ post hl attempt tx rfl).mp ⟨tx', txHash, hm, Ne.symm hne⟩
    · rintro chain hnodup tx htx tx' htx' ⟨txHash, hm⟩ ⟨txHash', hm'⟩
      exact List.inj_on_of_nodup_map hnodup htx htx' (ha.uniform hanew _ _ _ _ hm hm')

/-- The first nonce is too low, but nothing was accepted before. -/
theorem delivered_once_iff_first_nonce_too_low :
    ∃ b, (broadcaster Sample.config).Run (Sample.signed ++
      [.sendRawTransaction (.error "nonce too low"), .blockNumber (.ok 2),
        .estimateGas (.ok 21000), .fees (.ok (.gasPrice 100)), .signature (.ok "0x"),
        .sendRawTransaction (.result (some "0xa"))]) b ∧
    (DeliveredOnce b.journal ↔ ¬ SignedAnew b.journal) := by
  apply Machine.exists_run_and
  · decide +kernel
  · intro s hr
    exact delivered_once_iff hr

namespace Sample

/-- The first transaction is accepted and gets stuck; its replacement is too late. -/
def tooLate : List (Answer .legacy) :=
  signed ++ [.sendRawTransaction (.result (some "0xa")), .timeout, .receipt (.result none),
    .fees (.ok (.gasPrice 100)), .signature (.ok "0x"),
    .sendRawTransaction (.error "nonce too low"), .blockNumber (.ok 2),
    .estimateGas (.ok 21000), .fees (.ok (.gasPrice 100))]

/-- The payload as it is signed with the nonce. -/
def transaction (nonce : ℕ) : PopulatedTxn .legacy :=
  ⟨⟨"0x1", "0x2", "0x", none, 23100, nonce⟩, .legacy 110⟩

end Sample

/-- The first transaction is included just before its replacement arrives: the payload is signed
for the next nonce. -/
theorem signed_anew_after_inclusion :
    ∃ b, (broadcaster Sample.config).Run Sample.tooLate b ∧
      b.journal[2]? = some (.accepted (Sample.transaction 5) "0xa") ∧
      b.journal[8]? = some (.signed 3 (Sample.transaction 6)) ∧ ¬ DeliveredOnce b.journal := by
  have hexec : ((broadcaster Sample.config).exec (broadcaster Sample.config).init
      Sample.tooLate).any (fun b =>
        decide (b.journal[2]? = some (.accepted (Sample.transaction 5) "0xa")) &&
        decide (b.journal[8]? = some (.signed 3 (Sample.transaction 6)))) = true := by
    decide +kernel
  obtain ⟨b, hr, hb⟩ := Machine.exists_run_of_any hexec
  rw [Bool.and_eq_true, decide_eq_true_eq, decide_eq_true_eq] at hb
  obtain ⟨h₂, h₈⟩ := hb
  refine ⟨b, hr, h₂, h₈, fun hd => ?_⟩
  have hm : .accepted (Sample.transaction 5) "0xa" ∈ b.journal.take 8 := by
    apply List.mem_of_getElem? (i := 2)
    rw [List.getElem?_take_of_lt (by decide)]
    exact h₂
  exact absurd (hd.1.get h₈ 3 _ _ "0xa" rfl hm) (by decide)

end Evm

end DlnTaker
