import DlnTaker.Feed.ChainIds
import DlnTaker.Feed.Reconnection
import DlnTaker.Launch.Ranges

/-! # What a launched executor asks of the feed

The thresholds of the configured chains become the points of the subscription,
and their unlock authorities those whose fulfilled orders are asked for. As a
connection that opens is sent all commands, every connection asks for exactly
what the configuration says.
-/

namespace DlnTaker

open WsNextOrder

/-! ### Commands of distinct chains -/

namespace WsNextOrder

variable {α : Type} {entries found : List (List Char × α)}

theorem foldl_entries_of_nodup (h : ((found ++ entries).map Prod.fst).Nodup) :
    entries.foldl (fun found e =>
      if found.any (·.1 = e.1) then found.map fun f => if f.1 = e.1 then e else f
      else found ++ [e]) found = found ++ entries := by
  induction entries generalizing found with
  | nil => simp
  | cons e entries ih =>
    have hnew : found.any (·.1 = e.1) = false := by
      rw [List.any_eq_false]
      intro f hf heq
      rw [List.map_append, List.nodup_append] at h
      refine h.2.2 f.1 (List.mem_map_of_mem hf) e.1 (by simp) ?_
      simpa using heq
    rw [List.foldl_cons, hnew, if_neg Bool.false_ne_true, ih (by simpa using h)]
    simp

theorem fromEntries_of_nodup (h : (entries.map Prod.fst).Nodup) : fromEntries entries = entries :=
  foldl_entries_of_nodup h

theorem exists_digits (n : ChainId) : ∃ digits, chainIdText n = digits.map Nat.digitChar ∧
    (∀ d ∈ digits, d < 16) ∧ Hex.number digits = n := by
  obtain ⟨digits, htext, hd, hnumber⟩ := Hex.exists_toDigits (n := n)
  refine ⟨List.replicate (64 - digits.length) 0 ++ digits, ?_, fun d hm => ?_, ?_⟩
  · simp only [chainIdText, htext, List.length_map, List.map_append, List.map_replicate]
    rfl
  · rcases List.mem_append.mp hm with hm | hm
    · rw [List.eq_of_mem_replicate hm]
      norm_num
    · exact hd d hm
  · rw [Hex.number_replicate_zero, hnumber]

/-- The digits that are added in front do not change the number. -/
theorem chainIdText_injective : Function.Injective chainIdText := by
  intro a b h
  obtain ⟨as, has, hda, rfl⟩ := exists_digits a
  obtain ⟨bs, hbs, hdb, rfl⟩ := exists_digits b
  have hread : ∀ {digits : List ℕ}, (∀ d ∈ digits, d < 16) →
      (digits.map Nat.digitChar).map Hex.digit = digits.map some := by
    intro digits hd
    rw [List.map_map]
    exact List.map_congr_left fun d hm => Hex.digit_digitChar (hd d hm)
  rw [has, hbs] at h
  have hsome : as.map some = bs.map some := by rw [← hread hda, h, hread hdb]
  rw [List.map_injective_iff.mpr (Option.some_injective _) hsome]

end WsNextOrder

/-! ### The commands of a launch -/

/-- `Object.values(this.chains)` is in the ascending order of the ids. -/
def ExecutorLaunchConfig.chainIds (config : ExecutorLaunchConfig) : List ChainId :=
  (config.chains.map (·.chain)).dedup.insertionSort (· ≤ ·)

namespace LaunchedExecutor

variable (l : LaunchedExecutor) (config : ExecutorLaunchConfig)

/-- The entries of `this.chains`. -/
def entries : List (ChainId × LaunchedChain) :=
  config.chainIds.filterMap fun chainId => (l.chains chainId).map fun chain => (chainId, chain)

def unlockAuthorities : List (ChainId × String) :=
  (l.entries config).map fun (chainId, chain) => (chainId, chain.unlockAuthority.address)

/-- Empty block confirmations are skipped, and so are chains without any. -/
def minConfirmationThresholds : List (ChainId × List ℕ) :=
  ((l.entries config).map fun (chainId, chain) =>
    (chainId, (chain.srcConstraints.perOrderValue.map (·.minBlockConfirmations)).filter
      (0 < ·))).filter fun range => 0 < range.2.length

/-- What the feed is initialized with. -/
def feedConfig (env : FeedEnv) (url : String) (showNumber : ℚ → String) : FeedConfig where
  env := env
  url := url
  minConfirmationThresholds := l.minConfirmationThresholds config
  unlockAuthorities := l.unlockAuthorities config
  showNumber := showNumber

end LaunchedExecutor

/-- The confirmations that the thresholds of a chain ask for, by the amount of the threshold. -/
def ChainConstraints.points (constraints : ChainConstraints) : List ℕ :=
  (constraints.byAmount.map (·.minBlockConfirmations.getD 0)).filter (0 < ·)

variable {supportedChain : ChainId → Option SupportedChain} {config : ExecutorLaunchConfig}
  {executor : Executor} {l : LaunchedExecutor} {chainId : ChainId} {chain : ChainDefinition}
  {launched : LaunchedChain}

theorem mem_chainIds : chainId ∈ config.chainIds ↔
    ∃ chain, config.definition chainId = some chain := by
  rw [ExecutorLaunchConfig.chainIds, List.mem_insertionSort, List.mem_dedup, List.mem_map]
  constructor
  · rintro ⟨chain, hm, rfl⟩
    apply Option.isSome_iff_exists.mp
    rw [ExecutorLaunchConfig.definition, List.find?_isSome]
    exact ⟨chain, List.mem_reverse.mpr hm, by simp⟩
  · rintro ⟨chain, hc⟩
    have hm := List.mem_of_find?_eq_some hc
    have hid := List.find?_some hc
    exact ⟨chain, List.mem_reverse.mp hm, of_decide_eq_true hid⟩

/-- A launched chain with the points and the authority of its definition. -/
def Announces (chain : ChainDefinition) (launched : LaunchedChain) : Prop :=
  launched.unlockAuthority = chain.unlockAuthority ∧
    (launched.srcConstraints.perOrderValue.map (·.minBlockConfirmations)).filter (0 < ·) =
      chain.constraints.points

theorem announces_of_initChain
    (h : Executor.initChain executor.toolkit supportedChain config chain = .ok launched) :
    Announces chain launched := by
  have hfrom := launchedFrom_of_initChain h
  constructor
  · unfold Executor.initChain at h
    obtain ⟨_, -, h⟩ := Fallible.bind_eq_ok.mp h
    obtain ⟨_, -, h⟩ := Fallible.bind_eq_ok.mp h
    obtain ⟨_, -, h⟩ := Fallible.bind_eq_ok.mp h
    obtain ⟨_, -, h⟩ := Fallible.bind_eq_ok.mp h
    obtain rfl := Except.ok.inj h
    rfl
  · rw [hfrom.perOrderValue, List.map_map, ChainConstraints.points]
    rfl

theorem announces_of_init (h : Executor.init supportedChain config executor = .ok l)
    (hc : config.definition chainId = some chain) :
    ∃ launched, l.chains chainId = some launched ∧ Announces chain launched := by
  unfold Executor.init at h
  obtain ⟨pairs, hpairs, h⟩ := Fallible.bind_eq_ok.mp h
  obtain rfl := Except.ok.inj h
  have hall : List.Forall₂ (fun chain pair => pair.1 = chain.chain ∧ Announces chain pair.2)
      config.chains pairs := by
    apply (Fallible.mapM_eq_ok hpairs).imp
    intro chain pair hpair
    obtain ⟨launched, hlaunched, hpair⟩ := Fallible.bind_eq_ok.mp hpair
    obtain rfl := Except.ok.inj hpair
    exact ⟨rfl, announces_of_initChain hlaunched⟩
  exact lookup_of_forall₂ (List.forall₂_reverse_iff.mpr hall) hc

/-- The entries are the launched chains of the configuration. -/
theorem mem_entries (h : Executor.init supportedChain config executor = .ok l) :
    (chainId, launched) ∈ l.entries config ↔ ∃ chain, config.definition chainId = some chain ∧
      l.chains chainId = some launched ∧ Announces chain launched := by
  have hmem : (chainId, launched) ∈ l.entries config ↔
      chainId ∈ config.chainIds ∧ l.chains chainId = some launched := by
    rw [LaunchedExecutor.entries, List.mem_filterMap]
    constructor
    · rintro ⟨id, hid, hentry⟩
      obtain ⟨launched', hl, heq⟩ := Option.map_eq_some_iff.mp hentry
      obtain ⟨rfl, rfl⟩ := Prod.mk.inj heq
      exact ⟨hid, hl⟩
    · rintro ⟨hid, hl⟩
      exact ⟨chainId, hid, by rw [hl]; rfl⟩
  rw [hmem, mem_chainIds]
  constructor
  · rintro ⟨⟨chain, hc⟩, hl⟩
    obtain ⟨launched', hl', ha⟩ := announces_of_init h hc
    obtain rfl := Option.some.inj (hl.symm.trans hl')
    exact ⟨chain, hc, hl, ha⟩
  · rintro ⟨chain, hc, hl, -⟩
    exact ⟨⟨chain, hc⟩, hl⟩

theorem entries_nodup : ((l.entries config).map Prod.fst).Nodup := by
  have hids : config.chainIds.Nodup :=
    (List.perm_insertionSort _ _).nodup_iff.mpr (List.nodup_dedup _)
  rw [LaunchedExecutor.entries, List.map_filterMap]
  refine hids.filterMap fun a a' b ha ha' => ?_
  simp only [Option.map_map, Option.mem_def, Option.map_eq_some_iff, Function.comp_apply] at ha ha'
  obtain ⟨_, -, rfl⟩ := ha
  obtain ⟨_, -, rfl⟩ := ha'
  rfl

/-- The filter of the subscription has the points of the configured chains that have any. -/
theorem mem_confirmationsCount (h : Executor.init supportedChain config executor = .ok l)
    {text : List Char} {points : List ℕ} :
    (text, points) ∈ fromEntries ((l.minConfirmationThresholds config).map fun threshold =>
      (chainIdText threshold.1, threshold.2)) ↔
    ∃ chainId chain, config.definition chainId = some chain ∧ text = chainIdText chainId ∧
      points = chain.constraints.points ∧ points ≠ [] := by
  have hkeys : ((l.minConfirmationThresholds config).map Prod.fst).Nodup := by
    have hfst : ((l.entries config).map fun (chainId, chain) => (chainId,
        (chain.srcConstraints.perOrderValue.map (·.minBlockConfirmations)).filter (0 < ·))).map
          Prod.fst = (l.entries config).map Prod.fst := by
      rw [List.map_map]
      rfl
    have hn : ((l.entries config).map Prod.fst).Nodup := entries_nodup
    rw [← hfst] at hn
    exact hn.sublist (List.filter_sublist.map _)
  have htexts : (((l.minConfirmationThresholds config).map fun threshold =>
      (chainIdText threshold.1, threshold.2)).map Prod.fst).Nodup := by
    rw [List.map_map]
    have hinj := hkeys.map chainIdText_injective
    rwa [List.map_map] at hinj
  rw [fromEntries_of_nodup htexts]
  simp only [List.mem_map, LaunchedExecutor.minConfirmationThresholds, List.mem_filter,
    Prod.exists, decide_eq_true_eq, List.length_pos_iff]
  constructor
  · rintro ⟨chainId, points', ⟨⟨id, launched, hentry, heq⟩, hne⟩, hpair⟩
    obtain ⟨rfl, rfl⟩ := Prod.mk.inj heq
    obtain ⟨rfl, rfl⟩ := Prod.mk.inj hpair
    obtain ⟨chain, hc, -, -, hpoints⟩ := (mem_entries h).mp hentry
    exact ⟨id, chain, hc, rfl, hpoints, hne⟩
  · rintro ⟨chainId, chain, hc, rfl, rfl, hne⟩
    obtain ⟨launched, hl, ha⟩ := announces_of_init h hc
    exact ⟨chainId, _, ⟨⟨chainId, launched, (mem_entries h).mpr ⟨chain, hc, hl, ha⟩,
      by rw [ha.2]⟩, hne⟩, rfl⟩

/-- Every connection that has opened has asked for the confirmations of exactly the thresholds that
are configured, for the created orders, and for the orders fulfilled by exactly the configured
unlock authorities. -/
theorem subscription_complete (h : Executor.init supportedChain config executor = .ok l)
    {env : FeedEnv} {url : String} {showNumber : ℚ → String} {t : List FeedInput}
    {c : WsConnection} {i : ℕ}
    (hr : (feed (l.feedConfig config env url showNumber)).Run t (.ok c))
    (hi : c.hasOpened i = true) :
    ∃ confirmationsCount unlocks,
      sentTo i c.log = .subscription confirmationsCount :: .getCreated :: unlocks ∧
      (∀ text points, (text, points) ∈ confirmationsCount ↔
        ∃ chainId chain, config.definition chainId = some chain ∧ text = chainIdText chainId ∧
          points = chain.constraints.points ∧ points ≠ []) ∧
      ∀ command, command ∈ unlocks ↔ ∃ chainId chain, config.definition chainId = some chain ∧
        command = .getFulfilled chain.unlockAuthority.address (chainIdText chainId) := by
  let confirmationsCount : List (List Char × List ℕ) :=
    fromEntries ((l.minConfirmationThresholds config).map fun threshold =>
      (chainIdText threshold.1, threshold.2))
  let unlocks : List Command := (l.unlockAuthorities config).map fun unlockAuthority =>
    .getFulfilled unlockAuthority.2 (chainIdText unlockAuthority.1)
  have hsent : sentTo i c.log = .subscription confirmationsCount :: .getCreated :: unlocks := by
    rw [(live_of_run hr).sent i, hi, if_pos rfl]
    rfl
  refine ⟨confirmationsCount, unlocks, hsent, fun text points => mem_confirmationsCount h,
    fun command => ?_⟩
  rw [List.mem_map]
  constructor
  · rintro ⟨⟨id, address⟩, hm, rfl⟩
    obtain ⟨⟨chainId, launched⟩, hentry, heq⟩ := List.mem_map.mp hm
    obtain ⟨rfl, rfl⟩ := Prod.mk.inj heq
    obtain ⟨chain, hc, -, ha, -⟩ := (mem_entries h).mp hentry
    exact ⟨chainId, chain, hc, by rw [ha]⟩
  · rintro ⟨chainId, chain, hc, rfl⟩
    obtain ⟨launched, hl, ha⟩ := announces_of_init h hc
    refine ⟨(chainId, launched.unlockAuthority.address), ?_, by rw [ha.1]⟩
    exact List.mem_map.mpr ⟨(chainId, launched), (mem_entries h).mpr ⟨chain, hc, hl, ha⟩, rfl⟩

/-- The feed of a launch with thresholds. -/
def Sample.subscribed (l : LaunchedExecutor) : Machine (Except String WsConnection) FeedInput :=
  feed (l.feedConfig (Sample.launchConfig none Sample.declining) Sample.feedEnv "wss://feed"
    fun _ => "3")

theorem subscription_complete_declining :
    ∃ l, Sample.launch (Sample.launchConfig none Sample.declining) = .ok l ∧
      ∃ c, (Sample.subscribed l).Run [.opened 0] (.ok c) ∧
        ∃ confirmationsCount unlocks,
          sentTo 0 c.log = .subscription confirmationsCount :: .getCreated :: unlocks ∧
          (∀ text points, (text, points) ∈ confirmationsCount ↔ ∃ chainId chain,
            (Sample.launchConfig none Sample.declining).definition chainId = some chain ∧
              text = chainIdText chainId ∧ points = chain.constraints.points ∧ points ≠ []) ∧
          ∀ command, command ∈ unlocks ↔ ∃ chainId chain,
            (Sample.launchConfig none Sample.declining).definition chainId = some chain ∧
              command = .getFulfilled chain.unlockAuthority.address (chainIdText chainId) := by
  have hruns : (Sample.launch (Sample.launchConfig none Sample.declining)).toOption.any (fun l =>
      ((Sample.subscribed l).exec (Sample.subscribed l).init [.opened 0]).any fun s =>
        s.toOption.any (·.hasOpened 0)) = true := by decide +kernel
  obtain ⟨l, h, hl⟩ := exists_ok_of_any hruns
  obtain ⟨s, hr, hs⟩ := Machine.exists_run_of_any hl
  cases s with
  | error err => cases hs
  | ok c => exact ⟨l, h, c, hr, subscription_complete h hr hs⟩

end DlnTaker
