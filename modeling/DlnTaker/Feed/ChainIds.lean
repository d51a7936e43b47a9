import DlnTaker.Feed.Orders

/-! # Chain ids on the feed

The feed writes the id of a chain as 64 hexadecimal digits and reads it back
through a number of 256 bits.
-/

namespace DlnTaker

open Json BigEndian

namespace WsNextOrder

variable {env : FeedEnv} {chainId : ChainId}

/-- `helpers.hexToBuffer` decodes an even number of digits, with or without `0x`. -/
def DecodesHex (env : FeedEnv) : Prop :=
  ∀ text bytes, Hex.decode text = some bytes →
    env.hexToBuffer (some (.str (units text))) = .ok bytes ∧
      env.hexToBuffer (some (.str (units ('0' :: 'x' :: text)))) = .ok bytes

/-- The text has 64 digits, which denote the id. -/
theorem exists_decode_chainIdText (h : chainId < 16 ^ 64) :
    (chainIdText chainId).length = 64 ∧ ∃ bytes, Hex.decode (chainIdText chainId) = some bytes ∧
      bytes.length = 32 ∧ bigEndian bytes = chainId := by
  obtain ⟨digits, htext, hd, hnumber⟩ := Hex.exists_toDigits (n := chainId)
  have hlength : digits.length ≤ 64 := by
    have hle := (Nat.length_toDigits_le_iff (b := 16) (by norm_num) (by norm_num : 0 < 64)).mpr h
    rwa [htext, List.length_map] at hle
  let padded := List.replicate (64 - digits.length) 0 ++ digits
  have hpadded : chainIdText chainId = padded.map Nat.digitChar := by
    simp only [chainIdText, padded, htext, List.length_map, List.map_append, List.map_replicate]
    rfl
  have hn : padded.length = 2 * 32 := by
    simp only [padded, List.length_append, List.length_replicate]
    omega
  have hdigits : ∀ d ∈ padded, d < 16 := by
    intro d hm
    rcases List.mem_append.mp hm with hm | hm
    · rw [List.eq_of_mem_replicate hm]
      norm_num
    · exact hd d hm
  obtain ⟨bytes, hdecode, hbytes, hvalue⟩ := Hex.decode_digitChars hn hdigits
  refine ⟨by rw [hpadded, List.length_map, hn], bytes, by rw [hpadded, hdecode], hbytes, ?_⟩
  rw [hvalue, Hex.number_replicate_zero, hnumber]

theorem bigIntToNumber_eq {n : ℕ} (h : n < 2 ^ 53) : bigIntToNumber n = n := by
  rw [bigIntToNumber, Double.ofRat_natCast h]
  simp

/-- The id of a chain is decoded from its text. -/
theorem decodeChainId_chainIdText (henv : DecodesHex env) (hsafe : chainId ≤ 2 ^ 53 - 1) :
    (chainIdText chainId).length = 64 ∧
      decodeChainId env (some (.str (units (chainIdText chainId)))) = .ok chainId := by
  have h53 : chainId < 2 ^ 53 := lt_of_le_of_lt hsafe (by norm_num)
  have h64 : chainId < 16 ^ 64 := h53.trans (by norm_num)
  obtain ⟨hlength, bytes, hdecode, hbytes, hvalue⟩ := exists_decode_chainIdText h64
  obtain ⟨u, hu, hbig, -⟩ := U256.fromBytesBE_exact hbytes
  refine ⟨hlength, ?_⟩
  rw [decodeChainId, fromHexBEString, (henv _ _ hdecode).1]
  change (U256.fromBytesBE bytes >>= fun u => .ok (bigIntToNumber u.toBigInt)) = _
  rw [hu]
  change Except.ok (bigIntToNumber u.toBigInt) = _
  rw [hbig, hvalue, bigIntToNumber_eq h53]

/-- A buffer of 256 bits is decoded to its value and encoded to itself, and the id of a chain is
decoded from its text. -/
theorem decoding_exact (henv : DecodesHex env) :
    (∀ data : List UInt8, data.length = 32 → ∃ u, U256.fromBytesBE data = .ok u ∧
      u.toBigInt = bigEndian data ∧ u.toBytesBE = .ok data) ∧
    ∀ chainId : ChainId, chainId ≤ 2 ^ 53 - 1 → (chainIdText chainId).length = 64 ∧
      decodeChainId env (some (.str (units (chainIdText chainId)))) = .ok chainId := by
  constructor
  · intro data h
    exact U256.fromBytesBE_exact h
  · intro chainId hsafe
    exact decodeChainId_chainIdText henv hsafe

theorem decodesHex_sample : DecodesHex Sample.feedEnv := by
  intro text bytes h
  have hdigits := Hex.exists_digit_of_decode h
  have hascii : ∀ c ∈ text, c.toNat < 0x80 := fun c hc =>
    (hdigits c hc).elim fun d hd => (Hex.digit_ascii hd).1
  have hplain : Sample.withoutMark text = text := by
    unfold Sample.withoutMark
    split
    · obtain ⟨d, hd⟩ := hdigits 'x' (by simp)
      exact absurd rfl (Hex.digit_ascii hd).2
    · rfl
  have hmarked : chars (units ('0' :: 'x' :: text)) = '0' :: 'x' :: text := by
    refine chars_units fun c hc => ?_
    simp only [List.mem_cons] at hc
    rcases hc with rfl | rfl | hc
    · decide
    · decide
    · exact hascii c hc
  constructor
  · simp only [Sample.feedEnv, Sample.hexToBuffer, chars_units hascii, hplain, h]
  · simp only [Sample.feedEnv, Sample.hexToBuffer, hmarked, Sample.withoutMark, h]

/-- The chain that the source's tests decode. -/
theorem decoding_exact_solana :
    (∃ u, U256.fromBytesBE (List.replicate 32 7) = .ok u ∧
      u.toBytesBE = .ok (List.replicate 32 7)) ∧
    decodeChainId Sample.feedEnv (some (.str (units (chainIdText 7565164)))) = .ok 7565164 := by
  obtain ⟨hbytes, hchains⟩ := decoding_exact decodesHex_sample
  obtain ⟨u, hu, -, hb⟩ := hbytes (List.replicate 32 7) (List.length_replicate)
  exact ⟨⟨u, hu, hb⟩, (hchains 7565164 (by norm_num)).2⟩

/-! ### The commands -/

/-- The texts of chain ids in a command. -/
def Command.chainIds : Command → List (List Char)
  | .subscription confirmationsCount => confirmationsCount.map Prod.fst
  | .getCreated => []
  | .getFulfilled _ chainId => [chainId]

section Commands

variable {α : Type} {entries found : List (List Char × α)} {e : List Char × α}
  {minConfirmationThresholds : List (ChainId × List ℕ)}
  {unlockAuthorities : List (ChainId × String)}

theorem mem_of_mem_foldl_entries
    (h : e ∈ entries.foldl (fun found e =>
      if found.any (·.1 = e.1) then found.map fun f => if f.1 = e.1 then e else f
      else found ++ [e]) found) : e ∈ found ∨ e ∈ entries := by
  induction entries generalizing found with
  | nil => exact .inl h
  | cons entry entries ih =>
    rw [List.foldl_cons] at h
    rcases ih h with hfound | hmem
    · split at hfound
      · -- an entry of the same key is replaced
        obtain ⟨f, hf, rfl⟩ := List.mem_map.mp hfound
        split
        · exact .inr List.mem_cons_self
        · exact .inl hf
      · rcases List.mem_append.mp hfound with hf | hf
        · exact .inl hf
        · exact .inr (List.mem_cons.mpr (.inl (List.mem_singleton.mp hf)))
    · exact .inr (List.mem_cons_of_mem _ hmem)

theorem mem_of_mem_fromEntries (h : e ∈ fromEntries entries) : e ∈ entries :=
  (mem_of_mem_foldl_entries h).resolve_left List.not_mem_nil

/-- Every id in the commands is that of a configured chain, and is decoded from its text. -/
theorem decodeChainId_openCommands (henv : DecodesHex env)
    (ht : ∀ threshold ∈ minConfirmationThresholds, threshold.1 ≤ 2 ^ 53 - 1)
    (hu : ∀ unlockAuthority ∈ unlockAuthorities, unlockAuthority.1 ≤ 2 ^ 53 - 1) :
    ∀ command ∈ openCommands minConfirmationThresholds unlockAuthorities,
      ∀ text ∈ command.chainIds, ∃ chainId,
        (chainId ∈ minConfirmationThresholds.map Prod.fst ∨
          chainId ∈ unlockAuthorities.map Prod.fst) ∧
        decodeChainId env (some (.str (units text))) = .ok chainId := by
  intro command hcommand text htext
  simp only [openCommands, List.cons_append, List.nil_append, List.mem_cons,
    List.mem_map] at hcommand
  rcases hcommand with rfl | rfl | ⟨unlockAuthority, hmem, rfl⟩
  · obtain ⟨entry, hentry, rfl⟩ := List.mem_map.mp htext
    obtain ⟨threshold, hmem, rfl⟩ := List.mem_map.mp (mem_of_mem_fromEntries hentry)
    exact ⟨threshold.1, .inl (List.mem_map_of_mem hmem),
      (decodeChainId_chainIdText henv (ht threshold hmem)).2⟩
  · exact absurd htext List.not_mem_nil
  · rw [List.mem_singleton.mp htext]
    exact ⟨unlockAuthority.1, .inr (List.mem_map_of_mem hmem),
      (decodeChainId_chainIdText henv (hu unlockAuthority hmem)).2⟩

end Commands

end WsNextOrder

end DlnTaker
