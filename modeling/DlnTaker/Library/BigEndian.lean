import Mathlib.Data.Nat.Digits.Defs
import Mathlib.Tactic.Ring

/-! # Big-endian bytes and hexadecimal digits

The number that a list of bytes denotes, the most significant byte first, and
the bytes that an even number of hexadecimal digits denotes.
-/

variable {bytes front back : List UInt8} {byte : UInt8}

def bigEndian (bytes : List UInt8) : ℕ := Nat.ofDigits 256 (bytes.reverse.map UInt8.toNat)

namespace BigEndian

@[simp] theorem bigEndian_nil : bigEndian [] = 0 := rfl

theorem bigEndian_append :
    bigEndian (front ++ back) = bigEndian front * 256 ^ back.length + bigEndian back := by
  unfold bigEndian
  rw [List.reverse_append, List.map_append, Nat.ofDigits_append, List.length_map,
    List.length_reverse]
  ring

theorem bigEndian_cons :
    bigEndian (byte :: back) = byte.toNat * 256 ^ back.length + bigEndian back := by
  rw [← List.singleton_append, bigEndian_append]
  simp [bigEndian]

theorem bigEndian_lt : bigEndian bytes < 256 ^ bytes.length := by
  induction bytes with
  | nil => simp
  | cons byte bytes ih =>
    have hbyte : byte.toNat + 1 ≤ 256 := byte.toNat_lt
    rw [bigEndian_cons, List.length_cons, pow_succ']
    calc byte.toNat * 256 ^ bytes.length + bigEndian bytes
        < byte.toNat * 256 ^ bytes.length + 256 ^ bytes.length := by omega
      _ = (byte.toNat + 1) * 256 ^ bytes.length := by ring
      _ ≤ 256 * 256 ^ bytes.length := Nat.mul_le_mul_right _ hbyte

/-- A number below the bound is denoted by so many bytes. -/
theorem exists_bigEndian {k n : ℕ} (h : n < 256 ^ k) :
    ∃ bytes, bytes.length = k ∧ bigEndian bytes = n := by
  induction k generalizing n with
  | zero => exact ⟨[], rfl, (Nat.lt_one_iff.mp h).symm⟩
  | succ k ih =>
    have hhigh : n / 256 ^ k < 256 := Nat.div_lt_of_lt_mul (by rwa [← pow_succ])
    obtain ⟨bytes, rfl, hlow⟩ := ih (Nat.mod_lt n (by positivity : 0 < 256 ^ k))
    refine ⟨UInt8.ofNat (n / 256 ^ bytes.length) :: bytes, rfl, ?_⟩
    rw [bigEndian_cons, UInt8.toNat_ofNat', Nat.mod_eq_of_lt hhigh, hlow, mul_comm]
    exact Nat.div_add_mod n _

/-- A shift by whole bytes and a mask read one byte off. -/
theorem byte_of_shift :
    (bigEndian (front ++ byte :: back) >>> (8 * back.length)) &&& 0xff = byte.toNat := by
  have hmask : ∀ n : ℕ, n &&& 0xff = n % 256 := fun n => Nat.and_two_pow_sub_one_eq_mod n 8
  have hpow : 2 ^ (8 * back.length) = 256 ^ back.length := by
    rw [pow_mul]
    norm_num
  have hsplit : bigEndian (front ++ byte :: back) =
      (bigEndian front * 256 + byte.toNat) * 256 ^ back.length + bigEndian back := by
    rw [bigEndian_append, bigEndian_cons, List.length_cons]
    ring
  rw [hmask, Nat.shiftRight_eq_div_pow, hpow, hsplit, mul_comm,
    Nat.mul_add_div (by positivity), Nat.div_eq_of_lt bigEndian_lt]
  have hbyte : byte.toNat < 256 := byte.toNat_lt
  omega

end BigEndian

/-! ### Hexadecimal digits -/

namespace Hex

def digit (c : Char) : Option ℕ :=
  if '0' ≤ c ∧ c ≤ '9' then some (c.toNat - '0'.toNat)
  else if 'a' ≤ c ∧ c ≤ 'f' then some (c.toNat - 'a'.toNat + 10)
  else if 'A' ≤ c ∧ c ≤ 'F' then some (c.toNat - 'A'.toNat + 10)
  else none

/-- The bytes of an even number of digits. -/
def decode : List Char → Option (List UInt8)
  | [] => some []
  | [_] => none
  | high :: low :: text => do
    let high ← digit high
    let low ← digit low
    let bytes ← decode text
    return UInt8.ofNat (high * 16 + low) :: bytes

/-- The number that digits denote, the most significant one first. -/
def number (digits : List ℕ) : ℕ := Nat.ofDigits 16 digits.reverse

theorem number_append {digits digits' : List ℕ} :
    number (digits ++ digits') = number digits * 16 ^ digits'.length + number digits' := by
  unfold number
  rw [List.reverse_append, Nat.ofDigits_append, List.length_reverse]
  ring

theorem number_cons {d : ℕ} {digits : List ℕ} :
    number (d :: digits) = d * 16 ^ digits.length + number digits := by
  rw [← List.singleton_append, number_append]
  simp [number]

theorem number_replicate_zero {n : ℕ} {digits : List ℕ} :
    number (List.replicate n 0 ++ digits) = number digits := by
  induction n with
  | zero => rfl
  | succ n ih =>
    rw [List.replicate_succ, List.cons_append, number_cons, ih, zero_mul, zero_add]

theorem digit_digitChar {d : ℕ} (hd : d < 16) : digit d.digitChar = some d := by
  have hall : ∀ d < 16, digit d.digitChar = some d := by decide
  exact hall d hd

/-- What an even number of digits decodes to denotes the same number. -/
theorem decode_digitChars {digits : List ℕ} {n : ℕ} (hn : digits.length = 2 * n)
    (hd : ∀ d ∈ digits, d < 16) : ∃ bytes, decode (digits.map Nat.digitChar) = some bytes ∧
      bytes.length = n ∧ bigEndian bytes = number digits := by
  induction n generalizing digits with
  | zero =>
    obtain rfl := List.length_eq_zero_iff.mp hn
    exact ⟨[], rfl, rfl, rfl⟩
  | succ n ih =>
    match digits with
    | high :: low :: digits =>
      have hlength : digits.length = 2 * n := by
        simp only [List.length_cons] at hn
        omega
      have hhigh := hd high List.mem_cons_self
      have hlow := hd low (List.mem_cons_of_mem _ List.mem_cons_self)
      obtain ⟨bytes, hdecode, hbytes, hnumber⟩ := ih hlength fun d hm =>
        hd d (List.mem_cons_of_mem _ (List.mem_cons_of_mem _ hm))
      refine ⟨UInt8.ofNat (high * 16 + low) :: bytes, ?_, by rw [List.length_cons, hbytes], ?_⟩
      · simp [decode, digit_digitChar hhigh, digit_digitChar hlow, hdecode]
      · have hpow : 256 ^ n = 16 ^ (2 * n) := by
          rw [pow_mul]
          norm_num
        have hbyte : (UInt8.ofNat (high * 16 + low)).toNat = high * 16 + low := by
          rw [UInt8.toNat_ofNat']
          exact Nat.mod_eq_of_lt (by omega)
        rw [BigEndian.bigEndian_cons, hbyte, hbytes, hnumber, hpow, number_cons, number_cons,
          List.length_cons, hlength]
        ring

/-- The digits of a number in base sixteen denote it. -/
theorem exists_toDigits {n : ℕ} : ∃ digits : List ℕ, Nat.toDigits 16 n =
    digits.map Nat.digitChar ∧ (∀ d ∈ digits, d < 16) ∧ number digits = n := by
  induction n using Nat.strong_induction_on with
  | h n ih =>
    rcases lt_or_ge n 16 with hlt | hge
    · refine ⟨[n], Nat.toDigits_of_lt_base hlt, fun d hd => ?_, by simp [number]⟩
      rwa [List.mem_singleton.mp hd]
    · obtain ⟨digits, htext, hd, hnumber⟩ := ih (n / 16) (by omega)
      refine ⟨digits ++ [n % 16], ?_, fun d hm => ?_, ?_⟩
      · rw [Nat.toDigits_of_base_le (by norm_num) hge, htext, List.map_append]
        rfl
      · rcases List.mem_append.mp hm with hm | hm
        · exact hd d hm
        · rw [List.mem_singleton.mp hm]
          exact Nat.mod_lt _ (by norm_num)
      · rw [number_append, hnumber]
        simp [number]
        omega

theorem digit_ascii {c : Char} {d : ℕ} (h : digit c = some d) : c.toNat < 0x80 ∧ c ≠ 'x' := by
  have hle : ∀ l : Char, l.toNat < 'x'.toNat → c ≤ l → c.toNat < 0x80 ∧ c ≠ 'x' := by
    intro l hl hc
    have hn : c.toNat ≤ l.toNat := hc
    have hx : 'x'.toNat = 120 := rfl
    refine ⟨by omega, ?_⟩
    rintro rfl
    omega
  unfold digit at h
  split at h
  · rename_i hc
    exact hle '9' (by decide) hc.2
  · split at h
    · rename_i hc
      exact hle 'f' (by decide) hc.2
    · split at h
      · rename_i hc
        exact hle 'F' (by decide) hc.2
      · cases h

/-- What can be decoded consists of digits. -/
theorem exists_digit_of_decode {text : List Char} {bytes : List UInt8}
    (h : decode text = some bytes) : ∀ c ∈ text, ∃ d, digit c = some d := by
  induction text using decode.induct generalizing bytes with
  | case1 => simp
  | case2 c => cases h
  | case3 high low text ih =>
    simp only [decode, Option.bind_eq_bind, Option.bind_eq_some_iff] at h
    obtain ⟨d, hd, d', hd', bytes', hbytes, -⟩ := h
    intro c hc
    rcases List.mem_cons.mp hc with rfl | hc
    · exact ⟨d, hd⟩
    · rcases List.mem_cons.mp hc with rfl | hc
      · exact ⟨d', hd'⟩
      · exact ih hbytes c hc

end Hex
