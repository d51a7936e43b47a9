import Mathlib.Data.Nat.Bitwise
import DlnTaker.Feed.U256

/-! # Numbers split into limbs

Joining the limbs shifts by 64 bits for each, splitting a number by eight only:
the limbs overlap. The bytes of the limbs are right, and the number comes back
where the bits that are lost are a repetition of those that are kept.
-/

namespace DlnTaker

open BigEndian

namespace U256

variable {n : ℕ} {u : U256} {front middle back : List UInt8}

/-! ### The bytes of limbs -/

/-- The limbs have eight bytes each. -/
structure Fits (u : U256) : Prop where
  limb1 : u.value.limb1 < 2 ^ 64
  limb2 : u.value.limb2 < 2 ^ 64
  limb3 : u.value.limb3 < 2 ^ 64
  limb4 : u.value.limb4 < 2 ^ 64

theorem fits_fromBigInt : (fromBigInt n).Fits where
  limb1 := Nat.and_lt_two_pow _ (by norm_num)
  limb2 := Nat.and_lt_two_pow _ (by norm_num)
  limb3 := Nat.and_lt_two_pow _ (by norm_num)
  limb4 := Nat.and_lt_two_pow _ (by norm_num)

theorem subarray_middle {i : ℕ} (hf : front.length = 8 * i) (hm : middle.length = 8) :
    subarray (front ++ (middle ++ back)) i = middle := by
  rw [subarray, ← hf, List.drop_left, ← hm, List.take_left]

theorem subarray_last {i : ℕ} (hf : front.length = 8 * i) (hm : middle.length = 8) :
    subarray (front ++ middle) i = middle := by
  have hnil : subarray (front ++ (middle ++ [])) i = middle := subarray_middle hf hm
  rwa [List.append_nil] at hnil

/-- The byte codec loses nothing of limbs that fit. -/
theorem fromBytesBE_toBytesBE (h : u.Fits) :
    ∃ bytes, u.toBytesBE = .ok bytes ∧ fromBytesBE bytes = .ok u := by
  have hpow : 2 ^ 64 = 256 ^ 8 := by norm_num
  obtain ⟨data₁, hl₁, hd₁⟩ := exists_bigEndian (hpow ▸ h.limb1)
  obtain ⟨data₂, hl₂, hd₂⟩ := exists_bigEndian (hpow ▸ h.limb2)
  obtain ⟨data₃, hl₃, hd₃⟩ := exists_bigEndian (hpow ▸ h.limb3)
  obtain ⟨data₄, hl₄, hd₄⟩ := exists_bigEndian (hpow ▸ h.limb4)
  refine ⟨data₄ ++ (data₃ ++ (data₂ ++ data₁)), ?_, ?_⟩
  · rw [toBytesBE_eq, ← hd₁, ← hd₂, ← hd₃, ← hd₄, bytesOf_bigEndian hl₁, bytesOf_bigEndian hl₂,
      bytesOf_bigEndian hl₃, bytesOf_bigEndian hl₄, List.append_assoc, List.append_assoc]
  · have hlength : (data₄ ++ (data₃ ++ (data₂ ++ data₁))).length = 32 := by
      simp only [List.length_append, hl₁, hl₂, hl₃, hl₄]
    have h₀ : subarray (data₄ ++ (data₃ ++ (data₂ ++ data₁))) 0 = data₄ :=
      @subarray_middle [] _ _ 0 rfl hl₄
    have h₁ : subarray (data₄ ++ (data₃ ++ (data₂ ++ data₁))) 1 = data₃ :=
      subarray_middle hl₄ hl₃
    have h₂ : subarray (data₄ ++ (data₃ ++ (data₂ ++ data₁))) 2 = data₂ := by
      rw [← List.append_assoc]
      exact subarray_middle (by rw [List.length_append, hl₄, hl₃]) hl₂
    have h₃ : subarray (data₄ ++ (data₃ ++ (data₂ ++ data₁))) 3 = data₁ := by
      rw [← List.append_assoc, ← List.append_assoc]
      exact subarray_last (by rw [List.length_append, List.length_append, hl₄, hl₃, hl₂]) hl₁
    rw [fromBytesBE_eq hlength.ge, h₀, h₁, h₂, h₃, hd₁, hd₂, hd₃, hd₄]

/-! ### The limbs of a number -/

/-- The parts of two shifted numbers below a power of two agree bit by bit. -/
theorem shiftRight_mod_eq_iff {a d w : ℕ} (h : d ≤ a) :
    (n >>> a) % 2 ^ w = (n >>> (a - d)) % 2 ^ w ↔
      ∀ i, a ≤ i → i < a + w → n.testBit i = n.testBit (i - d) := by
  constructor
  · intro heq i hi hw
    have hbit := congrArg (Nat.testBit · (i - a)) heq
    have hlow : a - d + (i - a) = i - d := by omega
    simpa [hlow, Nat.add_sub_cancel' hi, show i - a < w by omega] using hbit
  · intro hbits
    apply Nat.eq_of_testBit_eq
    intro i
    by_cases hi : i < w
    · have hlow : a + i - d = a - d + i := by omega
      simpa [hi, hlow] using hbits (a + i) (by omega) (by omega)
    · simp [hi]

/-- Three limbs taken eight bits apart in place of 64 agree with the right ones where all the bits
above the first limb are a repetition. -/
theorem limbs_repeat_iff {α : Type*} {f : ℕ → α} :
    ((∀ i, 64 ≤ i → i < 64 + 64 → f i = f (i - 56)) ∧
      (∀ i, 128 ≤ i → i < 128 + 64 → f i = f (i - 112)) ∧
      ∀ i, 192 ≤ i → i < 192 + 64 → f i = f (i - 168)) ↔
        ∀ i, 64 ≤ i → i < 64 + 192 → f i = f (i - 56) := by
  constructor
  · rintro ⟨h₂, h₃, h₄⟩ i hi hlt
    rcases lt_or_ge i 128 with h | h
    · exact h₂ i hi h
    · rcases lt_or_ge i 192 with h' | h'
      · -- the source bit is of the second limb, or of the third like the bit itself
        rcases lt_or_ge i 184 with hs | hs
        · rw [h₃ i h h', h₂ (i - 56) (by omega) (by omega), Nat.sub_sub]
        · rw [h₃ i h h', h₃ (i - 56) (by omega) (by omega), h₂ (i - 112) (by omega) (by omega),
            Nat.sub_sub, Nat.sub_sub]
      · rcases lt_or_ge i 248 with hs | hs
        · rw [h₄ i h' hlt, h₃ (i - 56) (by omega) (by omega), Nat.sub_sub]
        · rw [h₄ i h' hlt, h₄ (i - 56) (by omega) (by omega), h₂ (i - 168) (by omega) (by omega),
            Nat.sub_sub, Nat.sub_sub]
  · intro h
    refine ⟨fun i hi hlt => h i hi (by omega), fun i hi hlt => ?_, fun i hi hlt => ?_⟩
    · calc f i = f (i - 56) := h i (by omega) (by omega)
        _ = f (i - 56 - 56) := h (i - 56) (by omega) (by omega)
        _ = f (i - 112) := by rw [Nat.sub_sub]
    · calc f i = f (i - 56) := h i (by omega) (by omega)
        _ = f (i - 56 - 56) := h (i - 56) (by omega) (by omega)
        _ = f (i - 56 - 56 - 56) := h (i - 56 - 56) (by omega) (by omega)
        _ = f (i - 168) := by rw [Nat.sub_sub, Nat.sub_sub]

/-- The limbs of a number are its digits in base 2 ^ 64. -/
theorem toBigInt_eq_iff (h : u.Fits) (hn : n < 2 ^ 256) : u.toBigInt = n ↔
    u.value.limb1 = n % 2 ^ 64 ∧ u.value.limb2 = (n >>> 64) % 2 ^ 64 ∧
      u.value.limb3 = (n >>> 128) % 2 ^ 64 ∧ u.value.limb4 = (n >>> 192) % 2 ^ 64 := by
  obtain ⟨h₁, h₂, h₃, h₄⟩ := h
  unfold toBigInt
  simp only [Nat.shiftLeft_eq, Nat.shiftRight_eq_div_pow]
  norm_num at *
  omega

theorem mask_eq_mod {m : ℕ} : m &&& 0xffffffffffffffff = m % 2 ^ 64 :=
  Nat.and_two_pow_sub_one_eq_mod m 64

theorem toBigInt_fromBigInt_iff (hn : n < 2 ^ 256) :
    (fromBigInt n).toBigInt = n ↔ n >>> 64 = (n >>> 8) % 2 ^ 192 := by
  have h₂ : (n >>> 64) % 2 ^ 64 = (n >>> 8) % 2 ^ 64 ↔ _ :=
    shiftRight_mod_eq_iff (by norm_num : 56 ≤ 64)
  have h₃ : (n >>> 128) % 2 ^ 64 = (n >>> 16) % 2 ^ 64 ↔ _ :=
    shiftRight_mod_eq_iff (by norm_num : 112 ≤ 128)
  have h₄ : (n >>> 192) % 2 ^ 64 = (n >>> 24) % 2 ^ 64 ↔ _ :=
    shiftRight_mod_eq_iff (by norm_num : 168 ≤ 192)
  have hall : (n >>> 64) % 2 ^ 192 = (n >>> 8) % 2 ^ 192 ↔ _ :=
    shiftRight_mod_eq_iff (by norm_num : 56 ≤ 64)
  have hhigh : n >>> 64 < 2 ^ 192 := by
    rw [Nat.shiftRight_eq_div_pow]
    exact Nat.div_lt_of_lt_mul hn
  rw [Nat.mod_eq_of_lt hhigh] at hall
  rw [toBigInt_eq_iff fits_fromBigInt hn, hall, ← limbs_repeat_iff, ← h₂, ← h₃, ← h₄]
  simp only [fromBigInt, mask_eq_mod, true_and]
  refine and_congr eq_comm (and_congr eq_comm eq_comm)

/-- A number comes back, and its bytes are read as the same limbs, if and only if all that is above
the first limb repeats what is 56 bits below. -/
theorem fromBigInt_inverse_iff (hn : n < 2 ^ 256) :
    ((fromBigInt n).toBigInt = n ∧
      ∃ bytes, (fromBigInt n).toBytesBE = .ok bytes ∧ fromBytesBE bytes = .ok (fromBigInt n)) ↔
        n >>> 64 = (n >>> 8) % 2 ^ 192 := by
  rw [and_iff_left (fromBytesBE_toBytesBE fits_fromBigInt)]
  exact toBigInt_fromBigInt_iff hn

theorem fromBigInt_inverse_iff_byte :
    ((fromBigInt 255).toBigInt = 255 ∧ ∃ bytes, (fromBigInt 255).toBytesBE = .ok bytes ∧
      fromBytesBE bytes = .ok (fromBigInt 255)) ↔ 255 >>> 64 = (255 >>> 8) % 2 ^ 192 :=
  fromBigInt_inverse_iff (by norm_num)

/-- The second byte of a number gets into two limbs. -/
theorem not_fromBigInt_inverse : ¬ ∀ n < 2 ^ 256, (fromBigInt n).toBigInt = n ∧
    ∃ bytes, (fromBigInt n).toBytesBE = .ok bytes ∧ fromBytesBE bytes = .ok (fromBigInt n) := by
  intro h
  have hvalue : (fromBigInt 256).toBigInt = 256 := (h 256 (by norm_num)).1
  revert hvalue
  decide

end U256

end DlnTaker
