import DlnTaker.Library.BigEndian

/-! # Numbers of 256 bits

`U256` of the order feed: four limbs of eight bytes each, read from and written
to big-endian buffers.
-/

namespace DlnTaker

inductive Encoding
  | le | be
  deriving DecidableEq, Repr

/-- One turn of the loop below; a byte that is missing is `undefined`, which is no big integer. -/
def addByte (data : List UInt8) : ℕ × ℕ → ℕ → Except String (ℕ × ℕ)
  | (result, counter), i =>
    match data[i]? with
    | none => .error "TypeError: Cannot convert undefined to a BigInt"
    | some byte => .ok (result + byte.toNat <<< (8 * counter), counter + 1)

def BytesToU64 (data : List UInt8) (encoding : Encoding) : Except String ℕ := do
  let leOrder := [0, 1, 2, 3, 4, 5, 6, 7]
  let order := match encoding with
    | .be => leOrder.reverse
    | .le => leOrder
  let (result, _) ← order.foldlM (addByte data) (0, 0)
  return result

structure U256Limbs where
  limb1 : ℕ
  limb2 : ℕ
  limb3 : ℕ
  limb4 : ℕ
  deriving DecidableEq, Repr

structure U256 where
  value : U256Limbs
  deriving DecidableEq, Repr

namespace U256

def toBytesBE (u : U256) : Except String (List UInt8) :=
  let shifts := (List.range 8).map fun i => 56 - 8 * i
  (List.range 32).mapM fun i =>
    let byte (limb : ℕ) := UInt8.ofNat ((limb >>> shifts.getD (i % 8) 0) &&& 0xff)
    match i / 8 with
    | 0 => .ok (byte u.value.limb4)
    | 1 => .ok (byte u.value.limb3)
    | 2 => .ok (byte u.value.limb2)
    | 3 => .ok (byte u.value.limb1)
    | _ => .error "Error: Unreachable"

def toBigInt (u : U256) : ℕ :=
  u.value.limb1 + u.value.limb2 <<< (8 * 8 * 1) + u.value.limb3 <<< (8 * 8 * 2) +
    u.value.limb4 <<< (8 * 8 * 3)

/-- `data.subarray(8 * i, 8 * i + 8)`. -/
def subarray (data : List UInt8) (i : ℕ) : List UInt8 := (data.drop (8 * i)).take 8

def fromBytesBE (data : List UInt8) : Except String U256 := do
  let limb4 ← BytesToU64 (subarray data 0) .be
  let limb3 ← BytesToU64 (subarray data 1) .be
  let limb2 ← BytesToU64 (subarray data 2) .be
  let limb1 ← BytesToU64 (subarray data 3) .be
  return ⟨{ limb1, limb2, limb3, limb4 }⟩

def fromBigInt (n : ℕ) : U256 :=
  let u64Mask := 0xffffffffffffffff
  let u64Shift := 8
  let limb1 := n &&& u64Mask
  let limb2 := (n >>> (u64Shift * 1)) &&& u64Mask
  let limb3 := (n >>> (u64Shift * 2)) &&& u64Mask
  let limb4 := (n >>> (u64Shift * 3)) &&& u64Mask
  ⟨{ limb1, limb2, limb3, limb4 }⟩

end U256

open BigEndian

variable {data : List UInt8} {u : U256}

theorem addByte_some {result counter i : ℕ} {byte : UInt8} (h : data[i]? = some byte) :
    addByte data (result, counter) i =
      .ok (result + byte.toNat <<< (8 * counter), counter + 1) := by
  simp only [addByte, h]

theorem addByte_none {result counter i : ℕ} (h : data[i]? = none) :
    addByte data (result, counter) i =
      .error "TypeError: Cannot convert undefined to a BigInt" := by
  simp only [addByte, h]

/-- After `k` turns the loop has read the last `k` bytes of eight. -/
theorem addByte_foldlM (h : data.length = 8) {k : ℕ} (hk : k ≤ 8) :
    ((List.range k).map (7 - ·)).foldlM (addByte data) (0, 0) =
      .ok (bigEndian (data.drop (8 - k)), k) := by
  induction k with
  | zero =>
    rw [Nat.sub_zero, ← h, List.drop_length]
    rfl
  | succ k ih =>
    have hi : 7 - k < data.length := by omega
    have hdrop : data.drop (8 - (k + 1)) = data[7 - k] :: data.drop (8 - k) := by
      rw [show 8 - (k + 1) = 7 - k by omega, List.drop_eq_getElem_cons hi,
        show 7 - k + 1 = 8 - k by omega]
    have hlength : (data.drop (8 - k)).length = k := by
      rw [List.length_drop]
      omega
    have hpow : 2 ^ (8 * k) = 256 ^ k := by
      rw [pow_mul]
      norm_num
    rw [List.range_succ, List.map_append, List.foldlM_append, ih (by omega), hdrop,
      bigEndian_cons, hlength]
    change (addByte data (bigEndian (data.drop (8 - k)), k) (7 - k) >>= fun r => .ok r) = _
    rw [addByte_some (List.getElem?_eq_getElem hi), Nat.shiftLeft_eq, hpow, add_comm]
    rfl

theorem BytesToU64_eq (h : data.length = 8) : BytesToU64 data .be = .ok (bigEndian data) := by
  have horder : [0, 1, 2, 3, 4, 5, 6, 7].reverse = (List.range 8).map (7 - ·) := rfl
  simp only [BytesToU64]
  rw [horder, addByte_foldlM h le_rfl]
  rfl

/-- The first byte that is read is the last one of the eight. -/
theorem BytesToU64_error (h : data.length < 8) :
    BytesToU64 data .be = .error "TypeError: Cannot convert undefined to a BigInt" := by
  have hnone : data[7]? = none := List.getElem?_eq_none (by omega)
  simp only [BytesToU64]
  change (addByte data (0, 0) 7 >>= _) >>= _ = _
  rw [addByte_none hnone]
  rfl

namespace U256

theorem length_subarray {i : ℕ} (h : 8 * i + 8 ≤ data.length) :
    (subarray data i).length = 8 := by
  unfold subarray
  rw [List.length_take, List.length_drop]
  omega

theorem length_subarray_le (data : List UInt8) (i : ℕ) : (subarray data i).length ≤ 8 := by
  unfold subarray
  rw [List.length_take]
  omega

theorem fromBytesBE_eq (h : 32 ≤ data.length) : fromBytesBE data =
    .ok ⟨⟨bigEndian (subarray data 3), bigEndian (subarray data 2), bigEndian (subarray data 1),
      bigEndian (subarray data 0)⟩⟩ := by
  unfold fromBytesBE
  rw [BytesToU64_eq (length_subarray (by omega)), BytesToU64_eq (length_subarray (by omega)),
    BytesToU64_eq (length_subarray (by omega)), BytesToU64_eq (length_subarray (by omega))]
  rfl

/-- A buffer of less than 32 bytes is not decoded. -/
theorem fromBytesBE_error (h : data.length < 32) :
    fromBytesBE data = .error "TypeError: Cannot convert undefined to a BigInt" := by
  have hlimb : ∀ i, (∃ limb, BytesToU64 (subarray data i) .be = .ok limb) ∨
      BytesToU64 (subarray data i) .be =
        .error "TypeError: Cannot convert undefined to a BigInt" := by
    intro i
    rcases lt_or_eq_of_le (length_subarray_le data i) with hlt | heq
    · exact .inr (BytesToU64_error hlt)
    · exact .inl ⟨_, BytesToU64_eq heq⟩
  have hlast : (subarray data 3).length < 8 := by
    unfold subarray
    rw [List.length_take, List.length_drop]
    omega
  unfold fromBytesBE
  rcases hlimb 0 with ⟨limb4, h4⟩ | h4
  · rcases hlimb 1 with ⟨limb3, h3⟩ | h3
    · rcases hlimb 2 with ⟨limb2, h2⟩ | h2
      · rw [h4, h3, h2, BytesToU64_error hlast]
        rfl
      · rw [h4, h3, h2]
        rfl
    · rw [h4, h3]
      rfl
  · rw [h4]
    rfl

theorem fromBytesBE_isOk : (∃ u, fromBytesBE data = .ok u) ↔ 32 ≤ data.length := by
  constructor
  · rintro ⟨u, hu⟩
    by_contra hlt
    rw [fromBytesBE_error (not_le.mp hlt)] at hu
    cases hu
  · exact fun h => ⟨_, fromBytesBE_eq h⟩

/-- The eight bytes of a limb. -/
def bytesOf (limb : ℕ) : List UInt8 :=
  (List.range 8).map fun i => UInt8.ofNat ((limb >>> (56 - 8 * i)) &&& 0xff)

theorem toBytesBE_eq : u.toBytesBE = .ok (bytesOf u.value.limb4 ++ bytesOf u.value.limb3 ++
    bytesOf u.value.limb2 ++ bytesOf u.value.limb1) := rfl

theorem bytesOf_bigEndian (h : data.length = 8) : bytesOf (bigEndian data) = data := by
  apply List.ext_getElem
  · rw [bytesOf, List.length_map, List.length_range, h]
  · intro i _ hi
    have hsplit : data.take i ++ data[i] :: data.drop (i + 1) = data := by
      rw [List.getElem_cons_drop, List.take_append_drop]
    have hlength : (data.drop (i + 1)).length = 7 - i := by
      rw [List.length_drop]
      omega
    have hbyte : (bigEndian (data.take i ++ data[i] :: data.drop (i + 1)) >>>
        (8 * (data.drop (i + 1)).length)) &&& 0xff = data[i].toNat := byte_of_shift
    rw [hsplit, hlength] at hbyte
    have hshift : 56 - 8 * i = 8 * (7 - i) := by omega
    simp only [bytesOf, List.getElem_map, List.getElem_range]
    rw [hshift, hbyte, UInt8.ofNat_toNat]

theorem subarray_append {i : ℕ} :
    subarray data i ++ data.drop (8 * (i + 1)) = data.drop (8 * i) := by
  rw [subarray, mul_add, mul_one, ← List.drop_drop, List.take_append_drop]

/-- A buffer of 32 bytes is its four parts. -/
theorem subarrays_eq (h : data.length = 32) :
    subarray data 0 ++ (subarray data 1 ++ (subarray data 2 ++ subarray data 3)) = data := by
  have hlast : data.drop (8 * (3 + 1)) = [] := List.drop_eq_nil_of_le (by omega)
  rw [← List.append_nil (subarray data 3), ← hlast, subarray_append, subarray_append,
    subarray_append, subarray_append, mul_zero, List.drop_zero]

theorem shiftLeft_limbs {limb n : ℕ} : limb <<< (8 * 8 * n) = limb * 256 ^ (8 * n) := by
  rw [Nat.shiftLeft_eq, mul_assoc, pow_mul 2 8]
  norm_num

theorem toBigInt_eq : u.toBigInt = u.value.limb1 + u.value.limb2 * 256 ^ (8 * 1) +
    u.value.limb3 * 256 ^ (8 * 2) + u.value.limb4 * 256 ^ (8 * 3) := by
  unfold toBigInt
  rw [shiftLeft_limbs, shiftLeft_limbs, shiftLeft_limbs]

/-- Decoding reads the big-endian value, and encoding writes the same bytes again. -/
theorem fromBytesBE_exact (h : data.length = 32) : ∃ u, fromBytesBE data = .ok u ∧
    u.toBigInt = bigEndian data ∧ u.toBytesBE = .ok data := by
  have h₀ : (subarray data 0).length = 8 := length_subarray (by omega)
  have h₁ : (subarray data 1).length = 8 := length_subarray (by omega)
  have h₂ : (subarray data 2).length = 8 := length_subarray (by omega)
  have h₃ : (subarray data 3).length = 8 := length_subarray (by omega)
  refine ⟨_, fromBytesBE_eq h.ge, ?_, ?_⟩
  · have hvalue := congrArg bigEndian (subarrays_eq h)
    rw [bigEndian_append, bigEndian_append, bigEndian_append, List.length_append,
      List.length_append, h₁, h₂, h₃] at hvalue
    rw [toBigInt_eq, ← hvalue]
    ring
  · rw [toBytesBE_eq, bytesOf_bigEndian h₀, bytesOf_bigEndian h₁, bytesOf_bigEndian h₂,
      bytesOf_bigEndian h₃, List.append_assoc, List.append_assoc, subarrays_eq h]

end U256

end DlnTaker
