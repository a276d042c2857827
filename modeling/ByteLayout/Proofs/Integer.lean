import ByteLayout.Scalar.Integer

/-!
# Integers and their bytes

**Theorem (`IntKind.decode_encode`).** An integer that its kind holds is read back from its bytes,
in either byte order. **Theorem (`IntKind.encode_decode`).** All bytes of the width of a kind are
those of an integer that the kind holds.

The bytes hold the remainder modulo the size of the kind, and a kind holds one integer for each
remainder: those above its greatest value stand for the negative ones.
-/

namespace ByteLayout

namespace IntKind

theorem size_pos (kind : IntKind) : 0 < kind.size := by
  cases kind <;> decide

theorem width_le (kind : IntKind) : kind.width ≤ 8 := by
  cases kind <;> decide

/-- The values of a kind begin at zero or below it, and zero is one of them. -/
theorem min_bounds (kind : IntKind) : -(kind.size : Int) ≤ kind.min ∧ kind.min ≤ 0 := by
  cases kind <;> decide

theorem max_bounds (kind : IntKind) : 0 ≤ kind.max ∧ kind.max < kind.size := by
  cases kind <;> decide

theorem ofRemainder_emod {kind : IntKind} {n : Int} (h : kind.Holds n) :
    kind.ofRemainder (n % kind.size).toNat = n := by
  obtain ⟨hmin, hmax⟩ := h
  obtain ⟨hlow, -⟩ := kind.min_bounds
  obtain ⟨-, hhigh⟩ := kind.max_bounds
  have hpos : (0 : Int) < kind.size := Int.natCast_pos.mpr kind.size_pos
  unfold ofRemainder
  by_cases hn : 0 ≤ n
  · have hmod : n % kind.size = n := Int.emod_eq_of_lt hn (by omega)
    rw [hmod, Int.toNat_of_nonneg hn, if_neg (Int.not_lt.mpr hmax)]
  · have hmod : n % kind.size = n + kind.size := by
      rw [← Int.add_emod_right]
      exact Int.emod_eq_of_lt (by omega) (by omega)
    have hnonneg : 0 ≤ n + kind.size := by omega
    have hless : kind.max < n + kind.size := by
      unfold max
      omega
    rw [hmod, Int.toNat_of_nonneg hnonneg, if_pos hless, Int.add_sub_cancel]

/-- **An integer is read back from its bytes.** -/
theorem decode_encode {kind : IntKind} {n : Int} (order : ByteOrder) (h : kind.Holds n) :
    kind.decode order (kind.encode order n) = n := by
  have hpos : (0 : Int) < kind.size := Int.natCast_pos.mpr kind.size_pos
  have hless : (n % kind.size).toNat < Nat.pow 256 kind.width :=
    (Int.toNat_lt (Int.emod_nonneg n (Int.ne_of_gt hpos))).mpr (Int.emod_lt_of_pos n hpos)
  unfold decode encode
  rw [ByteOrder.number_bytes order kind.width _ hless, ofRemainder_emod h]

/-- A remainder stands for an integer of the kind. -/
theorem holds_ofRemainder {kind : IntKind} {remainder : Nat} (h : remainder < kind.size) :
    kind.Holds (kind.ofRemainder remainder) ∧
      kind.ofRemainder remainder % kind.size = remainder := by
  obtain ⟨-, hlow⟩ := kind.min_bounds
  obtain ⟨hzero, -⟩ := kind.max_bounds
  have hmax : kind.max = kind.min + kind.size - 1 := rfl
  have hmod : (remainder : Int) % kind.size = remainder :=
    Int.emod_eq_of_lt (Int.natCast_nonneg remainder) (Int.ofNat_lt.mpr h)
  unfold ofRemainder Holds
  by_cases hgreat : kind.max < remainder
  · rw [if_pos hgreat, ← Int.add_emod_right, Int.sub_add_cancel]
    exact ⟨by omega, hmod⟩
  · rw [if_neg hgreat]
    exact ⟨by omega, hmod⟩

/-- **Bytes of the width of a kind hold an integer of the kind**, and are its bytes. -/
theorem encode_decode {kind : IntKind} (order : ByteOrder) {bytes : List UInt8}
    (h : bytes.length = kind.width) :
    kind.Holds (kind.decode order bytes) ∧ kind.encode order (kind.decode order bytes) = bytes := by
  have hless : order.number bytes < kind.size := by
    have hlt := order.number_lt bytes
    rwa [h] at hlt
  obtain ⟨hholds, hmod⟩ := holds_ofRemainder hless
  refine ⟨hholds, ?_⟩
  unfold encode decode
  rw [hmod, Int.toNat_natCast, ← h, ByteOrder.bytes_number]

/-- A checked value is an integer that the kind holds. -/
theorem holds_of_check {kind : IntKind} {value : Value} {n : Int} (h : kind.check value = .ok n) :
    value.toInteger = .ok n ∧ kind.Holds n := by
  unfold check at h
  split at h
  · cases h
  · next m hm =>
    split at h
    · next hholds =>
      cases h
      exact ⟨hm, hholds⟩
    · cases h

theorem check_int {kind : IntKind} {n : Int} (h : kind.Holds n) : kind.check (.int n) = .ok n :=
  if_pos h

end IntKind

end ByteLayout
