import OatppSqlite.Mapping.Deserializer

/-!
# Whole numbers, written and read

Nine wrappers hold whole numbers, a `Boolean` counting as 0 or 1. They are written through two
bind calls, one of 32 bits and one of 64, both signed, and all read through one 64-bit value
that is cut to the wrapper's width. What makes every pair of them fit is that the cell is the
number itself modulo 2 to the 64 (`cell_bindInt_eq`): the upper half of the unsigned 64-bit
numbers is stored as negative ones, and comes back where it is read unsigned.
-/

set_option autoImplicit false

namespace OatppSqlite.Mapping

variable {τ : Type}

/-! ## The numbers of a wrapper -/

def IntKind.signed : IntKind → Bool
  | .int8 | .int16 | .int32 | .int64 => true
  | .uint8 | .uint16 | .uint32 | .uint64 => false

/-- The number that an integer wrapper holds. -/
def IntKind.value (k : IntKind) (v : BitVec k.width) : Int :=
  if k.signed then v.toInt else v.toNat

/-- A wrapper holds its number, cut to its width. -/
theorem IntKind.ofInt_value (k : IntKind) (v : BitVec k.width) :
    BitVec.ofInt k.width (k.value v) = v := by
  unfold IntKind.value
  split
  · exact BitVec.ofInt_toInt
  · rw [BitVec.ofInt_natCast, BitVec.ofNat_toNat, BitVec.setWidth_eq]

/-- Cutting a number twice is cutting it once. -/
theorem setWidth_ofInt {m n : Nat} (i : Int) (h : m ≤ n) :
    (BitVec.ofInt n i).setWidth m = BitVec.ofInt m i := by
  rw [← BitVec.signExtend_eq_setWidth_of_le _ h]
  apply BitVec.eq_of_toInt_eq
  rw [BitVec.toInt_signExtend, BitVec.toInt_ofInt, BitVec.toInt_ofInt, Nat.min_eq_left h]
  exact Int.bmod_bmod_of_dvd (by exact_mod_cast Nat.pow_dvd_pow 2 h)

/-! ## The cell of an integer -/

/-- The bind call of an integer: 32 bits are enough for the smaller ones. -/
def bindInt : (k : IntKind) → BitVec k.width → Bind
  | .int8, v => .int (v.signExtend 32)
  | .uint8, v => .int (v.zeroExtend 32)
  | .int16, v => .int (v.signExtend 32)
  | .uint16, v => .int (v.zeroExtend 32)
  | .int32, v => .int v
  | .uint32, v => .int64 (v.zeroExtend 64)
  | .int64, v => .int64 v
  | .uint64, v => .int64 v

theorem signExtend_twice {m : Nat} (v : BitVec m) (h : m ≤ 32) :
    (v.signExtend 32).signExtend 64 = BitVec.ofInt 64 v.toInt :=
  congrArg (BitVec.ofInt 64) (BitVec.toInt_signExtend_of_le h)

theorem signExtend_zeroExtend {m : Nat} (v : BitVec m) (h : m < 32) :
    (v.zeroExtend 32).signExtend 64 = BitVec.ofInt 64 v.toNat := by
  have hlt : 2 ^ m ≤ 2 ^ 31 := Nat.pow_le_pow_right (by decide) (by omega)
  have hv := v.isLt
  have hnat : (v.zeroExtend 32).toNat = v.toNat := by
    rw [BitVec.toNat_setWidth]
    exact Nat.mod_eq_of_lt (by omega)
  have hint : (v.zeroExtend 32).toInt = v.toNat := by
    rw [BitVec.toInt_eq_toNat_of_lt (by rw [hnat]; omega), hnat]
  exact congrArg (BitVec.ofInt 64) hint

/-- **The cell holds the number**, modulo 2 to the 64. -/
theorem cell_bindInt_eq (k : IntKind) (v : BitVec k.width) :
    (bindInt k v).cell = .integer (BitVec.ofInt 64 (k.value v)) := by
  cases k with
  | int8 => exact congrArg Cell.integer (signExtend_twice v (by decide))
  | uint8 => exact congrArg Cell.integer (signExtend_zeroExtend v (by decide))
  | int16 => exact congrArg Cell.integer (signExtend_twice v (by decide))
  | uint16 => exact congrArg Cell.integer (signExtend_zeroExtend v (by decide))
  | int32 => rfl
  | uint32 =>
    refine congrArg Cell.integer ?_
    show v.setWidth 64 = BitVec.ofInt 64 v.toNat
    rw [BitVec.ofInt_natCast, BitVec.ofNat_toNat]
  | int64 => exact congrArg Cell.integer (IntKind.ofInt_value .int64 v).symm
  | uint64 => exact congrArg Cell.integer (IntKind.ofInt_value .uint64 v).symm

/-- **Every integer is stored whole**: cut to its width, the cell is the value again. -/
theorem cell_bindInt (k : IntKind) (v : BitVec k.width) :
    ∃ w, (bindInt k v).cell = .integer w ∧ w.setWidth k.width = v := by
  have hwidth : k.width ≤ 64 := by cases k <;> decide
  refine ⟨_, cell_bindInt_eq k v, ?_⟩
  rw [setWidth_ofInt _ hwidth, IntKind.ofInt_value]

end OatppSqlite.Mapping
