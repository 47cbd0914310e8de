/-!
# Small indices

Types of indices that are not empty, and the first places of short arrays. Each of
these facts is proved once here and used by its name.
-/

namespace Yarr

/-! ## Sizes -/

instance (priority := 2000) neZero_two : @NeZero Nat Zero.ofOfNat0 2 := ⟨by decide⟩
instance (priority := 2000) neZero_four : @NeZero Nat Zero.ofOfNat0 4 := ⟨by decide⟩
instance (priority := 2000) neZero_sixteen : @NeZero Nat Zero.ofOfNat0 16 := ⟨by decide⟩
instance (priority := 2000) neZero_thirtyTwo : @NeZero Nat Zero.ofOfNat0 32 := ⟨by decide⟩

/-! ## Places -/

namespace Index

theorem nodup_zero : ([0] : List UInt32).Nodup := by decide

theorem zero_le_one : (0 : Int32) ≤ 1 := by decide
theorem zero_lt_one : (0 : UInt32) < 1 := by decide

theorem first_of_two : 0 < 2 := by decide
theorem second_of_two : 1 < 2 := by decide
theorem first_of_three : 0 < 3 := by decide
theorem second_of_three : 1 < 3 := by decide
theorem third_of_three : 2 < 3 := by decide
theorem first_of_four : 0 < 4 := by decide
theorem second_of_four : 1 < 4 := by decide
theorem third_of_four : 2 < 4 := by decide
theorem fourth_of_four : 3 < 4 := by decide

end Index

end Yarr
