import Mathlib.Algebra.Ring.Int.Defs
import Mathlib.Algebra.Ring.Nat
import Mathlib.Data.Int.Basic

namespace Aesd.Library

theorem bmod_of_fits {value : Int} (low : -2 ^ 31 ≤ value) (high : value < 2 ^ 31) :
    value.bmod (2 ^ 32) = value := by
  apply Int.bmod_eq_of_le <;> omega

theorem toInt_sub_of_fits {first second : Int32} (low : -2 ^ 31 ≤ first.toInt - second.toInt)
    (high : first.toInt - second.toInt < 2 ^ 31) :
    (first - second).toInt = first.toInt - second.toInt := by
  rw [Int32.toInt_sub, bmod_of_fits low high]

theorem toInt_add_ofNat_of_fits {position : Int64} {amount : Nat} (small : amount < 2 ^ 63)
    (fits : position.toInt + amount < 2 ^ 63) :
    (position + Int64.ofNat amount).toInt = position.toInt + amount := by
  have exact : (Int64.ofNat amount).toInt = amount := Int64.toInt_ofNat_of_lt small
  have low := position.le_toInt
  rw [Int64.toInt_add, exact]
  exact Int.bmod_eq_of_le (by omega) (by omega)

theorem toInt_add_ofNat_eq_iff {position : Int64} {amount : Nat} (small : amount < 2 ^ 63) :
    (position + Int64.ofNat amount).toInt = position.toInt + amount ↔
      position.toInt + amount < 2 ^ 63 := by
  constructor
  · intro exact
    have high := (position + Int64.ofNat amount).toInt_lt
    omega
  · exact toInt_add_ofNat_of_fits small

/-- A sum with a first part that is not negative wraps only to negative values. -/
theorem toInt_add_of_nonneg {first second : Int64} (nonneg : 0 ≤ first.toInt)
    (sum : 0 ≤ (first + second).toInt) :
    (first + second).toInt = first.toInt + second.toInt := by
  have high := first.toInt_lt
  have least := second.le_toInt
  have most := second.toInt_lt
  rw [Int64.toInt_add] at sum ⊢
  by_cases fits : first.toInt + second.toInt < 2 ^ 63
  · exact Int.bmod_eq_of_le (by omega) (by omega)
  · rw [← Int.sub_bmod_right, Int.bmod_eq_of_le (by omega) (by omega)] at sum
    omega

end Aesd.Library
