import Mathlib.Algebra.GroupWithZero.Nat
import Mathlib.Data.List.Basic

/-!
# Digests in hexadecimal

`hexdigest()` writes the 32 bytes of a digest as 64 hexadecimal digits, the leading zeros among
them. So digests can be told from what is written (`hexdigest_injective`), and nothing but digits
is written (`exists_digit_of_mem_hexdigest`).
-/

namespace ArchonSearch.Py

/-- `hexdigest()` of 32 bytes, which are read as one number. -/
def hexdigest (d : BitVec 256) : String :=
  String.ofList ((List.range 64).map fun i => Nat.digitChar (d.toNat / 16 ^ (63 - i) % 16))

theorem toList_hexdigest (d : BitVec 256) : (hexdigest d).toList =
    (List.range 64).map fun i => Nat.digitChar (d.toNat / 16 ^ (63 - i) % 16) :=
  String.toList_ofList

theorem exists_digit_of_mem_hexdigest {d : BitVec 256} {c : Char} (h : c ∈ (hexdigest d).toList) :
    ∃ n : Fin 16, Nat.digitChar n = c := by
  rw [toList_hexdigest] at h
  obtain ⟨i, -, rfl⟩ := List.mem_map.mp h
  exact ⟨⟨_, Nat.mod_lt (d.toNat / 16 ^ (63 - i)) (by decide)⟩, rfl⟩

theorem eq_of_digitChar_eq : ∀ m n : Fin 16, Nat.digitChar m = Nat.digitChar n → m = n := by
  decide

theorem mod_pow_eq_of_digits_eq {b m n : ℕ} (k : ℕ)
    (h : ∀ i < k, m / b ^ i % b = n / b ^ i % b) : m % b ^ k = n % b ^ k := by
  induction k with
  | zero => rw [Nat.pow_zero, Nat.mod_one, Nat.mod_one]
  | succ k ih =>
    rw [Nat.mod_pow_succ, Nat.mod_pow_succ, ih fun i hi => h i (Nat.lt_succ_of_lt hi),
      h k (Nat.lt_succ_self k)]

/-- **Digests can be told from their digits.** -/
theorem hexdigest_injective : Function.Injective hexdigest := by
  intro d e h
  have hlis := congrArg String.toList h
  rw [toList_hexdigest, toList_hexdigest] at hlis
  have hdig : ∀ i < 64, d.toNat / 16 ^ i % 16 = e.toNat / 16 ^ i % 16 := by
    intro i hi
    have hchar := List.map_inj_left.mp hlis (63 - i) (List.mem_range.mpr (by omega))
    rw [show 63 - (63 - i) = i by omega] at hchar
    exact congrArg Fin.val (eq_of_digitChar_eq ⟨_, Nat.mod_lt (d.toNat / 16 ^ i) (by decide)⟩
      ⟨_, Nat.mod_lt (e.toNat / 16 ^ i) (by decide)⟩ hchar)
  have hmod := mod_pow_eq_of_digits_eq 64 hdig
  have hpow : (16 : ℕ) ^ 64 = 2 ^ 256 := by decide
  rw [hpow, Nat.mod_eq_of_lt d.isLt, Nat.mod_eq_of_lt e.isLt] at hmod
  exact BitVec.eq_of_toNat_eq hmod

end ArchonSearch.Py
