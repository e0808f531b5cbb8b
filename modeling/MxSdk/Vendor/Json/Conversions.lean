import Mathlib.Data.Rat.Cast.Order
import MxSdk.Vendor.Json.Value

/-! Values behind paths of keys, and `get<T>` on numbers. It keeps the value of a number when that is a natural number
the type can hold, and of no other number, as it never returns another kind. -/

namespace MxSdk.Json

def locate (path : List Bytes) (j : Json) : Option Json := path.foldlM (fun j key => j.find key) j

theorem locate_cons (key : Bytes) (path : List Bytes) (j : Json) :
    j.locate (key :: path) = (j.find key).bind (locate path) := rfl

theorem locate_singleton (key : Bytes) (j : Json) : j.locate [key] = j.find key :=
  Option.bind_fun_some _

def toRat : Json → Option ℚ
  | numberUnsigned n => some n.toNat
  | numberInteger n => some n.toInt
  | numberFloat x => some x.toRat
  | _ => none

/-- A natural number of `w` bits, in whatever notation. -/
def IsNatural (w : Nat) (v : Json) : Prop := ∃ m : ℕ, m < 2 ^ w ∧ v.toRat = some (m : ℚ)

theorem castFloat_natCast {w m : ℕ} (h : m < 2 ^ w) : castFloat w (m : ℚ) = some m := by
  have hfloor : (m : ℚ).floor = (m : ℤ) := by
    rw [← Int.cast_natCast, Rat.floor_intCast]
  have hlt : (m : ℤ) < 2 ^ w := by exact_mod_cast h
  rw [castFloat]
  simp only [Nat.cast_nonneg, if_true, hfloor, hlt, and_self, Int.toNat_natCast]

theorem toNat_toUInt64 {n : Int64} {m : ℕ} (h : n.toInt = m) : n.toUInt64.toNat = m := by
  have hn : 0 ≤ n := Int64.le_iff_toInt_le.mpr (by rw [h]; exact Int.natCast_nonneg m)
  rw [Int64.toNat_toUInt64_of_le hn, ← Int64.toNat_toInt, h, Int.toNat_natCast]

variable [Platform]

theorem getUInt64_natural {v : Json} {m : ℕ} (h : m < 2 ^ 64) (hv : v.toRat = some (m : ℚ)) :
    ∃ n, v.getUInt64 = some n ∧ n.toNat = m := by
  cases v with
  | numberUnsigned n => exact ⟨n, rfl, Nat.cast_injective (Option.some.inj hv)⟩
  | numberInteger n =>
    exact ⟨_, rfl, toNat_toUInt64 (by exact_mod_cast Option.some.inj hv)⟩
  | numberFloat x =>
    refine ⟨UInt64.ofNat m, ?_, UInt64.toNat_ofNat_of_lt' h⟩
    rw [getUInt64, Option.some.inj hv, castFloat_natCast h]
  | null | boolean | string | array | object => cases hv

theorem getUInt32_natural {v : Json} {m : ℕ} (h : m < 2 ^ 32) (hv : v.toRat = some (m : ℚ)) :
    ∃ n, v.getUInt32 = some n ∧ n.toNat = m := by
  cases v with
  | numberUnsigned n =>
    refine ⟨_, rfl, ?_⟩
    have hn : n.toNat = m := Nat.cast_injective (Option.some.inj hv)
    rw [UInt64.toNat_toUInt32, hn, Nat.mod_eq_of_lt h]
  | numberInteger n =>
    refine ⟨_, rfl, ?_⟩
    have hn : n.toInt = m := by exact_mod_cast Option.some.inj hv
    rw [UInt64.toNat_toUInt32, toNat_toUInt64 hn, Nat.mod_eq_of_lt h]
  | numberFloat x =>
    refine ⟨UInt32.ofNat m, ?_, UInt32.toNat_ofNat_of_lt' h⟩
    rw [getUInt32, Option.some.inj hv, castFloat_natCast h]
  | null | boolean | string | array | object => cases hv

theorem getUInt64_exact_iff {v : Json} {n : UInt64} (h : v.getUInt64 = some n) :
    v.toRat = some (n.toNat : ℚ) ↔ v.IsNatural 64 := by
  constructor
  · exact fun hv => ⟨n.toNat, n.toNat_lt, hv⟩
  · rintro ⟨m, hm, hv⟩
    obtain ⟨n', hn', rfl⟩ := getUInt64_natural hm hv
    rw [h, Option.some.injEq] at hn'
    rw [hv, hn']

theorem getUInt32_exact_iff {v : Json} {n : UInt32} (h : v.getUInt32 = some n) :
    v.toRat = some (n.toNat : ℚ) ↔ v.IsNatural 32 := by
  constructor
  · exact fun hv => ⟨n.toNat, n.toNat_lt, hv⟩
  · rintro ⟨m, hm, hv⟩
    obtain ⟨n', hn', rfl⟩ := getUInt32_natural hm hv
    rw [h, Option.some.injEq] at hn'
    rw [hv, hn']

end MxSdk.Json
