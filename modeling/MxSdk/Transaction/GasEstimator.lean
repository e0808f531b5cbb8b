import MxSdk.Basic

/-! transaction/gas_estimator.cpp. The minimum gas limit is a `uint32_t`: where a cost
that is an `int` literal is added to it, the sum wraps at 2^32, and only then is it
widened. -/

namespace MxSdk

structure NetworkConfig where
  chainId : Bytes
  gasPerDataByte : UInt32
  minGasLimit : UInt32
  minGasPrice : UInt64

def additionalGasForEsdtTransfer : UInt64 := 100000
def additionalGasForEsdtNftTransfer : UInt64 := 800000
def gasCostEsdtTransfer : UInt32 := 200000
def gasCostEsdtNftTransfer : UInt32 := 200000
def gasCostEsdtNftMultiTransfer : UInt64 := 200000

structure GasEstimator where
  networkConfig : NetworkConfig

namespace GasEstimator

def forEGLDTransfer (t : GasEstimator) (dataLength : UInt64) : UInt64 :=
  t.networkConfig.minGasLimit.toUInt64 + t.networkConfig.gasPerDataByte.toUInt64 * dataLength

def forESDTTransfer (t : GasEstimator) (dataLength : UInt64) : UInt64 :=
  (t.networkConfig.minGasLimit + gasCostEsdtTransfer).toUInt64 +
    t.networkConfig.gasPerDataByte.toUInt64 * dataLength + additionalGasForEsdtTransfer

def forESDTNFTTransfer (t : GasEstimator) (dataLength : UInt64) : UInt64 :=
  (t.networkConfig.minGasLimit + gasCostEsdtNftTransfer).toUInt64 +
    t.networkConfig.gasPerDataByte.toUInt64 * dataLength + additionalGasForEsdtNftTransfer

def forMultiESDTNFTTransfer (t : GasEstimator) (dataLength numTransfers : UInt64) : UInt64 :=
  t.networkConfig.minGasLimit.toUInt64 +
    (gasCostEsdtNftMultiTransfer + additionalGasForEsdtNftTransfer) * numTransfers +
    t.networkConfig.gasPerDataByte.toUInt64 * dataLength

end GasEstimator

namespace NetworkConfig

/-- What the network asks of a transaction with that many bytes of data. -/
def required (config : NetworkConfig) (length : Nat) : Nat :=
  config.minGasLimit.toNat + config.gasPerDataByte.toNat * length

end NetworkConfig

/-! The estimates as numbers. Data that is too long for a `size_t` costs nothing, or
more than 2^64. -/

namespace GasEstimator

variable (t : GasEstimator) {length : Nat}

theorem toNat_perByte (h : t.networkConfig.gasPerDataByte.toNat * length < 2 ^ 64) :
    (t.networkConfig.gasPerDataByte.toUInt64 * UInt64.ofNat length).toNat =
      t.networkConfig.gasPerDataByte.toNat * length := by
  rw [UInt64.toNat_mul, UInt32.toNat_toUInt64, UInt64.toNat_ofNat', Nat.mul_mod_mod,
    Nat.mod_eq_of_lt h]

theorem toNat_forEGLDTransfer (h : t.networkConfig.required length < 2 ^ 64) :
    (t.forEGLDTransfer (UInt64.ofNat length)).toNat = t.networkConfig.required length := by
  rw [NetworkConfig.required] at h
  rw [forEGLDTransfer, UInt64.toNat_add, t.toNat_perByte (by omega), UInt32.toNat_toUInt64,
    Nat.mod_eq_of_lt h]
  rfl

theorem toNat_wrapped {cost : UInt32} {additional : UInt64} {c a : Nat} (hcost : cost.toNat = c)
    (hadditional : additional.toNat = a) (hsmall : c + a ≤ 1000000)
    (h : t.networkConfig.required length + (c + a) < 2 ^ 64) :
    ((t.networkConfig.minGasLimit + cost).toUInt64 +
        t.networkConfig.gasPerDataByte.toUInt64 * UInt64.ofNat length + additional).toNat +
        (if t.networkConfig.minGasLimit.toNat + c < 2 ^ 32 then 0 else 2 ^ 32) =
      t.networkConfig.required length + (c + a) := by
  rw [NetworkConfig.required] at h ⊢
  have hlt := t.networkConfig.minGasLimit.toNat_lt
  rw [UInt64.toNat_add, UInt64.toNat_add, t.toNat_perByte (by omega), UInt32.toNat_toUInt64,
    UInt32.toNat_add, Nat.mod_add_mod, hcost, hadditional]
  split <;> omega

theorem eq_iff_of_wrapped {n m : Nat} {p : Prop} [Decidable p]
    (h : n + (if p then 0 else 2 ^ 32) = m) : n = m ↔ p := by
  by_cases hp : p
  · rw [if_pos hp] at h
    exact iff_of_true h hp
  · rw [if_neg hp] at h
    exact iff_of_false (by omega) hp

theorem le_iff_of_wrapped {n m additional : Nat} {p : Prop} [Decidable p]
    (h : n + (if p then 0 else 2 ^ 32) = m + additional) (hsmall : additional ≤ 1000000) :
    m ≤ n ↔ p := by
  by_cases hp : p
  · rw [if_pos hp] at h
    exact iff_of_true (by omega) hp
  · rw [if_neg hp] at h
    exact iff_of_false (by omega) hp

theorem toNat_forESDTTransfer (h : t.networkConfig.required length + 300000 < 2 ^ 64) :
    (t.forESDTTransfer (UInt64.ofNat length)).toNat +
        (if t.networkConfig.minGasLimit.toNat + 200000 < 2 ^ 32 then 0 else 2 ^ 32) =
      t.networkConfig.required length + 300000 :=
  t.toNat_wrapped (a := 100000) rfl rfl (by decide) h

theorem toNat_forESDTNFTTransfer (h : t.networkConfig.required length + 1000000 < 2 ^ 64) :
    (t.forESDTNFTTransfer (UInt64.ofNat length)).toNat +
        (if t.networkConfig.minGasLimit.toNat + 200000 < 2 ^ 32 then 0 else 2 ^ 32) =
      t.networkConfig.required length + 1000000 :=
  t.toNat_wrapped (a := 800000) rfl rfl (by decide) h

theorem toNat_forMultiESDTNFTTransfer {num : UInt64}
    (h : t.networkConfig.required length + 1000000 * num.toNat < 2 ^ 64) :
    (t.forMultiESDTNFTTransfer (UInt64.ofNat length) num).toNat =
      t.networkConfig.required length + 1000000 * num.toNat := by
  rw [NetworkConfig.required] at h ⊢
  have hnum : ((gasCostEsdtNftMultiTransfer + additionalGasForEsdtNftTransfer) * num).toNat =
      1000000 * num.toNat := by
    rw [UInt64.toNat_mul, show (gasCostEsdtNftMultiTransfer +
      additionalGasForEsdtNftTransfer).toNat = 1000000 from rfl]
    exact Nat.mod_eq_of_lt (by omega)
  rw [forMultiESDTNFTTransfer, UInt64.toNat_add, UInt64.toNat_add, hnum,
    t.toNat_perByte (by omega), UInt32.toNat_toUInt64, Nat.mod_add_mod, Nat.mod_eq_of_lt (by omega)]
  omega

end GasEstimator

inductive Estimate where
  | egldTransfer (dataLength : UInt64)
  | esdtTransfer (dataLength : UInt64)
  | esdtNftTransfer (dataLength : UInt64)
  | multiEsdtNftTransfer (dataLength numTransfers : UInt64)

namespace Estimate

def gas (t : GasEstimator) : Estimate → UInt64
  | egldTransfer dataLength => t.forEGLDTransfer dataLength
  | esdtTransfer dataLength => t.forESDTTransfer dataLength
  | esdtNftTransfer dataLength => t.forESDTNFTTransfer dataLength
  | multiEsdtNftTransfer dataLength numTransfers =>
    t.forMultiESDTNFTTransfer dataLength numTransfers

/-- The sum over the integers. -/
def exact (config : NetworkConfig) : Estimate → Nat
  | egldTransfer dataLength => config.required dataLength.toNat
  | esdtTransfer dataLength => config.required dataLength.toNat + (200000 + 100000)
  | esdtNftTransfer dataLength => config.required dataLength.toNat + (200000 + 800000)
  | multiEsdtNftTransfer dataLength numTransfers =>
    config.required dataLength.toNat + (200000 + 800000) * numTransfers.toNat

/-- A cost that is added to the minimum before it is widened leaves it below 2^32. -/
def Fits (config : NetworkConfig) : Estimate → Prop
  | egldTransfer _ | multiEsdtNftTransfer _ _ => True
  | esdtTransfer _ | esdtNftTransfer _ => config.minGasLimit.toNat + 200000 < 2 ^ 32

theorem gas_exact_iff (t : GasEstimator) (estimate : Estimate)
    (h : estimate.exact t.networkConfig < 2 ^ 64) :
    (estimate.gas t).toNat = estimate.exact t.networkConfig ↔ estimate.Fits t.networkConfig := by
  cases estimate with
  | egldTransfer dataLength =>
    have hgas := t.toNat_forEGLDTransfer h
    rw [UInt64.ofNat_toNat] at hgas
    exact iff_of_true hgas trivial
  | esdtTransfer dataLength =>
    have hgas := GasEstimator.eq_iff_of_wrapped (t.toNat_forESDTTransfer h)
    rw [UInt64.ofNat_toNat] at hgas
    exact hgas
  | esdtNftTransfer dataLength =>
    have hgas := GasEstimator.eq_iff_of_wrapped (t.toNat_forESDTNFTTransfer h)
    rw [UInt64.ofNat_toNat] at hgas
    exact hgas
  | multiEsdtNftTransfer dataLength numTransfers =>
    have hgas := t.toNat_forMultiESDTNFTTransfer h
    rw [UInt64.ofNat_toNat] at hgas
    exact iff_of_true hgas trivial

theorem gas_exact_iff_fifty :
    (esdtTransfer 50).exact ⟨ascii "1", 1500, 50000, 1000000000⟩ < 2 ^ 64 ∧
      (((esdtTransfer 50).gas ⟨⟨ascii "1", 1500, 50000, 1000000000⟩⟩).toNat =
          (esdtTransfer 50).exact ⟨ascii "1", 1500, 50000, 1000000000⟩ ↔
        (esdtTransfer 50).Fits ⟨ascii "1", 1500, 50000, 1000000000⟩) :=
  have h : (esdtTransfer 50).exact ⟨ascii "1", 1500, 50000, 1000000000⟩ < 2 ^ 64 := by
    decide +kernel
  ⟨h, gas_exact_iff ⟨⟨ascii "1", 1500, 50000, 1000000000⟩⟩ (esdtTransfer 50) h⟩

theorem gas_exact_fails : ¬ ∀ (t : GasEstimator) (estimate : Estimate),
    estimate.exact t.networkConfig < 2 ^ 64 →
      (estimate.gas t).toNat = estimate.exact t.networkConfig := by
  intro h
  exact absurd (h ⟨⟨ascii "1", 1500, 0xffffffff, 1000000000⟩⟩ (esdtTransfer 0) (by decide +kernel))
    (by decide +kernel)

end Estimate

end MxSdk
