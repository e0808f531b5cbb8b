import MxSdk.Account.Address
import MxSdk.Internal.BigUInt

/-! account/account.cpp -/

namespace MxSdk

structure Account where
  address : Address
  balance : BigUInt
  nonce : UInt64

namespace Account

def defaultBalance : BigUInt := .ofUInt64 0

def defaultNonce : UInt64 := 0

def new (address : Address) : Account := ⟨address, defaultBalance, defaultNonce⟩

def incrementNonce (t : Account) : Account := { t with nonce := t.nonce + 1 }

end Account

end MxSdk
