import MxSdk.Basic

/-! keccak/sha3.c, with the padding byte 0x01 of the legacy Keccak. The state is
its 25 words; its bytes are those of the words, least significant first. The
position `pt` carries the bound that keeps it inside the rate. -/

namespace MxSdk.Keccak

abbrev Words := Vector UInt64 25

def rndc : List UInt64 :=
  [0x0000000000000001, 0x0000000000008082, 0x800000000000808a,
   0x8000000080008000, 0x000000000000808b, 0x0000000080000001,
   0x8000000080008081, 0x8000000000008009, 0x000000000000008a,
   0x0000000000000088, 0x0000000080008009, 0x000000008000000a,
   0x000000008000808b, 0x800000000000008b, 0x8000000000008089,
   0x8000000000008003, 0x8000000000008002, 0x8000000000000080,
   0x000000000000800a, 0x800000008000000a, 0x8000000080008081,
   0x8000000000008080, 0x0000000080000001, 0x8000000080008008]

def rotc : List UInt64 :=
  [1, 3, 6, 10, 15, 21, 28, 36, 45, 55, 2, 14, 27, 41, 56, 8, 25, 43, 62, 18, 39, 61, 20, 44]

def piln : List (Fin 25) :=
  [10, 7, 11, 17, 18, 3, 5, 16, 8, 21, 24, 4, 15, 23, 19, 13, 12, 2, 20, 14, 22, 9, 6, 1]

def rotl (x y : UInt64) : UInt64 := (x <<< y) ||| (x >>> (64 - y))

/-- The word of row `row` and column `i % 5`. -/
def word (st : Words) (row : Nat) (i : Nat) : UInt64 := st[5 * row + i % 5]?.getD 0

def theta (st : Words) : Words :=
  let bc (i : Nat) := word st 0 i ^^^ word st 1 i ^^^ word st 2 i ^^^ word st 3 i ^^^ word st 4 i
  Vector.ofFn fun k => st[k] ^^^ (bc (k.val % 5 + 4) ^^^ rotl (bc (k.val % 5 + 1)) 1)

def rhoPi (st : Words) : Words :=
  ((piln.zip rotc).foldl (fun (st, t) (j, r) => (st.set j (rotl t r), st[j])) (st, st[1])).1

def chi (st : Words) : Words :=
  Vector.ofFn fun k =>
    st[k] ^^^ (~~~ word st (k.val / 5) (k.val % 5 + 1) &&& word st (k.val / 5) (k.val % 5 + 2))

def iota (st : Words) (rc : UInt64) : Words := st.set 0 (st[0] ^^^ rc)

def keccakf (st : Words) : Words :=
  rndc.foldl (fun st rc => iota (chi (rhoPi (theta st))) rc) st

/-- `st.b[j] ^= b`. -/
def xorByte (st : Words) (j : Nat) (b : UInt8) : Words :=
  st.setIfInBounds (j / 8) (st[j / 8]?.getD 0 ^^^ b.toUInt64 <<< UInt64.ofNat (8 * (j % 8)))

def byteAt (st : Words) (i : Nat) : UInt8 :=
  (st[i / 8]?.getD 0 >>> UInt64.ofNat (8 * (i % 8))).toUInt8

structure Ctx (rsiz : Nat) where
  st : Words
  pt : Nat
  pt_lt : pt < rsiz

variable {rsiz : Nat}

def init (h : 0 < rsiz) : Ctx rsiz := ⟨Vector.replicate 25 0, 0, h⟩

/-- One turn of the loop of `sha3_update`. -/
def Ctx.absorb (c : Ctx rsiz) (b : UInt8) : Ctx rsiz :=
  let st := xorByte c.st c.pt b
  if h : rsiz ≤ c.pt + 1 then ⟨keccakf st, 0, by have := c.pt_lt; omega⟩
  else ⟨st, c.pt + 1, by omega⟩

def Ctx.update (c : Ctx rsiz) (data : Bytes) : Ctx rsiz := data.foldl Ctx.absorb c

def Ctx.final (c : Ctx rsiz) (mdlen : Nat) : Bytes :=
  let st := keccakf (xorByte (xorByte c.st c.pt 0x01) (rsiz - 1) 0x80)
  (List.range mdlen).map (byteAt st)

/-- The call `sha3(msg, message.size(), out, SHA3_KECCAK_BYTES)`. -/
def sha3Keccak (message : Bytes) : Bytes :=
  let c : Ctx (200 - 2 * 32) := init (by decide)
  (c.update message).final 32

@[simp] theorem length_sha3Keccak (message : Bytes) : (sha3Keccak message).length = 32 := by
  simp [sha3Keccak, Ctx.final]

end MxSdk.Keccak
