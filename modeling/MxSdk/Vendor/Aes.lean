import MxSdk.Basic
import MxSdk.Lib.BigEndian
import MxSdk.Lib.BlockModes

/-! aes_128_ctr/aes.c, with keys of 128 bits. A block is the 16 bytes of the state, column by
column. -/

namespace MxSdk.Aes

def Nb : Nat := 4
def Nk : Nat := 4
def Nr : Nat := 10
def blockLen : Nat := 16
def keyLen : Nat := 16

abbrev Block := Vector UInt8 16

def sbox : Bytes :=
  [0x63, 0x7c, 0x77, 0x7b, 0xf2, 0x6b, 0x6f, 0xc5, 0x30, 0x01, 0x67, 0x2b, 0xfe, 0xd7, 0xab, 0x76,
   0xca, 0x82, 0xc9, 0x7d, 0xfa, 0x59, 0x47, 0xf0, 0xad, 0xd4, 0xa2, 0xaf, 0x9c, 0xa4, 0x72, 0xc0,
   0xb7, 0xfd, 0x93, 0x26, 0x36, 0x3f, 0xf7, 0xcc, 0x34, 0xa5, 0xe5, 0xf1, 0x71, 0xd8, 0x31, 0x15,
   0x04, 0xc7, 0x23, 0xc3, 0x18, 0x96, 0x05, 0x9a, 0x07, 0x12, 0x80, 0xe2, 0xeb, 0x27, 0xb2, 0x75,
   0x09, 0x83, 0x2c, 0x1a, 0x1b, 0x6e, 0x5a, 0xa0, 0x52, 0x3b, 0xd6, 0xb3, 0x29, 0xe3, 0x2f, 0x84,
   0x53, 0xd1, 0x00, 0xed, 0x20, 0xfc, 0xb1, 0x5b, 0x6a, 0xcb, 0xbe, 0x39, 0x4a, 0x4c, 0x58, 0xcf,
   0xd0, 0xef, 0xaa, 0xfb, 0x43, 0x4d, 0x33, 0x85, 0x45, 0xf9, 0x02, 0x7f, 0x50, 0x3c, 0x9f, 0xa8,
   0x51, 0xa3, 0x40, 0x8f, 0x92, 0x9d, 0x38, 0xf5, 0xbc, 0xb6, 0xda, 0x21, 0x10, 0xff, 0xf3, 0xd2,
   0xcd, 0x0c, 0x13, 0xec, 0x5f, 0x97, 0x44, 0x17, 0xc4, 0xa7, 0x7e, 0x3d, 0x64, 0x5d, 0x19, 0x73,
   0x60, 0x81, 0x4f, 0xdc, 0x22, 0x2a, 0x90, 0x88, 0x46, 0xee, 0xb8, 0x14, 0xde, 0x5e, 0x0b, 0xdb,
   0xe0, 0x32, 0x3a, 0x0a, 0x49, 0x06, 0x24, 0x5c, 0xc2, 0xd3, 0xac, 0x62, 0x91, 0x95, 0xe4, 0x79,
   0xe7, 0xc8, 0x37, 0x6d, 0x8d, 0xd5, 0x4e, 0xa9, 0x6c, 0x56, 0xf4, 0xea, 0x65, 0x7a, 0xae, 0x08,
   0xba, 0x78, 0x25, 0x2e, 0x1c, 0xa6, 0xb4, 0xc6, 0xe8, 0xdd, 0x74, 0x1f, 0x4b, 0xbd, 0x8b, 0x8a,
   0x70, 0x3e, 0xb5, 0x66, 0x48, 0x03, 0xf6, 0x0e, 0x61, 0x35, 0x57, 0xb9, 0x86, 0xc1, 0x1d, 0x9e,
   0xe1, 0xf8, 0x98, 0x11, 0x69, 0xd9, 0x8e, 0x94, 0x9b, 0x1e, 0x87, 0xe9, 0xce, 0x55, 0x28, 0xdf,
   0x8c, 0xa1, 0x89, 0x0d, 0xbf, 0xe6, 0x42, 0x68, 0x41, 0x99, 0x2d, 0x0f, 0xb0, 0x54, 0xbb, 0x16]

def rsbox : Bytes :=
  [0x52, 0x09, 0x6a, 0xd5, 0x30, 0x36, 0xa5, 0x38, 0xbf, 0x40, 0xa3, 0x9e, 0x81, 0xf3, 0xd7, 0xfb,
   0x7c, 0xe3, 0x39, 0x82, 0x9b, 0x2f, 0xff, 0x87, 0x34, 0x8e, 0x43, 0x44, 0xc4, 0xde, 0xe9, 0xcb,
   0x54, 0x7b, 0x94, 0x32, 0xa6, 0xc2, 0x23, 0x3d, 0xee, 0x4c, 0x95, 0x0b, 0x42, 0xfa, 0xc3, 0x4e,
   0x08, 0x2e, 0xa1, 0x66, 0x28, 0xd9, 0x24, 0xb2, 0x76, 0x5b, 0xa2, 0x49, 0x6d, 0x8b, 0xd1, 0x25,
   0x72, 0xf8, 0xf6, 0x64, 0x86, 0x68, 0x98, 0x16, 0xd4, 0xa4, 0x5c, 0xcc, 0x5d, 0x65, 0xb6, 0x92,
   0x6c, 0x70, 0x48, 0x50, 0xfd, 0xed, 0xb9, 0xda, 0x5e, 0x15, 0x46, 0x57, 0xa7, 0x8d, 0x9d, 0x84,
   0x90, 0xd8, 0xab, 0x00, 0x8c, 0xbc, 0xd3, 0x0a, 0xf7, 0xe4, 0x58, 0x05, 0xb8, 0xb3, 0x45, 0x06,
   0xd0, 0x2c, 0x1e, 0x8f, 0xca, 0x3f, 0x0f, 0x02, 0xc1, 0xaf, 0xbd, 0x03, 0x01, 0x13, 0x8a, 0x6b,
   0x3a, 0x91, 0x11, 0x41, 0x4f, 0x67, 0xdc, 0xea, 0x97, 0xf2, 0xcf, 0xce, 0xf0, 0xb4, 0xe6, 0x73,
   0x96, 0xac, 0x74, 0x22, 0xe7, 0xad, 0x35, 0x85, 0xe2, 0xf9, 0x37, 0xe8, 0x1c, 0x75, 0xdf, 0x6e,
   0x47, 0xf1, 0x1a, 0x71, 0x1d, 0x29, 0xc5, 0x89, 0x6f, 0xb7, 0x62, 0x0e, 0xaa, 0x18, 0xbe, 0x1b,
   0xfc, 0x56, 0x3e, 0x4b, 0xc6, 0xd2, 0x79, 0x20, 0x9a, 0xdb, 0xc0, 0xfe, 0x78, 0xcd, 0x5a, 0xf4,
   0x1f, 0xdd, 0xa8, 0x33, 0x88, 0x07, 0xc7, 0x31, 0xb1, 0x12, 0x10, 0x59, 0x27, 0x80, 0xec, 0x5f,
   0x60, 0x51, 0x7f, 0xa9, 0x19, 0xb5, 0x4a, 0x0d, 0x2d, 0xe5, 0x7a, 0x9f, 0x93, 0xc9, 0x9c, 0xef,
   0xa0, 0xe0, 0x3b, 0x4d, 0xae, 0x2a, 0xf5, 0xb0, 0xc8, 0xeb, 0xbb, 0x3c, 0x83, 0x53, 0x99, 0x61,
   0x17, 0x2b, 0x04, 0x7e, 0xba, 0x77, 0xd6, 0x26, 0xe1, 0x69, 0x14, 0x63, 0x55, 0x21, 0x0c, 0x7d]

def Rcon : Bytes := [0x8d, 0x01, 0x02, 0x04, 0x08, 0x10, 0x20, 0x40, 0x80, 0x1b, 0x36]

def getSBoxValue (num : UInt8) : UInt8 := sbox.getD num.toNat 0

def getSBoxInvert (num : UInt8) : UInt8 := rsbox.getD num.toNat 0

/-- Four bytes of the key, or a column of the state. -/
structure Column where
  a : UInt8
  b : UInt8
  c : UInt8
  d : UInt8
  deriving DecidableEq

namespace Column

def toList (w : Column) : Bytes := [w.a, w.b, w.c, w.d]

def get (w : Column) (j : Nat) : UInt8 := w.toList.getD j 0

def map (f : UInt8 → UInt8) (w : Column) : Column := ⟨f w.a, f w.b, f w.c, f w.d⟩

def xor (v w : Column) : Column := ⟨v.a ^^^ w.a, v.b ^^^ w.b, v.c ^^^ w.c, v.d ^^^ w.d⟩

end Column

/-! The key. -/

/-- The four bytes of `RoundKey` behind `i * 4`. -/
def wordAt (roundKey : Bytes) (i : Nat) : Column :=
  ⟨roundKey.getD (i * 4) 0, roundKey.getD (i * 4 + 1) 0, roundKey.getD (i * 4 + 2) 0,
    roundKey.getD (i * 4 + 3) 0⟩

/-- One turn of the second loop of `KeyExpansion`, which writes behind what is there. -/
def expand (roundKey : Bytes) (i : Nat) : Bytes :=
  let tempa := wordAt roundKey (i - 1)
  let tempa :=
    if i % Nk = 0 then
      let rotated : Column := ⟨tempa.b, tempa.c, tempa.d, tempa.a⟩
      let tempa := rotated.map getSBoxValue
      { tempa with a := tempa.a ^^^ Rcon.getD (i / Nk) 0 }
    else tempa
  roundKey ++ ((wordAt roundKey (i - Nk)).xor tempa).toList

def keyExpansion (key : Block) : Bytes :=
  (List.range' Nk (Nb * (Nr + 1) - Nk)).foldl expand key.toList

/-! The cipher. -/

/-- `(*state)[i][j]` -/
def cell (state : Block) (i j : Nat) : UInt8 := state[4 * i + j]?.getD 0

def column (state : Block) (i : Nat) : Column :=
  ⟨cell state i 0, cell state i 1, cell state i 2, cell state i 3⟩

def ofColumns (f : Nat → Column) : Block := Vector.ofFn fun k => (f (k.val / 4)).get (k.val % 4)

def addRoundKey (round : Nat) (state : Block) (roundKey : Bytes) : Block :=
  Vector.ofFn fun k => state[k] ^^^ roundKey.getD (round * Nb * 4 + k.val) 0

def subBytes (state : Block) : Block := state.map getSBoxValue

def invSubBytes (state : Block) : Block := state.map getSBoxInvert

/-- The row `j` goes `j` columns to the left. -/
def shiftRows (state : Block) : Block :=
  let s := cell state
  ofColumns fun i =>
    ⟨s i 0, s ((i + 1) % 4) 1, s ((i + 2) % 4) 2, s ((i + 3) % 4) 3⟩

/-- The row `j` goes `j` columns to the right. -/
def invShiftRows (state : Block) : Block :=
  let s := cell state
  ofColumns fun i =>
    ⟨s i 0, s ((i + 3) % 4) 1, s ((i + 2) % 4) 2, s ((i + 1) % 4) 3⟩

def bit (x i : UInt8) : UInt8 := (x >>> i) &&& 1

def xtime (x : UInt8) : UInt8 := (x <<< 1) ^^^ bit x 7 * 0x1b

def mixColumn (w : Column) : Column :=
  let tmp := w.a ^^^ w.b ^^^ w.c ^^^ w.d
  ⟨w.a ^^^ (xtime (w.a ^^^ w.b) ^^^ tmp), w.b ^^^ (xtime (w.b ^^^ w.c) ^^^ tmp),
    w.c ^^^ (xtime (w.c ^^^ w.d) ^^^ tmp), w.d ^^^ (xtime (w.d ^^^ w.a) ^^^ tmp)⟩

def mixColumns (state : Block) : Block := ofColumns fun i => mixColumn (column state i)

def multiply (x y : UInt8) : UInt8 :=
  bit y 0 * x ^^^ bit y 1 * xtime x ^^^ bit y 2 * xtime (xtime x) ^^^
    bit y 3 * xtime (xtime (xtime x)) ^^^ bit y 4 * xtime (xtime (xtime (xtime x)))

def invMixColumn (w : Column) : Column :=
  ⟨multiply w.a 0x0e ^^^ multiply w.b 0x0b ^^^ multiply w.c 0x0d ^^^ multiply w.d 0x09,
    multiply w.a 0x09 ^^^ multiply w.b 0x0e ^^^ multiply w.c 0x0b ^^^ multiply w.d 0x0d,
    multiply w.a 0x0d ^^^ multiply w.b 0x09 ^^^ multiply w.c 0x0e ^^^ multiply w.d 0x0b,
    multiply w.a 0x0b ^^^ multiply w.b 0x0d ^^^ multiply w.c 0x09 ^^^ multiply w.d 0x0e⟩

def invMixColumns (state : Block) : Block := ofColumns fun i => invMixColumn (column state i)

/-- What the loop of `Cipher` does before it is left, and what it does in the last turn too. -/
def cipher (state : Block) (roundKey : Bytes) : Block :=
  let state := addRoundKey 0 state roundKey
  let state := (List.range' 1 (Nr - 1)).foldl (fun state round =>
    addRoundKey round (mixColumns (shiftRows (subBytes state))) roundKey) state
  addRoundKey Nr (shiftRows (subBytes state)) roundKey

def invCipher (state : Block) (roundKey : Bytes) : Block :=
  let state := addRoundKey Nr state roundKey
  let state := (List.range' 1 (Nr - 1)).reverse.foldl (fun state round =>
    invMixColumns (addRoundKey round (invSubBytes (invShiftRows state)) roundKey)) state
  addRoundKey 0 (invSubBytes (invShiftRows state)) roundKey

/-! The buffers. -/

structure Ctx where
  roundKey : Bytes
  iv : Block

def initCtxIv (key iv : Block) : Ctx := ⟨keyExpansion key, iv⟩

def ecbEncrypt (ctx : Ctx) (buf : Block) : Block := cipher buf ctx.roundKey

def ecbDecrypt (ctx : Ctx) (buf : Block) : Block := invCipher buf ctx.roundKey

def xorWithIv (buf iv : Block) : Block := Vector.ofFn fun i => buf[i] ^^^ iv[i]

/-- The buffer is a whole number of blocks. What the loop leaves in `Iv` is stored. -/
def cbcEncryptBuffer (ctx : Ctx) : List Block → Ctx × List Block
  | [] => (ctx, [])
  | buf :: rest =>
    let buf := cipher (xorWithIv buf ctx.iv) ctx.roundKey
    let (ctx, rest) := cbcEncryptBuffer { ctx with iv := buf } rest
    (ctx, buf :: rest)

def cbcDecryptBuffer (ctx : Ctx) : List Block → Ctx × List Block
  | [] => (ctx, [])
  | buf :: rest =>
    let storeNextIv := buf
    let buf := xorWithIv (invCipher buf ctx.roundKey) ctx.iv
    let (ctx, rest) := cbcDecryptBuffer { ctx with iv := storeNextIv } rest
    (ctx, buf :: rest)

/-- The loop that increments `Iv`, with `bi` bytes in front of it. -/
def increment (iv : Block) : Nat → Block
  | 0 => iv
  | bi + 1 =>
    if iv[bi]?.getD 0 = 255 then increment (iv.setIfInBounds bi 0) bi
    else iv.setIfInBounds bi (iv[bi]?.getD 0 + 1)

/-- What the loop over the bytes changes. -/
structure Stream where
  iv : Block
  buffer : Block
  bi : Nat

/-- A new block of the stream, where the last one was used up. -/
def Stream.refill (roundKey : Bytes) (s : Stream) : Stream :=
  if s.bi = blockLen then ⟨increment s.iv blockLen, cipher s.iv roundKey, 0⟩ else s

def xcryptBytes (roundKey : Bytes) (s : Stream) : Bytes → Stream × Bytes
  | [] => (s, [])
  | b :: buf =>
    let s := s.refill roundKey
    let (last, rest) := xcryptBytes roundKey { s with bi := s.bi + 1 } buf
    (last, (b ^^^ s.buffer[s.bi]?.getD 0) :: rest)

/-- `AES_CTR_xcrypt_buffer`. What `buffer` holds at first is not read. -/
def ctrXcryptBuffer (ctx : Ctx) (buf : Bytes) : Ctx × Bytes :=
  let (s, buf) := xcryptBytes ctx.roundKey ⟨ctx.iv, Vector.replicate 16 0, blockLen⟩ buf
  ({ ctx with iv := s.iv }, buf)

theorem length_xcryptBytes (roundKey : Bytes) (s : Stream) (buf : Bytes) :
    (xcryptBytes roundKey s buf).2.length = buf.length := by
  induction buf generalizing s with
  | nil => rfl
  | cons b buf ih => rw [xcryptBytes, List.length_cons, ih, List.length_cons]

@[simp] theorem length_ctrXcryptBuffer (ctx : Ctx) (buf : Bytes) :
    (ctrXcryptBuffer ctx buf).2.length = buf.length := length_xcryptBytes _ _ buf

/-! The bytes, and the columns. -/

theorem getSBoxInvert_getSBoxValue (b : UInt8) : getSBoxInvert (getSBoxValue b) = b :=
  forall_byte (P := fun b => getSBoxInvert (getSBoxValue b) = b) (by decide +kernel) b

theorem getSBoxValue_getSBoxInvert (b : UInt8) : getSBoxValue (getSBoxInvert b) = b :=
  forall_byte (P := fun b => getSBoxValue (getSBoxInvert b) = b) (by decide +kernel) b

theorem bit_eq (x i : UInt8) : bit x i = 0 ∨ bit x i = 1 := by
  have hone : ∀ y : UInt8, y &&& 1 = 0 ∨ y &&& 1 = 1 := forall_byte (by decide +kernel)
  exact hone (x >>> i)

theorem bit_xor (x y i : UInt8) : bit (x ^^^ y) i = bit x i ^^^ bit y i := by
  rw [bit, UInt8.shiftRight_xor, bit, bit]
  apply UInt8.toBitVec_inj.mp
  ext i hi
  simp [Bool.and_xor_distrib_right]

theorem bit_mul_xor (y i a b : UInt8) : bit y i * (a ^^^ b) = bit y i * a ^^^ bit y i * b := by
  rcases bit_eq y i with h | h <;> rw [h] <;> simp

theorem xtime_xor (a b : UInt8) : xtime (a ^^^ b) = xtime a ^^^ xtime b := by
  have hmul : (bit a 7 ^^^ bit b 7) * 0x1b = bit a 7 * 0x1b ^^^ bit b 7 * 0x1b := by
    rcases bit_eq a 7 with ha | ha <;> rcases bit_eq b 7 with hb | hb <;> rw [ha, hb] <;> rfl
  rw [xtime, UInt8.shiftLeft_xor, bit_xor, hmul, xtime, xtime]
  ac_rfl

theorem multiply_xor (a b y : UInt8) : multiply (a ^^^ b) y = multiply a y ^^^ multiply b y := by
  simp only [multiply, xtime_xor, bit_mul_xor]
  ac_rfl

theorem mixColumn_xor (v w : Column) : mixColumn (v.xor w) = (mixColumn v).xor (mixColumn w) := by
  simp only [mixColumn, Column.xor, xtime_xor, Column.mk.injEq]
  refine ⟨?_, ?_, ?_, ?_⟩ <;> ac_rfl

theorem invMixColumn_xor (v w : Column) :
    invMixColumn (v.xor w) = (invMixColumn v).xor (invMixColumn w) := by
  simp only [invMixColumn, Column.xor, multiply_xor, Column.mk.injEq]
  refine ⟨?_, ?_, ?_, ?_⟩ <;> ac_rfl

theorem xtime_zero : xtime 0 = 0 := by decide +kernel

theorem xor_cancel (a b : UInt8) : a ^^^ (a ^^^ b) = b := by
  rw [← UInt8.xor_assoc, UInt8.xor_self, UInt8.zero_xor]

theorem multiply_eq (x : UInt8) :
    multiply x 0x09 = x ^^^ xtime (xtime (xtime x)) ∧
    multiply x 0x0b = x ^^^ (xtime x ^^^ xtime (xtime (xtime x))) ∧
    multiply x 0x0d = x ^^^ (xtime (xtime x) ^^^ xtime (xtime (xtime x))) ∧
    multiply x 0x0e = xtime x ^^^ (xtime (xtime x) ^^^ xtime (xtime (xtime x))) := by
  have h9 : [0, 1, 2, 3, 4].map (bit 0x09) = [1, 0, 0, 1, 0] := by decide +kernel
  have hb : [0, 1, 2, 3, 4].map (bit 0x0b) = [1, 1, 0, 1, 0] := by decide +kernel
  have hd : [0, 1, 2, 3, 4].map (bit 0x0d) = [1, 0, 1, 1, 0] := by decide +kernel
  have he : [0, 1, 2, 3, 4].map (bit 0x0e) = [0, 1, 1, 1, 0] := by decide +kernel
  simp only [List.map_cons, List.cons.injEq] at h9 hb hd he
  simp only [multiply, h9, hb, hd, he, UInt8.one_mul, UInt8.zero_mul, UInt8.xor_zero,
    UInt8.zero_xor, UInt8.xor_assoc, and_self]

def Column.rotate (w : Column) : Column := ⟨w.d, w.a, w.b, w.c⟩

theorem mixColumn_rotate (w : Column) : mixColumn w.rotate = (mixColumn w).rotate := by
  simp only [mixColumn, Column.rotate, Column.mk.injEq]
  refine ⟨?_, ?_, ?_, ?_⟩ <;> ac_rfl

theorem invMixColumn_rotate (w : Column) : invMixColumn w.rotate = (invMixColumn w).rotate := by
  simp only [invMixColumn, Column.rotate, Column.mk.injEq]
  refine ⟨?_, ?_, ?_, ?_⟩ <;> ac_rfl

/-- What is additive and commutes with the rotation is seen on the first bytes. -/
theorem Column.eq_of_first {f : Column → Column} (hf : ∀ v w, f (v.xor w) = (f v).xor (f w))
    (hrotate : ∀ w, f w.rotate = (f w).rotate) (h : ∀ x, f ⟨x, 0, 0, 0⟩ = ⟨x, 0, 0, 0⟩)
    (w : Column) : f w = w := by
  have hsecond (x : UInt8) : f ⟨0, x, 0, 0⟩ = ⟨0, x, 0, 0⟩ :=
    (hrotate ⟨x, 0, 0, 0⟩).trans (congrArg Column.rotate (h x))
  have hthird (x : UInt8) : f ⟨0, 0, x, 0⟩ = ⟨0, 0, x, 0⟩ :=
    (hrotate ⟨0, x, 0, 0⟩).trans (congrArg Column.rotate (hsecond x))
  have hfourth (x : UInt8) : f ⟨0, 0, 0, x⟩ = ⟨0, 0, 0, x⟩ :=
    (hrotate ⟨0, 0, x, 0⟩).trans (congrArg Column.rotate (hthird x))
  have hsum : w = (Column.xor ⟨w.a, 0, 0, 0⟩ ⟨0, w.b, 0, 0⟩).xor
      (Column.xor ⟨0, 0, w.c, 0⟩ ⟨0, 0, 0, w.d⟩) := by
    simp [Column.xor]
  rw [hsum, hf, hf, hf, h, hsecond, hthird, hfourth]

theorem mixColumn_first (x : UInt8) : mixColumn ⟨x, 0, 0, 0⟩ = ⟨xtime x, x, x, x ^^^ xtime x⟩ := by
  simp only [mixColumn, UInt8.xor_zero, UInt8.zero_xor, xtime_zero, UInt8.xor_comm _ x, xor_cancel]

theorem invMixColumn_first (x : UInt8) : invMixColumn ⟨x, 0, 0, 0⟩ =
    ⟨multiply x 0x0e, multiply x 0x09, multiply x 0x0d, multiply x 0x0b⟩ := by
  have hzero : ∀ y : UInt8, multiply 0 y = 0 := fun y => by
    simp only [multiply, xtime_zero, UInt8.mul_zero, UInt8.xor_zero]
  simp only [invMixColumn, hzero, UInt8.xor_zero]

theorem xor_left_comm (a b c : UInt8) : a ^^^ (b ^^^ c) = b ^^^ (a ^^^ c) := by ac_rfl

theorem invMixColumn_mixColumn (w : Column) : invMixColumn (mixColumn w) = w := by
  refine Column.eq_of_first (f := fun w => invMixColumn (mixColumn w)) (fun v w => ?_) (fun w => ?_)
    (fun x => ?_) w
  · rw [mixColumn_xor, invMixColumn_xor]
  · rw [mixColumn_rotate, invMixColumn_rotate]
  · obtain ⟨h9, hb, hd, he⟩ := multiply_eq x
    obtain ⟨h9', hb', hd', he'⟩ := multiply_eq (xtime x)
    simp only [mixColumn_first, invMixColumn, multiply_xor, h9, hb, hd, he, h9', hb', hd', he',
      Column.mk.injEq]
    simp only [UInt8.xor_assoc, UInt8.xor_comm, xor_left_comm, xor_cancel, UInt8.xor_self,
      UInt8.xor_zero, and_self]

theorem mixColumn_invMixColumn (w : Column) : mixColumn (invMixColumn w) = w := by
  refine Column.eq_of_first (f := fun w => mixColumn (invMixColumn w)) (fun v w => ?_) (fun w => ?_)
    (fun x => ?_) w
  · rw [invMixColumn_xor, mixColumn_xor]
  · rw [invMixColumn_rotate, mixColumn_rotate]
  · obtain ⟨h9, hb, hd, he⟩ := multiply_eq x
    simp only [invMixColumn_first, mixColumn, h9, hb, hd, he, xtime_xor, Column.mk.injEq]
    simp only [UInt8.xor_assoc, UInt8.xor_comm, xor_left_comm, xor_cancel, UInt8.xor_self,
      UInt8.xor_zero, and_self]

/-! The state as columns. -/

theorem cell_ofColumns (f : Nat → Column) {i j : Nat} (hi : i < 4) (hj : j < 4) :
    cell (ofColumns f) i j = (f i).get j := by
  have hlt : 4 * i + j < 16 := by omega
  have hdiv : (4 * i + j) / 4 = i := by omega
  have hmod : (4 * i + j) % 4 = j := by omega
  rw [cell, Vector.getElem?_eq_getElem hlt, Option.getD_some, ofColumns, Vector.getElem_ofFn,
    hdiv, hmod]

theorem column_ofColumns (f : Nat → Column) {i : Nat} (hi : i < 4) : column (ofColumns f) i = f i := by
  rw [column, cell_ofColumns f hi (by decide), cell_ofColumns f hi (by decide),
    cell_ofColumns f hi (by decide), cell_ofColumns f hi (by decide)]
  rfl

theorem ofColumns_congr {f g : Nat → Column} (h : ∀ i < 4, f i = g i) : ofColumns f = ofColumns g := by
  refine Vector.ext fun k hk => ?_
  rw [ofColumns, Vector.getElem_ofFn, h (k / 4) (by omega), ofColumns, Vector.getElem_ofFn]

theorem get_column (state : Block) (i : Nat) {j : Nat} (hj : j < 4) :
    (column state i).get j = cell state i j := by
  obtain rfl | rfl | rfl | rfl : j = 0 ∨ j = 1 ∨ j = 2 ∨ j = 3 := by omega
  all_goals rfl

theorem ofColumns_column (state : Block) : ofColumns (column state) = state := by
  refine Vector.ext fun k hk => ?_
  have hplace : 4 * (k / 4) + k % 4 = k := Nat.div_add_mod k 4
  rw [ofColumns, Vector.getElem_ofFn, get_column state _ (by omega), cell, hplace,
    Vector.getElem?_eq_getElem hk, Option.getD_some]

theorem ofColumns_ofColumns {f g : Column → Column} (h : ∀ w, f (g w) = w) (state : Block) :
    ofColumns (fun i => f (column (ofColumns fun i => g (column state i)) i)) = state := by
  refine (ofColumns_congr fun i hi => ?_).trans (ofColumns_column state)
  rw [column_ofColumns _ hi, h]

theorem invMixColumns_mixColumns (state : Block) : invMixColumns (mixColumns state) = state :=
  ofColumns_ofColumns invMixColumn_mixColumn state

theorem mixColumns_invMixColumns (state : Block) : mixColumns (invMixColumns state) = state :=
  ofColumns_ofColumns mixColumn_invMixColumn state

theorem invSubBytes_subBytes (state : Block) : invSubBytes (subBytes state) = state := by
  refine Vector.ext fun k hk => ?_
  rw [invSubBytes, Vector.getElem_map, subBytes, Vector.getElem_map, getSBoxInvert_getSBoxValue]

theorem subBytes_invSubBytes (state : Block) : subBytes (invSubBytes state) = state := by
  refine Vector.ext fun k hk => ?_
  rw [subBytes, Vector.getElem_map, invSubBytes, Vector.getElem_map, getSBoxValue_getSBoxInvert]

theorem cell_shiftRows (state : Block) {i j : Nat} (hi : i < 4) (hj : j < 4) :
    cell (shiftRows state) i j = cell state ((i + j) % 4) j := by
  rw [shiftRows, cell_ofColumns _ hi hj]
  obtain rfl | rfl | rfl | rfl : j = 0 ∨ j = 1 ∨ j = 2 ∨ j = 3 := by omega
  · rw [Nat.add_zero i, Nat.mod_eq_of_lt hi]
    rfl
  all_goals rfl

theorem cell_invShiftRows (state : Block) {i j : Nat} (hi : i < 4) (hj : j < 4) :
    cell (invShiftRows state) i j = cell state ((i + (4 - j)) % 4) j := by
  rw [invShiftRows, cell_ofColumns _ hi hj]
  obtain rfl | rfl | rfl | rfl : j = 0 ∨ j = 1 ∨ j = 2 ∨ j = 3 := by omega
  · rw [Nat.sub_zero, Nat.add_mod_right, Nat.mod_eq_of_lt hi]
    rfl
  all_goals rfl

theorem eq_of_cells {state state' : Block}
    (h : ∀ i j, i < 4 → j < 4 → cell state i j = cell state' i j) : state = state' := by
  rw [← ofColumns_column state, ← ofColumns_column state']
  refine ofColumns_congr fun i hi => ?_
  rw [column, h i 0 hi (by decide), h i 1 hi (by decide), h i 2 hi (by decide),
    h i 3 hi (by decide), column]

theorem invShiftRows_shiftRows (state : Block) : invShiftRows (shiftRows state) = state := by
  refine eq_of_cells fun i j hi hj => ?_
  rw [cell_invShiftRows _ hi hj, cell_shiftRows _ (Nat.mod_lt _ (by decide)) hj]
  congr 1
  omega

theorem shiftRows_invShiftRows (state : Block) : shiftRows (invShiftRows state) = state := by
  refine eq_of_cells fun i j hi hj => ?_
  rw [cell_shiftRows _ hi hj, cell_invShiftRows _ (Nat.mod_lt _ (by decide)) hj]
  congr 1
  omega

theorem addRoundKey_addRoundKey (round : Nat) (state : Block) (roundKey : Bytes) :
    addRoundKey round (addRoundKey round state roundKey) roundKey = state := by
  refine Vector.ext fun k hk => ?_
  simp only [addRoundKey, Vector.getElem_ofFn, Fin.getElem_fin, UInt8.xor_assoc, UInt8.xor_self,
    UInt8.xor_zero]

/-! The rounds. -/

theorem invCipher_cipher (state : Block) (roundKey : Bytes) :
    invCipher (cipher state roundKey) roundKey = state := by
  have hsub (s : Block) : invSubBytes (invShiftRows (shiftRows (subBytes s))) = s := by
    rw [invShiftRows_shiftRows, invSubBytes_subBytes]
  simp only [cipher, invCipher, addRoundKey_addRoundKey]
  -- The last turn of the one loop is not the first of the other.
  rw [BlockModes.foldl_shift (fun s => invSubBytes (invShiftRows s))
    (fun s round => invMixColumns (addRoundKey round s roundKey)), hsub,
    BlockModes.foldl_reverse_foldl, addRoundKey_addRoundKey]
  intro s round
  rw [addRoundKey_addRoundKey, invMixColumns_mixColumns, hsub]

theorem cipher_invCipher (state : Block) (roundKey : Bytes) :
    cipher (invCipher state roundKey) roundKey = state := by
  have hsub (s : Block) : shiftRows (subBytes (invSubBytes (invShiftRows s))) = s := by
    rw [subBytes_invSubBytes, shiftRows_invShiftRows]
  have hturns (s : Block) : (List.range' 1 (Nr - 1)).foldl (fun state round =>
      addRoundKey round (mixColumns (shiftRows (subBytes state))) roundKey)
      ((List.range' 1 (Nr - 1)).reverse.foldl (fun state round =>
        invSubBytes (invShiftRows (invMixColumns (addRoundKey round state roundKey)))) s) = s := by
    have hundo := BlockModes.foldl_reverse_foldl (f := fun state round =>
      invSubBytes (invShiftRows (invMixColumns (addRoundKey round state roundKey))))
      (g := fun state round => addRoundKey round (mixColumns (shiftRows (subBytes state))) roundKey)
      (fun s round => by rw [hsub, mixColumns_invMixColumns, addRoundKey_addRoundKey])
      (List.range' 1 (Nr - 1)).reverse s
    rwa [List.reverse_reverse] at hundo
  simp only [cipher, invCipher, addRoundKey_addRoundKey]
  rw [BlockModes.foldl_shift (fun s => invSubBytes (invShiftRows s))
    (fun s round => invMixColumns (addRoundKey round s roundKey)), hturns, hsub,
    addRoundKey_addRoundKey]

end MxSdk.Aes
