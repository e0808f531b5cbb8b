import MxSdk.Vendor.Aes

/-! The buffers of aes_128_ctr/aes.c as the modes of a cipher. -/

namespace MxSdk.Aes
open BlockModes

theorem ecb_inverse (ctx : Ctx) (buf : Block) :
    ecbDecrypt ctx (ecbEncrypt ctx buf) = buf ∧ ecbEncrypt ctx (ecbDecrypt ctx buf) = buf :=
  ⟨invCipher_cipher buf ctx.roundKey, cipher_invCipher buf ctx.roundKey⟩

set_option maxRecDepth 100000 in
/-- The first block of the header of aes.c. -/
example : ecbEncrypt
      (initCtxIv #v[0x2b, 0x7e, 0x15, 0x16, 0x28, 0xae, 0xd2, 0xa6, 0xab, 0xf7, 0x15, 0x88, 0x09,
        0xcf, 0x4f, 0x3c] (Vector.replicate 16 0))
      #v[0x6b, 0xc1, 0xbe, 0xe2, 0x2e, 0x40, 0x9f, 0x96, 0xe9, 0x3d, 0x7e, 0x11, 0x73, 0x93, 0x17,
        0x2a] =
    #v[0x3a, 0xd7, 0x7b, 0xb4, 0x0d, 0x7a, 0x36, 0x60, 0xa8, 0x9e, 0xca, 0xf3, 0x24, 0x66, 0xef,
      0x97] := by
  decide +kernel

theorem xorWithIv_xorWithIv (buf iv : Block) : xorWithIv (xorWithIv buf iv) iv = buf := by
  refine Vector.ext fun k hk => ?_
  simp only [xorWithIv, Vector.getElem_ofFn, Fin.getElem_fin, UInt8.xor_assoc, UInt8.xor_self,
    UInt8.xor_zero]

theorem cbcEncryptBuffer_eq (ctx : Ctx) (bufs : List Block) : cbcEncryptBuffer ctx bufs =
    ({ ctx with iv := (chain (cipher · ctx.roundKey) xorWithIv ctx.iv bufs).1 },
      (chain (cipher · ctx.roundKey) xorWithIv ctx.iv bufs).2) := by
  induction bufs generalizing ctx with
  | nil => rfl
  | cons buf bufs ih => rw [cbcEncryptBuffer, ih]; rfl

theorem cbcDecryptBuffer_eq (ctx : Ctx) (bufs : List Block) : cbcDecryptBuffer ctx bufs =
    ({ ctx with iv := (unchain (invCipher · ctx.roundKey) xorWithIv ctx.iv bufs).1 },
      (unchain (invCipher · ctx.roundKey) xorWithIv ctx.iv bufs).2) := by
  induction bufs generalizing ctx with
  | nil => rfl
  | cons buf bufs ih => rw [cbcDecryptBuffer, ih]; rfl

/-- Calls one after the other with one context. -/
def calls {T : Type} (call : Ctx → List T → Ctx × List T) (ctx : Ctx) :
    List (List T) → Ctx × List T
  | [] => (ctx, [])
  | buf :: bufs =>
    let first := call ctx buf
    let rest := calls call first.1 bufs
    (rest.1, first.2 ++ rest.2)

theorem calls_eq {T : Type} {call : Ctx → List T → Ctx × List T}
    (hnil : ∀ ctx, call ctx [] = (ctx, []))
    (happend : ∀ ctx buf rest, call ctx (buf ++ rest) =
      ((call (call ctx buf).1 rest).1, (call ctx buf).2 ++ (call (call ctx buf).1 rest).2))
    (ctx : Ctx) (bufs : List (List T)) : calls call ctx bufs = call ctx bufs.flatten := by
  induction bufs generalizing ctx with
  | nil => exact (hnil ctx).symm
  | cons buf bufs ih => rw [List.flatten_cons, happend, calls, ih]

theorem calls_cbcEncryptBuffer (ctx : Ctx) (bufs : List (List Block)) :
    calls cbcEncryptBuffer ctx bufs = cbcEncryptBuffer ctx bufs.flatten :=
  @calls_eq Block cbcEncryptBuffer (fun _ => rfl)
    (fun ctx buf rest => by simp only [cbcEncryptBuffer_eq, chain_append]) ctx bufs

theorem calls_cbcDecryptBuffer (ctx : Ctx) (bufs : List (List Block)) :
    calls cbcDecryptBuffer ctx bufs = cbcDecryptBuffer ctx bufs.flatten :=
  @calls_eq Block cbcDecryptBuffer (fun _ => rfl)
    (fun ctx buf rest => by simp only [cbcDecryptBuffer_eq, unchain_append]) ctx bufs

/-- A text is decrypted to what was encrypted, however each was cut into calls. -/
theorem cbc_calls (ctx : Ctx) (bufs cut : List (List Block)) :
    cut.flatten = (calls cbcEncryptBuffer ctx bufs).2 →
    calls cbcDecryptBuffer ctx cut = ((calls cbcEncryptBuffer ctx bufs).1, bufs.flatten) := by
  intro hcut
  rw [calls_cbcEncryptBuffer, cbcEncryptBuffer_eq] at hcut ⊢
  rw [calls_cbcDecryptBuffer, cbcDecryptBuffer_eq, hcut,
    unchain_chain xorWithIv_xorWithIv fun b => invCipher_cipher b ctx.roundKey]

theorem cbc_calls_two : ∃ (a b : Block) (ctx : Ctx), a ≠ b ∧
    calls cbcDecryptBuffer ctx [(calls cbcEncryptBuffer ctx [[a], [b]]).2] =
      ((calls cbcEncryptBuffer ctx [[a], [b]]).1, [a, b]) := by
  refine ⟨Vector.replicate 16 0, Vector.replicate 16 1,
    initCtxIv (Vector.replicate 16 2) (Vector.replicate 16 3), by decide, ?_⟩
  exact cbc_calls _ [[Vector.replicate 16 0], [Vector.replicate 16 1]] _ List.flatten_singleton

def next (iv : Block) : Block := increment iv blockLen

def streamByte (roundKey : Bytes) (iv : Block) (j : Nat) : UInt8 :=
  (cipher iv roundKey)[j]?.getD 0

theorem increment_behind (iv : Block) {n j : Nat} (hj : n ≤ j) : (increment iv n)[j]? = iv[j]? := by
  induction n generalizing iv with
  | zero => rfl
  | succ n ih =>
    rw [increment]
    split
    · rw [ih _ (by omega), Vector.getElem?_setIfInBounds_ne (by omega)]
    · rw [Vector.getElem?_setIfInBounds_ne (by omega)]

theorem value_take_succ (iv : Block) {n : Nat} (hn : n < 16) :
    BigEndian.value (iv.toList.take (n + 1)) =
      256 * BigEndian.value (iv.toList.take n) + (iv[n]?.getD 0).toNat := by
  have hbyte : iv.toList[n]? = some (iv[n]?.getD 0) := by
    rw [Vector.getElem?_toList, Vector.getElem?_eq_getElem hn]
    rfl
  rw [List.take_add_one, hbyte, Option.toList_some, BigEndian.value_append_singleton]

theorem take_setIfInBounds (iv : Block) (n : Nat) (b : UInt8) :
    (iv.setIfInBounds n b).toList.take n = iv.toList.take n := by
  rw [Vector.toList_setIfInBounds, List.take_set_of_le le_rfl]

theorem getD_setIfInBounds (iv : Block) {n : Nat} (hn : n < 16) (b : UInt8) :
    (iv.setIfInBounds n b)[n]?.getD 0 = b := by
  rw [Vector.getElem?_setIfInBounds_self_of_lt hn]
  rfl

theorem value_increment (iv : Block) {n : Nat} (hn : n ≤ 16) :
    BigEndian.value ((increment iv n).toList.take n) =
      (BigEndian.value (iv.toList.take n) + 1) % 256 ^ n := by
  induction n generalizing iv with
  | zero => simp [BigEndian.value]
  | succ n ih =>
    have hlt := BigEndian.value_lt (iv.toList.take n)
    rw [List.length_take, Vector.length_toList, Nat.min_eq_left (by omega)] at hlt
    rw [value_take_succ _ hn, value_take_succ _ hn, increment, Nat.pow_succ']
    split
    · rename_i hbyte
      rw [ih _ (by omega), increment_behind _ le_rfl, getD_setIfInBounds _ hn,
        take_setIfInBounds, hbyte, ← Nat.mul_mod_mul_left]
      rfl
    · rename_i hbyte
      have hsmall : (iv[n]?.getD 0).toNat < 255 := by
        have hle := (iv[n]?.getD 0).toNat_lt
        have hne : (iv[n]?.getD 0).toNat ≠ 255 := fun h => hbyte (UInt8.toNat_inj.mp h)
        omega
      have hadd : (iv[n]?.getD 0 + 1).toNat = (iv[n]?.getD 0).toNat + 1 := by
        rw [UInt8.toNat_add, UInt8.toNat_one]
        omega
      rw [getD_setIfInBounds _ hn, take_setIfInBounds, hadd, Nat.mod_eq_of_lt (by omega)]
      rfl

theorem value_next (iv : Block) :
    BigEndian.value (next iv).toList = (BigEndian.value iv.toList + 1) % 2 ^ 128 := by
  have htake (b : Block) : b.toList.take 16 = b.toList :=
    List.take_of_length_le (Nat.le_of_eq Vector.length_toList)
  have hvalue := value_increment iv (n := 16) le_rfl
  rw [htake, htake] at hvalue
  exact hvalue

theorem value_lt (iv : Block) : BigEndian.value iv.toList < 2 ^ 128 := by
  have hlt := BigEndian.value_lt iv.toList
  rwa [Vector.length_toList, show 256 ^ 16 = 2 ^ 128 by decide] at hlt

section Counter
variable {roundKey : Bytes} {iv : Block}

/-- The stream before the byte at place `i`, where `k` blocks of it were made. -/
structure At (roundKey : Bytes) (iv : Block) (i k : Nat) (s : Stream) : Prop where
  counter : s.iv = next^[k] iv
  place : i + 16 = 16 * k + s.bi
  pos : 0 < s.bi
  le : s.bi ≤ 16
  buffer : s.bi < 16 → s.buffer = cipher (next^[i / 16] iv) roundKey

theorem refill_of_full {s : Stream} (h : s.bi = 16) :
    s.refill roundKey = ⟨next s.iv, cipher s.iv roundKey, 0⟩ := if_pos h

theorem refill_of_rest {s : Stream} (h : s.bi ≠ 16) : s.refill roundKey = s := if_neg h

theorem At.step {i k : Nat} {s : Stream} (h : At roundKey iv i k s) :
    (s.refill roundKey).buffer[(s.refill roundKey).bi]?.getD 0 =
        symbol (streamByte roundKey) next 16 iv i ∧
      ∃ k', At roundKey iv (i + 1) k'
        { s.refill roundKey with bi := (s.refill roundKey).bi + 1 } := by
  obtain ⟨hcounter, hplace, hpos, hle, hbuffer⟩ := h
  by_cases hfull : s.bi = 16
  · -- A new block begins.
    have hdiv : i / 16 = k := by omega
    have hmod : i % 16 = 0 := by omega
    have hdiv' : (i + 1) / 16 = k := by omega
    rw [refill_of_full hfull, symbol, hdiv, hmod, hcounter]
    refine ⟨rfl, k + 1, ?_⟩
    constructor
    · exact (Function.iterate_succ_apply' next k iv).symm
    · change i + 1 + 16 = 16 * (k + 1) + (0 + 1)
      omega
    · exact Nat.one_pos
    · change 0 + 1 ≤ 16
      decide
    · intro _
      rw [hdiv']
  · have hmod : i % 16 = s.bi := by omega
    rw [refill_of_rest hfull, symbol, hmod, hbuffer (by omega)]
    refine ⟨rfl, k, ?_⟩
    constructor
    · exact hcounter
    · change i + 1 + 16 = 16 * k + (s.bi + 1)
      omega
    · exact Nat.succ_pos _
    · change s.bi + 1 ≤ 16
      omega
    · intro hlt
      have hdiv : (i + 1) / 16 = i / 16 := by
        change s.bi + 1 < 16 at hlt
        omega
      rw [hdiv]
      exact hbuffer (by omega)

theorem xcryptBytes_eq {i k : Nat} {s : Stream} (h : At roundKey iv i k s) (buf : Bytes) :
    (xcryptBytes roundKey s buf).2 =
        buf.mapIdx (fun j b => b ^^^ symbol (streamByte roundKey) next 16 iv (j + i)) ∧
      ∃ k', At roundKey iv (i + buf.length) k' (xcryptBytes roundKey s buf).1 := by
  induction buf generalizing s i k with
  | nil => exact ⟨rfl, k, h⟩
  | cons b buf ih =>
    obtain ⟨hbyte, k', hnext⟩ := h.step
    obtain ⟨hrest, k'', hlast⟩ := ih hnext
    rw [xcryptBytes]
    refine ⟨?_, k'', ?_⟩
    · rw [List.mapIdx_cons]
      simp only [hbyte, hrest, Nat.zero_add]
      congr 2
      funext j b
      rw [Nat.add_right_comm, Nat.add_assoc]
    · rw [List.length_cons, Nat.add_comm buf.length, ← Nat.add_assoc]
      exact hlast

end Counter

theorem xor_xor (a b : UInt8) : a ^^^ b ^^^ b = a := by
  rw [UInt8.xor_assoc, UInt8.xor_self, UInt8.xor_zero]

/-- As many blocks as a text of `n` bytes begins. -/
def blocksOf (n : Nat) : Nat := (n + 15) / 16

theorem ctrXcryptBuffer_eq (ctx : Ctx) (buf : Bytes) : ctrXcryptBuffer ctx buf =
    ({ ctx with iv := next^[blocksOf buf.length] ctx.iv },
      xcrypt (streamByte ctx.roundKey) next 16 (· ^^^ ·) ctx.iv buf) := by
  have hstart : At ctx.roundKey ctx.iv 0 0 ⟨ctx.iv, Vector.replicate 16 0, blockLen⟩ :=
    ⟨rfl, rfl, Nat.succ_pos 15, le_rfl, fun h => absurd h (Nat.lt_irrefl 16)⟩
  obtain ⟨hbytes, k, hlast⟩ := xcryptBytes_eq hstart buf
  have hk : k = blocksOf buf.length := by
    have hplace := hlast.place
    have hle := hlast.le
    have hpos := hlast.pos
    rw [blocksOf]
    omega
  rw [ctrXcryptBuffer]
  simp only [hbytes, hlast.counter, hk]
  rfl

theorem ctr_append (ctx : Ctx) {buf : Bytes} {k : Nat} (hbuf : buf.length = 16 * k)
    (rest : Bytes) : ctrXcryptBuffer ctx (buf ++ rest) =
      ((ctrXcryptBuffer (ctrXcryptBuffer ctx buf).1 rest).1,
        (ctrXcryptBuffer ctx buf).2 ++ (ctrXcryptBuffer (ctrXcryptBuffer ctx buf).1 rest).2) := by
  have hk : blocksOf buf.length = k := by rw [blocksOf]; omega
  have hboth : blocksOf (buf ++ rest).length = blocksOf rest.length + k := by
    rw [blocksOf, blocksOf, List.length_append]
    omega
  simp only [ctrXcryptBuffer_eq, hk, hboth, Function.iterate_add_apply,
    xcrypt_append (by decide) ctx.iv hbuf rest]

theorem length_flatMap_toList (bufs : List Block) :
    (bufs.flatMap Vector.toList).length = 16 * bufs.length := by
  induction bufs with
  | nil => rfl
  | cons buf bufs ih =>
    rw [List.flatMap_cons, List.length_append, ih, Vector.length_toList, List.length_cons]
    omega

theorem calls_ctrXcryptBuffer (ctx : Ctx) (bufs : List (List Block)) (rest : Bytes) :
    calls ctrXcryptBuffer ctx (bufs.map (·.flatMap Vector.toList) ++ [rest]) =
      ctrXcryptBuffer ctx ((bufs.map (·.flatMap Vector.toList)).flatten ++ rest) := by
  induction bufs generalizing ctx with
  | nil => simp only [List.map_nil, List.nil_append, List.flatten_nil, calls, List.append_nil]
  | cons buf bufs ih =>
    rw [List.map_cons, List.cons_append, calls, ih, List.flatten_cons, List.append_assoc,
      ctr_append ctx (length_flatMap_toList buf)]

theorem ctrXcryptBuffer_ctrXcryptBuffer (ctx : Ctx) (buf : Bytes) :
    (ctrXcryptBuffer ctx (ctrXcryptBuffer ctx buf).2).2 = buf := by
  simp only [ctrXcryptBuffer_eq, xcrypt_xcrypt xor_xor]

theorem cipher_inj {a b : Block} {roundKey : Bytes} (h : cipher a roundKey = cipher b roundKey) :
    a = b := by
  have hturned := congrArg (invCipher · roundKey) h
  simpa only [invCipher_cipher] using hturned

theorem ctr_stream (ctx : Ctx) (buf : Bytes) (bufs : List (List Block)) (rest : Bytes) :
    (ctrXcryptBuffer ctx buf).2 =
      buf.mapIdx (fun i b =>
        b ^^^ (cipher (next^[i / 16] ctx.iv) ctx.roundKey)[i % 16]?.getD 0) ∧
    (∀ k, BigEndian.value (next^[k] ctx.iv).toList =
      (BigEndian.value ctx.iv.toList + k) % 2 ^ 128) ∧
    (∀ j k, j < 2 ^ 128 → k < 2 ^ 128 →
      cipher (next^[j] ctx.iv) ctx.roundKey = cipher (next^[k] ctx.iv) ctx.roundKey → j = k) ∧
    (ctrXcryptBuffer ctx (ctrXcryptBuffer ctx buf).2).2 = buf ∧
    calls ctrXcryptBuffer ctx (bufs.map (·.flatMap Vector.toList) ++ [rest]) =
      ctrXcryptBuffer ctx ((bufs.map (·.flatMap Vector.toList)).flatten ++ rest) := by
  refine ⟨?_, value_iterate value_next value_lt ctx.iv, fun j k hj hk hsame => ?_, ?_, ?_⟩
  · rw [ctrXcryptBuffer_eq]
    rfl
  · exact iterate_inj value_next value_lt ctx.iv hj hk (cipher_inj hsame)
  · exact ctrXcryptBuffer_ctrXcryptBuffer ctx buf
  · exact calls_ctrXcryptBuffer ctx bufs rest

end MxSdk.Aes
