import Mathlib.Data.Fintype.Basic
import Mathlib.Tactic.FinCases
import MxSdk.Lib.Sponge
import MxSdk.Vendor.Keccak

/-! keccak/sha3.c against the permutation by its coordinates and the sponge by its blocks. The
rows are `x`, the columns `y`, and the word of both stands at `5 * y + x`. -/

namespace MxSdk.Keccak

def lane (st : Words) (x y : Nat) : UInt64 := st[5 * (y % 5) + x % 5]?.getD 0

def ofLanes (f : Nat → Nat → UInt64) : Words := Vector.ofFn fun k => f (k.val % 5) (k.val / 5)

def rotate (x : UInt64) (n : Nat) : UInt64 := ⟨x.toBitVec.rotateLeft n⟩

/-- The lanes in the order in which they get their offsets. -/
def walk : Nat → Nat × Nat
  | 0 => (1, 0)
  | t + 1 => ((walk t).2, (2 * (walk t).1 + 3 * (walk t).2) % 5)

def offset (x y : Nat) : Nat :=
  match (List.range 24).find? fun t => walk t = (x, y) with
  | some t => (t + 1) * (t + 2) / 2 % 64
  | none => 0

/-- The register with the feedback `x ^ 8 + x ^ 6 + x ^ 5 + x ^ 4 + 1`. -/
def lfsr : Nat → Nat
  | 0 => 1
  | t + 1 => if 256 ≤ 2 * lfsr t then (2 * lfsr t - 256) ^^^ 0x71 else 2 * lfsr t

def roundConstant (round : Nat) : UInt64 :=
  (List.range 7).foldl (fun rc j =>
    if lfsr (j + 7 * round) % 2 = 1 then rc ||| 1 <<< UInt64.ofNat (2 ^ j - 1) else rc) 0

def parity (st : Words) (x : Nat) : UInt64 :=
  lane st x 0 ^^^ lane st x 1 ^^^ lane st x 2 ^^^ lane st x 3 ^^^ lane st x 4

def thetaLanes (st : Words) : Words :=
  ofLanes fun x y => lane st x y ^^^ (parity st (x + 4) ^^^ rotate (parity st (x + 1)) 1)

/-- The lane `(x, y)` goes to `(y, 2 * x + 3 * y)`. -/
def rhoPiLanes (st : Words) : Words :=
  ofLanes fun x y => rotate (lane st (x + 3 * y) x) (offset ((x + 3 * y) % 5) x)

def chiLanes (st : Words) : Words :=
  ofLanes fun x y => lane st x y ^^^ (~~~ lane st (x + 1) y &&& lane st (x + 2) y)

def iotaLanes (st : Words) (round : Nat) : Words :=
  ofLanes fun x y => if x = 0 ∧ y = 0 then lane st x y ^^^ roundConstant round else lane st x y

def permutation (st : Words) : Words :=
  (List.range 24).foldl (fun st round =>
    iotaLanes (chiLanes (rhoPiLanes (thetaLanes st))) round) st

theorem rndc_eq : rndc = (List.range 24).map roundConstant := by decide +kernel

theorem getElem_ofLanes (f : Nat → Nat → UInt64) {k : Nat} (hk : k < 25) :
    (ofLanes f)[k] = f (k % 5) (k / 5) := Vector.getElem_ofFn hk

theorem lane_self (st : Words) {k : Nat} (hk : k < 25) : lane st (k % 5) (k / 5) = st[k] := by
  have hplace : 5 * (k / 5 % 5) + k % 5 % 5 = k := by omega
  rw [lane, hplace, Vector.getElem?_eq_getElem hk]
  rfl

theorem word_eq_lane (st : Words) {row : Nat} (hrow : row < 5) (i : Nat) :
    word st row i = lane st i row := by
  rw [word, lane, Nat.mod_eq_of_lt hrow]

theorem rotl_eq_rotate (x : UInt64) {n : Nat} (hpos : 0 < n) (hlt : n < 64) :
    rotl x (UInt64.ofNat n) = rotate x n := by
  have hn : (UInt64.ofNat n).toNat = n := UInt64.toNat_ofNat_of_lt' (by rw [UInt64.size]; omega)
  have hrest : (64 - UInt64.ofNat n).toNat = 64 - n := by
    rw [UInt64.toNat_sub_of_le]
    · rw [hn]
      rfl
    · rw [UInt64.le_iff_toNat_le, hn]
      exact hlt.le
  apply UInt64.toBitVec_inj.mp
  rw [rotl, rotate, UInt64.toBitVec_or, UInt64.toBitVec_shiftLeft, UInt64.toBitVec_shiftRight,
    BitVec.rotateLeft_def]
  have hshift : ((UInt64.ofNat n).toBitVec % 64).toNat = n % 64 := by
    rw [BitVec.toNat_umod, UInt64.toNat_toBitVec, hn]
    rfl
  have hshift' : ((64 - UInt64.ofNat n).toBitVec % 64).toNat = 64 - n % 64 := by
    rw [BitVec.toNat_umod, UInt64.toNat_toBitVec, hrest]
    change (64 - n) % 64 = _
    omega
  rw [BitVec.shiftLeft_eq', hshift, BitVec.ushiftRight_eq', hshift']

theorem rotate_zero (x : UInt64) : rotate x 0 = x := by
  have hzero : x.toBitVec >>> 64 = 0 := BitVec.ushiftRight_eq_zero le_rfl
  apply UInt64.toBitVec_inj.mp
  rw [rotate, BitVec.rotateLeft_def, Nat.zero_mod, Nat.sub_zero, hzero, BitVec.shiftLeft_zero]
  exact BitVec.or_zero

theorem theta_eq (st : Words) : theta st = thetaLanes st := by
  refine Vector.ext fun k hk => ?_
  have hparity (i : Nat) : word st 0 i ^^^ word st 1 i ^^^ word st 2 i ^^^ word st 3 i ^^^
      word st 4 i = parity st i := by
    simp only [word_eq_lane st (show 0 < 5 by decide), word_eq_lane st (show 1 < 5 by decide),
      word_eq_lane st (show 2 < 5 by decide), word_eq_lane st (show 3 < 5 by decide),
      word_eq_lane st (show 4 < 5 by decide), parity]
  rw [thetaLanes, getElem_ofLanes _ hk, lane_self st hk, theta, Vector.getElem_ofFn]
  simp only [hparity, Fin.getElem_fin]
  rw [show (1 : UInt64) = UInt64.ofNat 1 from rfl, rotl_eq_rotate _ (by decide) (by decide)]

theorem chi_eq (st : Words) : chi st = chiLanes st := by
  refine Vector.ext fun k hk => ?_
  have hrow : k / 5 < 5 := by omega
  rw [chiLanes, getElem_ofLanes _ hk, lane_self st hk, chi, Vector.getElem_ofFn]
  simp only [word_eq_lane st hrow, Fin.getElem_fin]

theorem iota_eq (st : Words) (round : Nat) :
    iota st (roundConstant round) = iotaLanes st round := by
  refine Vector.ext fun k hk => ?_
  rw [iotaLanes, getElem_ofLanes _ hk, lane_self st hk, iota, Vector.getElem_set]
  by_cases h : 0 = k
  · subst h
    rfl
  · rw [if_neg h, if_neg (by omega)]

/-- What the loop over a cycle writes: every word takes the place of the next. -/
def carried (word : Fin 25 → UInt64) (t : UInt64) :
    List (Fin 25 × UInt64) → List (Fin 25 × UInt64)
  | [] => []
  | (j, r) :: ps => (j, rotl t r) :: carried word (word j) ps

theorem carried_congr {word word' : Fin 25 → UInt64} (t : UInt64) {ps : List (Fin 25 × UInt64)}
    (h : ∀ j ∈ ps.map Prod.fst, word j = word' j) : carried word t ps = carried word' t ps := by
  induction ps generalizing t with
  | nil => rfl
  | cons p ps ih =>
    rw [List.map_cons, List.forall_mem_cons] at h
    rw [carried, carried, h.1, ih _ h.2]

theorem map_fst_carried (word : Fin 25 → UInt64) (t : UInt64) (ps : List (Fin 25 × UInt64)) :
    (carried word t ps).map Prod.fst = ps.map Prod.fst := by
  induction ps generalizing t with
  | nil => rfl
  | cons p ps ih => rw [carried, List.map_cons, List.map_cons, ih]

theorem get_set (st : Words) (j : Fin 25) (v : UInt64) (h : j.val < 25) :
    (st.set j v h).get = Function.update st.get j v := by
  funext k
  rw [Function.update_apply]
  by_cases hk : k = j
  · rw [if_pos hk, hk]
    exact Vector.getElem_set_self h
  · rw [if_neg hk]
    exact Vector.getElem_set_ne h k.isLt fun hsame => hk (Fin.ext hsame.symm)

theorem foldl_carried {step : Words × UInt64 → Fin 25 × UInt64 → Words × UInt64}
    (hstep : ∀ st t j r, (step (st, t) (j, r)).1.get = Function.update st.get j (rotl t r) ∧
      (step (st, t) (j, r)).2 = st.get j)
    (st : Words) (t : UInt64) {ps : List (Fin 25 × UInt64)} (h : (ps.map Prod.fst).Nodup)
    (k : Fin 25) :
    (ps.foldl step (st, t)).1.get k = ((carried st.get t ps).lookup k).getD (st.get k) := by
  induction ps generalizing st t with
  | nil => rfl
  | cons p ps ih =>
    obtain ⟨j, r⟩ := p
    obtain ⟨hset, htaken⟩ := hstep st t j r
    rw [List.map_cons, List.nodup_cons] at h
    have hrest : carried (Function.update st.get j (rotl t r)) (st.get j) ps =
        carried st.get (st.get j) ps := by
      refine carried_congr _ fun i hi => Function.update_of_ne ?_ _ _
      rintro rfl
      exact h.1 hi
    rw [List.foldl_cons]
    refine (ih (step (st, t) (j, r)).1 (step (st, t) (j, r)).2 h.2).trans ?_
    rw [hset, htaken, hrest, carried]
    by_cases hk : k = j
    · have hnone : (carried st.get (st.get j) ps).lookup k = none := by
        rw [List.lookup_eq_none_iff]
        intro q hq
        rw [bne_iff_ne]
        rintro rfl
        have hmem : q.1 ∈ (carried st.get (st.get j) ps).map Prod.fst := List.mem_map_of_mem hq
        rw [map_fst_carried, hk] at hmem
        exact h.1 hmem
      rw [hnone, Option.getD_none, hk, Function.update_self, List.lookup_cons_self, Option.getD_some]
    · rw [Function.update_of_ne hk, List.lookup_cons, beq_eq_false_iff_ne.mpr hk]

theorem lookup_carried (st : Words) (k : Fin 25) (hk : k ≠ 0) :
    (carried st.get (st.get 1) (piln.zip rotc)).lookup k =
      some (rotl (lane st (k.val % 5 + 3 * (k.val / 5)) (k.val % 5))
        (UInt64.ofNat (offset ((k.val % 5 + 3 * (k.val / 5)) % 5) (k.val % 5)))) := by
  fin_cases k
  · exact absurd rfl hk
  all_goals rfl

theorem get_rhoPi (st : Words) (k : Fin 25) :
    (rhoPi st).get k =
      ((carried st.get (st.get 1) (piln.zip rotc)).lookup k).getD (st.get k) := by
  have hnodup : ((piln.zip rotc).map Prod.fst).Nodup := by decide
  rw [rhoPi]
  refine foldl_carried ?_ st (st.get 1) hnodup k
  exact fun st t j r => ⟨get_set st j (rotl t r) j.isLt, rfl⟩

theorem rhoPi_eq (st : Words) : rhoPi st = rhoPiLanes st := by
  refine Vector.ext fun k hk => ?_
  rw [rhoPiLanes, getElem_ofLanes _ hk]
  refine (get_rhoPi st ⟨k, hk⟩).trans ?_
  by_cases hzero : (⟨k, hk⟩ : Fin 25) = 0
  · obtain rfl : k = 0 := congrArg Fin.val hzero
    exact (rotate_zero st[0]).symm
  · have hoffset : ∀ k : Fin 25, k ≠ 0 →
        0 < offset ((k.val % 5 + 3 * (k.val / 5)) % 5) (k.val % 5) ∧
        offset ((k.val % 5 + 3 * (k.val / 5)) % 5) (k.val % 5) < 64 := by decide
    obtain ⟨hpos, hlt⟩ := hoffset _ hzero
    rw [lookup_carried st _ hzero, Option.getD_some, rotl_eq_rotate _ hpos hlt]

theorem keccakf_eq (st : Words) : keccakf st = permutation st := by
  rw [keccakf, rndc_eq, List.foldl_map, permutation]
  simp only [theta_eq, rhoPi_eq, chi_eq, iota_eq]

theorem xorByte_zero (st : Words) (j : Nat) : xorByte st j 0 = st := by
  have hzero : (0 : UInt8).toUInt64 <<< UInt64.ofNat (8 * (j % 8)) = 0 := UInt64.zero_shiftLeft
  rw [xorByte, hzero, UInt64.xor_zero]
  refine Vector.ext fun k hk => ?_
  by_cases hsame : j / 8 = k
  · subst hsame
    rw [Vector.getElem_setIfInBounds_self, Vector.getElem?_eq_getElem hk]
    rfl
  · rw [Vector.getElem_setIfInBounds_ne hk hsame]

theorem xorByte_xorByte (st : Words) (j : Nat) (b c : UInt8) :
    xorByte (xorByte st j b) j c = xorByte st j (b ^^^ c) := by
  refine Vector.ext fun k hk => ?_
  by_cases hsame : j / 8 = k
  · subst hsame
    rw [xorByte, Vector.getElem_setIfInBounds_self, xorByte,
      Vector.getElem?_setIfInBounds_self_of_lt hk, Option.getD_some, xorByte,
      Vector.getElem_setIfInBounds_self, UInt8.toUInt64_xor, UInt64.shiftLeft_xor,
      UInt64.xor_assoc]
  · rw [xorByte, Vector.getElem_setIfInBounds_ne hk hsame, xorByte,
      Vector.getElem_setIfInBounds_ne hk hsame, xorByte, Vector.getElem_setIfInBounds_ne hk hsame]

/-- A block with the rest of a message, and with the bits `1 0 ... 0 1` behind it. -/
def lastBlock (rate : Nat) (rest : Bytes) : Bytes :=
  if rest.length + 1 = rate then rest ++ [0x81]
  else rest ++ [0x01] ++ List.replicate (rate - 2 - rest.length) 0 ++ [0x80]

theorem length_lastBlock {rate : Nat} {rest : Bytes} (h : rest.length < rate) :
    (lastBlock rate rest).length = rate := by
  rw [lastBlock]
  split
  · rw [List.length_append, List.length_singleton]
    omega
  · simp only [List.length_append, List.length_singleton, List.length_replicate]
    omega

variable {rsiz : Nat}

theorem absorb_turn (c : Ctx rsiz) (b : UInt8) :
    ((c.absorb b).st, (c.absorb b).pt) = Sponge.turn keccakf xorByte rsiz (c.st, c.pt) b := by
  rw [Ctx.absorb, Sponge.turn]
  split <;> rfl

theorem update_turn (c : Ctx rsiz) (data : Bytes) : ((c.update data).st, (c.update data).pt) =
    data.foldl (Sponge.turn keccakf xorByte rsiz) (c.st, c.pt) := by
  induction data generalizing c with
  | nil => rfl
  | cons b data ih => rw [List.foldl_cons, ← absorb_turn, ← ih]; rfl

theorem load_lastBlock {rate : Nat} (st : Words) {rest : Bytes} (h : rest.length < rate) :
    Sponge.load xorByte st 0 (lastBlock rate rest) =
      xorByte (xorByte (Sponge.load xorByte st 0 rest) rest.length 0x01) (rate - 1) 0x80 := by
  rw [lastBlock]
  split
  · rename_i hone
    have hplace : rate - 1 = rest.length := by omega
    rw [Sponge.load_append, hplace, xorByte_xorByte, Nat.zero_add]
    rfl
  · rw [Sponge.load_append, Sponge.load_append, Sponge.load_append,
      Sponge.load_of_id fun st j => xorByte_zero st j]
    have hplace : 0 + (rest ++ [(0x01 : UInt8)] ++
        List.replicate (rate - 2 - rest.length) 0).length = rate - 1 := by
      simp only [List.length_append, List.length_singleton, List.length_replicate]
      omega
    rw [hplace, Nat.zero_add]
    rfl

def rate : Nat := 200 - 2 * 32

/-- The hash is that of the sponge: a message is cut into blocks, the last one is filled up, and
one after the other is put into the rate and permuted. -/
theorem sha3Keccak_sponge (message : Bytes) : ∃ (blocks : List Bytes) (rest : Bytes),
    message = blocks.flatten ++ rest ∧
    (∀ block ∈ blocks ++ [lastBlock rate rest], block.length = rate) ∧ rest.length < rate ∧
    sha3Keccak message = (List.range 32).map (byteAt
      ((blocks ++ [lastBlock rate rest]).foldl (Sponge.absorb permutation xorByte)
        (Vector.replicate 25 0))) := by
  obtain ⟨blocks, rest, rfl, hblocks, hrest⟩ := @Sponge.exists_blocks UInt8 rate (by decide) message
  refine ⟨blocks, rest, rfl, fun block hblock => ?_, hrest, ?_⟩
  · rcases List.mem_append.mp hblock with hblock | hblock
    · exact hblocks block hblock
    · rw [List.mem_singleton.mp hblock, length_lastBlock hrest]
  · have hperm : keccakf = permutation := funext keccakf_eq
    have hstate := update_turn (@init rate (by decide)) (blocks.flatten ++ rest)
    rw [init, Sponge.foldl_turn (by decide) _ hblocks hrest] at hstate
    obtain ⟨hst, hpt⟩ := Prod.mk.inj hstate
    rw [List.foldl_append, ← hperm, List.foldl_cons, List.foldl_nil, Sponge.absorb,
      load_lastBlock _ hrest]
    change (Ctx.update (@init rate (by decide)) (blocks.flatten ++ rest)).final 32 = _
    rw [Ctx.final]
    simp only [init, hst, hpt]

end MxSdk.Keccak
