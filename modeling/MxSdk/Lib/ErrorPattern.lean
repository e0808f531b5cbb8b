import MxSdk.Lib.Superposition
import Mathlib.Data.List.Iterate
import Mathlib.Dynamics.PeriodicPts.Defs

/-! Wrong symbols in the stream of a linear register. Two streams with one result differ in
places whose symbols cancel once they have travelled to the end. Where a scaling commutes
with the turn, the first of them may be taken for one fixed symbol, and `beyond` does not
see the last. So the patterns of up to four places are excluded by a finite table. -/

namespace MxSdk.ErrorPattern

section Words
variable {w : Nat} {f g : BitVec w → BitVec w} (hf : ∀ a b, f (a ^^^ b) = f a ^^^ f b)
  (hg : ∀ a b, g (a ^^^ b) = g a ^^^ g b)
include hf

theorem map_zero : f 0#w = 0#w := by
  have h := hf 0#w 0#w
  rw [BitVec.xor_self] at h
  exact h.trans BitVec.xor_self

include hg

theorem funext_of_twoPow (h : ∀ i < w, f (BitVec.twoPow w i) = g (BitVec.twoPow w i)) : f = g := by
  have below (n : Nat) (hn : n ≤ w) : ∀ a : BitVec w, a.toNat < 2 ^ n → f a = g a := by
    induction n with
    | zero =>
      intro a ha
      have hzero : a = 0#w := BitVec.eq_of_toNat_eq (by simpa using ha)
      rw [hzero, map_zero hf, map_zero hg]
    | succ n ih =>
      intro a ha
      by_cases hbit : a.getLsbD n
      · have hrest : (a ^^^ BitVec.twoPow w n).toNat < 2 ^ n := by
          refine Nat.lt_pow_two_of_testBit _ fun i hi => ?_
          rw [BitVec.testBit_toNat, BitVec.getLsbD_xor, BitVec.getLsbD_twoPow]
          rcases hi.eq_or_lt with rfl | hlt
          · simp [hbit]
            omega
          · have hpow : 2 ^ (n + 1) ≤ 2 ^ i := Nat.pow_le_pow_right (by decide) hlt
            rw [← BitVec.testBit_toNat, Nat.testBit_lt_two_pow (ha.trans_le hpow)]
            simp [hlt.ne]
        have hsplit : a = (a ^^^ BitVec.twoPow w n) ^^^ BitVec.twoPow w n := by
          rw [BitVec.xor_assoc, BitVec.xor_self, BitVec.xor_zero]
        rw [hsplit, hf, hg, ih (by omega) _ hrest, h n (by omega)]
      · refine ih (by omega) a (Nat.lt_pow_two_of_testBit _ fun i hi => ?_)
        rcases hi.eq_or_lt with rfl | hlt
        · rw [BitVec.testBit_toNat]
          simpa using hbit
        · have hpow : 2 ^ (n + 1) ≤ 2 ^ i := Nat.pow_le_pow_right (by decide) hlt
          exact Nat.testBit_lt_two_pow (ha.trans_le hpow)
  exact funext fun a => below w le_rfl a a.isLt

end Words

section Mismatches
variable {S : Type*} [DecidableEq S]

def mismatches (s t : List S) : Nat := (s.zip t).countP fun p => p.1 ≠ p.2

@[simp] theorem mismatches_nil : mismatches ([] : List S) [] = 0 := rfl

theorem mismatches_cons (x y : S) (s t : List S) :
    mismatches (x :: s) (y :: t) = mismatches s t + if x = y then 0 else 1 := by
  simp [mismatches, List.countP_cons]

theorem mismatches_append (p s t : List S) : mismatches (p ++ s) (p ++ t) = mismatches s t := by
  induction p with
  | nil => rfl
  | cons x p ih => simp [mismatches_cons, ih]

theorem mismatches_map_le {S' : Type*} [DecidableEq S'] (f : S → S') (s t : List S) :
    mismatches (s.map f) (t.map f) ≤ mismatches s t := by
  rw [mismatches, List.zip_map, List.countP_map, mismatches]
  refine List.countP_mono_left fun p _ hp => ?_
  simp only [Function.comp_apply, Prod.map_fst, Prod.map_snd, decide_eq_true_eq] at hp ⊢
  exact fun h => hp (congrArg f h)

theorem mismatches_map {S' : Type*} [DecidableEq S'] {f : S → S'} {s t : List S}
    (hf : ∀ x ∈ s, ∀ y ∈ t, f x = f y → x = y) :
    mismatches s t ≤ mismatches (s.map f) (t.map f) := by
  rw [mismatches, mismatches, List.zip_map, List.countP_map]
  refine List.countP_mono_left fun p hp hne => ?_
  obtain ⟨hx, hy⟩ := List.of_mem_zip hp
  simp only [Function.comp_apply, Prod.map_fst, Prod.map_snd, decide_eq_true_eq] at hne ⊢
  exact fun h => hne (hf _ hx _ hy h)

end Mismatches

variable {w : Nat}

/-- What the places of a pattern come to. A place is given by the number of symbols
after it. -/
def total (T : BitVec w → BitVec w) (es : List (Nat × BitVec w)) : BitVec w :=
  (es.map fun e => T^[e.1] e.2).foldr (· ^^^ ·) 0#w

section Places
variable {T : BitVec w → BitVec w}

@[simp] theorem total_nil : total T [] = 0#w := rfl

@[simp] theorem total_cons (e : Nat × BitVec w) (es : List (Nat × BitVec w)) :
    total T (e :: es) = T^[e.1] e.2 ^^^ total T es := rfl

theorem total_concat (es : List (Nat × BitVec w)) (e : Nat × BitVec w) :
    total T (es ++ [e]) = total T es ^^^ T^[e.1] e.2 := by
  induction es with
  | nil => simp
  | cons x es ih => rw [List.cons_append, total_cons, ih, total_cons, BitVec.xor_assoc]

variable {S : Type*} [DecidableEq S] (inject : S → BitVec w)

def places : List S → List S → List (Nat × BitVec w)
  | v :: vs, v' :: vs' =>
    if v = v' then places vs vs' else (vs.length, inject v ^^^ inject v') :: places vs vs'
  | _, _ => []

theorem length_places : ∀ vs vs' : List S, (places inject vs vs').length = mismatches vs vs'
  | [], _ => rfl
  | _ :: _, [] => rfl
  | v :: vs, v' :: vs' => by
    rw [places, mismatches_cons, ← length_places vs vs']
    split <;> simp

variable {inject} {vs vs' : List S} (hlen : vs.length = vs'.length)

theorem places_lt {e : Nat × BitVec w} (he : e ∈ places inject vs vs') : e.1 < vs.length := by
  induction vs generalizing vs' with
  | nil => simp [places] at he
  | cons v vs ih =>
    cases vs' with
    | nil => simp [places] at he
    | cons v' vs' =>
      rw [List.length_cons]
      rw [places] at he
      split at he
      · exact (ih he).trans (by omega)
      · rcases List.mem_cons.mp he with rfl | hmem
        · exact Nat.lt_succ_self _
        · exact (ih hmem).trans (by omega)

theorem places_pairwise : (places inject vs vs').Pairwise fun e e' => e'.1 < e.1 := by
  induction vs generalizing vs' with
  | nil => exact List.Pairwise.nil
  | cons v vs ih =>
    cases vs' with
    | nil => exact List.Pairwise.nil
    | cons v' vs' =>
      rw [places]
      split
      · exact ih
      · exact List.pairwise_cons.mpr ⟨fun e he => places_lt he, ih⟩

theorem places_symbol {e : Nat × BitVec w} (he : e ∈ places inject vs vs') :
    ∃ v ∈ vs, ∃ v' ∈ vs', v ≠ v' ∧ e.2 = inject v ^^^ inject v' := by
  induction vs generalizing vs' with
  | nil => simp [places] at he
  | cons v vs ih =>
    cases vs' with
    | nil => simp [places] at he
    | cons v' vs' =>
      have hrest (hmem : e ∈ places inject vs vs') :
          ∃ x ∈ v :: vs, ∃ x' ∈ v' :: vs', x ≠ x' ∧ e.2 = inject x ^^^ inject x' := by
        obtain ⟨x, hx, x', hx', h⟩ := ih hmem
        exact ⟨x, .tail _ hx, x', .tail _ hx', h⟩
      rw [places] at he
      split at he
      · exact hrest he
      · next hne =>
        rcases List.mem_cons.mp he with rfl | hmem
        · exact ⟨v, .head _, v', .head _, hne, rfl⟩
        · exact hrest hmem

include hlen

theorem eq_of_places (h : places inject vs vs' = []) : vs = vs' := by
  induction vs generalizing vs' with
  | nil => exact (List.length_eq_zero_iff.mp hlen.symm).symm
  | cons v vs ih =>
    cases vs' with
    | nil => cases hlen
    | cons v' vs' =>
      rw [places] at h
      split at h
      · next heq => rw [heq, ih (Nat.succ.inj hlen) h]
      · cases h

/-- Two runs differ by the registers and by the places, each on its own. -/
theorem run_xor_run (hT : ∀ a b, T (a ^^^ b) = T a ^^^ T b) (c c' : BitVec w) :
    Superposition.run (· ^^^ ·) T inject c vs ^^^ Superposition.run (· ^^^ ·) T inject c' vs' =
      T^[vs.length] (c ^^^ c') ^^^ total T (places inject vs vs') := by
  induction vs generalizing vs' c c' with
  | nil =>
    rw [List.length_eq_zero_iff.mp hlen.symm]
    simp [places]
  | cons v vs ih =>
    cases vs' with
    | nil => cases hlen
    | cons v' vs' =>
      have hturn : (T c ^^^ inject v) ^^^ (T c' ^^^ inject v') =
          T (c ^^^ c') ^^^ (inject v ^^^ inject v') := by
        rw [hT]
        ac_rfl
      rw [Superposition.run_cons, Superposition.run_cons, ih (Nat.succ.inj hlen), hturn,
        Superposition.iterate_op hT, List.length_cons, Function.iterate_succ_apply, places]
      split
      · next heq =>
        rw [heq, BitVec.xor_self, Function.iterate_fixed (map_zero hT), BitVec.xor_zero]
      · rw [total_cons, BitVec.xor_assoc]

end Places

/-- A linear register whose symbols are the scalings of one of them. -/
structure Register (w : Nat) where
  turn : BitVec w → BitVec w
  turn_xor : ∀ a b, turn (a ^^^ b) = turn a ^^^ turn b
  /-- The values the register can hold. -/
  Held : BitVec w → Prop
  held_turn : ∀ a, Held (turn a)
  held_xor : ∀ a b, Held a → Held b → Held (a ^^^ b)
  turn_inj : ∀ a b, Held a → Held b → turn a = turn b → a = b
  scale : BitVec w → BitVec w
  scale_xor : ∀ a b, scale (a ^^^ b) = scale a ^^^ scale b
  scale_turn : Function.Commute scale turn
  one : BitVec w
  one_ne : one ≠ 0#w
  period : Nat
  period_pos : 0 < period
  periodic : Function.IsPeriodicPt scale period one
  held_scale : ∀ k < period, Held (scale^[k] one)
  /-- The part of the register that the last symbol does not reach. -/
  beyond : BitVec w → BitVec w
  beyond_xor : ∀ a b, beyond (a ^^^ b) = beyond a ^^^ beyond b
  beyond_scale : ∀ k < period, beyond (scale^[k] one) = 0#w

namespace Register
variable (R : Register w)

def Symbol (a : BitVec w) : Prop := ∃ k < R.period, R.scale^[k] R.one = a

/-- What shows of the symbols after `d` turns. -/
def row (d : Nat) : List (BitVec w) :=
  (List.iterate R.scale (R.turn^[d] R.one) R.period).map R.beyond

/-- Up to four places less than `n` turns apart show. -/
structure Separates (n : Nat) : Prop where
  two : ∀ d, 0 < d → d < n → R.beyond (R.turn^[d] R.one) ≠ 0#w
  three : ∀ e d, 0 < e → e < d → d < n → ∀ x ∈ R.row e, R.beyond (R.turn^[d] R.one) ^^^ x ≠ 0#w
  four : ∀ e d, 0 < e → e < d → d < n → ∀ x ∈ R.row e, ∀ c, 0 < c → c < n →
    R.beyond (R.turn^[d] R.one) ^^^ x ∉ R.row c

variable {R}

theorem Symbol.scale {a : BitVec w} (h : R.Symbol a) (k : Nat) : R.Symbol (R.scale^[k] a) := by
  obtain ⟨j, -, rfl⟩ := h
  refine ⟨(k + j) % R.period, Nat.mod_lt _ R.period_pos, ?_⟩
  rw [R.periodic.iterate_mod_apply, Function.iterate_add_apply]

theorem Symbol.exists_one {a : BitVec w} (h : R.Symbol a) : ∃ k, R.scale^[k] a = R.one := by
  obtain ⟨j, hj, rfl⟩ := h
  refine ⟨R.period - j, ?_⟩
  rw [← Function.iterate_add_apply, Nat.sub_add_cancel hj.le]
  exact R.periodic

theorem Symbol.held {a : BitVec w} (h : R.Symbol a) : R.Held a := by
  obtain ⟨k, hk, rfl⟩ := h
  exact R.held_scale k hk

theorem Symbol.beyond {a : BitVec w} (h : R.Symbol a) : R.beyond a = 0#w := by
  obtain ⟨k, hk, rfl⟩ := h
  exact R.beyond_scale k hk

theorem Symbol.ne_zero {a : BitVec w} (h : R.Symbol a) : a ≠ 0#w := by
  rintro rfl
  obtain ⟨k, hk⟩ := h.exists_one
  rw [Function.iterate_fixed (map_zero R.scale_xor)] at hk
  exact R.one_ne hk.symm

theorem Symbol.mem_row {a : BitVec w} (h : R.Symbol a) (d : Nat) :
    R.beyond (R.turn^[d] a) ∈ R.row d := by
  obtain ⟨k, hk, rfl⟩ := h
  have hcomm : R.turn^[d] (R.scale^[k] R.one) = R.scale^[k] (R.turn^[d] R.one) :=
    ((R.scale_turn.iterate_iterate k d).eq R.one).symm
  rw [hcomm]
  exact List.mem_map_of_mem (List.mem_iterate.mpr ⟨k, hk, rfl⟩)

theorem iterate_turn_inj (n : Nat) {a b : BitVec w} (ha : R.Held a) (hb : R.Held b)
    (h : R.turn^[n] a = R.turn^[n] b) : a = b := by
  induction n generalizing a b with
  | zero => exact h
  | succ n ih => exact R.turn_inj a b ha hb (ih (R.held_turn a) (R.held_turn b) h)

abbrev Pattern (w : Nat) := List (Nat × BitVec w)

/-- The places as they stand `d` symbols earlier. -/
def lower (d : Nat) (es : Pattern w) : Pattern w := es.map fun e => (e.1 - d, e.2)

variable (R) in
def rescale (k : Nat) (es : Pattern w) : Pattern w := es.map fun e => (e.1, R.scale^[k] e.2)

theorem total_lower {d : Nat} {es : Pattern w} (h : ∀ e ∈ es, d ≤ e.1) :
    R.turn^[d] (total R.turn (lower d es)) = total R.turn es := by
  induction es with
  | nil => exact Function.iterate_fixed (map_zero R.turn_xor) d
  | cons e es ih =>
    have hd : d ≤ e.1 := h e (List.mem_cons_self ..)
    have hes : ∀ x ∈ es, d ≤ x.1 := fun x hx => h x (List.mem_cons_of_mem _ hx)
    have hcons : lower d (e :: es) = (e.1 - d, e.2) :: lower d es := rfl
    rw [hcons, total_cons, total_cons, Superposition.iterate_op R.turn_xor, ih hes,
      ← Function.iterate_add_apply, Nat.add_sub_cancel' hd]

theorem total_rescale (k : Nat) (es : Pattern w) :
    total R.turn (R.rescale k es) = R.scale^[k] (total R.turn es) := by
  induction es with
  | nil => exact (Function.iterate_fixed (map_zero R.scale_xor) k).symm
  | cons e es ih =>
    have hcons : R.rescale k (e :: es) = (e.1, R.scale^[k] e.2) :: R.rescale k es := rfl
    have hcomm : R.turn^[e.1] (R.scale^[k] e.2) = R.scale^[k] (R.turn^[e.1] e.2) :=
      ((R.scale_turn.iterate_iterate k e.1).eq e.2).symm
    rw [hcons, total_cons, total_cons, Superposition.iterate_op R.scale_xor, ih, hcomm]

theorem held_total {es : Pattern w} (h : ∀ e ∈ es, 0 < e.1) : R.Held (total R.turn es) := by
  induction es with
  | nil =>
    have hzero := R.held_turn 0#w
    rwa [map_zero R.turn_xor] at hzero
  | cons e es ih =>
    obtain ⟨n, hn⟩ : ∃ n, e.1 = n + 1 := Nat.exists_eq_succ_of_ne_zero (h e (.head _)).ne'
    rw [total_cons, hn, Function.iterate_succ_apply']
    exact R.held_xor _ _ (R.held_turn _) (ih fun x hx => h x (.tail _ hx))

theorem total_of_concat {es : Pattern w} {e : Nat × BitVec w} (hes : ∀ x ∈ es, e.1 < x.1)
    (hsymbol : R.Symbol e.2) (h : total R.turn (es ++ [e]) = 0#w) :
    total R.turn (lower e.1 es) = e.2 := by
  rw [total_concat, BitVec.xor_eq_zero_iff, ← total_lower fun x hx => (hes x hx).le] at h
  refine iterate_turn_inj e.1 (held_total fun x hx => ?_) hsymbol.held h
  obtain ⟨y, hy, rfl⟩ := List.mem_map.mp hx
  exact Nat.sub_pos_of_lt (hes y hy)

theorem exists_beyond {d : Nat} {a : BitVec w} {es : Pattern w} {e : Nat × BitVec w}
    (ha : R.Symbol a) (hes : ∀ x ∈ (d, a) :: es, e.1 < x.1) (hsymbol : R.Symbol e.2)
    (h : total R.turn ((d, a) :: es ++ [e]) = 0#w) :
    ∃ k, R.beyond (total R.turn ((d - e.1, R.one) :: lower e.1 (R.rescale k es))) = 0#w := by
  obtain ⟨k, hk⟩ := ha.exists_one
  refine ⟨k, ?_⟩
  have htotal := total_of_concat hes hsymbol h
  have hpattern : (d - e.1, R.one) :: lower e.1 (R.rescale k es) =
      R.rescale k (lower e.1 ((d, a) :: es)) := by
    simp [lower, rescale, hk]
  rw [hpattern, total_rescale, htotal]
  exact (hsymbol.scale k).beyond

theorem Separates.total_ne {n : Nat} (hR : R.Separates n) {d : Nat} (hd : d < n)
    {es : Pattern w} (hes : ∀ e ∈ es, 0 < e.1 ∧ e.1 < d ∧ R.Symbol e.2) (hpos : 0 < d)
    (hlen : es.length ≤ 2) : R.beyond (total R.turn ((d, R.one) :: es)) ≠ 0#w := by
  have hrow (e : Nat × BitVec w) (he : R.Symbol e.2) := he.mem_row e.1
  match es with
  | [] =>
    simpa using hR.two d hpos hd
  | [e] =>
    obtain ⟨he, hed, hsymbol⟩ := hes e (by simp)
    simpa [R.beyond_xor] using hR.three e.1 d he hed hd _ (hrow e hsymbol)
  | [e, e'] =>
    obtain ⟨he, hed, hsymbol⟩ := hes e (by simp)
    obtain ⟨he', hed', hsymbol'⟩ := hes e' (by simp)
    have hfour := hR.four e.1 d he hed hd _ (hrow e hsymbol) e'.1 he' (hed'.trans hd)
    intro hzero
    simp only [total_cons, total_nil, BitVec.xor_zero, R.beyond_xor, ← BitVec.xor_assoc] at hzero
    rw [BitVec.xor_eq_zero_iff.mp hzero] at hfour
    exact hfour (hrow e' hsymbol')
  | _ :: _ :: _ :: _ => simp at hlen

theorem Separates.eq_nil {n : Nat} (hR : R.Separates n) {es : Pattern w}
    (hlt : ∀ e ∈ es, e.1 < n) (horder : es.Pairwise fun e e' => e'.1 < e.1)
    (hsymbol : ∀ e ∈ es, R.Symbol e.2) (hlen : es.length ≤ 4) (h : total R.turn es = 0#w) :
    es = [] := by
  rcases List.eq_nil_or_concat' es with hnil | ⟨init, last, rfl⟩
  · exact hnil
  have hlast : R.Symbol last.2 := hsymbol last (by simp)
  rw [List.pairwise_append] at horder
  obtain ⟨horder, -, hafter⟩ := horder
  replace hafter : ∀ x ∈ init, last.1 < x.1 := fun x hx => hafter x hx last (by simp)
  cases init with
  | nil =>
    have hzero : (0#w) = last.2 := total_of_concat hafter hlast h
    exact absurd hzero.symm hlast.ne_zero
  | cons first mid =>
    obtain ⟨d, a⟩ := first
    obtain ⟨k, hk⟩ := exists_beyond (hsymbol (d, a) (by simp)) hafter hlast h
    have hd : last.1 < d := hafter (d, a) (by simp)
    have hdn : d < n := hlt (d, a) (by simp)
    refine absurd hk (hR.total_ne (by omega) (fun e he => ?_) (by omega) ?_)
    · obtain ⟨y, hy, rfl⟩ := List.mem_map.mp he
      obtain ⟨x, hx, rfl⟩ := List.mem_map.mp hy
      have hbelow : x.1 < d := (List.pairwise_cons.mp horder).1 x hx
      have habove : last.1 < x.1 := hafter x (by simp [hx])
      exact ⟨Nat.sub_pos_of_lt habove, Nat.sub_lt_sub_right habove.le hbelow,
        (hsymbol x (by simp [hx])).scale k⟩
    · simp [lower, rescale] at hlen ⊢
      omega

/-- Two streams with one result are the same or differ in more than four places. -/
theorem Separates.eq_of_run {n : Nat} (hR : R.Separates n) {S : Type*} [DecidableEq S]
    {inject : S → BitVec w} {c : BitVec w} {vs vs' : List S} (hlen : vs.length = vs'.length)
    (hn : vs.length ≤ n)
    (hsymbol : ∀ v ∈ vs, ∀ v' ∈ vs', v ≠ v' → R.Symbol (inject v ^^^ inject v'))
    (hclose : mismatches vs vs' ≤ 4)
    (h : Superposition.run (· ^^^ ·) R.turn inject c vs =
      Superposition.run (· ^^^ ·) R.turn inject c vs') : vs = vs' := by
  have hsplit : Superposition.run (· ^^^ ·) R.turn inject c vs ^^^
      Superposition.run (· ^^^ ·) R.turn inject c vs' =
        R.turn^[vs.length] (c ^^^ c) ^^^ total R.turn (places inject vs vs') :=
    run_xor_run hlen R.turn_xor c c
  rw [h, BitVec.xor_self, BitVec.xor_self, Function.iterate_fixed (map_zero R.turn_xor),
    BitVec.zero_xor] at hsplit
  refine eq_of_places hlen (hR.eq_nil (fun e he => (places_lt he).trans_le hn) places_pairwise
    (fun e he => ?_) ((length_places inject vs vs').trans_le hclose) hsplit.symm)
  obtain ⟨v, hv, v', hv', hne, heq⟩ := places_symbol he
  rw [heq]
  exact hsymbol v hv v' hv' hne

end Register

end MxSdk.ErrorPattern
