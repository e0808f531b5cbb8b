import Mathlib.Logic.Function.Iterate

/-! A register driven by a stream of symbols. One turn sends the register through
a map that distributes over `op` and combines the symbol into the result, as the
remainder loop of a linear code does. The register and the symbols then act
independently of each other: what the register held travels through the turns
on its own. -/

namespace MxSdk.Superposition

variable {M S : Type*} (op : M → M → M) (T : M → M) (inject : S → M)

def run (c : M) (vs : List S) : M := vs.foldl (fun c v => op (T c) (inject v)) c

@[simp] theorem run_nil (c : M) : run op T inject c [] = c := rfl

@[simp] theorem run_cons (c : M) (v : S) (vs : List S) :
    run op T inject c (v :: vs) = run op T inject (op (T c) (inject v)) vs := rfl

theorem run_append (c : M) (vs ws : List S) :
    run op T inject c (vs ++ ws) = run op T inject (run op T inject c vs) ws :=
  List.foldl_append

variable {op T}

section Additive
variable [Std.Associative op] (hT : ∀ a b, T (op a b) = op (T a) (T b))
include hT

theorem run_op (a b : M) (vs : List S) :
    run op T inject (op a b) vs = op (T^[vs.length] a) (run op T inject b vs) := by
  induction vs generalizing a b with
  | nil => rfl
  | cons v vs ih =>
    have hassoc : op (op (T a) (T b)) (inject v) = op (T a) (op (T b) (inject v)) :=
      Std.Associative.assoc _ _ _
    rw [run_cons, hT, hassoc, ih, run_cons, List.length_cons,
      Function.iterate_succ_apply]

omit [Std.Associative op] in
theorem iterate_op (n : Nat) (a b : M) : T^[n] (op a b) = op (T^[n] a) (T^[n] b) := by
  induction n generalizing a b with
  | zero => rfl
  | succ n ih =>
    rw [Function.iterate_succ_apply, hT, ih]
    rfl

variable {e : M} (he : ∀ a, op a e = a)
include he

theorem run_split (c : M) (vs : List S) :
    run op T inject c vs = op (T^[vs.length] c) (run op T inject e vs) := by
  rw [← run_op inject hT c e vs, he]

theorem run_eq_op_of_rest {zs : List S} (hz : run op T inject e zs = e) (c : M) {vs : List S}
    (hlen : zs.length = vs.length) :
    run op T inject c vs = op (run op T inject c zs) (run op T inject e vs) := by
  rw [run_split inject hT he c zs, hz, he, hlen, ← run_split inject hT he c vs]

/-- Two streams that differ in one symbol, with one result: so do the two symbols once
they have travelled through the rest. -/
theorem run_single (hleft : ∀ a b c, op c a = op c b → a = b)
    (hright : ∀ a b c, op a c = op b c → a = b) {c : M} {vs ws : List S} {v v' : S}
    (h : run op T inject c (vs ++ v :: ws) = run op T inject c (vs ++ v' :: ws)) :
    T^[ws.length] (inject v) = T^[ws.length] (inject v') := by
  rw [run_append, run_append, run_cons, run_cons, run_split inject hT he _ ws,
    run_split inject hT he (op _ (inject v')) ws] at h
  have htravel := hright _ _ _ h
  rw [iterate_op hT, iterate_op hT] at htravel
  exact hleft _ _ _ htravel

end Additive

end MxSdk.Superposition
