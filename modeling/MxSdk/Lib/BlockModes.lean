import Mathlib.Data.List.Indexes
import Mathlib.Data.Nat.ModEq
import Mathlib.Logic.Function.Iterate

/-! Ciphers of blocks that are made of rounds, and modes that make them ciphers of texts. In a
chain every block is combined with the one that was enciphered before it. With a counter only
the counter is enciphered, and the text is combined with what comes out. -/

namespace MxSdk.BlockModes

section Rounds
variable {B K : Type*}

theorem foldl_reverse_foldl {f g : B → K → B} (h : ∀ b k, g (f b k) k = b) (ks : List K) (b : B) :
    ks.reverse.foldl g (ks.foldl f b) = b := by
  induction ks generalizing b with
  | nil => rfl
  | cons k ks ih =>
    rw [List.reverse_cons, List.foldl_append]
    change g (ks.reverse.foldl g (ks.foldl f (f b k))) k = b
    rw [ih, h]

theorem foldl_shift (f : B → B) (g : B → K → B) (ks : List K) (b : B) :
    f (ks.foldl (fun b k => g (f b) k) b) = ks.foldl (fun b k => f (g b k)) (f b) := by
  induction ks generalizing b with
  | nil => rfl
  | cons k ks ih => rw [List.foldl_cons, ih, List.foldl_cons]

end Rounds

section Chain
variable {B : Type*} (E D : B → B) (op : B → B → B)

/-- What is combined with the next block, and the enciphered blocks. -/
def chain (iv : B) : List B → B × List B
  | [] => (iv, [])
  | b :: bs => ((chain (E (op b iv)) bs).1, E (op b iv) :: (chain (E (op b iv)) bs).2)

def unchain (iv : B) : List B → B × List B
  | [] => (iv, [])
  | c :: cs => ((unchain c cs).1, op (D c) iv :: (unchain c cs).2)

variable {E D op}

theorem chain_append (iv : B) (bs bs' : List B) : chain E op iv (bs ++ bs') =
    ((chain E op (chain E op iv bs).1 bs').1,
      (chain E op iv bs).2 ++ (chain E op (chain E op iv bs).1 bs').2) := by
  induction bs generalizing iv with
  | nil => rfl
  | cons b bs ih => simp only [List.cons_append, chain, ih]

theorem unchain_append (iv : B) (cs cs' : List B) : unchain D op iv (cs ++ cs') =
    ((unchain D op (unchain D op iv cs).1 cs').1,
      (unchain D op iv cs).2 ++ (unchain D op (unchain D op iv cs).1 cs').2) := by
  induction cs generalizing iv with
  | nil => rfl
  | cons c cs ih => simp only [List.cons_append, unchain, ih]

theorem unchain_chain (hop : ∀ a b, op (op a b) b = a) (hD : ∀ b, D (E b) = b) (iv : B)
    (bs : List B) : unchain D op iv (chain E op iv bs).2 = ((chain E op iv bs).1, bs) := by
  induction bs generalizing iv with
  | nil => rfl
  | cons b bs ih => simp only [chain, unchain, ih, hD, hop]

end Chain

section Counter
variable {B S : Type*} (block : B → Nat → S) (next : B → B) (size : Nat)

/-- The symbol that the text is combined with at a place. `block c` has `size` of them. -/
def symbol (iv : B) (i : Nat) : S := block (next^[i / size] iv) (i % size)

def xcrypt (op : S → S → S) (iv : B) (text : List S) : List S :=
  text.mapIdx fun i a => op a (symbol block next size iv i)

variable {block next size} {op : S → S → S}

@[simp] theorem length_xcrypt (iv : B) (text : List S) :
    (xcrypt block next size op iv text).length = text.length := List.length_mapIdx

theorem xcrypt_xcrypt (hop : ∀ a b, op (op a b) b = a) (iv : B) (text : List S) :
    xcrypt block next size op iv (xcrypt block next size op iv text) = text := by
  refine List.ext_getElem (by simp) fun i h _ => ?_
  simp only [xcrypt, List.getElem_mapIdx, hop]

theorem xcrypt_append (hsize : 0 < size) (iv : B) {text : List S} {k : Nat}
    (htext : text.length = size * k) (rest : List S) :
    xcrypt block next size op iv (text ++ rest) =
      xcrypt block next size op iv text ++ xcrypt block next size op (next^[k] iv) rest := by
  rw [xcrypt, List.mapIdx_append]
  refine congrArg _ (congrArg (List.mapIdx · rest) (funext fun i => funext fun a => ?_))
  have hdiv : (i + text.length) / size = i / size + k := by
    rw [htext, Nat.add_mul_div_left _ _ hsize]
  have hmod : (i + text.length) % size = i % size := by
    rw [htext, Nat.add_mul_mod_self_left]
  rw [symbol, symbol, hdiv, hmod, Function.iterate_add_apply]

theorem value_iterate {value : B → Nat} {N : Nat}
    (hnext : ∀ b, value (next b) = (value b + 1) % N) (hlt : ∀ b, value b < N) (iv : B) (k : Nat) :
    value (next^[k] iv) = (value iv + k) % N := by
  induction k with
  | zero => exact (Nat.mod_eq_of_lt (hlt iv)).symm
  | succ k ih => rw [Function.iterate_succ_apply', hnext, ih, Nat.mod_add_mod, Nat.add_assoc]

theorem iterate_inj {value : B → Nat} {N : Nat} (hnext : ∀ b, value (next b) = (value b + 1) % N)
    (hlt : ∀ b, value b < N) (iv : B) {j k : Nat} (hj : j < N) (hk : k < N)
    (h : next^[j] iv = next^[k] iv) : j = k := by
  have hmod : (value iv + j) % N = (value iv + k) % N := by
    rw [← value_iterate hnext hlt, ← value_iterate hnext hlt, h]
  have hsame : j ≡ k [MOD N] := Nat.ModEq.add_left_cancel' _ hmod
  rwa [Nat.ModEq, Nat.mod_eq_of_lt hj, Nat.mod_eq_of_lt hk] at hsame

end Counter

end MxSdk.BlockModes
