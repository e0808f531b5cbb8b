import Mathlib.Logic.Basic

/-! What a computation may end in when it fails. The steps of a computation raise what it
raises, so that a function is as safe as what it calls. -/

namespace MxSdk

variable {ε α β : Type} {P : ε → Prop}

/-- An error of the computation has the property. -/
def Raises (P : ε → Prop) (x : Except ε α) : Prop := ∀ e, x = .error e → P e

namespace Raises

@[simp] theorem ok (a : α) : Raises P (.ok a) := nofun

@[simp] theorem error_iff {e : ε} : Raises P (.error e : Except ε α) ↔ P e :=
  ⟨fun h => h e rfl, fun h _ he => Except.error.inj he ▸ h⟩

@[simp] theorem throw_iff {e : ε} : Raises P (throw e : Except ε α) ↔ P e := error_iff

theorem bind {x : Except ε α} {f : α → Except ε β} (hx : Raises P x)
    (hf : ∀ a, x = .ok a → Raises P (f a)) : Raises P (x >>= f) := by
  intro e he
  cases x with
  | error e' => exact hx e (congrArg Except.error (Except.error.inj he))
  | ok a => exact hf a rfl e he

theorem map {x : Except ε α} (f : α → β) (hx : Raises P x) : Raises P (x.map f) := by
  intro e he
  cases x with
  | error e' => exact hx e (congrArg Except.error (Except.error.inj he))
  | ok a => cases he

theorem ite {c : Prop} [Decidable c] {x y : Except ε α} (hx : Raises P x) (hy : Raises P y) :
    Raises P (if c then x else y) := by
  split
  · exact hx
  · exact hy

theorem foldlM {f : β → α → Except ε β} (hf : ∀ b a, Raises P (f b a)) (xs : List α) (b : β) :
    Raises P (xs.foldlM f b) := by
  induction xs generalizing b with
  | nil => exact ok b
  | cons x xs ih =>
    rw [List.foldlM_cons]
    exact (hf b x).bind fun b' _ => ih b'

theorem forM {f : α → Except ε PUnit} (hf : ∀ a, Raises P (f a)) (xs : List α) :
    Raises P (xs.forM f) := by
  induction xs with
  | nil => exact ok _
  | cons x xs ih => exact (hf x).bind fun _ _ => ih

end Raises

end MxSdk
