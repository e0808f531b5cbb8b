import Mathlib.Data.List.Nodup
import Mathlib.Logic.Function.Basic

/-! A map filled one key at a time by steps that may fail. Where the keys of the steps
are distinct, each key holds what its own step made of the start. -/

namespace MxSdk.KeyedUpdate

variable {α β κ ε : Type} [DecidableEq κ] (key : α → κ) (g : β → α → Except ε β)

def step (f : κ → β) (x : α) : Except ε (κ → β) := (g (f (key x)) x).map (Function.update f (key x))

def run (f : κ → β) (xs : List α) : Except ε (κ → β) := xs.foldlM (step key g) f

variable {key g} {f f' : κ → β} {x : α} {xs : List α}

theorem step_eq_ok (h : step key g f x = .ok f') :
    ∃ b, g (f (key x)) x = .ok b ∧ f' = Function.update f (key x) b := by
  rw [step] at h
  cases hb : g (f (key x)) x with
  | error e =>
    rw [hb] at h
    cases h
  | ok b =>
    rw [hb] at h
    exact ⟨b, rfl, (Except.ok.inj h).symm⟩

theorem run_cons (h : run key g f (x :: xs) = .ok f') :
    ∃ b, g (f (key x)) x = .ok b ∧ run key g (Function.update f (key x) b) xs = .ok f' := by
  rw [run, List.foldlM_cons] at h
  cases hstep : step key g f x with
  | error e =>
    rw [hstep] at h
    cases h
  | ok f1 =>
    rw [hstep] at h
    obtain ⟨b, hb, rfl⟩ := step_eq_ok hstep
    exact ⟨b, hb, h⟩

theorem run_of_notMem (h : run key g f xs = .ok f') {k : κ} (hk : k ∉ xs.map key) : f' k = f k := by
  induction xs generalizing f with
  | nil =>
    rw [← Except.ok.inj h]
  | cons x xs ih =>
    obtain ⟨b, -, hrest⟩ := run_cons h
    rw [List.map_cons, List.mem_cons, not_or] at hk
    rw [ih hrest hk.2, Function.update_of_ne hk.1]

theorem run_of_mem (hkeys : (xs.map key).Nodup) (h : run key g f xs = .ok f') (hx : x ∈ xs) :
    g (f (key x)) x = .ok (f' (key x)) := by
  induction xs generalizing f with
  | nil => cases hx
  | cons y xs ih =>
    obtain ⟨b, hb, hrest⟩ := run_cons h
    rw [List.map_cons, List.nodup_cons] at hkeys
    rcases List.mem_cons.mp hx with rfl | hx
    · rw [hb, run_of_notMem hrest hkeys.1, Function.update_self]
    · have hne : key x ≠ key y := fun heq => hkeys.1 (heq ▸ List.mem_map_of_mem hx)
      rw [← ih hkeys.2 hrest hx, Function.update_of_ne hne]

end MxSdk.KeyedUpdate
