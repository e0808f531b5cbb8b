import Mathlib.Data.List.Basic

/-! Straight-line programs over a state. A statement throws or updates the state, and
which of the two it does is known before it runs. An exception ends the program, and
the updates made before it stay. -/

namespace MxSdk.Straightline

abbrev Statement (ε σ : Type*) := Except ε (σ → σ)

variable {ε σ : Type*} {p : List (Statement ε σ)} {s s' : σ} {e : ε}

def exec : List (Statement ε σ) → σ → Except ε Unit × σ
  | [], s => (.ok (), s)
  | .error e :: _, s => (.error e, s)
  | .ok update :: p, s => exec p (update s)

theorem exec_append (h : exec p s = (.ok (), s')) (q : List (Statement ε σ)) :
    exec (p ++ q) s = exec q s' := by
  induction p generalizing s with
  | nil => rw [List.nil_append, (Prod.mk.inj h).2]
  | cons x p ih =>
    cases x with
    | error e => cases h
    | ok update => exact ih h

theorem exec_append_error (h : exec p s = (.error e, s')) (q : List (Statement ε σ)) :
    exec (p ++ q) s = (.error e, s') := by
  induction p generalizing s with
  | nil => cases h
  | cons x p ih =>
    cases x with
    | error e => exact h
    | ok update => exact ih h

theorem exec_of_ok (h : ∀ x ∈ p, ∃ update, x = .ok update) (s : σ) :
    ∃ s', exec p s = (.ok (), s') := by
  induction p generalizing s with
  | nil => exact ⟨s, rfl⟩
  | cons x p ih =>
    obtain ⟨update, rfl⟩ := h x List.mem_cons_self
    exact ih (fun y hy => h y (List.mem_cons_of_mem _ hy)) (update s)

theorem exec_ok (h : exec p s = (.ok (), s')) : ∀ x ∈ p, ∃ update, x = .ok update := by
  induction p generalizing s with
  | nil => exact fun x hx => absurd hx List.not_mem_nil
  | cons y p ih =>
    cases y with
    | error e => cases h
    | ok update =>
      intro x hx
      rcases List.mem_cons.mp hx with rfl | hx
      · exact ⟨update, rfl⟩
      · exact ih h x hx

theorem exec_error (h : exec p s = (.error e, s')) :
    ∃ done rest, p = done ++ .error e :: rest ∧ exec done s = (.ok (), s') := by
  induction p generalizing s with
  | nil => cases h
  | cons x p ih =>
    cases x with
    | error f =>
      obtain ⟨hf, rfl⟩ := Prod.mk.inj h
      exact ⟨[], p, by rw [Except.error.inj hf, List.nil_append], rfl⟩
    | ok update =>
      obtain ⟨done, rest, rfl, hdone⟩ := ih h
      exact ⟨.ok update :: done, rest, rfl, hdone⟩

/-- A check throws or leaves the state alone. -/
def IsCheck (x : Statement ε σ) : Prop := ∀ update, x = .ok update → update = id

theorem exec_checks (hp : ∀ x ∈ p, IsCheck x) (s : σ) : (exec p s).2 = s := by
  induction p with
  | nil => rfl
  | cons x p ih =>
    cases x with
    | error e => rfl
    | ok update =>
      rw [exec, hp _ List.mem_cons_self update rfl]
      exact ih fun y hy => hp y (List.mem_cons_of_mem _ hy)

end MxSdk.Straightline
