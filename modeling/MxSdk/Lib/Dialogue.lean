import Mathlib.Logic.Basic

/-! Programs that put questions to an environment, keep a state and may fail. What one
of them does is the relation of its outcomes to its conversations, for an environment
that answers whatever it likes; an environment given as a function runs them. -/

namespace MxSdk

/-- A program that asks a `Q`, is told an `R`, and ends with an `α`. -/
inductive Dialogue (Q R α : Type) where
  | done (a : α)
  | ask (q : Q) (next : R → Dialogue Q R α)

namespace Dialogue

variable {Q R α β : Type}

def bind : Dialogue Q R α → (α → Dialogue Q R β) → Dialogue Q R β
  | done a, f => f a
  | ask q next, f => ask q fun r => (next r).bind f

/-- The conversations that a program can have, with what each ends in. -/
inductive Runs : Dialogue Q R α → List (Q × R) → α → Prop
  | done (a : α) : Runs (done a) [] a
  | ask {q : Q} {next : R → Dialogue Q R α} (r : R) {t : List (Q × R)} {a : α}
      (h : Runs (next r) t a) : Runs (ask q next) ((q, r) :: t) a

variable {t : List (Q × R)}

@[simp] theorem runs_done_iff {a b : α} : (done a).Runs t b ↔ t = [] ∧ b = a := by
  constructor
  · intro h
    cases h
    exact ⟨rfl, rfl⟩
  · rintro ⟨rfl, rfl⟩
    exact .done b

theorem runs_ask_iff {q : Q} {next : R → Dialogue Q R α} {b : α} :
    (ask q next).Runs t b ↔ ∃ r t', t = (q, r) :: t' ∧ (next r).Runs t' b := by
  constructor
  · intro h
    cases h with
    | ask r h => exact ⟨r, _, rfl, h⟩
  · rintro ⟨r, t', rfl, h⟩
    exact .ask r h

theorem runs_bind_iff {d : Dialogue Q R α} {f : α → Dialogue Q R β} {b : β} :
    (d.bind f).Runs t b ↔ ∃ a t₁ t₂, t = t₁ ++ t₂ ∧ d.Runs t₁ a ∧ (f a).Runs t₂ b := by
  induction d generalizing t with
  | done a =>
    constructor
    · exact fun h => ⟨a, [], t, rfl, .done a, h⟩
    · rintro ⟨a', t₁, t₂, rfl, h₁, h₂⟩
      obtain ⟨rfl, rfl⟩ := runs_done_iff.mp h₁
      exact h₂
  | ask q next ih =>
    rw [bind, runs_ask_iff]
    constructor
    · rintro ⟨r, t', rfl, h⟩
      obtain ⟨a, t₁, t₂, rfl, h₁, h₂⟩ := (ih r).mp h
      exact ⟨a, (q, r) :: t₁, t₂, rfl, .ask r h₁, h₂⟩
    · rintro ⟨a, t₁, t₂, rfl, h₁, h₂⟩
      obtain ⟨r, t', rfl, h⟩ := runs_ask_iff.mp h₁
      exact ⟨r, t' ++ t₂, rfl, (ih r).mpr ⟨a, t', t₂, rfl, h, h₂⟩⟩

/-- The conversation with an environment that knows what was said before. -/
def play (answer : List (Q × R) → Q → R) :
    List (Q × R) → Dialogue Q R α → List (Q × R) × α
  | _, done a => ([], a)
  | said, ask q next =>
    let r := answer said q
    let (t, a) := play answer (said ++ [(q, r)]) (next r)
    ((q, r) :: t, a)

theorem runs_play (answer : List (Q × R) → Q → R) (said : List (Q × R)) (d : Dialogue Q R α) :
    d.Runs (play answer said d).1 (play answer said d).2 := by
  induction d generalizing said with
  | done a => exact .done a
  | ask q next ih => exact .ask _ (ih _ _)

end Dialogue

/-- A program with a state that survives its exceptions. -/
def Script (Q R S ε α : Type) : Type := S → Dialogue Q R (Except ε α × S)

namespace Script

variable {Q R S ε α β : Type}

def bind (p : Script Q R S ε α) (f : α → Script Q R S ε β) : Script Q R S ε β := fun s =>
  (p s).bind fun (outcome, s') =>
    match outcome with
    | .ok a => f a s'
    | .error e => .done (.error e, s')

instance : Monad (Script Q R S ε) where
  pure a := fun s => .done (.ok a, s)
  bind := Script.bind

def lift (x : Except ε α) : Script Q R S ε α := fun s => .done (x, s)

def ask (q : Q) : Script Q R S ε R := fun s => .ask q fun r => .done (.ok r, s)

def get : Script Q R S ε S := fun s => .done (.ok s, s)

def modify (f : S → S) : Script Q R S ε Unit := fun s => .done (.ok (), f s)

/-- Runs the handler on an exception, in the state that the exception left. -/
def handle (p : Script Q R S ε α) (handler : ε → Script Q R S ε α) : Script Q R S ε α := fun s =>
  (p s).bind fun (outcome, s') =>
    match outcome with
    | .ok a => .done (.ok a, s')
    | .error e => handler e s'

def Runs (p : Script Q R S ε α) (s : S) (t : List (Q × R)) (outcome : Except ε α) (s' : S) : Prop :=
  (p s).Runs t (outcome, s')

variable {s s' : S} {t : List (Q × R)} {outcome : Except ε α}

theorem runs_pure_iff {a : α} :
    (pure a : Script Q R S ε α).Runs s t outcome s' ↔ t = [] ∧ outcome = .ok a ∧ s' = s := by
  rw [Runs, ← Prod.mk.injEq]
  exact Dialogue.runs_done_iff

theorem runs_lift_iff {x : Except ε α} :
    (lift x : Script Q R S ε α).Runs s t outcome s' ↔ t = [] ∧ outcome = x ∧ s' = s := by
  rw [Runs, ← Prod.mk.injEq]
  exact Dialogue.runs_done_iff

theorem runs_modify_iff {f : S → S} {outcome : Except ε Unit} :
    (modify f : Script Q R S ε Unit).Runs s t outcome s' ↔
      t = [] ∧ outcome = .ok () ∧ s' = f s := by
  rw [Runs, ← Prod.mk.injEq]
  exact Dialogue.runs_done_iff

theorem runs_ask_iff {q : Q} {outcome : Except ε R} :
    (ask q : Script Q R S ε R).Runs s t outcome s' ↔
      ∃ r, t = [(q, r)] ∧ outcome = .ok r ∧ s' = s := by
  rw [Runs, ask, Dialogue.runs_ask_iff]
  constructor
  · rintro ⟨r, t', rfl, h⟩
    obtain ⟨rfl, hdone⟩ := Dialogue.runs_done_iff.mp h
    exact ⟨r, rfl, Prod.mk.inj hdone⟩
  · rintro ⟨r, rfl, rfl, rfl⟩
    exact ⟨r, [], rfl, .done _⟩

theorem runs_bind_iff {p : Script Q R S ε α} {f : α → Script Q R S ε β} {outcome : Except ε β} :
    (p >>= f).Runs s t outcome s' ↔
      (∃ e, outcome = .error e ∧ p.Runs s t (.error e) s') ∨
        ∃ a s₁ t₁ t₂, t = t₁ ++ t₂ ∧ p.Runs s t₁ (.ok a) s₁ ∧ (f a).Runs s₁ t₂ outcome s' := by
  change ((p s).bind _).Runs t (outcome, s') ↔ _
  rw [Dialogue.runs_bind_iff]
  constructor
  · rintro ⟨⟨result, s₁⟩, t₁, t₂, rfl, h₁, h₂⟩
    cases result with
    | error e =>
      obtain ⟨rfl, h⟩ := Dialogue.runs_done_iff.mp h₂
      obtain ⟨rfl, rfl⟩ := Prod.mk.inj h
      rw [List.append_nil]
      exact .inl ⟨e, rfl, h₁⟩
    | ok a => exact .inr ⟨a, s₁, t₁, t₂, rfl, h₁, h₂⟩
  · rintro (⟨e, rfl, h⟩ | ⟨a, s₁, t₁, t₂, rfl, h₁, h₂⟩)
    · exact ⟨(.error e, s'), t, [], (List.append_nil t).symm, h, .done _⟩
    · exact ⟨(.ok a, s₁), t₁, t₂, rfl, h₁, h₂⟩

theorem runs_handle_iff {p : Script Q R S ε α} {handler : ε → Script Q R S ε α} :
    (p.handle handler).Runs s t outcome s' ↔
      (∃ a, outcome = .ok a ∧ p.Runs s t (.ok a) s') ∨
        ∃ e s₁ t₁ t₂, t = t₁ ++ t₂ ∧ p.Runs s t₁ (.error e) s₁ ∧
          (handler e).Runs s₁ t₂ outcome s' := by
  change ((p s).bind _).Runs t (outcome, s') ↔ _
  rw [Dialogue.runs_bind_iff]
  constructor
  · rintro ⟨⟨result, s₁⟩, t₁, t₂, rfl, h₁, h₂⟩
    cases result with
    | ok a =>
      obtain ⟨rfl, h⟩ := Dialogue.runs_done_iff.mp h₂
      obtain ⟨rfl, rfl⟩ := Prod.mk.inj h
      rw [List.append_nil]
      exact .inl ⟨a, rfl, h₁⟩
    | error e => exact .inr ⟨e, s₁, t₁, t₂, rfl, h₁, h₂⟩
  · rintro (⟨a, rfl, h⟩ | ⟨e, s₁, t₁, t₂, rfl, h₁, h₂⟩)
    · exact ⟨(.ok a, s'), t, [], (List.append_nil t).symm, h, .done _⟩
    · exact ⟨(.error e, s₁), t₁, t₂, rfl, h₁, h₂⟩

theorem runs_lift_bind_iff {x : Except ε α} {f : α → Script Q R S ε β} {outcome : Except ε β} :
    ((lift x : Script Q R S ε α) >>= f).Runs s t outcome s' ↔
      (∃ e, x = .error e ∧ t = [] ∧ outcome = .error e ∧ s' = s) ∨
        ∃ a, x = .ok a ∧ (f a).Runs s t outcome s' := by
  rw [runs_bind_iff]
  constructor
  · rintro (⟨e, rfl, h⟩ | ⟨a, s₁, t₁, t₂, rfl, h₁, h₂⟩)
    · obtain ⟨rfl, hx, rfl⟩ := runs_lift_iff.mp h
      exact .inl ⟨e, hx.symm, rfl, rfl, rfl⟩
    · obtain ⟨rfl, hx, rfl⟩ := runs_lift_iff.mp h₁
      exact .inr ⟨a, hx.symm, h₂⟩
  · rintro (⟨e, rfl, rfl, rfl, rfl⟩ | ⟨a, rfl, h⟩)
    · exact .inl ⟨e, rfl, runs_lift_iff.mpr ⟨rfl, rfl, rfl⟩⟩
    · exact .inr ⟨a, s, [], t, rfl, runs_lift_iff.mpr ⟨rfl, rfl, rfl⟩, h⟩

theorem runs_get_bind_iff {f : S → Script Q R S ε α} :
    (get >>= f).Runs s t outcome s' ↔ (f s).Runs s t outcome s' := Iff.rfl

theorem runs_modify_bind_iff {g : S → S} {f : Unit → Script Q R S ε α} :
    (modify g >>= f).Runs s t outcome s' ↔ (f ()).Runs (g s) t outcome s' := Iff.rfl

theorem lift_bind_bind {γ : Type} {x : Except ε α} {f : α → Except ε β}
    {g : β → Script Q R S ε γ} :
    (lift (x >>= f) >>= g) = lift x >>= fun a => lift (f a) >>= g := by
  cases x <;> rfl

theorem exists_runs (answer : List (Q × R) → Q → R) (p : Script Q R S ε α) (s : S)
    {P : List (Q × R) × Except ε α × S → Prop} (h : P (Dialogue.play answer [] (p s))) :
    ∃ t outcome s', p.Runs s t outcome s' ∧ P (t, outcome, s') :=
  ⟨_, _, _, Dialogue.runs_play answer [] (p s), h⟩

theorem runs_ask_lift_iff {q : Q} {f : R → β} {g : β → Except ε α} :
    ((do let r ← ask q
         pure (f r) : Script Q R S ε β) >>= fun b => lift (g b)).Runs s t outcome s' ↔
      ∃ r, t = [(q, r)] ∧ outcome = g (f r) ∧ s' = s := by
  change (Dialogue.ask q fun r => .done (g (f r), s)).Runs t (outcome, s') ↔ _
  rw [Dialogue.runs_ask_iff]
  constructor
  · rintro ⟨r, t', rfl, h⟩
    obtain ⟨rfl, hdone⟩ := Dialogue.runs_done_iff.mp h
    exact ⟨r, rfl, Prod.mk.inj hdone⟩
  · rintro ⟨r, rfl, rfl, rfl⟩
    exact ⟨r, [], rfl, .done _⟩

end Script

end MxSdk
