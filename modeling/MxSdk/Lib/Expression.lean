import Mathlib.Logic.Function.Basic

/-! Expressions over binary operators that may throw. Where the operators of one algebra
look at their operands only through what these stand for in another, an expression stands
for the same in both, and operands that stand for the same can replace each other. -/

namespace MxSdk

inductive Expression (ι ω : Type*) where
  | operand (x : ι)
  | apply (op : ω) (lhs rhs : Expression ι ω)

namespace Expression

universe u

variable {ι ω : Type*} {α β ε : Type u}

def outcome (f : ω → α → α → Except ε α) (vars : ι → α) : Expression ι ω → Except ε α
  | operand x => .ok (vars x)
  | apply op lhs rhs => do f op (← lhs.outcome f vars) (← rhs.outcome f vars)

/-- The same, where the operands are kept in a state. -/
def eval {ι : Type u} (f : ω → α → α → Except ε α) :
    Expression ι ω → ExceptT ε (StateM (ι → α)) α
  | operand x => do return (← get) x
  | apply op lhs rhs => do
    let a ← lhs.eval f
    let b ← rhs.eval f
    ExceptT.mk (pure (f op a b))

theorem run_eval {ι : Type u} (f : ω → α → α → Except ε α) (vars : ι → α) (e : Expression ι ω) :
    (e.eval f).run.run vars = (e.outcome f vars, vars) := by
  induction e with
  | operand x => rfl
  | apply op lhs rhs ihl ihr =>
    rw [eval, outcome, ExceptT.run_bind, StateT.run_bind, ihl]
    cases lhs.outcome f vars with
    | error e => rfl
    | ok a =>
      show (do let b ← rhs.eval f; ExceptT.mk (pure (f op a b))).run.run vars = _
      rw [ExceptT.run_bind, StateT.run_bind, ihr]
      cases rhs.outcome f vars with
      | error e => rfl
      | ok b => rfl

/-- The operators `f` see of their operands what these denote, and `h` computes with that. -/
structure Represents (f : ω → α → α → Except ε α) (h : ω → β → β → Except ε β) (denote : α → β)
    (canonical : β → α) : Prop where
  apply : ∀ op a b, f op a b = (h op (denote a) (denote b)).map canonical
  denote_canonical : ∀ n, denote (canonical n) = n

section Represents

variable {f : ω → α → α → Except ε α} {h : ω → β → β → Except ε β} {denote : α → β}
  {canonical : β → α} (hrep : Represents f h denote canonical)
include hrep

theorem map_outcome (vars : ι → α) (e : Expression ι ω) :
    (e.outcome f vars).map denote = e.outcome h (denote ∘ vars) := by
  induction e with
  | operand x => rfl
  | apply op lhs rhs ihl ihr =>
    rw [outcome, outcome, ← ihl, ← ihr]
    cases lhs.outcome f vars with
    | error e => rfl
    | ok a =>
      cases rhs.outcome f vars with
      | error e => rfl
      | ok b =>
        show (f op a b).map denote = h op (denote a) (denote b)
        rw [hrep.apply]
        cases h op (denote a) (denote b) with
        | error e => rfl
        | ok n => exact congrArg Except.ok (hrep.denote_canonical n)

theorem outcome_apply (vars : ι → α) (op : ω) (lhs rhs : Expression ι ω) :
    (apply op lhs rhs).outcome f vars =
      ((apply op lhs rhs).outcome h (denote ∘ vars)).map canonical := by
  rw [outcome, outcome, ← map_outcome hrep, ← map_outcome hrep]
  cases lhs.outcome f vars with
  | error e => rfl
  | ok a =>
    cases rhs.outcome f vars with
    | error e => rfl
    | ok b => exact hrep.apply op a b

end Represents

def value (g : ω → β → β → β) (nums : ι → β) : Expression ι ω → β
  | operand x => nums x
  | apply op lhs rhs => g op (lhs.value g nums) (rhs.value g nums)

def Faulty (undefined : ω → β → β → Prop) (g : ω → β → β → β) (nums : ι → β) :
    Expression ι ω → Prop
  | operand _ => False
  | apply op lhs rhs => lhs.Faulty undefined g nums ∨ rhs.Faulty undefined g nums ∨
      undefined op (lhs.value g nums) (rhs.value g nums)

section Partial

variable {undefined : ω → β → β → Prop} {g : ω → β → β → β} {h : ω → β → β → Except ε β}

theorem outcome_ok (hok : ∀ op m n, ¬ undefined op m n → h op m n = .ok (g op m n)) {nums : ι → β}
    {e : Expression ι ω} (he : ¬ e.Faulty undefined g nums) :
    e.outcome h nums = .ok (e.value g nums) := by
  induction e with
  | operand x => rfl
  | apply op lhs rhs ihl ihr =>
    simp only [Faulty, not_or] at he
    obtain ⟨hl, hr, hop⟩ := he
    rw [outcome, ihl hl, ihr hr]
    exact hok op _ _ hop

theorem outcome_error (hok : ∀ op m n, ¬ undefined op m n → h op m n = .ok (g op m n))
    (herror : ∀ op m n, undefined op m n → ∃ x, h op m n = .error x) {nums : ι → β}
    {e : Expression ι ω} (he : e.Faulty undefined g nums) :
    ∃ x, e.outcome h nums = .error x := by
  induction e with
  | operand x => exact he.elim
  | apply op lhs rhs ihl ihr =>
    rw [outcome]
    by_cases hl : lhs.Faulty undefined g nums
    · obtain ⟨x, hx⟩ := ihl hl
      exact ⟨x, by rw [hx]; rfl⟩
    rw [outcome_ok hok hl]
    by_cases hr : rhs.Faulty undefined g nums
    · obtain ⟨x, hx⟩ := ihr hr
      exact ⟨x, by rw [hx]; rfl⟩
    rw [outcome_ok hok hr]
    exact herror op _ _ ((he.resolve_left hl).resolve_left hr)

end Partial

end Expression

end MxSdk
