import Mathlib.Data.List.TakeWhile
import MxSdk.Lib.Fields

/-! Texts in lines, read line by line and searched as a whole. What contains no separator
lies within one line, so the first place of a line in the text is that line itself,
where the lines before it lack something that it has. -/

namespace MxSdk.Lines

variable {α : Type} {sep : α} {pat s t : List α}

theorem prefix_append_sep_iff (h : sep ∉ pat) : pat <+: s ++ sep :: t ↔ pat <+: s := by
  refine ⟨fun hpat => ?_, fun hpat => hpat.trans (List.prefix_append s _)⟩
  rcases List.prefix_or_prefix_of_prefix hpat (List.prefix_append s _) with hs | ⟨u, rfl⟩
  · exact hs
  · have hu : u <+: sep :: t := (List.prefix_append_right_inj s).mp hpat
    rcases List.prefix_cons_iff.mp hu with rfl | ⟨v, rfl, -⟩
    · exact (List.append_nil s).symm ▸ List.prefix_rfl
    · exact absurd (List.mem_append_right s List.mem_cons_self) h

theorem first_inj {p : α → Prop} {before before' after after' : List α} {x x' : α}
    (h : before ++ x :: after = before' ++ x' :: after') (hbefore : ∀ y ∈ before, ¬ p y)
    (hx : p x) (hbefore' : ∀ y ∈ before', ¬ p y) (hx' : p x') :
    before = before' ∧ x = x' ∧ after = after' := by
  induction before generalizing before' with
  | nil =>
    cases before' with
    | nil =>
      obtain ⟨rfl, rfl⟩ := List.cons.inj h
      exact ⟨rfl, rfl, rfl⟩
    | cons y before' =>
      rw [(List.cons.inj h).1] at hx
      exact absurd hx (hbefore' y List.mem_cons_self)
  | cons y before ih =>
    cases before' with
    | nil =>
      rw [← (List.cons.inj h).1] at hx'
      exact absurd hx' (hbefore y List.mem_cons_self)
    | cons y' before' =>
      obtain ⟨rfl, htail⟩ := List.cons.inj h
      obtain ⟨rfl, hrest⟩ := ih htail (fun z hz => hbefore z (List.mem_cons_of_mem _ hz))
        (fun z hz => hbefore' z (List.mem_cons_of_mem _ hz))
      exact ⟨rfl, hrest⟩

theorem intercalate_append_cons (before after : List (List α)) (line : List α) :
    [sep].intercalate (before ++ line :: after) =
      before.flatMap (· ++ [sep]) ++ (line ++ after.flatMap (sep :: ·)) := by
  induction before with
  | nil => exact (Fields.join_eq_intercalate sep line after).symm
  | cons l before ih =>
    rw [List.cons_append, List.intercalate_cons_of_ne_nil (by simp), ih, List.flatMap_cons]
    simp only [List.append_assoc]

variable [DecidableEq α]

def find (pat : List α) : List α → Option Nat
  | [] => if pat = [] then some 0 else none
  | c :: s => if pat <+: c :: s then some 0 else (find pat s).map (· + 1)

/-- The text with `new` for the `length` elements from a place on. -/
def splice (s : List α) (pos length : Nat) (new : List α) : List α :=
  s.take pos ++ new ++ s.drop (pos + length)

theorem isSome_find_iff : (find pat s).isSome = true ↔ pat <:+: s := by
  induction s with
  | nil =>
    rw [find, List.infix_nil]
    split <;> simp [*]
  | cons c s ih =>
    rw [find, List.infix_cons_iff, ← ih]
    split <;> simp [*]

theorem find_append_self (pat t : List α) : find pat (pat ++ t) = some 0 := by
  cases hs : pat ++ t with
  | nil => rw [find, if_pos (List.append_eq_nil_iff.mp hs).1]
  | cons c s => rw [find, if_pos (hs ▸ List.prefix_append pat t)]

theorem find_append_sep (h : sep ∉ pat) (hs : ¬ pat <:+: s) :
    find pat (s ++ sep :: t) = (find pat t).map (· + (s.length + 1)) := by
  induction s with
  | nil =>
    have hpat : ¬ pat <+: sep :: t := fun hpat =>
      hs ((prefix_append_sep_iff h).mp hpat).isInfix
    rw [List.nil_append, find, if_neg hpat]
    rfl
  | cons c s ih =>
    rw [List.infix_cons_iff, not_or] at hs
    have hpat : ¬ pat <+: c :: s ++ sep :: t := mt (prefix_append_sep_iff h).mp hs.1
    rw [List.cons_append, find, if_neg, ih hs.2, Option.map_map]
    · rfl
    · exact hpat

theorem line_induction {P : List α → Prop} (last : ∀ line, sep ∉ line → P line)
    (step : ∀ line s, sep ∉ line → P s → P (line ++ sep :: s)) (s : List α) : P s := by
  induction hn : s.length using Nat.strongRecOn generalizing s with
  | _ n ih =>
    by_cases hsep : sep ∈ s
    · obtain ⟨line, t, rfl, hline⟩ := List.eq_append_cons_of_mem hsep
      refine step line t hline (ih t.length ?_ t rfl)
      simp only [List.length_append, List.length_cons] at hn
      omega
    · exact last s hsep

theorem not_mem_of_mem_splitOn (s : List α) : ∀ line ∈ s.splitOn sep, sep ∉ line := by
  induction s using @line_induction _ sep _ with
  | last line hline =>
    rw [List.splitOn_eq_singleton hline]
    simpa using hline
  | step line s hline ih =>
    rw [List.splitOn_append_cons_self_of_not_mem hline]
    simpa using ⟨hline, ih⟩

/-- The next line of a stream, and what follows its separator. -/
def next (sep : α) (s : List α) : Option (List α × List α) :=
  if s = [] then none
  else some (s.takeWhile (· ≠ sep), (s.dropWhile (· ≠ sep)).drop 1)

theorem length_of_next {line : List α} (h : next sep s = some (line, t)) :
    t.length < s.length := by
  rw [next] at h
  split at h
  · cases h
  · rename_i hne
    have hpos := List.length_pos_iff.mpr hne
    have hle := (List.dropWhile_suffix (· ≠ sep) : s.dropWhile (· ≠ sep) <:+ s).length_le
    rw [← (Prod.mk.inj (Option.some.inj h)).2, List.length_drop]
    omega

theorem next_append {line : List α} (h : sep ∉ line) :
    next sep (line ++ sep :: t) = some (line, t) := by
  have hline : ∀ c ∈ line, decide (c ≠ sep) = true := fun c hc =>
    decide_eq_true fun heq => h (heq ▸ hc)
  rw [next, if_neg (by simp), List.takeWhile_append_of_pos hline,
    List.dropWhile_append_of_pos hline, List.takeWhile_cons_of_neg (by simp),
    List.dropWhile_cons_of_neg (by simp), List.append_nil]
  rfl

theorem next_last {line : List α} (h : sep ∉ line) (hne : line ≠ []) :
    next sep line = some (line, []) := by
  have hline : ∀ c ∈ line, decide (c ≠ sep) = true := fun c hc =>
    decide_eq_true fun heq => h (heq ▸ hc)
  rw [next, if_neg hne, List.takeWhile_eq_self_iff.mpr hline, List.dropWhile_eq_nil_iff.mpr hline]
  rfl

/-- The first line with a property, line by line. The stream has no line after its last
separator. -/
def firstLine (sep : α) (p : List α → Bool) (s : List α) : Option (List α) :=
  match _hnext : next sep s with
  | none => none
  | some (line, t) => if p line then some line else firstLine sep p t
termination_by s.length
decreasing_by exact length_of_next _hnext

theorem firstLine_nil (sep : α) (p : List α → Bool) : firstLine sep p [] = none := by
  rw [firstLine]
  rfl

theorem firstLine_of_next {p : List α → Bool} {line : List α} (h : next sep s = some (line, t)) :
    firstLine sep p s = if p line then some line else firstLine sep p t := by
  rw [firstLine]
  split
  · rename_i hnone
    rw [h] at hnone
    cases hnone
  · rename_i hsome
    rw [h] at hsome
    cases hsome
    rfl

theorem firstLine_eq {p : List α → Bool} (hp : p [] = false) (s : List α) :
    firstLine sep p s = (s.splitOn sep).find? p := by
  induction s using @line_induction _ sep _ with
  | last line hline =>
    rw [List.splitOn_eq_singleton hline, List.find?_singleton]
    by_cases hne : line = []
    · rw [hne, firstLine_nil, hp]
      rfl
    · rw [firstLine_of_next (next_last hline hne), firstLine_nil]
  | step line s hline ih =>
    rw [List.splitOn_append_cons_self_of_not_mem hline, firstLine_of_next (next_append hline), ih,
      List.find?_cons]
    cases p line <;> rfl

theorem find_line {before : List (List α)} {line : List α} (hline : sep ∉ line)
    (hbefore : ∀ l ∈ before, ¬ line <:+: l) (t : List α) :
    find line (before.flatMap (· ++ [sep]) ++ (line ++ t)) =
      some (before.flatMap (· ++ [sep])).length := by
  induction before with
  | nil => exact find_append_self line t
  | cons l before ih =>
    rw [List.flatMap_cons, List.append_assoc, List.append_assoc, List.singleton_append,
      find_append_sep hline (hbefore l List.mem_cons_self),
      ih fun l hl => hbefore l (List.mem_cons_of_mem _ hl)]
    simp
    omega

/-- The line that is found by its own text is replaced, and every other line stays. -/
theorem splice_line {before after : List (List α)} {line : List α}
    (hs : s.splitOn sep = before ++ line :: after) (hbefore : ∀ l ∈ before, ¬ line <:+: l) :
    ∃ pos, find line s = some pos ∧ pos ≤ s.length ∧ ∀ new,
      splice s pos line.length new = [sep].intercalate (before ++ new :: after) := by
  have hline : sep ∉ line := not_mem_of_mem_splitOn s line (by simp [hs])
  have htext : [sep].intercalate (s.splitOn sep) = s := List.intercalate_splitOn sep
  rw [hs, intercalate_append_cons] at htext
  refine ⟨(before.flatMap (· ++ [sep])).length, ?_, ?_, fun new => ?_⟩
  · rw [← htext]
    exact find_line hline hbefore _
  · rw [← htext, List.length_append]
    omega
  · rw [splice, intercalate_append_cons, ← htext, List.take_left, ← List.append_assoc,
      ← List.length_append, List.drop_left]
    simp only [List.append_assoc]

end MxSdk.Lines
