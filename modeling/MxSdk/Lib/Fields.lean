import Mathlib.Algebra.GroupWithZero.Nat
import Mathlib.Data.List.Basic

/-! Texts made of a name and fields, each behind a separator. Where the separator is in
none of them, splitting the text gives them back, whatever their number and lengths. -/

namespace MxSdk.Fields

variable {α : Type} (sep : α)

def join (name : List α) (fields : List (List α)) : List α :=
  name ++ fields.flatMap fun field => sep :: field

theorem join_append (name : List α) (fields more : List (List α)) :
    join sep name (fields ++ more) =
      join sep name fields ++ more.flatMap fun field => sep :: field := by
  rw [join, List.flatMap_append, ← List.append_assoc]
  rfl

theorem join_eq_intercalate (name : List α) (fields : List (List α)) :
    join sep name fields = [sep].intercalate (name :: fields) := by
  induction fields generalizing name with
  | nil => rw [List.intercalate_singleton]; exact List.append_nil name
  | cons field fields ih =>
    rw [List.intercalate_cons_cons, ← ih, join, List.flatMap_cons, join]
    simp only [List.append_assoc, List.cons_append, List.nil_append]

theorem length_join (name : List α) (fields : List (List α)) :
    (join sep name fields).length =
      name.length + (fields.map fun field => field.length + 1).sum := by
  rw [join, List.length_append, List.length_flatMap]
  rfl

theorem splitOn_join [DecidableEq α] {name : List α} {fields : List (List α)}
    (hname : sep ∉ name) (hfields : ∀ field ∈ fields, sep ∉ field) :
    (join sep name fields).splitOn sep = name :: fields := by
  rw [join_eq_intercalate]
  refine List.splitOn_intercalate sep (fun l hl => ?_) (List.cons_ne_nil _ _)
  rcases List.mem_cons.mp hl with rfl | hl
  · exact hname
  · exact hfields l hl

theorem join_inj [DecidableEq α] {name : List α} {fields fields' : List (List α)}
    (hfields : ∀ field ∈ fields, sep ∉ field) (hfields' : ∀ field ∈ fields', sep ∉ field)
    (h : join sep name fields = join sep name fields') : fields = fields' := by
  have hplain : join sep [] fields = join sep [] fields' := List.append_cancel_left h
  have hsplit := congrArg (List.splitOn sep) hplain
  rw [splitOn_join sep List.not_mem_nil hfields, splitOn_join sep List.not_mem_nil hfields']
    at hsplit
  exact (List.cons.inj hsplit).2

end MxSdk.Fields
