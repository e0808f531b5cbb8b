import Mathlib.Data.List.Basic

/-! Well-formed UTF-8, read one byte at a time. A lead byte owes a list of byte
ranges, one for each byte that must follow it; a text is well formed when it is
read to its end with nothing owed. The ranges are those of the Unicode standard's
table of well-formed byte sequences, so overlong forms, surrogates and code points
above U+10FFFF are excluded. -/

namespace MxSdk.Utf8

abbrev Range := UInt8 × UInt8

def Range.Holds (r : Range) (b : UInt8) : Prop := r.1 ≤ b ∧ b ≤ r.2

instance (r : Range) (b : UInt8) : Decidable (r.Holds b) :=
  inferInstanceAs (Decidable (_ ∧ _))

/-- A continuation byte without a further restriction. -/
def tail : Range := (0x80, 0xbf)

/-- What a lead byte owes, or `none` for a byte that begins no character. -/
def followers (lead : UInt8) : Option (List Range) :=
  if lead ≤ 0x7f then some []
  else if lead < 0xc2 then none
  else if lead ≤ 0xdf then some [tail]
  else if lead = 0xe0 then some [(0xa0, 0xbf), tail]
  else if lead = 0xed then some [(0x80, 0x9f), tail]
  else if lead ≤ 0xef then some [tail, tail]
  else if lead = 0xf0 then some [(0x90, 0xbf), tail, tail]
  else if lead ≤ 0xf3 then some [tail, tail, tail]
  else if lead = 0xf4 then some [(0x80, 0x8f), tail, tail]
  else none

/-- `Owing rs s`: with the ranges `rs` still owed, `s` completes a text. -/
inductive Owing : List Range → List UInt8 → Prop
  | done : Owing [] []
  | lead {b : UInt8} {rs : List Range} {s : List UInt8} :
      followers b = some rs → Owing rs s → Owing [] (b :: s)
  | pay {r : Range} {b : UInt8} {rs : List Range} {s : List UInt8} :
      r.Holds b → Owing rs s → Owing (r :: rs) (b :: s)

abbrev WellFormed (s : List UInt8) : Prop := Owing [] s

theorem Owing.append {rs : List Range} {s t : List UInt8} (hs : Owing rs s)
    (ht : WellFormed t) : Owing rs (s ++ t) := by
  induction hs with
  | done => exact ht
  | lead hb _ ih => exact .lead hb ih
  | pay hb _ ih => exact .pay hb ih

theorem Owing.split {rs : List Range} {s : List UInt8} (h : Owing rs s) :
    ∃ ps t, List.Forall₂ Range.Holds rs ps ∧ s = ps ++ t ∧ WellFormed t := by
  induction rs generalizing s with
  | nil => exact ⟨[], s, .nil, rfl, h⟩
  | cons r rs ih =>
    cases h with
    | @pay _ b _ s hb hs =>
      obtain ⟨ps, t, hps, rfl, ht⟩ := ih hs
      exact ⟨b :: ps, t, .cons hb hps, rfl, ht⟩

theorem owing_append {rs : List Range} {ps t : List UInt8} (h : List.Forall₂ Range.Holds rs ps)
    (ht : WellFormed t) : Owing rs (ps ++ t) := by
  induction h with
  | nil => exact ht
  | cons hb _ ih => exact .pay hb ih

theorem WellFormed.induction {P : List UInt8 → Prop} (nil : P [])
    (char : ∀ lead rs ps t, followers lead = some rs → List.Forall₂ Range.Holds rs ps →
      WellFormed t → P t → P (lead :: (ps ++ t))) {s : List UInt8} (h : WellFormed s) : P s := by
  induction hn : s.length using Nat.strongRecOn generalizing s with
  | _ n ih =>
    cases h with
    | done => exact nil
    | @lead b rs s hb hs =>
      obtain ⟨ps, t, hps, rfl, ht⟩ := hs.split
      rw [List.length_cons, List.length_append] at hn
      exact char b rs ps t hb hps ht (ih t.length (by omega) ht rfl)

theorem followers_ascii {b : UInt8} (h : b ≤ 0x7f) : followers b = some [] := if_pos h

theorem followers_range {lead : UInt8} {rs : List Range} (h : followers lead = some rs) :
    (lead ≤ 0x7f → rs = []) ∧ ∀ r ∈ rs, 0x80 ≤ r.1 := by
  rw [followers] at h
  split_ifs at h with hascii <;> cases h
  · exact ⟨fun _ => rfl, fun r hr => absurd hr List.not_mem_nil⟩
  all_goals exact ⟨fun hl => absurd hl hascii, by simp [tail]⟩

theorem wellFormed_ascii {s : List UInt8} (h : ∀ b ∈ s, b ≤ 0x7f) : WellFormed s := by
  induction s with
  | nil => exact .done
  | cons b s ih =>
    exact .lead (followers_ascii (h b (by simp))) (ih fun c hc => h c (by simp [hc]))

end MxSdk.Utf8
