import MxSdk.Transaction.TokenPayment

/-! Which texts are amounts. What `bigUIntFromVal` checks in steps, over the text with its
points and over the text without them, is one grammar. -/

namespace MxSdk.TokenPayment
open Decimal

/-- Digits and at most one point, with no zero in front of another digit. -/
structure IsAmount (a : Bytes) : Prop where
  chars : ∀ c ∈ a, isDigit c = true ∨ c = point
  points : a.count point ≤ 1
  digit : ∃ c ∈ a, isDigit c = true
  head : ∀ c t, a = zero :: c :: t → isDigit c = false

theorem mem_removePoint {a : Bytes} {c : UInt8} : c ∈ removePoint a ↔ c ∈ a ∧ c ≠ point := by
  rw [removePoint, List.mem_filter]
  simp [isPoint]

theorem hasLeadingZeroes_iff {a : Bytes} :
    hasLeadingZeroes a = false ↔ ∀ c t, a = zero :: c :: t → c = point := by
  constructor
  · rintro h c t rfl
    simpa [hasLeadingZeroes, isZero, isPoint] using h
  · intro h
    cases a with
    | nil => rfl
    | cons first t =>
      cases t with
      | nil => rfl
      | cons second t =>
        by_cases hfirst : first = zero
        · have hsecond := h second t (by rw [hfirst])
          simp [hasLeadingZeroes, isPoint, hsecond]
        · simp [hasLeadingZeroes, isZero, hfirst]

theorem isAmount_iff_valid {a : Bytes} :
    IsAmount a ↔ isValidNumber a = true ∧ a.count point ≤ 1 := by
  rw [isValidNumber_iff, hasLeadingZeroes_iff]
  constructor
  · intro h
    refine ⟨⟨fun c t ha => ?_, ?_, fun c hc => ?_⟩, h.points⟩
    · have hdigit := h.head c t ha
      refine (h.chars c (by simp [ha])).resolve_left fun hc => ?_
      rw [hc] at hdigit
      cases hdigit
    · obtain ⟨c, hc, hdigit⟩ := h.digit
      exact List.ne_nil_of_mem (mem_removePoint.mpr ⟨hc, isDigit_ne_point hdigit⟩)
    · obtain ⟨hc, hne⟩ := mem_removePoint.mp hc
      exact (h.chars c hc).resolve_right hne
  · rintro ⟨⟨hhead, hne, hdigits⟩, hpoints⟩
    refine ⟨fun c hc => ?_, hpoints, ?_, fun c t ha => ?_⟩
    · by_cases hp : c = point
      · exact .inr hp
      · exact .inl (hdigits c (mem_removePoint.mpr ⟨hc, hp⟩))
    · obtain ⟨c, hc⟩ := List.exists_mem_of_ne_nil _ hne
      exact ⟨c, (mem_removePoint.mp hc).1, hdigits c hc⟩
    · rw [hhead c t ha]
      rfl

theorem isAmount_iff_accepted {a : Bytes} : IsAmount a ↔ Accepted a := by
  rw [isAmount_iff_valid]
  constructor
  · rintro ⟨hvalid, hcount⟩
    by_cases hzero : a.count point = 0
    · exact .inl (isNumeral_of_valid hvalid hzero)
    · exact .inr (hasPoint_of_valid hvalid (by omega))
  · rintro (h | h)
    · exact ⟨valid_of_isNumeral h, by rw [count_digits h.digits]; exact Nat.zero_le 1⟩
    · exact ⟨(valid_of_hasPoint h).1, (valid_of_hasPoint h).2.le⟩

theorem bigUIntFromVal_error {a : Bytes} (h : ¬ IsAmount a) (n : UInt32) :
    bigUIntFromVal a n = .error (.invalidArgument (errorMsgValue ++ a)) := by
  rw [isAmount_iff_valid, not_and_or, not_le] at h
  rw [bigUIntFromVal]
  by_cases hcount : 1 < a.count point
  · exact if_pos hcount
  · rw [if_neg hcount]
    exact if_pos (by simpa using h.resolve_right hcount)

/-- The grammar decides, and every number that is then assembled is accepted. -/
theorem amount_accepted_iff (id a : Bytes) (nonce : UInt64) (n : UInt32) :
    ((∃ p, fungibleFromAmount id a n = .ok p) ↔ IsAmount a) ∧
      ((∃ p, metaESDTFromAmount id nonce a n = .ok p) ↔ IsAmount a) ∧
      (¬ IsAmount a → ∃ e, fungibleFromAmount id a n = .error e ∧
        metaESDTFromAmount id nonce a n = .error e ∧ e.IsInvalidArgument) := by
  by_cases h : IsAmount a
  · obtain ⟨v, hv, -⟩ := bigUIntFromVal_ok (isAmount_iff_accepted.mp h) n
    rw [fungibleFromAmount, metaESDTFromAmount, hv]
    exact ⟨iff_of_true ⟨_, rfl⟩ h, iff_of_true ⟨_, rfl⟩ h, fun hnot => absurd h hnot⟩
  · rw [fungibleFromAmount, metaESDTFromAmount, bigUIntFromVal_error h n]
    exact ⟨iff_of_false nofun h, iff_of_false nofun h, fun _ => ⟨_, rfl, rfl, trivial⟩⟩

end MxSdk.TokenPayment
