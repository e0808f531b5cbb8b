import MxSdk.Transaction.Equality
import MxSdk.Transaction.Reading

/-! What `deserialize` leaves of the object it is called on. Whether it succeeds depends
on the text alone, but optional fields the text leaves out keep their old content, and
a failure keeps the assignments that were made before it. -/

namespace MxSdk.Transaction
open Straightline Record

section Platform
variable [Platform]

def NullWhereAbsent (s : Bytes) (t : Transaction) : Prop :=
  ∀ k, given s k = none → format.view t k = none

theorem nullWhereAbsent_iff {t r : Transaction} {s : Bytes} (h : deserialize t s = (.ok (), r)) :
    NullWhereAbsent s r ↔ NullWhereAbsent s t := by
  have hview (k : TxKey) (hk : given s k = none) : format.view r k = format.view t k := by
    rw [view_deserialize h, hk, Option.elim_none]
  exact ⟨fun hr k hk => (hview k hk).symm.trans (hr k hk),
    fun ht k hk => (hview k hk).trans (ht k hk)⟩

theorem deserialize_unique {t t' r r' : Transaction} {s : Bytes}
    (h : deserialize t s = (.ok (), r)) (h' : deserialize t' s = (.ok (), r'))
    (hr : NullWhereAbsent s r) (hr' : NullWhereAbsent s r') : r = r' := by
  refine format.ext_view fun k => ?_
  cases hk : given s k with
  | none => rw [hr k hk, hr' k hk]
  | some v => rw [view_deserialize h, view_deserialize h', hk, Option.elim_some, Option.elim_some]

/-- What a failure of the loading at a key leaves: the keys before it are read, that
key and all later ones are as they were. -/
theorem exec_loads_throws {t r : Transaction} {s : Bytes} {e : Exception} (hs : Complete s)
    (h : exec (format.loads TxKey.assigned (given s)) t = (.error e, r)) :
    ∃ done k rest v, TxKey.assigned = done ++ k :: rest ∧ given s k = some v ∧
      (format.field k).read v = .error e ∧
      (∀ k' ∈ done, format.view r k' =
        (given s k').elim (format.view t k') (format.field k').kept) ∧
      ∀ k' ∈ k :: rest, format.view r k' = format.view t k' := by
  obtain ⟨done, k, rest, hsplit, hload, hdone⟩ := Format.exec_loads_error h
  have hnodup : (done ++ k :: rest).Nodup := hsplit ▸ TxKey.nodup_assigned
  obtain ⟨hnone, hthrow⟩ | ⟨v, hv, hread⟩ := Field.load_error hload
  · -- The checks have found every key that must be there.
    cases hk : k.isOptional with
    | false => exact absurd hnone (hs k hk)
    | true => cases (absent_eq_none_iff.mpr hk).symm.trans hthrow
  · refine ⟨done, k, rest, v, hsplit, hv, hread, fun k' hk' => ?_, fun k' hk' => ?_⟩
    · rw [Format.view_exec hdone, if_pos hk']
    · have hnot : k' ∉ done := fun hmem => (List.nodup_append.mp hnodup).2.2 k' hmem k' hk' rfl
      rw [Format.view_exec hdone, if_neg hnot]

end Platform

/-- The earlier content of two objects has no part in what they become exactly when
neither holds an optional field that an acceptable text leaves out. -/
theorem deserialize_independent_iff [Platform] (t t' : Transaction) (s : Bytes) :
    (((deserialize t s).1 = .ok () ↔ (deserialize t' s).1 = .ok ()) ∧
      ∀ r r', deserialize t s = (.ok (), r) → deserialize t' s = (.ok (), r') →
        r.equals r' = true ∧ NullWhereAbsent s r ∧ NullWhereAbsent s r') ↔
      (Readable s → NullWhereAbsent s t ∧ NullWhereAbsent s t') := by
  constructor
  · rintro ⟨-, hsame⟩ hs
    obtain ⟨r, hr⟩ := deserialize_of_readable hs t
    obtain ⟨r', hr'⟩ := deserialize_of_readable hs t'
    obtain ⟨-, hnull, hnull'⟩ := hsame r r' hr hr'
    exact ⟨(nullWhereAbsent_iff hr).mp hnull, (nullWhereAbsent_iff hr').mp hnull'⟩
  · intro h
    refine ⟨by rw [deserialize_fst_iff, deserialize_fst_iff], fun r r' hr hr' => ?_⟩
    obtain ⟨ht, ht'⟩ := h (deserialize_fst_iff.mp (congrArg Prod.fst hr))
    have hnull := (nullWhereAbsent_iff hr).mpr ht
    have hnull' := (nullWhereAbsent_iff hr').mpr ht'
    rw [deserialize_unique hr hr' hnull hnull']
    exact ⟨equals_self r', hnull', hnull'⟩

def signedDefault : Transaction := { default with signature := some (ascii "00") }

set_option maxRecDepth 100000 in
theorem deserialize_independent_fails :
    ¬ ∀ (t t' : Transaction) (s : Bytes),
      ((@deserialize .arbitrary t s).1 = .ok () ↔ (@deserialize .arbitrary t' s).1 = .ok ()) ∧
        ∀ r r', @deserialize .arbitrary t s = (.ok (), r) →
          @deserialize .arbitrary t' s = (.ok (), r') → r.equals r' = true := by
  intro h
  have hrun : (@deserialize .arbitrary default paymentText).1 = .ok () ∧
      (@deserialize .arbitrary signedDefault paymentText).1 = .ok () ∧
      (@deserialize .arbitrary default paymentText).2.equals
        (@deserialize .arbitrary signedDefault paymentText).2 = false := by decide +kernel
  obtain ⟨hdefault, hsigned, hdiffer⟩ := hrun
  have hequal := (h default signedDefault paymentText).2 _ _ (Prod.ext hdefault rfl)
    (Prod.ext hsigned rfl)
  rw [hdiffer] at hequal
  cases hequal

/-- A failure changes nothing where the text is no object or lacks a key. Otherwise it
comes from the value of some key, and keeps what was read for the keys before it. -/
theorem deserialize_throws [Platform] {t r : Transaction} {s : Bytes} {e : Exception}
    (h : deserialize t s = (.error e, r)) :
    e.IsInvalidArgument ∧ (¬ Complete s → r = t) ∧
      (Complete s → ∃ done k rest v, TxKey.assigned = done ++ k :: rest ∧ given s k = some v ∧
        (format.field k).read v = .error e ∧
        (∀ k' ∈ done, format.view r k' =
          (given s k').elim (format.view t k') (format.field k').kept) ∧
        ∀ k' ∈ k :: rest, format.view r k' = format.view t k') := by
  refine ⟨deserialize_error_invalid h, fun hs => ?_, fun hs => ?_⟩
  · obtain ⟨-, hr, -⟩ | ⟨hs', -⟩ := deserialize_error h
    · exact hr
    · exact absurd hs' hs
  · obtain ⟨-, -, hs'⟩ | ⟨-, hloads⟩ := deserialize_error h
    · exact absurd hs hs'
    · exact exec_loads_throws hs hloads

/-- All keys are there, and nonce and value are good, but the receiver is no address. -/
def unaddressedText : Bytes :=
  ascii "\x7b\"nonce\":7,\"value\":\"\",\"receiver\":\"\",\"sender\":\"\"," ++
  ascii "\"gasPrice\":0,\"gasLimit\":0,\"chainID\":\"\",\"version\":0\x7d"

set_option maxRecDepth 100000 in
theorem deserialize_unaddressed :
    (@deserialize .arbitrary default unaddressedText).1.toOption = none ∧
      (@deserialize .arbitrary default unaddressedText).2.nonce = 7 := by decide +kernel

set_option maxRecDepth 100000 in
theorem complete_unaddressed : Complete unaddressedText := by
  have hall : ∀ k ∈ TxKey.written, k.isOptional = false →
      (given unaddressedText k).isSome = true := by decide +kernel
  exact fun k hk => Option.isSome_iff_ne_none.mp (hall k (TxKey.mem_written k) hk)

theorem deserialize_throws_unaddressed :
    ∃ r e, @deserialize .arbitrary default unaddressedText = (.error e, r) ∧ e.IsInvalidArgument ∧
      ∃ done k rest v, TxKey.assigned = done ++ k :: rest ∧ given unaddressedText k = some v ∧
        ((@format .arbitrary).field k).read v = .error e ∧
        (∀ k' ∈ done, (@format .arbitrary).view r k' = (given unaddressedText k').elim
          ((@format .arbitrary).view default k') ((@format .arbitrary).field k').kept) ∧
        ∀ k' ∈ k :: rest, (@format .arbitrary).view r k' = (@format .arbitrary).view default k' := by
  obtain ⟨e, he⟩ := exists_error deserialize_unaddressed.1
  obtain ⟨hinvalid, -, hloads⟩ := @deserialize_throws .arbitrary _ _ _ _ (Prod.ext he rfl)
  exact ⟨_, e, Prod.ext he rfl, hinvalid, hloads complete_unaddressed⟩

theorem deserialize_throws_fails :
    ¬ ∀ (t r : Transaction) (s : Bytes) (e : Exception),
      @deserialize .arbitrary t s = (.error e, r) → e.IsInvalidArgument ∧ r = t := by
  intro h
  obtain ⟨e, he⟩ := exists_error deserialize_unaddressed.1
  have hsame := (h default (@deserialize .arbitrary default unaddressedText).2 unaddressedText e
    (Prod.ext he rfl)).2
  have hnonce := deserialize_unaddressed.2
  rw [congrArg nonce hsame] at hnonce
  exact absurd hnonce (by decide)

end MxSdk.Transaction
