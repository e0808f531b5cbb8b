import MxSdk.Transaction.Format

/-! `deserialize` loads the values of a JSON text in the order of its assignments. The
checks in front of it anticipate exceptions the loading would throw, so they decide
only which of them is thrown and that nothing was assigned by then. -/

namespace MxSdk.Transaction
open Straightline Record

def document (json : OrderedJson) (k : TxKey) : Option Json := json.find k.text

def given (s : Bytes) (k : TxKey) : Option Json :=
  (Json.parse s).bind fun json => document json k

theorem given_eq {s : Bytes} {json : Json} (h : Json.parse s = some json) :
    given s = document json := by
  funext k
  rw [given, h, Option.bind_some]

theorem given_none {s : Bytes} (h : Json.parse s = none) (k : TxKey) : given s k = none := by
  rw [given, h, Option.bind_none]

/-- The text is an object with every key that must be there. -/
def Complete (s : Bytes) : Prop := ∀ k : TxKey, k.isOptional = false → given s k ≠ none

section Checks
variable (json : OrderedJson)

theorem isCheck_require (key what : Bytes) : IsCheck (require json key what) := by
  intro update h
  unfold require at h
  split at h
  · exact (Except.ok.inj h).symm
  · cases h

theorem require_ok {key what : Bytes} (h : (json.find key).isSome) :
    require json key what = .ok id := if_pos h

theorem isSome_of_require {key what : Bytes} {update : Transaction → Transaction}
    (h : require json key what = .ok update) : (json.find key).isSome := by
  unfold require at h
  split at h
  · assumption
  · cases h

theorem require_error {key what : Bytes} {e : Exception} (h : require json key what = .error e) :
    e.IsInvalidArgument ∧ json.find key = none := by
  unfold require at h
  split at h
  · cases h
  · rename_i hnone
    exact ⟨Except.error.inj h ▸ trivial, Option.not_isSome_iff_eq_none.mp hnone⟩

theorem exec_required (t : Transaction) :
    ∃ outcome, exec (TxKey.required.map fun r => require json r.1.text r.2) t = (outcome, t) := by
  refine ⟨_, Prod.ext rfl (exec_checks (fun x hx => ?_) t)⟩
  obtain ⟨r, -, rfl⟩ := List.mem_map.mp hx
  exact isCheck_require json r.1.text r.2

end Checks

variable [Platform]

theorem statements_eq (json : OrderedJson) :
    statements json = TxKey.required.map (fun r => require json r.1.text r.2) ++
      format.loads TxKey.assigned (document json) := by
  have hfields : ∀ k, (format.field k).load (document json k) = (field k).load (json.find k.text) :=
    fun _ => rfl
  simp only [statements, TxKey.required, TxKey.assigned, Format.loads, List.map_cons, List.map_nil,
    List.cons_append, List.nil_append, hfields, field, TxKey.text, load_made, load_mandatory,
    load_optional]

/-- The checks throw only where loading would. -/
theorem exec_required_of_loads {json : OrderedJson} {t r : Transaction}
    (h : exec (format.loads TxKey.assigned (document json)) t = (.ok (), r)) :
    exec (TxKey.required.map fun r => require json r.1.text r.2) t = (.ok (), t) := by
  have hok : ∀ x ∈ TxKey.required.map (fun r => require json r.1.text r.2),
      ∃ update, x = .ok update := by
    intro x hx
    obtain ⟨e, he, rfl⟩ := List.mem_map.mp hx
    refine ⟨id, require_ok json ?_⟩
    have hload := Format.exec_loads_ok h e.1.mem_assigned
    have hopt := TxKey.required_not_optional e he
    cases hfind : json.find e.1.text with
    | some v => rfl
    | none =>
      rw [document, hfind, Option.elim_none] at hload
      rw [absent_eq_none_iff.mp hload] at hopt
      cases hopt
  obtain ⟨t', ht'⟩ := exec_of_ok hok t
  obtain ⟨outcome, hsame⟩ := exec_required json t
  rw [hsame] at ht' ⊢
  rw [(Prod.mk.inj ht').1]

theorem deserialize_eq (t : Transaction) {s : Bytes} {json : OrderedJson}
    (h : Json.parse s = some json) : deserialize t s = exec (statements json) t := by
  rw [deserialize, OrderedJson.deserialize, h]

theorem deserialize_none (t : Transaction) {s : Bytes} (h : Json.parse s = none) :
    deserialize t s = (.error (.invalidArgument (errorMsgJsonSerialized ++ s)), t) := by
  rw [deserialize, OrderedJson.deserialize, h]
  rfl

theorem deserialize_ok_iff {t r : Transaction} {s : Bytes} :
    deserialize t s = (.ok (), r) ↔
      exec (format.loads TxKey.assigned (given s)) t = (.ok (), r) := by
  cases hparse : Json.parse s with
  | none =>
    rw [deserialize_none t hparse]
    refine ⟨nofun, fun h => ?_⟩
    have hnonce := Format.exec_loads_ok h (TxKey.mem_assigned .nonce)
    rw [given_none hparse, Option.elim_none] at hnonce
    cases hnonce
  | some json =>
    rw [given_eq hparse, deserialize_eq t hparse, statements_eq]
    constructor
    · intro h
      obtain ⟨outcome, hrequired⟩ := exec_required json t
      cases outcome with
      | error e =>
        rw [exec_append_error hrequired] at h
        cases h
      | ok u => rwa [exec_append hrequired] at h
    · intro h
      rw [exec_append (exec_required_of_loads h), h]

theorem deserialize_error {t r : Transaction} {s : Bytes} {e : Exception}
    (h : deserialize t s = (.error e, r)) :
    (e.IsInvalidArgument ∧ r = t ∧ ¬ Complete s) ∨
      Complete s ∧ exec (format.loads TxKey.assigned (given s)) t = (.error e, r) := by
  cases hparse : Json.parse s with
  | none =>
    rw [deserialize_none t hparse] at h
    obtain ⟨he, rfl⟩ := Prod.mk.inj h
    exact .inl ⟨Except.error.inj he ▸ trivial, rfl, fun hs => hs .nonce rfl (given_none hparse _)⟩
  | some json =>
    rw [Complete, given_eq hparse]
    rw [deserialize_eq t hparse, statements_eq] at h
    obtain ⟨outcome, hrequired⟩ := exec_required json t
    cases outcome with
    | error e' =>
      rw [exec_append_error hrequired] at h
      obtain ⟨he, rfl⟩ := Prod.mk.inj h
      obtain ⟨before, after, hsplit, -⟩ := exec_error hrequired
      have hmem : .error e' ∈ TxKey.required.map fun r => require json r.1.text r.2 := by
        rw [hsplit]
        exact List.mem_append_right _ List.mem_cons_self
      obtain ⟨q, hq, hthrow⟩ := List.mem_map.mp hmem
      obtain ⟨hinvalid, hnone⟩ := require_error json hthrow
      exact .inl ⟨Except.error.inj he ▸ hinvalid, rfl,
        fun hs => hs q.1 (TxKey.required_not_optional q hq) hnone⟩
    | ok u =>
      rw [exec_append hrequired] at h
      refine .inr ⟨fun k hk => ?_, h⟩
      obtain ⟨q, hq, rfl⟩ := TxKey.mem_required hk
      obtain ⟨update, hcheck⟩ := exec_ok hrequired _ (List.mem_map_of_mem hq)
      exact Option.isSome_iff_ne_none.mp (isSome_of_require json hcheck)

theorem deserialize_error_invalid {t r : Transaction} {s : Bytes} {e : Exception}
    (h : deserialize t s = (.error e, r)) : e.IsInvalidArgument := by
  obtain ⟨he, -⟩ | ⟨-, hloads⟩ := deserialize_error h
  · exact he
  · obtain ⟨done, k, rest, -, hload, -⟩ := Format.exec_loads_error hloads
    exact (throws_field k).load hload

/-- Every key has a value that can be read, or may do without. -/
def Readable (s : Bytes) : Prop :=
  ∀ k, (given s k).elim (k.isOptional = true) fun v => ∃ c, (format.field k).read v = .ok c

/-- What is accepted does not depend on the object. -/
theorem deserialize_fst_iff {t : Transaction} {s : Bytes} :
    (deserialize t s).1 = .ok () ↔ Readable s := by
  constructor
  · intro h k
    have hexec := deserialize_ok_iff.mp (Prod.ext h rfl : deserialize t s = (.ok (), _))
    have hload := Format.exec_loads_ok hexec k.mem_assigned
    cases hgiven : given s k with
    | none =>
      rw [hgiven] at hload
      exact absent_eq_none_iff.mp hload
    | some v =>
      rwa [hgiven] at hload
  · intro h
    have hok : ∀ x ∈ format.loads TxKey.assigned (given s), ∃ update, x = .ok update := by
      intro x hx
      obtain ⟨k, -, rfl⟩ := List.mem_map.mp hx
      have hk := h k
      rw [Field.load_ok_iff]
      cases hgiven : given s k with
      | none =>
        rw [hgiven] at hk
        exact absent_eq_none_iff.mpr hk
      | some v => rwa [hgiven] at hk
    obtain ⟨r, hr⟩ := exec_of_ok hok t
    rw [deserialize_ok_iff.mpr hr]

theorem deserialize_of_readable {s : Bytes} (h : Readable s) (t : Transaction) :
    ∃ r, deserialize t s = (.ok (), r) :=
  ⟨_, Prod.ext (deserialize_fst_iff.mpr h) rfl⟩

theorem view_deserialize {t r : Transaction} {s : Bytes} (h : deserialize t s = (.ok (), r))
    (k : TxKey) :
    format.view r k = (given s k).elim (format.view t k) (format.field k).kept := by
  rw [Format.view_exec (deserialize_ok_iff.mp h), if_pos k.mem_assigned]

end MxSdk.Transaction
