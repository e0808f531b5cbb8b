import MxSdk.Lib.Straightline

/-! Records that are written out and read back field by field. Each field has a key
and a value of its own type; a document gives values to keys. Reading a document
into a record is a straight-line program with one statement for each key. -/

namespace MxSdk.Record
open Straightline

/-- A field of the record `σ`, written as a value of `ν`. `absent` is what reading
throws where the document has no value; without it the field keeps its content. -/
structure Field (ν ε σ : Type*) where
  Content : Type
  get : σ → Option Content
  set : Content → σ → σ
  put : Content → ν
  read : ν → Except ε Content
  absent : Option ε
  get_set : ∀ c s, get (set c s) = some c
  read_put : ∀ c, read (put c) = .ok c

namespace Field

variable {ν ε σ : Type*} (f : Field ν ε σ)

def view (s : σ) : Option ν := (f.get s).map f.put

/-- What is shown once `v` was read. -/
def kept (v : ν) : Option ν := (f.read v).toOption.map f.put

def load : Option ν → Statement ε σ
  | some v => (f.read v).map f.set
  | none =>
    match f.absent with
    | some e => .error e
    | none => .ok id

def Throws (P : ε → Prop) : Prop :=
  (∀ e, f.absent = some e → P e) ∧ ∀ v e, f.read v = .error e → P e

variable {f} {s : σ} {v : ν} {o : Option ν} {e : ε} {update : σ → σ}

theorem put_inj {c c' : f.Content} (h : f.put c = f.put c') : c = c' := by
  have hread := f.read_put c
  rw [h, f.read_put] at hread
  exact (Except.ok.inj hread).symm

theorem read_of_view (h : f.view s = some v) : ∃ c, f.read v = .ok c := by
  obtain ⟨c, -, rfl⟩ := Option.map_eq_some_iff.mp h
  exact ⟨c, f.read_put c⟩

theorem kept_of_view (h : f.view s = some v) : f.kept v = some v := by
  obtain ⟨c, -, rfl⟩ := Option.map_eq_some_iff.mp h
  rw [kept, f.read_put]
  rfl

theorem load_ok_iff : (∃ update, f.load o = .ok update) ↔
    o.elim (f.absent = none) fun v => ∃ c, f.read v = .ok c := by
  cases o with
  | none => cases habsent : f.absent <;> simp [load, habsent]
  | some v => cases hread : f.read v <;> simp [load, hread, Except.map]

theorem load_ok (h : f.load o = .ok update) :
    (o = none ∧ update = id) ∨ ∃ v c, o = some v ∧ f.read v = .ok c ∧ update = f.set c := by
  cases o with
  | none =>
    cases habsent : f.absent with
    | some e => simp [load, habsent] at h
    | none =>
      simp only [load, habsent] at h
      exact .inl ⟨rfl, (Except.ok.inj h).symm⟩
  | some v =>
    cases hread : f.read v with
    | error e => simp [load, hread, Except.map] at h
    | ok c =>
      simp only [load, hread, Except.map] at h
      exact .inr ⟨v, c, rfl, hread, (Except.ok.inj h).symm⟩

theorem view_load (h : f.load o = .ok update) : f.view (update s) = o.elim (f.view s) f.kept := by
  obtain ⟨rfl, rfl⟩ | ⟨v, c, rfl, hread, rfl⟩ := load_ok h
  · rfl
  · rw [view, f.get_set, Option.elim_some, kept, hread]
    rfl

theorem load_error (h : f.load o = .error e) :
    (o = none ∧ f.absent = some e) ∨ ∃ v, o = some v ∧ f.read v = .error e := by
  cases o with
  | none =>
    cases habsent : f.absent with
    | some e' =>
      simp only [load, habsent] at h
      exact .inl ⟨rfl, congrArg some (Except.error.inj h)⟩
    | none => simp [load, habsent] at h
  | some v =>
    cases hread : f.read v with
    | error e' =>
      simp only [load, hread, Except.map] at h
      exact .inr ⟨v, rfl, hread.trans (congrArg _ (Except.error.inj h))⟩
    | ok c => simp [load, hread, Except.map] at h

theorem Throws.load {P : ε → Prop} (hP : f.Throws P) (h : f.load o = .error e) : P e := by
  obtain ⟨-, habsent⟩ | ⟨v, -, hread⟩ := load_error h
  · exact hP.1 e habsent
  · exact hP.2 v e hread

end Field

/-- A record is determined by its fields, and they are set independently. -/
structure Format (κ ν ε σ : Type*) where
  field : κ → Field ν ε σ
  get_set_of_ne : ∀ {k k'}, k ≠ k' → ∀ c s, (field k').get ((field k).set c s) = (field k').get s
  ext : ∀ {s s'}, (∀ k, (field k).get s = (field k).get s') → s = s'

namespace Format

variable {κ ν ε σ : Type*} (F : Format κ ν ε σ)

def view (s : σ) (k : κ) : Option ν := (F.field k).view s

def loads (ks : List κ) (document : κ → Option ν) : List (Statement ε σ) :=
  ks.map fun k => (F.field k).load (document k)

variable {F} {document : κ → Option ν} {ks : List κ} {s s' t : σ} {e : ε}

variable (F) in
theorem ext_view (h : ∀ k, F.view s k = F.view s' k) : s = s' :=
  F.ext fun k => Option.map_injective (fun _ _ => Field.put_inj) (h k)

theorem view_load_of_ne {k k' : κ} {o : Option ν} {update : σ → σ} (hk : k ≠ k')
    (h : (F.field k).load o = .ok update) : F.view (update s) k' = F.view s k' := by
  obtain ⟨-, rfl⟩ | ⟨v, c, -, -, rfl⟩ := Field.load_ok h
  · rfl
  · rw [view, Field.view, F.get_set_of_ne hk]
    rfl

/-- After a document was read, a key shows the value given there. Keys that were not
read, or have no value there, show what they did before. -/
theorem view_exec [DecidableEq κ] (h : exec (F.loads ks document) s = (.ok (), s')) (k : κ) :
    F.view s' k =
      if k ∈ ks then (document k).elim (F.view s k) (F.field k).kept else F.view s k := by
  induction ks generalizing s with
  | nil =>
    rw [← (Prod.mk.inj h).2]
    rfl
  | cons k' ks ih =>
    obtain ⟨update, hload⟩ : ∃ update, (F.field k').load (document k') = .ok update :=
      exec_ok h _ List.mem_cons_self
    rw [loads, List.map_cons, hload] at h
    rw [ih h]
    by_cases hk : k' = k
    · subst hk
      rw [if_pos List.mem_cons_self, view, Field.view_load hload]
      cases document k' <;> simp [view]
    · rw [view_load_of_ne hk hload]
      simp [Ne.symm hk]

theorem exec_loads_ok (h : exec (F.loads ks document) s = (.ok (), s')) {k : κ} (hk : k ∈ ks) :
    (document k).elim ((F.field k).absent = none) fun v => ∃ c, (F.field k).read v = .ok c :=
  Field.load_ok_iff.mp (exec_ok h _ (List.mem_map_of_mem hk))

/-- What a record shows is read back as the record, into any record that shows
nothing under the other keys. -/
theorem exec_view (hks : ∀ k, k ∈ ks)
    (habsent : ∀ k, F.view t k = none → (F.field k).absent = none)
    (hs : ∀ k, F.view t k = none → F.view s k = none) :
    exec (F.loads ks (F.view t)) s = (.ok (), t) := by
  classical
  have hload : ∀ x ∈ F.loads ks (F.view t), ∃ update, x = .ok update := by
    intro x hx
    obtain ⟨k, -, rfl⟩ := List.mem_map.mp hx
    rw [Field.load_ok_iff]
    cases hview : F.view t k with
    | none => exact habsent k hview
    | some v => exact Field.read_of_view hview
  obtain ⟨s', hs'⟩ := exec_of_ok hload s
  rw [hs']
  refine congrArg _ (F.ext_view fun k => ?_)
  rw [view_exec hs', if_pos (hks k)]
  cases hview : F.view t k with
  | none => exact hs k hview
  | some v => exact Field.kept_of_view hview

theorem exec_loads_error (h : exec (F.loads ks document) s = (.error e, s')) :
    ∃ done k rest, ks = done ++ k :: rest ∧ (F.field k).load (document k) = .error e ∧
      exec (F.loads done document) s = (.ok (), s') := by
  obtain ⟨before, after, hsplit, hbefore⟩ := exec_error h
  obtain ⟨done, rest, rfl, rfl, hrest⟩ := List.map_eq_append_iff.mp hsplit
  obtain ⟨k, rest, rfl, hk, -⟩ := List.map_eq_cons_iff.mp hrest
  exact ⟨done, k, rest, rfl, hk, hbefore⟩

end Format

end MxSdk.Record
