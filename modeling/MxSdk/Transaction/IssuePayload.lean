import MxSdk.Transaction.PayloadBuilder

/-! What the payload of an issue says. The properties are left out where none is set, and
all nine of them are written elsewhere, so that they are known from the payload in both
cases. -/

namespace MxSdk

namespace ESDTProperties

/-- The properties under the names they are written with. -/
def named (t : ESDTProperties) : List (Bytes × Bool) :=
  [(ascii "canFreeze", t.canFreeze), (ascii "canWipe", t.canWipe),
    (ascii "canPause", t.canPause), (ascii "canMint", t.canMint), (ascii "canBurn", t.canBurn),
    (ascii "canChangeOwner", t.canChangeOwner), (ascii "canUpgrade", t.canUpgrade),
    (ascii "canAddSpecialRoles", t.canAddSpecialRoles),
    (ascii "canTransferNFTCreateRole", t.canTransferNFTCreateRole)]

def truth (val : Bool) : Bytes := if val then ascii "true" else ascii "false"

/-- A name and a truth value for every property, where one of them is set. -/
def told (t : ESDTProperties) : List Bytes :=
  if t.named.all (fun property => !property.2) then []
  else t.named.flatMap fun property => [property.1, truth property.2]

theorem truth_inj {a b : Bool} (h : truth a = truth b) : a = b := by
  have all : ∀ a b, truth a = truth b → a = b := by decide +kernel
  exact all a b h

theorem named_false_iff {t : ESDTProperties} :
    t.named.all (fun property => !property.2) = true ↔ t = esdtIssuanceDefaultProperties := by
  constructor
  · intro h
    cases t
    simp only [named, List.all_cons, List.all_nil, Bool.and_true, Bool.and_eq_true,
      Bool.not_eq_true'] at h
    simp only [h, esdtIssuanceDefaultProperties]
  · rintro rfl
    decide +kernel

theorem named_inj {t t' : ESDTProperties} (h : t.named.map Prod.snd = t'.named.map Prod.snd) :
    t = t' := by
  cases t
  cases t'
  simp only [named, List.map_cons, List.map_nil, List.cons.injEq, and_true] at h
  simp only [h]

theorem values_of_told {l l' : List (Bytes × Bool)}
    (h : (l.flatMap fun property => [property.1, truth property.2]) =
      l'.flatMap fun property => [property.1, truth property.2]) :
    l.map Prod.snd = l'.map Prod.snd := by
  induction l generalizing l' with
  | nil =>
    cases l' with
    | nil => rfl
    | cons property l' => cases h
  | cons property l ih =>
    cases l' with
    | nil => cases h
    | cons property' l' =>
      obtain ⟨-, hrest⟩ := List.cons.inj h
      obtain ⟨hvalue, hrest⟩ := List.cons.inj hrest
      rw [List.map_cons, List.map_cons, truth_inj hvalue, ih hrest]

theorem told_inj {t t' : ESDTProperties} (h : t.told = t'.told) : t = t' := by
  have hne (t : ESDTProperties) :
      (t.named.flatMap fun property => [property.1, truth property.2]) ≠ [] := nofun
  rw [told, told] at h
  split at h
  · rename_i hall
    split at h
    · rename_i hall'
      rw [named_false_iff.mp hall, named_false_iff.mp hall']
    · exact absurd h.symm (hne t')
  · split at h
    · exact absurd h (hne t)
    · exact named_inj (values_of_told h)

/-- The nine fields of the source, as pairs of fields. -/
theorem asOnData_eq (t : ESDTProperties) : esdtPropertiesAsOnData t =
    (t.named.flatMap fun property => [property.1, truth property.2]).flatMap
      fun field => chr '@' :: Hex.stringToHex field := by
  have hfield (property : Bytes) (val : Bool) : esdtPropertyField property val =
      [property, truth val].flatMap fun field => chr '@' :: Hex.stringToHex field := by
    rw [esdtPropertyField, truth]
    simp [ascii]
  simp only [esdtPropertiesAsOnData, hfield, named, List.flatMap_cons, List.flatMap_nil,
    List.flatMap_append, List.append_assoc, List.append_nil]

theorem written_eq (t : ESDTProperties) :
    (if t ≠ esdtIssuanceDefaultProperties then esdtPropertiesAsOnData t else []) =
      (t.told.map Hex.stringToHex).flatMap fun field => chr '@' :: field := by
  rw [told, if_congr named_false_iff rfl rfl, List.flatMap_map]
  by_cases h : t = esdtIssuanceDefaultProperties
  · rw [if_neg (not_not.mpr h), if_pos h]
    rfl
  · rw [if_pos h, if_neg h, asOnData_eq]

end ESDTProperties

namespace ESDTIssuePayloadBuilder

theorem build_join (t : ESDTIssuePayloadBuilder) :
    t.build = .ok (Fields.join (chr '@') esdtIssuancePrefix
      ((t.raws ++ t.esdtProperties.told).map Hex.stringToHex)) := by
  have hcall : (ContractCall.new []).fields = [] := rfl
  rw [build_eq, ESDTProperties.written_eq, payload, hcall, List.append_nil,
    ← Fields.join_append, ← List.map_append]

theorem build_recoverable :
    (∀ t : ESDTIssuePayloadBuilder, ∃ data fields, t.build = .ok data ∧
      parts data = ascii "issue" :: fields ∧
      fields.mapM Hex.hexToString = .ok ([t.token, t.ticker,
        BigEndian.bytes t.initialSupply.toNat, BigEndian.bytes t.numOfDecimals.toNat] ++
          t.esdtProperties.told)) ∧
    ∀ (t t' : ESDTIssuePayloadBuilder) (data : Bytes), t.build = .ok data → t'.build = .ok data →
      t.token = t'.token ∧ t.ticker = t'.ticker ∧
        t.initialSupply.toNat = t'.initialSupply.toNat ∧ t.numOfDecimals = t'.numOfDecimals ∧
        t.esdtProperties = t'.esdtProperties := by
  have hname : chr '@' ∉ esdtIssuancePrefix := by decide +kernel
  constructor
  · intro t
    exact ⟨_, _, t.build_join, parts_join hname (isHex_map _), mapM_hexToString _⟩
  · intro t t' data h h'
    have hdata := Except.ok.inj ((t.build_join.symm.trans h).trans (h'.symm.trans t'.build_join))
    have hfields := Fields.join_inj (chr '@')
      (fun field hfield => (isHex_map _ field hfield).no_separator)
      (fun field hfield => (isHex_map _ field hfield).no_separator) hdata
    have hraws := congrArg (List.mapM Hex.hexToString) hfields
    rw [mapM_hexToString, mapM_hexToString] at hraws
    obtain ⟨hfixed, htold⟩ := List.append_inj (Except.ok.inj hraws) rfl
    simp only [raws, List.cons.injEq, and_true] at hfixed
    obtain ⟨htoken, hticker, hsupply, hdecimals⟩ := hfixed
    refine ⟨htoken, hticker, BigEndian.bytes_inj hsupply, ?_, ESDTProperties.told_inj htold⟩
    exact UInt32.toNat_inj.mp (BigEndian.bytes_inj hdecimals)

end ESDTIssuePayloadBuilder

end MxSdk
