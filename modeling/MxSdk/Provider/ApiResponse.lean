import MxSdk.Lib.Lines
import MxSdk.Vendor.Json.RoundTrip
import MxSdk.Wrappers.JsonWrapper

/-! provider/apiresponse.h and the `internal` functions of provider/proxyprovider.cpp:
what becomes of an answer of the gateway. The order of the members of an object, which
the library sorts here, is never looked at. -/

namespace MxSdk

namespace Json

def typeName : Json → Bytes
  | null => ascii "null"
  | object _ => ascii "object"
  | array _ => ascii "array"
  | string _ => ascii "string"
  | boolean _ => ascii "boolean"
  | numberUnsigned _ | numberInteger _ | numberFloat _ => ascii "number"

/-- `from_json` into a `std::string`. -/
def fromJson : Json → Except Exception Bytes
  | string s => .ok s
  | j => throw (.typeError 302
      (ascii "[json.exception.type_error.302] type must be string, but is " ++ j.typeName))

theorem fromJson_ok_iff {j : Json} {s : Bytes} : j.fromJson = .ok s ↔ j = .string s := by
  cases j with
  | string t => simp [fromJson]
  | null | boolean | numberUnsigned | numberInteger | numberFloat | array | object =>
    exact iff_of_false nofun nofun

end Json

/-- `utility::requireAttribute`, together with the read that follows it. -/
def requireAttribute (data : Json) (key : Bytes) : Except Exception Json :=
  match data.find key with
  | some member => .ok member
  | none => throw (keyNotFound key)

theorem requireAttribute_ok_iff {data member : Json} {key : Bytes} :
    requireAttribute data key = .ok member ↔ data.find key = some member := by
  rw [requireAttribute]
  cases data.find key with
  | none => exact iff_of_false nofun nofun
  | some found => simp

structure ErdGenericApiResponse where
  response : Json

namespace ErdGenericApiResponse

def new (rawData : Bytes) : Except Exception ErdGenericApiResponse :=
  match Json.parse rawData with
  | some response => .ok ⟨response⟩
  | none => throw (.invalidArgument (errorMsgJsonSerialized ++ rawData))

def getError (r : ErdGenericApiResponse) : Except Exception Bytes :=
  match r.response.find (ascii "error") with
  | none | some (.string []) => .ok []
  | some error => error.fromJson

def getCode (r : ErdGenericApiResponse) : Except Exception Bytes := do
  let code ← requireAttribute r.response (ascii "code")
  code.fromJson

def getData (r : ErdGenericApiResponse) : Except Exception Json :=
  requireAttribute r.response (ascii "data")

def checkSuccessfulOperation (r : ErdGenericApiResponse) : Except Exception Unit := do
  let error ← r.getError
  let code ← r.getCode
  let success := error.isEmpty && (Lines.find (ascii "success") code).isSome
  if success then .ok ()
  else throw (.runtimeError
    (errorMsgHttpRequestFailed ++ code ++ ascii ". " ++ errorMsgReason ++ error))

variable {r : ErdGenericApiResponse}

def NoErrorText (r : ErdGenericApiResponse) : Prop :=
  r.response.find (ascii "error") = none ∨ r.response.find (ascii "error") = some (.string [])

def HasCode (r : ErdGenericApiResponse) (code : Bytes) : Prop :=
  r.response.find (ascii "code") = some (.string code)

theorem new_ok_iff {rawData : Bytes} :
    new rawData = .ok r ↔ Json.parse rawData = some r.response := by
  rw [new]
  cases Json.parse rawData with
  | none => exact iff_of_false nofun nofun
  | some response =>
    rw [Except.ok.injEq, Option.some.injEq]
    exact ⟨fun h => h ▸ rfl, fun h => h ▸ rfl⟩

theorem getError_eq_nil_iff : r.getError = .ok [] ↔ r.NoErrorText := by
  rw [getError, NoErrorText]
  split
  · simp [*]
  · simp [*]
  · rename_i error hne herror
    rw [herror, Json.fromJson_ok_iff]
    exact iff_of_false hne (by simpa using hne)

theorem getCode_ok_iff {code : Bytes} : r.getCode = .ok code ↔ r.HasCode code := by
  rw [getCode, HasCode]
  constructor
  · intro h
    obtain ⟨member, hmember, hcode⟩ := bind_eq_ok h
    rw [requireAttribute_ok_iff.mp hmember, Json.fromJson_ok_iff.mp hcode]
  · intro h
    rw [requireAttribute_ok_iff.mpr h]
    rfl

theorem checkSuccessfulOperation_ok_iff : r.checkSuccessfulOperation = .ok () ↔
    r.NoErrorText ∧ ∃ code, r.HasCode code ∧ ascii "success" <:+: code := by
  constructor
  · intro h
    obtain ⟨error, herror, h⟩ := bind_eq_ok h
    obtain ⟨code, hcode, h⟩ := bind_eq_ok h
    simp only at h
    split at h
    · rename_i hsuccess
      rw [Bool.and_eq_true, List.isEmpty_iff] at hsuccess
      obtain ⟨rfl, hfind⟩ := hsuccess
      exact ⟨getError_eq_nil_iff.mp herror, code, getCode_ok_iff.mp hcode,
        Lines.isSome_find_iff.mp hfind⟩
    · cases h
  · rintro ⟨hnone, code, hcode, hinfix⟩
    rw [checkSuccessfulOperation, getError_eq_nil_iff.mpr hnone, getCode_ok_iff.mpr hcode]
    simp only [bind, Except.bind, List.isEmpty_nil, Lines.isSome_find_iff.mpr hinfix,
      Bool.and_self, if_true]

end ErdGenericApiResponse

/-- `wrapper::http::Result`, as far as it is read here. -/
structure HttpResult where
  error : Bool
  body : Bytes
  statusMessage : Bytes

namespace ProxyProvider
open ErdGenericApiResponse

def parse (res : HttpResult) : Except Exception ErdGenericApiResponse :=
  if res.error then throw (.runtimeError res.statusMessage) else ErdGenericApiResponse.new res.body

def getPayLoad (res : HttpResult) : Except Exception Json := do
  let response ← parse res
  response.checkSuccessfulOperation
  response.getData

theorem parse_ok_iff {res : HttpResult} {r : ErdGenericApiResponse} :
    parse res = .ok r ↔ res.error = false ∧ Json.parse res.body = some r.response := by
  rw [parse, ← new_ok_iff]
  cases res.error with
  | true => exact iff_of_false nofun nofun
  | false => simp

theorem getPayLoad_ok_iff {res : HttpResult} {data : Json} : getPayLoad res = .ok data ↔
    ∃ r : ErdGenericApiResponse, (res.error = false ∧ Json.parse res.body = some r.response) ∧
      (r.NoErrorText ∧ ∃ code, r.HasCode code ∧ ascii "success" <:+: code) ∧
      r.response.find (ascii "data") = some data := by
  constructor
  · intro h
    obtain ⟨r, hr, h⟩ := bind_eq_ok h
    obtain ⟨_, hcheck, hdata⟩ := bind_eq_ok h
    exact ⟨r, parse_ok_iff.mp hr, checkSuccessfulOperation_ok_iff.mp hcheck,
      requireAttribute_ok_iff.mp hdata⟩
  · rintro ⟨r, hr, hcheck, hdata⟩
    rw [getPayLoad, parse_ok_iff.mpr hr]
    simp only [bind, Except.bind, checkSuccessfulOperation_ok_iff.mpr hcheck]
    exact requireAttribute_ok_iff.mpr hdata

/-! The codes of success. The tests know two, the code takes every text that contains
the shorter one. -/

def IsSuccessCode (code : Bytes) : Prop := code = ascii "success" ∨ code = ascii "successful"

theorem IsSuccessCode.infix {code : Bytes} (h : IsSuccessCode code) :
    ascii "success" <:+: code := by
  rcases h with rfl | rfl
  · exact List.infix_rfl
  · exact ⟨[], ascii "ful", by decide⟩

theorem getPayLoad_of_success {res : HttpResult} {r : ErdGenericApiResponse} {code : Bytes}
    {data : Json} (hanswered : res.error = false) (hparse : Json.parse res.body = some r.response)
    (hnone : r.NoErrorText) (hcode : r.HasCode code) (hsuccess : IsSuccessCode code)
    (hdata : r.response.find (ascii "data") = some data) : getPayLoad res = .ok data :=
  getPayLoad_ok_iff.mpr ⟨r, ⟨hanswered, hparse⟩, ⟨hnone, code, hcode, hsuccess.infix⟩, hdata⟩

def Throws (res : HttpResult) : Prop := ∃ e, getPayLoad res = .error e

theorem throws_of_not_ok {res : HttpResult} (h : ∀ data, getPayLoad res ≠ .ok data) :
    Throws res := by
  cases hres : getPayLoad res with
  | error e => exact ⟨e, hres⟩
  | ok data => exact absurd hres (h data)

/-- No failure is taken as success. -/
structure SuccessOnly (res : HttpResult) : Prop where
  returned : ∀ data, getPayLoad res = .ok data → ∃ r : ErdGenericApiResponse,
    Json.parse res.body = some r.response ∧ r.NoErrorText ∧
      (∃ code, r.HasCode code ∧ IsSuccessCode code) ∧ r.response.find (ascii "data") = some data
  otherCode : ∀ (r : ErdGenericApiResponse) (code : Bytes),
    Json.parse res.body = some r.response → r.HasCode code → ¬ IsSuccessCode code → Throws res
  nonemptyError : ∀ (r : ErdGenericApiResponse) (error : Json),
    Json.parse res.body = some r.response →
      r.response.find (ascii "error") = some error → error ≠ .string [] → Throws res
  missing : ∀ r : ErdGenericApiResponse, Json.parse res.body = some r.response →
    r.response.find (ascii "code") = none ∨ r.response.find (ascii "data") = none → Throws res

/-- A complete answer without an error whose code is none of success but contains one. -/
def Misleading (res : HttpResult) : Prop :=
  res.error = false ∧ ∃ (r : ErdGenericApiResponse) (code : Bytes),
    Json.parse res.body = some r.response ∧ r.NoErrorText ∧ r.HasCode code ∧
      ascii "success" <:+: code ∧ ¬ IsSuccessCode code ∧
      (r.response.find (ascii "data")).isSome = true

theorem throws_of_error {res : HttpResult} {r : ErdGenericApiResponse} {error : Json}
    (hparse : Json.parse res.body = some r.response)
    (herror : r.response.find (ascii "error") = some error) (hne : error ≠ .string []) :
    Throws res := by
  refine throws_of_not_ok fun data h => ?_
  obtain ⟨r', ⟨-, hparse'⟩, ⟨hnone, -⟩, -⟩ := getPayLoad_ok_iff.mp h
  rw [NoErrorText, ← Option.some.inj (hparse.symm.trans hparse'), herror] at hnone
  rcases hnone with hnone | hnone
  · cases hnone
  · exact hne (Option.some.inj hnone)

theorem throws_of_missing {res : HttpResult} {r : ErdGenericApiResponse}
    (hparse : Json.parse res.body = some r.response)
    (hmissing : r.response.find (ascii "code") = none ∨ r.response.find (ascii "data") = none) :
    Throws res := by
  refine throws_of_not_ok fun data h => ?_
  obtain ⟨r', ⟨-, hparse'⟩, ⟨-, code, hcode, -⟩, hdata⟩ := getPayLoad_ok_iff.mp h
  have hr := Option.some.inj (hparse.symm.trans hparse')
  rcases hmissing with hnone | hnone
  · rw [HasCode, ← hr, hnone] at hcode
    cases hcode
  · rw [← hr, hnone] at hdata
    cases hdata

theorem success_of_ok {res : HttpResult} (h : ¬ Misleading res) {data : Json}
    (hok : getPayLoad res = .ok data) : ∃ r : ErdGenericApiResponse,
      Json.parse res.body = some r.response ∧ r.NoErrorText ∧
        (∃ code, r.HasCode code ∧ IsSuccessCode code) ∧
        r.response.find (ascii "data") = some data := by
  obtain ⟨r, ⟨hanswered, hparse⟩, ⟨hnone, code, hcode, hinfix⟩, hdata⟩ := getPayLoad_ok_iff.mp hok
  refine ⟨r, hparse, hnone, ⟨code, hcode, ?_⟩, hdata⟩
  by_contra hother
  exact h ⟨hanswered, r, code, hparse, hnone, hcode, hinfix, hother, by rw [hdata]; rfl⟩

theorem ok_of_misleading {res : HttpResult} (h : Misleading res) :
    ∃ (r : ErdGenericApiResponse) (code : Bytes) (data : Json),
      Json.parse res.body = some r.response ∧ r.HasCode code ∧ ¬ IsSuccessCode code ∧
        getPayLoad res = .ok data := by
  obtain ⟨hanswered, r, code, hparse, hnone, hcode, hinfix, hother, hdata⟩ := h
  obtain ⟨data, hdata⟩ := Option.isSome_iff_exists.mp hdata
  exact ⟨r, code, data, hparse, hcode, hother, getPayLoad_ok_iff.mpr
    ⟨r, ⟨hanswered, hparse⟩, ⟨hnone, code, hcode, hinfix⟩, hdata⟩⟩

theorem successOnly_iff (res : HttpResult) : SuccessOnly res ↔ ¬ Misleading res := by
  constructor
  · intro h hmisleading
    obtain ⟨r, code, data, hparse, hcode, hother, hok⟩ := ok_of_misleading hmisleading
    obtain ⟨e, he⟩ := h.otherCode r code hparse hcode hother
    cases hok.symm.trans he
  · intro h
    refine ⟨fun data => success_of_ok h, fun r code hparse hcode hother => ?_,
      fun r error => throws_of_error, fun r => throws_of_missing⟩
    refine throws_of_not_ok fun data hok => ?_
    obtain ⟨r', hparse', -, ⟨code', hcode', hsuccess⟩, -⟩ := success_of_ok h hok
    rw [HasCode, ← Option.some.inj (hparse.symm.trans hparse'), hcode] at hcode'
    exact hother (Json.string.inj (Option.some.inj hcode') ▸ hsuccess)

def unsuccessful : HttpResult where
  error := false
  body := ascii "\x7b\"data\":null,\"code\":\"unsuccessful\",\"error\":\"\"\x7d"
  statusMessage := ascii "OK"

theorem parse_unsuccessful : Json.parse unsuccessful.body = some (.object
    [(ascii "data", .null), (ascii "code", .string (ascii "unsuccessful")),
      (ascii "error", .string [])]) := by
  let _ : Platform := Platform.arbitrary
  refine Json.parse_dump ⟨by decide, trivial, trivial, trivial, trivial⟩ ?_
  rfl

theorem unsuccessful_accepted :
    getPayLoad unsuccessful = .ok .null ∧ ¬ SuccessOnly unsuccessful := by
  have hok : getPayLoad unsuccessful = .ok .null := getPayLoad_ok_iff.mpr
    ⟨⟨_⟩, ⟨rfl, parse_unsuccessful⟩, ⟨.inr rfl, ascii "unsuccessful", rfl, ascii "un", ascii "ful",
      by decide⟩, rfl⟩
  refine ⟨hok, fun h => ?_⟩
  obtain ⟨e, he⟩ := h.otherCode ⟨_⟩ (ascii "unsuccessful") parse_unsuccessful rfl
    (by rw [IsSuccessCode]; decide)
  cases hok.symm.trans he

end ProxyProvider

end MxSdk
