import MxSdk.Lib.Dialogue
import MxSdk.Provider.ApiResponse

/-! wrappers/httpwrapper.h over the vendored HTTP library. What the library makes of a URL
and the texts it has for status codes are left open, and so is what a gateway answers. -/

namespace MxSdk

/-- The characters that a C string shows. -/
def cString (s : Bytes) : Bytes := s.takeWhile (· ≠ 0)

class Httplib where
  /-- The constructor of `httplib::Client`, which may not like the URL. -/
  newClient (url : Bytes) : Except Exception Unit
  statusMessage (status : Int) : Bytes

structure Httplib.Lawful [Httplib] : Prop where
  newClient_error : ∀ url e, newClient url = .error e → e ≠ .invalidAccess

namespace Http

structure Response where
  status : Int
  body : Bytes

/-- `httplib::Result`: a response or none, and whether its error is `Success`. -/
structure LibResult where
  response : Option Response
  success : Bool
  deriving Inhabited

inductive ContentType where
  | textPlain
  | applicationJson

inductive Request where
  | get (url path : Bytes)
  | post (url path body contentType : Bytes)

def statusCodeDefault : Int := -1
def contentTypePlainText : Bytes := ascii "text/plain"
def contentTypeJson : Bytes := ascii "application/json"

def getContentType : ContentType → Bytes
  | .applicationJson => contentTypeJson
  | .textPlain => contentTypePlainText

variable [Httplib]

def getStatusMessage (status : Int) : Bytes := Httplib.statusMessage status

/-- The status of a response goes no further than the message. -/
def wrappedResult (res : LibResult) : HttpResult :=
  match res.response with
  | some response =>
    { error := false, body := response.body, statusMessage := getStatusMessage response.status }
  | none =>
    { error := !res.success, body := [], statusMessage := getStatusMessage statusCodeDefault }

abbrev Conversation : Type := List (Request × LibResult)

abbrev Program (S α : Type) : Type := Script Request LibResult S Exception α

structure Client where
  url : Bytes

namespace Client

variable {S α : Type}

def new (url : Bytes) : Except Exception Client := do
  Httplib.newClient (cString url)
  .ok ⟨cString url⟩

def get (client : Client) (path : Bytes) : Program S HttpResult := do
  let res ← Script.ask (.get client.url (cString path))
  pure (wrappedResult res)

def post (client : Client) (path message : Bytes) (contentType : ContentType) :
    Program S HttpResult := do
  let res ← Script.ask (.post client.url (cString path) message (getContentType contentType))
  pure (wrappedResult res)

theorem new_ok_iff {url : Bytes} {client : Client} : new url = .ok client ↔
    Httplib.newClient (cString url) = .ok () ∧ client = ⟨cString url⟩ := by
  rw [new]
  cases Httplib.newClient (cString url) with
  | error e => exact iff_of_false nofun nofun
  | ok _ => exact ⟨fun h => ⟨rfl, (Except.ok.inj h).symm⟩, fun h => congrArg Except.ok h.2.symm⟩

theorem new_error {url : Bytes} {e : Exception} (h : new url = .error e) :
    Httplib.newClient (cString url) = .error e := by
  rcases bind_eq_error h with h | ⟨_, -, h⟩
  · exact h
  · cases h

theorem new_of_error {url : Bytes} {e : Exception}
    (h : Httplib.newClient (cString url) = .error e) : new url = .error e := by
  rw [new, h]
  rfl

variable {s s' : S} {t : Conversation} {outcome : Except Exception α}

theorem runs_get_lift_iff {client : Client} {path : Bytes}
    {read : HttpResult → Except Exception α} :
    (client.get path >>= fun result => Script.lift (read result) : Program S α).Runs s t outcome s' ↔
      ∃ res, t = [(.get client.url (cString path), res)] ∧ outcome = read (wrappedResult res) ∧
        s' = s := Script.runs_ask_lift_iff

theorem runs_post_lift_iff {client : Client} {path message : Bytes} {contentType : ContentType}
    {read : HttpResult → Except Exception α} :
    (client.post path message contentType >>= fun result =>
        Script.lift (read result) : Program S α).Runs s t outcome s' ↔
      ∃ res, t = [(.post client.url (cString path) message (getContentType contentType), res)] ∧
        outcome = read (wrappedResult res) ∧ s' = s := Script.runs_ask_lift_iff

end Client

end Http

end MxSdk
