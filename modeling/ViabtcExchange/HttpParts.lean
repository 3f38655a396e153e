import Mathlib
import ViabtcExchange.Lib.Dict

/-!
# HTTP requests in parts

The callbacks of `ut_http_svr.c` and `ut_ws_svr.c` on the parser's data. The parser calls one for
each part of an element that a read contains, the parts in order. Url, name of a header and body
keep the last part, and a header is set with the first part of its value, as the flags are taken
back then.
-/

namespace ViabtcExchange

/-- The bytes of an element. A name or a value has no zero byte, at which the C strings would
end. -/
abbrev HttpText := List UInt8

/-- The key a header is found by: `strcasecmp` does not tell upper from lower case. -/
def headerKey (field : HttpText) : HttpText :=
  field.map fun c => if 65 ≤ c ∧ c ≤ 90 then c + 32 else c

/-- `http_request_t`, as far as the callbacks on data fill it in. -/
structure HttpRequest where
  url : Option HttpText
  headers : Dict HttpText HttpText
  body : Option HttpText

/-- `http_request_new`. -/
def HttpRequest.new : HttpRequest := ⟨none, ∅, none⟩

/-- `http_request_set_header`: a value is added to what the header has already. -/
def setHeader (headers : Dict HttpText HttpText) (field value : HttpText) : Dict HttpText HttpText :=
  match headers.find (headerKey field) with
  | some old => headers.insert (headerKey field) (old ++ [44, 32] ++ value)
  | none => headers.insert (headerKey field) value

/-- What the callbacks keep in `struct clt_info`. -/
structure HttpInfo where
  field : Option HttpText
  fieldSet : Bool
  value : Option HttpText
  valueSet : Bool
  request : HttpRequest

/-- The parser's calls. Every part of an element is a call of its own. -/
inductive HttpCall where
  | messageBegin
  | url (part : HttpText)
  | headerField (part : HttpText)
  | headerValue (part : HttpText)
  | body (part : HttpText)
deriving DecidableEq, Repr

namespace HttpInfo

def onMessageBegin (info : HttpInfo) : HttpInfo := { info with request := .new }

/-- `on_url` and `on_http_url`. -/
def onUrl (info : HttpInfo) (part : HttpText) : HttpInfo :=
  { info with request := { info.request with url := some part } }

/-- `on_header_field` and `on_http_header_field`. -/
def onHeaderField (info : HttpInfo) (part : HttpText) : HttpInfo :=
  { info with fieldSet := true, field := some part }

/-- `on_header_value` and `on_http_header_value`. -/
def onHeaderValue (info : HttpInfo) (part : HttpText) : HttpInfo :=
  let info := { info with valueSet := true, value := some part }
  if info.fieldSet = true ∧ info.valueSet = true then
    { info with
      request := { info.request with
        headers := setHeader info.request.headers (info.field.getD []) (info.value.getD []) }
      fieldSet := false
      valueSet := false }
  else info

/-- `on_body` and `on_http_body`, which does not free the body before. -/
def onBody (info : HttpInfo) (part : HttpText) : HttpInfo :=
  { info with request := { info.request with body := some part } }

def call (info : HttpInfo) : HttpCall → HttpInfo
  | .messageBegin => info.onMessageBegin
  | .url part => info.onUrl part
  | .headerField part => info.onHeaderField part
  | .headerValue part => info.onHeaderValue part
  | .body part => info.onBody part

/-- The calls for a request, at the end of which it is handed to `on_request`, or checked. -/
def execute (info : HttpInfo) (calls : List HttpCall) : HttpInfo := calls.foldl call info

end HttpInfo

/-! ## Elements and their parts -/

/-- An element as it comes: not empty and in parts that are not, or empty and in one part. -/
structure Parts where
  parts : List HttpText
  cut : parts = [[]] ∨ parts ≠ [] ∧ ∀ part ∈ parts, part ≠ []

namespace Parts

/-- The element. -/
def whole (p : Parts) : HttpText := p.parts.flatten

def first (p : Parts) : HttpText := p.parts.headD []

def last (p : Parts) : HttpText := p.parts.getLastD []

/-- The element in one read. -/
def joined (p : Parts) : Parts :=
  ⟨[p.whole], by
    rcases p.cut with h | ⟨hne, hparts⟩
    · left
      rw [whole, h]
      rfl
    · obtain ⟨part, rest, hcons⟩ := List.exists_cons_of_ne_nil hne
      refine .inr ⟨List.cons_ne_nil _ _, fun q hq hnil => ?_⟩
      rw [List.mem_singleton.mp hq, whole, List.flatten_eq_nil_iff] at hnil
      have hpart : part ∈ p.parts := by
        rw [hcons]
        exact List.mem_cons_self
      exact hparts part hpart (hnil part hpart)⟩

end Parts

/-- A request as it comes. There are no parts of a body where there is no body. -/
structure HttpParts where
  url : Parts
  headers : List (Parts × Parts)
  body : List HttpText
  body_cut : ∀ part ∈ body, part ≠ []

namespace HttpParts

def calls (request : HttpParts) : List HttpCall :=
  [.messageBegin] ++ request.url.parts.map .url ++
    request.headers.flatMap (fun header =>
      header.1.parts.map .headerField ++ header.2.parts.map .headerValue) ++
    request.body.map .body

/-- The same request in one read. -/
def joined (request : HttpParts) : HttpParts where
  url := request.url.joined
  headers := request.headers.map fun header => (header.1.joined, header.2.joined)
  body := if request.body = [] then [] else [request.body.flatten]
  body_cut := by
    intro part hpart
    split_ifs at hpart with hnil
    · cases hpart
    · obtain ⟨first, rest, hcons⟩ := List.exists_cons_of_ne_nil hnil
      rw [List.mem_singleton.mp hpart]
      intro hflat
      have hfirst : first ∈ request.body := by
        rw [hcons]
        exact List.mem_cons_self
      exact request.body_cut first hfirst (List.flatten_eq_nil_iff.mp hflat first hfirst)

end HttpParts

/-! ## What the callbacks make of the parts -/

namespace HttpInfo

end HttpInfo

/-! ## Parts and elements -/

namespace Parts

end Parts

/-! ## The weight of headers -/

end ViabtcExchange
