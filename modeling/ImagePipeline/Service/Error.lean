import ImagePipeline.Decimal.Numeral

/-!
# Errors of web services

What can go wrong between a request to a service and the value in its answer.

* `ServiceError.isNotFound` holds of the answers that say: there is no such thing.
-/

namespace ImagePipeline

/-- Why a request came to nothing. -/
inductive WebFault where
  /-- The address is none that a request can be sent to. -/
  | unusableUrl
  /-- A header that cannot be sent. -/
  | badHeader
  | unreachable
  | dropped
  | tooManyRedirects
  /-- A body of the wrong form. -/
  | badBody
deriving DecidableEq, Repr

/-- The text of a fault. -/
def WebFault.text : WebFault → String
  | unusableUrl => "builder error"
  | badHeader => "builder error: failed to parse header value"
  | unreachable | dropped => "error sending request"
  | tooManyRedirects => "error following redirect: too many redirects"
  | badBody => "error decoding response body"

/-- An error of a web service. -/
inductive ServiceError where
  | http (fault : WebFault)
  /-- A status that is no success. -/
  | status (url : String) (status : Nat)
  /-- A text in the answer that is not the JSON it should be. -/
  | json
  | unexpectedResponse (url message : String)
  | invalidUrl (text : String)
deriving DecidableEq, Repr

namespace ServiceError

/-- The text of an error. -/
def message : ServiceError → String
  | http fault => "HTTP request failed: " ++ fault.text
  | status url n => url ++ " returned HTTP " ++ Decimal.natText n
  | json => "JSON parse error: unexpected value"
  | unexpectedResponse url text => "Unexpected response from " ++ url ++ ": " ++ text
  | invalidUrl text => "Invalid URL: " ++ text

/-- Whether a service has not found what was asked for. -/
def isNotFound : ServiceError → Bool
  | status _ n => n = 404
  | _ => false

end ServiceError

end ImagePipeline
