import VibeRouter.Gateway.Errors
import VibeRouter.Gateway.Routes
import VibeRouter.Lib.JsonRead
import VibeRouter.Lib.Regex

/-! # What adapters share

The stream of `data:` payloads a provider answers with: the payloads in order, and how the
connection ended. -/

namespace VibeRouter

/-! ### Provider streams -/

/-- What `fetch`, the reader of the body and the adapters throw. -/
inductive ProviderFailure
  | router (e : RouterError)
  | http (status : ℤ) (bodyText : JsString) (retryAfterSeconds : Option ℚ)
  | timeout
  | abort (message : String)
  | network (message : String)
  | error (message : String)
  | other

/-- What `postSse` yields, and how it ends. -/
structure ProviderStream where
  events : List JsString
  ended : Except ProviderFailure Unit

/-- `JSON.parse(data)`; `none` is the `SyntaxError`. -/
abbrev parseData (data : JsString) : Option Json := Json.parse data

end VibeRouter
