import NoteShell.Text.Case
import NoteShell.Text.Search
import NoteShell.Decimal.Notation

/-!
# Failures of a chat provider

Each way in which a request can fail, its wording, and the failure that an HTTP status stands for.
-/

namespace NoteShell.Chat

open NoteShell.Text
open NoteShell.Decimal

/-- Why a chat request failed. -/
inductive ProviderError where
  | authenticationFailed (message : String)
  | rateLimited (message : String)
  | modelNotFound (model : String)
  | invalidRequest (message : String)
  | contextLengthExceeded (message : String)
  | serverError (message : String) (status : Nat)
  | networkError (message : String)
  | parseError (message : String)
  | other (message : String)
deriving DecidableEq

namespace ProviderError

/-- The wording of a failure. -/
def message : ProviderError → String
  | authenticationFailed m => "Authentication failed: " ++ m
  | rateLimited m => "Rate limited: " ++ m
  | modelNotFound m => "Model not found: " ++ m
  | invalidRequest m => "Invalid request: " ++ m
  | contextLengthExceeded m => "Context length exceeded: " ++ m
  | serverError m status => "Server error (" ++ natText status ++ "): " ++ m
  | networkError m => "Network error: " ++ m
  | parseError m => "Parse error: " ++ m
  | other m => m

/-- Whether a shorter request may succeed. -/
def isTooLarge : ProviderError → Bool
  | contextLengthExceeded _ => true
  | invalidRequest _ => true
  | _ => false

/-- No key is known for a provider. -/
def missingKey (provider : String) : ProviderError :=
  authenticationFailed ("API key not configured for " ++ provider)

/-- Whether the text of a refusal says that the request is too long. -/
private def mentionsLength (body : String) : Bool :=
  let body := lower body
  occursIn "context_length_exceeded" body || occursIn "maximum context length" body ||
    occursIn "too many tokens" body

/-- The failure that an HTTP status other than success stands for. -/
def ofStatus (status : Nat) (body provider : String) : ProviderError :=
  match status with
  | 401 => authenticationFailed (provider ++ ": Invalid API key")
  | 403 => authenticationFailed (provider ++ ": Access denied")
  | 404 => modelNotFound body
  | 413 => contextLengthExceeded body
  | 429 => rateLimited body
  | 400 => if mentionsLength body then contextLengthExceeded body else invalidRequest body
  | _ =>
    if 500 ≤ status ∧ status ≤ 599 then serverError body status
    else other ("HTTP " ++ natText status ++ ": " ++ body)

end ProviderError

end NoteShell.Chat
