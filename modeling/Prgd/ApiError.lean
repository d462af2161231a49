import Mathlib

/-!
# Errors of the API

`ApiError`: a stable code, a message and, for some errors, amounts.
-/
namespace Prgd

structure ApiError where
  status : ℕ
  code : String
  message : String
  details : List (String × ℤ) := []
  deriving DecidableEq, Repr

namespace ApiError

def notFound (resource id : String) : ApiError where
  status := 404
  code := "not_found"
  message := resource ++ " " ++ id ++ " not found"

def forbidden (message : String) : ApiError where
  status := 403
  code := "forbidden"
  message := message

def invalid (message : String) (details : List (String × ℤ)) : ApiError where
  status := 422
  code := "invalid_request"
  message := message
  details := details

def conflict (code message : String) : ApiError where
  status := 409
  code := code
  message := message

def spendLimit (message : String) (details : List (String × ℤ)) : ApiError where
  status := 402
  code := "spend_limit_reached"
  message := message
  details := details

def invalidState (message : String) : ApiError where
  status := 409
  code := "invalid_state"
  message := message

end ApiError

end Prgd
