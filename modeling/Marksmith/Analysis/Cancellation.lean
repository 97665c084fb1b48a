/-!
Cancellation. An operation is given a token before it starts; at a checkpoint it gives up if the
token is cancelled.
-/

namespace Marksmith

/-- Whether an operation is to be given up. -/
structure Token where
  cancelled : Bool
deriving DecidableEq, Repr

/-- An operation has been given up. -/
inductive Cancelled where
  | cancelled
deriving DecidableEq, Repr

/-- The wording of a cancellation. -/
def Cancelled.message (_ : Cancelled) : String := "generation was cancelled"

namespace Token

/-- A token that is not cancelled. -/
def live : Token := ⟨false⟩

/-- Gives up if the token is cancelled. -/
def checkpoint (token : Token) : Except Cancelled Unit :=
  if token.cancelled then .error .cancelled else .ok ()

end Token

end Marksmith
