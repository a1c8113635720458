/-!
# Cancellation

Long work asks its token between steps whether it is still wanted, and gives up with nothing to
show once the answer is yes. The token belongs to whoever asked for the work: a clock, another
thread, or a service that the work itself calls may raise it at any time.

So work runs in some state `σ` that holds, among other things, what the token will answer. A token
is a way to poll that state, services change it, and a schedule of answers is the plainest instance:
the state is then the number of polls made so far.
-/

namespace TreeLint

/-- Work was given up because its token was raised. -/
structure Cancelled where
  deriving DecidableEq, Repr

def Cancelled.message (_ : Cancelled) : String := "operation was cancelled"

/-- A token in a state: a poll answers whether it has been raised, and time may pass. -/
structure CancelToken (σ : Type) where
  poll : σ → Bool × σ

/-- Work in a state that may be given up. -/
abbrev Task (σ α : Type) := ExceptT Cancelled (StateM σ) α

namespace CancelToken

/-- The token that nobody raises. -/
def never {σ : Type} : CancelToken σ := ⟨fun state => (false, state)⟩

/-- The token that shows a flag of the state. -/
def watching {σ : Type} (raised : σ → Bool) : CancelToken σ := ⟨fun state => (raised state, state)⟩

/-- The token that answers by a schedule, one entry for each poll. -/
def scheduled (answer : Nat → Bool) : CancelToken Nat := ⟨fun polls => (answer polls, polls + 1)⟩

def isRaised {σ : Type} (token : CancelToken σ) : StateM σ Bool := token.poll

/-- Goes on only if the token has not been raised. -/
def check {σ : Type} (token : CancelToken σ) : Task σ Unit := fun state =>
  match token.poll state with
  | (true, state) => (.error ⟨⟩, state)
  | (false, state) => (.ok (), state)

end CancelToken

end TreeLint
