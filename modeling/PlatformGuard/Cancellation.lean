/-!
# Cancellation

A walk polls for cancellation as it goes, and one that finds itself cancelled is given up. When the
cancellation comes is told by the number of polls that still pass.

A board holds the tokens by which cancellations are asked for and seen: several
tokens may share one flag.
-/

namespace PlatformGuard

/-- Why an analysis was given up, or could not begin. -/
inductive AnalysisError where
  | cancelled
  | settings (message : String)
  | unreadable (message : String)
  | json (message : String)
deriving Repr, DecidableEq

def AnalysisError.message : AnalysisError → String
  | cancelled => "analysis was cancelled"
  | settings message => "invalid configuration: " ++ message
  | unreadable message => "I/O error: " ++ message
  | json message => "malformed compilation input: " ++ message

/-- When a cancellation comes: never, or after a number of polls. -/
inductive Cancellation where
  | never
  | after (polls : Nat)
deriving DecidableEq, Repr, Inhabited

namespace Cancellation

def now : Cancellation := after 0

/-- What is left of the time after one poll, unless the poll finds the cancellation. -/
def poll : Cancellation → Except AnalysisError Cancellation
  | never => .ok never
  | after 0 => .error .cancelled
  | after (n + 1) => .ok (after n)

end Cancellation

/-- Tokens, each by its flag, and the flags that are raised. -/
structure TokenBoard where
  flags : List Bool := [false]
  /-- The flag of each token. -/
  tokens : List Nat := [0]

namespace TokenBoard

/-- A token with a flag of its own. -/
def issue (b : TokenBoard) : TokenBoard :=
  { flags := b.flags ++ [false], tokens := b.tokens ++ [b.flags.length] }

/-- A second token with the flag of a token. -/
def share (b : TokenBoard) (token : Nat) : TokenBoard :=
  match b.tokens[token]? with
  | some flag => { b with tokens := b.tokens ++ [flag] }
  | none => b

def cancel (b : TokenBoard) (token : Nat) : TokenBoard :=
  match b.tokens[token]? with
  | some flag => { b with flags := b.flags.set flag true }
  | none => b

/-- Whether each token sees a raised flag. -/
def states (b : TokenBoard) : List Bool :=
  b.tokens.map fun flag => b.flags.getD flag false

end TokenBoard

end PlatformGuard
