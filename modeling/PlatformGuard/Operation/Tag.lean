import PlatformGuard.Operation.Basic

/-!
# Kinds of operations

The kind of an operation without its parts, with the name it has in exchanged data.
-/

namespace PlatformGuard

inductive OperationTag where
  | block
  | conditional
  | loop
  | switch
  | ret
  | raise
  | breakOut
  | continueLoop
  | invocation
  | delegateInvocation
  | memberReference
  | methodReference
  | objectCreation
  | literal
  | localReference
  | localAssignment
  | binary
  | unary
  | localFunction
  | lambda
  | other
deriving Repr, DecidableEq, Inhabited

namespace OperationTag

def name : OperationTag → String
  | block => "block"
  | conditional => "conditional"
  | loop => "loop"
  | switch => "switch"
  | ret => "return"
  | raise => "throw"
  | breakOut => "break"
  | continueLoop => "continue"
  | invocation => "invocation"
  | delegateInvocation => "delegate_invocation"
  | memberReference => "member_reference"
  | methodReference => "method_reference"
  | objectCreation => "object_creation"
  | literal => "literal"
  | localReference => "local_reference"
  | localAssignment => "local_assignment"
  | binary => "binary"
  | unary => "unary"
  | localFunction => "local_function"
  | lambda => "lambda"
  | other => "other"

/-- All kinds, in the order of their numbers. -/
def all : List OperationTag :=
  [block, conditional, loop, switch, ret, raise, breakOut, continueLoop, invocation,
    delegateInvocation,
   memberReference, methodReference, objectCreation, literal, localReference,
   localAssignment, binary, unary,
   localFunction, lambda, other]

def names : List (String × OperationTag) :=
  all.map fun tag => (tag.name, tag)

end OperationTag

def Operation.tag : Operation → OperationTag
  | .block .. => .block
  | .conditional .. => .conditional
  | .loop .. => .loop
  | .switch .. => .switch
  | .ret .. => .ret
  | .raise .. => .raise
  | .breakOut .. => .breakOut
  | .continueLoop .. => .continueLoop
  | .invocation .. => .invocation
  | .delegateInvocation .. => .delegateInvocation
  | .memberReference .. => .memberReference
  | .methodReference .. => .methodReference
  | .objectCreation .. => .objectCreation
  | .literal .. => .literal
  | .localReference .. => .localReference
  | .localAssignment .. => .localAssignment
  | .binary .. => .binary
  | .unary .. => .unary
  | .localFunction .. => .localFunction
  | .lambda .. => .lambda
  | .other .. => .other

end PlatformGuard
