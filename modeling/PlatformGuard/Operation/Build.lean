import PlatformGuard.Operation.Basic

/-!
# Making operation trees

Short names for the operations of a body. What they make stands nowhere (the zero
span) until it is placed.
-/

namespace PlatformGuard.Operation

def placed (op : Operation) (line column : UInt64) : Operation :=
  op.withSpan (.onLine line column 0)

def sequence (operations : List Operation) : Operation := .block {} operations

def ifThen (condition whenTrue : Operation) : Operation := .conditional {} condition whenTrue none

def ifElse (condition whenTrue whenFalse : Operation) : Operation :=
  .conditional {} condition whenTrue (some whenFalse)

def whileLoop (condition body : Operation) : Operation := .loop {} (some condition) body

def switchOn (value : Operation) (cases : List Operation) : Operation := .switch {} value cases

def leave : Operation := .ret {} none

def leaveWith (value : Operation) : Operation := .ret {} (some value)

def fail : Operation := .raise {} none

def breakHere : Operation := .breakOut {}

def continueHere : Operation := .continueLoop {}

def call (target : SymbolId) (arguments : List Operation) : Operation :=
    .invocation {} target none arguments

def callOn (receiver : Operation) (target : SymbolId) (arguments : List Operation) : Operation :=
  .invocation {} target (some receiver) arguments

def callDelegate (target : Operation) (arguments : List Operation) : Operation :=
  .delegateInvocation {} target arguments

def member (member : SymbolId) : Operation := .memberReference {} member none

def methodGroup (method : SymbolId) : Operation := .methodReference {} method

def create (constructor : SymbolId) (arguments : List Operation) : Operation :=
  .objectCreation {} constructor arguments

def boolean (value : Bool) : Operation := .literal {} (.bool value)

def number (value : Int64) : Operation := .literal {} (.int value)

def text (value : String) : Operation := .literal {} (.string value)

def readLocal (var : LocalId) : Operation := .localReference {} var

def assign (var : LocalId) (value : Operation) : Operation := .localAssignment {} var (some value)

def declare (var : LocalId) : Operation := .localAssignment {} var none

def both (left right : Operation) : Operation := .binary {} .and left right

def either (left right : Operation) : Operation := .binary {} .or left right

def equal (left right : Operation) : Operation := .binary {} .equals left right

def notEqual (left right : Operation) : Operation := .binary {} .notEquals left right

def negated (operand : Operation) : Operation := .unary {} .not operand

def defineFunction (symbol : SymbolId) (body : Operation) : Operation :=
    .localFunction {} symbol body

def function (body : Operation) : Operation := .lambda {} body

def group (children : List Operation) : Operation := .other {} children

end PlatformGuard.Operation
