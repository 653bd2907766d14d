import PlatformGuard.Operation.Basic

/-!
# Guided traversals

A traversal enters an operation, then its children one after the other, then leaves it. On entering,
the guide may ask to pass over the children, or to stop the whole traversal at once.
-/

namespace PlatformGuard.Operation

/-- What the guide asks for when an operation is entered. -/
inductive Guidance where
  | proceed
  | skipChildren
  | stop
deriving Repr, DecidableEq

inductive TraversalStep where
  | enter (op : Operation)
  | leave (op : Operation)

/-- The steps of a traversal, and whether it came to its end. -/
structure Traversal where
  steps : List TraversalStep
  completed : Bool

/-- One traversal after another; nothing comes after one that was stopped. -/
def Traversal.andThen (a b : Traversal) : Traversal :=
  if a.completed then ⟨a.steps ++ b.steps, b.completed⟩ else a

def traverse (guide : Operation → Guidance) : Operation → Traversal :=
  fold fun op below =>
    let entered : Traversal := ⟨[.enter op], true⟩
    let left : Traversal := ⟨[.leave op], true⟩
    match guide op with
    | .proceed => (below.foldl Traversal.andThen entered).andThen left
    | .skipChildren => entered.andThen left
    | .stop => ⟨[.enter op], false⟩

end PlatformGuard.Operation
