import Offload.Object

/-!
Tasks: a kernel by name, the objects it works on, and the domain it runs over.
-/

namespace Offload

inductive Access
  | read
  | write
  | readWrite
  deriving DecidableEq, Repr

namespace Access

def all : List Access :=
  [.read, .write, .readWrite]

def reads : Access → Bool
  | .read | .readWrite => true
  | .write => false

def writes : Access → Bool
  | .write | .readWrite => true
  | .read => false

def name : Access → String
  | .read => "Read"
  | .write => "Write"
  | .readWrite => "ReadWrite"

end Access

structure Argument where
  object : HostObject
  access : Access
  deriving DecidableEq, Repr

structure Task where
  id : String
  kernel : String
  arguments : List Argument
  domain : List Nat
  /-- The machine waits for each launch and fails when its kernel does. -/
  exceptions : Bool := false
  deriving DecidableEq, Repr

def Task.describe (t : Task) : String :=
  Text.record "Task"
    [("id", Text.quote t.id), ("kernel", Text.quote t.kernel), ("args", toString t.arguments.length),
      ("domain", Text.naturals t.domain), ("enable_exceptions", toString t.exceptions)]

end Offload
