import StackScript.Host

/-! A host whose calls fail on request. It hands out given lines of input, and it is told which
of its calls fail and why. A call that fails takes no line of input. -/
namespace StackScript

/-- One of the two calls of a host: how often it was made, and which of the calls fail. -/
structure CallPlan where
  /-- The number of calls made so far. -/
  made : Nat
  /-- The calls that fail, counted from one, each with its reason. -/
  failures : List (Nat × String)
deriving DecidableEq, Repr

namespace CallPlan

/-- A plan before any call. -/
def ofFailures (failures : List (Nat × String)) : CallPlan := ⟨0, failures⟩

/-- The reason for which the next call fails, and the plan after it. -/
def next (plan : CallPlan) : Option String × CallPlan :=
  ((plan.failures.find? (·.1 = plan.made + 1)).map (·.2), { plan with made := plan.made + 1 })

end CallPlan

/-- A host that can fail. -/
structure FaultyHost where
  input : List String
  writes : CallPlan
  reads : CallPlan
deriving DecidableEq, Repr

namespace FaultyHost

/-- Carries out a call to write. -/
def write (host : FaultyHost) : Except String Unit × FaultyHost :=
  let (failure, writes) := host.writes.next
  let host := { host with writes }
  match failure with
  | some reason => (.error reason, host)
  | none => (.ok (), host)

/-- Carries out a call to read. -/
def read (host : FaultyHost) : Except String (Option String) × FaultyHost :=
  let (failure, reads) := host.reads.next
  let host := { host with reads }
  match failure with
  | some reason => (.error reason, host)
  | none => (.ok host.input.head?, { host with input := host.input.tail })

instance : Host (StateM FaultyHost) where
  writeLine _ := modifyGet write
  readLine _ := modifyGet read

end FaultyHost

end StackScript
