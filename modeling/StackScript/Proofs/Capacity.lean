import StackScript.Host.Transcript
import StackScript.Proofs.AlignedWalk
import StackScript.Proofs.Bounds

/-! The capacity of the operand stack decides about overflows and about nothing else. A machine is
aligned with itself with a larger capacity, where overflows of the smaller stack are excused: as
long as there is none, both do the same. -/
namespace StackScript.Capacity
open Exec Walk Progress StackScript.Alignment Bounds

/-- A machine whose stack has another capacity. -/
def withCapacity (machine : Machine) (capacity : Nat) : Machine :=
  { machine with stack := { machine.stack with capacity } }

/-- Whether a call failed because the stack was full. -/
def overflows : Except Error Outcome → Bool
  | .error (.executed (.stackOverflow _)) => true
  | _ => false

/-- A program that is executed twice, where overflows say nothing about the second time. -/
def twice (tokens : Array Token) : Alignment where
  program := tokens
  image := tokens
  offset := 0
  start := 1
  move := id
  cut := False
  excused error := overflows (.error error) = true
  Labelled labels others := others = labels
  Logged log other := other = log

theorem twice_alike {tokens : Array Token} {event other : Event}
    (alike : (twice tokens).Alike event other) : other = event := by
  cases alike with
  | dispatched index kind depth height labelled =>
    cases labelled
    rfl
  | _ => rfl

theorem twice_lawful (tokens : Array Token) : (twice tokens).Lawful where
  start_pos := Nat.one_pos
  token _ held := held
  operand := by
    intro index token _ _ _
    change variableBefore tokens index = (variableBefore tokens index).map (·.mapPosition id)
    rw [Token.map_mapPosition_id]
  column _ _ := Iff.rfl
  line _ _ := Iff.rfl
  whole _ := rfl
  excuse cut := cut.elim
  apart cut := cut.elim
  closed cut := cut.elim
  contains := by
    rintro labels _ rfl label
    rfl
  added := by
    rintro labels _ label range rfl _ _
    simp only [twice, BlockRange.shift_zero]
  logged := by
    rintro log _ event other rfl alike
    rw [twice_alike alike]
    rfl

/-- Machines that differ in their capacity are at the same place. -/
theorem twice_near {start : Machine} {small large : Nat} (le : small ≤ large)
    (within : start.pc ≤ start.tokens.size) :
    (twice start.tokens).Near (withCapacity start small) (withCapacity start large) where
  tokens := rfl
  twinTokens := rfl
  counter := rfl
  near := Nat.le_add_left _ _
  within := within
  values := rfl
  capacity := .inr ⟨le, rfl⟩
  bindings := rfl
  labels := rfl
  depth := rfl
  log := rfl

/-- Machines at the same place differ in their capacity only. -/
theorem eq_of_twice {tokens : Array Token} {machine twin : Machine}
    (near : (twice tokens).Near machine twin) :
    twin = withCapacity machine twin.stack.capacity := by
  obtain ⟨first, second, counter, _, _, values, _, bindings, labels, depth, log⟩ := near
  rcases twin with ⟨_, _, ⟨_, _⟩, _, _, _, _⟩
  rcases machine with ⟨_, _, ⟨_, _⟩, _, _, _, _⟩
  cases first
  cases second
  cases counter
  cases values
  cases bindings
  cases labels
  cases depth
  cases log
  rfl

section Calls
variable {σ : Type} [Host (StateM σ)] {small large : Nat} (le : small ≤ large) (start : Machine)
  (host : σ)
include le

/-- A call that does not overflow is the same call with a larger stack. -/
theorem call_of_fits
    (fits : overflows (call (withCapacity start small) host).1.1 = false) :
    let narrow := call (withCapacity start small) host
    call (withCapacity start large) host =
      ((narrow.1.1, withCapacity narrow.1.2 large), narrow.2) := by
  intro narrow
  by_cases within : start.pc ≤ start.tokens.size
  · have alike := call_alike (twice_lawful start.tokens) host id (twice_near le within)
    rcases alike with ⟨error, failed, excused⟩ | ⟨outcome, later, near⟩
    · have full : overflows (.error error) = true := excused
      rw [failed, full] at fits
      cases fits
    · have state := eq_of_twice near
      rw [call_capacity] at state
      exact Prod.ext (Prod.ext (outcome.trans (Error.mapError_mapPosition_id _)) state) later
  · -- Past its end a program does nothing, with any stack.
    have ended : start.tokens.size ≤ start.pc := by omega
    have done (capacity : Nat) : call (withCapacity start capacity) host =
        ((.ok (.completed start.stack.bottomUp), withCapacity start capacity), host) :=
      call_ended host ended
    have here : narrow = _ := done small
    rw [here, done large]
    rfl

end Calls

/-- A call on a stack of some capacity, from any state and on any host, and the same call on a
larger stack. If the first one does not overflow, the second one makes the same calls of the host
and ends in the same way and in the same state, but for its capacity. So what overflows a stack
overflows every smaller one. -/
theorem call_withCapacity {σ : Type} [Host (StateM σ)] {small large : Nat} (le : small ≤ large)
    (start : Machine) (host : σ) :
    let narrow := call (withCapacity start small) host
    let wide := call (withCapacity start large) host
    (overflows narrow.1.1 = false →
      wide = ((narrow.1.1, withCapacity narrow.1.2 large), narrow.2)) ∧
    (overflows wide.1.1 = true → overflows narrow.1.1 = true) := by
  intro narrow wide
  have same := call_of_fits le start host
  refine ⟨same, fun full => ?_⟩
  by_cases fits : overflows narrow.1.1 = false
  · have ended : wide.1.1 = narrow.1.1 := congrArg (·.1.1) (same fits)
    rw [← ended, full] at fits
    cases fits
  · exact (Bool.not_eq_false _).mp fits

/-- A program that leaves two values on the stack while it writes a third one. -/
def threeValues : Array Token :=
  #[⟨.boolean, .boolean true, ⟨1, 0⟩⟩, ⟨.string, .string "a", ⟨1, 5⟩⟩,
    ⟨.command .print, .absent, ⟨2, 0⟩⟩, ⟨.string, .string "b", ⟨2, 6⟩⟩]

theorem call_withCapacity_threeValues :
    let start := Machine.load threeValues 0
    let ended (capacity : Nat) := call (withCapacity start capacity) (Transcript.ofInput [])
    overflows (ended 1).1.1 = true ∧ overflows (ended 0).1.1 = true ∧
      (ended 2).2.output = ["b"] ∧
      ended 7 = (((ended 2).1.1, withCapacity (ended 2).1.2 7), (ended 2).2) := by
  have smaller :=
    (call_withCapacity (Nat.zero_le 1) (Machine.load threeValues 0) (Transcript.ofInput [])).2
  have larger : 2 ≤ 7 := by decide
  have same := (call_withCapacity larger (Machine.load threeValues 0) (Transcript.ofInput [])).1
  dsimp only at smaller same ⊢
  have full : overflows (call (withCapacity (Machine.load threeValues 0) 1)
      (Transcript.ofInput [])).1.1 = true := by decide +kernel
  refine ⟨full, smaller full, by decide +kernel, same ?_⟩
  decide +kernel

end StackScript.Capacity
