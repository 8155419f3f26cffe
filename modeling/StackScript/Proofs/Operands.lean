import Mathlib.Control.Monad.Basic
import StackScript.Host.Transcript
import StackScript.Proofs.Evaluation

/-! Taking an operand, where a value or an expression is asked for, gives the value of its tree.
The limit on nesting is the only way in which the machine can fall short of the tree: an operand
that is higher than the levels left fails, with the fault that its tree meets first or because a
level is missing, and any other operand has exactly the result of its tree. -/
namespace StackScript.Operands
open Exec Walk Evaluation

/-- The result of a tree when constructs may be nested without a limit. The left operand comes
before the right one, and both before the operator. -/
def reference (bindings : Table Value) : Expression → Except Error Value
  | .literal token => .ok (.ofLiteral token.literal)
  | .name text position =>
    match bindings.get? text with
    | some value => .ok value
    | none => .error (.meant (.undefinedVariable text position))
  | .compare _ left operator _ right _ => do
    let leftValue ← reference bindings left
    let rightValue ← reference bindings right
    return .boolean
      (← Expression.applyOperator operator operator.keyword leftValue rightValue right.lastPlace)
  | .differ _ left _ _ right _ => do
    let leftValue ← reference bindings left
    let rightValue ← reference bindings right
    return .boolean
      !(← Expression.applyOperator .equal "NOT EQ" leftValue rightValue right.lastPlace)
  | .negate _ _ operand _ => do
    let value ← reference bindings operand
    return .boolean !(← Expression.demandBoolean "NOT" value operand.lastPlace)
  | .arithmetic _ operation _ left right => do
    let leftValue ← reference bindings left
    let rightValue ← reference bindings right
    Expression.applyArithmetic operation leftValue rightValue right.lastPlace

/-- The fault that no nesting level is left. -/
def IsTooDeep (error : Error) : Prop :=
  ∃ position, error = .executed (.nestingTooDeep Machine.nestingLimit position)

/-- A result under a limit beside the result without one. What fits is the same; what does not fit
fails, with the fault it has without the limit or for the lack of a level. -/
structure Limited {α : Type} (fits : Prop) (limited full : Except Error α) : Prop where
  same : fits → limited = full
  fails : ¬ fits → ∃ error, limited = .error error ∧ (full = .error error ∨ IsTooDeep error)

section Limits
variable {α β : Type} {fits further : Prop} {limited full : Except Error α}

theorem limited_refl (result : Except Error α) : Limited True result result :=
  ⟨fun _ => rfl, fun never => (never trivial).elim⟩

theorem limited_congr (equivalent : fits ↔ further) (bounded : Limited fits limited full) :
    Limited further limited full :=
  ⟨fun held => bounded.same (equivalent.mpr held),
    fun failed => bounded.fails fun held => failed (equivalent.mp held)⟩

/-- The parts of a sequence fit if each of them does, and the first one that does not fit ends
it. -/
theorem limited_bind {next later : α → Except Error β} (first : Limited fits limited full)
    (rest : ∀ value, Limited further (next value) (later value)) :
    Limited (fits ∧ further) (limited >>= next) (full >>= later) := by
  constructor
  · rintro ⟨here, there⟩
    rw [first.same here]
    congr 1
    exact funext fun value => (rest value).same there
  · intro failed
    by_cases here : fits
    · rw [first.same here]
      have there : ¬ further := fun held => failed ⟨here, held⟩
      rcases full with error | value
      · exact ⟨error, rfl, .inl rfl⟩
      · exact (rest value).fails there
    · obtain ⟨error, stopped, cause⟩ := first.fails here
      refine ⟨error, by rw [stopped]; rfl, ?_⟩
      rcases cause with reached | deep
      · exact .inl (by rw [reached]; rfl)
      · exact .inr deep

/-- Going inside takes a level. -/
theorem limited_inside {height levels : Nat} (place : Position) {body : Nat → Except Error α}
    (inner : ∀ less, Limited (height ≤ less) (body less) full) :
    Limited (height + 1 ≤ levels) (Expression.inside levels place body) full := by
  cases levels with
  | zero =>
    refine ⟨fun never => absurd never (Nat.not_succ_le_zero _), fun _ => ?_⟩
    exact ⟨_, rfl, .inr ⟨place, rfl⟩⟩
  | succ less => exact limited_congr Nat.succ_le_succ_iff.symm (inner less)

end Limits

/-- Two operands one after the other, and what is computed from their values. -/
theorem limited_operands {bindings : Table Value} {left right : Expression} {less : Nat}
    (first : Limited (left.height ≤ less) (left.evaluate bindings less) (reference bindings left))
    (second : Limited (right.height ≤ less) (right.evaluate bindings less)
      (reference bindings right))
    (finish : Value → Value → Except Error Value) :
    Limited (max left.height right.height ≤ less)
      (do
        let leftValue ← left.evaluate bindings less
        let rightValue ← right.evaluate bindings less
        finish leftValue rightValue)
      (do
        let leftValue ← reference bindings left
        let rightValue ← reference bindings right
        finish leftValue rightValue) := by
  refine limited_congr ?_ (limited_bind first fun leftValue =>
    limited_bind second fun rightValue => limited_refl (finish leftValue rightValue))
  rw [and_true, Nat.max_le]

/-- A tree has its result without a limit if it is no higher than the levels left, and fails
otherwise. -/
theorem evaluate_limited (bindings : Table Value) (tree : Expression) (levels : Nat) :
    Limited (tree.height ≤ levels) (tree.evaluate bindings levels) (reference bindings tree) := by
  induction tree generalizing levels with
  | literal token => exact limited_congr (by simp [Expression.height]) (limited_refl _)
  | name text position => exact limited_congr (by simp [Expression.height]) (limited_refl _)
  | compare opener left operator sign right closer ihLeft ihRight =>
    exact limited_inside opener fun less => limited_operands (ihLeft less) (ihRight less) _
  | differ opener left not equal right closer ihLeft ihRight =>
    exact limited_inside opener fun less => limited_operands (ihLeft less) (ihRight less) _
  | negate opener sign operand closer ih =>
    refine limited_inside opener fun less => ?_
    exact limited_congr (and_iff_left trivial) (limited_bind (ih less) fun _ => limited_refl _)
  | arithmetic parens? operation sign left right ihLeft ihRight =>
    exact limited_inside _ fun less => limited_operands (ihLeft less) (ihRight less) _

section Taking
variable {σ : Type} [Host (StateM σ)]

/-- Operands of any size and shape, in any program and at any depth, with one free place on the
stack: taking the operand goes past exactly its tokens and gives the result of its tree, with the
stack, the variables, the labels, the depth and the host as they were. It fails exactly if the
tree has no value or is higher than the levels left, and then with the first fault on the way. -/
theorem takes_value_of_tree {tree : Expression} (formed : tree.isWellFormed = true)
    (machine : Machine) (host : σ) (shallow : machine.depth ≤ Machine.nestingLimit)
    (ahead : Ahead machine.tokens machine.pc tree.tokens)
    (room : machine.stack.size < machine.stack.capacity) :
    let result := tree.evaluate machine.bindings (Machine.nestingLimit - machine.depth)
    (tree.isValue = true →
      Yields machine host tree.tokens.length result (evaluateValue.on machine host)) ∧
    (tree.isBare = false →
      Yields machine host tree.tokens.length result (evaluateExpression.on machine host)) ∧
    (machine.depth + tree.height ≤ Machine.nestingLimit →
      result = reference machine.bindings tree) ∧
    (Machine.nestingLimit < machine.depth + tree.height →
      ∃ error, result = .error error ∧
        (reference machine.bindings tree = .error error ∨ IsTooDeep error)) := by
  intro result
  have executed : Executed σ tree := executed_of_isWellFormed formed
  have bounded := evaluate_limited machine.bindings tree (Machine.nestingLimit - machine.depth)
  refine ⟨?_, ?_, ?_, ?_⟩
  · intro asked
    rw [on_evaluateValue]
    exact executed.value asked _ machine host ahead room
  · intro plain
    rw [on_evaluateExpression]
    exact executed.expression plain _ machine host ahead room
  · intro fits
    exact bounded.same (by omega)
  · intro exceeds
    exact bounded.fails (by omega)

end Taking

/-- Two variables. -/
def wordAndCount : Table Value :=
  (Table.empty.insert "word" (.string "no")).insert "count" (.number 3)

/-- An operand in a printed line, with another line after it, as a machine finds it that has taken
one token and has so many constructs open that two levels are left. -/
def nearLimit (tree : Expression) : Machine :=
  { Machine.load (⟨.command .print, .keyword "PRINT", ⟨1, 0⟩⟩ ::
      (tree.tokens ++ [⟨.blockEnd, .absent, ⟨2, 0⟩⟩])).toArray 1 with
    pc := 1
    depth := 126
    bindings := wordAndCount }

/-- Operands with what they give when `word` is `"no"`, `count` is 3 and two levels are left. -/
def operandsWithResults : List (Expression × Except Error Value) := [
  -- ( ( SUB count 1 ) GT 1 )
  (.compare ⟨1, 6⟩
    (.arithmetic (some (⟨1, 8⟩, ⟨1, 22⟩)) .sub ⟨1, 10⟩ (.name "count" ⟨1, 14⟩)
      (.literal ⟨.number, .number 1, ⟨1, 20⟩⟩))
    .greater ⟨1, 27⟩ (.literal ⟨.number, .number 1, ⟨1, 27⟩⟩) ⟨1, 29⟩,
    .ok (.boolean true)),
  -- ( word NOT EQ ( ADD "n" "o" ) )
  (.differ ⟨1, 6⟩ (.name "word" ⟨1, 8⟩) ⟨1, 17⟩ ⟨1, 20⟩
    (.arithmetic (some (⟨1, 20⟩, ⟨1, 34⟩)) .add ⟨1, 22⟩
      (.literal ⟨.string, .string "n", ⟨1, 26⟩⟩) (.literal ⟨.string, .string "o", ⟨1, 30⟩⟩))
    ⟨1, 36⟩,
    .ok (.boolean false)),
  -- ADD ( MUL count 2 ) 1
  (.arithmetic none .add ⟨1, 6⟩
    (.arithmetic (some (⟨1, 10⟩, ⟨1, 24⟩)) .mul ⟨1, 12⟩ (.name "count" ⟨1, 16⟩)
      (.literal ⟨.number, .number 2, ⟨1, 22⟩⟩))
    (.literal ⟨.number, .number 1, ⟨1, 26⟩⟩),
    .ok (.number 7)),
  -- ( word AND ( count LTE 2 ) )
  (.compare ⟨1, 6⟩ (.name "word" ⟨1, 8⟩) .and ⟨1, 17⟩
    (.compare ⟨1, 17⟩ (.name "count" ⟨1, 19⟩) .lessEqual ⟨1, 29⟩
      (.literal ⟨.number, .number 2, ⟨1, 29⟩⟩) ⟨1, 31⟩) ⟨1, 33⟩,
    .error (.meant (.typeMismatch "AND" "string" "boolean" ⟨1, 31⟩))),
  -- DIV count 0
  (.arithmetic none .div ⟨1, 6⟩ (.name "count" ⟨1, 10⟩)
    (.literal ⟨.number, .number 0, ⟨1, 16⟩⟩),
    .error (.executed (.divisionByZero ⟨1, 16⟩))),
  -- ( NOT ( NOT ( NOT True ) ) )
  (.negate ⟨1, 6⟩ ⟨1, 12⟩ (.negate ⟨1, 12⟩ ⟨1, 18⟩
    (.negate ⟨1, 18⟩ ⟨1, 24⟩ (.literal ⟨.boolean, .boolean true, ⟨1, 24⟩⟩) ⟨1, 29⟩)
    ⟨1, 31⟩) ⟨1, 33⟩,
    .error (.executed (.nestingTooDeep 128 ⟨1, 18⟩)))]

theorem takes_value_of_tree_results :
    (∀ operand ∈ operandsWithResults,
      operand.1.isWellFormed = true ∧ operand.1.isValue = true) ∧
    ∀ tree result, (tree, result) ∈ operandsWithResults →
      let machine := nearLimit tree
      let host := Transcript.ofInput []
      Yields machine host tree.tokens.length result (evaluateValue.on machine host) ∧
      (tree.isBare = false →
        Yields machine host tree.tokens.length result (evaluateExpression.on machine host)) ∧
      (tree.height ≤ 2 → reference wordAndCount tree = result) := by
  have formed : ∀ operand ∈ operandsWithResults,
      operand.1.isWellFormed = true ∧ operand.1.isValue = true := by decide
  have known : ∀ operand ∈ operandsWithResults,
      operand.1.evaluate wordAndCount 2 = operand.2 := by decide +kernel
  refine ⟨formed, ?_⟩
  intro tree result listed machine host
  have shallow : 126 ≤ Machine.nestingLimit := by decide
  have ahead : Ahead machine.tokens machine.pc tree.tokens :=
    (ahead_append.mp (ahead_toArray [_] (tree.tokens ++ _))).1
  obtain ⟨valued, expressed, same, _⟩ :=
    takes_value_of_tree (formed _ listed).1 machine host shallow ahead Nat.zero_lt_one
  have found : tree.evaluate machine.bindings (Machine.nestingLimit - machine.depth) = result :=
    known _ listed
  rw [found] at valued expressed same
  exact ⟨valued (formed _ listed).2, expressed,
    fun fits => (same (Nat.add_le_add_left fits 126)).symm⟩

end StackScript.Operands
