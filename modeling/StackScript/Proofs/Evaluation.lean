import StackScript.Expression
import StackScript.Proofs.Progress

/-! Operands mean what their trees say. The tokens of a tree, wherever they stand in a program, are
executed to the value of the tree or to its fault; the counter goes past exactly these tokens, and
the operand stack, which is used on the way, is as it was before. One free place on the stack is
enough for operands of any size. -/
namespace StackScript.Evaluation
open Exec Walk Progress

/-- Tokens that stand one after another from an index on. -/
def Ahead (tokens : Array Token) : Nat → List Token → Prop
  | _, [] => True
  | index, token :: rest => tokens[index]? = some token ∧ Ahead tokens (index + 1) rest

theorem ahead_append {tokens : Array Token} {index : Nat} {first second : List Token} :
    Ahead tokens index (first ++ second) ↔
      Ahead tokens index first ∧ Ahead tokens (index + first.length) second := by
  induction first generalizing index with
  | nil => simp [Ahead]
  | cons token first ih =>
    have next : index + 1 + first.length = index + (first.length + 1) := by omega
    simp only [List.cons_append, Ahead, ih, List.length_cons, next, and_assoc]

theorem ahead_toArray (front list : List Token) :
    Ahead (front ++ list).toArray front.length list := by
  induction list generalizing front with
  | nil => trivial
  | cons first list ih =>
    refine ⟨by simp, ?_⟩
    have following := ih (front ++ [first])
    simpa using following

/-- The token taken last, after tokens that stand one after another. -/
theorem tokenBefore_of_ahead {tokens : Array Token} {index : Nat} {list : List Token} {last : Token}
    (ahead : Ahead tokens index list) (ends : list.getLast? = some last) :
    tokenBefore? tokens (index + list.length) = some last := by
  obtain ⟨first, rfl⟩ := List.getLast?_eq_some_iff.mp ends
  obtain ⟨_, held, _⟩ := ahead_append.mp ahead
  have next : index + (first ++ [last]).length = index + first.length + 1 := by simp; omega
  rw [next]
  exact held

/-- A machine further on, with a stack of its own; but for the log nothing else has changed. -/
structure Reached (before : Machine) (count : Nat) (stack : Stack) (after : Machine) : Prop where
  tokens : after.tokens = before.tokens
  counter : after.pc = before.pc + count
  stack : after.stack = stack
  bindings : after.bindings = before.bindings
  labels : after.labels = before.labels
  depth : after.depth = before.depth

/-- A machine that a fault has stopped on the way. -/
structure Stranded (before after : Machine) : Prop where
  tokens : after.tokens = before.tokens
  bindings : after.bindings = before.bindings
  labels : after.labels = before.labels
  depth : after.depth = before.depth

theorem stranded_of_reached {before middle after : Machine} {count : Nat} {stack : Stack}
    (reached : Reached before count stack middle) (stranded : Stranded middle after) :
    Stranded before after :=
  ⟨stranded.tokens.trans reached.tokens, stranded.bindings.trans reached.bindings,
    stranded.labels.trans reached.labels, stranded.depth.trans reached.depth⟩

theorem reached_trans {before middle after : Machine} {first second : Nat} {stack last : Stack}
    (early : Reached before first stack middle) (late : Reached middle second last after) :
    Reached before (first + second) last after where
  tokens := late.tokens.trans early.tokens
  counter := by
    rw [late.counter, early.counter]
    omega
  stack := late.stack
  bindings := late.bindings.trans early.bindings
  labels := late.labels.trans early.labels
  depth := late.depth.trans early.depth

theorem reached_refl (machine : Machine) : Reached machine 0 machine.stack machine :=
  ⟨rfl, rfl, rfl, rfl, rfl, rfl⟩

section Giving
variable {σ α β γ δ : Type} {machine : Machine} {host : σ}

/-- What an action does is what a reference says: it succeeds with the answer to the reference's
value, past `count` tokens and with the stack for that value, or fails with the reference's
fault. The host is not called. -/
def Gives (machine : Machine) (host : σ) (count : Nat) (stack : β → Stack) (answer : β → α)
    (reference : Except Error β) (result : (Except Stop α × Machine) × σ) : Prop :=
  match reference with
  | .ok value =>
    ∃ after, result = ((.ok (answer value), after), host) ∧
      Reached machine count (stack value) after
  | .error error =>
    ∃ after, result = ((.error (.fault error), after), host) ∧ Stranded machine after

theorem gives_trans {count total whole : Nat} {between : Stack} {middle : Machine}
    {stack : β → Stack} {answer : β → α} {reference : Except Error β}
    {result : (Except Stop α × Machine) × σ}
    (reached : Reached machine count between middle)
    (rest : Gives middle host total stack answer reference result) (sum : count + total = whole) :
    Gives machine host whole stack answer reference result := by
  subst sum
  rcases reference with error | value
  · obtain ⟨after, failed, stranded⟩ := rest
    exact ⟨after, failed, stranded_of_reached reached stranded⟩
  · obtain ⟨after, finished, reachedAfter⟩ := rest
    exact ⟨after, finished, reached_trans reached reachedAfter⟩

/-- An action after one that does what its reference says. -/
theorem gives_bind {count total whole : Nat} {stack : β → Stack} {last : δ → Stack} {answer : β → α}
    {finish : δ → γ} {reference : Except Error β} {later : β → Except Error δ}
    {action : Exec (StateM σ) α} {next : α → Exec (StateM σ) γ}
    (first : Gives machine host count stack answer reference (action.on machine host))
    (rest : ∀ value middle, Reached machine count (stack value) middle →
      Gives middle host total last finish (later value) ((next (answer value)).on middle host))
    (sum : count + total = whole) :
    Gives machine host whole last finish (reference >>= later)
      ((action >>= next).on machine host) := by
  subst sum
  rw [on_bind]
  rcases reference with error | value
  · obtain ⟨after, ran, stranded⟩ := first
    rw [ran]
    exact ⟨after, rfl, stranded⟩
  · obtain ⟨middle, ran, reached⟩ := first
    rw [ran]
    exact gives_trans reached (rest value middle reached) rfl

theorem gives_pure {stack : β → Stack} {answer : β → α} {value : β}
    (same : stack value = machine.stack) :
    Gives machine host 0 stack answer (.ok value)
      ((pure (answer value) : Exec (StateM σ) α).on machine host) :=
  ⟨machine, rfl, same ▸ reached_refl machine⟩

theorem gives_raise {stack : β → Stack} {answer : β → α} {count : Nat} (error : Error) :
    Gives machine host count stack answer (.error error)
      ((raise error : Exec (StateM σ) α).on machine host) :=
  ⟨machine, rfl, rfl, rfl, rfl, rfl⟩

/-- A stack with one more value. -/
def pushed (stack : Stack) (value : Value) : Stack := { stack with values := value :: stack.values }

theorem gives_push {stack : β → Stack} {answer : β → Unit} {value : β} (pushes : Value)
    (same : stack value = pushed machine.stack pushes)
    (room : machine.stack.size < machine.stack.capacity) :
    Gives machine host 0 stack answer (.ok value)
      ((push pushes : Exec (StateM σ) Unit).on machine host) := by
  rw [on_push, Stack.push, if_pos room]
  exact ⟨_, rfl, rfl, rfl, same.symm, rfl, rfl, rfl⟩

theorem gives_pop {stack : Stack} {value : Value} (held : machine.stack = pushed stack value) :
    Gives machine host 0 (fun _ => stack) id (.ok value)
      ((pop : Exec (StateM σ) Value).on machine host) := by
  rw [on_pop, held]
  exact ⟨_, rfl, rfl, rfl, rfl, rfl, rfl, rfl⟩

theorem reached_next (machine : Machine) :
    Reached machine 1 machine.stack { machine with pc := machine.pc + 1 } :=
  ⟨rfl, rfl, rfl, rfl, rfl, rfl⟩

theorem reached_taken (machine : Machine) (token : Token) :
    Reached machine 1 machine.stack (taken machine token) :=
  ⟨rfl, rfl, rfl, rfl, rfl, rfl⟩

theorem gives_counted {count : Nat} {stack : β → Stack} {answer : β → α}
    {reference : Except Error β} {action : Exec (StateM σ) α}
    (inner : Gives (entered machine) host count stack answer reference
      (action.on (entered machine) host)) :
    Gives machine host count stack answer reference ((counted action).on machine host) := by
  rw [on_counted_entered]
  rcases reference with error | value
  · obtain ⟨after, failed, stranded⟩ := inner
    rw [failed]
    exact ⟨left after, rfl, stranded.tokens, stranded.bindings, stranded.labels,
      congrArg (· - 1) stranded.depth⟩
  · obtain ⟨after, finished, reached⟩ := inner
    rw [finished]
    exact ⟨left after, rfl, reached.tokens, reached.counter, reached.stack, reached.bindings,
      reached.labels, congrArg (· - 1) reached.depth⟩

/-- Where no level is left, both refuse; else what is done one level further in is done here. -/
theorem gives_inside [Host (StateM σ)] {levels count : Nat} {stack : β → Stack} {answer : β → α}
    (position : Position) {reference : Nat → Except Error β}
    {body : Level (StateM σ) → Exec (StateM σ) α}
    (inner : ∀ less, Gives (entered machine) host count stack answer (reference less)
      ((body ⟨stepWith (level? less), perform (level? less)⟩).on (entered machine) host)) :
    Gives machine host count stack answer (Expression.inside levels position reference)
      ((inside (level? levels) position body).on machine host) := by
  cases levels with
  | zero => exact gives_raise _
  | succ less => exact gives_counted (inner less)

end Giving

section Shapes

/-- The kinds that the first token of an operand has. -/
def startsOperand : TokenKind → Bool
  | .string | .number | .boolean | .identifier | .leftParen | .command (.arithmetic _) => true
  | _ => false

/-- Whether a tree is a variable. -/
def isName : Expression → Bool
  | .name _ _ => true
  | _ => false

theorem head_tokens {tree : Expression} (formed : tree.isWellFormed = true) :
    ∃ first rest, tree.tokens = first :: rest ∧ startsOperand first.kind = true := by
  cases tree with
  | literal token =>
    refine ⟨token, [], rfl, ?_⟩
    simp only [Expression.isWellFormed, Bool.or_eq_true, decide_eq_true_eq] at formed
    rcases formed with (kind | kind) | kind <;> rw [kind] <;> rfl
  | arithmetic parens? operation sign left right =>
    rcases parens? with _ | ⟨opener, closer⟩
    · exact ⟨_, _, rfl, rfl⟩
    · exact ⟨_, _, rfl, rfl⟩
  | _ => exact ⟨_, _, rfl, rfl⟩

theorem last_tokens (tree : Expression) :
    ∃ last, tree.tokens.getLast? = some last ∧ last.position = tree.lastPlace := by
  induction tree with
  | literal token => exact ⟨token, rfl, rfl⟩
  | name text position => exact ⟨_, rfl, rfl⟩
  | compare opener left operator sign right closer =>
    exact ⟨Expression.closeToken closer, List.getLast?_concat, rfl⟩
  | differ opener left not equal right closer =>
    exact ⟨Expression.closeToken closer, List.getLast?_concat, rfl⟩
  | negate opener sign operand closer =>
    exact ⟨Expression.closeToken closer, List.getLast?_concat, rfl⟩
  | arithmetic parens? operation sign left right _ ih =>
    rcases parens? with _ | ⟨opener, closer⟩
    · obtain ⟨last, ends, place⟩ := ih
      refine ⟨last, ?_, place⟩
      simp only [Expression.tokens, List.getLast?_append, ends, Option.some_or]
    · exact ⟨Expression.closeToken closer, List.getLast?_concat, rfl⟩

/-- Of the operands that can stand before an operator, only a variable ends in a name. -/
theorem last_kind {tree : Expression} (formed : tree.isWellFormed = true)
    (plain : tree.isBare = false) (unnamed : isName tree = false) {last : Token}
    (ends : tree.tokens.getLast? = some last) : last.kind ≠ .identifier := by
  cases tree with
  | literal token =>
    cases ends
    simp only [Expression.isWellFormed, Bool.or_eq_true, decide_eq_true_eq] at formed
    rcases formed with (kind | kind) | kind <;> simp [kind]
  | name text position => cases unnamed
  | arithmetic parens? operation sign left right =>
    rcases parens? with _ | ⟨opener, closer⟩
    · cases plain
    · rw [Expression.tokens, List.getLast?_concat] at ends
      cases ends
      exact TokenKind.noConfusion
  | _ =>
    rw [Expression.tokens, List.getLast?_concat] at ends
    cases ends
    exact TokenKind.noConfusion

/-- A machine right after the tokens of a tree was last at the place where the tree ends. -/
theorem lastPlace_of_ahead {tree : Expression} {before after : Machine}
    (ahead : Ahead before.tokens before.pc tree.tokens) {stack : Stack}
    (reached : Reached before tree.tokens.length stack after) :
    after.lastPlace = tree.lastPlace := by
  obtain ⟨last, ends, place⟩ := last_tokens tree
  rw [Machine.lastPlace, reached.tokens, reached.counter, tokenBefore_of_ahead ahead ends]
  exact place

/-- The names that keep their meaning are those that do not stand for the top of the stack. -/
theorem standsForTop_of_isValue {text : String} {position : Position}
    (asked : (Expression.name text position).isValue = true) : standsForTop text = false := by
  simp only [Expression.isValue, ne_eq, Bool.and_eq_true, decide_eq_true_eq] at asked
  obtain ⟨long, start⟩ := asked
  unfold standsForTop
  split
  · rename_i single
    rw [single] at long
    exact absurd rfl long
  · rename_i begins
    rw [begins] at start
    exact absurd rfl start
  · rfl

end Shapes

section Bundles
variable {σ : Type}

/-- An action gives what a reference says, past `count` tokens and with the stack as it was. -/
def Yields {α : Type} (machine : Machine) (host : σ) (count : Nat) (reference : Except Error α)
    (result : (Except Stop α × Machine) × σ) : Prop :=
  Gives machine host count (fun _ => machine.stack) id reference result

/-- A step over a tree that stands before an operator fails with the fault of the tree, or leaves
the tree's value where the operator looks for it. -/
def Leaves (machine : Machine) (host : σ) (tree : Expression) (levels : Nat)
    (result : (Except Stop Unit × Machine) × σ) : Prop :=
  (∃ error after, tree.evaluate machine.bindings levels = .error error ∧
    result = ((.error (.fault error), after), host) ∧ Stranded machine after) ∨
  ∃ after stack, result = ((.ok (), after), host) ∧
    Reached machine tree.tokens.length stack after ∧
    ∀ middle, middle.tokens = machine.tokens → middle.bindings = machine.bindings →
      middle.stack = stack →
      Gives middle host 0 (fun _ => machine.stack) id (tree.evaluate machine.bindings levels)
        ((operandBefore (machine.pc + tree.tokens.length) : Exec (StateM σ) Value).on middle host)

/-- A tree is executed as it is evaluated, in each of the three places where it can stand. -/
structure Executed (σ : Type) [Host (StateM σ)] (tree : Expression) : Prop where
  expression (plain : tree.isBare = false) (levels : Nat) (machine : Machine) (host : σ)
    (ahead : Ahead machine.tokens machine.pc tree.tokens)
    (room : machine.stack.size < machine.stack.capacity) :
    Yields machine host tree.tokens.length (tree.evaluate machine.bindings levels)
      ((Exec.expression (level? levels)).on machine host)
  value (asked : tree.isValue = true) (levels : Nat) (machine : Machine) (host : σ)
    (ahead : Ahead machine.tokens machine.pc tree.tokens)
    (room : machine.stack.size < machine.stack.capacity) :
    Yields machine host tree.tokens.length (tree.evaluate machine.bindings levels)
      ((Exec.value (level? levels)).on machine host)
  step (plain : tree.isBare = false) (levels : Nat) (machine : Machine) (host : σ)
    (ahead : Ahead machine.tokens machine.pc tree.tokens)
    (room : machine.stack.size < machine.stack.capacity) :
    Leaves machine host tree levels ((stepWith (level? levels)).on machine host)

end Bundles

section Leaves
variable {σ : Type} [Host (StateM σ)] {levels : Nat} {machine : Machine} {host : σ}

omit [Host (StateM σ)] in
theorem on_consume_bind {α : Type} {token : Token} (next : machine.current? = some token)
    (rest : Token → Exec (StateM σ) α) :
    (consume >>= rest).on machine host =
      (rest token).on { machine with pc := machine.pc + 1 } host := by
  rw [on_bind, on_consume, next]

omit [Host (StateM σ)] in
theorem gives_lookup {stack : Stack} {bindings : Table Value} (same : machine.stack = stack)
    (bound : machine.bindings = bindings) (text : String) (position : Position) :
    Gives machine host 0 (fun _ => stack) id
      ((Expression.name text position).evaluate bindings levels)
      ((lookup ⟨.identifier, .name text, position⟩ : Exec (StateM σ) Value).on machine host) := by
  have name : Token.nameOrEmpty ⟨.identifier, .name text, position⟩ = text := rfl
  rw [on_lookup, bound, Expression.evaluate, name]
  cases bindings.get? text with
  | some value => exact ⟨machine, rfl, rfl, rfl, same, rfl, rfl, rfl⟩
  | none => exact ⟨machine, rfl, rfl, rfl, rfl, rfl⟩

omit [Host (StateM σ)] in
/-- A tree other than a variable is found on the stack. -/
theorem leaves_of_pushed {tree : Expression} (formed : tree.isWellFormed = true)
    (plain : tree.isBare = false) (unnamed : isName tree = false)
    (ahead : Ahead machine.tokens machine.pc tree.tokens)
    {result : (Except Stop Unit × Machine) × σ}
    (gives : Gives machine host tree.tokens.length (pushed machine.stack) (fun _ => ())
      (tree.evaluate machine.bindings levels) result) :
    Leaves machine host tree levels result := by
  unfold Leaves
  rcases evaluated : tree.evaluate machine.bindings levels with error | value
  all_goals rw [evaluated] at gives
  · obtain ⟨after, failed, stranded⟩ := gives
    exact .inl ⟨error, after, rfl, failed, stranded⟩
  · obtain ⟨after, finished, reached⟩ := gives
    refine .inr ⟨after, pushed machine.stack value, finished, reached, ?_⟩
    intro middle tokens _ held
    obtain ⟨last, ends, _⟩ := last_tokens tree
    have none : variableBefore middle.tokens (machine.pc + tree.tokens.length) = none := by
      rw [variableBefore, tokens, tokenBefore_of_ahead ahead ends]
      simp [last_kind formed plain unnamed ends]
    rw [on_operandBefore, none]
    exact gives_pop held

theorem executed_literal {token : Token} (formed : (Expression.literal token).isWellFormed = true) :
    Executed σ (.literal token) := by
  have kinds : (token.kind = .string ∨ token.kind = .number) ∨ token.kind = .boolean := by
    simpa [Expression.isWellFormed] using formed
  refine ⟨?_, ?_, ?_⟩
  · intro _ levels machine host ahead _
    have here : (Exec.expression (level? levels)).on machine host =
        ((.ok (.ofLiteral token.literal), { machine with pc := machine.pc + 1 }), host) := by
      rw [Exec.expression, on_consume_bind ahead.1, expressionFrom]
      rcases kinds with (kind | kind) | kind <;> rw [kind] <;> rfl
    exact ⟨_, here, reached_next machine⟩
  · intro _ levels machine host ahead _
    have here : (Exec.value (level? levels)).on machine host =
        ((.ok (.ofLiteral token.literal), { machine with pc := machine.pc + 1 }), host) := by
      rw [Exec.value, on_consume_bind ahead.1, valueFrom]
      rcases kinds with (kind | kind) | kind <;> rw [kind] <;> rfl
    exact ⟨_, here, reached_next machine⟩
  · intro plain levels machine host ahead room
    have next : machine.current? = some token := ahead.1
    have here : (stepWith (level? levels)).on machine host =
        (push (.ofLiteral token.literal) : Exec (StateM σ) Unit).on (taken machine token) host := by
      rw [on_stepWith, next]
      simp only [execute]
      rcases kinds with (kind | kind) | kind <;> rw [kind]
    refine leaves_of_pushed formed plain rfl ahead ?_
    rw [here]
    exact gives_trans (reached_taken machine token) (gives_push _ rfl room) rfl

theorem executed_name (text : String) (position : Position) :
    Executed σ (.name text position) := by
  refine ⟨?_, ?_, ?_⟩
  · intro _ levels machine host ahead _
    rw [Exec.expression, on_consume_bind ahead.1]
    exact gives_trans (reached_next machine) (gives_lookup rfl rfl text position) rfl
  · intro asked levels machine host ahead _
    have named : Exec.standsForTop text = false := standsForTop_of_isValue asked
    have here : (Exec.value (level? levels)).on machine host =
        (lookup ⟨.identifier, .name text, position⟩ : Exec (StateM σ) Value).on
          { machine with pc := machine.pc + 1 } host := by
      rw [Exec.value, on_consume_bind ahead.1]
      simp [valueFrom, Token.name?, named]
    rw [here]
    exact gives_trans (reached_next machine) (gives_lookup rfl rfl text position) rfl
  · intro _ levels machine host ahead _
    have next : machine.current? = some ⟨.identifier, .name text, position⟩ := ahead.1
    rw [on_stepWith, next]
    refine .inr ⟨_, machine.stack, rfl, reached_taken machine _, ?_⟩
    intro middle tokens bound held
    have before : tokenBefore? middle.tokens (machine.pc + 1) =
        some ⟨.identifier, .name text, position⟩ := by
      rw [tokens]
      exact next
    have found : variableBefore middle.tokens (machine.pc + 1) =
        some ⟨.identifier, .name text, position⟩ := by
      rw [variableBefore, before]
      rfl
    change Gives middle host 0 _ id _ ((operandBefore (machine.pc + 1) :
      Exec (StateM σ) Value).on middle host)
    rw [on_operandBefore, found]
    exact gives_lookup held bound text position

end Leaves

section Groups
variable {σ : Type} [Host (StateM σ)] {levels : Nat} {machine : Machine} {host : σ}

omit [Host (StateM σ)] in
theorem group_goes_on {token opener : Token} (next : machine.current? = some token)
    (goesOn : token.kind ≠ .rightParen) :
    (groupContinues opener : Exec (StateM σ) Bool).on machine host =
      ((.ok true, machine), host) := by
  unfold groupContinues
  rw [on_bind, on_current?, next]
  simp only [goesOn, ↓reduceIte]
  rfl

omit [Host (StateM σ)] in
theorem group_ends {opener : Token} {closer : Position}
    (next : machine.current? = some (Expression.closeToken closer)) :
    (groupContinues opener : Exec (StateM σ) Bool).on machine host =
      ((.ok false, { machine with pc := machine.pc + 1 }), host) := by
  unfold groupContinues
  rw [on_bind, on_current?, next]
  rfl

/-- The last step of a group, and its closing parenthesis. -/
theorem gives_last_step {β : Type} {opener token : Token} {closer : Position} {rest : List Token}
    {stack : β → Stack} {reference : Except Error β} {result : (Except Stop Unit × Machine) × σ}
    (looped : Loop (groupContinues opener) (fun _ => stepWith (level? levels)) () machine host
      result)
    (ahead : Ahead machine.tokens machine.pc (token :: rest ++ [Expression.closeToken closer]))
    (goesOn : token.kind ≠ .rightParen)
    (stepped : Gives machine host (rest.length + 1) stack (fun _ => ()) reference
      ((stepWith (level? levels)).on machine host)) :
    Gives machine host (token :: rest ++ [Expression.closeToken closer]).length stack
      (fun _ => ()) reference result := by
  obtain ⟨here, closes, _⟩ := ahead_append.mp ahead
  have asked : (groupContinues opener : Exec (StateM σ) Bool).on machine host =
      ((.ok true, machine), host) := group_goes_on here.1 goesOn
  rcases reference with error | value
  · obtain ⟨after, failed, stranded⟩ := stepped
    exact ⟨after, loop_broken looped asked failed, stranded⟩
  · obtain ⟨after, finished, reached⟩ := stepped
    have last : after.current? = some (Expression.closeToken closer) := by
      rw [Machine.current?, reached.tokens, reached.counter]
      exact closes
    have length : (token :: rest ++ [Expression.closeToken closer]).length =
        rest.length + 1 + 1 := by simp
    rw [length]
    refine ⟨_, loop_finished (loop_again looped asked finished) (group_ends last), ?_⟩
    exact reached.stack ▸ reached_trans reached (reached_next after)

omit [Host (StateM σ)] in
/-- What an action leaves on the stack is taken off it. -/
theorem gives_popped {count : Nat} {stack : Stack} {reference : Except Error Value}
    {action : Exec (StateM σ) Unit}
    (given : Gives machine host count (pushed stack) (fun _ => ()) reference
      (action.on machine host)) :
    Gives machine host count (fun _ => stack) id reference
      ((do action; pop : Exec (StateM σ) Value).on machine host) := by
  rw [← bind_pure reference]
  exact gives_bind given (fun value middle reached => gives_pop reached.stack) (Nat.add_zero _)

/-- A group has the value that its tokens leave on the stack. -/
theorem gives_group {opener : Position} {count : Nat} {reference : Nat → Except Error Value}
    (looped : ∀ less result,
      Loop (groupContinues (Expression.openToken opener)) (fun _ => stepWith (level? less)) ()
        (entered machine) host result →
      Gives (entered machine) host count (pushed machine.stack) (fun _ => ()) (reference less)
        result) :
    Yields machine host count (Expression.inside levels opener reference)
      ((group (level? levels) (Expression.openToken opener)).on machine host) := by
  refine gives_inside opener fun less => ?_
  exact gives_popped (looped less _ (loops_end.group less _ (entered machine) host))

/-- A tree in parentheses is executed as the tokens between them are. -/
theorem executed_group {tree : Expression} {opener : Position} {rest : List Token}
    {reference : Table Value → Nat → Except Error Value}
    (formed : tree.isWellFormed = true) (plain : tree.isBare = false)
    (unnamed : isName tree = false) (shape : tree.tokens = Expression.openToken opener :: rest)
    (evaluates : ∀ bindings levels,
      tree.evaluate bindings levels = Expression.inside levels opener (reference bindings))
    (looped : ∀ less (machine : Machine) (host : σ) result,
      Loop (groupContinues (Expression.openToken opener)) (fun _ => stepWith (level? less)) ()
        machine host result →
      Ahead machine.tokens machine.pc rest → machine.stack.size < machine.stack.capacity →
      Gives machine host rest.length (pushed machine.stack) (fun _ => ())
        (reference machine.bindings less) result) :
    Executed σ tree := by
  have grouped : ∀ levels (machine : Machine) (host : σ), Ahead machine.tokens machine.pc rest →
      machine.stack.size < machine.stack.capacity →
      Yields machine host rest.length (tree.evaluate machine.bindings levels)
        ((group (level? levels) (Expression.openToken opener)).on machine host) := by
    intro levels machine host ahead room
    rw [evaluates]
    exact gives_group fun less result loops =>
      looped less (entered machine) host result loops ahead room
  have length : 1 + rest.length = tree.tokens.length := by
    rw [shape, List.length_cons, Nat.add_comm]
  refine ⟨?_, ?_, ?_⟩
  · intro _ levels machine host ahead room
    rw [shape] at ahead
    rw [Exec.expression, on_consume_bind ahead.1]
    exact gives_trans (reached_next machine) (grouped levels _ host ahead.2 room) length
  · intro _ levels machine host ahead room
    rw [shape] at ahead
    rw [Exec.value, on_consume_bind ahead.1]
    exact gives_trans (reached_next machine) (grouped levels _ host ahead.2 room) length
  · intro _ levels machine host ahead room
    refine leaves_of_pushed formed plain unnamed ahead ?_
    rw [shape] at ahead
    have next : machine.current? = some (Expression.openToken opener) := ahead.1
    rw [on_stepWith, next]
    rw [← bind_pure (tree.evaluate machine.bindings levels)]
    refine gives_trans (reached_taken machine _) (gives_bind
      (grouped levels (taken machine _) host ahead.2 room) (fun value middle reached => ?_)
      (Nat.add_zero _)) length
    refine gives_push value ?_ ?_
    · rw [reached.stack]
      rfl
    · rw [reached.stack]
      exact room

end Groups

section Operators
variable {σ : Type} [Host (StateM σ)] (levels : Nat) {machine : Machine} {host : σ}

omit [Host (StateM σ)] in
/-- A fault that is raised right after a tree names the place where the tree ends. -/
theorem gives_raise_last {α β : Type} {tree : Expression} {after : Machine} {between : Stack}
    {stack : β → Stack} {answer : β → α} (ahead : Ahead machine.tokens machine.pc tree.tokens)
    (reached : Reached machine tree.tokens.length between after) (error : Position → Error) :
    Gives after host 0 stack answer (.error (error tree.lastPlace))
      ((do raise (error (← lastPlace)) : Exec (StateM σ) α).on after host) := by
  rw [← lastPlace_of_ahead ahead reached]
  exact gives_raise (error after.lastPlace)

/-- The operators of the machine keep to the rules of trees. -/
theorem apply?_eq_operatorRule? (operator : Operator) (left right : Value) :
    operator.apply? left right = Expression.operatorRule? operator left right := by
  cases left <;> cases right <;> cases operator <;> rfl

/-- The arithmetic of the machine keeps to the rules of trees, and so do its faults. -/
theorem applyArithmetic_eq_apply (operation : Arithmetic) (left right : Value)
    (position : Position) :
    Expression.applyArithmetic operation left right position =
      (operation.apply left right).mapError fun
        | .divisionByZero => .executed (.divisionByZero position)
        | .mismatch =>
          Expression.mismatch (Command.arithmetic operation).keyword left right position := by
  cases left with
  | number first =>
    cases right with
    | number second =>
      cases operation with
      | div =>
        simp only [Expression.applyArithmetic, Arithmetic.apply]
        split <;> rfl
      | _ => rfl
    | _ => cases operation <;> rfl
  | _ => cases right <;> cases operation <;> rfl

variable (host) in
theorem gives_boolean {tree : Expression} (executed : Executed σ tree) (plain : tree.isBare = false)
    (ahead : Ahead machine.tokens machine.pc tree.tokens)
    (room : machine.stack.size < machine.stack.capacity) (operator : String) :
    Yields machine host tree.tokens.length
      (do
        let value ← tree.evaluate machine.bindings levels
        Expression.demandBoolean operator value tree.lastPlace)
      ((boolean (level? levels) operator).on machine host) := by
  refine gives_bind (executed.expression plain levels machine host ahead room)
    (fun value middle reached => ?_) (Nat.add_zero _)
  cases value with
  | boolean flag => exact gives_pure reached.stack.symm
  | _ =>
    exact gives_raise_last ahead reached fun place =>
      .meant (.unexpectedType operator "a boolean" _ place)

/-- A comparison takes its left operand from where it was left, and then its right one. -/
theorem gives_compare {right : Expression} (executed : Executed σ right)
    (plain : right.isBare = false) {stack : Stack} {index : Nat} {reference : Except Error Value}
    (operand : Gives machine host 0 (fun _ => stack) id reference
      ((operandBefore index : Exec (StateM σ) Value).on machine host))
    (ahead : Ahead machine.tokens machine.pc right.tokens) (room : stack.size < stack.capacity)
    (operator : Operator) (name : String) :
    Gives machine host right.tokens.length (fun _ => stack) id
      (do
        let left ← reference
        let result ← right.evaluate machine.bindings levels
        Expression.applyOperator operator name left result right.lastPlace)
      ((compare (level? levels) operator name index).on machine host) := by
  refine gives_bind operand (fun left middle found => ?_) (Nat.zero_add _)
  have here : Ahead middle.tokens middle.pc right.tokens := by
    rw [found.tokens, found.counter]
    exact ahead
  have second := executed.expression plain levels middle host here (by rwa [found.stack])
  rw [found.bindings] at second
  refine gives_bind second (fun result after reached => ?_) (Nat.add_zero _)
  simp only [Expression.applyOperator, apply?_eq_operatorRule?, id]
  cases Expression.operatorRule? operator left result with
  | some flag => exact gives_pure (reached.stack.trans found.stack).symm
  | none => exact gives_raise_last here reached (Expression.mismatch name left result)

omit [Host (StateM σ)] in
/-- What an action gives is put on the stack. -/
theorem gives_push_of {α : Type} {count : Nat} {stack : Stack} {action : Exec (StateM σ) α}
    {reference : Except Error α} (image : α → Value)
    (given : Gives machine host count (fun _ => stack) id reference (action.on machine host))
    (room : stack.size < stack.capacity) :
    Gives machine host count (pushed stack) (fun _ => ()) (do return image (← reference))
      ((do push (image (← action)) : Exec (StateM σ) Unit).on machine host) :=
  gives_bind given (fun value after reached =>
    gives_push (image value) (by rw [reached.stack]) (by rwa [reached.stack])) (Nat.add_zero _)

variable (host) in
/-- Arithmetic takes two values and leaves its result on the stack. -/
theorem gives_arithmetic {left right : Expression} (executedLeft : Executed σ left)
    (executedRight : Executed σ right) (asked : left.isValue = true ∧ right.isValue = true)
    (ahead : Ahead machine.tokens machine.pc (left.tokens ++ right.tokens))
    (room : machine.stack.size < machine.stack.capacity) (operation : Arithmetic) :
    Gives machine host (left.tokens.length + right.tokens.length) (pushed machine.stack)
      (fun _ => ())
      (do
        let first ← left.evaluate machine.bindings levels
        let second ← right.evaluate machine.bindings levels
        Expression.applyArithmetic operation first second right.lastPlace)
      ((arithmetic (level? levels) operation).on machine host) := by
  obtain ⟨here, there⟩ := ahead_append.mp ahead
  refine gives_bind (executedLeft.value asked.1 levels machine host here room)
    (fun first middle found => ?_) rfl
  rw [← found.counter, ← found.tokens] at there
  have second := executedRight.value asked.2 levels middle host there (by rwa [found.stack])
  rw [found.bindings] at second
  refine gives_bind second (fun result after reached => ?_) (Nat.add_zero _)
  have stack : after.stack = machine.stack := reached.stack.trans found.stack
  simp only [applyArithmetic_eq_apply, id]
  cases operation.apply first result with
  | ok value => exact gives_push value (by rw [stack]) (by rwa [stack])
  | error fault =>
    cases fault with
    | divisionByZero =>
      exact gives_raise_last there reached fun place => .executed (.divisionByZero place)
    | mismatch => exact gives_raise_last there reached (Expression.mismatch _ first result)

variable (host) in
theorem gives_arithmetic_step {left right : Expression} (executedLeft : Executed σ left)
    (executedRight : Executed σ right) (asked : left.isValue = true ∧ right.isValue = true)
    {operation : Arithmetic} {sign : Position}
    (ahead : Ahead machine.tokens machine.pc
      (Expression.arithmeticToken operation sign :: (left.tokens ++ right.tokens)))
    (room : machine.stack.size < machine.stack.capacity) :
    Gives machine host (1 + (left.tokens.length + right.tokens.length)) (pushed machine.stack)
      (fun _ => ())
      (do
        let first ← left.evaluate machine.bindings levels
        let second ← right.evaluate machine.bindings levels
        Expression.applyArithmetic operation first second right.lastPlace)
      ((stepWith (level? levels)).on machine host) := by
  have next : machine.current? = some (Expression.arithmeticToken operation sign) := ahead.1
  let middle := taken machine (Expression.arithmeticToken operation sign)
  have here : Ahead middle.tokens middle.pc (left.tokens ++ right.tokens) := ahead.2
  have space : middle.stack.size < middle.stack.capacity := room
  rw [on_stepWith, next]
  exact gives_trans (reached_taken machine _)
    (gives_arithmetic levels host executedLeft executedRight asked here space operation) rfl

/-- An operator whose left operand has been left behind. -/
theorem gives_binary_step {right : Expression} (executed : Executed σ right)
    (plain : right.isBare = false) {stack : Stack} {reference : Except Error Value}
    {operator : Operator} {sign : Position}
    (operand : ∀ middle, middle.tokens = machine.tokens → middle.bindings = machine.bindings →
      middle.stack = machine.stack → Gives middle host 0 (fun _ => stack) id reference
        ((operandBefore machine.pc : Exec (StateM σ) Value).on middle host))
    (ahead : Ahead machine.tokens machine.pc
      (Expression.operatorToken operator sign :: right.tokens))
    (room : stack.size < stack.capacity) :
    Gives machine host (1 + right.tokens.length) (pushed stack) (fun _ => ())
      (do
        let left ← reference
        let result ← right.evaluate machine.bindings levels
        return .boolean
          (← Expression.applyOperator operator operator.keyword left result right.lastPlace))
      ((stepWith (level? levels)).on machine host) := by
  have next : machine.current? = some (Expression.operatorToken operator sign) := ahead.1
  have compared := gives_push_of .boolean (gives_compare levels executed plain
    (operand (taken machine (Expression.operatorToken operator sign)) rfl rfl rfl) ahead.2 room
    operator operator.keyword) room
  simp only [bind_assoc] at compared
  rw [on_stepWith, next]
  exact gives_trans (reached_taken machine _) compared rfl

omit [Host (StateM σ)] in
/-- A negation compares if `EQ` comes next. -/
theorem on_negate (inner? : Option (Level (StateM σ))) :
    (negate inner?).on machine host =
      if machine.current?.any (·.kind = .binary .equal) then
        (do push (.boolean !(← compare inner? .equal "NOT EQ" (machine.pc - 1))) :
          Exec (StateM σ) Unit).on { machine with pc := machine.pc + 1 } host
      else
        (do push (.boolean !(← boolean inner? "NOT")) : Exec (StateM σ) Unit).on machine host := by
  unfold negate
  rw [on_bind]
  change Exec.on (current? >>= _) machine host = _
  rw [on_bind, on_current?]
  simp only
  by_cases equals : machine.current?.any (·.kind = .binary .equal) = true
  · rw [if_pos equals, if_pos equals]
    rfl
  · rw [if_neg equals, if_neg equals]

/-- `NOT EQ` whose left operand has been left behind. -/
theorem gives_differ_step {right : Expression} (executed : Executed σ right)
    (plain : right.isBare = false) {stack : Stack} {reference : Except Error Value}
    {not equal : Position}
    (operand : ∀ middle, middle.tokens = machine.tokens → middle.bindings = machine.bindings →
      middle.stack = machine.stack → Gives middle host 0 (fun _ => stack) id reference
        ((operandBefore machine.pc : Exec (StateM σ) Value).on middle host))
    (ahead : Ahead machine.tokens machine.pc (Expression.notToken not ::
      Expression.operatorToken .equal equal :: right.tokens))
    (room : stack.size < stack.capacity) :
    Gives machine host (2 + right.tokens.length) (pushed stack) (fun _ => ())
      (do
        let left ← reference
        let result ← right.evaluate machine.bindings levels
        return .boolean
          !(← Expression.applyOperator .equal "NOT EQ" left result right.lastPlace))
      ((stepWith (level? levels)).on machine host) := by
  have next : machine.current? = some (Expression.notToken not) := ahead.1
  have equals : (taken machine (Expression.notToken not)).current? =
      some (Expression.operatorToken .equal equal) := ahead.2.1
  let middle := { taken machine (Expression.notToken not) with pc := machine.pc + 2 }
  have reached : Reached machine 2 machine.stack middle := ⟨rfl, rfl, rfl, rfl, rfl, rfl⟩
  have compared := gives_push_of (fun flag => .boolean !flag) (gives_compare levels executed plain
    (operand middle rfl rfl rfl) ahead.2.2 room .equal "NOT EQ") room
  simp only [bind_assoc] at compared
  rw [on_stepWith, next]
  change Gives _ _ _ _ _ _
    ((negate (level? levels)).on (taken machine (Expression.notToken not)) host)
  rw [on_negate, equals]
  exact gives_trans reached compared rfl

variable (host) in
/-- `NOT` in front of its operand. -/
theorem gives_negate_step {operand : Expression} (executed : Executed σ operand)
    (formed : operand.isWellFormed = true) (plain : operand.isBare = false) {sign : Position}
    (ahead : Ahead machine.tokens machine.pc (Expression.notToken sign :: operand.tokens))
    (room : machine.stack.size < machine.stack.capacity) :
    Gives machine host (1 + operand.tokens.length) (pushed machine.stack) (fun _ => ())
      (do
        let value ← operand.evaluate machine.bindings levels
        return .boolean !(← Expression.demandBoolean "NOT" value operand.lastPlace))
      ((stepWith (level? levels)).on machine host) := by
  have next : machine.current? = some (Expression.notToken sign) := ahead.1
  let middle := taken machine (Expression.notToken sign)
  have here : Ahead middle.tokens middle.pc operand.tokens := ahead.2
  have asked := gives_push_of (fun flag => .boolean !flag)
    (gives_boolean levels host executed plain here room "NOT") room
  simp only [bind_assoc] at asked
  -- An operand never starts with `EQ`.
  have other : middle.current?.any (·.kind = .binary .equal) = false := by
    obtain ⟨first, rest, shape, starts⟩ := head_tokens formed
    rw [shape] at here
    have following : middle.current? = some first := here.1
    rw [following]
    cases kind : first.kind <;> simp_all [startsOperand]
  rw [on_stepWith, next]
  change Gives _ _ _ _ _ _ ((negate (level? levels)).on middle host)
  rw [on_negate, other]
  exact gives_trans (reached_taken machine _) asked rfl

/-- A group whose left operand comes first: a step over it, a last step that finds it, and the
closing parenthesis. -/
theorem gives_infix {left : Expression} (executed : Executed σ left)
    (formed : left.isWellFormed = true) (plain : left.isBare = false) {opener token : Token}
    {closer : Position} {rest : List Token} {later : Value → Except Error Value}
    {result : (Except Stop Unit × Machine) × σ}
    (looped : Loop (groupContinues opener) (fun _ => stepWith (level? levels)) () machine host
      result)
    (ahead : Ahead machine.tokens machine.pc
      (left.tokens ++ (token :: rest ++ [Expression.closeToken closer])))
    (goesOn : token.kind ≠ .rightParen)
    (room : machine.stack.size < machine.stack.capacity)
    (stepped : ∀ after stack, Reached machine left.tokens.length stack after →
      (∀ middle, middle.tokens = after.tokens → middle.bindings = after.bindings →
        middle.stack = after.stack → Gives middle host 0 (fun _ => machine.stack) id
          (left.evaluate machine.bindings levels)
          ((operandBefore after.pc : Exec (StateM σ) Value).on middle host)) →
      Ahead after.tokens after.pc (token :: rest) →
      Gives after host (rest.length + 1) (pushed machine.stack) (fun _ => ())
        (left.evaluate machine.bindings levels >>= later)
        ((stepWith (level? levels)).on after host)) :
    Gives machine host (left.tokens ++ (token :: rest ++ [Expression.closeToken closer])).length
      (pushed machine.stack) (fun _ => ()) (left.evaluate machine.bindings levels >>= later)
      result := by
  obtain ⟨here, there⟩ := ahead_append.mp ahead
  have asked : (groupContinues opener : Exec (StateM σ) Bool).on machine host =
      ((.ok true, machine), host) := by
    obtain ⟨first, more, shape, starts⟩ := head_tokens formed
    have next : machine.current? = some first := (shape ▸ here : Ahead _ _ (first :: more)).1
    refine group_goes_on next ?_
    intro closes
    rw [closes] at starts
    cases starts
  rcases executed.step plain levels machine host here room with
    ⟨error, after, evaluated, failed, stranded⟩ | ⟨after, stack, ran, reached, found⟩
  · rw [evaluated]
    exact ⟨after, loop_broken looped asked failed, stranded⟩
  · rw [← reached.tokens, ← reached.counter] at there
    have operand := stepped after stack reached (by
      rw [reached.tokens, reached.bindings, reached.stack, reached.counter]
      exact found) (ahead_append.mp there).1
    exact gives_trans reached
      (gives_last_step (loop_again looped asked ran) there goesOn operand)
      List.length_append.symm

end Operators

section Trees
variable {σ : Type} [Host (StateM σ)] {opener sign closer : Position} {left right : Expression}

theorem executed_compare {operator : Operator}
    (formed : (Expression.compare opener left operator sign right closer).isWellFormed = true)
    (ihLeft : left.isWellFormed = true → Executed σ left)
    (ihRight : right.isWellFormed = true → Executed σ right) :
    Executed σ (.compare opener left operator sign right closer) := by
  have parts : ((left.isWellFormed = true ∧ right.isWellFormed = true) ∧
      left.isBare = false) ∧ right.isBare = false := by
    simpa [Expression.isWellFormed] using formed
  obtain ⟨⟨⟨formedLeft, formedRight⟩, plainLeft⟩, plainRight⟩ := parts
  have shape : (Expression.compare opener left operator sign right closer).tokens =
      Expression.openToken opener :: (left.tokens ++
        (Expression.operatorToken operator sign :: right.tokens ++
          [Expression.closeToken closer])) := by
    simp [Expression.tokens]
  refine executed_group formed rfl rfl shape (fun _ _ => rfl) ?_
  intro less machine host result looped ahead room
  refine gives_infix less (ihLeft formedLeft) formedLeft plainLeft looped ahead
    TokenKind.noConfusion room ?_
  intro after stack reached operand here
  rw [Nat.add_comm, ← reached.bindings]
  rw [← reached.bindings] at operand
  exact gives_binary_step less (ihRight formedRight) plainRight operand here room

theorem executed_differ {not equal : Position}
    (formed : (Expression.differ opener left not equal right closer).isWellFormed = true)
    (ihLeft : left.isWellFormed = true → Executed σ left)
    (ihRight : right.isWellFormed = true → Executed σ right) :
    Executed σ (.differ opener left not equal right closer) := by
  have parts : ((left.isWellFormed = true ∧ right.isWellFormed = true) ∧
      left.isBare = false) ∧ right.isBare = false := by
    simpa [Expression.isWellFormed] using formed
  obtain ⟨⟨⟨formedLeft, formedRight⟩, plainLeft⟩, plainRight⟩ := parts
  have shape : (Expression.differ opener left not equal right closer).tokens =
      Expression.openToken opener :: (left.tokens ++ (Expression.notToken not ::
        (Expression.operatorToken .equal equal :: right.tokens) ++
          [Expression.closeToken closer])) := by
    simp [Expression.tokens]
  refine executed_group formed rfl rfl shape (fun _ _ => rfl) ?_
  intro less machine host result looped ahead room
  refine gives_infix less (ihLeft formedLeft) formedLeft plainLeft looped ahead
    TokenKind.noConfusion room ?_
  intro after stack reached operand here
  rw [List.length_cons, Nat.add_assoc, Nat.add_comm, ← reached.bindings]
  rw [← reached.bindings] at operand
  exact gives_differ_step less (ihRight formedRight) plainRight operand here room

theorem executed_negate {operand : Expression}
    (formed : (Expression.negate opener sign operand closer).isWellFormed = true)
    (ih : operand.isWellFormed = true → Executed σ operand) :
    Executed σ (.negate opener sign operand closer) := by
  have parts : operand.isWellFormed = true ∧ operand.isBare = false := by
    simpa [Expression.isWellFormed] using formed
  obtain ⟨formedOperand, plain⟩ := parts
  refine executed_group formed rfl rfl rfl (fun _ _ => rfl) ?_
  intro less machine host result looped ahead room
  have stepped := gives_negate_step less host (ih formedOperand) formedOperand plain
    (ahead_append.mp ahead).1 room
  rw [Nat.add_comm] at stepped
  exact gives_last_step looped ahead TokenKind.noConfusion stepped

/-- A command without parentheses stands only where a value is asked for. -/
theorem executed_bare {operation : Arithmetic} (executedLeft : Executed σ left)
    (executedRight : Executed σ right) (asked : left.isValue = true ∧ right.isValue = true) :
    Executed σ (.arithmetic none operation sign left right) := by
  refine ⟨nofun, ?_, nofun⟩
  intro _ levels machine host ahead room
  have length : 1 + (left.tokens.length + right.tokens.length) =
      (Expression.arithmetic none operation sign left right).tokens.length := by
    simp [Expression.tokens]
    omega
  rw [Exec.value, on_consume_bind ahead.1]
  refine gives_trans (reached_next machine) (gives_inside sign fun less => ?_) length
  let middle := entered { machine with pc := machine.pc + 1 }
  have here : Ahead middle.tokens middle.pc (left.tokens ++ right.tokens) := ahead.2
  have space : middle.stack.size < middle.stack.capacity := room
  exact gives_popped
    (gives_arithmetic less host executedLeft executedRight asked here space operation)

theorem executed_enclosed {operation : Arithmetic}
    (formed : (Expression.arithmetic (some (opener, closer)) operation sign left
      right).isWellFormed = true)
    (executedLeft : Executed σ left) (executedRight : Executed σ right)
    (asked : left.isValue = true ∧ right.isValue = true) :
    Executed σ (.arithmetic (some (opener, closer)) operation sign left right) := by
  have shape : (Expression.arithmetic (some (opener, closer)) operation sign left right).tokens =
      Expression.openToken opener :: (Expression.arithmeticToken operation sign ::
        (left.tokens ++ right.tokens) ++ [Expression.closeToken closer]) := by
    simp [Expression.tokens]
  refine executed_group formed rfl rfl shape (fun _ _ => rfl) ?_
  intro less machine host result looped ahead room
  have stepped := gives_arithmetic_step less host executedLeft executedRight asked
    (ahead_append.mp ahead).1 room
  rw [Nat.add_comm, ← List.length_append] at stepped
  exact gives_last_step looped ahead TokenKind.noConfusion stepped

/-- Every operand is executed as it is evaluated. -/
theorem executed_of_isWellFormed {tree : Expression} (formed : tree.isWellFormed = true) :
    Executed σ tree := by
  induction tree with
  | literal token => exact executed_literal formed
  | name text position => exact executed_name text position
  | compare opener left operator sign right closer ihLeft ihRight =>
    exact executed_compare formed ihLeft ihRight
  | differ opener left not equal right closer ihLeft ihRight =>
    exact executed_differ formed ihLeft ihRight
  | negate opener sign operand closer ih => exact executed_negate formed ih
  | arithmetic parens? operation sign left right ihLeft ihRight =>
    have parts : ((left.isWellFormed = true ∧ right.isWellFormed = true) ∧
        left.isValue = true) ∧ right.isValue = true := by
      simpa [Expression.isWellFormed] using formed
    obtain ⟨⟨⟨formedLeft, formedRight⟩, askedLeft⟩, askedRight⟩ := parts
    rcases parens? with _ | ⟨opener, closer⟩
    · exact executed_bare (ihLeft formedLeft) (ihRight formedRight) ⟨askedLeft, askedRight⟩
    · exact executed_enclosed formed (ihLeft formedLeft) (ihRight formedRight)
        ⟨askedLeft, askedRight⟩

end Trees

end StackScript.Evaluation
