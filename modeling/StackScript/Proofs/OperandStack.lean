import StackScript.Host.Transcript
import StackScript.Proofs.Progress

/-! What an operand does to the operand stack. A command in the place of an operand is executed, and
then its result is taken off the stack. Arithmetic and input leave a result there, and the stack is
afterwards what it was before. A `PRINT` leaves none: what is taken off is a value that was there
before the operand. So an operand of literals, variables and commands takes exactly as many values
off the stack as it has a `PRINT`, and it gives the stack back exactly if it has none. -/
namespace StackScript.OperandStack
open Exec Walk Progress

/-- The kind of the token at an index. -/
def kindAt (tokens : Array Token) (index : Nat) : Option TokenKind := tokens[index]?.map Token.kind

/-- Whether a token of a kind stands for its own literal where a value is asked for. -/
def isLiteral : TokenKind → Bool
  | .command _ | .leftParen | .identifier => false
  | _ => true

/-- Where input goes on after the type that it is converted to, if one stands at an index. -/
def afterCast (tokens : Array Token) (index : Nat) : Nat :=
  match kindAt tokens index with
  | some (.cast _) => index + 1
  | _ => index

/-- Whether the prompt of input stands at an index. -/
def prompts (tokens : Array Token) (index : Nat) : Bool :=
  kindAt tokens index = some (.binary .and) ∧ kindAt tokens (index + 1) = some (.command .print)

/-- Whether a value at an index stands in the line of the token before it. -/
def goesOn (tokens : Array Token) (index : Nat) : Bool :=
  let last := ((tokenBefore? tokens index).map Token.position).getD .origin
  tokens[index]?.any (·.continues last.line)

/-- What an operand is made of. -/
inductive Part where
  /-- One value. -/
  | value
  /-- The values in the rest of a line. -/
  | line

/-- From one index to another stands an operand of literals, variables that do not stand for the top
of the stack, and commands on such operands; the last number is how often it has a `PRINT`. -/
inductive Stands (tokens : Array Token) : Part → Nat → Nat → Nat → Prop where
  | literal {index : Nat} {token : Token} (held : tokens[index]? = some token)
      (plain : isLiteral token.kind = true) : Stands tokens .value index (index + 1) 0
  | name {index : Nat} {token : Token} (held : tokens[index]? = some token)
      (kind : token.kind = .identifier) (own : token.name?.any standsForTop = false) :
      Stands tokens .value index (index + 1) 0
  | arithmetic {index middle stop first second : Nat} {operation : Arithmetic}
      (kind : kindAt tokens index = some (.command (.arithmetic operation)))
      (left : Stands tokens .value (index + 1) middle first)
      (right : Stands tokens .value middle stop second) :
      Stands tokens .value index stop (first + second)
  | read {index : Nat} (kind : kindAt tokens index = some (.command .read))
      (silent : prompts tokens (afterCast tokens (index + 1)) = false) :
      Stands tokens .value index (afterCast tokens (index + 1)) 0
  | readPrompted {index stop prints : Nat} (kind : kindAt tokens index = some (.command .read))
      (prompted : prompts tokens (afterCast tokens (index + 1)) = true)
      (prompt : Stands tokens .value (afterCast tokens (index + 1) + 2) stop prints) :
      Stands tokens .value index stop prints
  | print {index stop prints : Nat} (kind : kindAt tokens index = some (.command .print))
      (values : Stands tokens .line (index + 1) stop prints) :
      Stands tokens .value index stop (prints + 1)
  | exit {index : Nat} (kind : kindAt tokens index = some (.command .exit))
      (bare : goesOn tokens (index + 1) = false) : Stands tokens .value index (index + 1) 0
  | exitWith {index stop prints : Nat} (kind : kindAt tokens index = some (.command .exit))
      (more : goesOn tokens (index + 1) = true)
      (code : Stands tokens .value (index + 1) stop prints) :
      Stands tokens .value index stop prints
  | lineEnd {index : Nat} (ended : goesOn tokens index = false) : Stands tokens .line index index 0
  | lineMore {index middle stop first second : Nat} (more : goesOn tokens index = true)
      (head : Stands tokens .value index middle first)
      (rest : Stands tokens .line middle stop second) :
      Stands tokens .line index stop (first + second)

/-- A `PRINT` in the place of an operand has the values of a line after it. -/
theorem stands_print {tokens : Array Token} {index stop prints : Nat}
    (kind : kindAt tokens index = some (.command .print))
    (stands : Stands tokens .value index stop prints) :
    ∃ count, prints = count + 1 ∧ Stands tokens .line (index + 1) stop count := by
  cases stands with
  | literal held plain =>
    rw [kindAt, held] at kind
    cases Option.some.inj kind ▸ plain
  | name held named _ =>
    rw [kindAt, held] at kind
    cases named.symm.trans (Option.some.inj kind)
  | print _ values => exact ⟨_, rfl, values⟩
  | arithmetic other _ _ | read other _ | readPrompted other _ _ | exit other _
  | exitWith other _ _ => cases other.symm.trans kind

/-- The machine has gone on to an index and has taken a number of values off the stack. -/
structure Took (before : Machine) (stop count : Nat) (after : Machine) : Prop where
  tokens : after.tokens = before.tokens
  counter : after.pc = stop
  capacity : after.stack.capacity = before.stack.capacity
  values : ∃ lost, lost.length = count ∧ before.stack.values = lost ++ after.stack.values

theorem took_none {before after : Machine} {stop : Nat} (tokens : after.tokens = before.tokens)
    (counter : after.pc = stop) (stack : after.stack = before.stack) : Took before stop 0 after :=
  ⟨tokens, counter, by rw [stack], [], rfl, by rw [stack]; rfl⟩

theorem took_trans {first second third : Machine} {middle stop early late : Nat}
    (before : Took first middle early second) (after : Took second stop late third) :
    Took first stop (early + late) third := by
  obtain ⟨tokens, _, capacity, lost, count, values⟩ := before
  obtain ⟨sameTokens, counter, sameCapacity, further, more, rest⟩ := after
  refine ⟨sameTokens.trans tokens, counter, sameCapacity.trans capacity, lost ++ further, ?_, ?_⟩
  · rw [List.length_append, count, more]
  · rw [values, rest, List.append_assoc]

/-- What stands between two machines does not depend on the log, the depth and the variables. -/
theorem took_congr {before after start last : Machine} {stop count : Nat}
    (taken : Took before stop count after) (tokens : start.tokens = before.tokens)
    (stack : start.stack = before.stack) (sameTokens : last.tokens = after.tokens)
    (counter : last.pc = after.pc) (sameStack : last.stack = after.stack) :
    Took start stop count last := by
  obtain ⟨kept, stopped, capacity, lost, length, values⟩ := taken
  refine ⟨by rw [sameTokens, kept, tokens], by rw [counter, stopped], ?_, lost, length, ?_⟩
  · rw [sameStack, capacity, stack]
  · rw [stack, values, sameStack]

/-- The stack is the same if and only if nothing was taken off it. -/
theorem took_stack {before after : Machine} {stop count : Nat}
    (taken : Took before stop count after) : after.stack = before.stack ↔ count = 0 := by
  obtain ⟨_, _, capacity, lost, length, values⟩ := taken
  constructor
  · intro same
    have size : before.stack.values.length = lost.length + after.stack.values.length := by
      rw [values, List.length_append]
    rw [same] at size
    omega
  · intro none
    have empty : lost = [] := List.eq_nil_of_length_eq_zero (by rw [length, none])
    rw [empty, List.nil_append] at values
    change Stack.mk after.stack.values after.stack.capacity = before.stack
    rw [← values, capacity]

/-- A command has gone on to an index, has taken a number of values off the stack, and has put its
result on it. -/
def Leaves (before : Machine) (stop count : Nat) (after : Machine) : Prop :=
  ∃ last result stack, Took before stop count last ∧ last.stack.push result = .ok stack ∧
    after = { last with stack }

theorem values_of_pop {stack rest : Stack} {value : Value}
    (popped : stack.pop = .ok (value, rest)) : stack.values = value :: rest.values := by
  unfold Stack.pop at popped
  split at popped
  · rename_i held
    cases popped
    exact held
  · cases popped

section Values
variable {σ : Type} {machine after : Machine} {host later : σ}

theorem push_leaves {before : Machine} {stop count : Nat} {result : Value}
    (taken : Took before stop count machine)
    (ran : (push result).on machine host = ((.ok (), after), later)) :
    Leaves before stop count after := by
  rw [on_push] at ran
  split at ran
  · rename_i stack pushed
    cases ran
    exact ⟨machine, result, stack, taken, pushed, rfl⟩
  · cases ran

variable [Host (StateM σ)]

/-- A command in the place of an operand is executed one level further in, and a value is taken off
the stack after it. -/
theorem command_popped {levels : Nat} {command : Command} {result : Value}
    (kind : kindAt machine.tokens machine.pc = some (.command command))
    (ran : (value (level? levels)).on machine host = ((.ok result, after), later)) :
    ∃ less middle stack,
      (perform (level? less) command).on (entered { machine with pc := machine.pc + 1 }) host =
        ((.ok (), middle), later) ∧
      middle.stack.pop = .ok (result, stack) ∧ after = left { middle with stack } := by
  obtain ⟨token, held, commands⟩ := Option.map_eq_some_iff.mp kind
  have next : machine.current? = some token := held
  unfold value at ran
  rw [on_bind, on_consume, next] at ran
  simp only [valueFrom, commands] at ran
  cases levels with
  | zero => cases ran
  | succ less =>
    have inner : (inside (level? (less + 1)) token.position fun inner => do
        inner.perform command
        pop : Exec (StateM σ) Value).on { machine with pc := machine.pc + 1 } host =
        match (do
          perform (level? less) command
          pop : Exec (StateM σ) Value).on (entered { machine with pc := machine.pc + 1 }) host with
        | ((result, last), later) => ((result, left last), later) := on_counted_entered _ _ _
    rw [inner] at ran
    rcases body : (do
        perform (level? less) command
        pop : Exec (StateM σ) Value).on (entered { machine with pc := machine.pc + 1 }) host with
      ⟨⟨stop | popped, last⟩, final⟩
    all_goals rw [body] at ran
    · cases ran
    · cases ran
      obtain ⟨⟨⟩, middle, between, performed, taken⟩ := on_bind_eq_ok body
      rw [on_pop] at taken
      split at taken
      · rename_i top stack popped
        cases taken
        exact ⟨less, middle, stack, performed, popped, rfl⟩
      · cases taken

/-- A command that leaves a result gives the stack back without it. -/
theorem value_of_leaves {levels stop count : Nat} {command : Command} {result : Value}
    (kind : kindAt machine.tokens machine.pc = some (.command command))
    (leaves : ∀ less middle between,
      (perform (level? less) command).on (entered { machine with pc := machine.pc + 1 }) host =
        ((.ok (), middle), between) →
      Leaves (entered { machine with pc := machine.pc + 1 }) stop count middle)
    (ran : (value (level? levels)).on machine host = ((.ok result, after), later)) :
    Took machine stop count after := by
  obtain ⟨less, middle, stack, performed, popped, rfl⟩ := command_popped kind ran
  obtain ⟨last, pushed, full, taken, push, rfl⟩ := leaves less middle later performed
  rw [Stack.pop_of_push push] at popped
  cases popped
  exact took_congr taken rfl rfl rfl rfl rfl

/-- A value that is a literal or a variable leaves the stack alone. -/
theorem value_plain {levels : Nat} {token : Token} {result : Value}
    (next : machine.current? = some token)
    (plain : isLiteral token.kind = true ∨
      (token.kind = .identifier ∧ token.name?.any standsForTop = false))
    (ran : (value (level? levels)).on machine host = ((.ok result, after), later)) :
    after = { machine with pc := machine.pc + 1 } := by
  unfold value at ran
  rw [on_bind, on_consume, next] at ran
  simp only [valueFrom] at ran
  split at ran
  · rename_i command kind
    simp [kind, isLiteral] at plain
  · rename_i kind
    simp [kind, isLiteral] at plain
  · rename_i kind
    have own : token.name?.any standsForTop = false := by simpa [kind, isLiteral] using plain
    simp only [own, Bool.false_eq_true, ↓reduceIte] at ran
    rw [on_lookup] at ran
    split at ran
    · cases ran
      rfl
    · cases ran
  · cases ran
    rfl

omit [Host (StateM σ)] in
theorem on_moreOnLine_goesOn (machine : Machine) (host : σ) :
    (moreOnLine : Exec (StateM σ) Bool).on machine host =
      ((.ok (goesOn machine.tokens machine.pc), machine), host) := rfl

omit [Host (StateM σ)] in
theorem on_takeCast_afterCast (machine : Machine) (host : σ) :
    ∃ cast, (takeCast : Exec (StateM σ) (Option Cast)).on machine host =
      ((.ok cast, { machine with pc := afterCast machine.tokens machine.pc }), host) := by
  unfold takeCast
  rw [on_bind, on_current?]
  unfold afterCast kindAt Machine.current?
  simp only
  generalize machine.tokens[machine.pc]?.map Token.kind = kind?
  cases kind? with
  | none => exact ⟨none, rfl⟩
  | some kind => cases kind <;> exact ⟨_, rfl⟩

theorem on_takePrompt_prompts (levels : Nat) (machine : Machine) (host : σ) :
    (takePrompt (level? levels) : Exec (StateM σ) (Option String)).on machine host =
      if prompts machine.tokens machine.pc = true then
        (do return some (← value (level? levels)).text : Exec (StateM σ) (Option String)).on
          { machine with pc := machine.pc + 2 } host
      else ((.ok none, machine), host) := by
  unfold takePrompt
  rw [on_bind, on_get]
  simp only [prompts, decide_eq_true_eq]
  unfold kindAt Machine.current?
  split
  · exact on_bind _ _ _ _
  · rfl

end Values

section Operands
variable {σ : Type} [Host (StateM σ)]

/-- Taking a part from one index to another takes a number of values off the stack, whatever
machine and host it starts from. -/
def Takes (σ : Type) [Host (StateM σ)] (tokens : Array Token) (part : Part)
    (start stop count : Nat) : Prop :=
  ∀ levels machine (host : σ), machine.tokens = tokens → machine.pc = start →
    match part with
    | .value => ∀ result after later,
        (value (level? levels)).on machine host = ((.ok result, after), later) →
          Took machine stop count after
    | .line => ∀ text line after later,
        (whileTokens moreOnLine (fun text => return text ++ (← value (level? levels)).text)
          text).on machine host = ((.ok line, after), later) → Took machine stop count after

variable {tokens : Array Token} {start middle stop first second count : Nat}

theorem arithmetic_leaves {levels : Nat} {operation : Arithmetic} {machine after : Machine}
    {host later : σ} (left : Takes σ machine.tokens .value machine.pc middle first)
    (right : Takes σ machine.tokens .value middle stop second)
    (ran : (arithmetic (level? levels) operation).on machine host = ((.ok (), after), later)) :
    Leaves machine stop (first + second) after := by
  unfold arithmetic at ran
  obtain ⟨leftValue, between, host₁, tookLeft, ran⟩ := on_bind_eq_ok ran
  obtain ⟨rightValue, last, host₂, tookRight, ran⟩ := on_bind_eq_ok ran
  have early : Took machine middle first between := left levels machine host rfl rfl _ _ _ tookLeft
  have late : Took between stop second last :=
    right levels between host₁ early.tokens early.counter _ _ _ tookRight
  split at ran
  · exact push_leaves (took_trans early late) ran
  · cases ran
  · cases ran

/-- Input that has been taken is put on the stack. -/
theorem readLine_leaves {cast : Option Cast} {prompt : Option String} {machine last after : Machine}
    {host later : σ} (taken : Took machine stop count last)
    (ran : (do
      let result ← match ← readLine prompt with
        | none => pure Value.null
        | some line =>
          match Value.ofInput? cast line with
          | some value => pure value
          | none => raise (.meant (.invalidConversion line "NUM" (← lastPlace)))
      record (.converted result)
      push result : Exec (StateM σ) Unit).on last host = ((.ok (), after), later)) :
    Leaves machine stop count after := by
  obtain ⟨line?, between, host₁, read, ran⟩ := on_bind_eq_ok ran
  rw [on_readLine] at read
  split at read
  · cases read
    have pushed (result : Value) {host : σ}
        (ran : (do
          record (.converted result)
          push result : Exec (StateM σ) Unit).on (last.record (.took prompt line?)) host =
            ((.ok (), after), later)) : Leaves machine stop count after := by
      obtain ⟨_, _, _, recorded, ran⟩ := on_bind_eq_ok ran
      cases recorded
      exact push_leaves (took_congr taken rfl rfl rfl rfl rfl : Took machine stop count
        ((last.record (.took prompt line?)).record (.converted result))) ran
    cases line? with
    | none => exact pushed _ ran
    | some line =>
      simp only at ran
      split at ran
      · exact pushed _ ran
      · cases ran
  · cases read

/-- Where a prompt is asked for, its operand is taken after the two tokens that ask for it. -/
theorem takePrompt_took {levels : Nat} {machine after : Machine} {host later : σ}
    {prompt : Option String} (prompted : prompts machine.tokens machine.pc = true)
    (operand : Takes σ machine.tokens .value (machine.pc + 2) stop count)
    (ran : (takePrompt (level? levels)).on machine host = ((.ok prompt, after), later)) :
    Took machine stop count after := by
  rw [on_takePrompt_prompts, if_pos prompted] at ran
  obtain ⟨text, _, _, taken, returned⟩ := on_bind_eq_ok ran
  cases returned
  have behind : Took { machine with pc := machine.pc + 2 } stop count after :=
    operand levels { machine with pc := machine.pc + 2 } host rfl rfl _ _ _ taken
  exact took_congr behind rfl rfl rfl rfl rfl

/-- Where no prompt is asked for, nothing is taken. -/
theorem takePrompt_silent {levels : Nat} {machine after : Machine} {host later : σ}
    {prompt : Option String} (silent : prompts machine.tokens machine.pc = false)
    (ran : (takePrompt (level? levels)).on machine host = ((.ok prompt, after), later)) :
    Took machine machine.pc 0 after := by
  rw [on_takePrompt_prompts, silent] at ran
  cases ran
  exact took_none rfl rfl rfl

theorem takeInput_leaves {levels : Nat} {machine after : Machine} {host later : σ}
    (prompted : ∀ prompt last between, (takePrompt (level? levels)).on
      { machine with pc := afterCast machine.tokens machine.pc } host =
        ((.ok prompt, last), between) →
      Took { machine with pc := afterCast machine.tokens machine.pc } stop count last)
    (ran : (takeInput (level? levels)).on machine host = ((.ok (), after), later)) :
    Leaves machine stop count after := by
  unfold takeInput at ran
  obtain ⟨cast, between, host₁, casting, ran⟩ := on_bind_eq_ok ran
  obtain ⟨found, casts⟩ := on_takeCast_afterCast machine host
  rw [casts] at casting
  cases casting
  obtain ⟨prompt, last, host₂, prompting, ran⟩ := on_bind_eq_ok ran
  have taken : Took machine stop count last :=
    took_congr (prompted prompt last host₂ prompting) rfl rfl rfl rfl rfl
  exact readLine_leaves taken ran

theorem print_took {levels : Nat} {machine after : Machine} {host later : σ}
    (values : Takes σ machine.tokens .line machine.pc stop count)
    (ran : (print (level? levels)).on machine host = ((.ok (), after), later)) :
    Took machine stop count after := by
  unfold print at ran
  obtain ⟨line, middle, between, looped, wrote⟩ := on_bind_eq_ok ran
  have taken : Took machine stop count middle :=
    values levels machine host rfl rfl "" line middle between looped
  rw [on_writeLine] at wrote
  split at wrote
  · cases wrote
    exact took_congr taken rfl rfl rfl rfl rfl
  · cases wrote

/-- The end of the program gives no value. -/
theorem exit_unfinished {levels : Nat} {machine after : Machine} {host later : σ} :
    (exit (level? levels)).on machine host ≠ ((.ok (), after), later) := by
  intro ran
  unfold exit at ran
  obtain ⟨more, _, _, _, ran⟩ := on_bind_eq_ok ran
  split at ran
  · obtain ⟨code, _, _, _, ran⟩ := on_bind_eq_ok ran
    simp only at ran
    split at ran
    · cases ran
    · cases ran
  · cases ran

/-- A `PRINT` in the place of an operand takes one value more than the values that it writes: the
one that it gives as its result. -/
theorem print_gives {levels : Nat} {machine after : Machine} {host later : σ} {result : Value}
    (kind : kindAt machine.tokens machine.pc = some (.command .print))
    (values : Takes σ machine.tokens .line (machine.pc + 1) stop count)
    (ran : (value (level? levels)).on machine host = ((.ok result, after), later)) :
    Took machine stop (count + 1) after ∧ ∃ lost, lost.length = count + 1 ∧
      machine.stack.values = lost ++ after.stack.values ∧ lost.getLast? = some result := by
  obtain ⟨less, middle, stack, performed, popped, rfl⟩ := command_popped kind ran
  obtain ⟨tokens, counter, capacity, lost, length, values⟩ :
    Took (entered { machine with pc := machine.pc + 1 }) stop count middle :=
    print_took values performed
  have held : machine.stack.values = (lost ++ [result]) ++ stack.values := by
    calc machine.stack.values = lost ++ middle.stack.values := values
      _ = lost ++ result :: stack.values := by rw [values_of_pop popped]
      _ = (lost ++ [result]) ++ stack.values := (List.append_cons lost result stack.values)
  have longer : (lost ++ [result]).length = count + 1 := by
    rw [List.length_append, length, List.length_singleton]
  refine ⟨⟨tokens, counter, (Stack.capacity_of_pop popped).trans capacity, _, longer, held⟩, ?_⟩
  exact ⟨_, longer, held, List.getLast?_concat⟩

/-- A line that goes on has a value first. -/
theorem line_takes (more : goesOn tokens start = true)
    (head : Takes σ tokens .value start middle first)
    (rest : Takes σ tokens .line middle stop second) :
    Takes σ tokens .line start stop (first + second) := by
  rintro levels machine host rfl rfl text line after later ran
  have looped := loops_end.line levels text machine host
  have asked : (moreOnLine : Exec (StateM σ) Bool).on machine host =
      ((.ok true, machine), host) := by rw [on_moreOnLine_goesOn, more]
  rcases taken : (value (level? levels)).on machine host with ⟨⟨fault | result, between⟩, host₁⟩
  · have broken : (do return text ++ (← value (level? levels)).text : Exec (StateM σ) String).on
        machine host = ((.error fault, between), host₁) := by rw [on_bind, taken]
    rw [loop_broken looped asked broken] at ran
    cases ran
  · have went : (do return text ++ (← value (level? levels)).text : Exec (StateM σ) String).on
        machine host = ((.ok (text ++ result.text), between), host₁) := by
      rw [on_bind, taken]
      rfl
    have early : Took machine middle first between :=
      head levels machine host rfl rfl result between host₁ taken
    have again := loop_again looped asked went
    rw [loop_unique (loops_end.line levels (text ++ result.text) between host₁) again] at ran
    exact took_trans early
      (rest levels between host₁ early.tokens early.counter _ line after later ran)

/-- The induction over an operand: each of its parts takes as many values off the stack as it has a
`PRINT`. -/
theorem takes_of_stands {part : Part} (stands : Stands tokens part start stop count) :
    Takes σ tokens part start stop count := by
  induction stands with
  | literal held plain =>
    rintro levels machine host rfl rfl result after later ran
    rw [value_plain held (.inl plain) ran]
    exact took_none rfl rfl rfl
  | name held kind own =>
    rintro levels machine host rfl rfl result after later ran
    rw [value_plain held (.inr ⟨kind, own⟩) ran]
    exact took_none rfl rfl rfl
  | arithmetic kind _ _ ihLeft ihRight =>
    rintro levels machine host rfl rfl result after later ran
    exact value_of_leaves kind (fun _ _ _ performed => arithmetic_leaves ihLeft ihRight performed)
      ran
  | read kind silent =>
    rintro levels machine host rfl rfl result after later ran
    exact value_of_leaves kind (fun _ _ _ performed =>
      takeInput_leaves (fun _ _ _ => takePrompt_silent silent) performed) ran
  | readPrompted kind prompted _ ih =>
    rintro levels machine host rfl rfl result after later ran
    exact value_of_leaves kind (fun _ _ _ performed =>
      takeInput_leaves (fun _ _ _ => takePrompt_took prompted ih) performed) ran
  | print kind _ ih =>
    rintro levels machine host rfl rfl result after later ran
    exact (print_gives kind ih ran).1
  | exit kind _ | exitWith kind _ _ _ =>
    rintro levels machine host rfl rfl result after later ran
    obtain ⟨less, middle, stack, performed, _⟩ := command_popped kind ran
    exact (exit_unfinished performed).elim
  | lineEnd ended =>
    rintro levels machine host rfl rfl text line after later ran
    have asked : (moreOnLine : Exec (StateM σ) Bool).on machine host =
        ((.ok false, machine), host) := by rw [on_moreOnLine_goesOn, ended]
    rw [loop_finished (loops_end.line levels text machine host) asked] at ran
    cases ran
    exact took_none rfl rfl rfl
  | lineMore more _ _ ihHead ihRest => exact line_takes more ihHead ihRest

/-- An operand of literals, variables and commands takes as many values off the operand stack as it
has a `PRINT`, and so the stack afterwards is the stack before exactly if it has none. A `PRINT`
itself gives the last of these values, which was on the stack before the operand, as if it were its
result. -/
theorem operand_takes_prints {machine after : Machine} {host later : σ} {result : Value}
    {stop prints : Nat} (stands : Stands machine.tokens .value machine.pc stop prints)
    (ran : evaluateValue.on machine host = ((.ok result, after), later)) :
    after.pc = stop ∧ (after.stack = machine.stack ↔ prints = 0) ∧
      ∃ lost, lost.length = prints ∧ machine.stack.values = lost ++ after.stack.values ∧
        (kindAt machine.tokens machine.pc = some (.command .print) →
          lost.getLast? = some result) := by
  rw [on_evaluateValue] at ran
  have taken : Took machine stop prints after :=
    takes_of_stands stands _ machine host rfl rfl result after later ran
  refine ⟨taken.counter, took_stack taken, ?_⟩
  by_cases kind : kindAt machine.tokens machine.pc = some (.command .print)
  · obtain ⟨count, rfl, line⟩ := stands_print kind stands
    obtain ⟨_, lost, length, values, given⟩ := print_gives kind (takes_of_stands line) ran
    exact ⟨lost, length, values, fun _ => given⟩
  · obtain ⟨lost, length, values⟩ := taken.values
    exact ⟨lost, length, values, fun itself => (kind itself).elim⟩

end Operands

/-- Input with a prompt, which is input itself, gives the stack back. -/
theorem operand_takes_prints_input :
    let program : Array Token := #[⟨.command .read, .keyword "READ", ⟨1, 0⟩⟩,
      ⟨.binary .and, .keyword "AND", ⟨1, 5⟩⟩, ⟨.command .print, .keyword "PRINT", ⟨1, 9⟩⟩,
      ⟨.command .read, .keyword "READ", ⟨1, 15⟩⟩]
    let machine := { Machine.load program 3 with stack := ⟨[.boolean true], 3⟩ }
    let ended := evaluateValue.on machine (Transcript.ofInput ["name?", "ann"])
    Stands machine.tokens .value 0 4 0 ∧ ended.1.1 = .ok (.string "ann") ∧
      ended.1.2.stack = machine.stack := by
  intro program machine ended
  have stands : Stands machine.tokens .value machine.pc 4 0 :=
    .readPrompted rfl rfl (.read rfl rfl)
  have given : ended.1.1 = .ok (.string "ann") := rfl
  have ran : ended = ((.ok (.string "ann"), ended.1.2), ended.2) := by rw [← given]
  exact ⟨stands, given, (operand_takes_prints stands ran).2.1.mpr rfl⟩

/-- A `PRINT` in the place of an operand gives a value that was on the stack before it, and takes it
away. -/
theorem print_takes_unrelated :
    let program : Array Token := #[⟨.command .print, .keyword "PRINT", ⟨1, 0⟩⟩,
      ⟨.boolean, .boolean false, ⟨1, 6⟩⟩]
    let machine := { Machine.load program 3 with stack := ⟨[.boolean true], 3⟩ }
    let ended := evaluateValue.on machine (Transcript.ofInput [])
    Stands machine.tokens .value 0 2 1 ∧ ended.1.1 = .ok (.boolean true) ∧
      ended.1.2.stack = ⟨[], 3⟩ ∧ ended.1.2.stack ≠ machine.stack := by
  intro program machine ended
  have stands : Stands machine.tokens .value 0 2 1 :=
    .print rfl (.lineMore rfl (.literal rfl rfl) (.lineEnd rfl))
  have emptied : ended.1.2.stack = ⟨[], 3⟩ := rfl
  refine ⟨stands, rfl, emptied, ?_⟩
  rw [emptied]
  nofun

end StackScript.OperandStack
