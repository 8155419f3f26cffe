import StackScript.Proofs.Reach

/-! The constructs, executed side by side. Each of them is mirrored, given that what it executes
one nesting level further in is. A search ahead of the counter is mirrored if what follows it leads
past what it has found: only then is all that it looked at in reach. -/
namespace StackScript.Reach
open Exec Walk Progress

namespace Scope

variable {σ : Type}

section Lookahead
variable [Host (StateM σ)] {scope : Scope σ} (lawful : scope.Lawful)
include lawful

theorem mirrors_takeEnd : scope.Mirrors (takeEnd : Exec (StateM σ) Unit) := by
  intro machine host
  refine mirrored_bind lawful (mirrors_current lawful machine host) ?_
  rintro _ _ _ ⟨⟩
  split
  · rename_i ends
    obtain ⟨token, next, _⟩ := Option.any_eq_true _ _ |>.mp ends
    exact mirrored_skip_one next
  · exact mirrors_pure () machine host

theorem mirrors_groupContinues (opener : Token) :
    scope.Mirrors (groupContinues opener : Exec (StateM σ) Bool) := by
  intro machine host
  refine mirrored_bind lawful (mirrors_current lawful machine host) ?_
  rintro _ _ _ ⟨⟩
  split
  · exact mirrors_raise _ machine host
  · rename_i token next
    split
    · exact mirrored_bind lawful (mirrored_skip_one next) fun _ middle between _ =>
        mirrors_pure false middle between
    · exact mirrors_pure true machine host

theorem mirrors_bodyContinues (opener : Token) :
    scope.Mirrors (bodyContinues opener : Exec (StateM σ) Bool) := by
  refine mirrors_bind lawful (mirrors_current lawful) fun next? => ?_
  cases next? with
  | none => exact mirrors_raise _
  | some token => exact mirrors_pure _

theorem mirrors_moreOnLine : scope.Mirrors (moreOnLine : Exec (StateM σ) Bool) :=
  mirrors_bind lawful (mirrors_lastPlace lawful) fun _ =>
    mirrors_bind lawful (mirrors_current lawful) fun _ => mirrors_pure _

theorem mirrors_takeCast : scope.Mirrors (takeCast : Exec (StateM σ) (Option Cast)) := by
  intro machine host
  refine mirrored_bind lawful (mirrors_current lawful machine host) ?_
  rintro _ _ _ ⟨⟩
  split
  · rename_i type cast
    obtain ⟨token, next, _⟩ := Option.map_eq_some_iff.mp cast
    exact mirrored_bind lawful (mirrored_skip_one next) fun _ middle between _ =>
      mirrors_pure _ middle between
  · exact mirrors_pure none machine host

theorem mirrors_takeKeyword (kind : TokenKind) (keyword : String) :
    scope.Mirrors (takeKeyword kind keyword : Exec (StateM σ) Unit) := by
  refine mirrors_bind lawful (mirrors_consume lawful) fun token => ?_
  split
  · exact mirrors_raise _
  · exact mirrors_pure ()

theorem mirrors_takeTarget : scope.Mirrors (takeTarget : Exec (StateM σ) String) := by
  refine mirrors_bind lawful (mirrors_consume lawful) fun token => ?_
  split
  · exact mirrors_pure _
  · exact mirrors_raise _

/-- The operand to the left of an operator stands before the counter. -/
theorem mirrored_operandBefore {machine : Machine} {host : σ} {index : Nat}
    (behind : index ≤ machine.pc) :
    scope.Mirrored (operandBefore index : Exec (StateM σ) Value) machine host := by
  refine mirrored_congr lawful (on_operandBefore index machine host) ?_ ?_
  · intro tokens start _ other
    have same : variableBefore scope.image index = variableBefore machine.tokens index := by
      unfold variableBefore
      rw [tokens, tokenBefore_mirrored lawful start behind]
    rw [on_operandBefore]
    change ((variableBefore scope.image index).elim pop lookup).on _ other = _
    rw [same]
  · cases variableBefore machine.tokens index with
    | none => exact mirrors_pop machine host
    | some token => exact mirrors_lookup token machine host

/-- A fault at the place of the token taken last. -/
theorem mirrors_raise_last {α : Type} (error : Position → Error) :
    scope.Mirrors (do raise (error (← lastPlace)) : Exec (StateM σ) α) :=
  mirrors_bind lawful (mirrors_lastPlace lawful) fun _ => mirrors_raise _

end Lookahead

/-- What is executed when some more levels may be nested is mirrored. -/
structure Further (scope : Scope σ) [Host (StateM σ)] (levels : Nat) : Prop where
  step : scope.Mirrors (stepWith (level? levels))
  perform (command : Command) : scope.Mirrors (perform (level? levels) command)

section Operands
variable [Host (StateM σ)] {scope : Scope σ} (lawful : scope.Lawful) {levels : Nat}
  (further : ∀ less, levels = less + 1 → scope.Further less)
include lawful further

theorem mirrored_inside {α : Type} (position : Position) {machine : Machine} {host : σ}
    {body : Level (StateM σ) → Exec (StateM σ) α}
    (mirrored : ∀ less, scope.Further less →
      scope.Mirrored (body ⟨stepWith (level? less), perform (level? less)⟩) (entered machine)
        host) :
    scope.Mirrored (inside (level? levels) position body) machine host := by
  cases levels with
  | zero => exact mirrors_raise _ machine host
  | succ less => exact mirrored_counted lawful (mirrored less (further less rfl))

theorem mirrors_group (opener : Token) : scope.Mirrors (group (level? levels) opener) := by
  intro machine host
  refine mirrored_inside lawful further opener.position fun less inner => ?_
  refine mirrored_bind lawful ?_ fun _ middle between _ => mirrors_pop middle between
  exact mirrored_while lawful (mirrors_groupContinues lawful opener) (fun _ => inner.step)
    (loops_end.group less opener _ host) fun _ _ => loops_end.group less opener _

theorem mirrors_expressionFrom (token : Token) :
    scope.Mirrors (expressionFrom (level? levels) token) := by
  unfold expressionFrom
  split
  · exact mirrors_group lawful further token
  · exact mirrors_lookup token
  · exact mirrors_pure _

theorem mirrors_expression : scope.Mirrors (expression (level? levels)) :=
  mirrors_bind lawful (mirrors_consume lawful) (mirrors_expressionFrom lawful further)

theorem mirrors_valueFrom (token : Token) : scope.Mirrors (valueFrom (level? levels) token) := by
  unfold valueFrom
  split
  · rename_i command _
    intro machine host
    refine mirrored_inside lawful further token.position fun less inner => ?_
    exact mirrors_bind lawful (inner.perform command) (fun _ => mirrors_pop) _ host
  · exact mirrors_group lawful further token
  · split
    · exact mirrors_pop
    · exact mirrors_lookup token
  · exact mirrors_pure _

theorem mirrors_value : scope.Mirrors (value (level? levels)) :=
  mirrors_bind lawful (mirrors_consume lawful) (mirrors_valueFrom lawful further)

theorem mirrors_boolean (operator : String) :
    scope.Mirrors (boolean (level? levels) operator) := by
  refine mirrors_bind lawful (mirrors_expression lawful further) fun value => ?_
  split
  · exact mirrors_pure _
  · exact mirrors_raise_last lawful _

theorem mirrored_compare (operator : Operator) (name : String) {machine : Machine} {host : σ}
    {index : Nat} (behind : index ≤ machine.pc) :
    scope.Mirrored (compare (level? levels) operator name index) machine host := by
  refine mirrored_bind lawful (mirrored_operandBefore lawful behind) fun left middle between _ => ?_
  refine mirrors_bind lawful (mirrors_expression lawful further) (fun right => ?_) middle between
  split
  · exact mirrors_pure _
  · exact mirrors_raise_last lawful _

end Operands

section Constructs
variable [Host (StateM σ)] {scope : Scope σ} (lawful : scope.Lawful) {levels : Nat}
  (further : ∀ less, levels = less + 1 → scope.Further less)
include lawful further

theorem mirrors_binary (operator : Operator) :
    scope.Mirrors (binary (level? levels) operator) := by
  intro machine host
  refine mirrored_bind lawful (mirrors_lastIndex machine host) ?_
  rintro _ _ _ ⟨⟩
  exact mirrored_bind lawful (mirrored_compare lawful further operator _ (Nat.sub_le _ _))
    fun _ middle between _ => mirrors_push _ middle between

theorem mirrors_negate : scope.Mirrors (negate (level? levels)) := by
  intro machine host
  refine mirrored_bind lawful (mirrors_lastIndex machine host) ?_
  rintro _ _ _ ⟨⟩
  refine mirrored_bind lawful (mirrors_current lawful machine host) ?_
  rintro _ _ _ ⟨⟩
  split
  · rename_i equals
    obtain ⟨token, next, _⟩ := Option.any_eq_true _ _ |>.mp equals
    refine mirrored_bind lawful (mirrored_skip_one next) ?_
    rintro _ _ _ ⟨⟩
    refine mirrored_bind lawful (mirrored_compare lawful further .equal _ ?_)
      fun _ middle between _ => mirrors_push _ middle between
    exact Nat.le_succ_of_le (Nat.sub_le _ _)
  · exact mirrors_bind lawful (mirrors_boolean lawful further "NOT") (fun _ => mirrors_push _)
      machine host

theorem mirrors_assignment (keyword : Token) :
    scope.Mirrors (assignment (level? levels) keyword) := by
  have tail : scope.Mirrors (do
      let result ← value (level? levels)
      takeKeyword .target "TO"
      let name ← takeTarget
      assign name result : Exec (StateM σ) Unit) :=
    mirrors_bind lawful (mirrors_value lawful further) fun _ =>
      mirrors_bind lawful (mirrors_takeKeyword lawful _ _) fun _ =>
        mirrors_bind lawful (mirrors_takeTarget lawful) fun _ => mirrors_assign lawful _ _
  unfold assignment
  split
  · exact mirrors_bind lawful (mirrors_takeKeyword lawful _ _) fun _ => tail
  · exact tail

theorem mirrors_arithmetic (operation : Arithmetic) :
    scope.Mirrors (arithmetic (level? levels) operation) := by
  refine mirrors_bind lawful (mirrors_value lawful further) fun left => ?_
  refine mirrors_bind lawful (mirrors_value lawful further) fun right => ?_
  split
  · exact mirrors_push _
  · exact mirrors_raise_last lawful _
  · exact mirrors_raise_last lawful _

/-- A prompt is announced by two tokens, and the second one matters only after an `AND`. -/
theorem mirrors_takePrompt : scope.Mirrors (takePrompt (level? levels)) := by
  intro machine host
  have asks (machine : Machine) (host : σ) :
      (takePrompt (level? levels)).on machine host =
        (if machine.current?.map Token.kind = some (.binary .and) ∧
            machine.tokens[machine.pc + 1]?.map Token.kind = some (.command .print) then
          (do
            skip 2
            return some (← value (level? levels)).text : Exec (StateM σ) (Option String))
        else pure none).on machine host := rfl
  refine mirrored_congr lawful (asks machine host) (fun tokens start _ other => ?_) ?_
  · have next : (scope.mirror machine).current? = machine.current? :=
      current_mirrored lawful tokens start
    have following (asked : machine.current?.map Token.kind = some (.binary .and)) :
        (scope.mirror machine).tokens[machine.pc + 1]? = machine.tokens[machine.pc + 1]? := by
      obtain ⟨token, held, kind⟩ := Option.map_eq_some_iff.mp asked
      unfold Machine.current? at held
      rw [tokens] at held ⊢
      exact lawful.following start held kind
    rw [asks, next]
    by_cases asked : machine.current?.map Token.kind = some (.binary .and)
    · rw [show (scope.mirror machine).pc = machine.pc from rfl, following asked]
    · simp only [asked, false_and]
  · split
    · rename_i announced
      obtain ⟨printer, second, _⟩ := Option.map_eq_some_iff.mp announced.2
      have within : machine.pc + 2 ≤ machine.tokens.size :=
        (Array.getElem?_eq_some_iff.mp second).1
      exact mirrored_bind lawful (mirrored_skip within) fun _ middle between _ =>
        mirrors_bind lawful (mirrors_value lawful further) (fun _ => mirrors_pure _) middle between
    · exact mirrors_pure none machine host

theorem mirrors_takeInput : scope.Mirrors (takeInput (level? levels)) := by
  have stored (result : Value) :
      scope.Mirrors (do record (.converted result); push result : Exec (StateM σ) Unit) :=
    mirrors_bind lawful (mirrors_record lawful rfl rfl) fun _ => mirrors_push result
  refine mirrors_bind lawful (mirrors_takeCast lawful) fun cast => ?_
  refine mirrors_bind lawful (mirrors_takePrompt lawful further) fun prompt => ?_
  refine mirrors_bind lawful (mirrors_readLine lawful prompt) fun line? => ?_
  cases line? with
  | none => exact stored .null
  | some line =>
    simp only
    split
    · exact stored _
    · exact mirrors_bind lawful (mirrors_lastPlace lawful) fun _ =>
        mirrors_bind lawful (mirrors_raise _) stored

theorem mirrors_print : scope.Mirrors (print (level? levels)) := by
  have more (text : String) :
      scope.Mirrors (do return text ++ (← value (level? levels)).text : Exec (StateM σ) String) :=
    mirrors_bind lawful (mirrors_value lawful further) fun _ => mirrors_pure _
  refine mirrors_bind lawful (fun machine host => ?_) fun line => mirrors_writeLine lawful line
  exact mirrored_while lawful (mirrors_moreOnLine lawful) more
    (loops_end.line levels "" machine host) fun _ _ => loops_end.line levels "" _

theorem mirrors_exit : scope.Mirrors (exit (level? levels)) := by
  refine mirrors_bind lawful (mirrors_moreOnLine lawful) fun more => ?_
  split
  · refine mirrors_bind lawful (mirrors_value lawful further) fun code => ?_
    dsimp only
    split
    · exact mirrors_throw _
    · exact mirrors_raise_last lawful _
  · exact mirrors_throw _

theorem mirrors_perform (command : Command) :
    scope.Mirrors (perform (level? levels) command) := by
  cases command with
  | arithmetic operation => exact mirrors_arithmetic lawful further operation
  | read => exact mirrors_takeInput lawful further
  | print => exact mirrors_print lawful further
  | exit => exact mirrors_exit lawful further

end Constructs

/-- What a search has found, or the fault that it is missing. -/
def found {β : Type} (missing : Error) : Option β → Except Error β
  | some target => .ok target
  | none => .error missing

theorem found_eq_ok {β : Type} {missing : Error} {target? : Option β} {target : β} :
    found missing target? = .ok target ↔ target? = some target := by
  cases target? <;> simp [found]

section Blocks
variable [Host (StateM σ)] {scope : Scope σ} (lawful : scope.Lawful) {levels : Nat}
include lawful

/-- A search of the tokens ahead: what follows it must lead past what it has found. -/
theorem mirrored_search {α β : Type} {machine : Machine} {host : σ} {action : Exec (StateM σ) α}
    (search : Array Token → Except Error β) (next : β → Exec (StateM σ) α)
    (reads : ∀ tokens (host : σ), action.on { machine with tokens } host =
      (match search tokens with
        | .ok target => next target
        | .error error => raise error).on { machine with tokens } host)
    (rest : ∀ target, search machine.tokens = .ok target →
      scope.Mirrored (next target) machine host)
    (again : ∀ target value after later, machine.tokens = scope.program →
      search scope.program = .ok target →
      (next target).on machine host = ((.ok value, after), later) → scope.Reached none after →
      search scope.image = .ok target) :
    scope.Mirrored action machine host := by
  refine mirrored_congr lawful (reads machine.tokens host) (fun tokens _ reached other => ?_) ?_
  · have same : search scope.image = search machine.tokens := by
      rw [tokens]
      cases searched : search scope.program with
      | error error =>
        rw [tokens, searched] at reached
        rw [lawful.stopped reached, searched]
      | ok target =>
        rw [tokens, searched] at reached
        simp only at reached
        rcases ended : (next target).on machine host with ⟨⟨stop | value, after⟩, later⟩
        all_goals rw [ended] at reached
        · rw [lawful.stopped reached, searched]
        · exact again target value after later tokens searched ended reached
    have there := reads scope.image other
    rw [same] at there
    exact there
  · cases searched : search machine.tokens with
    | ok target => exact rest target searched
    | error error => exact mirrors_raise error machine host

/-- Going to the end of a block that was found ahead, and past its `END` if there is one. -/
theorem mirrored_passTo {machine : Machine} {host : σ} {start column stop : Nat}
    (ahead : machine.pc ≤ start) (ends : endOfBlock machine.tokens start column = some stop) :
    scope.Mirrored (do goTo stop; takeEnd : Exec (StateM σ) Unit) machine host := by
  obtain ⟨after, ⟨closer, held, _⟩, _⟩ := firstFrom_eq_some_iff.mp ends
  have gone : scope.Mirrored (goTo stop : Exec (StateM σ) Unit) machine host :=
    mirrored_goTo (Nat.le_trans ahead after) (Nat.le_of_lt (Array.getElem?_eq_some_iff.mp held).1)
  exact mirrored_bind lawful gone fun _ middle between _ =>
    mirrors_takeEnd lawful middle between

/-- Where that leads is past the end. -/
theorem le_of_passTo {machine after : Machine} {host later : σ} {stop : Nat}
    (ran : (do goTo stop; takeEnd : Exec (StateM σ) Unit).on machine host =
      ((.ok (), after), later)) : stop ≤ after.pc := by
  have forward := (mirrors_takeEnd lawful { machine with pc := stop } host).forward
  rw [on_bind, on_goTo] at ran
  simp only at ran
  rw [ran] at forward
  exact forward.counter

theorem mirrors_passOver (opener : Token) :
    scope.Mirrors (passOver opener : Exec (StateM σ) Unit) := by
  intro machine host
  refine mirrored_search lawful
    (fun tokens => found (.executed (.unterminatedBlock "SECTION" opener.position))
      (endOfBlock tokens machine.pc opener.position.column))
    (fun stop => do
      addLabel opener.nameOrEmpty ⟨some (machine.pc - 1), some stop⟩ opener.position
      record (.passed opener.nameOrEmpty (machine.pc - 1) stop)
      goTo stop
      takeEnd) ?_ ?_ ?_
  · intro tokens host
    unfold passOver
    rw [on_bind, on_get]
    simp only
    cases endOfBlock tokens machine.pc opener.position.column <;> rfl
  · intro stop searched
    have ends := found_eq_ok.mp searched
    refine mirrored_bind lawful (mirrors_addLabel _ _ _ machine host) fun _ middle between ran => ?_
    refine mirrored_bind lawful (mirrors_record lawful rfl rfl middle between) ?_
    rintro _ _ _ ⟨⟩
    rw [on_addLabel] at ran
    split at ran
    · cases ran
      exact mirrored_passTo lawful (Nat.le_refl _) ends
    · cases ran
  · intro stop _ after later _ searched ran reached
    have ends := found_eq_ok.mp searched
    obtain ⟨_, middle, between, _, ran⟩ := on_bind_eq_ok ran
    exact found_eq_ok.mpr (firstFrom_mirrored lawful reached ends (le_of_passTo lawful ran))

theorem mirrored_conditional_skipped (opener : Token) {machine : Machine} {host : σ} :
    scope.Mirrored (do
      let machine ← get
      match endOfBlock machine.tokens machine.pc opener.position.column with
      | some stop => goTo stop
      | none => raise (.executed (.unterminatedBlock "IF" opener.position))
      takeEnd : Exec (StateM σ) Unit) machine host := by
  refine mirrored_search lawful
    (fun tokens => found (.executed (.unterminatedBlock "IF" opener.position))
      (endOfBlock tokens machine.pc opener.position.column))
    (fun stop => do
      goTo stop
      takeEnd) ?_ ?_ ?_
  · intro tokens host
    rw [on_bind, on_get]
    simp only
    cases endOfBlock tokens machine.pc opener.position.column <;> rfl
  · intro stop searched
    exact mirrored_passTo lawful (Nat.le_refl _) (found_eq_ok.mp searched)
  · intro stop _ after later _ searched ran reached
    have ends := found_eq_ok.mp searched
    exact found_eq_ok.mpr (firstFrom_mirrored lawful reached ends (le_of_passTo lawful ran))

section Inner
variable (further : ∀ less, levels = less + 1 → scope.Further less)
include further

theorem mirrors_conditional (opener : Token) :
    scope.Mirrors (conditional (level? levels) opener) := by
  refine mirrors_bind lawful (mirrors_boolean lawful further "IF") fun holds => ?_
  refine mirrors_bind lawful (mirrors_record lawful rfl rfl) fun _ => ?_
  cases holds with
  | true =>
    refine mirrors_bind lawful (fun machine host => ?_) fun _ => mirrors_takeEnd lawful
    refine mirrored_inside lawful further opener.position fun less inner => ?_
    exact mirrored_while lawful (mirrors_bodyContinues lawful opener) (fun _ => inner.step)
      (loops_end.body less opener _ host) fun _ _ => loops_end.body less opener _
  | false =>
    intro machine host
    exact mirrored_conditional_skipped lawful opener

omit lawful further [Host (StateM σ)] in
/-- A body that ends by itself has come to its end. -/
theorem le_of_loop {body : Unit → Exec (StateM σ) Unit} {machine after : Machine} {host later : σ}
    {stop : Nat} (looped : Loop (do return (← get).pc < stop) body () machine host
      ((.ok (), after), later)) : stop ≤ after.pc := by
  obtain ⟨final, _, asked⟩ := loop_last looped rfl
  simp only [on_bind, on_get, on_pure, Prod.mk.injEq, Except.ok.injEq,
    decide_eq_false_iff_not, Nat.not_lt] at asked
  obtain ⟨⟨passed, rfl⟩, _⟩ := asked
  exact passed

omit lawful further in
theorem le_of_body {position : Position} {machine after : Machine} {host later : σ} {stop : Nat}
    (within : stop ≤ machine.tokens.size)
    (ran : (inside (level? levels) position fun inner =>
      whileTokens (return (← get).pc < stop) (fun _ => inner.step) ()).on machine host =
        ((.ok (), after), later)) : stop ≤ after.pc := by
  cases levels with
  | zero => cases ran
  | succ less =>
    have looped := loops_end.target less stop (entered machine) host within
    change (counted (whileTokens (do return (← get).pc < stop)
      (fun _ => stepWith (level? less)) ())).on machine host = _ at ran
    rw [on_counted_entered] at ran
    rcases walked : (whileTokens (do return (← get).pc < stop)
      (fun _ => stepWith (level? less)) ()).on (entered machine) host with ⟨⟨result, last⟩, between⟩
    rw [walked] at ran looped
    cases ran
    have come : stop ≤ last.pc := le_of_loop looped
    exact come

theorem mirrored_body (position : Position) {machine : Machine} {host : σ} {stop : Nat}
    (within : stop ≤ machine.tokens.size) :
    scope.Mirrored (inside (level? levels) position fun inner =>
      whileTokens (return (← get).pc < stop) (fun _ => inner.step) ()) machine host := by
  refine mirrored_inside lawful further position fun less inner => ?_
  have tests : scope.Mirrors (do return (← get).pc < stop : Exec (StateM σ) Bool) :=
    fun machine _ => mirrored_of_eq rfl (forward_refl machine) (fun _ => id) fun _ _ _ => rfl
  have looped := loops_end.target less stop (entered machine) host within
  refine mirrored_while lawful tests (fun _ => inner.step) looped fun tokens reached other => ?_
  refine loops_end.target less stop _ other ?_
  change stop ≤ scope.image.size
  rcases walked : (whileTokens (do return (← get).pc < stop)
    (fun _ => stepWith (level? less)) ()).on (entered machine) host with
    ⟨⟨interrupted | ⟨⟩, after⟩, later⟩
  all_goals rw [walked] at looped reached
  · rw [lawful.stopped reached, ← tokens]
    exact within
  · exact size_mirrored lawful reached (tokens ▸ within) (le_of_loop looped)

omit further in
theorem mirrors_takeEndAt (stop : Nat) :
    scope.Mirrors (do if (← get).pc = stop then takeEnd : Exec (StateM σ) Unit) := by
  intro machine host
  have asks (machine : Machine) (host : σ) :
      (do if (← get).pc = stop then takeEnd : Exec (StateM σ) Unit).on machine host =
        (if machine.pc = stop then takeEnd else pure () : Exec (StateM σ) Unit).on machine host :=
    rfl
  refine mirrored_congr lawful (asks machine host) (fun _ _ _ other => asks _ other) ?_
  split
  · exact mirrors_takeEnd lawful machine host
  · exact mirrors_pure () machine host

/-- The body of a jump's target, and past its `END` if the body ends right there. -/
theorem mirrored_target (position : Position) {machine : Machine} {host : σ} {stop : Nat}
    (within : stop ≤ machine.tokens.size) :
    scope.Mirrored (do
      inside (level? levels) position fun inner =>
        whileTokens (return (← get).pc < stop) (fun _ => inner.step) ()
      if (← get).pc = stop then
        takeEnd : Exec (StateM σ) Unit) machine host := by
  exact mirrored_bind lawful (mirrored_body lawful further position within)
    fun _ middle between _ => mirrors_takeEndAt lawful stop middle between

theorem mirrors_follow (jump : Token) : scope.Mirrors (follow (level? levels) jump) := by
  intro machine host
  unfold follow
  refine mirrored_bind lawful (mirrors_addLabel _ _ _ machine host) fun _ middle between _ => ?_
  refine mirrored_search lawful
    (fun tokens => targetFrom tokens middle.pc jump.nameOrEmpty jump)
    (fun range => do
      locateLabel jump.nameOrEmpty range.1 range.2
      record (.jumped jump.nameOrEmpty range.1 range.2)
      goTo (range.1 + 1)
      inside (level? levels) jump.position fun inner =>
        whileTokens (return (← get).pc < range.2) (fun _ => inner.step) ()
      if (← get).pc = range.2 then
        takeEnd) ?_ ?_ ?_
  · intro tokens host
    rw [on_bind, on_findTarget]
    cases targetFrom tokens middle.pc jump.nameOrEmpty jump <;> rfl
  · rintro ⟨start, stop⟩ searched
    obtain ⟨opens, opener, held, ends⟩ := targetFrom_eq_ok.mp searched
    obtain ⟨ahead, _, _⟩ := firstFrom_eq_some_iff.mp opens
    obtain ⟨_, ⟨closer, closes, _⟩, _⟩ := firstFrom_eq_some_iff.mp ends
    have inside := (Array.getElem?_eq_some_iff.mp held).1
    have within := Nat.le_of_lt (Array.getElem?_eq_some_iff.mp closes).1
    refine mirrored_bind lawful (mirrors_locateLabel _ _ _ middle between) ?_
    rintro _ _ _ ⟨⟩
    refine mirrored_bind lawful (mirrors_record lawful rfl rfl _ between) ?_
    rintro _ _ _ ⟨⟩
    refine mirrored_bind lawful (mirrored_goTo (Nat.le_succ_of_le ahead) inside) ?_
    rintro _ _ _ ⟨⟩
    exact mirrored_target lawful further jump.position within
  · rintro ⟨start, stop⟩ _ after later tokens searched ran reached
    obtain ⟨opens, opener, held, ends⟩ := targetFrom_eq_ok.mp searched
    obtain ⟨beyond, ⟨closer, closes, _⟩, _⟩ := firstFrom_eq_some_iff.mp ends
    have within : stop ≤ middle.tokens.size := by
      rw [tokens]
      exact Nat.le_of_lt (Array.getElem?_eq_some_iff.mp closes).1
    obtain ⟨_, _, _, located, ran⟩ := on_bind_eq_ok ran
    cases located
    obtain ⟨_, _, _, recorded, ran⟩ := on_bind_eq_ok ran
    cases recorded
    obtain ⟨_, _, _, gone, ran⟩ := on_bind_eq_ok ran
    cases gone
    obtain ⟨_, last, final, walked, ran⟩ := on_bind_eq_ok ran
    have come : stop ≤ last.pc := le_of_body (by exact within) walked
    have onward := (mirrors_takeEndAt lawful stop last final).forward
    rw [ran] at onward
    have passed : stop ≤ after.pc := Nat.le_trans come onward.counter
    refine targetFrom_eq_ok.mpr ⟨firstFrom_mirrored lawful reached opens (by omega), opener, ?_,
      firstFrom_mirrored lawful reached ends passed⟩
    rw [lawful.here reached (by omega), held]

theorem mirrors_jump (token : Token) : scope.Mirrors (jump (level? levels) token) := by
  intro machine host
  have asks (machine : Machine) (host : σ) :
      (jump (level? levels) token).on machine host =
        (if machine.labels.contains token.nameOrEmpty then
          raise (.meant (.duplicateLabel token.nameOrEmpty token.position))
        else do
          let keyword ← consume
          if keyword.kind ≠ .conditional then
            raise (.written (.expectedKeyword "IF" keyword.mention keyword.position))
          if ← boolean (level? levels) "JUMP" then
            follow (level? levels) token
          else
            record (.stayed token.nameOrEmpty) : Exec (StateM σ) Unit).on machine host := by
    unfold jump
    rw [on_bind, on_get]
    simp only
    split <;> rfl
  refine mirrored_congr lawful (asks machine host) (fun _ _ _ other => asks _ other) ?_
  split
  · exact mirrors_raise _ machine host
  · refine mirrors_bind lawful (mirrors_consume lawful) (fun keyword => ?_) machine host
    have guarded : scope.Mirrors (do
        if ← boolean (level? levels) "JUMP" then
          follow (level? levels) token
        else
          record (.stayed token.nameOrEmpty) : Exec (StateM σ) Unit) := by
      refine mirrors_bind lawful (mirrors_boolean lawful further "JUMP") fun holds => ?_
      cases holds with
      | true => exact mirrors_follow lawful further token
      | false => exact mirrors_record lawful rfl rfl
    split
    · exact mirrors_bind lawful (mirrors_raise _) fun _ => guarded
    · exact guarded

theorem mirrors_execute (token : Token) : scope.Mirrors (execute (level? levels) token) := by
  unfold execute
  split
  · exact mirrors_push _
  · exact mirrors_push _
  · exact mirrors_push _
  · exact mirrors_binary lawful further _
  · exact mirrors_negate lawful further
  · exact mirrors_bind lawful (mirrors_group lawful further token) mirrors_push
  · exact mirrors_assignment lawful further token
  · exact mirrors_assignment lawful further token
  · exact mirrors_perform lawful further _
  · exact mirrors_jump lawful further token
  · exact mirrors_passOver lawful token
  · exact mirrors_conditional lawful further token
  all_goals exact mirrors_pure ()

end Inner

end Blocks

section Walks
variable [Host (StateM σ)] {scope : Scope σ} (lawful : scope.Lawful)
include lawful

theorem mirrors_stepWith {levels : Nat}
    (further : ∀ less, levels = less + 1 → scope.Further less) :
    scope.Mirrors (stepWith (level? levels)) := by
  intro machine host
  cases next : machine.current? with
  | none =>
    refine mirrored_of_eq (by rw [on_stepWith, next]) (forward_refl machine) (fun _ => id)
      fun tokens reached other => ?_
    rw [mirror_of_stopped lawful tokens reached, on_stepWith, next]
  | some token =>
    obtain ⟨forward, same⟩ := mirrors_execute lawful further token (taken machine token) host
    have took := forward_take next
    have ran : (stepWith (level? levels)).on machine host =
        (execute (level? levels) token).on (taken machine token) host := by
      rw [on_stepWith, next]
    constructor
    · rw [ran]
      exact forward_trans took forward
    · intro tokens other hosts reached
      rw [ran] at reached ⊢
      have start := lawful.back (forward_trans took forward) reached
      obtain ⟨later, mirrored, after⟩ := same tokens (lawful.silent rfl hosts) reached
      refine ⟨later, ?_, after⟩
      rw [on_stepWith, current_mirrored lawful tokens start, next]
      exact mirrored

/-- The induction on the nesting levels that are left. -/
theorem further_of_lawful (levels : Nat) : scope.Further levels := by
  induction levels with
  | zero =>
    have none (less : Nat) (zero : 0 = less + 1) : scope.Further less := by cases zero
    exact ⟨mirrors_stepWith lawful none, mirrors_perform lawful none⟩
  | succ levels ih =>
    have further (less : Nat) (succ : levels + 1 = less + 1) : scope.Further less := by
      cases succ
      exact ih
    exact ⟨mirrors_stepWith lawful further, mirrors_perform lawful further⟩

theorem mirrors_step : scope.Mirrors (step : Exec (StateM σ) Unit) := by
  intro machine host
  refine mirrored_congr lawful (on_step machine host) (fun _ _ _ other => on_step _ other) ?_
  exact (further_of_lawful lawful _).step machine host

theorem mirrors_toEnd : scope.Mirrors (toEnd : Exec (StateM σ) Unit) := by
  intro machine host
  have tests : scope.Mirrors
      (do return (← get).pc < (← get).tokens.size : Exec (StateM σ) Bool) := by
    intro machine host
    refine mirrored_of_eq rfl (forward_refl machine) (fun _ => id) fun tokens reached other => ?_
    have next : scope.image[machine.pc]? = machine.tokens[machine.pc]? := by
      rw [tokens]
      exact lawful.here reached (Nat.le_refl _)
    have ends : scope.image.size ≤ machine.pc ↔ machine.tokens.size ≤ machine.pc := by
      rw [← Array.getElem?_eq_none_iff, ← Array.getElem?_eq_none_iff, next]
    have same : decide (machine.pc < scope.image.size) =
        decide (machine.pc < machine.tokens.size) := by
      simp only [← Nat.not_le, ends]
    change ((Except.ok (decide (machine.pc < scope.image.size)), _), other) = _
    rw [same]
  exact mirrored_while lawful tests (fun _ => mirrors_step lawful)
    (loops_end.program machine host) fun _ _ => loops_end.program _

/-- A call that stays in reach gives the same on the image. -/
theorem call_mirrored {machine : Machine} {host other : σ}
    (tokens : machine.tokens = scope.program) (hosts : scope.Hosts machine.log host other)
    (reached : scope.Reached (reason? (toEnd.on machine host).1.1) (toEnd.on machine host).1.2) :
    ∃ later, call (scope.mirror machine) other =
        (((call machine host).1.1, scope.mirror (call machine host).1.2), later) ∧
      scope.Hosts (call machine host).1.2.log (call machine host).2 later := by
  obtain ⟨later, mirrored, after⟩ := (mirrors_toEnd lawful machine host).same tokens hosts reached
  refine ⟨later, ?_, ?_⟩
  · rw [call_eq, call_eq, mirrored]
    rcases (toEnd.on machine host).1.1 with (code | error) | ⟨⟩ <;> rfl
  · rw [call_eq]
    rcases (toEnd.on machine host).1.1 with (code | error) | ⟨⟩
    · exact lawful.silent rfl after
    · exact lawful.silent rfl after
    · exact after

end Walks

end Scope

end StackScript.Reach
