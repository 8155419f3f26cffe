import StackScript.Host.Transcript
import StackScript.Proofs.Composition
import StackScript.Proofs.LabelTable
import StackScript.Proofs.Locality

/-! Code that is skipped has no influence. A conditional block whose guard does not hold, a
labelled block that is passed over, and what stands between a jump and its target are never looked
into, whatever they contain; only where the tokens after them stand depends on how long they are.
The program without the skipped body is aligned with the program that has it, so two programs that
differ in that body are compared through the one that has none. -/
namespace StackScript.Skipping
open Exec Walk Progress StackScript.Alignment StackScript.Composition LabelTable Locality

variable {σ : Type} [Host (StateM σ)]

/-- A program with a body between the tokens before it and a token that ends it. -/
def around (front body : List Token) (closer : Token) (rest : List Token) : Array Token :=
  (front ++ body ++ closer :: rest).toArray

/-- A machine stands at a token that skips what comes after `front`, up to the closer. What is
skipped must hold no token that stops the search for the closer. -/
inductive Skips (machine : Machine) (host : σ) : List Token → Token → (Token → Bool) → Prop where
  /-- An `IF` whose guard does not hold skips its body, up to the `END` in its column. -/
  | refused {start guard : List Token} {opener closer : Token} {after : Machine} {later : σ}
      (here : machine.pc = start.length) (kind : opener.kind = .conditional)
      (closes : closer.kind = .blockEnd)
      (column : closer.position.column = opener.position.column)
      (refuses : evaluateExpression.on (taken machine opener) host =
        ((.ok (.boolean false), after), later))
      (consumes : after.pc = start.length + 1 + guard.length) :
      Skips machine host (start ++ opener :: guard) closer
        (·.position.column = opener.position.column)
  /-- A `SECTION` is passed over, up to the `END` in its column. -/
  | passed {start : List Token} {opener closer : Token}
      (here : machine.pc = start.length) (kind : opener.kind = .labelled)
      (closes : closer.kind = .blockEnd)
      (column : closer.position.column = opener.position.column) :
      Skips machine host (start ++ [opener]) closer (·.position.column = opener.position.column)
  /-- A `JUMP` whose guard holds skips what stands before the `SECTION` of its label. -/
  | jumped {start guard : List Token} {jump keyword target : Token} {after : Machine} {later : σ}
      (here : machine.pc = start.length) (kind : jump.kind = .jump)
      (guards : keyword.kind = .conditional) (opens : target.opens jump.nameOrEmpty = true)
      (holds : evaluateExpression.on { taken machine jump with pc := machine.pc + 2 } host =
        ((.ok (.boolean true), after), later))
      (consumes : after.pc = start.length + 2 + guard.length) :
      Skips machine host (start ++ jump :: keyword :: guard) target (·.opens jump.nameOrEmpty)

section Tokens
variable {front body rest : List Token} {closer : Token}

theorem around_before {index : Nat} (inside : index < front.length) :
    (around front body closer rest)[index]? = front[index]? := by
  unfold around
  rw [List.getElem?_toArray, List.append_assoc, List.getElem?_append_left inside]

theorem around_past (offset : Nat) :
    (around front body closer rest)[front.length + body.length + offset]? =
      (closer :: rest)[offset]? := by
  unfold around
  have inside : (front ++ body).length ≤ front.length + body.length + offset := by
    rw [List.length_append]
    omega
  rw [List.getElem?_toArray, List.getElem?_append_right inside, List.length_append,
    Nat.add_sub_cancel_left]

/-- What stands after the body stands further right by its length. -/
theorem around_moved {index : Nat} (past : front.length ≤ index) :
    (around front body closer rest)[index + body.length]? =
      (around front [] closer rest)[index]? := by
  obtain ⟨offset, rfl⟩ : ∃ offset, index = front.length + offset := ⟨index - front.length, by omega⟩
  have here : front.length + offset + body.length = front.length + body.length + offset := by omega
  have bare : (around front [] closer rest)[front.length + offset]? = (closer :: rest)[offset]? :=
    around_past offset
  rw [here, around_past, bare]

theorem around_closer :
    (around front body closer rest)[front.length + body.length]? = some closer :=
  around_past 0

theorem size_around :
    (around front body closer rest).size = front.length + body.length + rest.length + 1 := by
  simp [around]
  omega

/-- The search for the closer skips the body. -/
theorem firstFrom_around {stops : Token → Bool} (clear : ∀ token ∈ body, stops token = false)
    (found : stops closer = true) :
    firstFrom (around front body closer rest) front.length stops =
      some (front.length + body.length) := by
  refine firstFrom_eq_some_iff.mpr ⟨Nat.le_add_right _ _, ⟨closer, around_closer, found⟩, ?_⟩
  intro index after before token held
  refine clear token (List.mem_iff_getElem?.mpr ⟨index - front.length, ?_⟩)
  unfold around at held
  rw [List.getElem?_toArray, List.getElem?_append_left (by rw [List.length_append]; omega),
    List.getElem?_append_right after] at held
  exact held

end Tokens

section Labels

/-- Where the token with an index stands when `count` more tokens follow the first ones. -/
def pushed (front count index : Nat) : Nat := if index < front then index else index + count

/-- The range of a block whose tokens stand elsewhere. -/
def relocate (move : Nat → Nat) (range : BlockRange) : BlockRange :=
  ⟨range.start?.map move, range.stop?.map move⟩

section Moves
variable {front count : Nat} {range : BlockRange}

theorem relocate_of_below (below : Below range front) :
    relocate (pushed front count) range = range := by
  obtain ⟨start?, stop?⟩ := range
  have same (index? : Option Nat) (within : ∀ index, index? = some index → index < front) :
      index?.map (pushed front count) = index? := by
    cases index? with
    | none => rfl
    | some index => exact congrArg some (if_pos (within index rfl))
  unfold relocate
  rw [same start? fun index is => below index (.inl is), same stop? fun index is =>
    below index (.inr is)]

theorem relocate_of_past
    (past : ∀ index, range.start? = some index ∨ range.stop? = some index → front ≤ index) :
    relocate (pushed front count) range = range.shift count := by
  obtain ⟨start?, stop?⟩ := range
  have moved (index? : Option Nat) (beyond : ∀ index, index? = some index → front ≤ index) :
      index?.map (pushed front count) = index?.map (· + count) := by
    cases index? with
    | none => rfl
    | some index => exact congrArg some (if_neg (Nat.not_lt.mpr (beyond index rfl)))
  unfold relocate BlockRange.shift
  rw [moved start? fun index is => past index (.inl is), moved stop? fun index is =>
    past index (.inr is)]

end Moves

theorem get?_of_new {labels : Labels} {label : String} (new : labels.contains label = false) :
    labels.get? label = none :=
  Option.isNone_iff_eq_none.mp (Option.isSome_eq_false_iff.mp new)

/-- What was recorded before the body stands where it stood. -/
theorem relabelled_of_below {front count : Nat} {known labels : Labels}
    (kept : Extends known labels)
    (new : ∀ label range, labels.get? label = some range →
      known.get? label = some range ∨ Below range front) :
    Relabelled known (relocate (pushed front count)) labels labels := by
  intro label
  cases before : known.get? label with
  | some range => exact ⟨kept label range before, kept label range before⟩
  | none =>
    change labels.get? label = (labels.get? label).map (relocate (pushed front count))
    cases held : labels.get? label with
    | none => rfl
    | some range =>
      rcases new label range held with earlier | below
      · rw [before] at earlier
        cases earlier
      · rw [Option.map_some, relocate_of_below below]

end Labels

/-- The program without the body and the program that has it. -/
def alignment (front body rest : List Token) (closer : Token) (known : Labels) : Alignment where
  program := around front [] closer rest
  image := around front body closer rest
  offset := body.length
  start := front.length + 1
  move := id
  cut := False
  excused _ := False
  Labelled := Relabelled known (relocate (pushed front.length body.length))
  Logged log other := hostCalls other = hostCalls log

theorem alignment_lawful {front body rest : List Token} {closer : Token} (known : Labels)
    (plain : isInfix closer.kind = false) :
    (alignment front body rest closer known).Lawful where
  start_pos := Nat.succ_pos _
  token := by
    intro index token near held
    exact (around_moved (Nat.le_of_succ_le_succ near)).trans held
  operand := by
    intro index token near held operator
    have past : front.length ≤ index := Nat.le_of_succ_le_succ near
    change variableBefore (around front body closer rest) (index + body.length) =
      (variableBefore (around front [] closer rest) index).map (·.mapPosition id)
    rw [Token.map_mapPosition_id]
    by_cases first : index = front.length
    · -- The closer would have to be an operator.
      subst first
      have bare : (around front [] closer rest)[front.length]? = some closer := around_closer
      cases bare.symm.trans held
      rw [plain] at operator
      cases operator
    · obtain ⟨before, rfl⟩ : ∃ before, index = before + 1 := ⟨index - 1, by omega⟩
      have index : before + 1 + body.length = before + body.length + 1 := by omega
      simp only [variableBefore, tokenBefore?, index]
      rw [around_moved (by omega)]
  column _ _ := Iff.rfl
  line _ _ := Iff.rfl
  whole _ := by
    change (around front body closer rest).size = (around front [] closer rest).size + body.length
    rw [size_around, size_around, List.length_nil]
    omega
  excuse cut := cut.elim
  apart cut := cut.elim
  closed cut := cut.elim
  contains := contains_of_relabelled
  added := by
    intro labels others label range relabelled new covered
    have inserted := relabelled_insert relabelled (unknown_of_new relabelled new) range
    rwa [relocate_of_past fun index stands => Nat.le_of_succ_le_succ (covered index stands)]
      at inserted
  logged := by
    intro log twinLog event other so alike
    change hostCalls ([other] ++ twinLog) = hostCalls ([event] ++ log)
    rw [hostCalls_append, hostCalls_append, so]
    cases alike <;> rfl

section Steps
variable {machine after : Machine} {host later : σ} {levels stop : Nat} {closer : Token}

theorem on_boolean {flag : Bool} (operator : String)
    (evaluated : (expression (level? levels)).on machine host =
      ((.ok (.boolean flag), after), later)) :
    (boolean (level? levels) operator).on machine host = ((.ok flag, after), later) := by
  unfold boolean
  rw [on_bind, evaluated]
  rfl

/-- A conditional block whose guard does not hold is skipped with its `END`. -/
theorem on_conditional_refused {opener : Token}
    (refuses : (expression (level? levels)).on machine host =
      ((.ok (.boolean false), after), later))
    (ends : endOfBlock after.tokens after.pc opener.position.column = some stop)
    (held : after.tokens[stop]? = some closer) (closes : closer.kind = .blockEnd) :
    (conditional (level? levels) opener).on machine host =
      ((.ok (), { after.record (.decided opener.position.line false) with pc := stop + 1 }),
        later) := by
  unfold conditional
  rw [on_bind, on_boolean "IF" refuses]
  simp only
  rw [on_bind, on_record]
  simp only [Bool.false_eq_true, ↓reduceIte]
  rw [on_bind, on_get]
  simp only [Machine.record, ends]
  exact on_takeEnd held closes

omit [Host (StateM σ)] in
/-- A labelled block is passed over with its `END`, if its label is new. -/
theorem on_passOver {opener : Token}
    (ends : endOfBlock machine.tokens machine.pc opener.position.column = some stop)
    (held : machine.tokens[stop]? = some closer) (closes : closer.kind = .blockEnd) :
    (passOver opener : Exec (StateM σ) Unit).on machine host =
      if machine.labels.contains opener.nameOrEmpty then
        ((.error (.fault (.meant (.duplicateLabel opener.nameOrEmpty opener.position))), machine),
          host)
      else
        ((.ok (), { Walk.passed machine opener.nameOrEmpty (machine.pc - 1) stop with
          pc := stop + 1 }), host) := by
  unfold passOver
  rw [on_bind, on_get]
  simp only [ends]
  rw [on_bind, on_addLabel]
  unfold Labels.add
  by_cases known : machine.labels.contains opener.nameOrEmpty = true
  · simp only [known, ↓reduceIte]
  · simp only [known, Bool.false_eq_true, ↓reduceIte]
    exact on_takeEnd held closes

/-- The body of a jump's target, and past its `END` if the body ends right there. -/
def targetBody (levels : Nat) (position : Position) (stop : Nat) : Exec (StateM σ) Unit := do
  inside (level? levels) position fun inner =>
    whileTokens (return (← get).pc < stop) (fun _ => inner.step) ()
  if (← get).pc = stop then
    takeEnd

/-- A jump that is taken goes on in its target, if its label is new and the target is found. -/
theorem on_follow {jump : Token} :
    (follow (level? levels) jump).on machine host =
      if machine.labels.contains jump.nameOrEmpty then
        ((.error (.fault (.meant (.duplicateLabel jump.nameOrEmpty jump.position))), machine),
          host)
      else
        match targetFrom machine.tokens machine.pc jump.nameOrEmpty jump with
        | .ok (start, stop) =>
          (targetBody levels jump.position stop).on
            (Walk.jumped machine jump.nameOrEmpty start stop) host
        | .error error =>
          ((.error (.fault error), labelled machine jump.nameOrEmpty .unknown), host) := by
  unfold follow
  rw [on_bind, on_addLabel]
  unfold Labels.add
  by_cases known : machine.labels.contains jump.nameOrEmpty = true
  · simp only [known, ↓reduceIte]
  · simp only [known, Bool.false_eq_true, ↓reduceIte]
    rw [on_bind, on_findTarget]
    cases targetFrom machine.tokens machine.pc jump.nameOrEmpty jump with
    | error error => rfl
    | ok target =>
      obtain ⟨start, stop⟩ := target
      change (targetBody levels jump.position stop).on { machine with
        labels := Labels.locate ⟨machine.labels.table.insert jump.nameOrEmpty .unknown⟩
          jump.nameOrEmpty start stop
        pc := start + 1
        log := .jumped jump.nameOrEmpty start stop :: machine.log } host = _
      rw [Labels.locate_insert, Table.insert_insert]
      rfl

/-- A jump whose label is recorded already is refused, and otherwise a guard that holds decides
to follow it. -/
theorem on_jump {jump keyword : Token} (next : machine.current? = some keyword)
    (guards : keyword.kind = .conditional)
    (holds : (expression (level? levels)).on { machine with pc := machine.pc + 1 } host =
      ((.ok (.boolean true), after), later)) :
    (Exec.jump (level? levels) jump).on machine host =
      if machine.labels.contains jump.nameOrEmpty then
        ((.error (.fault (.meant (.duplicateLabel jump.nameOrEmpty jump.position))), machine),
          host)
      else (follow (level? levels) jump).on after later := by
  unfold Exec.jump
  rw [on_bind, on_get]
  simp only
  by_cases known : machine.labels.contains jump.nameOrEmpty = true
  · simp only [known, ↓reduceIte]
    rfl
  · simp only [known, Bool.false_eq_true, ↓reduceIte]
    rw [on_bind, on_consume, next]
    simp only [guards, ne_eq, not_true_eq_false, ↓reduceIte]
    rw [on_bind, on_boolean "JUMP" holds]
    rfl

theorem on_step_next {token : Token} (next : machine.current? = some token) :
    (step : Exec (StateM σ) Unit).on machine host =
      (execute (level? (Machine.nestingLimit - machine.depth)) token).on (taken machine token)
        host := by
  rw [on_step, on_stepWith, next]

end Steps

section Sides
variable {front body rest : List Token} {closer : Token} {known : Labels}

/-- Two machines that stand right after the closer, with the body and without it. -/
theorem related_past (state : Machine) (tokens : state.tokens = around front [] closer rest)
    {others : Labels} {log : List Event}
    (relabelled : Relabelled known (relocate (pushed front.length body.length)) state.labels others)
    (logged : hostCalls log = hostCalls state.log) :
    (alignment front body rest closer known).Related { state with pc := front.length + 1 }
      { state with
        tokens := around front body closer rest
        pc := front.length + body.length + 1
        labels := others
        log } where
  tokens := tokens
  twinTokens := rfl
  counter := Nat.add_right_comm _ _ _
  near := Nat.le_succ _
  within := by
    change front.length + 1 ≤ (around front [] closer rest).size
    rw [size_around, List.length_nil]
    omega
  values := rfl
  capacity := .inl rfl
  bindings := rfl
  labels := relabelled
  depth := rfl
  log := logged
  started := Nat.le_refl _

/-- A guard that ends where the body begins does the same with any body, and what it records
stands before the body. -/
theorem guard_apart {machine after : Machine} {host later : σ} {value : Value}
    (ran : evaluateExpression.on machine host = ((.ok value, after), later))
    (tokens : machine.tokens = around front body closer rest) (ends : after.pc = front.length)
    (other : List Token) :
    evaluateExpression.on { machine with tokens := around front other closer rest } host =
        ((.ok value, { after with tokens := around front other closer rest }), later) ∧
      after.tokens = around front body closer rest ∧
      ∀ count, Relabelled machine.labels (relocate (pushed front.length count)) after.labels
        after.labels := by
  rw [on_evaluateExpression] at ran
  refine ⟨?_, ?_, fun count => ?_⟩
  · rw [on_evaluateExpression]
    refine expression_local ran fun index inside => ?_
    rw [ends] at inside
    rw [tokens, around_before inside, around_before inside]
  · have forward := keeps_expression forward_steady
      (level_keeps forward_steady (Machine.nestingLimit - machine.depth)) machine host
    rw [Leads, ran] at forward
    exact forward.tokens.trans tokens
  · have grown := keeps_expression grows_steady
      (level_keeps grows_steady (Machine.nestingLimit - machine.depth)) machine host
    rw [Leads, ran] at grown
    refine relabelled_of_below grown.kept fun label range held => ?_
    rw [← ends]
    exact expression_records ran held

/-- Both sides stop for the same reason before they come to the body. -/
def StopsBefore (front count : Nat) (image : Array Token) (known : Labels)
    (ran other : (Except Stop Unit × Machine) × σ) : Prop :=
  ∃ stop state later, ran = ((.error stop, state), later) ∧
    other = ((.error stop, { state with tokens := image }), later) ∧
    0 < state.pc ∧ state.pc ≤ front ∧
    Relabelled known (relocate (pushed front count)) state.labels state.labels

section Cases
variable {machine after : Machine} {host later : σ} {start guard : List Token} {opener : Token}

theorem current_around (tokens : machine.tokens = around front body closer rest)
    (held : front[machine.pc]? = some opener) : machine.current? = some opener := by
  unfold Machine.current?
  rw [tokens, around_before (List.getElem?_eq_some_iff.mp held).1, held]

theorem step_refused (next : machine.current? = some opener) (kind : opener.kind = .conditional)
    (column : closer.position.column = opener.position.column) (closes : closer.kind = .blockEnd)
    (clear : ∀ token ∈ body, decide (token.position.column = opener.position.column) = false)
    (refuses : evaluateExpression.on (taken machine opener) host =
      ((.ok (.boolean false), after), later))
    (tokens : after.tokens = around front body closer rest) (consumes : after.pc = front.length) :
    (step : Exec (StateM σ) Unit).on machine host =
      ((.ok (), { after.record (.decided opener.position.line false) with
        pc := front.length + body.length + 1 }), later) := by
  have ends : endOfBlock after.tokens after.pc opener.position.column =
      some (front.length + body.length) := by
    rw [tokens, consumes]
    exact firstFrom_around clear (decide_eq_true column)
  have held : after.tokens[front.length + body.length]? = some closer := by
    rw [tokens]
    exact around_closer
  rw [on_evaluateExpression] at refuses
  rw [on_step_next next]
  unfold execute
  simp only [kind]
  exact on_conditional_refused refuses ends held closes

theorem step_passed (next : machine.current? = some opener) (kind : opener.kind = .labelled)
    (column : closer.position.column = opener.position.column) (closes : closer.kind = .blockEnd)
    (clear : ∀ token ∈ body, decide (token.position.column = opener.position.column) = false)
    (tokens : machine.tokens = around front body closer rest)
    (here : machine.pc + 1 = front.length) :
    (step : Exec (StateM σ) Unit).on machine host =
      if machine.labels.contains opener.nameOrEmpty then
        ((.error (.fault (.meant (.duplicateLabel opener.nameOrEmpty opener.position))),
          taken machine opener), host)
      else
        ((.ok (), { Walk.passed (taken machine opener) opener.nameOrEmpty machine.pc
          (front.length + body.length) with pc := front.length + body.length + 1 }), host) := by
  have ends : endOfBlock (taken machine opener).tokens (taken machine opener).pc
      opener.position.column = some (front.length + body.length) := by
    change endOfBlock machine.tokens (machine.pc + 1) _ = _
    rw [tokens, here]
    exact firstFrom_around clear (decide_eq_true column)
  have held : (taken machine opener).tokens[front.length + body.length]? = some closer := by
    change machine.tokens[_]? = _
    rw [tokens]
    exact around_closer
  rw [on_step_next next]
  unfold execute
  simp only [kind]
  exact on_passOver ends held closes

theorem step_jumped {keyword : Token} (next : machine.current? = some opener)
    (kind : opener.kind = .jump) (second : machine.tokens[machine.pc + 1]? = some keyword)
    (guards : keyword.kind = .conditional)
    (holds : evaluateExpression.on { taken machine opener with pc := machine.pc + 2 } host =
      ((.ok (.boolean true), after), later)) :
    (step : Exec (StateM σ) Unit).on machine host =
      if machine.labels.contains opener.nameOrEmpty then
        ((.error (.fault (.meant (.duplicateLabel opener.nameOrEmpty opener.position))),
          taken machine opener), host)
      else
        (follow (level? (Machine.nestingLimit - machine.depth)) opener).on after later := by
  rw [on_evaluateExpression] at holds
  rw [on_step_next next]
  unfold execute
  simp only [kind]
  exact on_jump second guards holds

end Cases

/-- A jump that is taken goes on after the closer, which opens its target. -/
theorem follow_skips {machine : Machine} (host : σ) {levels : Nat} {jump : Token}
    (tokens : machine.tokens = around front [] closer rest) (here : machine.pc = front.length)
    (positive : 0 < front.length) (opens : closer.opens jump.nameOrEmpty = true)
    (clear : ∀ token ∈ body, token.opens jump.nameOrEmpty = false)
    (relabelled : Relabelled known (relocate (pushed front.length body.length)) machine.labels
      machine.labels) :
    let image := around front body closer rest
    let ran := (follow (level? levels) jump).on machine host
    let other := (follow (level? levels) jump).on { machine with tokens := image } host
    (alignment front body rest closer known).Ends Same ran other ∨
      StopsBefore front.length body.length image known ran other := by
  intro image ran other
  have plain : isInfix closer.kind = false := by
    rw [(of_decide_eq_true opens).1]
    rfl
  have lawful : (alignment front body rest closer known).Lawful := alignment_lawful known plain
  have found : findBlock (around front [] closer rest) front.length jump.nameOrEmpty =
      some front.length := firstFrom_around (by simp) opens
  have twinFound : findBlock image front.length jump.nameOrEmpty =
      some (front.length + body.length) := firstFrom_around clear opens
  have held : (around front [] closer rest)[front.length]? = some closer := around_closer
  have twinHeld : image[front.length + body.length]? = some closer := around_closer
  have near : (alignment front body rest closer known).start ≤ front.length + 1 + 1 := Nat.le_succ _
  have next : front.length + body.length + 1 = front.length + 1 + body.length := by omega
  have first : ran = _ := on_follow
  have second : other = _ := on_follow
  rw [first, second]
  by_cases recorded : machine.labels.contains jump.nameOrEmpty = true
  · simp only [recorded, ↓reduceIte]
    right
    exact ⟨_, machine, host, rfl, rfl, here ▸ positive, Nat.le_of_eq here, relabelled⟩
  · simp only [recorded, Bool.false_eq_true, ↓reduceIte]
    have fresh := unknown_of_new relabelled (Bool.eq_false_iff.mpr recorded)
    cases ends : endOfBlock (around front [] closer rest) (front.length + 1)
      closer.position.column with
    | none =>
      have missing : endOfBlock image (front.length + body.length + 1)
          closer.position.column = none := by
        rw [next]
        exact (endOfBlock_missing lawful near ends).resolve_left id
      have lost : targetFrom machine.tokens machine.pc jump.nameOrEmpty jump =
          .error (.executed (.unterminatedBlock "SECTION" closer.position)) := by
        rw [tokens, here]
        simp only [targetFrom, found, held, Option.getD_some, ends]
      have twinLost : targetFrom image machine.pc jump.nameOrEmpty jump =
          .error (.executed (.unterminatedBlock "SECTION" closer.position)) := by
        rw [here]
        simp only [targetFrom, twinFound, twinHeld, Option.getD_some, missing]
      rw [lost, twinLost]
      right
      exact ⟨_, labelled machine jump.nameOrEmpty .unknown, host, rfl, rfl, here ▸ positive,
        Nat.le_of_eq here, relabelled_insert relabelled fresh .unknown⟩
    | some stop =>
      have after : front.length + 1 ≤ stop := (firstFrom_eq_some_iff.mp ends).1
      obtain ⟨_, ⟨_, closes, _⟩, _⟩ := firstFrom_eq_some_iff.mp ends
      have twinEnds : endOfBlock image (front.length + body.length + 1) closer.position.column =
          some (stop + body.length) := by
        rw [next]
        exact endOfBlock_moved lawful near ends
      have target : targetFrom machine.tokens machine.pc jump.nameOrEmpty jump =
          .ok (front.length, stop) := by
        rw [tokens, here]
        exact targetFrom_eq_ok.mpr ⟨found, closer, held, ends⟩
      have twinTarget : targetFrom image machine.pc jump.nameOrEmpty jump =
          .ok (front.length + body.length, stop + body.length) := by
        rw [here]
        exact targetFrom_eq_ok.mpr ⟨twinFound, closer, twinHeld, twinEnds⟩
      rw [target, twinTarget]
      left
      have located := relabelled_insert relabelled fresh ⟨some front.length, some stop⟩
      rw [relocate_of_past (by rintro index (⟨⟨⟩⟩ | ⟨⟨⟩⟩) <;> omega)] at located
      have related : (alignment front body rest closer known).Related
          (Walk.jumped machine jump.nameOrEmpty front.length stop)
          (Walk.jumped { machine with tokens := image } jump.nameOrEmpty
            (front.length + body.length) (stop + body.length)) :=
        related_past (Walk.jumped machine jump.nameOrEmpty front.length stop) tokens located rfl
      exact ends_target lawful (fun less _ => further_of_lawful lawful less) related jump.position
        closes (Nat.le_succ_of_le after)

/-- The step that skips the body, without the body and with it. -/
theorem step_skips {machine : Machine} {host : σ} {stops : Token → Bool}
    (tokens : machine.tokens = around front [] closer rest)
    (skips : Skips machine host front closer stops)
    (clear : ∀ token ∈ body, stops token = false) :
    let image := around front body closer rest
    let ran := (step : Exec (StateM σ) Unit).on machine host
    let other := (step : Exec (StateM σ) Unit).on { machine with tokens := image } host
    (alignment front body rest closer machine.labels).Ends Same ran other ∨
      StopsBefore front.length body.length image machine.labels ran other := by
  intro image ran other
  cases skips with
  | @refused start guard opener _ after later here kind closes column refuses consumes =>
    have held : (start ++ opener :: guard)[machine.pc]? = some opener := by simp [here]
    have size : after.pc = (start ++ opener :: guard).length := by
      rw [consumes, List.length_append, List.length_cons]
      omega
    obtain ⟨twinRefuses, unchanged, relabelled⟩ := guard_apart refuses tokens size body
    have first : ran = _ := step_refused (current_around tokens held) kind column closes
      (by simp) refuses unchanged size
    have second : other = _ := step_refused (current_around rfl held) kind column closes clear
      twinRefuses rfl size
    left
    rw [first, second]
    exact ⟨(), _, rfl, related_past (after.record (.decided opener.position.line false)) unchanged
      (relabelled body.length) rfl, rfl⟩
  | @passed start opener _ here kind closes column =>
    have held : (start ++ [opener])[machine.pc]? = some opener := by simp [here]
    have size : machine.pc + 1 = (start ++ [opener]).length := by simp [here]
    have first : ran = _ := step_passed (current_around tokens held) kind column closes
      (by simp) tokens size
    have second : other = _ := step_passed (current_around rfl held) kind column closes clear
      rfl size
    rw [first, second]
    by_cases known : machine.labels.contains opener.nameOrEmpty = true
    · simp only [known, ↓reduceIte]
      right
      exact ⟨_, taken machine opener, host, rfl, rfl, Nat.succ_pos _, Nat.le_of_eq size,
        relabelled_refl _ _⟩
    · simp only [known, Bool.false_eq_true, ↓reduceIte]
      left
      have recorded := relabelled_insert (relabelled_refl machine.labels
        (relocate (pushed (start ++ [opener]).length body.length)))
        (get?_of_new (Bool.eq_false_iff.mpr known))
        ⟨some machine.pc, some (start ++ [opener]).length⟩
      have own : pushed (start ++ [opener]).length body.length machine.pc = machine.pc :=
        if_pos (Nat.lt_of_succ_le (Nat.le_of_eq size))
      have end' : pushed (start ++ [opener]).length body.length (start ++ [opener]).length =
          (start ++ [opener]).length + body.length := if_neg (Nat.lt_irrefl _)
      rw [relocate, Option.map_some, Option.map_some, own, end'] at recorded
      exact ⟨(), _, rfl, related_past (Walk.passed (taken machine opener) opener.nameOrEmpty
        machine.pc (start ++ [opener]).length) tokens recorded rfl, rfl⟩
  | @jumped start guard jump keyword _ after later here kind guards opens holds consumes =>
    have held : (start ++ jump :: keyword :: guard)[machine.pc]? = some jump := by simp [here]
    have second : (start ++ jump :: keyword :: guard)[machine.pc + 1]? = some keyword := by
      simp [here]
    have size : after.pc = (start ++ jump :: keyword :: guard).length := by
      rw [consumes, List.length_append, List.length_cons, List.length_cons]
      omega
    have inside := (List.getElem?_eq_some_iff.mp second).1
    obtain ⟨twinHolds, unchanged, relabelled⟩ := guard_apart holds tokens size body
    have here : ran = _ := step_jumped (current_around tokens held) kind
      (by rw [tokens, around_before inside, second]) guards holds
    have there : other = _ := step_jumped (current_around rfl held) kind
      ((around_before inside).trans second) guards twinHolds
    rw [here, there]
    by_cases known : machine.labels.contains jump.nameOrEmpty = true
    · simp only [known, ↓reduceIte]
      right
      exact ⟨_, taken machine jump, host, rfl, rfl, Nat.succ_pos _,
        Nat.le_of_lt inside, relabelled_refl _ _⟩
    · simp only [known, Bool.false_eq_true, ↓reduceIte]
      exact follow_skips later unchanged size (Nat.lt_of_le_of_lt (Nat.zero_le _) inside) opens
        clear (relabelled body.length)

end Sides

section Calls
variable {front body rest : List Token} {closer : Token} {stops : Token → Bool} {machine : Machine}
  {host : σ}

theorem inside_of_skips (skips : Skips machine host front closer stops) :
    machine.pc < front.length := by
  cases skips <;> simp [*]

theorem plain_of_skips (skips : Skips machine host front closer stops) :
    isInfix closer.kind = false := by
  cases skips with
  | refused here kind closes => rw [closes]; rfl
  | passed here kind closes => rw [closes]; rfl
  | jumped here kind guards opens => rw [(of_decide_eq_true opens).1]; rfl

/-- Whether the body is skipped does not depend on the body. -/
theorem skips_other (skips : Skips machine host front closer stops)
    (tokens : machine.tokens = around front body closer rest) (other : List Token) :
    Skips { machine with tokens := around front other closer rest } host front closer stops := by
  cases skips with
  | @refused start guard opener _ after later here kind closes column refuses consumes =>
    have size : after.pc = (start ++ opener :: guard).length := by
      rw [consumes, List.length_append, List.length_cons]
      omega
    exact .refused here kind closes column (guard_apart refuses tokens size other).1 consumes
  | passed here kind closes column => exact .passed here kind closes column
  | @jumped start guard jump keyword _ after later here kind guards opens holds consumes =>
    have size : after.pc = (start ++ jump :: keyword :: guard).length := by
      rw [consumes, List.length_append, List.length_cons, List.length_cons]
      omega
    exact .jumped here kind guards opens (guard_apart holds tokens size other).1 consumes

/-- What a call leaves behind without the body and with it. The token that was taken last is the
same one. -/
structure Agrees (known : Labels) (front count : Nat) (machine twin : Machine) : Prop where
  calls : hostCalls twin.log = hostCalls machine.log
  stack : twin.stack = machine.stack
  bindings : twin.bindings = machine.bindings
  labels : Relabelled known (relocate (pushed front count)) machine.labels twin.labels
  counter : twin.pc = pushed front count (machine.pc - 1) + 1

/-- A call that skips the body, without the body and with it. -/
theorem call_bare (tokens : machine.tokens = around front [] closer rest)
    (skips : Skips machine host front closer stops)
    (clear : ∀ token ∈ body, stops token = false) :
    let bare := call machine host
    let full := call { machine with tokens := around front body closer rest } host
    full.1.1 = bare.1.1 ∧ full.2 = bare.2 ∧
      Agrees machine.labels front.length body.length bare.1.2 full.1.2 := by
  intro bare full
  have inside := inside_of_skips skips
  have within : machine.pc < machine.tokens.size := by
    rw [tokens, size_around]
    omega
  have twinWithin : machine.pc < (around front body closer rest).size := by
    rw [size_around]
    omega
  have lawful : (alignment front body rest closer machine.labels).Lawful :=
    alignment_lawful machine.labels (plain_of_skips skips)
  rcases step_skips tokens skips clear with ends | ⟨stop, state, later, ran, twinRan, stopped⟩
  · rcases call_alike_of_step lawful host id within twinWithin ends with
      ⟨_, _, excused⟩ | ⟨outcome, later, related⟩
    · exact excused.elim
    · refine ⟨outcome.trans (Error.mapError_mapPosition_id _), later, related.log,
        stack_of_near related.toNear id, related.bindings, related.labels, ?_⟩
      have started : front.length + 1 ≤ bare.1.2.pc := related.started
      have counter : full.1.2.pc = bare.1.2.pc + body.length := related.counter
      rw [counter, pushed, if_neg (by omega)]
      omega
  · obtain ⟨positive, before, relabelled⟩ := stopped
    have here : bare = (state.conclude (.error stop), later) := by
      change call machine host = _
      rw [call_of_step within, ran]
    have there : full = ({ state with tokens := around front body closer rest }.conclude
        (.error stop), later) := by
      change call _ host = _
      rw [call_of_step twinWithin, twinRan]
    have counter : state.pc = pushed front.length body.length (state.pc - 1) + 1 := by
      rw [pushed, if_pos (by omega)]
      omega
    rw [here, there]
    rcases stop with code | error
    · exact ⟨rfl, rfl, rfl, rfl, rfl, relabelled, counter⟩
    · exact ⟨rfl, rfl, rfl, rfl, rfl, relabelled, counter⟩

/-- Where the token with an index stands when the body before it is replaced. -/
def moved (front body other index : Nat) : Nat :=
  if index < front + body then index else index - body + other

theorem moved_pushed (front body other index : Nat) :
    moved front body other (pushed front body index) = pushed front other index := by
  unfold moved pushed
  split
  · rw [if_pos (by omega)]
  · rw [if_neg (by omega)]
    omega

theorem relocate_relocate (range : BlockRange) (front body other : Nat) :
    relocate (moved front body other) (relocate (pushed front body) range) =
      relocate (pushed front other) range := by
  have composed : moved front body other ∘ pushed front body = pushed front other :=
    funext (moved_pushed front body other)
  simp only [relocate, Option.map_map, composed]

section Bodies
variable {known : Labels} {front body other : Nat} {bare full twin : Machine}
  (agrees : Agrees known front body bare full) (otherAgrees : Agrees known front other bare twin)
include agrees otherAgrees

/-- The labels with one body are those with the other one, with the new blocks moved. -/
theorem labels_of_agrees (label : String) :
    twin.labels.get? label =
      if known.contains label then full.labels.get? label
      else (full.labels.get? label).map (relocate (moved front body other)) := by
  rw [get?_of_relabelled agrees.labels, get?_of_relabelled otherAgrees.labels]
  cases held : known.get? label with
  | some range =>
    have recorded : known.contains label = true := Option.isSome_iff_exists.mpr ⟨range, held⟩
    simp only [recorded, ↓reduceIte, Option.some_or]
  | none =>
    have unknown : known.contains label = false :=
      Option.isSome_eq_false_iff.mpr (Option.isNone_iff_eq_none.mpr held)
    simp only [unknown, Bool.false_eq_true, ↓reduceIte, Option.none_or, Option.map_map]
    congr 1
    funext range
    exact (relocate_relocate range front body other).symm

theorem counter_of_agrees : twin.pc = moved front body other (full.pc - 1) + 1 := by
  rw [agrees.counter, otherAgrees.counter, Nat.add_sub_cancel, moved_pushed]

end Bodies

/-- Code that is skipped has no influence, whatever it contains: the body of an `IF` whose guard
does not hold, of a `SECTION` that is passed over, and what stands between a `JUMP` and its target.
From any state and on any host, a call on a program with another body in its place ends in the same
way and makes the same calls of the host, and it leaves the same values, the same variables and the
same labels behind. Only the blocks recorded after it, and the token taken last, stand elsewhere if
the other body is longer or shorter. -/
theorem call_skips {other : List Token} (tokens : machine.tokens = around front body closer rest)
    (skips : Skips machine host front closer stops)
    (clear : ∀ token ∈ body, stops token = false)
    (otherClear : ∀ token ∈ other, stops token = false) :
    let ended := call machine host
    let replaced := call { machine with tokens := around front other closer rest } host
    let move := moved front.length body.length other.length
    replaced.1.1 = ended.1.1 ∧ replaced.2 = ended.2 ∧
      hostCalls replaced.1.2.events = hostCalls ended.1.2.events ∧
      replaced.1.2.stack = ended.1.2.stack ∧ replaced.1.2.bindings = ended.1.2.bindings ∧
      (∀ label, replaced.1.2.labels.get? label =
        if machine.labels.contains label then ended.1.2.labels.get? label
        else (ended.1.2.labels.get? label).map (relocate move)) ∧
      replaced.1.2.pc = move (ended.1.2.pc - 1) + 1 := by
  intro ended replaced move
  have bare := skips_other skips tokens []
  obtain ⟨outcome, later, agrees⟩ := call_bare rfl bare clear
  obtain ⟨otherOutcome, otherLater, otherAgrees⟩ := call_bare rfl bare otherClear
  have itself : { machine with tokens := around front body closer rest } = machine := by
    rw [← tokens]
  simp only [itself] at outcome later agrees
  refine ⟨otherOutcome.trans outcome.symm, otherLater.trans later.symm, ?_,
    otherAgrees.stack.trans agrees.stack.symm, otherAgrees.bindings.trans agrees.bindings.symm,
    fun label => ?_, ?_⟩
  · have calls : hostCalls replaced.1.2.log = hostCalls ended.1.2.log :=
      otherAgrees.calls.trans agrees.calls.symm
    simp only [Machine.events, hostCalls, List.filter_reverse]
    exact congrArg List.reverse calls
  · exact labels_of_agrees agrees otherAgrees label
  · exact counter_of_agrees agrees otherAgrees

end Calls

/-- A jump that is taken. -/
def leap : List Token :=
  [⟨.jump, .label "OUT", ⟨1, 0⟩⟩, ⟨.conditional, .absent, ⟨1, 9⟩⟩,
    ⟨.boolean, .boolean true, ⟨1, 12⟩⟩]

/-- A parenthesis that is never closed, and the end of the program. -/
def debris : List Token := [⟨.leftParen, .absent, ⟨2, 0⟩⟩, ⟨.command .exit, .absent, ⟨2, 2⟩⟩]

/-- The target of the jump. -/
def landing : Token := ⟨.labelled, .label "OUT", ⟨3, 0⟩⟩

/-- What stands in the target. -/
def outside : List Token :=
  [⟨.command .print, .absent, ⟨4, 2⟩⟩, ⟨.string, .string "out", ⟨4, 8⟩⟩,
    ⟨.blockEnd, .absent, ⟨5, 0⟩⟩]

theorem call_skips_debris :
    let ended := call (Machine.load (around leap debris landing outside) 4) (Transcript.ofInput [])
    let replaced := call (Machine.load (around leap [] landing outside) 4) (Transcript.ofInput [])
    ended.2.output = ["out"] ∧ replaced.2 = ended.2 ∧
      ended.1.2.labels.get? "OUT" = some ⟨some 5, some 8⟩ ∧
      replaced.1.2.labels.get? "OUT" = some ⟨some 3, some 6⟩ ∧
      ended.1.2.pc = 9 ∧ replaced.1.2.pc = 7 := by
  have tokens : (Machine.load (around leap debris landing outside) 4).tokens =
      around leap debris landing outside := rfl
  have skips : Skips (Machine.load (around leap debris landing outside) 4) (Transcript.ofInput [])
      leap landing (·.opens "OUT") :=
    @Skips.jumped _ _ _ _ [] [⟨.boolean, .boolean true, ⟨1, 12⟩⟩] _ _ _ _ _ rfl rfl rfl rfl rfl rfl
  have clear : ∀ token ∈ debris, token.opens "OUT" = false := by decide
  have nothing : ∀ token ∈ ([] : List Token), token.opens "OUT" = false := by simp
  have shorter : { Machine.load (around leap debris landing outside) 4 with
      tokens := around leap [] landing outside } =
      Machine.load (around leap [] landing outside) 4 := rfl
  have skipped := call_skips tokens skips clear nothing
  rw [shorter] at skipped
  dsimp only at skipped ⊢
  obtain ⟨_, host, _, _, _, labels, counter⟩ := skipped
  have range : (call (Machine.load (around leap debris landing outside) 4)
      (Transcript.ofInput [])).1.2.labels.get? "OUT" = some ⟨some 5, some 8⟩ := by decide +kernel
  have last : (call (Machine.load (around leap debris landing outside) 4)
      (Transcript.ofInput [])).1.2.pc = 9 := by decide +kernel
  refine ⟨by decide +kernel, host, range, ?_, last, ?_⟩
  · rw [labels "OUT", range]
    rfl
  · rw [counter, last]
    rfl

end StackScript.Skipping
