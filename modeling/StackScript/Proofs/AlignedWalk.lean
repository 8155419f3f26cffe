import StackScript.Proofs.Alignment

/-! The constructs on aligned programs. Each of them acts alike on two machines that agree, given
that what it executes one nesting level further in does; the induction on the levels closes the
circle. What a construct looks at ahead of the counter or behind it is exactly what an alignment
keeps. -/
namespace StackScript.Alignment
open Exec Walk Progress

/-- Whether the token taken last is of a kind. -/
def Took (machine : Machine) (kind : TokenKind) : Prop :=
  ∃ token, tokenBefore? machine.tokens machine.pc = some token ∧ token.kind = kind

/-- What is executed when some more levels may be nested acts alike on both sides. -/
structure Further (aligned : Alignment) (σ : Type) [Host (StateM σ)] (levels : Nat) : Prop where
  step {machine twin : Machine} (host : σ) (related : aligned.Related machine twin) :
    aligned.Ends Same ((stepWith (level? levels)).on machine host)
      ((stepWith (level? levels)).on twin host)
  perform {machine twin : Machine} {command : Command} (host : σ)
    (related : aligned.Related machine twin) (took : Took machine (.command command)) :
    aligned.Ends Same ((perform (level? levels) command).on machine host)
      ((perform (level? levels) command).on twin host)

section Lookahead
variable {σ : Type} {aligned : Alignment} (lawful : aligned.Lawful) {machine twin : Machine}
  {host : σ}
include lawful

theorem ends_groupContinues (related : aligned.Related machine twin) (opener : Token) :
    aligned.Ends (fun again other _ => other = again ∧ (again = false → True))
      ((groupContinues opener : Exec (StateM σ) Bool).on machine host)
      ((groupContinues (opener.mapPosition aligned.move) : Exec (StateM σ) Bool).on twin host) := by
  unfold groupContinues
  rw [on_bind, on_bind, on_current?, on_current?]
  cases next : machine.current? with
  | none =>
    rcases (current_ended lawful related.toNear next).2 with cut | ended
    · exact .inl (lawful.excuse cut trivial)
    · rw [ended]
      exact .inr ⟨twin, rfl, related⟩
  | some token =>
    rw [current_moved lawful related.toNear next]
    by_cases closes : token.kind = .rightParen
    · simp only [Token.mapPosition, closes, ↓reduceIte]
      exact ⟨false, _, rfl, related_next related.toNear next, rfl, fun _ => trivial⟩
    · simp only [Token.mapPosition, closes, ↓reduceIte]
      exact ⟨true, twin, rfl, related, rfl, fun _ => trivial⟩

/-- A conditional body ends at a token, which may be an `END`. -/
theorem ends_bodyContinues (related : aligned.Related machine twin) (opener : Token) :
    aligned.Ends
      (fun again other after => other = again ∧ (again = false → after.current?.isSome = true))
      ((bodyContinues opener : Exec (StateM σ) Bool).on machine host)
      ((bodyContinues (opener.mapPosition aligned.move) : Exec (StateM σ) Bool).on twin host) := by
  unfold bodyContinues
  rw [on_bind, on_bind, on_current?, on_current?]
  cases next : machine.current? with
  | none =>
    rcases (current_ended lawful related.toNear next).2 with cut | ended
    · exact .inl (lawful.excuse cut trivial)
    · rw [ended]
      exact .inr ⟨twin, rfl, related⟩
  | some token =>
    rw [current_moved lawful related.toNear next]
    refine ⟨_, twin, rfl, related, ?_, fun _ => by simp [next]⟩
    simp only [Token.mapPosition, ne_eq, lawful.column]

theorem ends_takeEnd (related : aligned.Related machine twin)
    (some : machine.current?.isSome = true) :
    aligned.Ends Same ((takeEnd : Exec (StateM σ) Unit).on machine host)
      ((takeEnd : Exec (StateM σ) Unit).on twin host) := by
  obtain ⟨token, next⟩ := Option.isSome_iff_exists.mp some
  unfold takeEnd
  rw [on_bind, on_bind, on_current?, on_current?, next, current_moved lawful related.toNear next]
  by_cases ends : token.kind = .blockEnd
  · simp only [Option.any_some, Token.mapPosition, ends, decide_true, ↓reduceIte]
    exact ⟨(), _, rfl, related_next related.toNear next, rfl⟩
  · simp only [Option.any_some, Token.mapPosition, ends, decide_false, Bool.false_eq_true,
      ↓reduceIte]
    exact ⟨(), twin, rfl, related, rfl⟩

/-- A line goes on alike: whatever follows a program that was cut off stands in another line. -/
theorem ends_moreOnLine (related : aligned.Related machine twin) :
    aligned.Ends (fun again other _ => other = again ∧ (again = false → True))
      ((moreOnLine : Exec (StateM σ) Bool).on machine host)
      ((moreOnLine : Exec (StateM σ) Bool).on twin host) := by
  refine ⟨_, twin, rfl, related, ?_, fun _ => trivial⟩
  rw [lastPlace_moved lawful related]
  obtain ⟨last, before, _⟩ := last_moved lawful related
  have place : machine.lastPlace = last.position := by simp [Machine.lastPlace, before]
  cases next : machine.current? with
  | some token =>
    rw [current_moved lawful related.toNear next]
    simp only [Option.any_some, Token.continues, Token.mapPosition, lawful.line]
  | none =>
    rcases (current_ended lawful related.toNear next).2 with cut | ended
    · have ends := last_of_ended lawful related next before
      cases following : twin.current? with
      | none => rfl
      | some token =>
        have begins : aligned.image[aligned.program.size + aligned.offset]? = some token := by
          rw [← (current_ended lawful related.toNear next).1, ← related.counter,
            ← related.twinTokens]
          exact following
        simp [Token.continues, place, lawful.apart cut ends begins]
    · rw [ended]
      rfl

theorem ends_takeCast (related : aligned.Related machine twin)
    (took : Took machine (.command .read)) :
    aligned.Ends (fun cast other after => other = cast ∧ ∃ last,
        tokenBefore? after.tokens after.pc = some last ∧ isOpenEnded last.kind = true)
      ((takeCast : Exec (StateM σ) (Option Cast)).on machine host)
      ((takeCast : Exec (StateM σ) (Option Cast)).on twin host) := by
  obtain ⟨last, before, kind⟩ := took
  have openEnded : isOpenEnded last.kind = true := by rw [kind]; rfl
  unfold takeCast
  rw [on_bind, on_bind, on_current?, on_current?, current_eq lawful related before openEnded]
  cases next : machine.current? with
  | none => exact ⟨none, twin, rfl, related, rfl, last, before, openEnded⟩
  | some token =>
    simp only [Option.map_some, Token.mapPosition]
    split
    · rename_i type same
      have cast : token.kind = .cast type := Option.some.inj same
      exact ⟨_, _, rfl, related_next related.toNear next, rfl, token, next, by rw [cast]; rfl⟩
    · exact ⟨none, twin, rfl, related, rfl, last, before, openEnded⟩

theorem ends_takeKeyword (related : aligned.Related machine twin) (kind : TokenKind)
    (keyword : String) :
    aligned.Ends Same ((takeKeyword kind keyword : Exec (StateM σ) Unit).on machine host)
      ((takeKeyword kind keyword : Exec (StateM σ) Unit).on twin host) := by
  refine ends_bind (ends_consume lawful related) ?_
  rintro token _ middle twinMiddle between relatedMiddle ⟨rfl, _⟩
  by_cases expected : token.kind = kind
  · simp only [Token.mapPosition, expected, ne_eq, not_true_eq_false, ↓reduceIte]
    exact ends_pure relatedMiddle rfl
  · simp only [Token.mapPosition, ne_eq, expected, not_false_eq_true, ↓reduceIte]
    exact ends_raise relatedMiddle

theorem ends_takeTarget (related : aligned.Related machine twin) :
    aligned.Ends Same ((takeTarget : Exec (StateM σ) String).on machine host)
      ((takeTarget : Exec (StateM σ) String).on twin host) := by
  refine ends_bind (ends_consume lawful related) ?_
  rintro token _ middle twinMiddle between relatedMiddle ⟨rfl, _⟩
  have kind : (token.mapPosition aligned.move).kind = token.kind := rfl
  have name : (token.mapPosition aligned.move).name? = token.name? := rfl
  rw [kind, name]
  split
  · exact ends_pure relatedMiddle rfl
  · exact ends_raise relatedMiddle

omit lawful in
theorem ends_operandBefore (related : aligned.Related machine twin) {index : Nat}
    (operand : aligned.Operand index) :
    aligned.Ends Same ((operandBefore index : Exec (StateM σ) Value).on machine host)
      ((operandBefore (index + aligned.offset) : Exec (StateM σ) Value).on twin host) := by
  rw [on_operandBefore, on_operandBefore, related.tokens, related.twinTokens, operand]
  cases variableBefore aligned.program index with
  | none => exact ends_pop related
  | some token => exact ends_lookup related token

end Lookahead

section Operands
variable {σ : Type} [Host (StateM σ)] {aligned : Alignment} (lawful : aligned.Lawful)
  {machine twin : Machine} {host : σ} {levels : Nat}
  (further : ∀ less, levels = less + 1 → aligned.Further σ less)
include lawful

omit [Host (StateM σ)] in
/-- A fault at the place of the token taken last. -/
theorem ends_raise_last {α β : Type} {post : α → β → Machine → Prop} {error : Position → Error}
    (related : aligned.Related machine twin)
    (moves : ∀ place, (error place).mapPosition aligned.move = error (aligned.move place)) :
    aligned.Ends post ((do raise (error (← lastPlace)) : Exec (StateM σ) α).on machine host)
      ((do raise (error (← lastPlace)) : Exec (StateM σ) β).on twin host) := by
  rw [on_bind, on_bind, on_lastPlace, on_lastPlace]
  simp only
  rw [lastPlace_moved lawful related, ← moves]
  exact ends_raise related

include further

theorem ends_inside {α β : Type} {post : α → β → Machine → Prop}
    (related : aligned.Related machine twin) (position : Position)
    {body : Level (StateM σ) → Exec (StateM σ) α} {other : Level (StateM σ) → Exec (StateM σ) β}
    (stable : ∀ value result after, post value result after → post value result (left after))
    (agreed : ∀ less, aligned.Further σ less →
      aligned.Related (entered machine) (entered twin) →
      aligned.Ends post
        ((body ⟨stepWith (level? less), perform (level? less)⟩).on (entered machine) host)
        ((other ⟨stepWith (level? less), perform (level? less)⟩).on (entered twin) host)) :
    aligned.Ends post ((inside (level? levels) position body).on machine host)
      ((inside (level? levels) (aligned.move position) other).on twin host) := by
  cases levels with
  | zero => exact ends_raise related
  | succ less => exact ends_counted lawful related stable (agreed less (further less rfl))

theorem ends_group (related : aligned.Related machine twin) (opener : Token) :
    aligned.Ends Same ((group (level? levels) opener).on machine host)
      ((group (level? levels) (opener.mapPosition aligned.move)).on twin host) := by
  refine ends_inside lawful further related opener.position (fun _ _ _ same => same) ?_
  intro less inner started
  refine ends_bind (ends_loop (loops_end.group less opener _ host)
    (loops_end.group less (opener.mapPosition aligned.move) _ host) started
    (fun _ _ _ related => ends_groupContinues lawful related opener)
    (fun _ _ _ host related => inner.step host related)) ?_
  rintro _ _ middle twinMiddle between relatedMiddle _
  exact ends_pop relatedMiddle

theorem ends_expressionFrom (related : aligned.Related machine twin) (token : Token) :
    aligned.Ends Same ((expressionFrom (level? levels) token).on machine host)
      ((expressionFrom (level? levels) (token.mapPosition aligned.move)).on twin host) := by
  unfold expressionFrom
  simp only [Token.mapPosition]
  split
  · exact ends_group lawful further related token
  · exact ends_lookup related token
  · exact ends_pure related rfl

theorem ends_expression (related : aligned.Related machine twin) :
    aligned.Ends Same ((expression (level? levels)).on machine host)
      ((expression (level? levels)).on twin host) := by
  refine ends_bind (ends_consume lawful related) ?_
  rintro token _ middle twinMiddle between relatedMiddle ⟨rfl, _⟩
  exact ends_expressionFrom lawful further relatedMiddle token

theorem ends_valueFrom (related : aligned.Related machine twin) {token : Token}
    (took : tokenBefore? machine.tokens machine.pc = some token) :
    aligned.Ends Same ((valueFrom (level? levels) token).on machine host)
      ((valueFrom (level? levels) (token.mapPosition aligned.move)).on twin host) := by
  unfold valueFrom
  simp only [Token.mapPosition]
  split
  · rename_i command kind
    refine ends_inside lawful further related token.position (fun _ _ _ same => same) ?_
    intro less inner started
    refine ends_bind (inner.perform host started ⟨token, took, kind⟩) ?_
    rintro _ _ middle twinMiddle between relatedMiddle _
    exact ends_pop relatedMiddle
  · exact ends_group lawful further related token
  · change aligned.Ends Same _ ((if token.name?.any standsForTop then pop
      else lookup (token.mapPosition aligned.move) : Exec (StateM σ) Value).on twin host)
    split
    · exact ends_pop related
    · exact ends_lookup related token
  · exact ends_pure related rfl

theorem ends_value (related : aligned.Related machine twin) :
    aligned.Ends Same ((value (level? levels)).on machine host)
      ((value (level? levels)).on twin host) := by
  refine ends_bind (ends_consume lawful related) ?_
  rintro token _ middle twinMiddle between relatedMiddle ⟨rfl, took⟩
  exact ends_valueFrom lawful further relatedMiddle took

theorem ends_boolean (related : aligned.Related machine twin) (operator : String) :
    aligned.Ends Same ((boolean (level? levels) operator).on machine host)
      ((boolean (level? levels) operator).on twin host) := by
  refine ends_bind (ends_expression lawful further related) ?_
  rintro value _ middle twinMiddle between relatedMiddle rfl
  split
  · exact ends_pure relatedMiddle rfl
  · exact ends_raise_last lawful relatedMiddle fun _ => rfl

theorem ends_compare (related : aligned.Related machine twin) (operator : Operator)
    (name : String) {index : Nat}
    (operand : aligned.Operand index) :
    aligned.Ends Same ((compare (level? levels) operator name index).on machine host)
      ((compare (level? levels) operator name (index + aligned.offset)).on twin host) := by
  refine ends_bind (ends_operandBefore related operand) ?_
  rintro first _ middle twinMiddle between relatedMiddle rfl
  refine ends_bind (ends_expression lawful further relatedMiddle) ?_
  rintro second _ after twinAfter later relatedAfter rfl
  split
  · exact ends_pure relatedAfter rfl
  · exact ends_raise_last lawful relatedAfter fun _ => rfl

end Operands

section Constructs
variable {σ : Type} [Host (StateM σ)] {aligned : Alignment} (lawful : aligned.Lawful)
  {machine twin : Machine} {host : σ} {levels : Nat}
  (further : ∀ less, levels = less + 1 → aligned.Further σ less)
include lawful

omit [Host (StateM σ)] in
/-- The index of an operator that was just taken, and what stands to its left. -/
theorem ends_lastIndex (related : aligned.Related machine twin) {token : Token}
    (took : tokenBefore? machine.tokens machine.pc = some token)
    (operator : isInfix token.kind = true) :
    aligned.Ends (fun index other _ => other = index + aligned.offset ∧ aligned.Operand index)
      ((lastIndex : Exec (StateM σ) Nat).on machine host)
      ((lastIndex : Exec (StateM σ) Nat).on twin host) := by
  have positive : 0 < machine.pc := Nat.lt_of_lt_of_le lawful.start_pos related.started
  obtain ⟨before, counter⟩ : ∃ before, machine.pc = before + 1 := ⟨machine.pc - 1, by omega⟩
  refine ⟨_, twin, rfl, related, ?_, ?_⟩
  · rw [related.counter]
    omega
  · rw [related.tokens, counter] at took
    rw [counter]
    exact lawful.operand (counter ▸ related.started) took operator

include further

theorem ends_binary (related : aligned.Related machine twin) {operator : Operator}
    (took : Took machine (.binary operator)) :
    aligned.Ends Same ((binary (level? levels) operator).on machine host)
      ((binary (level? levels) operator).on twin host) := by
  obtain ⟨token, took, kind⟩ := took
  refine ends_bind (ends_lastIndex lawful related took (by rw [kind]; rfl)) ?_
  rintro index _ middle twinMiddle between relatedMiddle ⟨rfl, operand⟩
  refine ends_bind (ends_compare lawful further relatedMiddle operator _ operand) ?_
  rintro result _ after twinAfter later relatedAfter rfl
  exact ends_push relatedAfter _

theorem ends_negate (related : aligned.Related machine twin) (took : Took machine .not) :
    aligned.Ends Same ((negate (level? levels)).on machine host)
      ((negate (level? levels)).on twin host) := by
  obtain ⟨token, took, kind⟩ := took
  refine ends_bind (ends_lastIndex lawful related took (by rw [kind]; rfl)) ?_
  clear related took kind
  rintro index _ machine twin host related ⟨rfl, operand⟩
  have plain : aligned.Ends Same
      ((do
        let flag ← boolean (level? levels) "NOT"
        push (.boolean !flag) : Exec (StateM σ) Unit).on machine host)
      ((do
        let flag ← boolean (level? levels) "NOT"
        push (.boolean !flag) : Exec (StateM σ) Unit).on twin host) := by
    refine ends_bind (ends_boolean lawful further related "NOT") ?_
    rintro flag _ middle twinMiddle between relatedMiddle rfl
    exact ends_push relatedMiddle _
  rw [on_bind, on_bind, on_current?, on_current?]
  cases next : machine.current? with
  | some following =>
    rw [current_moved lawful related.toNear next]
    by_cases equals : following.kind = .binary .equal
    · simp only [Option.any_some, Token.mapPosition, equals, decide_true, ↓reduceIte]
      rw [on_bind, on_bind, on_skip, on_skip]
      refine ends_bind (ends_compare lawful further (related_next related.toNear next) .equal _
        operand) ?_
      rintro result _ middle twinMiddle between relatedMiddle rfl
      exact ends_push relatedMiddle _
    · simp only [Option.any_some, Token.mapPosition, equals, decide_false, Bool.false_eq_true,
        ↓reduceIte]
      exact plain
  | none =>
    rcases (current_ended lawful related.toNear next).2 with cut | ended
    · -- The operand is missing, whatever the image goes on with.
      have missing : (do
          let flag ← boolean (level? levels) "NOT"
          push (.boolean !flag) : Exec (StateM σ) Unit).on machine host =
            ((.error (.fault (.executed (.unexpectedEndOfInput machine.lastPlace))), machine),
              host) := by
        simp only [boolean, expression, on_bind, on_consume, next]
      simp only [Option.any_none, Bool.false_eq_true, ↓reduceIte]
      rw [missing]
      exact .inl (lawful.excuse cut trivial)
    · rw [ended]
      exact plain

theorem ends_assignment (related : aligned.Related machine twin) (keyword : Token) :
    aligned.Ends Same ((assignment (level? levels) keyword).on machine host)
      ((assignment (level? levels) (keyword.mapPosition aligned.move)).on twin host) := by
  have tail {machine twin : Machine} (host : σ) (related : aligned.Related machine twin) :
      aligned.Ends Same
        ((do
          let result ← value (level? levels)
          takeKeyword .target "TO"
          let name ← takeTarget
          assign name result : Exec (StateM σ) Unit).on machine host)
        ((do
          let result ← value (level? levels)
          takeKeyword .target "TO"
          let name ← takeTarget
          assign name result : Exec (StateM σ) Unit).on twin host) := by
    refine ends_bind (ends_value lawful further related) ?_
    rintro _ result _ _ _ related rfl
    refine ends_bind (ends_takeKeyword lawful related _ _) ?_
    rintro _ _ _ _ _ related _
    refine ends_bind (ends_takeTarget lawful related) ?_
    rintro _ name _ _ _ related rfl
    exact ends_assign lawful related name result
  unfold assignment
  by_cases declares : keyword.kind = .declare
  · simp only [Token.mapPosition, declares, ↓reduceIte]
    refine ends_bind (ends_takeKeyword lawful related _ _) ?_
    rintro _ _ _ _ between related _
    exact tail between related
  · simp only [Token.mapPosition, declares, ↓reduceIte]
    exact tail host related

theorem ends_arithmetic (related : aligned.Related machine twin) (operation : Arithmetic) :
    aligned.Ends Same ((arithmetic (level? levels) operation).on machine host)
      ((arithmetic (level? levels) operation).on twin host) := by
  refine ends_bind (ends_value lawful further related) ?_
  rintro first _ _ _ _ related rfl
  refine ends_bind (ends_value lawful further related) ?_
  rintro second _ _ _ _ related rfl
  split
  · exact ends_push related _
  · exact ends_raise_last lawful related fun _ => rfl
  · exact ends_raise_last lawful related fun _ => rfl

theorem ends_takePrompt (related : aligned.Related machine twin) {last : Token}
    (before : tokenBefore? machine.tokens machine.pc = some last)
    (openEnded : isOpenEnded last.kind = true) :
    aligned.Ends Same ((takePrompt (level? levels)).on machine host)
      ((takePrompt (level? levels)).on twin host) := by
  unfold takePrompt
  rw [on_bind, on_bind, on_get, on_get]
  simp only [current_eq lawful related before openEnded, Option.map_map]
  cases next : machine.current? with
  | none =>
    simp only [Option.map_none, reduceCtorEq, false_and, ↓reduceIte]
    exact ends_pure related rfl
  | some token =>
    by_cases asks : token.kind = .binary .and
    · -- The token after `AND` is found again, or both programs end with `AND`.
      have moved := related_next related.toNear next
      have took : tokenBefore? machine.tokens (machine.pc + 1) = some token := next
      have following : twin.tokens[twin.pc + 1]? =
          machine.tokens[machine.pc + 1]?.map (·.mapPosition aligned.move) :=
        current_eq lawful moved took (by rw [asks]; rfl)
      rw [following]
      cases second : machine.tokens[machine.pc + 1]? with
      | none =>
        simp only [Option.map_none, reduceCtorEq, and_false, ↓reduceIte]
        exact ends_pure related rfl
      | some printer =>
        by_cases prints : printer.kind = .command .print
        · simp only [Option.map_some, Function.comp_apply, Token.mapPosition, asks, prints,
            and_self, ↓reduceIte]
          rw [on_bind, on_bind, on_skip, on_skip]
          refine ends_bind (ends_value lawful further (related_next moved.toNear second)) ?_
          rintro _ result _ _ _ related rfl
          exact ends_pure related rfl
        · simp only [Option.map_some, Token.mapPosition, Option.some.injEq, prints, and_false,
            ↓reduceIte]
          exact ends_pure related rfl
    · simp only [Option.map_some, Function.comp_apply, Token.mapPosition, Option.some.injEq, asks,
        false_and, ↓reduceIte]
      exact ends_pure related rfl

theorem ends_takeInput (related : aligned.Related machine twin)
    (took : Took machine (.command .read)) :
    aligned.Ends Same ((takeInput (level? levels)).on machine host)
      ((takeInput (level? levels)).on twin host) := by
  refine ends_bind (ends_takeCast lawful related took) ?_
  rintro _ cast _ _ _ related ⟨rfl, last, before, openEnded⟩
  refine ends_bind (ends_takePrompt lawful further related before openEnded) ?_
  rintro _ prompt _ _ _ related rfl
  refine ends_bind (ends_readLine lawful related prompt) ?_
  rintro _ line? machine twin host related rfl
  have stored {machine twin : Machine} (host : σ) (related : aligned.Related machine twin)
      (result : Value) :
      aligned.Ends Same
        ((do record (.converted result); push result : Exec (StateM σ) Unit).on machine host)
        ((do record (.converted result); push result : Exec (StateM σ) Unit).on twin host) := by
    refine ends_bind (ends_record lawful related (.same _)) ?_
    rintro _ _ _ _ _ related _
    exact ends_push related result
  cases line? with
  | none => exact stored host related .null
  | some line =>
    simp only
    split
    · exact stored host related _
    · rw [on_bind, on_bind, on_lastPlace, on_lastPlace]
      simp only
      rw [lastPlace_moved lawful related]
      exact .inr ⟨twin, rfl, related⟩

theorem ends_print (related : aligned.Related machine twin) :
    aligned.Ends Same ((print (level? levels)).on machine host)
      ((print (level? levels)).on twin host) := by
  refine ends_bind (ends_loop (loops_end.line levels "" _ host) (loops_end.line levels "" _ host)
    related (fun _ _ _ related => ends_moreOnLine lawful related) ?_) ?_
  · intro text machine twin host related
    refine ends_bind (ends_value lawful further related) ?_
    rintro _ result _ _ _ related rfl
    exact ends_pure related rfl
  · rintro _ line _ _ _ related ⟨rfl, _⟩
    exact ends_writeLine lawful related line

theorem ends_exit (related : aligned.Related machine twin) :
    aligned.Ends Same ((exit (level? levels)).on machine host)
      ((exit (level? levels)).on twin host) := by
  refine ends_bind (ends_moreOnLine lawful related) ?_
  rintro _ more machine twin host related ⟨rfl, _⟩
  cases more with
  | false => exact .inr ⟨twin, rfl, related⟩
  | true =>
    refine ends_bind (ends_value lawful further related) ?_
    rintro _ code machine twin host related rfl
    simp only
    split
    · exact .inr ⟨twin, rfl, related⟩
    · exact ends_raise_last lawful related fun _ => rfl

theorem ends_perform (related : aligned.Related machine twin) {command : Command}
    (took : Took machine (.command command)) :
    aligned.Ends Same ((perform (level? levels) command).on machine host)
      ((perform (level? levels) command).on twin host) := by
  cases command with
  | arithmetic operation => exact ends_arithmetic lawful further related operation
  | read => exact ends_takeInput lawful further related took
  | print => exact ends_print lawful further related
  | exit => exact ends_exit lawful further related

end Constructs

section Blocks
variable {aligned : Alignment} (lawful : aligned.Lawful) {start stop : Nat}
include lawful

theorem endOfBlock_moved {position : Position} (near : aligned.start ≤ start + 1)
    (found : endOfBlock aligned.program start position.column = some stop) :
    endOfBlock aligned.image (start + aligned.offset) (aligned.move position).column =
      some (stop + aligned.offset) :=
  firstFrom_moved lawful near (fun _ => by simp [Token.mapPosition, lawful.column]) found

theorem endOfBlock_missing {position : Position} (near : aligned.start ≤ start + 1)
    (missing : endOfBlock aligned.program start position.column = none) :
    aligned.cut ∨ endOfBlock aligned.image (start + aligned.offset)
      (aligned.move position).column = none := by
  by_cases cut : aligned.cut
  · exact .inl cut
  · exact .inr (firstFrom_missing lawful near cut
      (fun _ => by simp [Token.mapPosition, lawful.column]) missing)

theorem findBlock_moved {label : String} (near : aligned.start ≤ start + 1)
    (found : findBlock aligned.program start label = some stop) :
    findBlock aligned.image (start + aligned.offset) label = some (stop + aligned.offset) :=
  firstFrom_moved lawful near (fun _ => rfl) found

theorem findBlock_missing {label : String} (near : aligned.start ≤ start + 1)
    (missing : findBlock aligned.program start label = none) :
    aligned.cut ∨ findBlock aligned.image (start + aligned.offset) label = none := by
  by_cases cut : aligned.cut
  · exact .inl cut
  · exact .inr (firstFrom_missing lawful near cut (fun _ => rfl) missing)

end Blocks

section BlockConstructs
variable {σ : Type} [Host (StateM σ)] {aligned : Alignment} (lawful : aligned.Lawful)
  {machine twin : Machine} {host : σ} {levels : Nat}
  (further : ∀ less, levels = less + 1 → aligned.Further σ less)
include lawful

omit [Host (StateM σ)] in
/-- Going to the end of a block, and past its `END` if there is one. -/
theorem ends_passTo (related : aligned.Related machine twin) {position : Position} {start stop : Nat}
    (forward : machine.pc ≤ start)
    (found : endOfBlock aligned.program start position.column = some stop) :
    aligned.Ends Same ((do goTo stop; takeEnd : Exec (StateM σ) Unit).on machine host)
      ((do goTo (stop + aligned.offset); takeEnd : Exec (StateM σ) Unit).on twin host) := by
  obtain ⟨after, ⟨closer, held, _⟩, _⟩ := firstFrom_eq_some_iff.mp found
  have inside := (Array.getElem?_eq_some_iff.mp held).1
  rw [on_bind, on_bind, on_goTo, on_goTo]
  refine ends_takeEnd lawful (related_goTo related (by omega) (Nat.le_of_lt inside)) ?_
  change (machine.tokens[stop]?).isSome = true
  rw [related.tokens, held]
  rfl

include further

/-- A body that is executed ends at a token. -/
theorem ends_body (related : aligned.Related machine twin) (opener : Token) :
    aligned.Ends
      (fun value result after => result = value ∧ after.current?.isSome = true)
      ((inside (level? levels) opener.position fun inner =>
        whileTokens (bodyContinues opener) (fun _ => inner.step) ()).on machine host)
      ((inside (level? levels) (aligned.move opener.position) fun inner =>
        whileTokens (bodyContinues (opener.mapPosition aligned.move)) (fun _ => inner.step) ()).on
          twin host) := by
  refine ends_inside lawful further related opener.position (fun _ _ _ same => same) ?_
  intro less inner started
  exact ends_loop (loops_end.body less opener _ host)
    (loops_end.body less (opener.mapPosition aligned.move) _ host) started
    (fun _ _ _ related => ends_bodyContinues lawful related opener)
    (fun _ _ _ host related => inner.step host related)

theorem ends_conditional (related : aligned.Related machine twin) (opener : Token) :
    aligned.Ends Same ((conditional (level? levels) opener).on machine host)
      ((conditional (level? levels) (opener.mapPosition aligned.move)).on twin host) := by
  refine ends_bind (ends_boolean lawful further related "IF") ?_
  rintro _ holds _ _ _ related rfl
  refine ends_bind (ends_record lawful related (.decided opener.position holds)) ?_
  rintro _ _ machine twin host related _
  cases holds with
  | true =>
    refine ends_bind (ends_body lawful further related opener) ?_
    rintro _ _ _ _ _ related ⟨_, some⟩
    exact ends_takeEnd lawful related some
  | false =>
    simp only [Bool.false_eq_true, ↓reduceIte]
    rw [on_bind, on_bind, on_get, on_get]
    simp only [related.tokens, related.twinTokens, related.counter]
    have near : aligned.start ≤ machine.pc + 1 := related.near
    cases found : endOfBlock aligned.program machine.pc opener.position.column with
    | some stop =>
      simp only [Token.mapPosition, endOfBlock_moved lawful near found]
      exact ends_passTo lawful related (Nat.le_refl _) found
    | none =>
      rcases endOfBlock_missing lawful near found with cut | missing
      · exact .inl (lawful.excuse cut trivial)
      · simp only [Token.mapPosition, missing]
        exact .inr ⟨twin, rfl, related⟩

omit further [Host (StateM σ)] in
theorem ends_passOver (related : aligned.Related machine twin) (opener : Token) :
    aligned.Ends Same ((passOver opener : Exec (StateM σ) Unit).on machine host)
      ((passOver (opener.mapPosition aligned.move) : Exec (StateM σ) Unit).on twin host) := by
  have positive : 0 < machine.pc := Nat.lt_of_lt_of_le lawful.start_pos related.started
  have near : aligned.start ≤ machine.pc + 1 := related.near
  have label : (opener.mapPosition aligned.move).nameOrEmpty = opener.nameOrEmpty := rfl
  have index : machine.pc + aligned.offset - 1 = machine.pc - 1 + aligned.offset := by omega
  unfold passOver
  rw [on_bind, on_bind, on_get, on_get]
  simp only [related.tokens, related.twinTokens, related.counter, label, index]
  cases found : endOfBlock aligned.program machine.pc opener.position.column with
  | none =>
    rcases endOfBlock_missing lawful near found with cut | missing
    · exact .inl (lawful.excuse cut trivial)
    · simp only [Token.mapPosition, missing]
      exact .inr ⟨twin, rfl, related⟩
  | some stop =>
    simp only [Token.mapPosition, endOfBlock_moved lawful near found]
    rw [on_bind, on_bind, on_addLabel, on_addLabel]
    unfold Labels.add
    rw [lawful.contains related.labels]
    by_cases known : machine.labels.contains opener.nameOrEmpty = true
    · simp only [known, ↓reduceIte]
      exact .inr ⟨twin, rfl, related⟩
    · simp only [known, Bool.false_eq_true, ↓reduceIte]
      obtain ⟨after, _, _⟩ := firstFrom_eq_some_iff.mp found
      have covered : aligned.Covers ⟨some (machine.pc - 1), some stop⟩ := by
        have started := related.started
        rintro index (⟨⟨⟩⟩ | ⟨⟨⟩⟩) <;> omega
      have new := related_labels related
        (lawful.added related.labels (Bool.eq_false_iff.mpr known) covered)
      have noted := related_record lawful new (.passed opener.nameOrEmpty (machine.pc - 1) stop)
      exact ends_passTo lawful noted (Nat.le_refl _) found

omit further in
/-- The body of a jump's target, and past its `END` if the body ends right there. -/
theorem ends_target (further : ∀ less, levels = less + 1 → aligned.Further σ less)
    (related : aligned.Related machine twin) (position : Position) {stop : Nat} {closer : Token}
    (held : aligned.program[stop]? = some closer) (near : aligned.start ≤ stop + 1) :
    aligned.Ends Same
      ((do
        inside (level? levels) position fun inner =>
          whileTokens (return (← get).pc < stop) (fun _ => inner.step) ()
        if (← get).pc = stop then
          takeEnd : Exec (StateM σ) Unit).on machine host)
      ((do
        inside (level? levels) (aligned.move position) fun inner =>
          whileTokens (return (← get).pc < stop + aligned.offset) (fun _ => inner.step) ()
        if (← get).pc = stop + aligned.offset then
          takeEnd : Exec (StateM σ) Unit).on twin host) := by
  have inside := (Array.getElem?_eq_some_iff.mp held).1
  have twinInside := (Array.getElem?_eq_some_iff.mp (lawful.token near held)).1
  refine ends_bind (ends_inside lawful further related position
    (fun value result _ (same : result = value ∧ True) => same) ?_) ?_
  · intro less inner started
    refine ends_loop (loops_end.target less stop _ host ?_)
      (loops_end.target less (stop + aligned.offset) _ host ?_) started ?_
      (fun _ _ _ host related => inner.step host related)
    · rw [started.tokens]
      exact Nat.le_of_lt inside
    · rw [started.twinTokens]
      exact Nat.le_of_lt twinInside
    · intro machine twin host related
      refine ⟨_, twin, rfl, related, ?_, fun _ => trivial⟩
      rw [related.counter]
      simp
  · rintro _ _ machine twin host related _
    rw [on_bind, on_bind, on_get, on_get]
    simp only [related.counter, Nat.add_right_cancel_iff]
    by_cases ended : machine.pc = stop
    · simp only [ended, ↓reduceIte]
      refine ends_takeEnd lawful related ?_
      unfold Machine.current?
      rw [related.tokens, ended, held]
      rfl
    · simp only [ended, ↓reduceIte]
      exact ends_pure related rfl

variable (host) in
omit further [Host (StateM σ)] in
theorem ends_findTarget (related : aligned.Related machine twin) (label : String) (jump : Token) :
    aligned.Ends
      (fun found other _ => other = (found.1 + aligned.offset, found.2 + aligned.offset))
      ((findTarget label jump : Exec (StateM σ) (Nat × Nat)).on machine host)
      ((findTarget label (jump.mapPosition aligned.move) : Exec (StateM σ) (Nat × Nat)).on twin
        host) := by
  have near : aligned.start ≤ machine.pc + 1 := related.near
  unfold findTarget
  rw [on_bind, on_bind, on_get, on_get]
  simp only
  rw [related.tokens, related.twinTokens, related.counter]
  cases found : findBlock aligned.program machine.pc label with
  | none =>
    rcases findBlock_missing lawful near found with cut | missing
    · exact .inl (lawful.excuse cut trivial)
    · rw [missing]
      exact .inr ⟨twin, rfl, related⟩
  | some start =>
    obtain ⟨after, ⟨opener, held, _⟩, _⟩ := firstFrom_eq_some_iff.mp found
    have beyond : aligned.start ≤ start + 1 := by omega
    have index : start + aligned.offset + 1 = start + 1 + aligned.offset := by omega
    rw [findBlock_moved lawful near found]
    simp only [held, lawful.token beyond held, Option.getD_some, index]
    cases ended : endOfBlock aligned.program (start + 1) opener.position.column with
    | none =>
      rcases endOfBlock_missing lawful (Nat.le_succ_of_le beyond) ended with cut | missing
      · exact .inl (lawful.excuse cut trivial)
      · simp only [Token.mapPosition, missing]
        exact .inr ⟨twin, rfl, related⟩
    | some stop =>
      simp only [Token.mapPosition, endOfBlock_moved lawful (Nat.le_succ_of_le beyond) ended]
      exact ⟨_, twin, rfl, related, rfl⟩

theorem ends_follow (related : aligned.Related machine twin) (jump : Token) :
    aligned.Ends Same ((follow (level? levels) jump).on machine host)
      ((follow (level? levels) (jump.mapPosition aligned.move)).on twin host) := by
  have label : (jump.mapPosition aligned.move).nameOrEmpty = jump.nameOrEmpty := rfl
  unfold follow
  simp only [label]
  rw [on_bind, on_bind, on_addLabel, on_addLabel]
  unfold Labels.add
  rw [lawful.contains related.labels]
  by_cases known : machine.labels.contains jump.nameOrEmpty = true
  · simp only [known, ↓reduceIte]
    exact .inr ⟨twin, rfl, related⟩
  simp only [known, Bool.false_eq_true, ↓reduceIte]
  have fresh : machine.labels.contains jump.nameOrEmpty = false := Bool.eq_false_iff.mpr known
  -- The label is recorded before its block is found, and stays so if the block is missing.
  have unknown : aligned.Covers .unknown := by rintro index (⟨⟨⟩⟩ | ⟨⟨⟩⟩)
  have recorded := related_labels related (lawful.added related.labels fresh unknown)
  have target := ends_findTarget lawful host recorded jump.nameOrEmpty jump
  rw [on_bind, on_bind]
  rcases ran : (findTarget jump.nameOrEmpty jump : Exec (StateM σ) (Nat × Nat)).on
    { machine with labels := ⟨machine.labels.table.insert jump.nameOrEmpty .unknown⟩ } host with
    ⟨⟨stop | ⟨start, stop⟩, middle⟩, between⟩
  all_goals rw [ran] at target
  · rcases target with excused | ⟨twinMiddle, otherRan, relatedMiddle⟩
    · exact .inl excused
    · change (findTarget jump.nameOrEmpty (jump.mapPosition aligned.move) :
        Exec (StateM σ) (Nat × Nat)).on
          { twin with labels := ⟨twin.labels.table.insert jump.nameOrEmpty .unknown⟩ } host = _
        at otherRan
      rw [otherRan]
      exact .inr ⟨twinMiddle, rfl, relatedMiddle⟩
  · obtain ⟨_, twinMiddle, otherRan, _, rfl⟩ := target
    obtain ⟨rfl, rfl, found, opener, _, ended⟩ := findTarget_found ran
    change (findTarget jump.nameOrEmpty (jump.mapPosition aligned.move) :
      Exec (StateM σ) (Nat × Nat)).on
        { twin with labels := ⟨twin.labels.table.insert jump.nameOrEmpty .unknown⟩ } between = _
      at otherRan
    rw [otherRan]
    obtain ⟨rfl, _, _⟩ := findTarget_found otherRan
    simp only
    rw [related.tokens] at found ended
    obtain ⟨after, _, _⟩ := firstFrom_eq_some_iff.mp found
    obtain ⟨beyond, ⟨closer, held, _⟩, _⟩ := firstFrom_eq_some_iff.mp ended
    have inside := (Array.getElem?_eq_some_iff.mp held).1
    have forward : machine.pc ≤ start := after
    have near : aligned.start ≤ stop + 1 := by
      have started := related.started
      omega
    have index : start + aligned.offset + 1 = start + 1 + aligned.offset := by omega
    have covered : aligned.Covers ⟨some start, some stop⟩ := by
      have started := related.started
      rintro index (⟨⟨⟩⟩ | ⟨⟨⟩⟩) <;> omega
    rw [on_bind, on_bind, on_locateLabel, on_locateLabel]
    simp only [Labels.locate_insert, Table.insert_insert, index]
    have located := related_labels related (lawful.added related.labels fresh covered)
    have noted := related_record lawful located (.jumped jump.nameOrEmpty start stop)
    have later : machine.pc ≤ start + 1 := Nat.le_succ_of_le forward
    have gone := related_goTo noted later (by omega)
    exact ends_target lawful further gone jump.position held near

theorem ends_jump (related : aligned.Related machine twin) (token : Token) :
    aligned.Ends Same ((jump (level? levels) token).on machine host)
      ((jump (level? levels) (token.mapPosition aligned.move)).on twin host) := by
  have label : (token.mapPosition aligned.move).nameOrEmpty = token.nameOrEmpty := rfl
  unfold jump
  simp only [label]
  rw [on_bind, on_bind, on_get, on_get]
  simp only [lawful.contains related.labels]
  by_cases known : machine.labels.contains token.nameOrEmpty = true
  · simp only [known, ↓reduceIte]
    exact .inr ⟨twin, rfl, related⟩
  simp only [known, Bool.false_eq_true, ↓reduceIte]
  refine ends_bind (ends_consume lawful related) ?_
  rintro keyword _ middle twinMiddle between related ⟨rfl, _⟩
  by_cases guards : keyword.kind = .conditional
  · simp only [Token.mapPosition, guards, ne_eq, not_true_eq_false, ↓reduceIte]
    refine ends_bind (ends_boolean lawful further related "JUMP") ?_
    rintro _ holds _ _ _ related rfl
    cases holds with
    | true => exact ends_follow lawful further related token
    | false => exact ends_record lawful related (.same _)
  · simp only [Token.mapPosition, ne_eq, guards, not_false_eq_true, ↓reduceIte]
    exact .inr ⟨twinMiddle, rfl, related⟩

theorem ends_execute (related : aligned.Related machine twin) {token : Token}
    (took : tokenBefore? machine.tokens machine.pc = some token) :
    aligned.Ends Same ((execute (level? levels) token).on machine host)
      ((execute (level? levels) (token.mapPosition aligned.move)).on twin host) := by
  unfold execute
  have literal : (token.mapPosition aligned.move).literal = token.literal := rfl
  have kind : (token.mapPosition aligned.move).kind = token.kind := rfl
  rw [kind, literal]
  split
  · exact ends_push related _
  · exact ends_push related _
  · exact ends_push related _
  · exact ends_binary lawful further related ⟨token, took, ‹_›⟩
  · exact ends_negate lawful further related ⟨token, took, ‹_›⟩
  · refine ends_bind (ends_group lawful further related token) ?_
    rintro _ value _ _ _ related rfl
    exact ends_push related value
  · exact ends_assignment lawful further related token
  · exact ends_assignment lawful further related token
  · exact ends_perform lawful further related ⟨token, took, ‹_›⟩
  · exact ends_jump lawful further related token
  · exact ends_passOver lawful related token
  · exact ends_conditional lawful further related token
  all_goals exact ends_pure related rfl

/-- A step from a token. Here the first machine may still stand right before the start. -/
theorem ends_stepWith (near : aligned.Near machine twin) {token : Token}
    (next : machine.current? = some token) :
    aligned.Ends Same ((stepWith (level? levels)).on machine host)
      ((stepWith (level? levels)).on twin host) := by
  rw [on_stepWith, on_stepWith, next, current_moved lawful near next]
  have alike : aligned.Alike
      (.dispatched ⟨machine.pc, token.kind, machine.depth, machine.stack.size, machine.labels⟩)
      (.dispatched ⟨twin.pc, token.kind, twin.depth, twin.stack.size, twin.labels⟩) := by
    have height : twin.stack.size = machine.stack.size := congrArg List.length near.values
    rw [near.counter, near.depth, height]
    exact .dispatched _ _ _ _ near.labels
  have related : aligned.Related (taken machine token)
      (taken twin (token.mapPosition aligned.move)) :=
    related_record lawful (related_next near next) alike
  exact ends_execute lawful further related next

end BlockConstructs

section Levels
variable {σ : Type} [Host (StateM σ)] {aligned : Alignment} (lawful : aligned.Lawful)
include lawful

theorem further_of_further {levels : Nat}
    (further : ∀ less, levels = less + 1 → aligned.Further σ less) : aligned.Further σ levels where
  step := by
    intro machine twin host related
    cases next : machine.current? with
    | some token => exact ends_stepWith lawful further related.toNear next
    | none =>
      rw [on_stepWith, on_stepWith, next]
      rcases (current_ended lawful related.toNear next).2 with cut | ended
      · exact .inl (lawful.excuse cut trivial)
      · rw [ended, lastPlace_moved lawful related]
        exact .inr ⟨twin, rfl, related⟩
  perform _ related took := ends_perform lawful further related took

/-- The induction on the nesting levels that are left. -/
theorem further_of_lawful (levels : Nat) : aligned.Further σ levels := by
  induction levels with
  | zero => exact further_of_further lawful fun _ zero => by cases zero
  | succ levels ih =>
    refine further_of_further lawful fun less succ => ?_
    cases succ
    exact ih

end Levels

/-- How two walks over aligned programs end. A walk that is stopped stops the other one for the
same reason, if it is not excused; where a walk completes, the other one has come to the same
place and goes on from there. -/
def Follows {σ : Type} [Host (StateM σ)] (aligned : Alignment)
    (other : (Except Stop Unit × Machine) × σ) : (Except Stop Unit × Machine) × σ → Prop
  | ((.ok (), after), later) =>
    after.pc = aligned.program.size ∧
      ∃ twin, aligned.Near after twin ∧ toEnd.on twin later = other
  | ((.error stop, after), later) =>
    aligned.Excuses stop ∨
      ∃ twin, other = ((.error (aligned.moved stop), twin), later) ∧ aligned.Related after twin

section Walks
variable {σ : Type} [Host (StateM σ)] {aligned : Alignment} (lawful : aligned.Lawful)
include lawful

theorem ends_step {machine twin : Machine} (host : σ) (near : aligned.Near machine twin)
    {token : Token} (next : machine.current? = some token) :
    aligned.Ends Same ((step : Exec (StateM σ) Unit).on machine host)
      ((step : Exec (StateM σ) Unit).on twin host) := by
  rw [on_step, on_step, near.depth]
  exact ends_stepWith lawful (fun less _ => further_of_lawful lawful less) near next

/-- What one step keeps, a whole walk keeps. -/
theorem follows_of_loop {start : Unit} {machine twin : Machine} {host : σ}
    {result other : (Except Stop Unit × Machine) × σ}
    (looped : Loop (do return (← get).pc < (← get).tokens.size) (fun _ => step) start machine host
      result)
    (otherLooped : Loop (do return (← get).pc < (← get).tokens.size) (fun _ => step) start twin
      host other)
    (near : aligned.Near machine twin) : aligned.Follows other result := by
  have asks (machine : Machine) (host : σ) :
      (do return (← get).pc < (← get).tokens.size : Exec (StateM σ) Bool).on machine host =
        ((.ok (machine.pc < machine.tokens.size), machine), host) := rfl
  -- Where the first walk goes on, so does the other one.
  have goesOn {machine twin : Machine} (host : σ) (near : aligned.Near machine twin)
      {token : Token} (next : machine.current? = some token) :
      (do return (← get).pc < (← get).tokens.size : Exec (StateM σ) Bool).on twin host =
        ((.ok true, twin), host) := by
    have inside := inside_of_current (current_moved lawful near next)
    rw [asks, decide_eq_true inside]
  induction looped generalizing twin other with
  | refused asked => cases asked
  | @finished start machine after host later asked =>
    rw [asks] at asked
    simp only [Prod.mk.injEq, Except.ok.injEq, decide_eq_false_iff_not, Nat.not_lt] at asked
    obtain ⟨⟨behind, rfl⟩, rfl⟩ := asked
    rw [near.tokens] at behind
    exact ⟨Nat.le_antisymm near.within behind, twin, near,
      loop_unique otherLooped (loops_end.program twin host)⟩
  | @broken start machine middle after host between later stop asked ran =>
    obtain ⟨rfl, rfl, inside⟩ := (program_consuming machine.tokens).asked rfl asked
    have next := Array.getElem?_eq_getElem inside
    have ended := ends_step lawful between near next
    rw [ran] at ended
    rcases ended with excused | ⟨twinAfter, otherRan, related⟩
    · exact .inl excused
    · rw [loop_broken otherLooped (goesOn between near next) otherRan]
      exact .inr ⟨twinAfter, rfl, related⟩
  | @again start _ machine middle after host between later result asked ran rest ih =>
    obtain ⟨rfl, rfl, inside⟩ := (program_consuming machine.tokens).asked rfl asked
    have next := Array.getElem?_eq_getElem inside
    have ended := ends_step lawful between near next
    rw [ran] at ended
    obtain ⟨_, twinAfter, otherRan, related, _⟩ := ended
    exact ih (loop_again otherLooped (goesOn between near next) otherRan) related.toNear

/-- Walks of two machines that agree, from where they stand. -/
theorem toEnd_follows {machine twin : Machine} (host : σ) (near : aligned.Near machine twin) :
    aligned.Follows (toEnd.on twin host) (toEnd.on machine host) :=
  follows_of_loop lawful (loops_end.program machine host) (loops_end.program twin host) near

end Walks

section Calls
variable {σ : Type} [Host (StateM σ)] {aligned : Alignment} (lawful : aligned.Lawful)
  {machine twin : Machine} (host : σ)
include lawful

omit [Host (StateM σ)] in
/-- The outcome of a walk is that of the other one, and it is logged on both sides. -/
theorem conclude_moved (near : aligned.Near machine twin) (result : Except Stop Unit) :
    (twin.conclude (result.mapError aligned.moved)).1 =
        (machine.conclude result).1.mapError (·.mapPosition aligned.move) ∧
      aligned.Near (machine.conclude result).2
        (twin.conclude (result.mapError aligned.moved)).2 := by
  have noted {event other : Event} (alike : aligned.Alike event other) :
      aligned.Near (machine.record event) (twin.record other) :=
    { near with log := lawful.logged near.log alike }
  rcases result with (code | error) | ⟨⟩
  · refine ⟨rfl, noted ?_⟩
    rw [near.counter]
    exact .exited code machine.pc
  · refine ⟨rfl, noted ?_⟩
    rw [near.counter, Error.category_mapPosition]
    exact .failed error.category machine.pc
  · refine ⟨?_, near⟩
    change Except.ok (Outcome.completed twin.stack.values.reverse) = _
    rw [near.values]
    rfl

/-- A call on a program and a call on its image. Where the first one completes, the other one
has come to the same place and goes on from there. -/
theorem call_follows (near : aligned.Near machine twin) :
    let ended := call machine host
    let other := call twin host
    (completes ended.1.1 = true → ended.1.2.pc = aligned.program.size ∧
      ∃ middle, aligned.Near ended.1.2 middle ∧ call middle ended.2 = other) ∧
    (completes ended.1.1 = false → (∃ error, ended.1.1 = .error error ∧ aligned.excused error) ∨
      other.1.1 = ended.1.1.mapError (·.mapPosition aligned.move) ∧ other.2 = ended.2 ∧
        aligned.Near ended.1.2 other.1.2) := by
  have follows := toEnd_follows lawful host near
  simp only [call_eq]
  rcases walked : toEnd.on machine host with ⟨⟨stop | ⟨⟩, after⟩, later⟩
  all_goals rw [walked] at follows
  · constructor
    · rcases stop with code | error <;> intro done <;> cases done
    · intro _
      rcases follows with excused | ⟨twinAfter, otherWalked, related⟩
      · rcases stop with code | error
        · exact excused.elim
        · exact .inl ⟨error, rfl, excused⟩
      · right
        rw [otherWalked]
        obtain ⟨outcome, agreed⟩ := conclude_moved lawful related.toNear (.error stop)
        exact ⟨outcome, rfl, agreed⟩
  · constructor
    · intro _
      obtain ⟨counter, middle, agreed, otherWalked⟩ := follows
      refine ⟨counter, middle, agreed, ?_⟩
      rw [otherWalked]
    · intro stopped
      cases stopped

/-- Where the image ends with the program, both calls end alike. -/
theorem call_alike (whole : ¬ aligned.cut) (near : aligned.Near machine twin) :
    let ended := call machine host
    let other := call twin host
    (∃ error, ended.1.1 = .error error ∧ aligned.excused error) ∨
      other.1.1 = ended.1.1.mapError (·.mapPosition aligned.move) ∧ other.2 = ended.2 ∧
        aligned.Near ended.1.2 other.1.2 := by
  intro ended other
  obtain ⟨completed, stopped⟩ := call_follows lawful host near
  cases done : completes ended.1.1 with
  | false => exact stopped done
  | true =>
    right
    obtain ⟨counter, middle, agreed, goesOn⟩ := completed done
    have last : middle.tokens.size = middle.pc := by
      rw [agreed.twinTokens, agreed.counter, counter, lawful.whole whole]
    have behind : middle.tokens.size ≤ middle.pc := Nat.le_of_eq last
    have here : other = ((.ok (.completed middle.stack.bottomUp), middle), ended.2) := by
      rw [← call_ended ended.2 behind]
      exact goesOn.symm
    have outcome : ended.1.1 = .ok (.completed ended.1.2.stack.bottomUp) :=
      outcome_of_completes done
    rw [here, outcome]
    refine ⟨?_, rfl, agreed⟩
    change Except.ok (Outcome.completed middle.stack.values.reverse) = _
    rw [agreed.values]
    rfl

/-- Calls that start with steps that end alike, wherever these start. -/
theorem call_alike_of_step (whole : ¬ aligned.cut) (inside : machine.pc < machine.tokens.size)
    (twinInside : twin.pc < twin.tokens.size)
    (stepped : aligned.Ends Same ((step : Exec (StateM σ) Unit).on machine host)
      ((step : Exec (StateM σ) Unit).on twin host)) :
    let ended := call machine host
    let other := call twin host
    (∃ error, ended.1.1 = .error error ∧ aligned.excused error) ∨
      other.1.1 = ended.1.1.mapError (·.mapPosition aligned.move) ∧ other.2 = ended.2 ∧
        aligned.Related ended.1.2 other.1.2 := by
  simp only
  rw [call_of_step inside, call_of_step twinInside]
  rcases ran : (step : Exec (StateM σ) Unit).on machine host with ⟨⟨stop | ⟨⟩, after⟩, later⟩
  all_goals rw [ran] at stepped
  · rcases stepped with excused | ⟨twinAfter, otherRan, related⟩
    · rcases stop with code | error
      · exact excused.elim
      · exact .inl ⟨error, rfl, excused⟩
    · right
      rw [otherRan]
      obtain ⟨outcome, agreed⟩ := conclude_moved lawful related.toNear (.error stop)
      refine ⟨outcome, rfl, agreed, ?_⟩
      rcases stop with code | error <;> exact related.started
  · obtain ⟨_, twinAfter, otherRan, related, _⟩ := stepped
    rw [otherRan]
    rcases call_alike lawful later whole related.toNear with excused | ⟨outcome, host, agreed⟩
    · exact .inl excused
    · have started := Nat.le_trans related.started (call_forward after later).counter
      exact .inr ⟨outcome, host, agreed, started⟩

end Calls

end StackScript.Alignment
