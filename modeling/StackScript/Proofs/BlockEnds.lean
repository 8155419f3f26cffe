import StackScript.Host.Transcript
import StackScript.Proofs.Progress

/-! Where a conditional block ends. If its guard does not hold, the end is looked for: it is the
first token ahead in the column of the block. If the guard holds, the body is executed statement by
statement, and the end is whatever token in that column the walk comes to between two statements.
Both are the same as long as no statement of the body leads past the end; a statement that does,
such as a jump to a block further down, can take the walk to the end of the program, and then the
block is reported as unterminated although it is not. -/
namespace StackScript.BlockEnds
open Exec Walk Progress

/-- The fault that a conditional block has no end. -/
def unterminated (opener : Token) : Stop :=
  .fault (.executed (.unterminatedBlock "IF" opener.position))

/-- Where a walk goes on after a block with its end at an index: an `END` belongs to the block. -/
def resume (tokens : Array Token) (stop : Nat) : Nat :=
  if tokens[stop]?.any (·.kind = .blockEnd) then stop + 1 else stop

/-- The machine when the guard of a block holds and its body has been entered. -/
def opened (opener : Token) (machine : Machine) : Machine :=
  entered (machine.record (.decided opener.position.line true))

section Bodies
variable {σ : Type} [Host (StateM σ)]

/-- A statement of the body of a block: the next token, which is not in the column of the block, is
executed. -/
structure Statement (levels : Nat) (opener : Token) (before : Machine) (host : σ)
    (result : (Except Stop Unit × Machine) × σ) : Prop where
  inside : ∃ token, before.current? = some token ∧
    token.position.column ≠ opener.position.column
  ran : (stepWith (level? levels)).on before host = result

/-- The body of a block, executed for a number of statements. -/
inductive Course (levels : Nat) (opener : Token) (start : Machine) (host : σ) :
    Machine → σ → Prop where
  | start : Course levels opener start host start host
  | step {before after : Machine} {between later : σ}
      (walked : Course levels opener start host before between)
      (statement : Statement levels opener before between ((.ok (), after), later)) :
      Course levels opener start host after later

/-- The ways in which a block can end whose guard holds. -/
inductive Ending where
  /-- No nesting level is left for the body. -/
  | tooDeep
  /-- A statement of the body is stopped. -/
  | interrupted
  /-- The body leads to the end of the program. -/
  | ranOut
  /-- The body leads to a token in the column of the block. -/
  | reached (index : Nat)

/-- How a block ends whose guard has led to the machine `middle`, when some levels may be nested. -/
inductive Ends (opener : Token) (middle : Machine) (host : σ) :
    Nat → Ending → (Except Stop Unit × Machine) × σ → Prop where
  | tooDeep :
      Ends opener middle host 0 .tooDeep
        ((.error (.fault (.executed (.nestingTooDeep Machine.nestingLimit opener.position))),
          middle.record (.decided opener.position.line true)), host)
  | interrupted {levels : Nat} {before after : Machine} {between later : σ} {stop : Stop}
      (walked : Course levels opener (opened opener middle) host before between)
      (statement : Statement levels opener before between ((.error stop, after), later)) :
      Ends opener middle host (levels + 1) .interrupted ((.error stop, left after), later)
  | ranOut {levels : Nat} {last : Machine} {later : σ}
      (walked : Course levels opener (opened opener middle) host last later)
      (ended : last.current? = none) :
      Ends opener middle host (levels + 1) .ranOut
        ((.error (unterminated opener), left last), later)
  | reached {levels : Nat} {last : Machine} {later : σ} {token : Token}
      (walked : Course levels opener (opened opener middle) host last later)
      (next : last.current? = some token)
      (column : token.position.column = opener.position.column) :
      Ends opener middle host (levels + 1) (.reached last.pc)
        ((.ok (), { left last with pc := resume last.tokens last.pc }), later)

/-- A statement of the body leads from before an index to behind it. -/
def Leaps (levels : Nat) (opener : Token) (middle : Machine) (host : σ) (index : Nat) : Prop :=
  ∃ less before between after later, levels = less + 1 ∧
    Course less opener (opened opener middle) host before between ∧ before.pc < index ∧
    Statement less opener before between ((.ok (), after), later) ∧ index < after.pc

section Walking
variable {levels : Nat} {opener : Token} {middle : Machine} {host : σ}

theorem course_forward {start last : Machine} {later : σ}
    (walked : Course levels opener start host last later) : Forward start last := by
  induction walked with
  | start => exact forward_refl start
  | @step before after between _ _ statement ih =>
    have moved : Leads (fun first _ second => Forward first second) before
        ((stepWith (level? levels)).on before between) :=
      keeps_stepWith forward_steady (level_keeps forward_steady levels) before between
    rw [statement.ran] at moved
    exact forward_trans ih moved

/-- The walk stops at every token in the column, unless a statement leads past it. -/
theorem leaps_of_course {last : Machine} {later : σ} {index : Nat} {token : Token}
    (walked : Course levels opener (opened opener middle) host last later)
    (ahead : middle.pc ≤ index) (held : middle.tokens[index]? = some token)
    (column : token.position.column = opener.position.column) :
    last.pc ≤ index ∨ Leaps (levels + 1) opener middle host index := by
  induction walked with
  | start => exact .inl ahead
  | @step before after between later walked statement ih =>
    rcases ih with behind | leaps
    · obtain ⟨other, next, outside⟩ := statement.inside
      have elsewhere : before.pc ≠ index := by
        intro here
        have same : before.tokens[before.pc]? = some token := by
          rw [(course_forward walked).tokens, here]
          exact held
        cases next.symm.trans same
        exact outside column
      by_cases past : index < after.pc
      · exact .inr ⟨levels, before, between, after, later, rfl, walked, by omega, statement, past⟩
      · exact .inl (Nat.le_of_not_lt past)
    · exact .inr leaps

end Walking

section Conditionals
variable {levels : Nat} {opener : Token} {machine middle : Machine} {host between : σ}

omit [Host (StateM σ)] in
theorem on_bodyContinues (opener : Token) (machine : Machine) (host : σ) :
    (bodyContinues opener : Exec (StateM σ) Bool).on machine host =
      match machine.current? with
      | none => ((.error (unterminated opener), machine), host)
      | some token =>
        ((.ok (decide (token.position.column ≠ opener.position.column)), machine), host) := by
  unfold bodyContinues
  rw [on_bind, on_current?]
  cases machine.current? <;> rfl

omit [Host (StateM σ)] in
/-- The body goes on where a token comes next that is not in the column. -/
theorem inside_of_bodyContinues {after : Machine} {later : σ}
    (asked : (bodyContinues opener).on machine host = ((.ok true, after), later)) :
    (∃ token, machine.current? = some token ∧
      token.position.column ≠ opener.position.column) ∧ after = machine ∧ later = host := by
  rw [on_bodyContinues] at asked
  split at asked
  · cases asked
  · rename_i token next
    simp only [Prod.mk.injEq, Except.ok.injEq, decide_eq_true_eq] at asked
    obtain ⟨⟨column, rfl⟩, rfl⟩ := asked
    exact ⟨⟨token, next, column⟩, rfl, rfl⟩

omit [Host (StateM σ)] in
theorem on_takeEnd_resume (machine : Machine) (host : σ) :
    (takeEnd : Exec (StateM σ) Unit).on machine host =
      ((.ok (), { machine with pc := resume machine.tokens machine.pc }), host) := by
  unfold takeEnd resume
  rw [on_bind, on_current?, Machine.current?]
  simp only
  split <;> rfl

/-- What a block makes of the way in which its body ends. -/
def afterBody : (Except Stop Unit × Machine) × σ → (Except Stop Unit × Machine) × σ
  | ((.ok (), last), later) =>
    ((.ok (), { left last with pc := resume last.tokens last.pc }), later)
  | ((.error stop, last), later) => ((.error stop, left last), later)

/-- The loop of the body goes from statement to statement. -/
theorem ends_of_loop {start : Unit} {now : Machine} {meanwhile : σ}
    {result : (Except Stop Unit × Machine) × σ}
    (looped : Loop (bodyContinues opener) (fun _ => stepWith (level? levels)) start now meanwhile
      result)
    (walked : Course levels opener (opened opener middle) host now meanwhile) :
    ∃ ending, Ends opener middle host (levels + 1) ending (afterBody result) := by
  induction looped with
  | refused asked =>
    rw [on_bodyContinues] at asked
    split at asked
    · rename_i ended
      cases asked
      exact ⟨_, .ranOut walked ended⟩
    · cases asked
  | finished asked =>
    rw [on_bodyContinues] at asked
    split at asked
    · cases asked
    · rename_i token next
      simp only [Prod.mk.injEq, Except.ok.injEq, decide_eq_false_iff_not] at asked
      obtain ⟨⟨column, rfl⟩, rfl⟩ := asked
      exact ⟨_, .reached walked next (Decidable.of_not_not column)⟩
  | broken asked ran =>
    obtain ⟨inside, rfl, rfl⟩ := inside_of_bodyContinues asked
    exact ⟨_, .interrupted walked ⟨inside, ran⟩⟩
  | again asked ran _ ih =>
    obtain ⟨inside, rfl, rfl⟩ := inside_of_bodyContinues asked
    exact ih (.step walked ⟨inside, ran⟩)

/-- Where a level is left, a block whose guard holds is its body and what comes after it. -/
theorem on_conditional_taken
    (guard : (boolean (level? (levels + 1)) "IF").on machine host =
      ((.ok true, middle), between)) :
    (conditional (level? (levels + 1)) opener).on machine host =
      afterBody ((whileTokens (bodyContinues opener) (fun _ => stepWith (level? levels)) ()).on
        (opened opener middle) between) := by
  have body : (inside (level? (levels + 1)) opener.position fun inner =>
      whileTokens (bodyContinues opener) (fun _ => inner.step) () : Exec (StateM σ) Unit).on
        (middle.record (.decided opener.position.line true)) between =
      match (whileTokens (bodyContinues opener) (fun _ => stepWith (level? levels)) ()).on
        (opened opener middle) between with
      | ((result, last), later) => ((result, left last), later) := on_counted_entered _ _ _
  unfold conditional
  rw [on_bind, guard]
  simp only
  rw [on_bind, on_record]
  simp only [↓reduceIte]
  rw [on_bind, body]
  rcases (whileTokens (bodyContinues opener) (fun _ => stepWith (level? levels)) ()).on
    (opened opener middle) between with ⟨⟨stop | ⟨⟩, last⟩, later⟩
  · rfl
  · exact on_takeEnd_resume (left last) later

/-- A block whose guard holds ends in one of the four ways. -/
theorem conditional_ends
    (guard : (boolean (level? levels) "IF").on machine host = ((.ok true, middle), between)) :
    ∃ ending, Ends opener middle between levels ending
      ((conditional (level? levels) opener).on machine host) := by
  cases levels with
  | zero =>
    refine ⟨.tooDeep, ?_⟩
    have refused : (conditional (level? 0) opener).on machine host = ((.error (.fault (.executed
        (.nestingTooDeep Machine.nestingLimit opener.position))),
        middle.record (.decided opener.position.line true)), between) := by
      unfold conditional
      rw [on_bind, guard]
      rfl
    rw [refused]
    exact .tooDeep
  | succ levels =>
    rw [on_conditional_taken guard]
    exact ends_of_loop (loops_end.body levels opener (opened opener middle) between) .start

/-- A block whose guard does not hold is skipped up to its end. -/
theorem on_conditional_skipped
    (guard : (boolean (level? levels) "IF").on machine host = ((.ok false, middle), between)) :
    (conditional (level? levels) opener).on machine host =
      match endOfBlock middle.tokens middle.pc opener.position.column with
      | some stop =>
        ((.ok (), { middle.record (.decided opener.position.line false) with
          pc := resume middle.tokens stop }), between)
      | none =>
        ((.error (unterminated opener), middle.record (.decided opener.position.line false)),
          between) := by
  unfold conditional
  rw [on_bind, guard]
  simp only
  rw [on_bind, on_record]
  simp only [Bool.false_eq_true, ↓reduceIte]
  rw [on_bind, on_get]
  simp only [Machine.record]
  cases endOfBlock middle.tokens middle.pc opener.position.column with
  | none => rfl
  | some stop => exact on_takeEnd_resume _ between

/-- A block that ends at a token in its column does so at one that stands ahead of its guard. -/
theorem held_of_reached {index : Nat} {ended : (Except Stop Unit × Machine) × σ}
    (ends : Ends opener middle between levels (.reached index) ended) :
    middle.pc ≤ index ∧ (∃ token, middle.tokens[index]? = some token ∧
      token.position.column = opener.position.column) ∧
      ended.1.1 = .ok () ∧ ended.1.2.pc = resume middle.tokens index := by
  cases ends with
  | reached walked next column =>
    obtain ⟨tokens, counter, _, _⟩ := course_forward walked
    rw [Machine.current?, tokens] at next
    refine ⟨counter, ⟨_, next, column⟩, rfl, ?_⟩
    change resume _ _ = _
    rw [tokens]
    rfl

/-- A block that does not end at a token in its column fails. -/
theorem failed_of_unreached {ending : Ending} {ended : (Except Stop Unit × Machine) × σ}
    (ends : Ends opener middle between levels ending ended)
    (unreached : ∀ index, ending ≠ .reached index) : ∃ fault, ended.1.1 = .error fault := by
  cases ends with
  | reached => exact (unreached _ rfl).elim
  | _ => exact ⟨_, rfl⟩

/-- If no statement leads past the end, the walk does not come to a token in the column behind
it. -/
theorem reached_end {stop index : Nat} {ended : (Except Stop Unit × Machine) × σ}
    (first : endOfBlock middle.tokens middle.pc opener.position.column = some stop)
    (bounded : ¬ Leaps levels opener middle between stop)
    (ends : Ends opener middle between levels (.reached index) ended) : index = stop := by
  obtain ⟨ahead, ⟨closer, closes, wanted⟩, clear⟩ := firstFrom_eq_some_iff.mp first
  obtain ⟨after, ⟨token, held, column⟩, _⟩ := held_of_reached ends
  have low : stop ≤ index := by
    refine Nat.le_of_not_lt fun earlier => ?_
    exact of_decide_eq_false (clear index after earlier token held) column
  cases ends with
  | reached walked _ _ =>
    rcases leaps_of_course walked ahead closes (of_decide_eq_true wanted) with high | leaps
    · exact Nat.le_antisymm high low
    · exact (bounded leaps).elim

/-- A body that leads to the end of the program has been led past every token in the column. -/
theorem leaps_of_ranOut {index : Nat} {token : Token} {ended : (Except Stop Unit × Machine) × σ}
    (ends : Ends opener middle between levels .ranOut ended) (ahead : middle.pc ≤ index)
    (held : middle.tokens[index]? = some token)
    (column : token.position.column = opener.position.column) :
    Leaps levels opener middle between index := by
  cases ends with
  | ranOut walked finished =>
    rcases leaps_of_course walked ahead held column with before | leaps
    · have inside : index < middle.tokens.size := (Array.getElem?_eq_some_iff.mp held).1
      have outside := Array.getElem?_eq_none_iff.mp finished
      rw [(course_forward walked).tokens] at outside
      have same : (opened opener middle).tokens = middle.tokens := rfl
      rw [same] at outside
      omega
    · exact leaps

/-- A conditional block, from when its guard has been evaluated, in any state and at any nesting
level. If no token ahead is in its column, it fails, be it skipped or executed. If one is, a block
that is skipped goes on there. A block that is executed goes on there too, unless it is stopped on
the way or a statement of its body leads past that token; and it is found unterminated only if its
body is led past every token in the column. -/
theorem conditional_ends_at_block (opener : Token) {holds : Bool}
    (guard : (boolean (level? levels) "IF").on machine host = ((.ok holds, middle), between)) :
    let ended := (conditional (level? levels) opener).on machine host
    let stop? := endOfBlock middle.tokens middle.pc opener.position.column
    (holds = false →
      (stop? = none → ended.1.1 = .error (unterminated opener)) ∧
      ∀ stop, stop? = some stop →
        ended.1.1 = .ok () ∧ ended.1.2.pc = resume middle.tokens stop) ∧
    (holds = true → ∃ ending, Ends opener middle between levels ending ended ∧
      (stop? = none → ∃ fault, ended.1.1 = .error fault) ∧
      (∀ stop, stop? = some stop → ¬ Leaps levels opener middle between stop →
        ending ≠ .ranOut ∧ ∀ index, ending = .reached index →
          ended.1.1 = .ok () ∧ ended.1.2.pc = resume middle.tokens stop) ∧
      (ending = .ranOut → ∀ index token, middle.pc ≤ index →
        middle.tokens[index]? = some token →
        token.position.column = opener.position.column →
        Leaps levels opener middle between index)) := by
  intro ended stop?
  constructor
  · rintro rfl
    have skipped : ended = _ := on_conditional_skipped guard
    rw [skipped]
    constructor
    · intro endless
      rw [show endOfBlock middle.tokens middle.pc opener.position.column = none from endless]
    · intro stop first
      rw [show endOfBlock middle.tokens middle.pc opener.position.column = some stop from first]
      exact ⟨rfl, rfl⟩
  · rintro rfl
    obtain ⟨ending, ends⟩ : ∃ ending, Ends opener middle between levels ending ended :=
      conditional_ends guard
    refine ⟨ending, ends, ?_, ?_, ?_⟩
    · intro endless
      refine failed_of_unreached ends ?_
      rintro index rfl
      obtain ⟨ahead, ⟨token, held, column⟩, _⟩ := held_of_reached ends
      exact of_decide_eq_false (firstFrom_eq_none_iff.mp endless index token ahead held) column
    · intro stop first bounded
      constructor
      · rintro rfl
        obtain ⟨ahead, ⟨closer, closes, wanted⟩, _⟩ := firstFrom_eq_some_iff.mp first
        exact bounded (leaps_of_ranOut ends ahead closes (of_decide_eq_true wanted))
      · rintro index rfl
        obtain ⟨_, _, succeeded, counter⟩ := held_of_reached ends
        rw [reached_end first bounded ends] at counter
        exact ⟨succeeded, counter⟩
    · rintro rfl index token ahead held column
      exact leaps_of_ranOut ends ahead held column

end Conditionals

end Bodies

/-- A block with one value in it. -/
def plainBlock : Array Token :=
  #[⟨.conditional, .absent, ⟨1, 0⟩⟩, ⟨.boolean, .boolean true, ⟨1, 3⟩⟩,
    ⟨.boolean, .boolean false, ⟨2, 2⟩⟩, ⟨.blockEnd, .absent, ⟨3, 0⟩⟩]

/-- The one statement of the block leads to its end and not past it. -/
theorem plainBlock_bounded :
    ¬ Leaps 1 ⟨.conditional, .absent, ⟨1, 0⟩⟩ { Machine.load plainBlock 4 with pc := 2 }
      (Transcript.ofInput []) 3 := by
  rintro ⟨less, before, between, after, later, ⟨⟩, walked, low, statement, high⟩
  cases walked with
  | start =>
    cases statement.ran
    exact absurd high (by decide)
  | @step first _ meanwhile _ walked statement =>
    have start : 2 ≤ first.pc := (course_forward walked).counter
    obtain ⟨token, next, _⟩ := statement.inside
    have moved := (step_forward 0 meanwhile (inside_of_current next)).2
    rw [statement.ran] at moved
    have further : first.pc < before.pc := moved
    omega

theorem conditional_ends_at_block_plain :
    let opener : Token := ⟨.conditional, .absent, ⟨1, 0⟩⟩
    let start := { Machine.load plainBlock 4 with pc := 1 }
    let middle := { Machine.load plainBlock 4 with pc := 2 }
    let host := Transcript.ofInput []
    let ended := (conditional (level? 1) opener).on start host
    (boolean (level? 1) "IF").on start host = ((.ok true, middle), host) ∧
      endOfBlock plainBlock 2 0 = some 3 ∧ ∃ ending, Ends opener middle host 1 ending ended ∧
        ending ≠ .ranOut ∧ ∀ index, ending = .reached index → ended.1.2.pc = 4 := by
  intro opener start middle host ended
  have guard : (boolean (level? 1) "IF").on start host = ((.ok true, middle), host) := rfl
  have first : endOfBlock plainBlock 2 0 = some 3 := rfl
  obtain ⟨ending, ends, _, bounded, _⟩ := (conditional_ends_at_block opener guard).2 rfl
  obtain ⟨terminated, reached⟩ := bounded 3 first plainBlock_bounded
  exact ⟨guard, first, ending, ends, terminated, fun index here => (reached index here).2⟩

/-- A block whose body jumps to a block further down. -/
def detour : Array Token :=
  #[⟨.conditional, .absent, ⟨1, 0⟩⟩, ⟨.boolean, .boolean true, ⟨1, 3⟩⟩,
    ⟨.jump, .label "done", ⟨2, 2⟩⟩, ⟨.conditional, .absent, ⟨2, 12⟩⟩,
    ⟨.boolean, .boolean true, ⟨2, 15⟩⟩, ⟨.blockEnd, .absent, ⟨3, 0⟩⟩,
    ⟨.labelled, .label "done", ⟨4, 0⟩⟩, ⟨.boolean, .boolean true, ⟨5, 2⟩⟩,
    ⟨.blockEnd, .absent, ⟨6, 0⟩⟩]

/-- The block has an end, which it would go on at if it were skipped, but its jump leads past that
to the end of the program, and so it is found unterminated. -/
theorem detour_unterminated :
    let opener : Token := ⟨.conditional, .absent, ⟨1, 0⟩⟩
    let start := { Machine.load detour 4 with pc := 1 }
    let host := Transcript.ofInput []
    (boolean (level? 2) "IF").on start host = ((.ok true, { start with pc := 2 }), host) ∧
      endOfBlock detour 2 0 = some 5 ∧
      ((conditional (level? 2) opener).on start host).1.1 = .error (unterminated opener) ∧
      (call (Machine.load detour 4) host).1.1 =
        .error (.executed (.unterminatedBlock "IF" ⟨1, 0⟩)) :=
  ⟨rfl, rfl, rfl, rfl⟩

end StackScript.BlockEnds
