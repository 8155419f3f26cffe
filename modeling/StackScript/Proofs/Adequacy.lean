import Mathlib.Control.Monad.Basic
import StackScript.Host.Transcript
import StackScript.Proofs.Evaluation
import StackScript.Proofs.Nesting

/-! Structured programs mean what they say. The machine knows no statements: it finds the end of a
block by its column, and the end of a printed line by its line. In the layout of a structured
program these are where the tree has them, so the machine does statement by statement what the
meaning of the tree says. -/
namespace StackScript.Adequacy
open Exec Walk Progress Evaluation Nesting

section Layout
variable {line : Nat} {bound? : Option Nat} {tokens : Array Token} {index : Nat}

/-- Whether a column is to the right of a bound, if one is given. -/
def isRight (bound? : Option Nat) (column : Nat) : Bool := bound?.all (· < column)

theorem right_trans {column further : Nat} (right : isRight bound? column = true)
    (less : column < further) : isRight bound? further = true := by
  rcases bound? with _ | bound
  · rfl
  · have before : bound < column := by simpa [isRight] using right
    simpa [isRight] using Nat.lt_trans before less

theorem mem_of_inLine {list : List Token} (placed : Structured.inLine line bound? list = true)
    {token : Token} (member : token ∈ list) :
    token.position.line = line ∧ isRight bound? token.position.column = true := by
  have both := List.all_eq_true.mp placed token member
  simpa [isRight] using both

theorem inLine_append {first second : List Token} :
    Structured.inLine line bound? (first ++ second) = true ↔
      Structured.inLine line bound? first = true ∧ Structured.inLine line bound? second = true := by
  simp only [Structured.inLine, List.all_append, Bool.and_eq_true]

/-- All tokens of a program stand to the right of its bound. -/
theorem right_of_isLaidOut {program : Structured}
    (laidOut : program.isLaidOut line bound? = true) {token : Token}
    (member : token ∈ program.tokens) : isRight bound? token.position.column = true := by
  induction program generalizing line bound? with
  | done => cases member
  | assign declare? keyword value target name place rest ih =>
    simp only [Structured.isLaidOut, Bool.and_eq_true] at laidOut
    rcases List.mem_append.mp member with here | later
    · exact (mem_of_inLine laidOut.1.2 here).2
    · exact ih laidOut.2 later
  | print keyword values rest ih =>
    simp only [Structured.isLaidOut, Bool.and_eq_true] at laidOut
    rcases List.mem_append.mp member with here | later
    · exact (mem_of_inLine laidOut.1.2 here).2
    · exact ih laidOut.2 later
  | conditional keyword guard body closer rest ihBody ihRest =>
    simp only [Structured.isLaidOut, Bool.and_eq_true, decide_eq_true_eq] at laidOut
    obtain ⟨⟨⟨⟨⟨_, placed⟩, inner⟩, _⟩, column⟩, further⟩ := laidOut
    have opened : isRight bound? keyword.column = true :=
      (mem_of_inLine placed List.mem_cons_self).2
    rcases List.mem_append.mp member with front | back
    · rcases List.mem_append.mp front with here | inside
      · exact (mem_of_inLine placed here).2
      · have deeper : keyword.column < token.position.column := by
          simpa [isRight] using ihBody inner inside
        exact right_trans opened deeper
    · rcases List.mem_cons.mp back with rfl | later
      · change isRight bound? closer.column = true
        rwa [column]
      · exact ihRest further later

/-- A program starts in its first line or below it. -/
theorem line_of_isLaidOut {program : Structured} (laidOut : program.isLaidOut line bound? = true)
    {first : Token} (starts : program.tokens.head? = some first) :
    line ≤ first.position.line := by
  cases program with
  | done => cases starts
  | assign declare? keyword value target name place rest =>
    simp only [Structured.isLaidOut, Bool.and_eq_true, decide_eq_true_eq] at laidOut
    have member : first ∈ Structured.assignTokens declare? keyword value target name place := by
      rcases declare? with _ | declared
      · cases starts
        exact List.mem_cons_self
      · cases starts
        exact List.mem_cons_self
    rw [(mem_of_inLine laidOut.1.2 member).1]
    exact laidOut.1.1
  | print keyword values rest =>
    simp only [Structured.isLaidOut, Bool.and_eq_true, decide_eq_true_eq] at laidOut
    cases starts
    exact laidOut.1.1
  | conditional keyword guard body closer rest =>
    simp only [Structured.isLaidOut, Bool.and_eq_true, decide_eq_true_eq] at laidOut
    cases starts
    exact laidOut.1.1.1.1.1

theorem mem_of_ahead {list : List Token} (ahead : Ahead tokens index list) {place : Nat}
    (low : index ≤ place) (high : place < index + list.length) {token : Token}
    (held : tokens[place]? = some token) : token ∈ list := by
  induction list generalizing index with
  | nil =>
    rw [List.length_nil] at high
    omega
  | cons first list ih =>
    rcases Nat.eq_or_lt_of_le low with same | later
    · rw [← same, ahead.1] at held
      cases held
      exact List.mem_cons_self
    · rw [List.length_cons] at high
      exact List.mem_cons_of_mem _ (ih ahead.2 later (by omega))

/-- A block whose body stands to the right of its column ends at its closing token. -/
theorem endOfBlock_of_isLaidOut {body : Structured} {column : Nat}
    (laidOut : body.isLaidOut line (some column) = true) {closer : Token}
    {rest : List Token} (ahead : Ahead tokens index (body.tokens ++ closer :: rest))
    (same : closer.position.column = column) :
    endOfBlock tokens index column = some (index + body.tokens.length) := by
  obtain ⟨inside, closes, _⟩ := ahead_append.mp ahead
  refine firstFrom_eq_some_iff.mpr ⟨Nat.le_add_right _ _, ⟨closer, closes, ?_⟩, ?_⟩
  · exact decide_eq_true same
  · intro earlier low high token held
    have right : column < token.position.column := by
      simpa [isRight] using right_of_isLaidOut laidOut (mem_of_ahead inside low high held)
    exact decide_eq_false (Nat.ne_of_gt right)

end Layout

section Performing

/-- The transcript after more lines of output. -/
def written (host : Transcript) (lines : List String) : Transcript :=
  { host with output := host.output ++ lines }

@[simp] theorem written_nil (host : Transcript) : written host [] = host := by
  simp [written]

@[simp] theorem written_written (host : Transcript) (first second : List String) :
    written (written host first) second = written host (first ++ second) := by
  simp [written]

/-- A machine further on, with variables of its own. -/
structure Arrived (before : Machine) (count : Nat) (bindings : Table Value) (after : Machine) :
    Prop where
  tokens : after.tokens = before.tokens
  counter : after.pc = before.pc + count
  stack : after.stack = before.stack
  bindings : after.bindings = bindings
  depth : after.depth = before.depth

theorem arrived_trans {before middle after : Machine} {first second whole : Nat}
    {between bindings : Table Value} (early : Arrived before first between middle)
    (late : Arrived middle second bindings after) (sum : first + second = whole) :
    Arrived before whole bindings after where
  tokens := late.tokens.trans early.tokens
  counter := by
    rw [late.counter, early.counter]
    omega
  stack := late.stack.trans early.stack
  bindings := late.bindings
  depth := late.depth.trans early.depth

theorem arrived_of_reached {before after : Machine} {count : Nat}
    (reached : Reached before count before.stack after) :
    Arrived before count before.bindings after :=
  ⟨reached.tokens, reached.counter, reached.stack, reached.bindings, reached.depth⟩

variable {α β : Type} {machine : Machine} {host : Transcript} {mean : Structured.Meaning}

/-- What an action does is what a meaning says: the lines are printed, and the action ends past
`count` tokens with the variables of the meaning, or with its fault. -/
def Performs (machine : Machine) (host : Transcript) (count : Nat) (mean : Structured.Meaning)
    (result : (Except Stop Unit × Machine) × Transcript) : Prop :=
  match mean.result with
  | .ok bindings =>
    ∃ after, result = ((.ok (), after), written host mean.lines) ∧
      Arrived machine count bindings after
  | .error error => ∃ after, result = ((.error (.fault error), after), written host mean.lines)

theorem performs_silent {count : Nat} {bindings : Table Value} {after : Machine}
    (arrived : Arrived machine count bindings after) :
    Performs machine host count (.silent (.ok bindings)) ((.ok (), after), host) := by
  refine ⟨after, ?_, arrived⟩
  rw [Structured.Meaning.silent, written_nil]

theorem performs_fault {count : Nat} (error : Error) (after : Machine) :
    Performs machine host count (.silent (.error error))
      ((.error (.fault error), after), host) := by
  refine ⟨after, ?_⟩
  rw [Structured.Meaning.silent, written_nil]

theorem performs_trans {count total whole : Nat} {between : Table Value} {middle : Machine}
    {result : (Except Stop Unit × Machine) × Transcript}
    (arrived : Arrived machine count between middle) (rest : Performs middle host total mean result)
    (sum : count + total = whole) : Performs machine host whole mean result := by
  rcases mean with ⟨lines, error | bindings⟩
  · exact rest
  · obtain ⟨after, finished, later⟩ := rest
    exact ⟨after, finished, arrived_trans arrived later sum⟩

/-- An action after one that gives what its reference says. -/
theorem performs_bind {count total whole : Nat} {answer : β → α} {reference : Except Error β}
    {action : Exec (StateM Transcript) α} {next : α → Exec (StateM Transcript) Unit}
    (first : Gives machine host count (fun _ => machine.stack) answer reference
      (action.on machine host))
    (failed : ∀ error, reference = .error error → mean = .silent (.error error))
    (rest : ∀ value middle, reference = .ok value → Reached machine count machine.stack middle →
      Performs middle host total mean ((next (answer value)).on middle host))
    (sum : count + total = whole) :
    Performs machine host whole mean ((action >>= next).on machine host) := by
  rw [on_bind]
  rcases reference with error | value
  · obtain ⟨after, ran, _⟩ := first
    rw [ran, failed error rfl]
    exact performs_fault error after
  · obtain ⟨middle, ran, reached⟩ := first
    rw [ran]
    exact performs_trans (arrived_of_reached reached) (rest value middle rfl reached) sum

end Performing

section Assignments
variable (levels : Nat) {machine : Machine} {host : Transcript}

theorem on_takeKeyword_bind {α : Type} {kind : TokenKind} {token : Token} (keyword : String)
    (next : machine.current? = some token) (same : token.kind = kind)
    (rest : Unit → Exec (StateM Transcript) α) :
    (takeKeyword kind keyword >>= rest).on machine host =
      (rest ()).on { machine with pc := machine.pc + 1 } host := by
  have taken : (takeKeyword kind keyword : Exec (StateM Transcript) Unit).on machine host =
      ((.ok (), { machine with pc := machine.pc + 1 }), host) := by
    unfold takeKeyword
    rw [on_consume_bind next, if_neg (not_not_intro same)]
    rfl
  rw [on_bind, taken]

theorem on_takeTarget_bind {α : Type} {name : String} {place : Position}
    (next : machine.current? = some ⟨.identifier, .name name, place⟩)
    (rest : String → Exec (StateM Transcript) α) :
    (takeTarget >>= rest).on machine host =
      (rest name).on { machine with pc := machine.pc + 1 } host := by
  have taken : (takeTarget : Exec (StateM Transcript) String).on machine host =
      ((.ok name, { machine with pc := machine.pc + 1 }), host) := by
    unfold takeTarget
    rw [on_consume_bind next]
    rfl
  rw [on_bind, taken]

/-- The value, the target and the assignment itself. -/
theorem performs_assign_tail {value : Expression} (formed : value.isWellFormed = true)
    (asked : value.isValue = true) {target place : Position} {name : String}
    (ahead : Ahead machine.tokens machine.pc (value.tokens ++
      [⟨.target, .keyword "TO", target⟩, ⟨.identifier, .name name, place⟩]))
    (room : machine.stack.size < machine.stack.capacity) :
    Performs machine host (value.tokens.length + 2)
      (.silent ((value.evaluate machine.bindings levels).map (machine.bindings.insert name)))
      ((do
        let result ← Exec.value (level? levels)
        takeKeyword .target "TO"
        let name ← takeTarget
        Exec.assign name result : Exec (StateM Transcript) Unit).on machine host) := by
  obtain ⟨here, there⟩ := ahead_append.mp ahead
  refine performs_bind ((executed_of_isWellFormed formed).value asked levels machine host here room)
    ?_ ?_ rfl
  · intro error failed
    rw [failed]
    rfl
  · intro result middle evaluated reached
    rw [← reached.tokens, ← reached.counter] at there
    have named : ({ middle with pc := middle.pc + 1 } : Machine).current? =
        some ⟨.identifier, .name name, place⟩ := there.2.1
    rw [on_takeKeyword_bind "TO" there.1 rfl, on_takeTarget_bind named, on_assign, evaluated]
    refine performs_silent ⟨rfl, rfl, rfl, ?_, rfl⟩
    exact congrArg (Table.insert · name result) reached.bindings

/-- An assignment, with or without a declaration. -/
theorem performs_assign {declare? : Option Position} {value : Expression}
    {keyword target place : Position} {name : String} (formed : value.isWellFormed = true)
    (asked : value.isValue = true)
    (ahead : Ahead machine.tokens machine.pc
      (Structured.assignTokens declare? keyword value target name place))
    (room : machine.stack.size < machine.stack.capacity) :
    Performs machine host (Structured.assignTokens declare? keyword value target name place).length
      (.silent ((value.evaluate machine.bindings levels).map (machine.bindings.insert name)))
      ((stepWith (level? levels)).on machine host) := by
  have length : (Structured.assignTokens declare? keyword value target name place).length =
      declare?.toList.length + 1 + (value.tokens.length + 2) := by
    cases declare? <;> simp [Structured.assignTokens] <;> omega
  rw [length]
  rcases declare? with _ | declared
  · have next : machine.current? = some ⟨.assign, .keyword "ASSIGN", keyword⟩ := ahead.1
    let middle := taken machine ⟨.assign, .keyword "ASSIGN", keyword⟩
    have arrived : Arrived machine 1 machine.bindings middle := ⟨rfl, rfl, rfl, rfl, rfl⟩
    have here : Ahead middle.tokens middle.pc _ := ahead.2
    rw [on_stepWith, next]
    exact performs_trans arrived (performs_assign_tail levels formed asked here room) rfl
  · have next : machine.current? = some ⟨.declare, .keyword "VAR", declared⟩ := ahead.1
    let first := taken machine ⟨.declare, .keyword "VAR", declared⟩
    have following : first.current? = some ⟨.assign, .keyword "ASSIGN", keyword⟩ := ahead.2.1
    let middle := { first with pc := first.pc + 1 }
    have arrived : Arrived machine 2 machine.bindings middle := ⟨rfl, rfl, rfl, rfl, rfl⟩
    have here : Ahead middle.tokens middle.pc _ := ahead.2.2
    rw [on_stepWith, next]
    change Performs machine host _ _ ((takeKeyword .assign "ASSIGN" >>= fun _ => _).on first host)
    rw [on_takeKeyword_bind "ASSIGN" following rfl]
    exact performs_trans arrived (performs_assign_tail levels formed asked here room) rfl

end Assignments

section Lines
variable {levels : Nat} {machine : Machine} {host : Transcript}

theorem on_moreOnLine :
    (moreOnLine : Exec (StateM Transcript) Bool).on machine host =
      ((.ok (machine.current?.any (·.continues machine.lastPlace.line)), machine), host) := rfl

theorem continues_of_startsOperand {token : Token} (starts : startsOperand token.kind = true) :
    token.continues token.position.line = true := by
  unfold Token.continues
  cases kind : token.kind <;> simp_all [startsOperand]

theorem gives_joined {count : Nat} {stack : Stack} {text piece : String}
    {reference : Except Error String} {result : (Except Stop String × Machine) × Transcript}
    (given : Gives machine host count (fun _ => stack) (text ++ piece ++ ·) reference result) :
    Gives machine host count (fun _ => stack) (text ++ ·) (do return piece ++ (← reference))
      result := by
  rcases reference with error | line
  · exact given
  · obtain ⟨after, finished, reached⟩ := given
    refine ⟨after, ?_, reached⟩
    simp only [finished, String.append_assoc]

/-- The values of a line are taken one by one, and the line ends after the last of them. -/
theorem gives_line {values : List Expression} {line : Nat} {bound? : Option Nat}
    (formed : ∀ value ∈ values, value.isWellFormed = true ∧ value.isValue = true)
    (ahead : Ahead machine.tokens machine.pc (values.flatMap Expression.tokens))
    (placed : Structured.inLine line bound? (values.flatMap Expression.tokens) = true)
    (here : machine.lastPlace.line = line)
    (stops : ∀ token, machine.tokens[machine.pc + (values.flatMap Expression.tokens).length]? =
      some token → token.continues line = false)
    (room : machine.stack.size < machine.stack.capacity) {text : String}
    {result : (Except Stop String × Machine) × Transcript}
    (looped : Loop moreOnLine (fun text => return text ++ (← value (level? levels)).text) text
      machine host result) :
    Gives machine host (values.flatMap Expression.tokens).length (fun _ => machine.stack)
      (text ++ ·) (Structured.printed machine.bindings levels values) result := by
  induction values generalizing machine text with
  | nil =>
    have ends : machine.current?.any (·.continues machine.lastPlace.line) = false := by
      rw [here]
      cases next : machine.current? with
      | none => rfl
      | some token => exact stops token next
    have asked : (moreOnLine : Exec (StateM Transcript) Bool).on machine host =
        ((.ok false, machine), host) := by
      rw [on_moreOnLine, ends]
    refine ⟨machine, ?_, reached_refl machine⟩
    rw [loop_finished looped asked]
    simp
  | cons value values ih =>
    obtain ⟨well, asValue⟩ := formed value List.mem_cons_self
    rw [List.flatMap_cons] at ahead placed stops ⊢
    obtain ⟨first, later⟩ := ahead_append.mp ahead
    obtain ⟨opener, more, shape, starts⟩ := head_tokens well
    have next : machine.current? = some opener := (shape ▸ first : Ahead _ _ (opener :: more)).1
    have place : opener.position.line = line := (mem_of_inLine placed (by simp [shape])).1
    have asked : (moreOnLine : Exec (StateM Transcript) Bool).on machine host =
        ((.ok true, machine), host) := by
      rw [on_moreOnLine, next, here, ← place, Option.any_some, continues_of_startsOperand starts]
    have given := (executed_of_isWellFormed well).value asValue levels machine host first room
    rw [Structured.printed]
    rcases evaluated : value.evaluate machine.bindings levels with error | held
    all_goals rw [evaluated] at given
    · obtain ⟨after, ran, stranded⟩ := given
      have failed : (do return text ++ (← Exec.value (level? levels)).text :
          Exec (StateM Transcript) String).on machine host =
            ((.error (.fault error), after), host) := by
        rw [on_bind, ran]
      exact ⟨after, loop_broken looped asked failed, stranded⟩
    · obtain ⟨after, ran, reached⟩ := given
      have passed : (do return text ++ (← Exec.value (level? levels)).text :
          Exec (StateM Transcript) String).on machine host =
            ((.ok (text ++ held.text), after), host) := by
        rw [on_bind, ran]
        rfl
      have last : after.lastPlace.line = line := by
        obtain ⟨token, ends, position⟩ := last_tokens value
        have member : token ∈ value.tokens := List.mem_of_getLast? ends
        rw [lastPlace_of_ahead first reached, ← position]
        exact (mem_of_inLine placed (List.mem_append_left _ member)).1
      rw [← reached.tokens, ← reached.counter] at later
      rw [List.length_append, ← Nat.add_assoc, ← reached.tokens, ← reached.counter] at stops
      have rest := ih (fun other member => formed other (List.mem_cons_of_mem _ member)) later
        (inLine_append.mp placed).2 last stops (by rwa [reached.stack])
        (loop_again looped asked passed)
      rw [reached.bindings, reached.stack] at rest
      exact gives_trans reached (gives_joined rest) List.length_append.symm

theorem on_writeLine_transcript (line : String) :
    (writeLine line : Exec (StateM Transcript) Unit).on machine host =
      ((.ok (), machine.record (.wrote line)), written host [line]) := rfl

/-- A printed line. What follows it stands in another line, or closes a block. -/
theorem performs_print {keyword : Position} {values : List Expression} {bound? : Option Nat}
    (formed : ∀ value ∈ values, value.isWellFormed = true ∧ value.isValue = true)
    (ahead : Ahead machine.tokens machine.pc (Structured.printTokens keyword values))
    (placed : Structured.inLine keyword.line bound? (Structured.printTokens keyword values) = true)
    (stops : ∀ token,
      machine.tokens[machine.pc + (Structured.printTokens keyword values).length]? = some token →
        token.continues keyword.line = false)
    (room : machine.stack.size < machine.stack.capacity) :
    Performs machine host (Structured.printTokens keyword values).length
      (.line machine.bindings (Structured.printed machine.bindings levels values))
      ((stepWith (level? levels)).on machine host) := by
  have next : machine.current? = some ⟨.command .print, .keyword "PRINT", keyword⟩ := ahead.1
  let middle := taken machine ⟨.command .print, .keyword "PRINT", keyword⟩
  have arrived : Arrived machine 1 machine.bindings middle := ⟨rfl, rfl, rfl, rfl, rfl⟩
  have here : middle.lastPlace.line = keyword.line := by
    have before : tokenBefore? middle.tokens middle.pc =
        some ⟨.command .print, .keyword "PRINT", keyword⟩ := ahead.1
    rw [Machine.lastPlace, before]
    rfl
  have following : Ahead middle.tokens middle.pc (values.flatMap Expression.tokens) := ahead.2
  have ends : ∀ token, middle.tokens[middle.pc + (values.flatMap Expression.tokens).length]? =
      some token → token.continues keyword.line = false := by
    intro token held
    refine stops token (Eq.trans (congrArg (machine.tokens[·]?) ?_) held)
    change machine.pc + ((values.flatMap Expression.tokens).length + 1) = machine.pc + 1 + _
    omega
  have given := gives_line formed following (Bool.and_eq_true_iff.mp placed).2 here ends room
    (loops_end.line levels "" middle host)
  rw [arrived.bindings] at given
  rw [on_stepWith, next]
  refine performs_trans arrived (performs_bind given ?_ ?_ (Nat.add_zero _)) (Nat.add_comm _ _)
  · intro error failed
    rw [failed]
    rfl
  · intro line after evaluated reached
    rw [evaluated, on_writeLine_transcript, String.empty_append]
    exact ⟨_, rfl, rfl, rfl, rfl, reached.bindings, rfl⟩

end Lines

section Loops
variable {test : Exec (StateM Transcript) Bool} {body : Unit → Exec (StateM Transcript) Unit}
  {machine : Machine} {host : Transcript} {mean : Structured.Meaning} {levels count : Nat}
  {result : (Except Stop Unit × Machine) × Transcript}

/-- A loop does what a meaning says and then goes on, or ends with the fault of the meaning. -/
def Continues (test : Exec (StateM Transcript) Bool) (body : Unit → Exec (StateM Transcript) Unit)
    (machine : Machine) (host : Transcript) (count : Nat) (mean : Structured.Meaning)
    (result : (Except Stop Unit × Machine) × Transcript) : Prop :=
  match mean.result with
  | .ok bindings =>
    ∃ after, Arrived machine count bindings after ∧
      Loop test body () after (written host mean.lines) result
  | .error error => ∃ after, result = ((.error (.fault error), after), written host mean.lines)

/-- A loop that executes token after token as long as they stand to the right of a bound. -/
structure Drives (test : Exec (StateM Transcript) Bool)
    (body : Unit → Exec (StateM Transcript) Unit) (bound? : Option Nat) (levels depth : Nat) :
    Prop where
  asked {machine : Machine} {token : Token} (host : Transcript)
    (next : machine.current? = some token)
    (right : isRight bound? token.position.column = true) :
    test.on machine host = ((.ok true, machine), host)
  step {machine : Machine} (host : Transcript) (level : machine.depth = depth) :
    (body ()).on machine host = (stepWith (level? levels)).on machine host

/-- One statement of a loop, and what comes after it. -/
theorem continues_step {bound? : Option Nat} {total whole : Nat} {first : Structured.Meaning}
    {second : Table Value → Structured.Meaning}
    (drives : Drives test body bound? levels machine.depth)
    (looped : Loop test body () machine host result)
    (asked : test.on machine host = ((.ok true, machine), host))
    (stepped : Performs machine host count first ((stepWith (level? levels)).on machine host))
    (rest : ∀ bindings after, Arrived machine count bindings after →
      Loop test body () after (written host first.lines) result →
      Continues test body after (written host first.lines) total (second bindings) result)
    (sum : count + total = whole) :
    Continues test body machine host whole (first.andThen second) result := by
  rw [← drives.step host rfl] at stepped
  rcases first with ⟨lines, error | bindings⟩
  · obtain ⟨after, failed⟩ := stepped
    exact ⟨after, loop_broken looped asked failed⟩
  · obtain ⟨after, ran, arrived⟩ := stepped
    have continued := rest bindings after arrived (loop_again looped asked ran)
    unfold Continues at continued ⊢
    simp only [Structured.Meaning.andThen, ← written_written]
    split
    · rename_i final settled
      rw [settled] at continued
      obtain ⟨last, later, again⟩ := continued
      exact ⟨last, arrived_trans arrived later sum, again⟩
    · rename_i error settled
      rwa [settled] at continued

/-- A loop that ends after the part with a meaning does what the meaning says. -/
theorem performs_of_continues (continued : Continues test body machine host count mean result)
    (ends : ∀ bindings after host, Arrived machine count bindings after →
      test.on after host = ((.ok false, after), host)) :
    Performs machine host count mean result := by
  rcases mean with ⟨lines, error | bindings⟩
  · exact continued
  · obtain ⟨after, arrived, looped⟩ := continued
    exact ⟨after, loop_finished looped (ends bindings after _ arrived), arrived⟩

theorem performs_counted {action : Exec (StateM Transcript) Unit}
    (inner : Performs (entered machine) host count mean (action.on (entered machine) host)) :
    Performs machine host count mean ((counted action).on machine host) := by
  rw [on_counted_entered]
  rcases mean with ⟨lines, error | bindings⟩
  · obtain ⟨after, failed⟩ := inner
    rw [failed]
    exact ⟨left after, rfl⟩
  · obtain ⟨after, finished, arrived⟩ := inner
    rw [finished]
    exact ⟨left after, rfl, arrived.tokens, arrived.counter, arrived.stack, arrived.bindings,
      congrArg (· - 1) arrived.depth⟩

/-- The closing token of a block is taken after the block. -/
theorem performs_takeEnd {action : Exec (StateM Transcript) Unit} {closer : Position}
    (performed : Performs machine host count mean (action.on machine host))
    (closes : machine.tokens[machine.pc + count]? = some (Structured.closeToken closer)) :
    Performs machine host (count + 1) mean ((do action; takeEnd).on machine host) := by
  rw [on_bind]
  rcases mean with ⟨lines, error | bindings⟩
  · obtain ⟨after, failed⟩ := performed
    rw [failed]
    exact ⟨after, rfl⟩
  · obtain ⟨after, finished, arrived⟩ := performed
    have next : after.current? = some (Structured.closeToken closer) := by
      rw [Machine.current?, arrived.tokens, arrived.counter]
      exact closes
    rw [finished]
    simp only
    rw [on_takeEnd next rfl]
    exact ⟨_, rfl, arrived.tokens, congrArg (· + 1) arrived.counter, arrived.stack,
      arrived.bindings, arrived.depth⟩

end Loops

section Blocks
variable {levels : Nat} {machine : Machine} {host : Transcript}

/-- A machine in front of tokens that nothing but the end of a block or of the program follows. -/
structure Ready (machine : Machine) (tokens : List Token) : Prop where
  ahead : Ahead machine.tokens machine.pc tokens
  stops (token : Token) (held : machine.tokens[machine.pc + tokens.length]? = some token) :
    token.kind = .blockEnd
  room : machine.stack.size < machine.stack.capacity

theorem ready_of_arrived {front back : List Token} {after : Machine} {bindings : Table Value}
    (ready : Ready machine (front ++ back))
    (arrived : Arrived machine front.length bindings after) : Ready after back where
  ahead := by
    rw [arrived.tokens, arrived.counter]
    exact (ahead_append.mp ready.ahead).2
  stops token held := by
    rw [arrived.tokens, arrived.counter, Nat.add_assoc, ← List.length_append] at held
    exact ready.stops token held
  room := by
    rw [arrived.stack]
    exact ready.room

/-- What follows a statement of a sequence does not continue its line. -/
theorem line_ends {front : List Token} {rest : Structured} {line : Nat} {bound? : Option Nat}
    (ready : Ready machine (front ++ rest.tokens))
    (laidOut : rest.isLaidOut (line + 1) bound? = true) {token : Token}
    (held : machine.tokens[machine.pc + front.length]? = some token) :
    token.continues line = false := by
  obtain ⟨_, there⟩ := ahead_append.mp ready.ahead
  rcases shape : rest.tokens with _ | ⟨first, more⟩
  · have length : (front ++ rest.tokens).length = front.length := by simp [shape]
    have closes := ready.stops token (by rwa [length])
    simp [Token.continues, closes]
  · rw [shape] at there
    obtain rfl := Option.some.inj (there.1.symm.trans held)
    have below : line + 1 ≤ first.position.line := line_of_isLaidOut laidOut (by rw [shape]; rfl)
    have other : first.position.line ≠ line := by omega
    simp [Token.continues, other]

/-- A loop does not end where a statement starts. -/
theorem asks_for_statement {test : Exec (StateM Transcript) Bool}
    {body : Unit → Exec (StateM Transcript) Unit} {program : Structured} {line : Nat}
    {bound? : Option Nat} (drives : Drives test body bound? levels machine.depth)
    (laidOut : program.isLaidOut line bound? = true) (ready : Ready machine program.tokens)
    (starts : program ≠ .done) : test.on machine host = ((.ok true, machine), host) := by
  have some : ∃ first more, program.tokens = first :: more := by
    cases program with
    | done => exact absurd rfl starts
    | assign declare? => cases declare? <;> exact ⟨_, _, rfl⟩
    | print => exact ⟨_, _, rfl⟩
    | conditional => exact ⟨_, _, rfl⟩
  obtain ⟨first, more, shape⟩ := some
  have next : machine.current? = some first := (shape ▸ ready.ahead : Ahead _ _ (first :: more)).1
  exact drives.asked host next (right_of_isLaidOut laidOut (shape ▸ List.mem_cons_self))

/-- What a body does in the loop of its block. -/
def Embodied (opener : Token) (body : Structured) : Prop :=
  ∀ less (machine : Machine) (host : Transcript) result, Ready machine body.tokens →
    Loop (bodyContinues opener) (fun _ => stepWith (level? less)) () machine host result →
    Continues (bodyContinues opener) (fun _ => stepWith (level? less)) machine host
      body.tokens.length (body.meaning less machine.bindings) result

theorem body_ends {opener token : Token} (next : machine.current? = some token)
    (same : token.position.column = opener.position.column) :
    (bodyContinues opener : Exec (StateM Transcript) Bool).on machine host =
      ((.ok false, machine), host) := by
  unfold bodyContinues
  rw [on_bind, on_current?, next]
  simp only [same, ne_eq, not_true_eq_false, decide_false]
  rfl

theorem body_goes_on {opener token : Token} (next : machine.current? = some token)
    (right : opener.position.column < token.position.column) :
    (bodyContinues opener : Exec (StateM Transcript) Bool).on machine host =
      ((.ok true, machine), host) := by
  have other : token.position.column ≠ opener.position.column := Nat.ne_of_gt right
  unfold bodyContinues
  rw [on_bind, on_current?, next]
  simp only [ne_eq, other, not_false_eq_true, decide_true]
  rfl

variable (host) in
/-- A body that is executed, with its closing token. -/
theorem performs_body {opener : Token} {body : Structured} {closer : Position} {rest : List Token}
    (embodied : Embodied opener body) (column : closer.column = opener.position.column)
    (ahead : Ahead machine.tokens machine.pc
      (body.tokens ++ Structured.closeToken closer :: rest))
    (room : machine.stack.size < machine.stack.capacity) :
    Performs machine host (body.tokens.length + 1)
      (.block opener.position machine.bindings (fun less => body.meaning less machine.bindings)
        (.ok true) levels)
      ((do
        inside (level? levels) opener.position fun inner =>
          whileTokens (bodyContinues opener) (fun _ => inner.step) ()
        takeEnd : Exec (StateM Transcript) Unit).on machine host) := by
  obtain ⟨here, closes, _⟩ := ahead_append.mp ahead
  refine performs_takeEnd ?_ closes
  cases levels with
  | zero => exact performs_fault _ machine
  | succ less =>
    have ready : Ready (entered machine) body.tokens := by
      refine ⟨here, ?_, room⟩
      intro token held
      obtain rfl := Option.some.inj (closes.symm.trans held)
      rfl
    refine performs_counted (performs_of_continues
      (embodied less (entered machine) host _ ready (loops_end.body less opener _ host)) ?_)
    intro bindings after between arrived
    have next : after.current? = some (Structured.closeToken closer) := by
      rw [Machine.current?, arrived.tokens, arrived.counter]
      exact closes
    exact body_ends next column

variable (host) in
/-- A body that is passed over, with its closing token. -/
theorem performs_skipped {opener : Token} {body : Structured} {line : Nat} {closer : Position}
    {rest : List Token} (laidOut : body.isLaidOut line (some opener.position.column) = true)
    (column : closer.column = opener.position.column)
    (ahead : Ahead machine.tokens machine.pc
      (body.tokens ++ Structured.closeToken closer :: rest)) :
    Performs machine host (body.tokens.length + 1) (.silent (.ok machine.bindings))
      ((do
        match endOfBlock machine.tokens machine.pc opener.position.column with
        | some stop => goTo stop
        | none => raise (.executed (.unterminatedBlock "IF" opener.position))
        takeEnd : Exec (StateM Transcript) Unit).on machine host) := by
  rw [endOfBlock_of_isLaidOut laidOut ahead column]
  refine performs_takeEnd ?_ (ahead_append.mp ahead).2.1
  exact performs_silent ⟨rfl, rfl, rfl, rfl, rfl⟩

variable (levels host) in
/-- A conditional block, whether its guard holds or not. -/
theorem performs_conditional {keyword closer : Position} {guard : Expression} {body : Structured}
    {line : Nat} {rest : List Token} (formed : guard.isWellFormed = true)
    (plain : guard.isBare = false)
    (embodied : Embodied ⟨.conditional, .absent, keyword⟩ body)
    (laidOut : body.isLaidOut line (some keyword.column) = true)
    (column : closer.column = keyword.column)
    (ahead : Ahead machine.tokens machine.pc (Structured.guardTokens keyword guard ++
      (body.tokens ++ Structured.closeToken closer :: rest)))
    (room : machine.stack.size < machine.stack.capacity) :
    Performs machine host
      ((Structured.guardTokens keyword guard).length + (body.tokens.length + 1))
      (.block keyword machine.bindings (fun less => body.meaning less machine.bindings)
        (Structured.guardHolds machine.bindings levels guard) levels)
      ((stepWith (level? levels)).on machine host) := by
  obtain ⟨⟨next, here⟩, there⟩ := ahead_append.mp ahead
  let opener : Token := ⟨.conditional, .absent, keyword⟩
  let first := taken machine opener
  have arrived : Arrived machine 1 machine.bindings first := ⟨rfl, rfl, rfl, rfl, rfl⟩
  have following : Ahead first.tokens first.pc guard.tokens := here
  have space : first.stack.size < first.stack.capacity := room
  have given := gives_boolean levels host (executed_of_isWellFormed formed) plain following space
    "IF"
  have current : machine.current? = some opener := next
  have length : 1 + (guard.tokens.length + (body.tokens.length + 1)) =
      (Structured.guardTokens keyword guard).length + (body.tokens.length + 1) := by
    simp [Structured.guardTokens]
    omega
  rw [on_stepWith, current]
  refine performs_trans arrived (performs_bind given ?_ ?_ rfl) length
  · intro error failed
    rw [show Structured.guardHolds machine.bindings levels guard = .error error from failed]
    rfl
  · intro flag middle held reached
    rw [show Structured.guardHolds machine.bindings levels guard = .ok flag from held]
    have place : machine.pc + (Structured.guardTokens keyword guard).length = middle.pc := by
      rw [reached.counter]
      change machine.pc + (guard.tokens.length + 1) = machine.pc + 1 + guard.tokens.length
      omega
    rw [place, show machine.tokens = middle.tokens from reached.tokens.symm] at there
    rw [show machine.bindings = middle.bindings from reached.bindings.symm]
    let decided := middle.record (.decided keyword.line flag)
    have same : Arrived middle 0 middle.bindings decided := ⟨rfl, rfl, rfl, rfl, rfl⟩
    have inside : Ahead decided.tokens decided.pc _ := there
    have free : decided.stack.size < decided.stack.capacity := by
      change middle.stack.size < middle.stack.capacity
      rwa [reached.stack]
    rw [on_bind, on_record]
    cases flag with
    | true =>
      exact performs_trans same (performs_body host embodied column inside free) (Nat.zero_add _)
    | false =>
      exact performs_trans same (performs_skipped host laidOut column inside) (Nat.zero_add _)

end Blocks

/-- A sequence of statements in a loop that takes the tokens to the right of its bound. -/
theorem continues_of_isLaidOut {program : Structured} {line levels : Nat} {bound? : Option Nat}
    {test : Exec (StateM Transcript) Bool} {body : Unit → Exec (StateM Transcript) Unit}
    {machine : Machine} {host : Transcript} {result : (Except Stop Unit × Machine) × Transcript}
    (formed : program.isWellFormed = true) (laidOut : program.isLaidOut line bound? = true)
    (drives : Drives test body bound? levels machine.depth) (ready : Ready machine program.tokens)
    (looped : Loop test body () machine host result) :
    Continues test body machine host program.tokens.length
      (program.meaning levels machine.bindings) result := by
  induction program generalizing line levels bound? test body machine host result with
  | done =>
    refine ⟨machine, ⟨rfl, rfl, rfl, rfl, rfl⟩, ?_⟩
    change Loop test body () machine (written host []) result
    rwa [written_nil]
  | assign declare? keyword value target name place rest ih =>
    have asked : test.on machine host = ((.ok true, machine), host) :=
      asks_for_statement drives laidOut ready Structured.noConfusion
    simp only [Structured.isWellFormed, Bool.and_eq_true] at formed
    simp only [Structured.isLaidOut, Bool.and_eq_true] at laidOut
    obtain ⟨here, _⟩ := ahead_append.mp ready.ahead
    refine continues_step drives looped asked
      (performs_assign levels formed.1.1 formed.1.2 here ready.room) ?_ List.length_append.symm
    intro bindings after arrived again
    have continued := ih formed.2 laidOut.2 (arrived.depth ▸ drives)
      (ready_of_arrived ready arrived) again
    rwa [arrived.bindings] at continued
  | print keyword values rest ih =>
    have asked : test.on machine host = ((.ok true, machine), host) :=
      asks_for_statement drives laidOut ready Structured.noConfusion
    simp only [Structured.isWellFormed, Bool.and_eq_true, List.all_eq_true] at formed
    simp only [Structured.isLaidOut, Bool.and_eq_true] at laidOut
    obtain ⟨here, _⟩ := ahead_append.mp ready.ahead
    refine continues_step drives looped asked
      (performs_print formed.1 here laidOut.1.2 (fun _ => line_ends ready laidOut.2) ready.room) ?_
      List.length_append.symm
    intro bindings after arrived again
    have continued := ih formed.2 laidOut.2 (arrived.depth ▸ drives)
      (ready_of_arrived ready arrived) again
    rwa [arrived.bindings] at continued
  | conditional keyword guard block closer rest ihBlock ihRest =>
    have asked : test.on machine host = ((.ok true, machine), host) :=
      asks_for_statement drives laidOut ready Structured.noConfusion
    simp only [Structured.isWellFormed, Bool.and_eq_true, Bool.not_eq_true'] at formed
    obtain ⟨⟨⟨well, plain⟩, formedBlock⟩, formedRest⟩ := formed
    simp only [Structured.isLaidOut, Bool.and_eq_true, decide_eq_true_eq] at laidOut
    obtain ⟨⟨⟨⟨_, inner⟩, _⟩, column⟩, further⟩ := laidOut
    have embodied : Embodied ⟨.conditional, .absent, keyword⟩ block := by
      intro less inside between result readyInside loopedInside
      refine ihBlock formedBlock inner ⟨?_, fun _ _ => rfl⟩ readyInside loopedInside
      intro reached token later next right
      exact body_goes_on next (by simpa [isRight] using right)
    let front := Structured.guardTokens keyword guard ++
      (block.tokens ++ [Structured.closeToken closer])
    have shape : (Structured.conditional keyword guard block closer rest).tokens =
        front ++ rest.tokens := by
      simp [Structured.tokens, front]
    have length : (Structured.guardTokens keyword guard).length + (block.tokens.length + 1) =
        front.length := by
      simp [front]
    rw [shape] at ready ⊢
    have here : Ahead machine.tokens machine.pc (Structured.guardTokens keyword guard ++
        (block.tokens ++ Structured.closeToken closer :: [])) := (ahead_append.mp ready.ahead).1
    have stepped := performs_conditional levels host well plain embodied inner column here
      ready.room
    rw [length] at stepped
    refine continues_step drives looped asked stepped ?_ List.length_append.symm
    intro bindings after arrived again
    have continued := ihRest formedRest further (arrived.depth ▸ drives)
      (ready_of_arrived ready arrived) again
    rwa [arrived.bindings] at continued

/-- The loop of a program takes all tokens, wherever they stand. -/
theorem program_drives :
    Drives (do return (← get).pc < (← get).tokens.size) (fun _ => step) none Machine.nestingLimit
      0 where
  asked {machine token} host next right := by
    have inside : machine.pc < machine.tokens.size := inside_of_current next
    change ((Except.ok (decide (machine.pc < machine.tokens.size)), machine), host) = _
    rw [decide_eq_true inside]
  step {machine} host level := by
    rw [on_step, level, Nat.sub_zero]

/-- The tokens of a program, run from the start, do what the program means. -/
theorem performs_program {program : Structured} (formed : program.isWellFormed = true)
    (laidOut : program.isLaidOut 0 none = true) {capacity : Nat} (room : 1 ≤ capacity)
    (host : Transcript) :
    let machine := Machine.load program.tokens.toArray capacity
    Performs machine host program.tokens.length (program.meaning Machine.nestingLimit .empty)
      (toEnd.on machine host) := by
  intro machine
  have ready : Ready machine program.tokens := by
    refine ⟨ahead_toArray [] program.tokens, ?_, room⟩
    intro token held
    simp [machine, Machine.load] at held
  refine performs_of_continues
    (continues_of_isLaidOut formed laidOut program_drives ready (loops_end.program machine host)) ?_
  intro bindings after between arrived
  have ended : after.tokens.size ≤ after.pc := by
    rw [arrived.tokens, arrived.counter]
    simp [machine, Machine.load]
  change ((Except.ok (decide (after.pc < after.tokens.size)), after), between) = _
  rw [decide_eq_false (Nat.not_lt.mpr ended)]

theorem call_of_performs {machine : Machine} {host : Transcript} {count : Nat}
    {mean : Structured.Meaning} (unused : machine.stack.values = [])
    (performed : Performs machine host count mean (toEnd.on machine host)) :
    ∃ after, call machine host =
        ((mean.result.map fun _ => .completed [], after), written host mean.lines) ∧
      ∀ bindings, mean.result = .ok bindings → after.bindings = bindings := by
  rw [call_eq]
  rcases mean with ⟨lines, error | bindings⟩
  · obtain ⟨after, ran⟩ := performed
    rw [ran]
    exact ⟨_, rfl, nofun⟩
  · obtain ⟨after, ran, arrived⟩ := performed
    have emptied : after.stack.bottomUp = [] := by
      rw [arrived.stack, Stack.bottomUp, unused]
      rfl
    rw [ran]
    refine ⟨after, ?_, ?_⟩
    · simp only [Machine.conclude, emptied]
      rfl
    · rintro _ ⟨⟩
      exact arrived.bindings

/-- Structured programs mean what they say. A program in its layout, run from the start on a stack
with a free place, prints the lines of its meaning; it completes with an empty stack and the
variables of its meaning, or fails with the fault of its meaning. Unless its constructs are nested
too deeply, the nesting limit plays no part in the meaning. -/
theorem call_structured {program : Structured} (formed : program.isWellFormed = true)
    (laidOut : program.isLaidOut 0 none = true) {capacity : Nat} (room : 1 ≤ capacity)
    (input : List String) :
    let mean := program.meaning Machine.nestingLimit .empty
    (∃ after,
      call (Machine.load program.tokens.toArray capacity) (Transcript.ofInput input) =
        ((mean.result.map fun _ => .completed [], after), ⟨input, mean.lines, []⟩) ∧
      ∀ bindings, mean.result = .ok bindings → after.bindings = bindings) ∧
    (program.nesting ≤ Machine.nestingLimit →
      (∀ levels, program.nesting ≤ levels → program.meaning levels .empty = mean) ∧
      ∀ limit position, mean.result ≠ .error (.executed (.nestingTooDeep limit position))) := by
  intro mean
  have decided := decided_meaning program .empty
  refine ⟨call_of_performs rfl (performs_program formed laidOut room _), fun within => ⟨?_, ?_⟩⟩
  · exact fun levels enough => decided.same enough within
  · exact decided.shallow within

/-- A block in a block, and what comes after: the outer block is executed, the inner one passed
over. -/
def nestedBlocks (rest : Structured) : Structured :=
  -- VAR ASSIGN SUB 5 2 TO count
  .assign (some ⟨1, 0⟩) ⟨1, 4⟩
    (.arithmetic none .sub ⟨1, 11⟩ (.literal ⟨.number, .number 5, ⟨1, 15⟩⟩)
      (.literal ⟨.number, .number 2, ⟨1, 17⟩⟩)) ⟨1, 19⟩ "count" ⟨1, 22⟩ <|
  -- IF ( count GT 2 )
  .conditional ⟨2, 0⟩
    (.compare ⟨2, 3⟩ (.name "count" ⟨2, 5⟩) .greater ⟨2, 14⟩
      (.literal ⟨.number, .number 2, ⟨2, 14⟩⟩) ⟨2, 16⟩)
    -- IF ( count EQ 5 )
    (.conditional ⟨3, 2⟩
      (.compare ⟨3, 5⟩ (.name "count" ⟨3, 7⟩) .equal ⟨3, 16⟩
        (.literal ⟨.number, .number 5, ⟨3, 16⟩⟩) ⟨3, 18⟩)
      (.print ⟨4, 4⟩ [.literal ⟨.string, .string "never", ⟨4, 10⟩⟩] .done) ⟨5, 2⟩ <|
      -- PRINT ADD count 1 ( count LT 2 )
      .print ⟨6, 2⟩
        [.arithmetic none .add ⟨6, 8⟩ (.name "count" ⟨6, 12⟩)
          (.literal ⟨.number, .number 1, ⟨6, 18⟩⟩),
        .compare ⟨6, 20⟩ (.name "count" ⟨6, 22⟩) .less ⟨6, 31⟩
          (.literal ⟨.number, .number 2, ⟨6, 31⟩⟩) ⟨6, 33⟩] .done)
    ⟨7, 0⟩ rest

/-- A block whose guard connects a number with a boolean. -/
def mixedGuard : Structured :=
  -- IF ( count AND True )
  .conditional ⟨8, 0⟩
    (.compare ⟨8, 3⟩ (.name "count" ⟨8, 5⟩) .and ⟨8, 15⟩
      (.literal ⟨.boolean, .boolean true, ⟨8, 15⟩⟩) ⟨8, 20⟩)
    (.print ⟨9, 2⟩ [.literal ⟨.string, .string "never", ⟨9, 8⟩⟩] .done) ⟨10, 0⟩ .done

theorem call_structured_nestedBlocks :
    (∃ after, call (Machine.load (nestedBlocks .done).tokens.toArray 1) (Transcript.ofInput []) =
        ((.ok (.completed []), after), ⟨[], ["4false"], []⟩) ∧
      after.bindings = Table.empty.insert "count" (.number 3)) ∧
    ∃ after, call (Machine.load (nestedBlocks mixedGuard).tokens.toArray 1)
        (Transcript.ofInput []) =
      ((.error (.meant (.typeMismatch "AND" "number" "boolean" ⟨8, 15⟩)), after),
        ⟨[], ["4false"], []⟩) := by
  have formed : (nestedBlocks .done).isWellFormed = true ∧
      (nestedBlocks mixedGuard).isWellFormed = true := by decide
  have laidOut : (nestedBlocks .done).isLaidOut 0 none = true ∧
      (nestedBlocks mixedGuard).isLaidOut 0 none = true := by decide
  constructor
  · have mean : ((nestedBlocks .done).meaning Machine.nestingLimit .empty).lines = ["4false"] ∧
        ((nestedBlocks .done).meaning Machine.nestingLimit .empty).result =
          .ok (Table.empty.insert "count" (.number 3)) := by decide +kernel
    obtain ⟨⟨after, called, bound⟩, _⟩ :=
      call_structured formed.1 laidOut.1 (Nat.le_refl 1) []
    rw [mean.1, mean.2] at called
    exact ⟨after, called, bound _ mean.2⟩
  · have mean : ((nestedBlocks mixedGuard).meaning Machine.nestingLimit .empty).lines =
          ["4false"] ∧
        ((nestedBlocks mixedGuard).meaning Machine.nestingLimit .empty).result =
          .error (.meant (.typeMismatch "AND" "number" "boolean" ⟨8, 15⟩)) := by decide +kernel
    obtain ⟨⟨after, called, _⟩, _⟩ :=
      call_structured formed.2 laidOut.2 (Nat.le_refl 1) []
    rw [mean.1, mean.2] at called
    exact ⟨after, called⟩

end StackScript.Adequacy
