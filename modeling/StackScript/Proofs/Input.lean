import StackScript.Host.Transcript
import StackScript.Proofs.ReachedWalk

/-! Input and output of a call on a host that is kept in memory. Every line that is read or
written is charged to a token of its own, between the counter before the call and the counter
after it. Input is handed out once and in order, and what the call does not read has no
influence on it. -/
namespace StackScript.Input
open Exec Walk Progress Reach

/-- Whether an event is a call of the host that a command makes. -/
def isCallOf : Command → Event → Bool
  | .read, .took _ _ | .print, .wrote _ => true
  | _, _ => false

/-- How many calls of a command are logged. -/
def callsOf (command : Command) (log : List Event) : Nat := log.countP (isCallOf command)

/-- How many tokens of a command stand between two indices. -/
def commandsIn (command : Command) (tokens : Array Token) (start stop : Nat) : Nat :=
  (tokens.extract start stop).countP (·.kind = .command command)

/-- The lines that the host answered with, in the order of the events. -/
def answers (events : List Event) : List (Option String) :=
  events.filterMap fun
    | .took _ line => some line
    | _ => none

/-- The lines that the host wrote. -/
def written (events : List Event) : List String :=
  events.filterMap fun
    | .wrote line => some line
    | _ => none

/-- The prompts that the host showed. -/
def prompted (events : List Event) : List String :=
  events.flatMap fun
    | .took prompt _ => prompt.toList
    | _ => []

theorem length_answers (events : List Event) :
    (answers events).length = callsOf .read events := by
  unfold answers callsOf
  rw [List.length_filterMap_eq_countP]
  refine List.countP_congr fun event _ => ?_
  cases event <;> simp [isCallOf]

theorem length_written (events : List Event) :
    (written events).length = callsOf .print events := by
  unfold written callsOf
  rw [List.length_filterMap_eq_countP]
  refine List.countP_congr fun event _ => ?_
  cases event <;> simp [isCallOf]

theorem callsOf_append (command : Command) (new old : List Event) :
    callsOf command (new ++ old) = callsOf command new + callsOf command old :=
  List.countP_append

theorem callsOf_took (prompt line : Option String) (log : List Event) :
    callsOf .read (.took prompt line :: log) = callsOf .read log + 1 :=
  List.countP_cons_of_pos rfl

theorem isCallOf_of_plain {command : Command} {event : Event} (plain : isCall event = false) :
    isCallOf command event = false := by
  cases command <;> cases event <;> first | rfl | cases plain

/-- A call says which command has made it. -/
theorem maker_of_isCallOf {command maker : Command} {event : Event}
    (makes : MakesCall maker event) (made : isCallOf command event = true) : maker = command := by
  cases makes <;> cases command <;> first | rfl | cases made

section Charges
variable {command : Command}

theorem commandsIn_add (tokens : Array Token) {first second third : Nat} (before : first ≤ second)
    (after : second ≤ third) :
    commandsIn command tokens first third =
      commandsIn command tokens first second + commandsIn command tokens second third := by
  unfold commandsIn
  rw [← Array.countP_append, Array.extract_append_extract, Nat.min_eq_left before,
    Nat.max_eq_right after]

/-- A token that is a command is one of the tokens between. -/
theorem commandsIn_next {tokens : Array Token} {index : Nat} {token : Token}
    (held : tokens[index]? = some token) (kind : token.kind = .command command) :
    commandsIn command tokens index (index + 1) = 1 := by
  obtain ⟨inside, rfl⟩ := Array.getElem?_eq_some_iff.mp held
  have single : tokens.extract index (index + 1) = #[tokens[index]] := by
    apply Array.ext
    · simp
      omega
    · intro offset _ least
      have zero : offset = 0 := by simpa using least
      subst zero
      simp
  unfold commandsIn
  rw [single]
  simp [kind]

/-- How a machine pays for its calls: with tokens of the command that it has gone past. -/
structure Charged (command : Command) (before after : Machine) : Prop where
  tokens : after.tokens = before.tokens
  counter : before.pc ≤ after.pc
  calls : callsOf command after.log ≤
    callsOf command before.log + commandsIn command before.tokens before.pc after.pc

/-- A change that logs nothing. -/
theorem charged_of_silent {before after : Machine} (tokens : after.tokens = before.tokens)
    (counter : before.pc ≤ after.pc) (log : after.log = before.log) :
    Charged command before after := by
  refine ⟨tokens, counter, ?_⟩
  rw [log]
  exact Nat.le_add_right _ _

/-- A change that logs an event that is no call. -/
theorem charged_of_event {before after : Machine} {event : Event} (plain : isCall event = false)
    (tokens : after.tokens = before.tokens) (counter : before.pc ≤ after.pc)
    (log : after.log = event :: before.log) : Charged command before after := by
  refine ⟨tokens, counter, ?_⟩
  have uncounted : callsOf command (event :: before.log) = callsOf command before.log :=
    List.countP_cons_of_neg (Bool.not_eq_true _ ▸ isCallOf_of_plain plain)
  rw [log, uncounted]
  exact Nat.le_add_right _ _

theorem charged_refl (machine : Machine) : Charged command machine machine :=
  charged_of_silent rfl (Nat.le_refl _) rfl

theorem charged_trans {first second third : Machine} (before : Charged command first second)
    (after : Charged command second third) : Charged command first third := by
  obtain ⟨tokens, counter, calls⟩ := before
  obtain ⟨moreTokens, further, moreCalls⟩ := after
  refine ⟨moreTokens.trans tokens, Nat.le_trans counter further, ?_⟩
  rw [tokens] at moreCalls
  rw [commandsIn_add first.tokens counter further]
  omega

/-- A call is charged to the token of its command, which stands before all tokens that the
values of the command were charged to. -/
theorem charged_call {machine started middle : Machine} {token : Token} {maker : Command}
    {event : Event} (next : machine.current? = some token) (kind : token.kind = .command maker)
    (makes : MakesCall maker event) (begins : Begins machine token started)
    (walked : Charged command started middle) :
    Charged command machine (middle.record event) := by
  obtain ⟨tokens, counter, calls⟩ := walked
  have start : started.tokens = machine.tokens ∧ started.pc = machine.pc + 1 ∧
      callsOf command started.log = callsOf command machine.log := by
    cases begins with
    | executed => exact ⟨rfl, rfl, List.countP_cons_of_neg
        (Bool.not_eq_true _ ▸ isCallOf_of_plain rfl)⟩
    | used => exact ⟨rfl, rfl, rfl⟩
  obtain ⟨sameTokens, after, sameCalls⟩ := start
  rw [sameTokens, after, sameCalls] at calls
  rw [after] at counter
  refine ⟨tokens.trans sameTokens, Nat.le_of_succ_le counter, ?_⟩
  have split : commandsIn command machine.tokens machine.pc middle.pc =
      commandsIn command machine.tokens machine.pc (machine.pc + 1) +
        commandsIn command machine.tokens (machine.pc + 1) middle.pc :=
    commandsIn_add machine.tokens (Nat.le_succ _) counter
  change callsOf command (event :: middle.log) ≤
    _ + commandsIn command machine.tokens machine.pc middle.pc
  by_cases made : isCallOf command event = true
  · have own : commandsIn command machine.tokens machine.pc (machine.pc + 1) = 1 :=
      commandsIn_next next (maker_of_isCallOf makes made ▸ kind)
    have more : callsOf command (event :: middle.log) = callsOf command middle.log + 1 :=
      List.countP_cons_of_pos made
    omega
  · have same : callsOf command (event :: middle.log) = callsOf command middle.log :=
      List.countP_cons_of_neg made
    omega

theorem charged_steady {σ : Type} [Host (StateM σ)] :
    Steady σ fun _ before _ after => Charged command before after where
  refl := charged_refl
  halt machine _ := charged_refl machine
  full _ := charged_refl _
  bare _ := charged_refl _
  trans := charged_trans
  counter paid := paid.counter
  take _ := charged_of_event rfl rfl (Nat.le_succ _) rfl
  pass forward _ := charged_of_silent rfl forward rfl
  push _ := charged_of_silent rfl (Nat.le_refl _) rfl
  pop _ := charged_of_silent rfl (Nat.le_refl _) rfl
  bind _ _ := charged_of_event rfl rfl (Nat.le_add_right _ 2) rfl
  passBlock := by
    intro _ machine opener stop _ _ _ ends
    obtain ⟨after, _, _⟩ := firstFrom_eq_some_iff.mp ends
    exact charged_of_event rfl rfl after rfl
  jumpTo := by
    intro _ machine label start stop _ target
    obtain ⟨ahead, _, _⟩ := firstFrom_eq_some_iff.mp target.found
    exact charged_of_event rfl rfl (Nat.le_succ_of_le ahead) rfl
  lose _ walked _ _ := charged_trans walked (charged_of_silent rfl (Nat.le_refl _) rfl)
  remark := by
    intro _ event plain machine
    refine charged_of_event ?_ rfl (Nat.le_refl _) rfl
    cases event <;> first | rfl | cases plain
  call next kind makes begins _ walked := charged_call next kind makes begins walked
  nested := by
    intro _ machine after _ paid
    have going : Charged command machine (entered machine) :=
      charged_of_event rfl rfl (Nat.le_refl _) rfl
    have coming : Charged command after (left after) :=
      charged_of_event rfl rfl (Nat.le_refl _) rfl
    exact charged_trans going (charged_trans paid coming)

end Charges

/-- A call pays for what it reads and writes with tokens that it goes past. -/
theorem call_charged {σ : Type} [Host (StateM σ)] (command : Command) (machine : Machine)
    (host : σ) : Charged command machine (call machine host).1.2 := by
  have walked : Charged command machine (toEnd.on machine host).1.2 :=
    keeps_toEnd charged_steady machine host
  rw [call_eq]
  refine charged_trans walked ?_
  rcases (toEnd.on machine host).1.1 with (code | error) | ⟨⟩
  · exact charged_of_event rfl rfl (Nat.le_refl _) rfl
  · exact charged_of_event rfl rfl (Nat.le_refl _) rfl
  · exact charged_refl _

section Supplies

/-- The host after some more events, the last one first, if its input was these lines before
them. -/
def supplied (host : Transcript) (lines : List String) (new : List Event) : Transcript :=
  ⟨lines.drop (callsOf .read new), host.output ++ written new.reverse,
    host.prompts ++ prompted new.reverse⟩

/-- Events in which the lines were handed out in order, and after them nothing. -/
def InOrder (lines : List String) (new : List Event) : Prop :=
  answers new.reverse = (List.range (callsOf .read new)).map (lines[·]?)

theorem supplied_plain {host : Transcript} {lines : List String} {new : List Event} {event : Event}
    (plain : isCall event = false) :
    supplied host lines (event :: new) = supplied host lines new := by
  cases event with
  | wrote | took => cases plain
  | _ => simp [supplied, callsOf, isCallOf, written, prompted]

theorem supplied_wrote {host : Transcript} {lines : List String} {new : List Event}
    {line : String} :
    supplied host lines (.wrote line :: new) = (supplied host lines new).write line := by
  simp [supplied, Transcript.write, callsOf, isCallOf, written, prompted]

theorem supplied_took {host : Transcript} {lines : List String} {new : List Event}
    {prompt line : Option String} :
    supplied host lines (.took prompt line :: new) = ((supplied host lines new).read prompt).2 := by
  unfold supplied
  rw [callsOf_took]
  simp [Transcript.read, written, prompted]

theorem inOrder_plain {lines : List String} {new : List Event} {event : Event}
    (plain : isCall event = false) (ordered : InOrder lines new) :
    InOrder lines (event :: new) := by
  unfold InOrder at ordered ⊢
  cases event with
  | wrote | took => cases plain
  | _ => simpa [callsOf, isCallOf, answers] using ordered

/-- A program on one host, with two inputs that agree in a number of lines from the first one
on. -/
def scope (machine : Machine) (host : Transcript) (lines : List String) (count : Nat) :
    Scope Transcript where
  program := machine.tokens
  image := machine.tokens
  Reached _ now := callsOf .read now.log ≤ callsOf .read machine.log + count
  Hosts log now other := ∃ new, log = new ++ machine.log ∧ InOrder host.input new ∧
    now = supplied host host.input new ∧ other = supplied host lines new

theorem scope_lawful (machine : Machine) (host : Transcript) {lines : List String} {count : Nat}
    (agree : ∀ index < count, lines[index]? = host.input[index]?) :
    (scope machine host lines count).Lawful where
  back := by
    rintro before after _ forward reached
    obtain ⟨new, log, _⟩ := forward.logged
    have more : callsOf .read after.log = callsOf .read new + callsOf .read before.log := by
      rw [log, callsOf_append]
    change callsOf .read before.log ≤ callsOf .read machine.log + count
    change callsOf .read after.log ≤ callsOf .read machine.log + count at reached
    omega
  leave := id
  here _ _ _ := rfl
  following _ _ _ := rfl
  stopped _ := rfl
  silent := by
    rintro _ _ _ event plain ⟨new, rfl, ordered, rfl, rfl⟩
    exact ⟨event :: new, rfl, inOrder_plain plain ordered, (supplied_plain plain).symm,
      (supplied_plain plain).symm⟩
  write := by
    rintro _ _ _ ⟨new, rfl, ordered, rfl, rfl⟩ line
    refine ⟨(supplied host lines new).write line, rfl, .wrote line :: new, rfl, ?_,
      supplied_wrote.symm, supplied_wrote.symm⟩
    simpa [InOrder, callsOf, isCallOf, answers] using ordered
  read := by
    rintro now _ _ ⟨new, log, ordered, rfl, rfl⟩ prompt call enough
    have asked : callsOf .read new < count := by
      have reached : callsOf .read (_ :: now.log) ≤ callsOf .read machine.log + count :=
        enough _ rfl
      have more := callsOf_took prompt (supplied host host.input new).input.head? now.log
      rw [log, callsOf_append] at more
      rw [log] at reached
      omega
    have same : (supplied host lines new).input.head? =
        (supplied host host.input new).input.head? := by
      simp only [supplied, List.head?_drop, agree _ asked]
    refine ⟨((supplied host lines new).read prompt).2, ?_, ?_⟩
    · change (Except.ok (supplied host lines new).input.head?, _) = _
      rw [same]
      rfl
    · refine ⟨.took prompt (supplied host host.input new).input.head? :: new, ?_, ?_,
        supplied_took.symm, supplied_took.symm⟩
      · change _ :: now.log = _
        rw [log]
        rfl
      · unfold InOrder at ordered ⊢
        rw [callsOf_took, List.range_succ, List.map_append, ← ordered]
        simp [answers, supplied]

/-- The events of a call tell what it did to its host, and what it would have done to one whose
input agrees in the lines that were read. -/
theorem call_supplied (machine : Machine) (host : Transcript) {lines : List String} {count : Nat}
    (enough : callsOf .read (call machine host).1.2.log ≤ callsOf .read machine.log + count)
    (agree : ∀ index < count, lines[index]? = host.input[index]?) :
    ∃ new, (call machine host).1.2.log = new ++ machine.log ∧ InOrder host.input new ∧
      (call machine host).2 = supplied host host.input new ∧
      call machine { host with input := lines } =
        ((call machine host).1, supplied host lines new) := by
  have lawful := scope_lawful machine host agree
  have start : (scope machine host lines count).Hosts machine.log host
      { host with input := lines } := by
    refine ⟨[], rfl, rfl, ?_, ?_⟩
    · simp [supplied, callsOf, written, prompted]
    · simp [supplied, callsOf, written, prompted]
  have reached : callsOf .read (toEnd.on machine host).1.2.log ≤
      callsOf .read machine.log + count := by
    rw [call_eq] at enough
    rcases ended : (toEnd.on machine host).1.1 with (code | error) | ⟨⟩
    all_goals
      rw [ended] at enough
      exact enough
  obtain ⟨_, called, new, log, ordered, own, rfl⟩ := Scope.call_mirrored lawful rfl start reached
  have itself : (scope machine host lines count).mirror (call machine host).1.2 =
      (call machine host).1.2 := by
    change { (call machine host).1.2 with tokens := machine.tokens } = _
    rw [← (call_forward machine host).tokens]
  rw [itself] at called
  exact ⟨new, log, ordered, own, called⟩

end Supplies

/-- A call on a host with some input. Each line that is read or written has a `READ` or `PRINT` of
its own between the counter before the call and the counter after it. The lines of the input are
read in order, each of them once, and the end of the input after them; what the call has not read
is left. If it has not read beyond the end, then with any other lines after those that it has read
it does exactly the same, and leaves those lines. -/
theorem call_reads_in_order (machine : Machine) (host : Transcript) :
    let ended := call machine host
    ∃ new, ended.1.2.events = machine.events ++ new ∧
      let reads := (answers new).length
      reads ≤ commandsIn .read machine.tokens machine.pc ended.1.2.pc ∧
        (written new).length ≤ commandsIn .print machine.tokens machine.pc ended.1.2.pc ∧
        answers new = (List.range reads).map (host.input[·]?) ∧
        ended.2 = ⟨host.input.drop reads, host.output ++ written new,
          host.prompts ++ prompted new⟩ ∧
        (reads ≤ host.input.length → ∀ rest,
          call machine { host with input := host.input.take reads ++ rest } =
            (ended.1, { ended.2 with input := rest })) := by
  intro ended
  have paid (command : Command) := (call_charged command machine host).calls
  have itself : ∀ index < commandsIn .read machine.tokens machine.pc ended.1.2.pc,
      host.input[index]? = host.input[index]? := fun _ _ => rfl
  obtain ⟨past, log, ordered, own, _⟩ := call_supplied machine host (paid .read) itself
  have counted (command : Command) :
      callsOf command past ≤ commandsIn command machine.tokens machine.pc ended.1.2.pc := by
    have more := paid command
    rw [log, callsOf_append] at more
    change _ ≤ commandsIn command machine.tokens machine.pc (call machine host).1.2.pc
    omega
  have reversed (command : Command) : callsOf command past.reverse = callsOf command past :=
    List.countP_reverse
  refine ⟨past.reverse, ?_, ?_⟩
  · unfold Machine.events
    rw [log, List.reverse_append]
  · simp only [length_answers, length_written, reversed]
    refine ⟨counted .read, counted .print, ordered, own, fun enough rest => ?_⟩
    have first : callsOf .read (call machine host).1.2.log ≤
        callsOf .read machine.log + callsOf .read past := by
      rw [log, callsOf_append]
      omega
    have agree : ∀ index < callsOf .read past,
        (host.input.take (callsOf .read past) ++ rest)[index]? = host.input[index]? := by
      intro index less
      rw [List.getElem?_append_left (by simp; omega), List.getElem?_take_of_lt less]
    obtain ⟨again, logAgain, _, _, called⟩ := call_supplied machine host first agree
    have same : again = past := List.append_cancel_right (logAgain.symm.trans log)
    have left : (host.input.take (callsOf .read past) ++ rest).drop (callsOf .read past) = rest :=
      List.drop_left' (List.length_take_of_le enough)
    rw [called, same]
    change (_, supplied host _ past) = (_, ({ (call machine host).2 with input := rest }))
    rw [own]
    unfold supplied
    rw [left]

end StackScript.Input
