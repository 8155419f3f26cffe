import StackScript.Machine.Effect
import StackScript.Machine.Run

/-! What the walk over the tokens keeps. A relation between a machine before an action, the reason
why the action was interrupted, and the machine after it holds across every construct, at every
nesting level and however the action ends, if it holds across every elementary action. Later
invariants supply the elementary facts and never look at the constructs again. -/
namespace StackScript.Walk
open Exec

/-- The machine with a token taken, and the event that it is about to be executed. -/
def taken (machine : Machine) (token : Token) : Machine :=
  { machine with pc := machine.pc + 1 }.record (.dispatched
    { index := machine.pc
      kind := token.kind
      depth := machine.depth
      height := machine.stack.size
      labels := machine.labels })

/-- The machine one nesting level further in. -/
def entered (machine : Machine) : Machine :=
  { machine.record .entered with depth := machine.depth + 1 }

/-- The machine back from the nesting level entered last. -/
def left (machine : Machine) : Machine :=
  { machine.record .left with depth := machine.depth - 1 }

/-- A counted action is executed one nesting level further in, however it ends. -/
theorem on_counted_entered {σ α : Type} (action : Exec (StateM σ) α) (machine : Machine)
    (host : σ) :
    (counted action).on machine host =
      match action.on (entered machine) host with
      | ((result, after), later) => ((result, left after), later) := rfl

/-- The machine with a variable bound. -/
def bound (machine : Machine) (name : String) (value : Value) : Machine :=
  { machine.record (.bound name value) with bindings := machine.bindings.insert name value }

/-- The machine with the range of a label recorded. -/
def labelled (machine : Machine) (label : String) (range : BlockRange) : Machine :=
  { machine with labels := ⟨machine.labels.table.insert label range⟩ }

/-- The machine with a labelled block passed over. -/
def passed (machine : Machine) (label : String) (start stop : Nat) : Machine :=
  { (labelled machine label ⟨some start, some stop⟩).record (.passed label start stop) with
    pc := stop }

/-- The machine with a jump made into a labelled block. -/
def jumped (machine : Machine) (label : String) (start stop : Nat) : Machine :=
  { (labelled machine label ⟨some start, some stop⟩).record (.jumped label start stop) with
    pc := start + 1 }

/-- Whether logging an event is all that happens with it. -/
def isRemark : Event → Bool
  | .converted _ | .decided _ _ | .stayed _ => true
  | _ => false

/-- The calls of the host that a command makes, as they are logged. -/
inductive MakesCall : Command → Event → Prop where
  | write (line : String) : MakesCall .print (.wrote line)
  | read (prompt line : Option String) : MakesCall .read (.took prompt line)

/-- The machine has taken a token, to execute it or to use it as an operand. -/
inductive Begins (machine : Machine) (token : Token) : Machine → Prop where
  | executed : Begins machine token (taken machine token)
  | used : Begins machine token { machine with pc := machine.pc + 1 }

/-- From an index on stand a `TO` and a variable of a name. -/
structure NamesTarget (tokens : Array Token) (index : Nat) (name : String) : Prop where
  keyword : tokens[index]?.map Token.kind = some .target
  target : ∃ token, tokens[index + 1]? = some token ∧ token.kind = .identifier ∧
    token.name? = some name

/-- Whether a stop is a fault of the operand stack. -/
def blamesStack : Stop → Bool
  | .fault (.executed (.stackOverflow _)) | .fault (.executed .stackUnderflow) => true
  | _ => false

/-- The labelled block that a jump goes to from a counter: the first one ahead, and its end. -/
structure Target (tokens : Array Token) (counter : Nat) (label : String) (start stop : Nat) :
    Prop where
  found : findBlock tokens counter label = some start
  ends : ∃ opener, tokens[start]? = some opener ∧
    endOfBlock tokens (start + 1) opener.position.column = some stop

/-- Why a jump finds no block to go to: none ahead has its label, or the first one that has it
does not end. -/
inductive NoTarget (tokens : Array Token) (counter : Nat) (jump : Token) : RuntimeError → Prop where
  | missing (absent : findBlock tokens counter jump.nameOrEmpty = none) :
      NoTarget tokens counter jump (.missingSection jump.nameOrEmpty jump.position)
  | unterminated {start : Nat} {opener : Token}
      (found : findBlock tokens counter jump.nameOrEmpty = some start)
      (opens : tokens[start]? = some opener)
      (endless : endOfBlock tokens (start + 1) opener.position.column = none) :
      NoTarget tokens counter jump (.unterminatedBlock "SECTION" opener.position)

/-- A jump is taken: its token comes next, an `IF` stands after it, and the guard after that is
found to hold. The machine `after` is what the guard leaves behind. -/
structure TakesJump (σ : Type) [Host (StateM σ)] (machine : Machine) (jump : Token)
    (after : Machine) : Prop where
  next : machine.current? = some jump
  kind : jump.kind = .jump
  keyword : machine.tokens[machine.pc + 1]?.map Token.kind = some .conditional
  guard : ∃ levels, ∃ host later : σ,
    (boolean (level? levels) "JUMP").on { taken machine jump with pc := machine.pc + 2 } host =
      ((.ok true, after), later)

/-- Why an action was interrupted, if it was. -/
def reason? {α : Type} : Except Stop α → Option Stop
  | .ok _ => none
  | .error stop => some stop

/-- A relation between a machine, an interruption and the machine after it that holds across
every elementary action. It may depend on how many levels more can be nested. -/
structure Steady (σ : Type) [Host (StateM σ)]
    (R : Nat → Machine → Option Stop → Machine → Prop) : Prop where
  refl {levels : Nat} (machine : Machine) : R levels machine none machine
  /-- An interruption by itself changes nothing. -/
  halt {levels : Nat} {stop : Stop} (machine : Machine) (plain : blamesStack stop = false) :
    R levels machine (some stop) machine
  /-- A value that the full stack refuses interrupts, with nothing changed. -/
  full {levels : Nat} {machine : Machine} {value : Value} {error : RuntimeError}
    (refused : machine.stack.push value = .error error) :
    R levels machine (some (.fault (.executed error))) machine
  /-- A value that the empty stack cannot give interrupts, with nothing changed. -/
  bare {levels : Nat} {machine : Machine} {error : RuntimeError}
    (refused : machine.stack.pop = .error error) :
    R levels machine (some (.fault (.executed error))) machine
  trans {levels : Nat} {first second third : Machine} {stop? : Option Stop} :
    R levels first none second → R levels second stop? third → R levels first stop? third
  counter {levels : Nat} {before after : Machine} {stop? : Option Stop} :
    R levels before stop? after → before.pc ≤ after.pc
  take {levels : Nat} {machine : Machine} {token : Token} (next : machine.current? = some token) :
    R levels machine none (taken machine token)
  /-- The counter moves forward only, and at most to the end of the program. -/
  pass {levels : Nat} {machine : Machine} {target : Nat} (forward : machine.pc ≤ target)
    (within : target ≤ machine.tokens.size) : R levels machine none { machine with pc := target }
  push {levels : Nat} {machine : Machine} {value : Value} {stack : Stack}
    (pushed : machine.stack.push value = .ok stack) : R levels machine none { machine with stack }
  pop {levels : Nat} {machine : Machine} {value : Value} {stack : Stack}
    (popped : machine.stack.pop = .ok (value, stack)) :
    R levels machine none { machine with stack }
  /-- A variable is bound when its name has been taken, right after a `TO`. -/
  bind {levels : Nat} {machine : Machine} {name : String}
    (names : NamesTarget machine.tokens machine.pc name) (value : Value) :
    R levels machine none (bound { machine with pc := machine.pc + 2 } name value)
  passBlock {levels : Nat} {machine : Machine} {opener : Token} {stop : Nat}
    (next : machine.current? = some opener) (kind : opener.kind = .labelled)
    (fresh : machine.labels.get? opener.nameOrEmpty = none)
    (ends : endOfBlock machine.tokens (machine.pc + 1) opener.position.column = some stop) :
    R levels (taken machine opener) none
      (passed (taken machine opener) opener.nameOrEmpty machine.pc stop)
  jumpTo {levels : Nat} {machine : Machine} {label : String} {start stop : Nat}
    (fresh : machine.labels.get? label = none)
    (target : Target machine.tokens machine.pc label start stop) :
    R levels machine none (jumped machine label start stop)
  /-- A jump that is taken but finds no block leaves its label behind, with no range. -/
  lose {levels : Nat} {machine middle : Machine} {jump : Token} {error : RuntimeError}
    (takes : TakesJump σ machine jump middle) (walked : R levels machine none middle)
    (fresh : middle.labels.get? jump.nameOrEmpty = none)
    (lost : NoTarget middle.tokens middle.pc jump error) :
    R levels machine (some (.fault (.executed error))) (labelled middle jump.nameOrEmpty .unknown)
  remark {levels : Nat} {event : Event} (plain : isRemark event = true) (machine : Machine) :
    R levels machine none (machine.record event)
  /-- A call of the host is made by a command, whose token was taken before its values. -/
  call {levels : Nat} {machine started middle : Machine} {token : Token} {command : Command}
    {event : Event} (next : machine.current? = some token) (kind : token.kind = .command command)
    (makes : MakesCall command event) (begins : Begins machine token started)
    (begun : R levels machine none started) (walked : R levels started none middle) :
    R levels machine none (middle.record event)
  nested {levels : Nat} {machine after : Machine} {stop? : Option Stop} :
    R levels (entered machine) stop? after → R (levels + 1) machine stop? (left after)

/-- A machine is related to what an action gives: its interruption, if any, and the machine
after it. -/
def Leads {σ α : Type} (R : Machine → Option Stop → Machine → Prop) (machine : Machine)
    (ended : (Except Stop α × Machine) × σ) : Prop :=
  R machine (reason? ended.1.1) ended.1.2

/-- A machine is related to what an action gives, which lies past a counter. -/
def LeadsPast {σ α : Type} (R : Machine → Option Stop → Machine → Prop) (machine : Machine)
    (counter : Nat) (ended : (Except Stop α × Machine) × σ) : Prop :=
  Leads R machine ended ∧ counter ≤ ended.1.2.pc

/-- An action keeps a relation if every machine is related to what the action gives there. -/
def Keeps {σ α : Type} (R : Machine → Option Stop → Machine → Prop) (action : Exec (StateM σ) α) :
    Prop :=
  ∀ machine host, Leads R machine (action.on machine host)

/-- What is executed when some more levels may be nested keeps a relation: a step does, and so
does a command from before its token is taken as an operand. -/
structure LevelKeeps (σ : Type) [Host (StateM σ)]
    (R : Nat → Machine → Option Stop → Machine → Prop) (levels : Nat) : Prop where
  step : Keeps (R levels) (stepWith (level? levels) : Exec (StateM σ) Unit)
  use {machine : Machine} {token : Token} {command : Command}
    (next : machine.current? = some token) (kind : token.kind = .command command) (host : σ) :
    LeadsPast (R levels) machine (machine.pc + 1)
      ((perform (level? levels) command).on { machine with pc := machine.pc + 1 } host)

section Rules
variable {σ α β : Type} [Host (StateM σ)] {R : Nat → Machine → Option Stop → Machine → Prop}
  (steady : Steady σ R) {levels : Nat}
include steady

/-- The second action is needed only where the first one leads. -/
theorem leads_bind {action : Exec (StateM σ) α} {next : α → Exec (StateM σ) β}
    {machine started : Machine} {host : σ}
    (first : Leads (R levels) machine (action.on started host))
    (rest : ∀ value middle between, action.on started host = ((.ok value, middle), between) →
      Leads (R levels) middle ((next value).on middle between)) :
    Leads (R levels) machine ((action >>= next).on started host) := by
  rw [on_bind]
  rcases ran : action.on started host with ⟨⟨stop | value, middle⟩, between⟩
  all_goals rw [ran] at first
  · exact first
  · exact steady.trans first (rest value middle between ran)

/-- What goes on from a machine lies past the counter of that machine. -/
theorem leads_past {machine middle : Machine} {counter : Nat}
    (walked : R levels machine none middle) (ahead : counter ≤ middle.pc)
    {ended : (Except Stop α × Machine) × σ}
    (rest : Leads (R levels) middle ended) : LeadsPast (R levels) machine counter ended :=
  ⟨steady.trans walked rest, Nat.le_trans ahead (steady.counter rest)⟩

/-- A second action does not lead back. -/
theorem leads_past_then {action : Exec (StateM σ) α} {next : α → Exec (StateM σ) β}
    {machine started : Machine} {counter : Nat} {host : σ}
    (first : LeadsPast (R levels) machine counter (action.on started host))
    (rest : ∀ value, Keeps (R levels) (next value)) :
    LeadsPast (R levels) machine counter ((action >>= next).on started host) := by
  obtain ⟨leads, past⟩ := first
  refine ⟨leads_bind steady leads fun value middle between _ => rest value middle between, ?_⟩
  rw [on_bind]
  rcases ran : action.on started host with ⟨⟨stop | value, middle⟩, between⟩
  all_goals rw [ran] at past
  · exact past
  · exact Nat.le_trans past (steady.counter (rest value middle between))

/-- The second action may be led to from a machine before the first one. -/
theorem leads_past_bind {action : Exec (StateM σ) α} {next : α → Exec (StateM σ) β}
    {machine started : Machine} {counter : Nat} {host : σ} (begun : R levels machine none started)
    (ahead : counter ≤ started.pc) (kept : Keeps (R levels) action)
    (rest : ∀ value middle between, R levels started none middle →
      LeadsPast (R levels) machine counter ((next value).on middle between)) :
    LeadsPast (R levels) machine counter ((action >>= next).on started host) := by
  have first := kept started host
  rw [on_bind]
  rcases ran : action.on started host with ⟨⟨stop | value, middle⟩, between⟩
  all_goals rw [ran] at first
  · exact leads_past steady begun ahead first
  · exact rest value middle between first

theorem keeps_bind {action : Exec (StateM σ) α} {next : α → Exec (StateM σ) β}
    (first : Keeps (R levels) action) (rest : ∀ value, Keeps (R levels) (next value)) :
    Keeps (R levels) (action >>= next) :=
  fun machine host => leads_bind steady (first machine host)
    fun value middle between _ => rest value middle between

theorem keeps_pure (value : α) : Keeps (R levels) (pure value : Exec (StateM σ) α) :=
  fun machine _ => steady.refl machine

theorem keeps_throw (stop : Stop) (plain : blamesStack stop = false := by rfl) :
    Keeps (R levels) (throw stop : Exec (StateM σ) α) :=
  fun machine _ => steady.halt machine plain

theorem keeps_raise (error : Error) (plain : blamesStack (.fault error) = false := by rfl) :
    Keeps (R levels) (raise error : Exec (StateM σ) α) :=
  keeps_throw steady (.fault error) plain

theorem keeps_get : Keeps (R levels) (get : Exec (StateM σ) Machine) :=
  fun machine _ => steady.refl machine

theorem keeps_current : Keeps (R levels) (current? : Exec (StateM σ) (Option Token)) :=
  fun machine _ => steady.refl machine

theorem keeps_lastPlace : Keeps (R levels) (lastPlace : Exec (StateM σ) Position) :=
  fun machine _ => steady.refl machine

theorem keeps_remark {event : Event} (plain : isRemark event = true) :
    Keeps (R levels) (record event : Exec (StateM σ) Unit) :=
  fun machine _ => steady.remark plain machine

theorem keeps_consume : Keeps (R levels) (consume : Exec (StateM σ) Token) := by
  intro machine host
  rw [on_consume]
  split
  · rename_i token next
    have inside : machine.pc < machine.tokens.size := (Array.getElem?_eq_some_iff.mp next).1
    exact steady.pass (Nat.le_succ _) inside
  · exact steady.halt machine rfl

theorem keeps_push (value : Value) : Keeps (R levels) (push value : Exec (StateM σ) Unit) := by
  intro machine host
  rw [on_push]
  split
  · rename_i stack pushed
    exact steady.push pushed
  · rename_i error refused
    exact steady.full refused

theorem keeps_pop : Keeps (R levels) (pop : Exec (StateM σ) Value) := by
  intro machine host
  rw [on_pop]
  split
  · rename_i value stack popped
    exact steady.pop popped
  · rename_i error refused
    exact steady.bare refused

theorem keeps_lookup (token : Token) : Keeps (R levels) (lookup token : Exec (StateM σ) Value) := by
  intro machine host
  rw [on_lookup]
  split
  · exact steady.refl machine
  · exact steady.halt machine rfl

theorem keeps_counted {action : Exec (StateM σ) α} (kept : Keeps (R levels) action) :
    Keeps (R (levels + 1)) (counted action) := by
  intro machine host
  rw [on_counted_entered]
  exact steady.nested (kept (entered machine) host)

theorem keeps_repeatWhile {test : Exec (StateM σ) Bool} {body : α → Exec (StateM σ) α}
    (asked : Keeps (R levels) test) (kept : ∀ value, Keeps (R levels) (body value)) (count : Nat)
    (start : α) :
    Keeps (R levels) (repeatWhile test body count start) := by
  induction count generalizing start with
  | zero => exact keeps_bind steady asked fun _ => keeps_pure steady start
  | succ count ih =>
    refine keeps_bind steady asked fun again => ?_
    cases again with
    | false => exact keeps_pure steady start
    | true => exact keeps_bind steady (kept start) ih

theorem keeps_whileTokens {test : Exec (StateM σ) Bool} {body : α → Exec (StateM σ) α}
    (asked : Keeps (R levels) test) (kept : ∀ value, Keeps (R levels) (body value)) (start : α) :
    Keeps (R levels) (whileTokens test body start) :=
  keeps_bind steady (keeps_get steady) fun machine =>
    keeps_repeatWhile steady asked kept machine.remaining start

end Rules

/-- Where there is a token, the counter stands inside the program. -/
theorem inside_of_current {machine : Machine} {token : Token}
    (next : machine.current? = some token) : machine.pc < machine.tokens.size :=
  (Array.getElem?_eq_some_iff.mp next).1

section Keywords
variable {σ : Type} {machine after : Machine} {host later : σ}

/-- The next token is taken, and refused if it is not the keyword. -/
theorem on_takeKeyword (kind : TokenKind) (keyword : String) (machine : Machine) (host : σ) :
    (takeKeyword kind keyword : Exec (StateM σ) Unit).on machine host =
      match machine.current? with
      | none =>
        ((.error (.fault (.executed (.unexpectedEndOfInput machine.lastPlace))), machine), host)
      | some token =>
        ((if token.kind = kind then .ok ()
          else .error (.fault (.written (.expectedKeyword keyword token.mention token.position))),
          { machine with pc := machine.pc + 1 }), host) := by
  unfold takeKeyword
  rw [on_bind, on_consume]
  cases machine.current? with
  | none => rfl
  | some token => by_cases same : token.kind = kind <;> simp [same]

/-- The next token is taken, and refused if it is not a variable. -/
theorem on_takeTarget (machine : Machine) (host : σ) :
    (takeTarget : Exec (StateM σ) String).on machine host =
      match machine.current? with
      | none =>
        ((.error (.fault (.executed (.unexpectedEndOfInput machine.lastPlace))), machine), host)
      | some token =>
        ((match token.kind, token.name? with
          | .identifier, some name => .ok name
          | _, _ => .error (.fault (.written (.expectedIdentifier "TO" token.mention
              token.position))), { machine with pc := machine.pc + 1 }), host) := by
  unfold takeTarget
  rw [on_bind, on_consume]
  cases machine.current? with
  | none => rfl
  | some token =>
    obtain ⟨kind, literal, place⟩ := token
    cases kind with
    | identifier => cases literal <;> rfl
    | _ => rfl

theorem takeKeyword_taken {kind : TokenKind} {keyword : String}
    (ran : (takeKeyword kind keyword : Exec (StateM σ) Unit).on machine host =
      ((.ok (), after), later)) :
    machine.current?.map Token.kind = some kind ∧
      after = { machine with pc := machine.pc + 1 } ∧ later = host := by
  rw [on_takeKeyword] at ran
  split at ran
  · cases ran
  · rename_i token next
    rw [next]
    split at ran
    · rename_i same
      cases ran
      exact ⟨congrArg some same, rfl, rfl⟩
    · cases ran

theorem takeTarget_taken {name : String}
    (ran : (takeTarget : Exec (StateM σ) String).on machine host = ((.ok name, after), later)) :
    (∃ token, machine.current? = some token ∧ token.kind = .identifier ∧
      token.name? = some name) ∧
      after = { machine with pc := machine.pc + 1 } ∧ later = host := by
  rw [on_takeTarget] at ran
  split at ran
  · cases ran
  · rename_i token next
    split at ran
    · rename_i known kind named
      cases ran
      exact ⟨⟨token, next, kind, named⟩, rfl, rfl⟩
    · cases ran

end Keywords

section Lookahead
variable {σ : Type} [Host (StateM σ)] {R : Nat → Machine → Option Stop → Machine → Prop}
  (steady : Steady σ R) {levels : Nat}
include steady

/-- A token that was looked at may be passed. -/
theorem leads_skip {machine : Machine} {token : Token} (next : machine.current? = some token) :
    R levels machine none { machine with pc := machine.pc + 1 } :=
  steady.pass (Nat.le_succ _) (inside_of_current next)

/-- A token may be taken in either way. -/
theorem leads_begins {machine started : Machine} {token : Token}
    (next : machine.current? = some token) (begins : Begins machine token started) :
    R levels machine none started ∧ machine.pc + 1 ≤ started.pc := by
  cases begins with
  | executed => exact ⟨steady.take next, Nat.le_refl _⟩
  | used => exact ⟨leads_skip steady next, Nat.le_refl _⟩

section Calls
variable {machine started middle : Machine} {token : Token} (next : machine.current? = some token)
  (begins : Begins machine token started) (walked : R levels started none middle)
include next begins walked

theorem leads_writeLine (kind : token.kind = .command .print) (line : String) (host : σ) :
    LeadsPast (R levels) machine (machine.pc + 1)
      ((writeLine line : Exec (StateM σ) Unit).on middle host) := by
  obtain ⟨begun, ahead⟩ := leads_begins steady next begins
  have past : machine.pc + 1 ≤ middle.pc := Nat.le_trans ahead (steady.counter walked)
  rw [on_writeLine]
  split
  · exact ⟨steady.call next kind (.write line) begins begun walked, past⟩
  · exact ⟨steady.trans begun (steady.trans walked (steady.halt middle rfl)), past⟩

theorem leads_readLine (kind : token.kind = .command .read) (prompt : Option String) (host : σ) :
    LeadsPast (R levels) machine (machine.pc + 1)
      ((readLine prompt : Exec (StateM σ) (Option String)).on middle host) := by
  obtain ⟨begun, ahead⟩ := leads_begins steady next begins
  have past : machine.pc + 1 ≤ middle.pc := Nat.le_trans ahead (steady.counter walked)
  rw [on_readLine]
  split
  · exact ⟨steady.call next kind (.read prompt _) begins begun walked, past⟩
  · exact ⟨steady.trans begun (steady.trans walked (steady.halt middle rfl)), past⟩

end Calls

theorem keeps_takeEnd : Keeps (R levels) (takeEnd : Exec (StateM σ) Unit) := by
  intro machine host
  unfold takeEnd
  rw [on_bind, on_current?]
  cases next : machine.current? with
  | none => exact steady.refl machine
  | some token =>
    by_cases ends : token.kind = .blockEnd
    · simp only [Option.any_some, ends, decide_true, ↓reduceIte]
      exact leads_skip steady next
    · simp only [Option.any_some, ends, decide_false, Bool.false_eq_true, ↓reduceIte]
      exact steady.refl machine

theorem keeps_groupContinues (opener : Token) :
    Keeps (R levels) (groupContinues opener : Exec (StateM σ) Bool) := by
  intro machine host
  unfold groupContinues
  rw [on_bind, on_current?]
  cases next : machine.current? with
  | none => exact steady.halt machine rfl
  | some token =>
    by_cases closes : token.kind = .rightParen
    · simp only [closes, ↓reduceIte]
      exact leads_skip steady next
    · simp only [closes, ↓reduceIte]
      exact steady.refl machine

theorem keeps_bodyContinues (opener : Token) :
    Keeps (R levels) (bodyContinues opener : Exec (StateM σ) Bool) := by
  refine keeps_bind steady (keeps_current steady) fun next? => ?_
  cases next? with
  | none => exact keeps_raise steady _
  | some token => exact keeps_pure steady _

theorem keeps_moreOnLine : Keeps (R levels) (moreOnLine : Exec (StateM σ) Bool) :=
  keeps_bind steady (keeps_lastPlace steady) fun _ =>
    keeps_bind steady (keeps_current steady) fun _ => keeps_pure steady _

theorem keeps_takeCast : Keeps (R levels) (takeCast : Exec (StateM σ) (Option Cast)) := by
  intro machine host
  unfold takeCast
  rw [on_bind, on_current?]
  cases next : machine.current? with
  | none => exact steady.refl machine
  | some token =>
    simp only [Option.map_some]
    split
    · exact leads_skip steady next
    · exact steady.refl machine

theorem keeps_takeKeyword (kind : TokenKind) (keyword : String) :
    Keeps (R levels) (takeKeyword kind keyword : Exec (StateM σ) Unit) := by
  refine keeps_bind steady (keeps_consume steady) fun token => ?_
  split
  · exact keeps_raise steady _
  · exact keeps_pure steady _

theorem keeps_takeTarget : Keeps (R levels) (takeTarget : Exec (StateM σ) String) := by
  refine keeps_bind steady (keeps_consume steady) fun token => ?_
  split
  · exact keeps_pure steady _
  · exact keeps_raise steady _

/-- A variable is bound if a `TO` and its name come next, and otherwise nothing is. -/
theorem keeps_assignTarget (result : Value) :
    Keeps (R levels) (do
      takeKeyword .target "TO"
      let name ← takeTarget
      assign name result : Exec (StateM σ) Unit) := by
  intro machine host
  have first : Leads (R levels) machine ((takeKeyword .target "TO").on machine host) :=
    keeps_takeKeyword steady .target "TO" machine host
  rw [on_bind]
  rcases began : (takeKeyword .target "TO").on machine host with ⟨⟨stop | ⟨⟩, middle⟩, between⟩
  all_goals rw [began] at first
  · exact first
  · obtain ⟨keyword, rfl, rfl⟩ := takeKeyword_taken began
    have second : Leads (R levels) { machine with pc := machine.pc + 1 }
        (takeTarget.on { machine with pc := machine.pc + 1 } between) :=
      keeps_takeTarget steady _ between
    simp only
    rw [on_bind]
    rcases found : takeTarget.on { machine with pc := machine.pc + 1 } between with
      ⟨⟨stop | name, last⟩, later⟩
    all_goals rw [found] at second
    · exact steady.trans first second
    · obtain ⟨target, rfl, rfl⟩ := takeTarget_taken found
      exact steady.bind ⟨keyword, target⟩ result

theorem keeps_operandBefore (index : Nat) :
    Keeps (R levels) (operandBefore index : Exec (StateM σ) Value) := by
  refine keeps_bind steady (keeps_get steady) fun machine => ?_
  split
  · split
    · exact keeps_lookup steady _
    · exact keeps_pop steady
  · exact keeps_pop steady

/-- A block is passed over up to its end, which is never behind the counter. -/
theorem leads_endOfBlock {machine : Machine} {start column stop : Nat}
    (forward : machine.pc ≤ start)
    (found : endOfBlock machine.tokens start column = some stop) :
    R levels machine none { machine with pc := stop } := by
  obtain ⟨after, ⟨token, held, _⟩, _⟩ := firstFrom_eq_some_iff.mp found
  exact steady.pass (by omega) (Nat.le_of_lt (Array.getElem?_eq_some_iff.mp held).1)

theorem leads_passOver {machine : Machine} {opener : Token} (next : machine.current? = some opener)
    (kind : opener.kind = .labelled) (host : σ) :
    Leads (R levels) (taken machine opener) ((passOver opener).on (taken machine opener) host) := by
  unfold passOver
  rw [on_bind, on_get]
  simp only
  split
  · exact steady.halt _ rfl
  · rename_i stop ends
    rw [on_bind, on_addLabel]
    cases added : (taken machine opener).labels.add opener.nameOrEmpty
      ⟨some ((taken machine opener).pc - 1), some stop⟩ opener.position with
    | error error => exact steady.halt _ rfl
    | ok labels =>
      obtain ⟨fresh, rfl⟩ := Labels.of_add added
      exact steady.trans (steady.passBlock next kind fresh ends) (keeps_takeEnd steady _ _)

end Lookahead

section Targets
variable {σ : Type} {label : String} {jump : Token} {machine after : Machine} {host later : σ}

/-- The block that a jump goes to, or the fault that there is none. -/
def targetFrom (tokens : Array Token) (counter : Nat) (label : String) (jump : Token) :
    Except Error (Nat × Nat) :=
  match findBlock tokens counter label with
  | none => .error (.executed (.missingSection label jump.position))
  | some start =>
    let opener := tokens[start]?.getD jump
    match endOfBlock tokens (start + 1) opener.position.column with
    | none => .error (.executed (.unterminatedBlock "SECTION" opener.position))
    | some stop => .ok (start, stop)

theorem targetFrom_eq_ok {tokens : Array Token} {counter start stop : Nat} :
    targetFrom tokens counter label jump = .ok (start, stop) ↔
      Target tokens counter label start stop := by
  unfold targetFrom
  constructor
  · intro searched
    split at searched
    · cases searched
    · rename_i first opens
      obtain ⟨_, ⟨opener, held, _⟩, _⟩ := firstFrom_eq_some_iff.mp opens
      simp only [held, Option.getD_some] at searched
      split at searched
      · cases searched
      · rename_i last ends
        cases searched
        exact ⟨opens, opener, held, ends⟩
  · rintro ⟨opens, opener, held, ends⟩
    simp only [opens, held, Option.getD_some, ends]

/-- The search for a target only looks at the tokens. -/
theorem on_findTarget (label : String) (jump : Token) (machine : Machine) (host : σ) :
    (findTarget label jump : Exec (StateM σ) (Nat × Nat)).on machine host =
      (((targetFrom machine.tokens machine.pc label jump).mapError .fault, machine), host) := by
  unfold findTarget targetFrom
  rw [on_bind, on_get]
  simp only
  cases findBlock machine.tokens machine.pc label with
  | none => rfl
  | some start =>
    simp only
    cases endOfBlock machine.tokens (start + 1)
      (machine.tokens[start]?.getD jump).position.column <;> rfl

/-- The target of a jump stands after the jump, and its end after it. -/
theorem findTarget_found {start stop : Nat}
    (ran : (findTarget label jump : Exec (StateM σ) (Nat × Nat)).on machine host =
      ((.ok (start, stop), after), later)) :
    after = machine ∧ later = host ∧ Target machine.tokens machine.pc label start stop := by
  rw [on_findTarget] at ran
  cases searched : targetFrom machine.tokens machine.pc label jump with
  | error error =>
    rw [searched] at ran
    cases ran
  | ok target =>
    rw [searched] at ran
    cases ran
    exact ⟨rfl, rfl, targetFrom_eq_ok.mp searched⟩

/-- A search for a target that fails says why, and changes nothing. -/
theorem findTarget_failed {stop : Stop}
    (ran : (findTarget jump.nameOrEmpty jump : Exec (StateM σ) (Nat × Nat)).on machine host =
      ((.error stop, after), later)) :
    after = machine ∧
      ∃ error, stop = .fault (.executed error) ∧ NoTarget machine.tokens machine.pc jump error := by
  unfold findTarget at ran
  rw [on_bind, on_get] at ran
  simp only at ran
  split at ran
  · rename_i absent
    cases ran
    exact ⟨rfl, _, rfl, .missing absent⟩
  · rename_i start found
    obtain ⟨_, ⟨opener, held, _⟩, _⟩ := firstFrom_eq_some_iff.mp found
    split at ran
    · rename_i endless
      cases ran
      rw [held] at endless ⊢
      exact ⟨rfl, _, rfl, .unterminated found held endless⟩
    · cases ran

end Targets

section Constructs
variable {σ α : Type} [Host (StateM σ)] {R : Nat → Machine → Option Stop → Machine → Prop}
  (steady : Steady σ R) {levels : Nat} (further : ∀ less, levels = less + 1 → LevelKeeps σ R less)
include steady further

theorem keeps_inside {position : Position} {body : Level (StateM σ) → Exec (StateM σ) α}
    (kept : ∀ less, LevelKeeps σ R less →
      Keeps (R less) (body ⟨stepWith (level? less), perform (level? less)⟩)) :
    Keeps (R levels) (inside (level? levels) position body) := by
  cases levels with
  | zero => exact keeps_raise steady _
  | succ less => exact keeps_counted steady (kept less (further less rfl))

theorem keeps_group (opener : Token) :
    Keeps (R levels) (group (level? levels) opener : Exec (StateM σ) Value) :=
  keeps_inside steady further fun _ inner =>
    keeps_bind steady
      (keeps_whileTokens steady (keeps_groupContinues steady opener) (fun _ => inner.step) ())
      fun _ => keeps_pop steady

theorem keeps_expressionFrom (token : Token) :
    Keeps (R levels) (expressionFrom (level? levels) token : Exec (StateM σ) Value) := by
  unfold expressionFrom
  split
  · exact keeps_group steady further token
  · exact keeps_lookup steady token
  · exact keeps_pure steady _

theorem keeps_expression : Keeps (R levels) (expression (level? levels) : Exec (StateM σ) Value) :=
  keeps_bind steady (keeps_consume steady) (keeps_expressionFrom steady further)

/-- A command that is used as an operand leads on from before its token. -/
theorem leads_operand {machine : Machine} {token : Token} {command : Command}
    (next : machine.current? = some token) (kind : token.kind = .command command) (host : σ) :
    LeadsPast (R levels) machine (machine.pc + 1)
      ((inside (level? levels) token.position fun inner => do
        inner.perform command
        pop : Exec (StateM σ) Value).on { machine with pc := machine.pc + 1 } host) := by
  cases levels with
  | zero => exact leads_past steady (leads_skip steady next) (Nat.le_refl _) (steady.halt _ rfl)
  | succ less =>
    have next : (entered machine).current? = some token := next
    have performed : LeadsPast (R less) (entered machine) (machine.pc + 1)
        ((perform (level? less) command).on (entered { machine with pc := machine.pc + 1 }) host) :=
      (further less rfl).use next kind host
    have popped := leads_past_then steady performed fun _ => keeps_pop steady
    exact ⟨steady.nested popped.1, popped.2⟩

theorem leads_valueFrom {machine : Machine} {token : Token} (next : machine.current? = some token)
    (host : σ) :
    LeadsPast (R levels) machine (machine.pc + 1)
      ((valueFrom (level? levels) token).on { machine with pc := machine.pc + 1 } host) := by
  have kept {action : Exec (StateM σ) Value} (rest : Keeps (R levels) action) :
      LeadsPast (R levels) machine (machine.pc + 1)
        (action.on { machine with pc := machine.pc + 1 } host) :=
    leads_past steady (leads_skip steady next) (Nat.le_refl _) (rest _ _)
  unfold valueFrom
  split
  · rename_i command kind
    exact leads_operand steady further next kind host
  · exact kept (keeps_group steady further token)
  · split
    · exact kept (keeps_pop steady)
    · exact kept (keeps_lookup steady token)
  · exact kept (keeps_pure steady _)

theorem keeps_value : Keeps (R levels) (value (level? levels) : Exec (StateM σ) Value) := by
  intro machine host
  unfold value
  rw [on_bind, on_consume]
  cases next : machine.current? with
  | none => exact steady.halt machine rfl
  | some token => exact (leads_valueFrom steady further next host).1

theorem keeps_boolean (operator : String) :
    Keeps (R levels) (boolean (level? levels) operator : Exec (StateM σ) Bool) := by
  refine keeps_bind steady (keeps_expression steady further) fun value => ?_
  split
  · exact keeps_pure steady _
  · exact keeps_bind steady (keeps_lastPlace steady) fun _ => keeps_raise steady _

theorem keeps_compare (operator : Operator) (name : String) (index : Nat) :
    Keeps (R levels) (compare (level? levels) operator name index : Exec (StateM σ) Bool) := by
  refine keeps_bind steady (keeps_operandBefore steady index) fun left => ?_
  refine keeps_bind steady (keeps_expression steady further) fun right => ?_
  split
  · exact keeps_pure steady _
  · exact keeps_bind steady (keeps_lastPlace steady) fun _ => keeps_raise steady _

theorem keeps_binary (operator : Operator) :
    Keeps (R levels) (binary (level? levels) operator : Exec (StateM σ) Unit) :=
  keeps_bind steady (keeps_bind steady (keeps_get steady) fun _ => keeps_pure steady _) fun _ =>
    keeps_bind steady (keeps_compare steady further operator _ _) fun _ => keeps_push steady _

theorem keeps_negate : Keeps (R levels) (negate (level? levels) : Exec (StateM σ) Unit) := by
  intro machine host
  unfold negate
  refine leads_bind steady (steady.refl machine) ?_
  rintro index _ _ ⟨⟩
  rw [on_bind, on_current?]
  cases next : machine.current? with
  | none =>
    exact keeps_bind steady (keeps_boolean steady further _) (fun _ => keeps_push steady _) _ _
  | some token =>
    by_cases equals : token.kind = .binary .equal
    · simp only [Option.any_some, equals, decide_true, ↓reduceIte]
      refine leads_bind steady (leads_skip steady next) ?_
      rintro _ _ _ ⟨⟩
      exact keeps_bind steady (keeps_compare steady further _ _ _)
        (fun _ => keeps_push steady _) _ _
    · simp only [Option.any_some, equals, decide_false, Bool.false_eq_true, ↓reduceIte]
      exact keeps_bind steady (keeps_boolean steady further _) (fun _ => keeps_push steady _) _ _

theorem keeps_assignment (keyword : Token) :
    Keeps (R levels) (assignment (level? levels) keyword : Exec (StateM σ) Unit) := by
  have tail : Keeps (R levels) (do
      let result ← value (level? levels)
      takeKeyword .target "TO"
      let name ← takeTarget
      assign name result : Exec (StateM σ) Unit) :=
    keeps_bind steady (keeps_value steady further) (keeps_assignTarget steady)
  unfold assignment
  split
  · exact keeps_bind steady (keeps_takeKeyword steady _ _) fun _ => tail
  · exact tail

theorem keeps_arithmetic (operation : Arithmetic) :
    Keeps (R levels) (arithmetic (level? levels) operation : Exec (StateM σ) Unit) := by
  refine keeps_bind steady (keeps_value steady further) fun left => ?_
  refine keeps_bind steady (keeps_value steady further) fun right => ?_
  split
  · exact keeps_push steady _
  · exact keeps_bind steady (keeps_lastPlace steady) fun _ => keeps_raise steady _
  · exact keeps_bind steady (keeps_lastPlace steady) fun _ => keeps_raise steady _

theorem keeps_takePrompt :
    Keeps (R levels) (takePrompt (level? levels) : Exec (StateM σ) (Option String)) := by
  intro machine host
  unfold takePrompt
  rw [on_bind, on_get]
  simp only
  split
  · rename_i asked
    obtain ⟨token, following, _⟩ := Option.map_eq_some_iff.mp asked.2
    have inside := (Array.getElem?_eq_some_iff.mp following).1
    refine leads_bind steady (steady.pass (Nat.le_add_right _ 2) (by omega)) ?_
    rintro _ _ _ ⟨⟩
    exact keeps_bind steady (keeps_value steady further) (fun _ => keeps_pure steady _) _ _
  · exact steady.refl machine

theorem leads_takeInput {machine started : Machine} {token : Token}
    (next : machine.current? = some token) (kind : token.kind = .command .read)
    (begins : Begins machine token started) (host : σ) :
    LeadsPast (R levels) machine (machine.pc + 1)
      ((takeInput (level? levels)).on started host) := by
  obtain ⟨begun, past⟩ : R levels machine none started ∧ machine.pc + 1 ≤ started.pc :=
    leads_begins steady next begins
  refine leads_past_bind steady begun past (keeps_takeCast steady) ?_
  intro cast middle between walked
  have arrived : R levels machine none middle := steady.trans begun walked
  have ahead : machine.pc + 1 ≤ middle.pc := Nat.le_trans past (steady.counter walked)
  refine leads_past_bind steady arrived ahead (keeps_takePrompt steady further) ?_
  intro prompt last later prompted
  have stored (result : Value) : Keeps (R levels) (do
      record (.converted result)
      push result : Exec (StateM σ) Unit) :=
    keeps_bind steady (keeps_remark steady rfl) fun _ => keeps_push steady result
  refine leads_past_then steady
    (leads_readLine steady next begins (steady.trans walked prompted) kind prompt later) ?_
  intro line?
  cases line? with
  | none => exact keeps_bind steady (keeps_pure steady _) stored
  | some line =>
    simp only
    split
    · exact keeps_bind steady (keeps_pure steady _) stored
    · exact keeps_bind steady (keeps_lastPlace steady) fun _ =>
        keeps_bind steady (keeps_raise steady _) stored

theorem leads_print {machine started : Machine} {token : Token}
    (next : machine.current? = some token) (kind : token.kind = .command .print)
    (begins : Begins machine token started) (host : σ) :
    LeadsPast (R levels) machine (machine.pc + 1) ((print (level? levels)).on started host) := by
  obtain ⟨begun, past⟩ : R levels machine none started ∧ machine.pc + 1 ≤ started.pc :=
    leads_begins steady next begins
  refine leads_past_bind steady begun past
    (keeps_whileTokens steady (keeps_moreOnLine steady)
      (fun _ => keeps_bind steady (keeps_value steady further) fun _ => keeps_pure steady _) "") ?_
  intro line middle between walked
  exact leads_writeLine steady next begins walked kind line between

theorem keeps_exit : Keeps (R levels) (exit (level? levels) : Exec (StateM σ) Unit) := by
  refine keeps_bind steady (keeps_moreOnLine steady) fun more => ?_
  split
  · refine keeps_bind steady (keeps_value steady further) fun code => ?_
    simp only
    split
    · exact keeps_throw steady _
    · exact keeps_bind steady (keeps_lastPlace steady) fun _ => keeps_raise steady _
  · exact keeps_throw steady _

/-- A command leads on from before its token. -/
theorem leads_perform {machine started : Machine} {token : Token} {command : Command}
    (next : machine.current? = some token) (kind : token.kind = .command command)
    (begins : Begins machine token started) (host : σ) :
    LeadsPast (R levels) machine (machine.pc + 1)
      ((perform (level? levels) command).on started host) := by
  obtain ⟨begun, past⟩ : R levels machine none started ∧ machine.pc + 1 ≤ started.pc :=
    leads_begins steady next begins
  cases command with
  | arithmetic operation =>
    exact leads_past steady begun past (keeps_arithmetic steady further operation _ _)
  | read => exact leads_takeInput steady further next kind begins host
  | print => exact leads_print steady further next kind begins host
  | exit => exact leads_past steady begun past (keeps_exit steady further _ _)

theorem keeps_conditional (opener : Token) :
    Keeps (R levels) (conditional (level? levels) opener : Exec (StateM σ) Unit) := by
  refine keeps_bind steady (keeps_boolean steady further _) fun holds => ?_
  refine keeps_bind steady (keeps_remark steady rfl) fun _ => ?_
  cases holds with
  | true =>
    exact keeps_bind steady
      (keeps_inside steady further fun _ inner =>
        keeps_whileTokens steady (keeps_bodyContinues steady opener) (fun _ => inner.step) ())
      fun _ => keeps_takeEnd steady
  | false =>
    intro machine host
    simp only [Bool.false_eq_true, ↓reduceIte]
    rw [on_bind, on_get]
    simp only
    split
    · rename_i stop found
      exact leads_bind steady (leads_endOfBlock steady (Nat.le_refl _) found)
        fun _ _ _ _ => keeps_takeEnd steady _ _
    · exact steady.halt machine rfl

/-- A jump that is taken leads on from its guard, or from the jump itself if its label is lost. -/
theorem leads_follow {machine middle : Machine} {jump : Token}
    (takes : TakesJump σ machine jump middle) (walked : R levels machine none middle) (host : σ) :
    LeadsPast (R levels) machine middle.pc ((follow (level? levels) jump).on middle host) := by
  have body (stop : Nat) : Keeps (R levels) (do
      inside (level? levels) jump.position fun inner =>
        whileTokens (do return (← get).pc < stop) (fun _ => inner.step) ()
      if (← get).pc = stop then
        takeEnd : Exec (StateM σ) Unit) := by
    refine keeps_bind steady (keeps_inside steady further fun _ inner =>
      keeps_whileTokens steady (keeps_bind steady (keeps_get steady) fun _ => keeps_pure steady _)
        (fun _ => inner.step) ()) fun _ => ?_
    refine keeps_bind steady (keeps_get steady) fun machine => ?_
    split
    · exact keeps_takeEnd steady
    · exact keeps_pure steady _
  unfold follow
  rw [on_bind, on_addLabel]
  cases added : middle.labels.add jump.nameOrEmpty .unknown jump.position with
  | error error => exact leads_past steady walked (Nat.le_refl _) (steady.halt _ rfl)
  | ok labels =>
    obtain ⟨fresh, rfl⟩ := Labels.of_add added
    simp only
    rw [on_bind]
    rcases searched : (findTarget jump.nameOrEmpty jump).on
      (labelled middle jump.nameOrEmpty .unknown) host with ⟨⟨stop | ⟨start, stop⟩, after⟩, later⟩
    · obtain ⟨rfl, error, rfl, lost⟩ := findTarget_failed searched
      rw [labelled] at searched
      rw [searched]
      exact ⟨steady.lose takes walked fresh lost, Nat.le_refl _⟩
    · obtain ⟨rfl, rfl, target⟩ := findTarget_found searched
      rw [labelled] at searched
      rw [searched]
      simp only
      rw [on_bind, on_locateLabel, Labels.locate_insert, Table.insert_insert]
      exact leads_past steady walked (Nat.le_refl _)
        (steady.trans (steady.jumpTo fresh target) (body stop (jumped ..) later))

end Constructs

section Jumps
variable {σ : Type} [Host (StateM σ)] {R : Nat → Machine → Option Stop → Machine → Prop}
  (steady : Steady σ R) {levels : Nat} (further : ∀ less, levels = less + 1 → LevelKeeps σ R less)
include steady further

/-- The guard of a jump is evaluated, and decides whether the jump is taken. -/
theorem leads_guard {machine : Machine} {token keyword : Token}
    (next : machine.current? = some token) (kind : token.kind = .jump)
    (following : machine.tokens[machine.pc + 1]? = some keyword)
    (guards : keyword.kind = .conditional) (host : σ) :
    LeadsPast (R levels) machine (machine.pc + 1)
      ((do
        if ← boolean (level? levels) "JUMP" then
          follow (level? levels) token
        else
          record (.stayed token.nameOrEmpty) : Exec (StateM σ) Unit).on
        { taken machine token with pc := machine.pc + 2 } host) := by
  have inside : machine.pc + 1 < machine.tokens.size := (Array.getElem?_eq_some_iff.mp following).1
  have started : R levels machine none { taken machine token with pc := machine.pc + 2 } :=
    steady.trans (steady.take next) (steady.pass (Nat.le_succ _) inside)
  have evaluated := keeps_boolean steady further "JUMP"
    { taken machine token with pc := machine.pc + 2 } host
  rw [on_bind]
  rcases ran : (boolean (level? levels) "JUMP").on
    { taken machine token with pc := machine.pc + 2 } host with ⟨⟨stop | holds, after⟩, later⟩
  all_goals rw [ran] at evaluated
  · exact leads_past steady started (Nat.le_succ _) evaluated
  · have walked : R levels machine none after := steady.trans started evaluated
    have ahead : machine.pc + 1 ≤ after.pc :=
      Nat.le_trans (Nat.le_succ _) (steady.counter evaluated)
    cases holds with
    | false => exact leads_past steady walked ahead (steady.remark rfl _)
    | true =>
      have takes : TakesJump σ machine token after :=
        ⟨next, kind, by rw [following, Option.map_some, guards], levels, host, later, ran⟩
      obtain ⟨leads, past⟩ := leads_follow steady further takes walked later
      exact ⟨leads, Nat.le_trans ahead past⟩

theorem leads_jump {machine : Machine} {token : Token} (next : machine.current? = some token)
    (kind : token.kind = .jump) (host : σ) :
    LeadsPast (R levels) machine (machine.pc + 1)
      ((jump (level? levels) token).on (taken machine token) host) := by
  have started : R levels machine none (taken machine token) := steady.take next
  unfold jump
  rw [on_bind, on_get]
  simp only
  split
  · exact leads_past steady started (Nat.le_refl _) (steady.halt _ rfl)
  · rw [on_bind, on_consume]
    cases following : (taken machine token).current? with
    | none => exact leads_past steady started (Nat.le_refl _) (steady.halt _ rfl)
    | some keyword =>
      by_cases guards : keyword.kind = .conditional
      · simp only [guards, ne_eq, not_true_eq_false, ↓reduceIte]
        exact leads_guard steady further next kind following guards host
      · simp only [guards, ne_eq, not_false_eq_true, ↓reduceIte]
        exact leads_past steady started (Nat.le_refl _)
          (steady.trans (leads_skip steady following) (steady.halt _ rfl))

/-- Whatever token is taken next, its execution leads on and past it. -/
theorem leads_execute {machine : Machine} {token : Token} (next : machine.current? = some token)
    (host : σ) :
    LeadsPast (R levels) machine (machine.pc + 1)
      ((execute (level? levels) token).on (taken machine token) host) := by
  have kept {action : Exec (StateM σ) Unit}
      (rest : Leads (R levels) (taken machine token) (action.on (taken machine token) host)) :
      LeadsPast (R levels) machine (machine.pc + 1) (action.on (taken machine token) host) :=
    leads_past steady (steady.take next) (Nat.le_refl _) rest
  unfold execute
  split
  · exact kept (keeps_push steady _ _ _)
  · exact kept (keeps_push steady _ _ _)
  · exact kept (keeps_push steady _ _ _)
  · exact kept (keeps_binary steady further _ _ _)
  · exact kept (keeps_negate steady further _ _)
  · exact kept (keeps_bind steady (keeps_group steady further token)
      (fun _ => keeps_push steady _) _ _)
  · exact kept (keeps_assignment steady further token _ _)
  · exact kept (keeps_assignment steady further token _ _)
  · rename_i command kind
    exact leads_perform steady further next kind .executed host
  · rename_i kind
    exact leads_jump steady further next kind host
  · rename_i kind
    exact kept (leads_passOver steady next kind host)
  · exact kept (keeps_conditional steady further token _ _)
  all_goals exact kept (keeps_pure steady _ _ _)

end Jumps

/-- The variable right before an index. -/
def variableBefore (tokens : Array Token) (index : Nat) : Option Token :=
  (tokenBefore? tokens index).filter (·.kind = .identifier)

/-- An operand to the left is a variable, or else it is on the stack. -/
theorem on_operandBefore {σ : Type} (index : Nat) (machine : Machine) (host : σ) :
    (operandBefore index : Exec (StateM σ) Value).on machine host =
      ((variableBefore machine.tokens index).elim pop lookup : Exec (StateM σ) Value).on machine
        host := by
  unfold operandBefore variableBefore
  rw [on_bind, on_get]
  cases held : tokenBefore? machine.tokens index with
  | none => simp [held]
  | some token =>
    by_cases named : token.kind = .identifier <;> simp [held, named, Option.filter]

/-- A step takes the next token, logs it, and executes it. -/
theorem on_stepWith {σ : Type} [Host (StateM σ)] (inner? : Option (Level (StateM σ)))
    (machine : Machine) (host : σ) :
    (stepWith inner?).on machine host =
      match machine.current? with
      | some token => (execute inner? token).on (taken machine token) host
      | none =>
        ((.error (.fault (.executed (.unexpectedEndOfInput machine.lastPlace))), machine),
          host) := by
  unfold stepWith
  rw [on_bind, on_consume]
  cases machine.current? with
  | none => rfl
  | some token =>
    simp only
    rw [on_bind]
    rfl

/-- A step of a run may open as many nested constructs as the machine has levels left. -/
theorem on_step {σ : Type} [Host (StateM σ)] (machine : Machine) (host : σ) :
    (step : Exec (StateM σ) Unit).on machine host =
      (stepWith (level? (Machine.nestingLimit - machine.depth))).on machine host := by
  simp only [step, inner?, on_bind, on_get, on_pure]

theorem on_evaluateValue {σ : Type} [Host (StateM σ)] (machine : Machine) (host : σ) :
    (evaluateValue : Exec (StateM σ) Value).on machine host =
      (value (level? (Machine.nestingLimit - machine.depth))).on machine host := by
  simp only [evaluateValue, inner?, on_bind, on_get, on_pure]

theorem on_evaluateExpression {σ : Type} [Host (StateM σ)] (machine : Machine) (host : σ) :
    (evaluateExpression : Exec (StateM σ) Value).on machine host =
      (expression (level? (Machine.nestingLimit - machine.depth))).on machine host := by
  simp only [evaluateExpression, inner?, on_bind, on_get, on_pure]

theorem on_takeEnd {σ : Type} {machine : Machine} {host : σ} {closer : Token}
    (next : machine.current? = some closer) (closes : closer.kind = .blockEnd) :
    (takeEnd : Exec (StateM σ) Unit).on machine host =
      ((.ok (), { machine with pc := machine.pc + 1 }), host) := by
  unfold takeEnd
  rw [on_bind, on_current?, next]
  simp only [Option.any_some, closes, decide_true, ↓reduceIte]
  rfl

section Levels
variable {σ : Type} [Host (StateM σ)] {R : Nat → Machine → Option Stop → Machine → Prop}
  (steady : Steady σ R)
include steady

theorem keeps_stepWith {levels : Nat}
    (further : ∀ less, levels = less + 1 → LevelKeeps σ R less) :
    Keeps (R levels) (stepWith (level? levels) : Exec (StateM σ) Unit) := by
  intro machine host
  rw [on_stepWith]
  split
  · rename_i token next
    exact (leads_execute steady further next host).1
  · exact steady.halt machine rfl

/-- The induction on the nesting levels that are left: what is executed further in has one
level less. -/
theorem level_keeps (levels : Nat) : ∀ less, levels = less + 1 → LevelKeeps σ R less := by
  induction levels with
  | zero => rintro less ⟨⟩
  | succ levels ih =>
    rintro less ⟨⟩
    exact ⟨keeps_stepWith steady ih,
      fun next kind host => leads_perform steady ih next kind .used host⟩

/-- A step of a run keeps the relation of the levels that the machine has left. -/
theorem leads_step (machine : Machine) (host : σ) :
    Leads (R (Machine.nestingLimit - machine.depth)) machine (step.on machine host) := by
  rw [on_step]
  exact keeps_stepWith steady (level_keeps steady _) machine host

/-- What every step keeps, a whole walk keeps. -/
theorem keeps_toEnd_of_step (levels : Nat)
    (stepped : Keeps (R levels) (step : Exec (StateM σ) Unit)) :
    Keeps (R levels) (toEnd : Exec (StateM σ) Unit) :=
  keeps_whileTokens steady
    (keeps_bind steady (keeps_get steady) fun _ =>
      keeps_bind steady (keeps_get steady) fun _ => keeps_pure steady _)
    (fun _ => stepped) ()

end Levels

/-- A relation that does not depend on the levels is kept by a whole walk. -/
theorem keeps_toEnd {σ : Type} [Host (StateM σ)] {R : Machine → Option Stop → Machine → Prop}
    (steady : Steady σ fun _ => R) : Keeps R (toEnd : Exec (StateM σ) Unit) :=
  keeps_toEnd_of_step steady 0 fun machine host => leads_step steady machine host

end StackScript.Walk
