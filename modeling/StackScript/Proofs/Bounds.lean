import StackScript.Host.Faulty
import StackScript.Proofs.Progress

/-! The bounds that a machine keeps at every moment: its operand stack never holds more values
than its capacity, and no more constructs are open at once than the nesting limit. A walk is
followed change by change, and every machine on the way is within the bounds. However a call
ends, all constructs that it opened are closed again. -/
namespace StackScript.Bounds
open Exec Walk Progress

/-- How many constructs are open after what a log tells, the last event first. -/
def openIn : List Event → Nat
  | [] => 0
  | .entered :: log => openIn log + 1
  | .left :: log => openIn log - 1
  | _ :: log => openIn log

/-- What a log says about each token that was executed is within the bounds: how many values were
on the stack, and how many constructs were open, which is as many as the log before it tells. -/
def Accounted (capacity : Nat) : List Event → Prop
  | [] => True
  | .dispatched dispatch :: earlier =>
    (dispatch.height ≤ capacity ∧ dispatch.depth = openIn earlier ∧
      dispatch.depth ≤ Machine.nestingLimit) ∧ Accounted capacity earlier
  | _ :: earlier => Accounted capacity earlier

/-- A machine within its bounds. -/
structure Within (capacity : Nat) (machine : Machine) : Prop where
  granted : machine.stack.capacity = capacity
  height : machine.stack.size ≤ capacity
  depth : machine.depth = openIn machine.log
  limit : machine.depth ≤ Machine.nestingLimit
  log : Accounted capacity machine.log

/-- Whether an event tells neither of a nesting level nor of a token that is executed. -/
def isNote : Event → Bool
  | .entered | .left | .dispatched _ => false
  | _ => true

/-- The changes that a walk is made of. -/
inductive Change : Machine → Machine → Prop where
  | take {machine : Machine} {token : Token} (next : machine.current? = some token) :
      Change machine (taken machine token)
  | pass {machine : Machine} {target : Nat} (forward : machine.pc ≤ target) :
      Change machine { machine with pc := target }
  | push {machine : Machine} {value : Value} {stack : Stack}
      (pushed : machine.stack.push value = .ok stack) : Change machine { machine with stack }
  | pop {machine : Machine} {value : Value} {stack : Stack}
      (popped : machine.stack.pop = .ok (value, stack)) : Change machine { machine with stack }
  | bind (machine : Machine) (name : String) (value : Value) :
      Change machine (bound machine name value)
  | label (machine : Machine) (label : String) (range : BlockRange) :
      Change machine (labelled machine label range)
  | note (machine : Machine) {event : Event} (plain : isNote event = true) :
      Change machine (machine.record event)
  /-- A construct is entered only below the nesting limit. -/
  | enter {machine : Machine} (room : machine.depth < Machine.nestingLimit) :
      Change machine (entered machine)
  | leave (machine : Machine) : Change machine (left machine)

/-- A walk from one machine to another, change by change, on which every machine satisfies `P`,
the first one and the last one among them. -/
inductive Through (P : Machine → Prop) : Machine → Machine → Prop where
  | stay {machine : Machine} (here : P machine) : Through P machine machine
  | go {before middle after : Machine} (here : P before) (change : Change before middle)
      (rest : Through P middle after) : Through P before after

section Paths
variable {P : Machine → Prop} {first second third : Machine}

theorem through_trans (before : Through P first second) (after : Through P second third) :
    Through P first third := by
  induction before with
  | stay _ => exact after
  | go here change _ ih => exact .go here change (ih after)

theorem through_change (here : P first) (change : Change first second) (there : P second) :
    Through P first second :=
  .go here change (.stay there)

theorem last_of_through (walked : Through P first second) : P second := by
  induction walked with
  | stay here => exact here
  | go _ _ _ ih => exact ih

end Paths

section Changes
variable {capacity : Nat} {machine : Machine}

theorem within_load (tokens : Array Token) (capacity : Nat) :
    Within capacity (Machine.load tokens capacity) :=
  ⟨rfl, Nat.zero_le _, rfl, Nat.zero_le _, trivial⟩

theorem openIn_note {event : Event} (plain : isNote event = true) (log : List Event) :
    openIn (event :: log) = openIn log := by
  cases event <;> first | rfl | cases plain

theorem accounted_note {event : Event} (plain : isNote event = true) {log : List Event} :
    Accounted capacity (event :: log) ↔ Accounted capacity log := by
  cases event <;> first | exact Iff.rfl | cases plain

/-- A change that leaves the stack, the depth and the log alone. -/
theorem within_of_same {other : Machine} (within : Within capacity machine)
    (stack : other.stack = machine.stack) (depth : other.depth = machine.depth)
    (log : other.log = machine.log) : Within capacity other := by
  constructor
  · rw [stack, within.granted]
  · rw [stack]
    exact within.height
  · rw [depth, log, within.depth]
  · rw [depth]
    exact within.limit
  · rw [log]
    exact within.log

theorem within_note {event : Event} (within : Within capacity machine)
    (plain : isNote event = true) : Within capacity (machine.record event) :=
  { within with
    depth := within.depth.trans (openIn_note plain machine.log).symm
    log := (accounted_note plain).mpr within.log }

theorem within_bound (within : Within capacity machine) (name : String) (value : Value) :
    Within capacity (bound machine name value) := by
  have noted : Within capacity (machine.record (.bound name value)) := within_note within rfl
  exact within_of_same noted rfl rfl rfl

theorem within_taken (within : Within capacity machine) (token : Token) :
    Within capacity (taken machine token) :=
  { within with
    depth := within.depth
    log := ⟨⟨within.height, within.depth, within.limit⟩, within.log⟩ }

/-- A push that succeeds had room. -/
theorem within_push {value : Value} {stack : Stack} (within : Within capacity machine)
    (pushed : machine.stack.push value = .ok stack) : Within capacity { machine with stack } := by
  unfold Stack.push at pushed
  split at pushed
  · rename_i room
    cases pushed
    exact { within with height := within.granted ▸ room }
  · cases pushed

theorem within_pop {value : Value} {stack : Stack} (within : Within capacity machine)
    (popped : machine.stack.pop = .ok (value, stack)) : Within capacity { machine with stack } := by
  unfold Stack.pop at popped
  split at popped
  · rename_i top rest held
    cases popped
    have height : machine.stack.values.length ≤ capacity := within.height
    rw [held] at height
    exact { within with height := Nat.le_of_succ_le height }
  · cases popped

theorem within_entered (within : Within capacity machine)
    (room : machine.depth < Machine.nestingLimit) : Within capacity (entered machine) :=
  { within with
    depth := congrArg (· + 1) within.depth
    limit := room }

theorem within_left (within : Within capacity machine) : Within capacity (left machine) :=
  { within with
    depth := congrArg (· - 1) within.depth
    limit := Nat.le_trans (Nat.sub_le _ _) within.limit }

end Changes

/-- A stop that blames the operand stack is right about it. -/
def Justified (capacity : Nat) (machine : Machine) : Option Stop → Prop
  | some (.fault (.executed (.stackOverflow named))) =>
    named = capacity ∧ machine.stack.size = capacity
  | some (.fault (.executed .stackUnderflow)) => machine.stack.values = []
  | _ => True

theorem justified_of_plain {stop : Stop} (plain : blamesStack stop = false) (capacity : Nat)
    (machine : Machine) : Justified capacity machine (some stop) := by
  unfold Justified
  split
  · rename_i blamed
    cases blamed
    cases plain
  · rename_i blamed
    cases blamed
    cases plain
  · trivial

/-- A walk that may nest some more levels stays within the bounds, closes what it opens, and
blames the stack only if the stack is to blame. -/
structure Stays (levels : Nat) (before : Machine) (stop? : Option Stop) (after : Machine) :
    Prop where
  counter : before.pc ≤ after.pc
  depth : after.depth = before.depth
  capacity : after.stack.capacity = before.stack.capacity
  through (capacity : Nat) (within : Within capacity before)
    (budget : before.depth + levels = Machine.nestingLimit) :
    Through (Within capacity) before after ∧ Justified capacity after stop?

section Steady
variable {levels : Nat} {machine : Machine}

/-- A single change. -/
theorem stays_of_change {after : Machine} (counter : machine.pc ≤ after.pc)
    (depth : after.depth = machine.depth)
    (capacity : after.stack.capacity = machine.stack.capacity) (change : Change machine after)
    (kept : ∀ capacity, Within capacity machine → Within capacity after) :
    Stays levels machine none after :=
  ⟨counter, depth, capacity, fun capacity within _ =>
    ⟨through_change within change (kept capacity within), trivial⟩⟩

theorem stays_refl (machine : Machine) : Stays levels machine none machine :=
  ⟨Nat.le_refl _, rfl, rfl, fun _ within _ => ⟨.stay within, trivial⟩⟩

theorem stays_stopped {stop : Stop}
    (justified : ∀ capacity, Within capacity machine → Justified capacity machine (some stop)) :
    Stays levels machine (some stop) machine :=
  ⟨Nat.le_refl _, rfl, rfl, fun capacity within _ => ⟨.stay within, justified capacity within⟩⟩

theorem stays_trans {first second third : Machine} {stop? : Option Stop}
    (before : Stays levels first none second) (after : Stays levels second stop? third) :
    Stays levels first stop? third := by
  refine ⟨Nat.le_trans before.counter after.counter, after.depth.trans before.depth,
    after.capacity.trans before.capacity, ?_⟩
  intro capacity within budget
  have walked : Through (Within capacity) first second := (before.through capacity within budget).1
  obtain ⟨rest, justified⟩ := after.through capacity (last_of_through walked)
    (by rw [before.depth, budget])
  exact ⟨through_trans walked rest, justified⟩

theorem stays_note {event : Event} (plain : isNote event = true) (machine : Machine) :
    Stays levels machine none (machine.record event) :=
  stays_of_change (Nat.le_refl _) rfl rfl (.note machine plain) fun _ within =>
    within_note within plain

theorem stays_pass {target : Nat} (forward : machine.pc ≤ target) :
    Stays levels machine none { machine with pc := target } :=
  stays_of_change forward rfl rfl (.pass forward) fun _ within =>
    within_of_same within rfl rfl rfl

theorem stays_labelled (machine : Machine) (label : String) (range : BlockRange) :
    Stays levels machine none (labelled machine label range) :=
  stays_of_change (Nat.le_refl _) rfl rfl (.label machine label range) fun _ within =>
    within_of_same within rfl rfl rfl

/-- A block is recorded, that is logged, and the walk goes on further right. -/
theorem stays_visited {label : String} {range : BlockRange} {event : Event} {target : Nat}
    (plain : isNote event = true) (forward : machine.pc ≤ target) :
    Stays levels machine none
      { (labelled machine label range).record event with pc := target } := by
  have recorded : Stays levels machine none (labelled machine label range) :=
    stays_labelled machine label range
  exact stays_trans recorded (stays_trans (stays_note plain _) (stays_pass forward))

/-- A full stack holds as many values as it may. -/
theorem stays_full {value : Value} {error : RuntimeError}
    (refused : machine.stack.push value = .error error) :
    Stays levels machine (some (.fault (.executed error))) machine := by
  obtain ⟨full, rfl⟩ := Stack.push_eq_error_iff.mp refused
  refine stays_stopped fun capacity within => ⟨within.granted, ?_⟩
  rw [within.granted] at full
  exact Nat.le_antisymm within.height full

theorem stays_bare {error : RuntimeError} (refused : machine.stack.pop = .error error) :
    Stays levels machine (some (.fault (.executed error))) machine := by
  obtain ⟨bare, rfl⟩ := Stack.pop_eq_error_iff.mp refused
  exact stays_stopped fun _ _ => bare

/-- What is executed one nesting level further in has one level less, and the level is closed
again, however that ends. -/
theorem stays_nested {after : Machine} {stop? : Option Stop}
    (inner : Stays levels (entered machine) stop? after) :
    Stays (levels + 1) machine stop? (left after) := by
  have depth : after.depth = machine.depth + 1 := inner.depth
  refine ⟨inner.counter, ?_, inner.capacity, ?_⟩
  · change after.depth - 1 = machine.depth
    omega
  · intro capacity within budget
    have room : machine.depth < Machine.nestingLimit := by omega
    have deeper : (entered machine).depth + levels = Machine.nestingLimit := by
      change machine.depth + 1 + levels = Machine.nestingLimit
      omega
    obtain ⟨walked, justified⟩ := inner.through capacity (within_entered within room) deeper
    have there : Within capacity after := last_of_through walked
    refine ⟨?_, justified⟩
    exact .go within (.enter room)
      (through_trans walked (through_change there (.leave after) (within_left there)))

theorem stays_steady {σ : Type} [Host (StateM σ)] : Steady σ Stays where
  refl := stays_refl
  halt _ plain := stays_stopped fun _ _ => justified_of_plain plain _ _
  full := stays_full
  bare := stays_bare
  trans := stays_trans
  counter stayed := stayed.counter
  take next :=
    stays_of_change (Nat.le_succ _) rfl rfl (.take next) fun _ within => within_taken within _
  pass forward _ := stays_pass forward
  push pushed :=
    stays_of_change (Nat.le_refl _) rfl (Stack.capacity_of_push pushed) (.push pushed)
      fun _ within => within_push within pushed
  pop popped :=
    stays_of_change (Nat.le_refl _) rfl (Stack.capacity_of_pop popped) (.pop popped)
      fun _ within => within_pop within popped
  bind := by
    intro levels machine name _ value
    refine stays_trans (stays_pass (Nat.le_add_right _ 2)) ?_
    exact stays_of_change (Nat.le_refl _) rfl rfl (.bind _ name value)
      fun _ within => within_bound within name value
  passBlock := by
    intro levels machine opener stop _ _ _ ends
    exact stays_visited rfl (firstFrom_eq_some_iff.mp ends).1
  jumpTo := by
    intro levels machine label start stop _ target
    have ahead : machine.pc ≤ start := (firstFrom_eq_some_iff.mp target.found).1
    exact stays_visited rfl (Nat.le_succ_of_le ahead)
  lose := by
    intro levels machine middle jump error _ walked _ lost
    have plain : blamesStack (.fault (.executed error)) = false := by cases lost <;> rfl
    refine stays_trans walked (stays_trans (stays_labelled middle jump.nameOrEmpty .unknown) ?_)
    exact stays_stopped fun _ _ => justified_of_plain plain _ _
  remark := by
    intro levels event plain machine
    refine stays_note ?_ machine
    cases event <;> first | rfl | cases plain
  call := by
    intro levels machine started middle token command event _ _ makes _ begun walked
    refine stays_trans begun (stays_trans walked (stays_note ?_ middle))
    cases makes <;> rfl
  nested := stays_nested

end Steady

section Calls
variable {σ : Type} [Host (StateM σ)]

/-- A step of a run has the whole nesting budget, if nothing is open. -/
theorem step_stays : Keeps (Stays Machine.nestingLimit) (step : Exec (StateM σ) Unit) := by
  intro machine host
  have stepped := leads_step stays_steady machine host
  refine ⟨stepped.counter, stepped.depth, stepped.capacity, ?_⟩
  intro capacity within budget
  have closed : machine.depth = 0 := by omega
  exact stepped.through capacity within (by omega)

theorem conclude_stays (machine : Machine) (result : Except Stop Unit) :
    Stays Machine.nestingLimit machine none (machine.conclude result).2 := by
  rcases result with (code | error) | ⟨⟩
  · exact stays_note rfl machine
  · exact stays_note rfl machine
  · exact stays_refl machine

/-- A call leaves the capacity alone, whatever state it starts from. -/
theorem call_capacity (machine : Machine) (host : σ) :
    (call machine host).1.2.stack.capacity = machine.stack.capacity := by
  have walked := keeps_toEnd_of_step stays_steady Machine.nestingLimit step_stays machine host
  have concluded := conclude_stays (toEnd.on machine host).1.2 (toEnd.on machine host).1.1
  exact concluded.capacity.trans walked.capacity

/-- A call that starts with nothing open stays within the bounds and leaves nothing open, and a
fault that blames the stack is right about it. -/
theorem call_within {machine : Machine} {capacity : Nat} (within : Within capacity machine)
    (closed : machine.depth = 0) (host : σ) :
    let ended := call machine host
    Through (Within capacity) machine ended.1.2 ∧ ended.1.2.depth = 0 ∧
      ∀ error, ended.1.1 = .error error → Justified capacity ended.1.2 (some (.fault error)) := by
  intro ended
  have walked := keeps_toEnd_of_step stays_steady Machine.nestingLimit step_stays machine host
  rcases ran : toEnd.on machine host with ⟨⟨result, after⟩, later⟩
  have here : ended = (after.conclude result, later) := by
    change call machine host = _
    rw [call_eq, ran]
  rw [ran] at walked
  have depth : after.depth = 0 := walked.depth.trans closed
  have concluded := conclude_stays after result
  obtain ⟨path, justified⟩ := walked.through capacity within (by omega)
  obtain ⟨rest, _⟩ := concluded.through capacity (last_of_through path) (by omega)
  rw [here]
  refine ⟨through_trans path rest, concluded.depth.trans depth, ?_⟩
  rintro error failed
  rcases result with (code | other) | ⟨⟩
  · cases failed
  · cases failed
    exact justified
  · cases failed

theorem calls_within (tokens : Array Token) (capacity : Nat) (host : σ) (count : Nat) :
    let machine := (calls (Machine.load tokens capacity) host count).1
    Within capacity machine ∧ machine.depth = 0 := by
  induction count with
  | zero => exact ⟨within_load tokens capacity, rfl⟩
  | succ count ih =>
    obtain ⟨walked, closed, _⟩ :=
      call_within ih.1 ih.2 (calls (Machine.load tokens capacity) host count).2
    exact ⟨last_of_through walked, closed⟩

/-- Calls of one machine, in any number and with any host, stay within the bounds. At every moment
of a call the capacity is what it was, the stack holds no more values than that, and the depth is
the number of open constructs, which is at most the nesting limit. When the call returns, however
it ends, nothing is open, so that the next call has all levels again. An overflow is reported only
of a stack that holds as many values as its capacity, and an underflow only of an empty one. -/
theorem calls_stay_within (tokens : Array Token) (capacity : Nat) (host : σ) (count : Nat) :
    let before := calls (Machine.load tokens capacity) host count
    let ended := call before.1 before.2
    Through (Within capacity) before.1 ended.1.2 ∧ ended.1.2.depth = 0 ∧
      (∀ named, ended.1.1 = .error (.executed (.stackOverflow named)) →
        named = capacity ∧ ended.1.2.stack.size = capacity) ∧
      (ended.1.1 = .error (.executed .stackUnderflow) → ended.1.2.stack.isEmpty = true) := by
  intro before ended
  obtain ⟨within, closed⟩ := calls_within tokens capacity host count
  obtain ⟨walked, depth, justified⟩ := call_within within closed before.2
  refine ⟨walked, depth, ?_, ?_⟩
  · intro named overflowed
    exact justified _ overflowed
  · intro ran
    have bare : ended.1.2.stack.values = [] := justified _ ran
    rw [Stack.isEmpty, bare]
    rfl

/-- Two groups are open when the host refuses a line, and both are closed again. -/
example :
    let printing : Array Token := #[⟨.leftParen, .absent, ⟨1, 0⟩⟩, ⟨.leftParen, .absent, ⟨1, 1⟩⟩,
      ⟨.command .print, .absent, ⟨1, 2⟩⟩, ⟨.rightParen, .absent, ⟨1, 7⟩⟩]
    let host : FaultyHost := ⟨[], .ofFailures [(1, "closed")], .ofFailures []⟩
    let ended := (call (Machine.load printing 0) host).1
    ended.1 = .error (.executed (.hostFailure "closed")) ∧ ended.2.log.count .entered = 2 ∧
      ended.2.depth = 0 := ⟨rfl, rfl, rfl⟩

end Calls

end StackScript.Bounds
