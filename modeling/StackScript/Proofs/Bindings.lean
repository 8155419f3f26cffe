import StackScript.Host.Transcript
import StackScript.Proofs.Progress

/-! Variables change by assignments only. What a walk does to them can be told from its log: the
bindings after it are the bindings before it, updated by the assignments that were logged, and each
of these stands in the program as a `TO` with the name of the variable right after it, between the
counter before the walk and the counter after it. An assignment that fails binds nothing itself. -/
namespace StackScript.Bindings
open Exec Walk Progress

/-- What an event does to the variables. -/
def rebound (event : Event) (bindings : Table Value) : Table Value :=
  match event with
  | .bound name value => bindings.insert name value
  | _ => bindings

/-- Whether an event tells of an assignment. -/
def isBinding : Event → Bool
  | .bound _ _ => true
  | _ => false

theorem rebound_of_plain {event : Event} (plain : isBinding event = false)
    (bindings : Table Value) : rebound event bindings = bindings := by
  cases event <;> first | rfl | cases plain

/-- Events, the last one first, of which none is an assignment to a variable. -/
theorem get?_foldr_rebound {name : String} {events : List Event}
    (unnamed : ∀ value, .bound name value ∉ events) (bindings : Table Value) :
    (events.foldr rebound bindings).get? name = bindings.get? name := by
  induction events with
  | nil => rfl
  | cons event earlier ih =>
    have before : (earlier.foldr rebound bindings).get? name = bindings.get? name :=
      ih fun value member => unnamed value (List.mem_cons_of_mem _ member)
    rw [List.foldr_cons, ← before]
    cases event with
    | bound other value =>
      have different : other ≠ name := by
        rintro rfl
        exact unnamed value List.mem_cons_self
      rw [rebound, Table.get?_insert, if_neg different]
    | _ => rfl

/-- A variable that has a value keeps having one. -/
theorem contains_foldr_rebound {name : String} {bindings : Table Value}
    (known : bindings.contains name = true) (events : List Event) :
    (events.foldr rebound bindings).contains name = true := by
  induction events with
  | nil => exact known
  | cons event earlier ih =>
    rw [List.foldr_cons]
    cases event with
    | bound other value =>
      rw [rebound, Table.contains_insert, ih]
      exact Bool.or_true _
    | _ => exact ih

/-- A `TO` and the name of a variable stand between two counters. -/
def TargetIn (tokens : Array Token) (start stop : Nat) (name : String) : Prop :=
  ∃ index, start ≤ index ∧ index + 1 < stop ∧ NamesTarget tokens index name

/-- How a machine changes its variables: by assignments that it logs, to targets that it goes
past. -/
structure Binds (before after : Machine) : Prop where
  tokens : after.tokens = before.tokens
  counter : before.pc ≤ after.pc
  logged : ∃ new, after.log = new ++ before.log ∧
    after.bindings = new.foldr rebound before.bindings ∧
    ∀ name value, .bound name value ∈ new → TargetIn before.tokens before.pc after.pc name

section Elementary
variable {before after : Machine}

/-- A change that logs no assignment. -/
theorem binds_of_plain (tokens : after.tokens = before.tokens) (counter : before.pc ≤ after.pc)
    (bindings : after.bindings = before.bindings) (new : List Event)
    (log : after.log = new ++ before.log) (plain : ∀ event ∈ new, isBinding event = false) :
    Binds before after := by
  refine ⟨tokens, counter, new, log, ?_, ?_⟩
  · rw [bindings]
    clear log
    induction new with
    | nil => rfl
    | cons event earlier ih =>
      rw [List.foldr_cons, rebound_of_plain (plain event List.mem_cons_self)]
      exact ih fun event member => plain event (List.mem_cons_of_mem _ member)
  · intro name value member
    cases plain _ member

/-- A change that logs nothing. -/
theorem binds_of_silent (tokens : after.tokens = before.tokens) (counter : before.pc ≤ after.pc)
    (bindings : after.bindings = before.bindings) (log : after.log = before.log) :
    Binds before after :=
  binds_of_plain tokens counter bindings [] log (by simp)

/-- A change that logs an event that is no assignment. -/
theorem binds_of_event {event : Event} (tokens : after.tokens = before.tokens)
    (counter : before.pc ≤ after.pc) (bindings : after.bindings = before.bindings)
    (log : after.log = event :: before.log) (plain : isBinding event = false) :
    Binds before after :=
  binds_of_plain tokens counter bindings [event] log (by simpa using plain)

theorem binds_refl (machine : Machine) : Binds machine machine :=
  binds_of_silent rfl (Nat.le_refl _) rfl rfl

theorem binds_trans {first second third : Machine} (early : Binds first second)
    (late : Binds second third) : Binds first third := by
  obtain ⟨old, oldLog, oldBindings, oldTargets⟩ := early.logged
  obtain ⟨new, newLog, newBindings, newTargets⟩ := late.logged
  have low := early.counter
  have high := late.counter
  refine ⟨late.tokens.trans early.tokens, Nat.le_trans low high, new ++ old, ?_, ?_, ?_⟩
  · rw [newLog, oldLog, List.append_assoc]
  · rw [newBindings, oldBindings, List.foldr_append]
  · intro name value member
    rcases List.mem_append.mp member with member | member
    · obtain ⟨index, after, before, names⟩ := newTargets name value member
      rw [early.tokens] at names
      exact ⟨index, Nat.le_trans low after, before, names⟩
    · obtain ⟨index, after, before, names⟩ := oldTargets name value member
      exact ⟨index, after, Nat.lt_of_lt_of_le before high, names⟩

/-- An assignment that is carried out has its target right before the counter. -/
theorem binds_bound {machine : Machine} {name : String}
    (names : NamesTarget machine.tokens machine.pc name) (value : Value) :
    Binds machine (bound { machine with pc := machine.pc + 2 } name value) := by
  refine ⟨rfl, Nat.le_add_right _ 2, [.bound name value], rfl, rfl, ?_⟩
  intro other result member
  cases List.mem_singleton.mp member
  exact ⟨machine.pc, Nat.le_refl _, Nat.lt_succ_self _, names⟩

end Elementary

theorem binds_steady {σ : Type} [Host (StateM σ)] :
    Steady σ fun _ before _ after => Binds before after where
  refl := binds_refl
  halt machine _ := binds_refl machine
  full _ := binds_refl _
  bare _ := binds_refl _
  trans := binds_trans
  counter walked := walked.counter
  take _ := binds_of_event rfl (Nat.le_succ _) rfl rfl rfl
  pass forward _ := binds_of_silent rfl forward rfl rfl
  push _ := binds_of_silent rfl (Nat.le_refl _) rfl rfl
  pop _ := binds_of_silent rfl (Nat.le_refl _) rfl rfl
  bind := binds_bound
  passBlock := by
    intro _ machine opener stop _ _ _ ends
    have after : machine.pc + 1 ≤ stop := (firstFrom_eq_some_iff.mp ends).1
    exact binds_of_event rfl after rfl rfl rfl
  jumpTo := by
    intro _ machine label start stop _ target
    have ahead : machine.pc ≤ start := (firstFrom_eq_some_iff.mp target.found).1
    exact binds_of_event rfl (Nat.le_succ_of_le ahead) rfl rfl rfl
  lose _ walked _ _ := binds_trans walked (binds_of_silent rfl (Nat.le_refl _) rfl rfl)
  remark := by
    intro _ event plain machine
    refine binds_of_event rfl (Nat.le_refl _) rfl rfl ?_
    cases event <;> first | rfl | cases plain
  call := by
    intro _ machine started middle token command event _ _ makes _ begun walked
    refine binds_trans begun (binds_trans walked (binds_of_event rfl (Nat.le_refl _) rfl rfl ?_))
    cases makes <;> rfl
  nested := by
    intro _ machine after _ walked
    have going : Binds machine (entered machine) :=
      binds_of_event rfl (Nat.le_refl _) rfl rfl rfl
    have coming : Binds after (left after) := binds_of_event rfl (Nat.le_refl _) rfl rfl rfl
    exact binds_trans going (binds_trans walked coming)

section Failing
variable {σ : Type} [Host (StateM σ)] {levels : Nat} {start : Machine} {host : σ}

/-- What an assignment leaves behind when it fails: the variables and the log as they were, or,
once it has started to take its value, as the taking of the value left them. -/
def BindsNothing (levels : Nat) (keyword : Token) (start : Machine) (host : σ) (after : Machine) :
    Prop :=
  let first := if keyword.kind = .declare then start.pc + 1 else start.pc
  let valued := ((value (level? levels)).on { start with pc := first } host).1.2
  (after.bindings = start.bindings ∧ after.log = start.log) ∨
    (after.bindings = valued.bindings ∧ after.log = valued.log)

omit [Host (StateM σ)] in
/-- Taking a keyword binds nothing and logs nothing, whether the keyword is there or not. -/
theorem takeKeyword_unbound (kind : TokenKind) (keyword : String) (start : Machine) (host : σ) :
    let after := ((takeKeyword kind keyword : Exec (StateM σ) Unit).on start host).1.2
    after.bindings = start.bindings ∧ after.log = start.log := by
  rw [on_takeKeyword]
  cases start.current? <;> exact ⟨rfl, rfl⟩

omit [Host (StateM σ)] in
/-- Taking the name of a target does not bind it yet. -/
theorem takeTarget_unbound (start : Machine) (host : σ) :
    let after := ((takeTarget : Exec (StateM σ) String).on start host).1.2
    after.bindings = start.bindings ∧ after.log = start.log := by
  rw [on_takeTarget]
  cases start.current? <;> exact ⟨rfl, rfl⟩

/-- An assignment that fails has failed in its value, or after it and before the binding. -/
theorem value_assigned_refused {stop : Stop} {after : Machine} {later : σ}
    (ran : (do
      let result ← value (level? levels)
      takeKeyword .target "TO"
      let name ← takeTarget
      assign name result : Exec (StateM σ) Unit).on start host = ((.error stop, after), later)) :
    let valued := ((value (level? levels)).on start host).1.2
    after.bindings = valued.bindings ∧ after.log = valued.log := by
  rw [on_bind] at ran
  rcases taken : (value (level? levels)).on start host with ⟨⟨fault | result, middle⟩, between⟩
  all_goals rw [taken] at ran
  · cases ran
    exact ⟨rfl, rfl⟩
  · have first := takeKeyword_unbound .target "TO" middle between
    simp only at ran ⊢
    rw [on_bind] at ran
    rcases led : (takeKeyword .target "TO").on middle between with ⟨⟨fault | ⟨⟩, last⟩, host⟩
    all_goals rw [led] at ran first
    · cases ran
      exact first
    · have second := takeTarget_unbound last host
      simp only at ran
      rw [on_bind] at ran
      rcases found : takeTarget.on last host with ⟨⟨fault | name, final⟩, more⟩
      all_goals rw [found] at ran second
      · cases ran
        exact ⟨second.1.trans first.1, second.2.trans first.2⟩
      · cases ran

theorem assignment_refused {keyword : Token} {stop : Stop} {after : Machine} {later : σ}
    (ran : (assignment (level? levels) keyword).on start host = ((.error stop, after), later)) :
    BindsNothing levels keyword start host after := by
  unfold assignment at ran
  unfold BindsNothing
  split at ran
  · rename_i declares
    have first := takeKeyword_unbound .assign "ASSIGN" start host
    rw [on_bind] at ran
    rcases led : (takeKeyword .assign "ASSIGN").on start host with ⟨⟨fault | ⟨⟩, middle⟩, between⟩
    all_goals rw [led] at ran first
    · cases ran
      exact .inl first
    · obtain ⟨_, rfl, rfl⟩ := takeKeyword_taken led
      rw [if_pos declares]
      exact .inr (value_assigned_refused ran)
  · rename_i plain
    rw [if_neg plain]
    exact .inr (value_assigned_refused ran)

end Failing

section Calls
variable {σ : Type} [Host (StateM σ)]

theorem call_binds (machine : Machine) (host : σ) : Binds machine (call machine host).1.2 := by
  have walked : Binds machine (toEnd.on machine host).1.2 := keeps_toEnd binds_steady machine host
  rw [call_eq]
  refine binds_trans walked ?_
  rcases (toEnd.on machine host).1.1 with (code | error) | ⟨⟩
  · exact binds_of_event rfl (Nat.le_refl _) rfl rfl rfl
  · exact binds_of_event rfl (Nat.le_refl _) rfl rfl rfl
  · exact binds_refl _

/-- A call, however it ends, changes variables by assignments only. The bindings after it are those
before it, updated by the assignments among its events in order; no variable loses its value; and
each variable that is bound on the way, or has another value in the end, is named right after a `TO`
between the counter before the call and the counter after it. An assignment that fails binds nothing
itself, at whatever nesting level it stands: what the taking of its value has bound stays. -/
theorem call_changes_targets (machine : Machine) (host : σ) :
    let ended := (call machine host).1.2
    (∃ new, ended.events = machine.events ++ new ∧
      ended.bindings = new.foldl (fun bindings event => rebound event bindings) machine.bindings ∧
      ∀ name value, .bound name value ∈ new →
        TargetIn machine.tokens machine.pc ended.pc name) ∧
    (∀ name, machine.bindings.contains name = true → ended.bindings.contains name = true) ∧
    (∀ name, ended.bindings.get? name ≠ machine.bindings.get? name →
      TargetIn machine.tokens machine.pc ended.pc name) ∧
    ∀ levels keyword start (host : σ) stop,
      ((assignment (level? levels) keyword).on start host).1.1 = .error stop →
        BindsNothing levels keyword start host
          ((assignment (level? levels) keyword).on start host).1.2 := by
  intro ended
  obtain ⟨past, log, bindings, targets⟩ := (call_binds machine host).logged
  refine ⟨⟨past.reverse, ?_, ?_, ?_⟩, ?_, ?_, ?_⟩
  · change ended.log.reverse = machine.log.reverse ++ past.reverse
    rw [log, List.reverse_append]
  · rw [List.foldl_reverse]
    exact bindings
  · intro name value member
    exact targets name value (List.mem_reverse.mp member)
  · intro name known
    rw [bindings]
    exact contains_foldr_rebound known past
  · intro name changed
    rw [bindings] at changed
    refine Classical.byContradiction fun never => changed (get?_foldr_rebound ?_ _)
    exact fun value member => never (targets name value member)
  · intro levels keyword start host stop failed
    rcases ran : (assignment (level? levels) keyword).on start host with ⟨⟨result, after⟩, later⟩
    rw [ran] at failed
    cases failed
    exact assignment_refused ran

/-- An assignment whose target is no name fails, but the one inside its value stays. -/
example :
    let program : Array Token := #[⟨.assign, .absent, ⟨1, 0⟩⟩, ⟨.leftParen, .absent, ⟨1, 7⟩⟩,
      ⟨.assign, .absent, ⟨1, 8⟩⟩, ⟨.boolean, .boolean true, ⟨1, 15⟩⟩, ⟨.target, .absent, ⟨1, 20⟩⟩,
      ⟨.identifier, .name "inner", ⟨1, 23⟩⟩, ⟨.boolean, .boolean false, ⟨1, 29⟩⟩,
      ⟨.rightParen, .absent, ⟨1, 34⟩⟩, ⟨.target, .absent, ⟨1, 36⟩⟩, ⟨.blockEnd, .absent, ⟨1, 39⟩⟩]
    let ended := (call (Machine.load program 1) (Transcript.ofInput [])).1
    ended.1 = .error (.written (.expectedIdentifier "TO" "END" ⟨1, 39⟩)) ∧
      ended.2.bindings = ⟨[("inner", .boolean true)]⟩ := ⟨rfl, rfl⟩

end Calls

end StackScript.Bindings
