import StackScript.Proofs.Walk

/-! The walk over the tokens goes forward only. The counter never decreases and never leaves the
program, every token is executed at most once, and each loop of the walk ends by itself: the
bound that the definition puts on a loop is never what stops it. A machine that is run again and
again therefore completes after at most one call more than it has tokens. -/
namespace StackScript.Progress
open Exec Walk

/-- The indices of the tokens that a log says were executed, the last one first. -/
def indices (log : List Event) : List Nat :=
  log.filterMap fun
    | .dispatched dispatch => some dispatch.index
    | _ => none

@[simp] theorem indices_append (new old : List Event) :
    indices (new ++ old) = indices new ++ indices old := List.filterMap_append

/-- How a machine moves: forward, inside its program, and over tokens that are new. -/
structure Forward (before after : Machine) : Prop where
  tokens : after.tokens = before.tokens
  counter : before.pc ≤ after.pc
  within : before.pc ≤ before.tokens.size → after.pc ≤ before.tokens.size
  /-- What is logged on the way names tokens between the two counters, each later one with a
  larger index. -/
  logged : ∃ new, after.log = new ++ before.log ∧ (indices new).Pairwise (· > ·) ∧
    ∀ index ∈ indices new, before.pc ≤ index ∧ index < after.pc

/-- A change that executes no token, but may pass some. -/
theorem forward_of_pass {before after : Machine} (tokens : after.tokens = before.tokens)
    (counter : before.pc ≤ after.pc)
    (within : before.pc ≤ before.tokens.size → after.pc ≤ before.tokens.size) (new : List Event)
    (log : after.log = new ++ before.log) (silent : indices new = []) : Forward before after := by
  refine ⟨tokens, counter, within, new, log, ?_, ?_⟩
  · rw [silent]
    exact .nil
  · rw [silent]
    simp

/-- A change that takes no token. -/
theorem forward_of_same {before after : Machine} (tokens : after.tokens = before.tokens)
    (counter : after.pc = before.pc) (new : List Event) (log : after.log = new ++ before.log)
    (silent : indices new = []) : Forward before after :=
  forward_of_pass tokens (Nat.le_of_eq counter.symm) (fun within => counter ▸ within) new log silent

theorem forward_refl (machine : Machine) : Forward machine machine :=
  forward_of_same rfl rfl [] rfl rfl

theorem forward_trans {first second third : Machine} (before : Forward first second)
    (after : Forward second third) : Forward first third := by
  obtain ⟨early, earlyLog, earlyOrder, earlyBound⟩ := before.logged
  obtain ⟨late, lateLog, lateOrder, lateBound⟩ := after.logged
  refine ⟨after.tokens.trans before.tokens, Nat.le_trans before.counter after.counter, ?_,
    late ++ early, ?_, ?_, ?_⟩
  · intro within
    have := after.within (before.tokens.symm ▸ before.within within)
    rwa [before.tokens] at this
  · rw [lateLog, earlyLog, List.append_assoc]
  · -- Everything logged later lies at or beyond the counter in the middle, everything logged
    -- earlier before it.
    rw [indices_append, List.pairwise_append]
    refine ⟨lateOrder, earlyOrder, ?_⟩
    intro newer memberLate older memberEarly
    have lower := (lateBound newer memberLate).1
    have upper := (earlyBound older memberEarly).2
    omega
  · intro index member
    rw [indices_append, List.mem_append] at member
    have low := before.counter
    have high := after.counter
    rcases member with member | member
    · have := lateBound index member
      omega
    · have := earlyBound index member
      omega

theorem forward_take {machine : Machine} {token : Token} (next : machine.current? = some token) :
    Forward machine (taken machine token) := by
  have inside := inside_of_current next
  refine ⟨rfl, Nat.le_succ _, fun _ => inside, [.dispatched _], rfl, ?_, ?_⟩
  · simp [indices]
  · intro index member
    simp only [indices, List.filterMap_cons, List.filterMap_nil, List.mem_singleton] at member
    subst member
    exact ⟨Nat.le_refl _, Nat.lt_succ_self _⟩

theorem forward_steady {σ : Type} [Host (StateM σ)] :
    Steady σ fun _ before _ after => Forward before after where
  refl := forward_refl
  halt machine _ := forward_refl machine
  full _ := forward_refl _
  bare _ := forward_refl _
  trans := forward_trans
  counter moved := moved.counter
  take := forward_take
  pass forward within := forward_of_pass rfl forward (fun _ => within) [] rfl rfl
  push _ := forward_of_same rfl rfl [] rfl rfl
  pop _ := forward_of_same rfl rfl [] rfl rfl
  bind := by
    intro _ machine name names value
    obtain ⟨target, held, _⟩ := names.target
    have inside : machine.pc + 1 < machine.tokens.size := (Array.getElem?_eq_some_iff.mp held).1
    exact forward_of_pass rfl (Nat.le_add_right _ 2) (fun _ => inside) [.bound name value] rfl rfl
  passBlock := by
    intro _ machine opener stop next _ _ ends
    obtain ⟨after, ⟨closer, closes, _⟩, _⟩ := firstFrom_eq_some_iff.mp ends
    have inside := (Array.getElem?_eq_some_iff.mp closes).1
    exact forward_of_pass rfl after (fun _ => Nat.le_of_lt inside) [.passed _ machine.pc stop] rfl
      rfl
  jumpTo := by
    intro _ machine label start stop _ target
    obtain ⟨ahead, ⟨opener, opens, _⟩, _⟩ := firstFrom_eq_some_iff.mp target.found
    have inside := (Array.getElem?_eq_some_iff.mp opens).1
    exact forward_of_pass rfl (Nat.le_succ_of_le ahead) (fun _ => inside)
      [.jumped label start stop] rfl rfl
  lose _ walked _ _ := forward_trans walked (forward_of_same rfl rfl [] rfl rfl)
  remark := by
    intro _ event plain machine
    refine forward_of_same rfl rfl [event] rfl ?_
    cases event <;> first | rfl | cases plain
  call := by
    intro _ machine started middle token command event _ _ makes _ begun walked
    refine forward_trans begun (forward_trans walked (forward_of_same rfl rfl [event] rfl ?_))
    cases makes <;> rfl
  nested := by
    intro _ machine after _ moved
    have going : Forward machine (entered machine) := forward_of_same rfl rfl [.entered] rfl rfl
    have coming : Forward after (left after) := forward_of_same rfl rfl [.left] rfl rfl
    exact forward_trans going (forward_trans moved coming)

section Loops
variable {σ α : Type} {test : Exec (StateM σ) Bool} {body : α → Exec (StateM σ) α}

/-- The loop without a bound: a derivation is a finite run of it to its end. -/
inductive Loop (test : Exec (StateM σ) Bool) (body : α → Exec (StateM σ) α) :
    α → Machine → σ → (Except Stop α × Machine) × σ → Prop where
  | refused {start : α} {machine after : Machine} {host later : σ} {stop : Stop}
      (asked : test.on machine host = ((.error stop, after), later)) :
      Loop test body start machine host ((.error stop, after), later)
  | finished {start : α} {machine after : Machine} {host later : σ}
      (asked : test.on machine host = ((.ok false, after), later)) :
      Loop test body start machine host ((.ok start, after), later)
  | broken {start : α} {machine middle after : Machine} {host between later : σ} {stop : Stop}
      (asked : test.on machine host = ((.ok true, middle), between))
      (ran : (body start).on middle between = ((.error stop, after), later)) :
      Loop test body start machine host ((.error stop, after), later)
  | again {start next : α} {machine middle after : Machine} {host between later : σ}
      {result : (Except Stop α × Machine) × σ}
      (asked : test.on machine host = ((.ok true, middle), between))
      (ran : (body start).on middle between = ((.ok next, after), later))
      (rest : Loop test body next after later result) :
      Loop test body start machine host result

section Inversion
variable {start next : α} {machine middle after : Machine} {host between later : σ} {stop : Stop}
  {result : (Except Stop α × Machine) × σ} (looped : Loop test body start machine host result)
include looped

theorem loop_refused (asked : test.on machine host = ((.error stop, after), later)) :
    result = ((.error stop, after), later) := by
  cases looped <;> simp_all

theorem loop_finished (asked : test.on machine host = ((.ok false, after), later)) :
    result = ((.ok start, after), later) := by
  cases looped <;> simp_all

theorem loop_broken (asked : test.on machine host = ((.ok true, middle), between))
    (ran : (body start).on middle between = ((.error stop, after), later)) :
    result = ((.error stop, after), later) := by
  cases looped <;> simp_all

theorem loop_again (asked : test.on machine host = ((.ok true, middle), between))
    (ran : (body start).on middle between = ((.ok next, after), later)) :
    Loop test body next after later result := by
  cases looped <;> simp_all

theorem loop_unique {other : (Except Stop α × Machine) × σ}
    (otherLooped : Loop test body start machine host other) : other = result := by
  induction looped generalizing other with
  | refused asked => exact loop_refused otherLooped asked
  | finished asked => exact loop_finished otherLooped asked
  | broken asked ran => exact loop_broken otherLooped asked ran
  | again asked ran _ ih => exact ih (loop_again otherLooped asked ran)

end Inversion

/-- A loop that ends by itself has been told so by its test. -/
theorem loop_last {start value : α} {machine after : Machine} {host later : σ}
    {result : (Except Stop α × Machine) × σ} (looped : Loop test body start machine host result)
    (ended : result = ((.ok value, after), later)) :
    ∃ last between, test.on last between = ((.ok false, after), later) := by
  induction looped with
  | refused asked => cases ended
  | finished asked =>
    cases ended
    exact ⟨_, _, asked⟩
  | broken asked ran => cases ended
  | again asked ran rest ih => exact ih ended

/-- Nothing is asked for when no token is left, and each time takes a token. -/
structure Consuming (test : Exec (StateM σ) Bool) (body : α → Exec (StateM σ) α)
    (tokens : Array Token) : Prop where
  asked {machine middle : Machine} {host between : σ} (same : machine.tokens = tokens)
    (asked : test.on machine host = ((.ok true, middle), between)) :
    middle = machine ∧ between = host ∧ machine.pc < machine.tokens.size
  moved (start : α) {machine : Machine} (host : σ) (inside : machine.pc < machine.tokens.size) :
    Forward machine ((body start).on machine host).1.2 ∧
      machine.pc < ((body start).on machine host).1.2.pc

theorem loop_of_repeatWhile {machine : Machine} {host : σ} {start : α} {count : Nat}
    (consuming : Consuming test body machine.tokens) (enough : machine.remaining ≤ count) :
    Loop test body start machine host ((repeatWhile test body count start).on machine host) := by
  induction count generalizing start machine host with
  | zero =>
    unfold repeatWhile
    rw [on_bind]
    rcases asked : test.on machine host with ⟨⟨stop | again, middle⟩, between⟩
    · exact .refused asked
    · cases again with
      | false => exact .finished asked
      | true =>
        -- A token would be left, but the bound says that there is none.
        obtain ⟨_, _, inside⟩ := consuming.asked rfl asked
        unfold Machine.remaining at enough
        omega
  | succ count ih =>
    unfold repeatWhile
    rw [on_bind]
    rcases asked : test.on machine host with ⟨⟨stop | again, middle⟩, between⟩
    · exact .refused asked
    · cases again with
      | false => exact .finished asked
      | true =>
        obtain ⟨rfl, rfl, inside⟩ := consuming.asked rfl asked
        simp only [↓reduceIte]
        rw [on_bind]
        obtain ⟨forward, farther⟩ := consuming.moved start between inside
        rcases ran : (body start).on middle between with ⟨⟨stop | next, after⟩, later⟩
        · exact .broken asked ran
        · rw [ran] at forward farther
          have tokens : after.tokens = middle.tokens := forward.tokens
          have counter : middle.pc < after.pc := farther
          refine .again asked ran (ih (tokens ▸ consuming) ?_)
          unfold Machine.remaining at enough ⊢
          rw [tokens]
          omega

/-- The bounded loop is the loop: the number of tokens left is enough. -/
theorem loop_of_whileTokens (start : α) (machine : Machine) (host : σ)
    (consuming : Consuming test body machine.tokens) :
    Loop test body start machine host ((whileTokens test body start).on machine host) := by
  unfold whileTokens
  rw [on_bind, on_get]
  exact loop_of_repeatWhile consuming (Nat.le_refl _)

end Loops

section Steps
variable {σ : Type} [Host (StateM σ)]

theorem step_forward (levels : Nat) {machine : Machine} (host : σ)
    (inside : machine.pc < machine.tokens.size) :
    Forward machine ((stepWith (level? levels)).on machine host).1.2 ∧
      machine.pc < ((stepWith (level? levels)).on machine host).1.2.pc := by
  rw [on_stepWith]
  have next : machine.current? = some machine.tokens[machine.pc] :=
    Array.getElem?_eq_getElem inside
  rw [next]
  exact leads_execute forward_steady (level_keeps forward_steady levels) next host

theorem value_forward (levels : Nat) {machine : Machine} (host : σ)
    (inside : machine.pc < machine.tokens.size) :
    Forward machine ((value (level? levels)).on machine host).1.2 ∧
      machine.pc < ((value (level? levels)).on machine host).1.2.pc := by
  unfold value
  have next : machine.current? = some machine.tokens[machine.pc] :=
    Array.getElem?_eq_getElem inside
  rw [on_bind, on_consume, next]
  exact leads_valueFrom forward_steady (level_keeps forward_steady levels) next host

theorem group_consuming (levels : Nat) (opener : Token) (tokens : Array Token) :
    Consuming (groupContinues opener : Exec (StateM σ) Bool)
      (fun _ => stepWith (level? levels)) tokens where
  asked := by
    intro machine middle host between _ asked
    unfold groupContinues at asked
    rw [on_bind, on_current?] at asked
    cases next : machine.current? with
    | none => simp [next] at asked
    | some token =>
      by_cases closes : token.kind = .rightParen
      · simp only [next, closes, ↓reduceIte] at asked
        cases asked
      · simp only [next, closes, ↓reduceIte] at asked
        cases asked
        exact ⟨rfl, rfl, inside_of_current next⟩
  moved _ _ host inside := step_forward levels host inside

theorem body_consuming (levels : Nat) (opener : Token) (tokens : Array Token) :
    Consuming (bodyContinues opener : Exec (StateM σ) Bool)
      (fun _ => stepWith (level? levels)) tokens where
  asked := by
    intro machine middle host between _ asked
    unfold bodyContinues at asked
    rw [on_bind, on_current?] at asked
    cases next : machine.current? with
    | none => simp [next] at asked
    | some token =>
      simp only [next, on_pure, Prod.mk.injEq] at asked
      obtain ⟨⟨_, rfl⟩, rfl⟩ := asked
      exact ⟨rfl, rfl, inside_of_current next⟩
  moved _ _ host inside := step_forward levels host inside

theorem line_consuming (levels : Nat) (tokens : Array Token) :
    Consuming (moreOnLine : Exec (StateM σ) Bool)
      (fun text => return text ++ (← value (level? levels)).text) tokens where
  asked := by
    intro machine middle host between _ asked
    unfold moreOnLine at asked
    simp only [on_bind, on_lastPlace, on_current?, on_pure, Prod.mk.injEq, Except.ok.injEq]
      at asked
    obtain ⟨⟨more, rfl⟩, rfl⟩ := asked
    obtain ⟨token, next, _⟩ := Option.any_eq_true _ _ |>.mp more
    exact ⟨rfl, rfl, inside_of_current next⟩
  moved := by
    intro text machine host inside
    have moved := value_forward levels host inside
    rw [on_bind]
    rcases ran : (value (level? levels)).on machine host with ⟨⟨stop | result, after⟩, later⟩
    all_goals
      rw [ran] at moved
      exact moved

theorem section_consuming (levels : Nat) {stop : Nat} {tokens : Array Token}
    (within : stop ≤ tokens.size) :
    Consuming (do return (← get).pc < stop : Exec (StateM σ) Bool)
      (fun _ => stepWith (level? levels)) tokens where
  asked := by
    intro machine middle host between same asked
    simp only [on_bind, on_get, on_pure, Prod.mk.injEq, Except.ok.injEq, decide_eq_true_eq]
      at asked
    obtain ⟨⟨before, rfl⟩, rfl⟩ := asked
    exact ⟨rfl, rfl, by rw [same]; omega⟩
  moved _ _ host inside := step_forward levels host inside

theorem program_consuming (tokens : Array Token) :
    Consuming (do return (← get).pc < (← get).tokens.size : Exec (StateM σ) Bool)
      (fun _ => step) tokens where
  asked := by
    intro machine middle host between _ asked
    simp only [on_bind, on_get, on_pure, Prod.mk.injEq, Except.ok.injEq, decide_eq_true_eq]
      at asked
    obtain ⟨⟨inside, rfl⟩, rfl⟩ := asked
    exact ⟨rfl, rfl, inside⟩
  moved := by
    intro _ machine host inside
    rw [on_step]
    exact step_forward _ host inside

/-- Every loop of the walk ends by itself, whatever machine and host it starts from: that of a
program, of a group, of a conditional body, of a printed line, and of a jump's target. -/
structure LoopsEnd (σ : Type) [Host (StateM σ)] : Prop where
  program (machine : Machine) (host : σ) :
    Loop (do return (← get).pc < (← get).tokens.size) (fun _ => step) () machine host
      (toEnd.on machine host)
  group (levels : Nat) (opener : Token) (machine : Machine) (host : σ) :
    Loop (groupContinues opener) (fun _ => stepWith (level? levels)) () machine host
      ((whileTokens (groupContinues opener) (fun _ => stepWith (level? levels)) ()).on machine host)
  body (levels : Nat) (opener : Token) (machine : Machine) (host : σ) :
    Loop (bodyContinues opener) (fun _ => stepWith (level? levels)) () machine host
      ((whileTokens (bodyContinues opener) (fun _ => stepWith (level? levels)) ()).on machine host)
  line (levels : Nat) (text : String) (machine : Machine) (host : σ) :
    Loop moreOnLine (fun text => return text ++ (← value (level? levels)).text) text machine host
      ((whileTokens moreOnLine (fun text => return text ++ (← value (level? levels)).text)
        text).on machine host)
  target (levels stop : Nat) (machine : Machine) (host : σ) (within : stop ≤ machine.tokens.size) :
    Loop (do return (← get).pc < stop) (fun _ => stepWith (level? levels)) () machine host
      ((whileTokens (do return (← get).pc < stop) (fun _ => stepWith (level? levels)) ()).on
        machine host)

theorem loops_end : LoopsEnd σ where
  program machine host := loop_of_whileTokens () machine host (program_consuming _)
  group levels opener machine host :=
    loop_of_whileTokens () machine host (group_consuming levels opener _)
  body levels opener machine host :=
    loop_of_whileTokens () machine host (body_consuming levels opener _)
  line levels text machine host := loop_of_whileTokens text machine host (line_consuming levels _)
  target levels _ machine host within :=
    loop_of_whileTokens () machine host (section_consuming levels within)

end Steps

section Calls
variable {σ : Type} [Host (StateM σ)]

/-- What a call of a machine gives, with the machine and the host after it. -/
def call (machine : Machine) (host : σ) : (Except Error Outcome × Machine) × σ :=
  (machine.run : StateM σ (Except Error Outcome × Machine)).run host

theorem call_eq (machine : Machine) (host : σ) :
    call machine host =
      ((toEnd.on machine host).1.2.conclude (toEnd.on machine host).1.1,
        (toEnd.on machine host).2) := rfl

/-- The machine and the host after a number of calls, whatever each of them gave. -/
def calls (machine : Machine) (host : σ) : Nat → Machine × σ
  | 0 => (machine, host)
  | count + 1 =>
    let before := calls machine host count
    ((call before.1 before.2).1.2, (call before.1 before.2).2)

/-- Whether a call found no token left to execute. -/
def completes : Except Error Outcome → Bool
  | .ok (.completed _) => true
  | _ => false

/-- Nothing is executed where no token is left. -/
theorem call_ended {machine : Machine} (host : σ) (ended : machine.tokens.size ≤ machine.pc) :
    call machine host = ((.ok (.completed machine.stack.bottomUp), machine), host) := by
  have asked : (do return (← get).pc < (← get).tokens.size : Exec (StateM σ) Bool).on machine host =
      ((.ok false, machine), host) := by
    change ((Except.ok (decide (machine.pc < machine.tokens.size)), machine), host) = _
    rw [decide_eq_false (Nat.not_lt.mpr ended)]
  rw [call_eq, loop_finished (loops_end.program machine host) asked]
  rfl

/-- Where a token is left, a call starts with a step and goes on from where that leads. -/
theorem call_of_step {machine : Machine} {host : σ} (inside : machine.pc < machine.tokens.size) :
    call machine host =
      match (step : Exec (StateM σ) Unit).on machine host with
      | ((.ok (), after), later) => call after later
      | ((.error stop, after), later) => (after.conclude (.error stop), later) := by
  have asked : (do return (← get).pc < (← get).tokens.size : Exec (StateM σ) Bool).on machine host =
      ((.ok true, machine), host) := by
    change ((Except.ok (decide (machine.pc < machine.tokens.size)), machine), host) = _
    rw [decide_eq_true inside]
  have looped := loops_end.program machine host
  rcases ran : (step : Exec (StateM σ) Unit).on machine host with ⟨⟨stop | ⟨⟩, after⟩, later⟩
  · rw [call_eq, loop_broken looped asked ran]
  · have rest := loop_again looped asked ran
    rw [call_eq, loop_unique (loops_end.program after later) rest]
    rfl

theorem outcome_of_completes {machine : Machine} {host : σ}
    (completed : completes (call machine host).1.1 = true) :
    (call machine host).1.1 = .ok (.completed (call machine host).1.2.stack.bottomUp) := by
  rw [call_eq] at completed ⊢
  rcases walked : toEnd.on machine host with ⟨⟨(code | error) | ⟨⟩, after⟩, later⟩
  all_goals rw [walked] at completed
  · cases completed
  · cases completed
  · rfl

private theorem conclude_forward (machine : Machine) (result : Except Stop Unit) :
    Forward machine (machine.conclude result).2 := by
  rcases result with (code | error) | ⟨⟩
  · exact forward_of_same rfl rfl [.exited code machine.pc] rfl rfl
  · exact forward_of_same rfl rfl [.failed error.category machine.pc] rfl rfl
  · exact forward_refl machine

theorem call_forward (machine : Machine) (host : σ) : Forward machine (call machine host).1.2 :=
  forward_trans (keeps_toEnd forward_steady machine host) (conclude_forward _ _)

/-- A walk that is stopped has taken the token that stopped it. -/
theorem loop_advances {start : Unit} {machine after : Machine} {host later : σ} {stop : Stop}
    {result : (Except Stop Unit × Machine) × σ}
    (looped : Loop (do return (← get).pc < (← get).tokens.size) (fun _ => step) start machine host
      result)
    (stopped : result = ((.error stop, after), later)) : machine.pc < after.pc := by
  induction looped with
  | refused asked => cases asked
  | finished asked => cases stopped
  | @broken _ machine middle _ host between _ _ asked ran =>
    cases stopped
    obtain ⟨rfl, rfl, inside⟩ := (program_consuming machine.tokens).asked rfl asked
    have moved := ((program_consuming middle.tokens).moved () between inside).2
    rwa [ran] at moved
  | @again _ _ machine middle _ host between _ _ asked ran rest ih =>
    obtain ⟨rfl, rfl, inside⟩ := (program_consuming machine.tokens).asked rfl asked
    have moved := ((program_consuming middle.tokens).moved () between inside).2
    rw [ran] at moved
    exact Nat.lt_trans moved (ih stopped)

theorem call_advances {machine : Machine} {host : σ}
    (interrupted : completes (call machine host).1.1 = false) :
    machine.pc < (call machine host).1.2.pc := by
  have looped := loops_end.program machine host
  rw [call_eq] at interrupted ⊢
  rcases walked : toEnd.on machine host with ⟨⟨stop | ⟨⟩, after⟩, later⟩
  · exact Nat.lt_of_lt_of_le (loop_advances looped walked) (conclude_forward _ _).counter
  · rw [walked] at interrupted
    cases interrupted

theorem calls_forward (machine : Machine) (host : σ) (count : Nat) :
    Forward machine (calls machine host count).1 := by
  induction count with
  | zero => exact forward_refl machine
  | succ count ih => exact forward_trans ih (call_forward _ _)

/-- As long as no call has completed, each of them has taken a token. -/
theorem calls_count_le (machine : Machine) (host : σ) {count : Nat}
    (interrupted : ∀ earlier < count,
      completes (call (calls machine host earlier).1 (calls machine host earlier).2).1.1 = false) :
    count ≤ (calls machine host count).1.pc := by
  induction count with
  | zero => exact Nat.zero_le _
  | succ count ih =>
    have before := ih fun earlier less => interrupted earlier (Nat.lt_succ_of_lt less)
    exact Nat.lt_of_le_of_lt before (call_advances (interrupted count (Nat.lt_succ_self _)))

/-- Calls of one machine, in any number and with any host, only go forward: no step at any
nesting level moves the counter back or out of the program, the tokens executed in all calls
together have increasing indices, each call ends, a call that does not complete takes a token,
and so a call completes before there are more than one for each token and one more. -/
theorem calls_go_forward (tokens : Array Token) (capacity : Nat) (host : σ) (count : Nat) :
    let before := calls (Machine.load tokens capacity) host count
    let ended := call before.1 before.2
    before.1.pc ≤ ended.1.2.pc ∧ ended.1.2.pc ≤ tokens.size ∧
      (indices ended.1.2.events).Pairwise (· < ·) ∧
      (completes ended.1.1 = false → before.1.pc < ended.1.2.pc) ∧
      (∀ levels machine (host : σ),
        Forward machine ((stepWith (level? levels)).on machine host).1.2) ∧
      LoopsEnd σ ∧
      ∃ enough ≤ tokens.size,
        let last := calls (Machine.load tokens capacity) host enough
        completes (call last.1 last.2).1.1 = true := by
  intro before ended
  have start := calls_forward (Machine.load tokens capacity) host count
  have moved : Forward before.1 ended.1.2 := call_forward _ _
  have whole : Forward (Machine.load tokens capacity) ended.1.2 := forward_trans start moved
  refine ⟨moved.counter, whole.within (Nat.zero_le _), ?_, call_advances, ?_, loops_end, ?_⟩
  · obtain ⟨new, log, order, _⟩ := whole.logged
    have all : ended.1.2.log = new := by rw [log]; exact List.append_nil new
    rw [Machine.events, all, indices, List.filterMap_reverse, List.pairwise_reverse]
    exact order
  · intro levels machine host
    exact keeps_stepWith forward_steady (level_keeps forward_steady levels) machine host
  · refine Classical.byContradiction fun never => ?_
    have interrupted : ∀ earlier < tokens.size + 1, completes
        (call (calls (Machine.load tokens capacity) host earlier).1
          (calls (Machine.load tokens capacity) host earlier).2).1.1 = false := by
      intro earlier less
      rw [← Bool.not_eq_true]
      exact fun done => never ⟨earlier, Nat.le_of_lt_succ less, done⟩
    have counted := calls_count_le (Machine.load tokens capacity) host interrupted
    have within : (calls (Machine.load tokens capacity) host (tokens.size + 1)).1.pc ≤ tokens.size :=
      (calls_forward (Machine.load tokens capacity) host (tokens.size + 1)).within (Nat.zero_le _)
    omega

end Calls

end StackScript.Progress
