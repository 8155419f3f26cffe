import StackScript.Proofs.Progress

/-! What an execution depends on: the tokens that it comes to and the answers that it gets. Two
programs are executed side by side on two hosts. As long as the first execution stays in reach of
what they have in common, the second one does the same, through every construct and at every
nesting level. Nothing is said about executions that leave the reach. -/
namespace StackScript.Reach
open Exec Walk Progress

/-- What two executions have in common. -/
structure Scope (σ : Type) where
  program : Array Token
  image : Array Token
  /-- Where an execution of the program may be, perhaps interrupted, for the image to follow. -/
  Reached : Option Stop → Machine → Prop
  /-- How the two hosts correspond after what has been logged. -/
  Hosts : List Event → σ → σ → Prop

/-- Whether an event is a call of the host. -/
def isCall : Event → Bool
  | .wrote _ | .took _ _ => true
  | _ => false

/-- The log after the host has answered a call; a call that fails is not logged. -/
def answered {α : Type} (event : α → Event) (log : List Event) : Except String α → List Event
  | .ok value => event value :: log
  | .error _ => log

namespace Scope

variable {σ : Type}

/-- What a scope must satisfy. -/
structure Lawful [Host (StateM σ)] (scope : Scope σ) : Prop where
  /-- Where an execution is in reach, it was in reach at every point before. -/
  back {before after : Machine} {stop? : Option Stop} (forward : Forward before after)
    (reached : scope.Reached stop? after) : scope.Reached none before
  /-- Leaving a nesting level does not bring an execution into reach. -/
  leave {machine : Machine} {stop? : Option Stop} (reached : scope.Reached stop? (left machine)) :
    scope.Reached stop? machine
  /-- Up to the next token, the tokens are the same. -/
  here {machine : Machine} (reached : scope.Reached none machine) {index : Nat}
    (before : index ≤ machine.pc) : scope.image[index]? = scope.program[index]?
  /-- An `AND` that is next is followed by the same token, because a prompt may start there. -/
  following {machine : Machine} {token : Token} (reached : scope.Reached none machine)
    (next : scope.program[machine.pc]? = some token) (asks : token.kind = .binary .and) :
    scope.image[machine.pc + 1]? = scope.program[machine.pc + 1]?
  /-- If the execution may be interrupted, all tokens are the same. -/
  stopped {machine : Machine} {stop : Stop} (reached : scope.Reached (some stop) machine) :
    scope.image = scope.program
  silent {log : List Event} {host other : σ} {event : Event} (plain : isCall event = false)
    (hosts : scope.Hosts log host other) : scope.Hosts (event :: log) host other
  write {log : List Event} {host other : σ} (hosts : scope.Hosts log host other) (line : String) :
    let call := (Host.writeLine line : StateM σ (Except String Unit))
    ∃ later, call.run other = ((call.run host).1, later) ∧
      scope.Hosts (answered (fun _ => .wrote line) log (call.run host).1) (call.run host).2 later
  read {machine : Machine} {host other : σ} (hosts : scope.Hosts machine.log host other)
    (prompt : Option String) :
    let call := (Host.readLine prompt : StateM σ (Except String (Option String)))
    (∀ line, (call.run host).1 = .ok line →
      scope.Reached none (machine.record (.took prompt line))) →
    ∃ later, call.run other = ((call.run host).1, later) ∧
      scope.Hosts (answered (.took prompt) machine.log (call.run host).1) (call.run host).2 later

/-- The machine on the image. -/
def mirror (scope : Scope σ) (machine : Machine) : Machine :=
  { machine with tokens := scope.image }

/-- An action leads forward, and where it ends in reach, it does the same on the image. -/
structure Mirrored {α : Type} (scope : Scope σ) (action : Exec (StateM σ) α) (machine : Machine)
    (host : σ) : Prop where
  forward : Forward machine (action.on machine host).1.2
  same (tokens : machine.tokens = scope.program) {other : σ}
    (hosts : scope.Hosts machine.log host other)
    (reached : scope.Reached (reason? (action.on machine host).1.1) (action.on machine host).1.2) :
    ∃ later, action.on (scope.mirror machine) other =
        (((action.on machine host).1.1, scope.mirror (action.on machine host).1.2), later) ∧
      scope.Hosts (action.on machine host).1.2.log (action.on machine host).2 later

/-- An action that is mirrored wherever it starts. -/
def Mirrors {α : Type} (scope : Scope σ) (action : Exec (StateM σ) α) : Prop :=
  ∀ machine host, scope.Mirrored action machine host

section Rules
variable {scope : Scope σ} {α β : Type} {machine : Machine} {host : σ}

/-- An action that says itself where it ends, on both sides, without a call of the host. -/
theorem mirrored_of_eq {action : Exec (StateM σ) α} {result : Except Stop α} {after : Machine}
    (ran : action.on machine host = ((result, after), host)) (forward : Forward machine after)
    (log : ∀ other, scope.Hosts machine.log host other → scope.Hosts after.log host other)
    (same : machine.tokens = scope.program → scope.Reached (reason? result) after → ∀ other,
      action.on (scope.mirror machine) other = ((result, scope.mirror after), other)) :
    scope.Mirrored action machine host := by
  constructor
  · rw [ran]
    exact forward
  · intro tokens other hosts reached
    rw [ran] at reached ⊢
    exact ⟨other, same tokens reached other, log other hosts⟩

theorem mirrors_pure (value : α) : scope.Mirrors (pure value : Exec (StateM σ) α) :=
  fun machine _ => mirrored_of_eq rfl (forward_refl machine) (fun _ => id) fun _ _ _ => rfl

theorem mirrors_throw (stop : Stop) : scope.Mirrors (throw stop : Exec (StateM σ) α) :=
  fun machine _ => mirrored_of_eq rfl (forward_refl machine) (fun _ => id) fun _ _ _ => rfl

theorem mirrors_raise (error : Error) : scope.Mirrors (raise error : Exec (StateM σ) α) :=
  mirrors_throw (.fault error)

variable [Host (StateM σ)] (lawful : scope.Lawful)
include lawful

/-- An action that acts like another one here, and on the image too if it ends in reach. -/
theorem mirrored_congr {action plain : Exec (StateM σ) α}
    (here : action.on machine host = plain.on machine host)
    (there : machine.tokens = scope.program → scope.Reached none machine →
      scope.Reached (reason? (plain.on machine host).1.1) (plain.on machine host).1.2 →
      ∀ other, action.on (scope.mirror machine) other = plain.on (scope.mirror machine) other)
    (mirrored : scope.Mirrored plain machine host) : scope.Mirrored action machine host := by
  obtain ⟨forward, same⟩ := mirrored
  constructor
  · rw [here]
    exact forward
  · intro tokens other hosts reached
    rw [here] at reached ⊢
    rw [there tokens (lawful.back forward reached) reached other]
    exact same tokens hosts reached

/-- The second action is needed only where the first one leads. -/
theorem mirrored_bind {action : Exec (StateM σ) α} {next : α → Exec (StateM σ) β}
    (first : scope.Mirrored action machine host)
    (rest : ∀ value middle between, action.on machine host = ((.ok value, middle), between) →
      scope.Mirrored (next value) middle between) :
    scope.Mirrored (action >>= next) machine host := by
  obtain ⟨forward, same⟩ := first
  rcases ran : action.on machine host with ⟨⟨stop | value, middle⟩, between⟩
  all_goals rw [ran] at forward same
  · have whole : (action >>= next).on machine host = ((.error stop, middle), between) := by
      rw [on_bind, ran]
    constructor
    · rw [whole]
      exact forward
    · intro tokens other hosts reached
      rw [whole] at reached ⊢
      obtain ⟨later, mirrored, after⟩ := same tokens hosts reached
      refine ⟨later, ?_, after⟩
      rw [on_bind, mirrored]
  · have whole : (action >>= next).on machine host = (next value).on middle between := by
      rw [on_bind, ran]
    obtain ⟨further, again⟩ := rest value middle between ran
    constructor
    · rw [whole]
      exact forward_trans forward further
    · intro tokens other hosts reached
      rw [whole] at reached ⊢
      obtain ⟨later, mirrored, after⟩ := same tokens hosts (lawful.back further reached)
      rw [on_bind, mirrored]
      exact again (forward.tokens.trans tokens) after reached

theorem mirrors_bind {action : Exec (StateM σ) α} {next : α → Exec (StateM σ) β}
    (first : scope.Mirrors action) (rest : ∀ value, scope.Mirrors (next value)) :
    scope.Mirrors (action >>= next) :=
  fun machine host => mirrored_bind lawful (first machine host)
    fun value middle between _ => rest value middle between

end Rules

section Tokens
variable [Host (StateM σ)] {scope : Scope σ} (lawful : scope.Lawful) {machine : Machine}
  (reached : scope.Reached none machine)
include lawful reached

theorem tokenBefore_mirrored {index : Nat} (before : index ≤ machine.pc) :
    tokenBefore? scope.image index = tokenBefore? scope.program index := by
  cases index with
  | zero => rfl
  | succ index => exact lawful.here reached (Nat.le_of_succ_le before)

/-- The image is as long as what was reached of the program. -/
theorem size_mirrored {stop : Nat} (within : stop ≤ scope.program.size)
    (before : stop ≤ machine.pc) : stop ≤ scope.image.size := by
  cases stop with
  | zero => exact Nat.zero_le _
  | succ last =>
    have same := lawful.here reached (Nat.le_of_succ_le before)
    rw [Array.getElem?_eq_getElem within] at same
    exact (Array.getElem?_eq_some_iff.mp same).1

/-- What is found up to the next token is found on both sides. -/
theorem firstFrom_mirrored {start index : Nat} {wanted : Token → Bool}
    (found : firstFrom scope.program start wanted = some index) (before : index ≤ machine.pc) :
    firstFrom scope.image start wanted = some index := by
  obtain ⟨after, ⟨token, held, wants⟩, first⟩ := firstFrom_eq_some_iff.mp found
  refine firstFrom_eq_some_iff.mpr ⟨after, ⟨token, ?_, wants⟩, ?_⟩
  · rw [lawful.here reached before, held]
  · intro earlier behind ahead other otherHeld
    rw [lawful.here reached (by omega)] at otherHeld
    exact first earlier behind ahead other otherHeld

end Tokens

section Elementary
variable {scope : Scope σ} {machine : Machine} {host : σ}

theorem mirrors_push (value : Value) : scope.Mirrors (push value : Exec (StateM σ) Unit) := by
  intro machine host
  cases pushed : machine.stack.push value with
  | ok stack =>
    have ran : (push value : Exec (StateM σ) Unit).on machine host =
        ((.ok (), { machine with stack }), host) := by rw [on_push, pushed]
    refine mirrored_of_eq ran (forward_of_same rfl rfl [] rfl rfl) (fun _ => id)
      fun _ _ other => ?_
    simp only [on_push, mirror, pushed]
  | error error =>
    refine mirrored_of_eq (by rw [on_push, pushed]) (forward_refl machine)
      (fun _ => id) fun _ _ other => ?_
    simp only [on_push, mirror, pushed]

theorem mirrors_pop : scope.Mirrors (pop : Exec (StateM σ) Value) := by
  intro machine host
  rcases popped : machine.stack.pop with error | ⟨value, stack⟩
  · refine mirrored_of_eq (by rw [on_pop, popped]) (forward_refl machine)
      (fun _ => id) fun _ _ other => ?_
    simp only [on_pop, mirror, popped]
  · have ran : (pop : Exec (StateM σ) Value).on machine host =
        ((.ok value, { machine with stack }), host) := by rw [on_pop, popped]
    refine mirrored_of_eq ran (forward_of_same rfl rfl [] rfl rfl) (fun _ => id)
      fun _ _ other => ?_
    simp only [on_pop, mirror, popped]

theorem mirrors_lookup (token : Token) :
    scope.Mirrors (lookup token : Exec (StateM σ) Value) := by
  intro machine host
  cases found : machine.bindings.get? token.nameOrEmpty with
  | some value =>
    refine mirrored_of_eq (by rw [on_lookup, found]) (forward_refl machine)
      (fun _ => id) fun _ _ other => ?_
    simp only [on_lookup, mirror, found]
  | none =>
    refine mirrored_of_eq (by rw [on_lookup, found]) (forward_refl machine)
      (fun _ => id) fun _ _ other => ?_
    simp only [on_lookup, mirror, found]

theorem mirrors_addLabel (label : String) (range : BlockRange) (position : Position) :
    scope.Mirrors (addLabel label range position : Exec (StateM σ) Unit) := by
  intro machine host
  cases added : machine.labels.add label range position with
  | ok labels =>
    have ran : (addLabel label range position : Exec (StateM σ) Unit).on machine host =
        ((.ok (), { machine with labels }), host) := by rw [on_addLabel, added]
    refine mirrored_of_eq ran (forward_of_same rfl rfl [] rfl rfl) (fun _ => id)
      fun _ _ other => ?_
    simp only [on_addLabel, mirror, added]
  | error error =>
    refine mirrored_of_eq (by rw [on_addLabel, added]) (forward_refl machine)
      (fun _ => id) fun _ _ other => ?_
    simp only [on_addLabel, mirror, added]

theorem mirrors_locateLabel (label : String) (start stop : Nat) :
    scope.Mirrors (locateLabel label start stop : Exec (StateM σ) Unit) :=
  fun _ _ => mirrored_of_eq rfl (forward_of_same rfl rfl [] rfl rfl) (fun _ => id) fun _ _ _ => rfl

/-- The counter may be set to an index ahead, inside the program. -/
theorem mirrored_goTo {index : Nat} (ahead : machine.pc ≤ index)
    (within : index ≤ machine.tokens.size) :
    scope.Mirrored (goTo index : Exec (StateM σ) Unit) machine host :=
  mirrored_of_eq rfl (forward_of_pass rfl ahead (fun _ => within) [] rfl rfl) (fun _ => id)
    fun _ _ _ => rfl

theorem mirrored_skip {count : Nat} (within : machine.pc + count ≤ machine.tokens.size) :
    scope.Mirrored (skip count : Exec (StateM σ) Unit) machine host :=
  mirrored_of_eq rfl (forward_of_pass rfl (Nat.le_add_right _ _) (fun _ => within) [] rfl rfl)
    (fun _ => id) fun _ _ _ => rfl

theorem mirrored_skip_one {token : Token} (next : machine.current? = some token) :
    scope.Mirrored (skip 1 : Exec (StateM σ) Unit) machine host :=
  mirrored_skip (inside_of_current next)

theorem mirrors_lastIndex : scope.Mirrors (lastIndex : Exec (StateM σ) Nat) :=
  fun machine _ => mirrored_of_eq rfl (forward_refl machine) (fun _ => id) fun _ _ _ => rfl

variable [Host (StateM σ)] (lawful : scope.Lawful)
include lawful

theorem mirrors_record {event : Event} (quiet : indices [event] = [])
    (plain : isCall event = false) :
    scope.Mirrors (record event : Exec (StateM σ) Unit) :=
  fun _ _ => mirrored_of_eq rfl (forward_of_same rfl rfl [event] rfl quiet)
    (fun _ => lawful.silent plain) fun _ _ _ => rfl

theorem mirrors_assign (name : String) (value : Value) :
    scope.Mirrors (assign name value : Exec (StateM σ) Unit) :=
  fun _ _ => mirrored_of_eq rfl (forward_of_same rfl rfl [.bound name value] rfl rfl)
    (fun _ => lawful.silent rfl) fun _ _ _ => rfl

theorem mirror_of_stopped {stop : Stop} (tokens : machine.tokens = scope.program)
    (reached : scope.Reached (some stop) machine) : scope.mirror machine = machine := by
  rw [mirror, lawful.stopped reached, ← tokens]

theorem current_mirrored (tokens : machine.tokens = scope.program)
    (reached : scope.Reached none machine) :
    (scope.mirror machine).current? = machine.current? := by
  unfold Machine.current?
  rw [tokens]
  exact lawful.here reached (Nat.le_refl _)

theorem lastPlace_mirrored (tokens : machine.tokens = scope.program)
    (reached : scope.Reached none machine) :
    (scope.mirror machine).lastPlace = machine.lastPlace := by
  unfold Machine.lastPlace
  change ((tokenBefore? scope.image machine.pc).map Token.position).getD .origin = _
  rw [tokens, tokenBefore_mirrored lawful reached (Nat.le_refl _)]

theorem mirrors_current : scope.Mirrors (current? : Exec (StateM σ) (Option Token)) := by
  intro machine host
  refine mirrored_of_eq rfl (forward_refl machine) (fun _ => id) fun tokens reached other => ?_
  rw [on_current?, current_mirrored lawful tokens reached]

theorem mirrors_lastPlace : scope.Mirrors (lastPlace : Exec (StateM σ) Position) := by
  intro machine host
  refine mirrored_of_eq rfl (forward_refl machine) (fun _ => id) fun tokens reached other => ?_
  rw [on_lastPlace, lastPlace_mirrored lawful tokens reached]

/-- The next token is taken on both sides. If there is none, the programs end alike. -/
theorem mirrors_consume : scope.Mirrors (consume : Exec (StateM σ) Token) := by
  intro machine host
  cases next : machine.current? with
  | some token =>
    have forward : Forward machine { machine with pc := machine.pc + 1 } :=
      forward_of_pass rfl (Nat.le_succ _) (fun _ => inside_of_current next) [] rfl rfl
    refine mirrored_of_eq (by rw [on_consume, next]) forward (fun _ => id)
      fun tokens reached other => ?_
    rw [on_consume, current_mirrored lawful tokens (lawful.back forward reached), next]
    rfl
  | none =>
    refine mirrored_of_eq (by rw [on_consume, next]) (forward_refl machine) (fun _ => id)
      fun tokens reached other => ?_
    rw [mirror_of_stopped lawful tokens reached, on_consume, next]

theorem mirrors_writeLine (line : String) :
    scope.Mirrors (writeLine line : Exec (StateM σ) Unit) := by
  intro machine host
  constructor
  · rw [on_writeLine]
    split
    · exact forward_of_same rfl rfl [.wrote line] rfl rfl
    · exact forward_refl machine
  · intro tokens other hosts reached
    obtain ⟨later, called, after⟩ := lawful.write hosts line
    rw [on_writeLine, on_writeLine, called]
    rcases ran : (Host.writeLine line : StateM σ (Except String Unit)).run host with
      ⟨reason | done, between⟩
    all_goals
      rw [ran] at after
      exact ⟨later, rfl, after⟩

theorem mirrors_readLine (prompt : Option String) :
    scope.Mirrors (readLine prompt : Exec (StateM σ) (Option String)) := by
  intro machine host
  constructor
  · rw [on_readLine]
    split
    · exact forward_of_same rfl rfl [.took prompt _] rfl rfl
    · exact forward_refl machine
  · intro tokens other hosts reached
    rw [on_readLine] at reached ⊢
    have enough (line : Option String)
        (took : ((Host.readLine prompt : StateM σ (Except String (Option String))).run host).1 =
          .ok line) : scope.Reached none (machine.record (.took prompt line)) := by
      rcases ran : (Host.readLine prompt : StateM σ (Except String (Option String))).run host with
        ⟨reason | given, between⟩
      all_goals
        rw [ran] at took reached
        cases took
      exact reached
    obtain ⟨later, called, after⟩ := lawful.read hosts prompt enough
    rw [on_readLine, called]
    rcases ran : (Host.readLine prompt : StateM σ (Except String (Option String))).run host with
      ⟨reason | given, between⟩
    all_goals
      rw [ran] at after
      exact ⟨later, rfl, after⟩

/-- What is counted as a nesting level is counted on both sides. -/
theorem mirrored_counted {α : Type} {action : Exec (StateM σ) α}
    (inner : scope.Mirrored action (entered machine) host) :
    scope.Mirrored (counted action) machine host := by
  obtain ⟨forward, same⟩ := inner
  have going : Forward machine (entered machine) := forward_of_same rfl rfl [.entered] rfl rfl
  have coming (after : Machine) : Forward after (left after) :=
    forward_of_same rfl rfl [.left] rfl rfl
  constructor
  · exact forward_trans going (forward_trans forward (coming _))
  · intro tokens other hosts reached
    rw [on_counted_entered] at reached ⊢
    obtain ⟨later, mirrored, after⟩ := same tokens (lawful.silent rfl hosts) (lawful.leave reached)
    have there : action.on (entered (scope.mirror machine)) other = _ := mirrored
    rw [on_counted_entered, there]
    exact ⟨later, rfl, lawful.silent rfl after⟩

end Elementary

section Loops
variable {scope : Scope σ} {α : Type} {test : Exec (StateM σ) Bool}
  {body : α → Exec (StateM σ) α}

variable [Host (StateM σ)] (lawful : scope.Lawful)
include lawful

/-- What the test and the body do on both sides, the loop does. -/
theorem loop_mirrored (tests : scope.Mirrors test) (bodies : ∀ value, scope.Mirrors (body value))
    {start : α} {machine : Machine} {host : σ} {result : (Except Stop α × Machine) × σ}
    (looped : Loop test body start machine host result) :
    Forward machine result.1.2 ∧
      ∀ other ended, machine.tokens = scope.program → scope.Hosts machine.log host other →
        scope.Reached (reason? result.1.1) result.1.2 →
        Loop test body start (scope.mirror machine) other ended →
        ∃ later, ended = ((result.1.1, scope.mirror result.1.2), later) ∧
          scope.Hosts result.1.2.log result.2 later := by
  induction looped with
  | @refused start machine after host later stop asked =>
    obtain ⟨forward, same⟩ := tests machine host
    rw [asked] at forward same
    refine ⟨forward, fun other ended tokens hosts reached otherLooped => ?_⟩
    obtain ⟨between, mirrored, agreed⟩ := same tokens hosts reached
    exact ⟨between, loop_refused otherLooped mirrored, agreed⟩
  | @finished start machine after host later asked =>
    obtain ⟨forward, same⟩ := tests machine host
    rw [asked] at forward same
    refine ⟨forward, fun other ended tokens hosts reached otherLooped => ?_⟩
    obtain ⟨between, mirrored, agreed⟩ := same tokens hosts reached
    exact ⟨between, loop_finished otherLooped mirrored, agreed⟩
  | @broken start machine middle after host between later stop asked ran =>
    obtain ⟨forward, same⟩ := tests machine host
    obtain ⟨further, again⟩ := bodies start middle between
    rw [asked] at forward same
    rw [ran] at further again
    refine ⟨forward_trans forward further, fun other ended tokens hosts reached otherLooped => ?_⟩
    obtain ⟨otherBetween, mirrored, agreed⟩ := same tokens hosts (lawful.back further reached)
    obtain ⟨otherLater, broke, agreedAfter⟩ :=
      again (forward.tokens.trans tokens) agreed reached
    exact ⟨otherLater, loop_broken otherLooped mirrored broke, agreedAfter⟩
  | @again start next machine middle after host between later result asked ran rest ih =>
    obtain ⟨forward, same⟩ := tests machine host
    obtain ⟨further, again⟩ := bodies start middle between
    obtain ⟨onward, follows⟩ := ih
    rw [asked] at forward same
    rw [ran] at further again
    refine ⟨forward_trans forward (forward_trans further onward),
      fun other ended tokens hosts reached otherLooped => ?_⟩
    have tokensMiddle := forward.tokens.trans tokens
    have reachedAfter := lawful.back onward reached
    obtain ⟨otherBetween, mirrored, agreed⟩ := same tokens hosts (lawful.back further reachedAfter)
    obtain ⟨otherLater, acted, agreedAfter⟩ := again tokensMiddle agreed reachedAfter
    exact follows otherLater ended (further.tokens.trans tokensMiddle) agreedAfter reached
      (loop_again otherLooped mirrored acted)

/-- A loop of the walk, given that it ends on both sides. -/
theorem mirrored_while (tests : scope.Mirrors test) (bodies : ∀ value, scope.Mirrors (body value))
    {start : α} {machine : Machine} {host : σ}
    (looped : Loop test body start machine host ((whileTokens test body start).on machine host))
    (otherLooped : machine.tokens = scope.program →
      scope.Reached (reason? ((whileTokens test body start).on machine host).1.1)
        ((whileTokens test body start).on machine host).1.2 →
      ∀ other, Loop test body start (scope.mirror machine) other
        ((whileTokens test body start).on (scope.mirror machine) other)) :
    scope.Mirrored (whileTokens test body start) machine host := by
  obtain ⟨forward, follows⟩ := loop_mirrored lawful tests bodies looped
  refine ⟨forward, fun tokens other hosts reached => ?_⟩
  exact follows other _ tokens hosts reached (otherLooped tokens reached other)

end Loops

end Scope

end StackScript.Reach
