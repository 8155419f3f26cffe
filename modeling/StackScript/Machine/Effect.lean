import StackScript.Machine.Exec

/-! What the elementary actions do, seen as functions. A host that is a state turns an action
into a function of a machine and the host: `on` gives the result, the machine and the host
afterwards, and there is one equation for each elementary action. -/
namespace StackScript.Exec

variable {σ α β : Type}

/-- What an action does to a machine and to a host that is a state. -/
def on (action : Exec (StateM σ) α) (machine : Machine) (host : σ) :
    (Except Stop α × Machine) × σ :=
  (action.run.run machine).run host

@[simp] theorem on_pure (value : α) (machine : Machine) (host : σ) :
    (pure value : Exec (StateM σ) α).on machine host = ((.ok value, machine), host) := rfl

/-- The second action goes on where the first one left off, unless that was stopped. -/
theorem on_bind (first : Exec (StateM σ) α) (second : α → Exec (StateM σ) β)
    (machine : Machine) (host : σ) :
    (first >>= second).on machine host =
      match first.on machine host with
      | ((.ok value, machine), host) => (second value).on machine host
      | ((.error stop, machine), host) => ((.error stop, machine), host) := by
  simp only [on, bind, ExceptT.bind, ExceptT.run, ExceptT.mk, StateT.bind, StateT.run]
  rcases first machine host with ⟨⟨stop | value, after⟩, left⟩ <;> rfl

/-- An action that is not stopped has gone through both of its parts. -/
theorem on_bind_eq_ok {first : Exec (StateM σ) α} {second : α → Exec (StateM σ) β}
    {machine after : Machine} {host later : σ} {result : β}
    (ran : (first >>= second).on machine host = ((.ok result, after), later)) :
    ∃ value middle between, first.on machine host = ((.ok value, middle), between) ∧
      (second value).on middle between = ((.ok result, after), later) := by
  rw [on_bind] at ran
  rcases began : first.on machine host with ⟨⟨stop | value, middle⟩, between⟩
  all_goals rw [began] at ran
  · cases ran
  · exact ⟨value, middle, between, rfl, ran⟩

@[simp] theorem on_throw (stop : Stop) (machine : Machine) (host : σ) :
    (throw stop : Exec (StateM σ) α).on machine host = ((.error stop, machine), host) := rfl

@[simp] theorem on_raise (error : Error) (machine : Machine) (host : σ) :
    (raise error : Exec (StateM σ) α).on machine host =
      ((.error (.fault error), machine), host) := rfl

@[simp] theorem on_get (machine : Machine) (host : σ) :
    (get : Exec (StateM σ) Machine).on machine host = ((.ok machine, machine), host) := rfl

@[simp] theorem on_modify (change : Machine → Machine) (machine : Machine) (host : σ) :
    (modify change : Exec (StateM σ) Unit).on machine host = ((.ok (), change machine), host) :=
  rfl

@[simp] theorem on_set (next machine : Machine) (host : σ) :
    (set next : Exec (StateM σ) Unit).on machine host = ((.ok (), next), host) := rfl

@[simp] theorem on_current? (machine : Machine) (host : σ) :
    (current? : Exec (StateM σ) _).on machine host = ((.ok machine.current?, machine), host) := rfl

@[simp] theorem on_lastPlace (machine : Machine) (host : σ) :
    (lastPlace : Exec (StateM σ) _).on machine host = ((.ok machine.lastPlace, machine), host) :=
  rfl

@[simp] theorem on_record (event : Event) (machine : Machine) (host : σ) :
    (record event : Exec (StateM σ) Unit).on machine host =
      ((.ok (), machine.record event), host) := rfl

@[simp] theorem on_skip (count : Nat) (machine : Machine) (host : σ) :
    (skip count : Exec (StateM σ) Unit).on machine host =
      ((.ok (), { machine with pc := machine.pc + count }), host) := rfl

@[simp] theorem on_goTo (index : Nat) (machine : Machine) (host : σ) :
    (goTo index : Exec (StateM σ) Unit).on machine host =
      ((.ok (), { machine with pc := index }), host) := rfl

/-- Taking a token moves the counter past it, and fails at the end of the program. -/
theorem on_consume (machine : Machine) (host : σ) :
    (consume : Exec (StateM σ) Token).on machine host =
      match machine.current? with
      | some token => ((.ok token, { machine with pc := machine.pc + 1 }), host)
      | none =>
        ((.error (.fault (.executed (.unexpectedEndOfInput machine.lastPlace))), machine),
          host) := by
  unfold consume
  rw [on_bind, on_current?]
  cases machine.current? with
  | none => rfl
  | some token => rfl

/-- A push changes the stack only, and fails only if the stack is full. -/
theorem on_push (value : Value) (machine : Machine) (host : σ) :
    (push value : Exec (StateM σ) Unit).on machine host =
      match machine.stack.push value with
      | .ok stack => ((.ok (), { machine with stack }), host)
      | .error error => ((.error (.fault (.executed error)), machine), host) := by
  unfold push
  rw [on_bind, on_get]
  cases pushed : machine.stack.push value <;> simp [pushed]

/-- A pop changes the stack only, and fails only if the stack is empty. -/
theorem on_pop (machine : Machine) (host : σ) :
    (pop : Exec (StateM σ) Value).on machine host =
      match machine.stack.pop with
      | .ok (value, stack) => ((.ok value, { machine with stack }), host)
      | .error error => ((.error (.fault (.executed error)), machine), host) := by
  unfold pop
  rw [on_bind, on_get]
  rcases popped : machine.stack.pop with error | ⟨value, stack⟩
  · simp [popped]
  · simp only [popped, on_bind, on_set, on_pure]

/-- Looking a variable up changes nothing. -/
theorem on_lookup (token : Token) (machine : Machine) (host : σ) :
    (lookup token : Exec (StateM σ) Value).on machine host =
      match machine.bindings.get? token.nameOrEmpty with
      | some value => ((.ok value, machine), host)
      | none =>
        ((.error (.fault (.meant (.undefinedVariable token.nameOrEmpty token.position))),
          machine), host) := by
  unfold lookup
  rw [on_bind, on_get]
  cases found : machine.bindings.get? token.nameOrEmpty <;> simp [found]

/-- An assignment is logged, and it changes the variables only. -/
theorem on_assign (name : String) (value : Value) (machine : Machine) (host : σ) :
    (assign name value : Exec (StateM σ) Unit).on machine host =
      ((.ok (), { machine.record (.bound name value) with
        bindings := machine.bindings.insert name value }), host) := rfl

/-- A label that is recorded already is refused, and otherwise the labels change only. -/
theorem on_addLabel (label : String) (range : BlockRange) (position : Position)
    (machine : Machine) (host : σ) :
    (addLabel label range position : Exec (StateM σ) Unit).on machine host =
      match machine.labels.add label range position with
      | .ok labels => ((.ok (), { machine with labels }), host)
      | .error error => ((.error (.fault (.meant error)), machine), host) := by
  unfold addLabel
  rw [on_bind, on_get]
  cases added : machine.labels.add label range position <;> simp [added]

@[simp] theorem on_locateLabel (label : String) (start stop : Nat) (machine : Machine)
    (host : σ) :
    (locateLabel label start stop : Exec (StateM σ) Unit).on machine host =
      ((.ok (), { machine with labels := machine.labels.locate label start stop }), host) := rfl

/-- A call of the host leaves the machine alone. -/
theorem on_lift (call : StateM σ α) (machine : Machine) (host : σ) :
    (liftM call : Exec (StateM σ) α).on machine host =
      ((.ok (call.run host).1, machine), (call.run host).2) := rfl

/-- Output that the host accepts is logged. -/
theorem on_writeLine [Host (StateM σ)] (line : String) (machine : Machine) (host : σ) :
    (writeLine line : Exec (StateM σ) Unit).on machine host =
      match (Host.writeLine line : StateM σ (Except String Unit)).run host with
      | (.ok (), host) => ((.ok (), machine.record (.wrote line)), host)
      | (.error reason, host) =>
        ((.error (.fault (.executed (.hostFailure reason))), machine), host) := by
  unfold writeLine
  rw [on_bind, on_lift]
  rcases (Host.writeLine line : StateM σ (Except String Unit)).run host with
    ⟨reason | done, after⟩ <;> rfl

/-- A line of input that the host hands out is logged. -/
theorem on_readLine [Host (StateM σ)] (prompt : Option String) (machine : Machine) (host : σ) :
    (readLine prompt : Exec (StateM σ) (Option String)).on machine host =
      match (Host.readLine prompt : StateM σ (Except String (Option String))).run host with
      | (.ok line, host) => ((.ok line, machine.record (.took prompt line)), host)
      | (.error reason, host) =>
        ((.error (.fault (.executed (.hostFailure reason))), machine), host) := by
  unfold readLine
  rw [on_bind, on_lift]
  rcases (Host.readLine prompt : StateM σ (Except String (Option String))).run host with
    ⟨reason | line, after⟩ <;> rfl

end StackScript.Exec
