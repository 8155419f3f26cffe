import StackScript.Proofs.Progress

/-! Two programs walked in step. An alignment says how the tokens of a program are found again in
a second one: further right by an offset, at other places, and perhaps with more tokens after
them. Machines that stand at corresponding tokens and agree in everything else go on to agree,
through every construct and at every nesting level. The second program may go on where the first
one ends; a walk of the first one that notices its end is then excused. -/
namespace StackScript
open Exec Walk Progress

/-- How the tokens of one program are found again in another. -/
structure Alignment where
  program : Array Token
  image : Array Token
  /-- How many tokens further right a token stands in the image. -/
  offset : Nat
  /-- What comes before the token with this index, the one right before it apart, is never
  looked at. -/
  start : Nat
  move : Position → Position
  /-- Whether the image may go on where the program ends. -/
  cut : Prop
  /-- The faults after which nothing is said about the image. -/
  excused : Error → Prop
  Labelled : Labels → Labels → Prop
  Logged : List Event → List Event → Prop

namespace Alignment

/-- Whether a kind may be followed by something that belongs to it and may be left out. -/
def isOpenEnded : TokenKind → Bool
  | .command .read | .cast _ | .binary .and => true
  | _ => false

/-- Whether a kind takes the operand to its left. -/
def isInfix : TokenKind → Bool
  | .binary _ | .not => true
  | _ => false

/-- Faults that are found only because the program ends. -/
def seesEnd : Error → Prop
  | .executed (.unexpectedEndOfInput _) | .executed (.unmatchedParen _)
  | .executed (.unterminatedBlock _ _) | .executed (.missingSection _ _) => True
  | _ => False

/-- Events that tell the same about the program and about its image. -/
inductive Alike (aligned : Alignment) : Event → Event → Prop where
  | same (event : Event) : Alike aligned event event
  | dispatched (index : Nat) (kind : TokenKind) (depth height : Nat) {labels others : Labels}
      (labelled : aligned.Labelled labels others) :
      Alike aligned (.dispatched ⟨index, kind, depth, height, labels⟩)
        (.dispatched ⟨index + aligned.offset, kind, depth, height, others⟩)
  | decided (position : Position) (holds : Bool) :
      Alike aligned (.decided position.line holds) (.decided (aligned.move position).line holds)
  | jumped (label : String) (start stop : Nat) :
      Alike aligned (.jumped label start stop)
        (.jumped label (start + aligned.offset) (stop + aligned.offset))
  | passed (label : String) (start stop : Nat) :
      Alike aligned (.passed label start stop)
        (.passed label (start + aligned.offset) (stop + aligned.offset))
  | exited (code : Int) (index : Nat) :
      Alike aligned (.exited code index) (.exited code (index + aligned.offset))
  | failed (category : String) (index : Nat) :
      Alike aligned (.failed category index) (.failed category (index + aligned.offset))

/-- An operator with an index has the same variable to its left in the image. -/
def Operand (aligned : Alignment) (index : Nat) : Prop :=
  variableBefore aligned.image (index + aligned.offset) =
    (variableBefore aligned.program index).map (·.mapPosition aligned.move)

/-- A block stands where the tokens are found again, as far as it is known. -/
def Covers (aligned : Alignment) (range : BlockRange) : Prop :=
  ∀ index, range.start? = some index ∨ range.stop? = some index → aligned.start ≤ index + 1

/-- What an alignment must satisfy. -/
structure Lawful (aligned : Alignment) : Prop where
  start_pos : 0 < aligned.start
  token {index : Nat} {token : Token} (near : aligned.start ≤ index + 1)
    (held : aligned.program[index]? = some token) :
    aligned.image[index + aligned.offset]? = some (token.mapPosition aligned.move)
  operand {index : Nat} {token : Token} (near : aligned.start ≤ index + 1)
    (held : aligned.program[index]? = some token) (operator : isInfix token.kind = true) :
    aligned.Operand index
  column (first second : Position) :
    (aligned.move first).column = (aligned.move second).column ↔ first.column = second.column
  line (first second : Position) :
    (aligned.move first).line = (aligned.move second).line ↔ first.line = second.line
  whole (same : ¬ aligned.cut) : aligned.image.size = aligned.program.size + aligned.offset
  excuse (cut : aligned.cut) {error : Error} (seen : seesEnd error) : aligned.excused error
  /-- What goes on after the end does not stand in the line of the last token. -/
  apart (cut : aligned.cut) {last next : Token} (ends : aligned.program.back? = some last)
    (begins : aligned.image[aligned.program.size + aligned.offset]? = some next) :
    next.position.line ≠ (aligned.move last.position).line
  /-- The last token is not one that the tokens after the end could still belong to. -/
  closed (cut : aligned.cut) {last : Token} (ends : aligned.program.back? = some last) :
    isOpenEnded last.kind = false
  contains {labels others : Labels} (labelled : aligned.Labelled labels others) (label : String) :
    others.contains label = labels.contains label
  added {labels others : Labels} {label : String} {range : BlockRange}
    (labelled : aligned.Labelled labels others) (new : labels.contains label = false)
    (covered : aligned.Covers range) :
    aligned.Labelled ⟨labels.table.insert label range⟩
      ⟨others.table.insert label (range.shift aligned.offset)⟩
  logged {log twinLog : List Event} {event other : Event}
    (so : aligned.Logged log twinLog) (alike : aligned.Alike event other) :
    aligned.Logged (event :: log) (other :: twinLog)

/-- Two machines that agree, the second one in the image. The counter of the first one may still
stand right before the start. -/
structure Near (aligned : Alignment) (machine twin : Machine) : Prop where
  tokens : machine.tokens = aligned.program
  twinTokens : twin.tokens = aligned.image
  counter : twin.pc = machine.pc + aligned.offset
  near : aligned.start ≤ machine.pc + 1
  within : machine.pc ≤ aligned.program.size
  values : twin.stack.values = machine.stack.values
  /-- A larger stack will do if overflows of the smaller one are excused. -/
  capacity : twin.stack.capacity = machine.stack.capacity ∨
    machine.stack.capacity ≤ twin.stack.capacity ∧
      aligned.excused (.executed (.stackOverflow machine.stack.capacity))
  bindings : twin.bindings = machine.bindings
  labels : aligned.Labelled machine.labels twin.labels
  depth : twin.depth = machine.depth
  log : aligned.Logged machine.log twin.log

theorem stack_of_near {aligned : Alignment} {machine twin : Machine}
    (near : aligned.Near machine twin)
    (told : ¬ aligned.excused (.executed (.stackOverflow machine.stack.capacity))) :
    twin.stack = machine.stack := by
  have capacity : twin.stack.capacity = machine.stack.capacity :=
    near.capacity.resolve_right fun larger => told larger.2
  have values := near.values
  rcases held : twin.stack with ⟨_, _⟩
  rw [held] at capacity values
  cases capacity
  cases values
  rfl

/-- Two machines that agree after the start. -/
structure Related (aligned : Alignment) (machine twin : Machine) : Prop
    extends aligned.Near machine twin where
  started : aligned.start ≤ machine.pc

/-- A stop at the place where the image has it. -/
def moved (aligned : Alignment) : Stop → Stop
  | .exit code => .exit code
  | .fault error => .fault (error.mapPosition aligned.move)

/-- Whether nothing is said about the image after a stop. -/
def Excuses (aligned : Alignment) : Stop → Prop
  | .exit _ => False
  | .fault error => aligned.excused error

/-- Two actions end alike: with results that `post` relates, or stopped for the same reason. -/
def Ends {σ α β : Type} (aligned : Alignment) (post : α → β → Machine → Prop) :
    (Except Stop α × Machine) × σ → (Except Stop β × Machine) × σ → Prop
  | ((.ok value, machine), host), other =>
    ∃ result twin, other = ((.ok result, twin), host) ∧ aligned.Related machine twin ∧
      post value result machine
  | ((.error stop, machine), host), other =>
    aligned.Excuses stop ∨
      ∃ twin, other = ((.error (aligned.moved stop), twin), host) ∧ aligned.Related machine twin

/-- The same result. -/
def Same {α : Type} (value result : α) (_ : Machine) : Prop := result = value

section Rules
variable {σ α β γ δ : Type} {aligned : Alignment} {machine twin : Machine} {host : σ}

theorem ends_pure {post : α → β → Machine → Prop} {value : α} {result : β}
    (related : aligned.Related machine twin) (holds : post value result machine) :
    aligned.Ends post ((pure value : Exec (StateM σ) α).on machine host)
      ((pure result : Exec (StateM σ) β).on twin host) :=
  ⟨result, twin, rfl, related, holds⟩

theorem ends_raise {post : α → β → Machine → Prop} {error : Error}
    (related : aligned.Related machine twin) :
    aligned.Ends post ((raise error : Exec (StateM σ) α).on machine host)
      ((raise (error.mapPosition aligned.move) : Exec (StateM σ) β).on twin host) :=
  .inr ⟨twin, rfl, related⟩

theorem ends_bind {post : α → β → Machine → Prop} {goal : γ → δ → Machine → Prop}
    {action : Exec (StateM σ) α} {other : Exec (StateM σ) β} {next : α → Exec (StateM σ) γ}
    {otherNext : β → Exec (StateM σ) δ}
    (first : aligned.Ends post (action.on machine host) (other.on twin host))
    (rest : ∀ value result middle twinMiddle between, aligned.Related middle twinMiddle →
      post value result middle →
      aligned.Ends goal ((next value).on middle between)
        ((otherNext result).on twinMiddle between)) :
    aligned.Ends goal ((action >>= next).on machine host) ((other >>= otherNext).on twin host) := by
  rw [on_bind, on_bind]
  rcases ended : action.on machine host with ⟨⟨stop | value, middle⟩, between⟩
  all_goals rw [ended] at first
  · rcases first with excused | ⟨twinMiddle, ran, related⟩
    · exact .inl excused
    · rw [ran]
      exact .inr ⟨twinMiddle, rfl, related⟩
  · obtain ⟨result, twinMiddle, ran, related, holds⟩ := first
    rw [ran]
    exact rest value result middle twinMiddle between related holds

/-- Loops that test alike and whose bodies act alike end alike. `leaves` is what the test
promises when it ends the loop. -/
theorem ends_loop {test otherTest : Exec (StateM σ) Bool}
    {body otherBody : α → Exec (StateM σ) α} {leaves : Machine → Prop} {start : α}
    {result other : (Except Stop α × Machine) × σ}
    (looped : Loop test body start machine host result)
    (otherLooped : Loop otherTest otherBody start twin host other)
    (related : aligned.Related machine twin)
    (asked : ∀ machine twin (host : σ), aligned.Related machine twin →
      aligned.Ends (fun again other after => other = again ∧ (again = false → leaves after))
        (test.on machine host) (otherTest.on twin host))
    (ran : ∀ value machine twin (host : σ), aligned.Related machine twin →
      aligned.Ends Same ((body value).on machine host) ((otherBody value).on twin host)) :
    aligned.Ends (fun value result after => result = value ∧ leaves after) result other := by
  induction looped generalizing twin other with
  | @refused start machine after host later stop test =>
    have ended := asked machine twin host related
    rw [test] at ended
    rcases ended with excused | ⟨twinAfter, otherTest, relatedAfter⟩
    · exact .inl excused
    · rw [loop_refused otherLooped otherTest]
      exact .inr ⟨twinAfter, rfl, relatedAfter⟩
  | @finished start machine after host later test =>
    have ended := asked machine twin host related
    rw [test] at ended
    obtain ⟨_, twinAfter, otherTest, relatedAfter, rfl, left⟩ := ended
    rw [loop_finished otherLooped otherTest]
    exact ⟨start, twinAfter, rfl, relatedAfter, rfl, left rfl⟩
  | @broken start machine middle after host between later stop test failed =>
    have ended := asked machine twin host related
    rw [test] at ended
    obtain ⟨_, twinMiddle, otherTest, relatedMiddle, rfl, _⟩ := ended
    have acted := ran start middle twinMiddle between relatedMiddle
    rw [failed] at acted
    rcases acted with excused | ⟨twinAfter, otherFailed, relatedAfter⟩
    · exact .inl excused
    · rw [loop_broken otherLooped otherTest otherFailed]
      exact .inr ⟨twinAfter, rfl, relatedAfter⟩
  | @again start next machine middle after host between later result test acted rest ih =>
    have ended := asked machine twin host related
    rw [test] at ended
    obtain ⟨_, twinMiddle, otherTest, relatedMiddle, rfl, _⟩ := ended
    have agreed := ran start middle twinMiddle between relatedMiddle
    rw [acted] at agreed
    obtain ⟨_, twinAfter, otherActed, relatedAfter, rfl⟩ := agreed
    exact ih (loop_again otherLooped otherTest otherActed) relatedAfter

end Rules

section Tokens
variable {aligned : Alignment} (lawful : aligned.Lawful) {machine twin : Machine} {token : Token}
include lawful

theorem current_moved (near : aligned.Near machine twin) (next : machine.current? = some token) :
    twin.current? = some (token.mapPosition aligned.move) := by
  unfold Machine.current? at next ⊢
  rw [near.tokens] at next
  rw [near.twinTokens, near.counter]
  exact lawful.token near.near next

theorem current_ended (near : aligned.Near machine twin) (ended : machine.current? = none) :
    machine.pc = aligned.program.size ∧ (aligned.cut ∨ twin.current? = none) := by
  have behind : aligned.program.size ≤ machine.pc := by
    rw [← near.tokens]
    exact Array.getElem?_eq_none_iff.mp ended
  have counter : machine.pc = aligned.program.size := Nat.le_antisymm near.within behind
  refine ⟨counter, ?_⟩
  by_cases cut : aligned.cut
  · exact .inl cut
  · right
    unfold Machine.current?
    rw [near.twinTokens, near.counter, counter, ← lawful.whole cut]
    exact Array.getElem?_eq_none_iff.mpr (Nat.le_refl _)

/-- The token that was taken last is found again. -/
theorem last_moved (related : aligned.Related machine twin) :
    ∃ last, tokenBefore? machine.tokens machine.pc = some last ∧
      tokenBefore? twin.tokens twin.pc = some (last.mapPosition aligned.move) := by
  have positive : 0 < machine.pc := Nat.lt_of_lt_of_le lawful.start_pos related.started
  obtain ⟨before, counter⟩ : ∃ before, machine.pc = before + 1 := ⟨machine.pc - 1, by omega⟩
  have within := related.within
  have inside : before < aligned.program.size := by omega
  have held : aligned.program[before]? = some aligned.program[before] :=
    Array.getElem?_eq_getElem inside
  have twinCounter : twin.pc = before + aligned.offset + 1 := by
    rw [related.counter, counter]
    omega
  refine ⟨aligned.program[before], ?_, ?_⟩
  · rw [related.tokens, counter]
    exact held
  · rw [related.twinTokens, twinCounter]
    exact lawful.token (counter ▸ related.started) held

theorem lastPlace_moved (related : aligned.Related machine twin) :
    twin.lastPlace = aligned.move machine.lastPlace := by
  obtain ⟨last, before, twinBefore⟩ := last_moved lawful related
  simp [Machine.lastPlace, before, twinBefore, Token.mapPosition]

/-- At the end of a program that was cut off, the token taken last is the last one. -/
theorem last_of_ended (related : aligned.Related machine twin) (ended : machine.current? = none)
    (last : tokenBefore? machine.tokens machine.pc = some token) :
    aligned.program.back? = some token := by
  have counter := (current_ended lawful related.toNear ended).1
  have positive : 0 < machine.pc := Nat.lt_of_lt_of_le lawful.start_pos related.started
  obtain ⟨before, step⟩ : ∃ before, machine.pc = before + 1 := ⟨machine.pc - 1, by omega⟩
  rw [related.tokens, step] at last
  have size : aligned.program.size - 1 = before := by omega
  rw [Array.back?_eq_getElem?, size]
  exact last

/-- What may be left out is left out alike: after a token that it could belong to, the end of
the program is also the end of the image. -/
theorem current_eq (related : aligned.Related machine twin)
    (last : tokenBefore? machine.tokens machine.pc = some token)
    (openEnded : isOpenEnded token.kind = true) :
    twin.current? = machine.current?.map (·.mapPosition aligned.move) := by
  cases next : machine.current? with
  | some following => exact current_moved lawful related.toNear next
  | none =>
    rcases (current_ended lawful related.toNear next).2 with cut | ended
    · have closed := lawful.closed cut (last_of_ended lawful related next last)
      rw [openEnded] at closed
      cases closed
    · exact ended

theorem firstFrom_moved {start index : Nat} {wanted otherWanted : Token → Bool}
    (near : aligned.start ≤ start + 1)
    (same : ∀ token, otherWanted (token.mapPosition aligned.move) = wanted token)
    (found : firstFrom aligned.program start wanted = some index) :
    firstFrom aligned.image (start + aligned.offset) otherWanted =
      some (index + aligned.offset) := by
  obtain ⟨after, ⟨token, held, wants⟩, first⟩ := firstFrom_eq_some_iff.mp found
  have inside := (Array.getElem?_eq_some_iff.mp held).1
  refine firstFrom_eq_some_iff.mpr ⟨by omega, ⟨_, lawful.token (by omega) held, ?_⟩, ?_⟩
  · rw [same, wants]
  · intro earlier beyond before other otherHeld
    obtain ⟨index, rfl⟩ : ∃ index, earlier = index + aligned.offset :=
      ⟨earlier - aligned.offset, by omega⟩
    have original : aligned.program[index]? = some aligned.program[index] :=
      Array.getElem?_eq_getElem (by omega)
    rw [lawful.token (by omega) original] at otherHeld
    cases otherHeld
    rw [same]
    exact first index (by omega) (by omega) _ original

theorem firstFrom_missing {start : Nat} {wanted otherWanted : Token → Bool}
    (near : aligned.start ≤ start + 1) (whole : ¬ aligned.cut)
    (same : ∀ token, otherWanted (token.mapPosition aligned.move) = wanted token)
    (missing : firstFrom aligned.program start wanted = none) :
    firstFrom aligned.image (start + aligned.offset) otherWanted = none := by
  rw [firstFrom_eq_none_iff] at missing ⊢
  intro place token beyond held
  have inside := (Array.getElem?_eq_some_iff.mp held).1
  rw [lawful.whole whole] at inside
  obtain ⟨index, rfl⟩ : ∃ index, place = index + aligned.offset :=
    ⟨place - aligned.offset, by omega⟩
  have original : aligned.program[index]? = some aligned.program[index] :=
    Array.getElem?_eq_getElem (by omega)
  rw [lawful.token (by omega) original] at held
  cases held
  rw [same]
  exact missing index _ (by omega) original

end Tokens

section Elementary
variable {σ : Type} {aligned : Alignment} (lawful : aligned.Lawful) {machine twin : Machine}
  {host : σ}

theorem related_goTo (related : aligned.Related machine twin) {target : Nat}
    (forward : machine.pc ≤ target) (within : target ≤ aligned.program.size) :
    aligned.Related { machine with pc := target } { twin with pc := target + aligned.offset } :=
  { related with
    counter := rfl
    near := Nat.le_succ_of_le (Nat.le_trans related.started forward)
    within := within
    started := Nat.le_trans related.started forward }

theorem related_next (near : aligned.Near machine twin) {token : Token}
    (next : machine.current? = some token) :
    aligned.Related { machine with pc := machine.pc + 1 } { twin with pc := twin.pc + 1 } :=
  { near with
    counter := by
      change twin.pc + 1 = machine.pc + 1 + aligned.offset
      rw [near.counter]
      omega
    near := Nat.le_succ_of_le near.near
    within := near.tokens ▸ inside_of_current next
    started := near.near }

theorem related_labels (related : aligned.Related machine twin) {labels others : Labels}
    (labelled : aligned.Labelled labels others) :
    aligned.Related { machine with labels } { twin with labels := others } :=
  { related with labels := labelled }

include lawful

theorem related_record (related : aligned.Related machine twin) {event other : Event}
    (alike : aligned.Alike event other) :
    aligned.Related (machine.record event) (twin.record other) :=
  { related with log := lawful.logged related.log alike }

theorem ends_record (related : aligned.Related machine twin) {event other : Event}
    (alike : aligned.Alike event other) :
    aligned.Ends Same ((record event : Exec (StateM σ) Unit).on machine host)
      ((record other : Exec (StateM σ) Unit).on twin host) :=
  ⟨(), _, rfl, related_record lawful related alike, rfl⟩

/-- The token taken next is found again, unless the program ends and the image does not. -/
theorem ends_consume (related : aligned.Related machine twin) :
    aligned.Ends (fun token other after => other = token.mapPosition aligned.move ∧
        tokenBefore? after.tokens after.pc = some token)
      ((consume : Exec (StateM σ) Token).on machine host)
      ((consume : Exec (StateM σ) Token).on twin host) := by
  rw [on_consume, on_consume]
  cases next : machine.current? with
  | some token =>
    rw [current_moved lawful related.toNear next]
    exact ⟨_, _, rfl, related_next related.toNear next, rfl, next⟩
  | none =>
    rcases (current_ended lawful related.toNear next).2 with cut | ended
    · exact .inl (lawful.excuse cut trivial)
    · rw [ended]
      refine .inr ⟨twin, ?_, related⟩
      rw [lastPlace_moved lawful related]
      rfl

omit lawful in
theorem ends_push (related : aligned.Related machine twin) (value : Value) :
    aligned.Ends Same ((push value : Exec (StateM σ) Unit).on machine host)
      ((push value : Exec (StateM σ) Unit).on twin host) := by
  rw [on_push, on_push]
  simp only [Stack.push, Stack.size, related.values]
  rcases related.capacity with same | ⟨larger, excused⟩
  · rw [same]
    by_cases room : machine.stack.values.length < machine.stack.capacity
    · simp only [room, ↓reduceIte]
      exact ⟨(), _, rfl, { related with values := rfl, capacity := .inl rfl }, rfl⟩
    · simp only [room, ↓reduceIte]
      exact .inr ⟨twin, rfl, related⟩
  · by_cases room : machine.stack.values.length < machine.stack.capacity
    · have more : machine.stack.values.length < twin.stack.capacity := by omega
      simp only [room, more, ↓reduceIte]
      exact ⟨(), _, rfl, { related with values := rfl, capacity := .inr ⟨larger, excused⟩ }, rfl⟩
    · simp only [room, ↓reduceIte]
      exact .inl excused

omit lawful in
theorem ends_pop (related : aligned.Related machine twin) :
    aligned.Ends Same ((pop : Exec (StateM σ) Value).on machine host)
      ((pop : Exec (StateM σ) Value).on twin host) := by
  rw [on_pop, on_pop]
  simp only [Stack.pop, related.values]
  cases held : machine.stack.values with
  | nil => exact .inr ⟨twin, rfl, related⟩
  | cons value rest =>
    exact ⟨value, _, rfl, { related with values := rfl, capacity := related.capacity }, rfl⟩

omit lawful in
theorem ends_lookup (related : aligned.Related machine twin) (token : Token) :
    aligned.Ends Same ((lookup token : Exec (StateM σ) Value).on machine host)
      ((lookup (token.mapPosition aligned.move) : Exec (StateM σ) Value).on twin host) := by
  have name : (token.mapPosition aligned.move).nameOrEmpty = token.nameOrEmpty := rfl
  rw [on_lookup, on_lookup, name, related.bindings]
  cases machine.bindings.get? token.nameOrEmpty with
  | some value => exact ⟨value, twin, rfl, related, rfl⟩
  | none => exact .inr ⟨twin, rfl, related⟩

theorem ends_assign (related : aligned.Related machine twin) (name : String) (value : Value) :
    aligned.Ends Same ((assign name value : Exec (StateM σ) Unit).on machine host)
      ((assign name value : Exec (StateM σ) Unit).on twin host) := by
  rw [on_assign, on_assign]
  have noted := related_record lawful related (.same (.bound name value))
  refine ⟨(), _, rfl, { noted with bindings := ?_ }, rfl⟩
  change twin.bindings.insert name value = machine.bindings.insert name value
  rw [related.bindings]

theorem ends_writeLine [Host (StateM σ)] (related : aligned.Related machine twin)
    (line : String) :
    aligned.Ends Same ((writeLine line : Exec (StateM σ) Unit).on machine host)
      ((writeLine line : Exec (StateM σ) Unit).on twin host) := by
  rw [on_writeLine, on_writeLine]
  rcases (Host.writeLine line : StateM σ (Except String Unit)).run host with ⟨reason | ⟨⟩, later⟩
  · exact .inr ⟨twin, rfl, related⟩
  · exact ⟨(), _, rfl, related_record lawful related (.same _), rfl⟩

theorem ends_readLine [Host (StateM σ)] (related : aligned.Related machine twin)
    (prompt : Option String) :
    aligned.Ends Same ((readLine prompt : Exec (StateM σ) (Option String)).on machine host)
      ((readLine prompt : Exec (StateM σ) (Option String)).on twin host) := by
  rw [on_readLine, on_readLine]
  rcases (Host.readLine prompt : StateM σ (Except String (Option String))).run host with
    ⟨reason | line, later⟩
  · exact .inr ⟨twin, rfl, related⟩
  · exact ⟨line, _, rfl, related_record lawful related (.same _), rfl⟩

/-- What is counted as a nesting level is counted on both sides, however the body ends. -/
theorem ends_counted {α β : Type} {post : α → β → Machine → Prop} {action : Exec (StateM σ) α}
    {other : Exec (StateM σ) β} (related : aligned.Related machine twin)
    (stable : ∀ value result after, post value result after → post value result (left after))
    (agreed : aligned.Related (entered machine) (entered twin) →
      aligned.Ends post (action.on (entered machine) host) (other.on (entered twin) host)) :
    aligned.Ends post ((counted action).on machine host) ((counted other).on twin host) := by
  rw [on_counted_entered, on_counted_entered]
  have inner : aligned.Related (entered machine) (entered twin) :=
    { related_record lawful related (.same .entered) with
      depth := congrArg (· + 1) related.depth }
  have outer {after twinAfter : Machine} (ended : aligned.Related after twinAfter) :
      aligned.Related (left after) (left twinAfter) :=
    { related_record lawful ended (.same .left) with depth := congrArg (· - 1) ended.depth }
  have ended := agreed inner
  rcases ran : action.on (entered machine) host with ⟨⟨stop | value, after⟩, later⟩
  all_goals rw [ran] at ended
  · rcases ended with excused | ⟨twinAfter, otherRan, relatedAfter⟩
    · exact .inl excused
    · rw [otherRan]
      exact .inr ⟨_, rfl, outer relatedAfter⟩
  · obtain ⟨result, twinAfter, otherRan, relatedAfter, holds⟩ := ended
    rw [otherRan]
    exact ⟨result, _, rfl, outer relatedAfter, stable _ _ _ holds⟩

end Elementary

end Alignment

end StackScript
