import StackScript.Host.Transcript
import StackScript.Proofs.Progress

/-! The table of labels. A label is recorded once: either with the range of its block, when the
block is passed over or jumped to, or with no range, when a jump to it is taken and finds no
block. Nothing that is recorded ever changes. Two relations on the walk carry this: `Grows` says
what happens to the table and to the log on the way, and `Explains` says that what is recorded on
the way is right. -/
namespace StackScript.LabelTable
open Exec Walk Progress

/-- A block of a label: it is opened by a token that carries the label, and ends at the first
token after that in the same column. -/
def IsBlock (tokens : Array Token) (label : String) (start stop : Nat) : Prop :=
  ∃ opener closer, tokens[start]? = some opener ∧ opener.kind = .labelled ∧
    opener.nameOrEmpty = label ∧ start < stop ∧ tokens[stop]? = some closer ∧
    closer.position.column = opener.position.column ∧
    ∀ between token, start < between → between < stop → tokens[between]? = some token →
      token.position.column ≠ opener.position.column

/-- Every recorded range is that of a block of its label which opens before a counter, or it is
not known and the label was lost. -/
def Sound (tokens : Array Token) (counter : Nat) (lost : String → Prop) (labels : Labels) : Prop :=
  ∀ label range, labels.get? label = some range →
    (∃ start stop, range = ⟨some start, some stop⟩ ∧ IsBlock tokens label start stop ∧
      start < counter) ∨
    range = .unknown ∧ lost label

/-- A later table has all that an earlier one has. -/
def Extends (earlier later : Labels) : Prop :=
  ∀ label range, earlier.get? label = some range → later.get? label = some range

/-- The tables that the tokens of a log were executed with, the last one first. -/
def tables (log : List Event) : List Labels :=
  log.filterMap fun
    | .dispatched dispatch => some dispatch.labels
    | _ => none

/-- Whether an event is that the block of a label was jumped to or passed over. -/
def isVisit (label : String) : Event → Bool
  | .jumped other _ _ | .passed other _ _ => other = label
  | _ => false

@[simp] theorem tables_append (new old : List Event) :
    tables (new ++ old) = tables new ++ tables old := List.filterMap_append

section Tables
variable {tokens : Array Token} {lost : String → Prop} {labels : Labels}

theorem extends_refl (labels : Labels) : Extends labels labels := fun _ _ => id

theorem extends_trans {first second third : Labels} (before : Extends first second)
    (after : Extends second third) : Extends first third :=
  fun label range held => after label range (before label range held)

theorem absent_of_extends {earlier later : Labels} (extended : Extends earlier later)
    {label : String} (absent : later.get? label = none) : earlier.get? label = none := by
  cases known : earlier.get? label with
  | none => rfl
  | some range => exact absurd (extended label range known) (by simp [absent])

/-- A table is extended by a label that is new. -/
theorem extends_insert {label : String} (fresh : labels.get? label = none) (range : BlockRange) :
    Extends labels ⟨labels.table.insert label range⟩ := by
  intro other held known
  rw [Labels.get?_insert, if_neg]
  · exact known
  · rintro rfl
    rw [fresh] at known
    cases known

theorem sound_mono {counter later : Nat} (ahead : counter ≤ later) {more : String → Prop}
    (worse : ∀ label, lost label → more label) (sound : Sound tokens counter lost labels) :
    Sound tokens later more labels := by
  intro label range held
  rcases sound label range held with ⟨start, stop, shape, block, before⟩ | ⟨unset, gone⟩
  · exact .inl ⟨start, stop, shape, block, Nat.lt_of_lt_of_le before ahead⟩
  · exact .inr ⟨unset, worse label gone⟩

/-- A sound table stays sound when the range of a block is recorded. -/
theorem sound_insert {counter start stop : Nat} {label : String}
    (sound : Sound tokens counter lost labels) (block : IsBlock tokens label start stop)
    (before : start < counter) :
    Sound tokens counter lost ⟨labels.table.insert label ⟨some start, some stop⟩⟩ := by
  intro other range held
  rw [Labels.get?_insert] at held
  split at held
  · rename_i same
    cases held
    exact .inl ⟨start, stop, rfl, same ▸ block, before⟩
  · exact sound other range held

/-- A sound table stays sound when a label is recorded that is lost. -/
theorem sound_insert_unknown {counter : Nat} (sound : Sound tokens counter lost labels)
    (label : String) :
    Sound tokens counter (fun other => lost other ∨ other = label)
      ⟨labels.table.insert label .unknown⟩ := by
  intro other range held
  rw [Labels.get?_insert] at held
  split at held
  · rename_i same
    cases held
    exact .inr ⟨rfl, .inr same.symm⟩
  · exact sound_mono (Nat.le_refl _) (fun _ => Or.inl) sound other range held

/-- A token that opens a block, and the first token after it in its column. -/
theorem isBlock_of_endOfBlock {start stop : Nat} {opener : Token}
    (opens : tokens[start]? = some opener) (kind : opener.kind = .labelled)
    (ends : endOfBlock tokens (start + 1) opener.position.column = some stop) :
    IsBlock tokens opener.nameOrEmpty start stop := by
  obtain ⟨after, ⟨closer, closes, column⟩, first⟩ := firstFrom_eq_some_iff.mp ends
  refine ⟨opener, closer, opens, kind, rfl, after, closes, of_decide_eq_true column, ?_⟩
  intro between token later earlier held
  exact of_decide_eq_false (first between later earlier token held)

/-- What a jump goes to is a block of its label. -/
theorem isBlock_of_target {counter start stop : Nat} {label : String}
    (target : Target tokens counter label start stop) : IsBlock tokens label start stop := by
  obtain ⟨_, ⟨opener, opens, carries⟩, _⟩ := firstFrom_eq_some_iff.mp target.found
  obtain ⟨_, held, ends⟩ := target.ends
  cases opens.symm.trans held
  obtain ⟨kind, name⟩ := of_decide_eq_true carries
  have carried : opener.nameOrEmpty = label := by simp [Token.nameOrEmpty, name]
  exact carried ▸ isBlock_of_endOfBlock opens kind ends

end Tables

section Growth

/-- How the table grows on the way from one machine to another: nothing in it is changed, the
tokens on the way are executed with tables in between, and each label that is visited is visited
once, was new before and is recorded afterwards. -/
structure Grows (before after : Machine) : Prop where
  counter : before.pc ≤ after.pc
  kept : Extends before.labels after.labels
  logged : ∃ new, after.log = new ++ before.log ∧
    (tables new).Pairwise (fun later earlier => Extends earlier later) ∧
    (∀ table ∈ tables new, Extends before.labels table ∧ Extends table after.labels) ∧
    ∀ label, new.countP (isVisit label) = 0 ∨ new.countP (isVisit label) = 1 ∧
      before.labels.get? label = none ∧ after.labels.get? label ≠ none

/-- A change that leaves the table alone and executes no token. -/
theorem grows_of_same {before after : Machine} (counter : before.pc ≤ after.pc)
    (labels : after.labels = before.labels) (new : List Event)
    (log : after.log = new ++ before.log) (silent : tables new = [])
    (unvisited : ∀ label, new.countP (isVisit label) = 0) : Grows before after := by
  refine ⟨counter, labels ▸ extends_refl _, new, log, ?_, ?_, fun label => .inl (unvisited label)⟩
  · rw [silent]
    exact .nil
  · rw [silent]
    simp

theorem grows_refl (machine : Machine) : Grows machine machine :=
  grows_of_same (Nat.le_refl _) rfl [] rfl rfl fun _ => rfl

theorem grows_trans {first second third : Machine} (before : Grows first second)
    (after : Grows second third) : Grows first third := by
  obtain ⟨early, earlyLog, earlyOrder, earlyTables, earlyVisits⟩ := before.logged
  obtain ⟨late, lateLog, lateOrder, lateTables, lateVisits⟩ := after.logged
  refine ⟨Nat.le_trans before.counter after.counter, extends_trans before.kept after.kept,
    late ++ early, ?_, ?_, ?_, ?_⟩
  · rw [lateLog, earlyLog, List.append_assoc]
  · rw [tables_append, List.pairwise_append]
    refine ⟨lateOrder, earlyOrder, ?_⟩
    intro newer memberLate older memberEarly
    exact extends_trans (earlyTables older memberEarly).2 (lateTables newer memberLate).1
  · intro table member
    rw [tables_append, List.mem_append] at member
    rcases member with member | member
    · exact ⟨extends_trans before.kept (lateTables table member).1, (lateTables table member).2⟩
    · exact ⟨(earlyTables table member).1, extends_trans (earlyTables table member).2 after.kept⟩
  · intro label
    rw [List.countP_append]
    -- A label that was visited early is recorded by then, and so it is not visited late.
    rcases earlyVisits label with never | ⟨once, new, known⟩
    · rw [never, Nat.add_zero]
      rcases lateVisits label with still | ⟨once, new, known⟩
      · exact .inl still
      · exact .inr ⟨once, absent_of_extends before.kept new, known⟩
    · rcases lateVisits label with still | ⟨_, absent, _⟩
      · rw [still, once]
        refine .inr ⟨rfl, new, fun absent => known ?_⟩
        exact absent_of_extends after.kept absent
      · exact absurd absent known

section Elementary
variable {machine : Machine}

theorem grows_taken (machine : Machine) (token : Token) : Grows machine (taken machine token) := by
  refine ⟨Nat.le_succ _, extends_refl _, [.dispatched _], rfl, List.pairwise_singleton _ _, ?_,
    fun _ => .inl rfl⟩
  intro table member
  cases List.mem_singleton.mp member
  exact ⟨extends_refl _, extends_refl _⟩

/-- A label that is new is recorded, without a visit. -/
theorem grows_labelled {label : String} (fresh : machine.labels.get? label = none)
    (range : BlockRange) : Grows machine (labelled machine label range) :=
  ⟨Nat.le_refl _, extends_insert fresh range, [], rfl, .nil, by simp [tables], fun _ => .inl rfl⟩

/-- A label that is new is recorded, and its block is visited. -/
theorem grows_visited {after : Machine} {label : String} {range : BlockRange} (event : Event)
    (visits : ∀ other, isVisit other event = decide (label = other)) (silent : tables [event] = [])
    (fresh : machine.labels.get? label = none) (counter : machine.pc ≤ after.pc)
    (labels : after.labels = ⟨machine.labels.table.insert label range⟩)
    (log : after.log = event :: machine.log) : Grows machine after := by
  refine ⟨counter, labels ▸ extends_insert fresh range, [event], log, ?_, ?_, ?_⟩
  · rw [silent]
    exact .nil
  · rw [silent]
    simp
  · intro other
    rw [List.countP_singleton, visits]
    by_cases same : label = other
    · subst same
      refine .inr ⟨by simp, fresh, ?_⟩
      rw [labels, Labels.get?_insert, if_pos rfl]
      exact Option.some_ne_none range
    · exact .inl (by simp [same])

end Elementary

theorem grows_steady {σ : Type} [Host (StateM σ)] :
    Steady σ fun _ before _ after => Grows before after where
  refl := grows_refl
  halt machine _ := grows_refl machine
  full _ := grows_refl _
  bare _ := grows_refl _
  trans := grows_trans
  counter grown := grown.counter
  take _ := grows_taken _ _
  pass forward _ := grows_of_same forward rfl [] rfl rfl fun _ => rfl
  push _ := grows_of_same (Nat.le_refl _) rfl [] rfl rfl fun _ => rfl
  pop _ := grows_of_same (Nat.le_refl _) rfl [] rfl rfl fun _ => rfl
  bind _ value := grows_of_same (Nat.le_add_right _ 2) rfl [.bound _ value] rfl rfl fun _ => rfl
  passBlock := by
    intro _ machine opener stop next _ fresh ends
    have after : machine.pc + 1 ≤ stop := (firstFrom_eq_some_iff.mp ends).1
    exact grows_visited (.passed opener.nameOrEmpty machine.pc stop) (fun _ => rfl) rfl fresh after
      rfl rfl
  jumpTo := by
    intro _ machine label start stop fresh target
    have after : machine.pc ≤ start := (firstFrom_eq_some_iff.mp target.found).1
    exact grows_visited (.jumped label start stop) (fun _ => rfl) rfl fresh
      (Nat.le_succ_of_le after) rfl rfl
  lose _ walked fresh _ := grows_trans walked (grows_labelled fresh .unknown)
  remark := by
    intro _ event plain machine
    refine grows_of_same (Nat.le_refl _) rfl [event] rfl ?_ ?_
    · cases event <;> first | rfl | cases plain
    · intro label
      cases event <;> first | rfl | cases plain
  call := by
    intro _ machine started middle token command event _ _ makes _ begun walked
    refine grows_trans begun (grows_trans walked
      (grows_of_same (Nat.le_refl _) rfl [event] rfl ?_ ?_))
    · cases makes <;> rfl
    · intro label
      cases makes <;> rfl
  nested := by
    intro _ machine after _ grown
    have going : Grows machine (entered machine) :=
      grows_of_same (Nat.le_refl _) rfl [.entered] rfl rfl fun _ => rfl
    have coming : Grows after (left after) :=
      grows_of_same (Nat.le_refl _) rfl [.left] rfl rfl fun _ => rfl
    exact grows_trans going (grows_trans grown coming)

end Growth

section Explanation
variable {σ : Type} [Host (StateM σ)]

/-- On the way from one machine to another a jump is taken that finds no block: the way leads to
the jump, its guard holds, and the search from there on fails. -/
structure LosesJump (σ : Type) [Host (StateM σ)] (before : Machine) (jump : Token)
    (error : RuntimeError) (after : Machine) : Prop where
  reached : ∃ machine middle, machine.tokens = before.tokens ∧ before.pc ≤ machine.pc ∧
    before.log <:+ machine.log ∧ TakesJump σ machine jump middle ∧
    (taken machine jump).log <:+ after.log ∧ after.pc = middle.pc
  lost : NoTarget after.tokens after.pc jump error

/-- A machine whose table is sound. -/
def IsSound (lost : String → Prop) (machine : Machine) : Prop :=
  Sound machine.tokens machine.pc lost machine.labels

/-- What is recorded on the way from one machine to another is right: the tokens on the way are
executed with sound tables, and the table is sound in the end, but for a label that is lost. -/
structure Explains (σ : Type) [Host (StateM σ)] (before : Machine) (stop? : Option Stop)
    (after : Machine) : Prop where
  tokens : after.tokens = before.tokens
  counter : before.pc ≤ after.pc
  logged : ∃ new, after.log = new ++ before.log ∧ ∀ lost, IsSound lost before →
    ∀ dispatch, .dispatched dispatch ∈ new →
      Sound before.tokens dispatch.index lost dispatch.labels
  sound : ∀ lost, IsSound lost before → IsSound lost after ∨
    ∃ jump error, stop? = some (.fault (.executed error)) ∧ LosesJump σ before jump error after ∧
      IsSound (fun label => lost label ∨ label = jump.nameOrEmpty) after

/-- A change that executes no token and keeps the table sound. -/
theorem explains_of_sound {before after : Machine} {stop? : Option Stop}
    (tokens : after.tokens = before.tokens) (counter : before.pc ≤ after.pc) (new : List Event)
    (log : after.log = new ++ before.log) (silent : ∀ dispatch, .dispatched dispatch ∉ new)
    (sound : ∀ lost, IsSound lost before → IsSound lost after) : Explains σ before stop? after :=
  ⟨tokens, counter, ⟨new, log, fun _ _ dispatch member => absurd member (silent dispatch)⟩,
    fun lost known => .inl (sound lost known)⟩

/-- A change that executes no token and leaves the table alone. -/
theorem explains_of_same {before after : Machine} {stop? : Option Stop}
    (tokens : after.tokens = before.tokens) (counter : before.pc ≤ after.pc)
    (labels : after.labels = before.labels) (new : List Event) (log : after.log = new ++ before.log)
    (silent : ∀ dispatch, .dispatched dispatch ∉ new) : Explains σ before stop? after := by
  refine explains_of_sound tokens counter new log silent fun lost known => ?_
  rw [IsSound, tokens, labels]
  exact sound_mono counter (fun _ => id) known

theorem explains_refl (machine : Machine) (stop? : Option Stop) :
    Explains σ machine stop? machine :=
  explains_of_same rfl (Nat.le_refl _) rfl [] rfl (by simp)

theorem losesJump_of_ahead {before machine after : Machine} {jump : Token} {error : RuntimeError}
    (tokens : machine.tokens = before.tokens) (counter : before.pc ≤ machine.pc)
    (log : before.log <:+ machine.log) (loses : LosesJump σ machine jump error after) :
    LosesJump σ before jump error after := by
  obtain ⟨ahead, middle, same, beyond, later, rest⟩ := loses.reached
  exact ⟨⟨ahead, middle, same.trans tokens, Nat.le_trans counter beyond, log.trans later, rest⟩,
    loses.lost⟩

theorem explains_trans {first second third : Machine} {stop? : Option Stop}
    (before : Explains σ first none second) (after : Explains σ second stop? third) :
    Explains σ first stop? third := by
  obtain ⟨early, earlyLog, earlySound⟩ := before.logged
  obtain ⟨late, lateLog, lateSound⟩ := after.logged
  have middle {lost : String → Prop} (known : IsSound lost first) : IsSound lost second := by
    rcases before.sound lost known with sound | ⟨_, _, interrupted, _⟩
    · exact sound
    · cases interrupted
  refine ⟨after.tokens.trans before.tokens, Nat.le_trans before.counter after.counter,
    ⟨late ++ early, ?_, ?_⟩, ?_⟩
  · rw [lateLog, earlyLog, List.append_assoc]
  · intro lost known dispatch member
    rcases List.mem_append.mp member with member | member
    · rw [← before.tokens]
      exact lateSound lost (middle known) dispatch member
    · exact earlySound lost known dispatch member
  · intro lost known
    rcases after.sound lost (middle known) with sound | ⟨jump, error, stopped, loses, sound⟩
    · exact .inl sound
    · have log : first.log <:+ second.log := ⟨early, earlyLog.symm⟩
      exact .inr ⟨jump, error, stopped,
        losesJump_of_ahead before.tokens before.counter log loses, sound⟩

theorem explains_taken (machine : Machine) (token : Token) :
    Explains σ machine none (taken machine token) := by
  refine ⟨rfl, Nat.le_succ _, ⟨[.dispatched _], rfl, ?_⟩, ?_⟩
  · intro lost known dispatch member
    cases List.mem_singleton.mp member
    exact known
  · intro lost known
    exact .inl (sound_mono (Nat.le_succ _) (fun _ => id) known)

/-- A block is recorded that opens before the counter is set to where the way goes on. -/
theorem explains_visited {machine after : Machine} {label : String} {start stop : Nat}
    {event : Event} (block : IsBlock machine.tokens label start stop)
    (silent : ∀ dispatch, .dispatched dispatch ≠ event) (tokens : after.tokens = machine.tokens)
    (counter : machine.pc ≤ after.pc) (before : start < after.pc)
    (labels : after.labels = ⟨machine.labels.table.insert label ⟨some start, some stop⟩⟩)
    (log : after.log = event :: machine.log) : Explains σ machine none after := by
  refine explains_of_sound tokens counter [event] log (by simpa using silent) fun lost known => ?_
  rw [IsSound, tokens, labels]
  exact sound_insert (sound_mono counter (fun _ => id) known) block before

/-- What the guard of a jump logs comes after the jump. -/
theorem log_of_takesJump {machine middle : Machine} {jump : Token}
    (takes : TakesJump σ machine jump middle) : (taken machine jump).log <:+ middle.log := by
  obtain ⟨levels, host, later, ran⟩ := takes.guard
  have moved : Forward { taken machine jump with pc := machine.pc + 2 }
      ((boolean (level? levels) "JUMP").on
        { taken machine jump with pc := machine.pc + 2 } host).1.2 :=
    keeps_boolean forward_steady (level_keeps forward_steady levels) "JUMP" _ host
  rw [ran] at moved
  obtain ⟨new, log, _⟩ := moved.logged
  exact ⟨new, log.symm⟩

theorem explains_lost {machine middle : Machine} {jump : Token} {error : RuntimeError}
    (takes : TakesJump σ machine jump middle) (walked : Explains σ machine none middle)
    (lost : NoTarget middle.tokens middle.pc jump error) :
    Explains σ machine (some (.fault (.executed error)))
      (labelled middle jump.nameOrEmpty .unknown) := by
  refine ⟨walked.tokens, walked.counter, walked.logged, ?_⟩
  have logged : (taken machine jump).log <:+ middle.log := log_of_takesJump takes
  intro earlier known
  rcases walked.sound earlier known with sound | ⟨_, _, interrupted, _⟩
  · refine .inr ⟨jump, error, rfl, ⟨⟨machine, middle, ?_⟩, lost⟩, ?_⟩
    · exact ⟨rfl, Nat.le_refl _, List.suffix_rfl, takes, logged, rfl⟩
    · exact sound_insert_unknown sound jump.nameOrEmpty
  · cases interrupted

/-- What is only logged afterwards, also after an interruption, changes no explanation. -/
theorem explains_then {before after later : Machine} {stop? : Option Stop}
    (explained : Explains σ before stop? after) (tokens : later.tokens = after.tokens)
    (counter : later.pc = after.pc) (labels : later.labels = after.labels) (new : List Event)
    (log : later.log = new ++ after.log) (silent : ∀ dispatch, .dispatched dispatch ∉ new) :
    Explains σ before stop? later := by
  have same (lost : String → Prop) : IsSound lost later ↔ IsSound lost after := by
    rw [IsSound, IsSound, tokens, counter, labels]
  obtain ⟨earlier, earlierLog, earlierSound⟩ := explained.logged
  refine ⟨tokens.trans explained.tokens, counter ▸ explained.counter, ⟨new ++ earlier, ?_, ?_⟩, ?_⟩
  · rw [log, earlierLog, List.append_assoc]
  · intro lost known dispatch member
    rcases List.mem_append.mp member with member | member
    · exact absurd member (silent dispatch)
    · exact earlierSound lost known dispatch member
  · intro lost known
    rcases explained.sound lost known with sound | ⟨jump, error, stopped, loses, sound⟩
    · exact .inl ((same lost).mpr sound)
    · obtain ⟨machine, middle, program, beyond, since, takes, logged, ends⟩ := loses.reached
      refine .inr ⟨jump, error, stopped,
        ⟨⟨machine, middle, program, beyond, since, takes, ?_, ?_⟩, ?_⟩, (same _).mpr sound⟩
      · exact logged.trans ⟨new, log.symm⟩
      · rw [counter, ends]
      · rw [tokens, counter]
        exact loses.lost

theorem explains_nested {machine after : Machine} {stop? : Option Stop}
    (inner : Explains σ (entered machine) stop? after) :
    Explains σ machine stop? (left after) := by
  have going : Explains σ machine none (entered machine) :=
    explains_of_same rfl (Nat.le_refl _) rfl [.entered] rfl (by simp)
  exact explains_then (explains_trans going inner) rfl rfl rfl [.left] rfl (by simp)

theorem explains_steady : Steady σ fun _ => Explains σ where
  refl machine := explains_refl machine none
  halt machine _ := explains_refl machine _
  full _ := explains_refl _ _
  bare _ := explains_refl _ _
  trans := explains_trans
  counter explained := explained.counter
  take _ := explains_taken _ _
  pass forward _ := explains_of_same rfl forward rfl [] rfl (by simp)
  push _ := explains_of_same rfl (Nat.le_refl _) rfl [] rfl (by simp)
  pop _ := explains_of_same rfl (Nat.le_refl _) rfl [] rfl (by simp)
  bind _ value := explains_of_same rfl (Nat.le_add_right _ 2) rfl [.bound _ value] rfl (by simp)
  passBlock := by
    intro _ machine opener stop next kind _ ends
    have after : machine.pc + 1 ≤ stop := (firstFrom_eq_some_iff.mp ends).1
    exact explains_visited (isBlock_of_endOfBlock next kind ends) (by simp) rfl after after rfl rfl
  jumpTo := by
    intro _ machine label start stop _ target
    have after : machine.pc ≤ start := (firstFrom_eq_some_iff.mp target.found).1
    exact explains_visited (isBlock_of_target target) (by simp) rfl (Nat.le_succ_of_le after)
      (Nat.lt_succ_self _) rfl rfl
  lose takes walked _ lost := explains_lost takes walked lost
  remark := by
    intro _ event plain machine
    refine explains_of_same rfl (Nat.le_refl _) rfl [event] rfl ?_
    rintro dispatch member
    cases List.mem_singleton.mp member
    cases plain
  call := by
    intro _ machine started middle token command event _ _ makes _ begun walked
    refine explains_trans begun (explains_trans walked
      (explains_of_same rfl (Nat.le_refl _) rfl [event] rfl ?_))
    rintro dispatch member
    cases List.mem_singleton.mp member
    cases makes
  nested := explains_nested

end Explanation

section Calls
variable {σ : Type} [Host (StateM σ)]

theorem conclude_grows (machine : Machine) (result : Except Stop Unit) :
    Grows machine (machine.conclude result).2 := by
  rcases result with (code | error) | ⟨⟩
  · exact grows_of_same (Nat.le_refl _) rfl [.exited code machine.pc] rfl rfl fun _ => rfl
  · exact grows_of_same (Nat.le_refl _) rfl [.failed error.category machine.pc] rfl rfl fun _ => rfl
  · exact grows_refl machine

theorem call_grows (machine : Machine) (host : σ) : Grows machine (call machine host).1.2 :=
  grows_trans (keeps_toEnd grows_steady machine host) (conclude_grows _ _)

theorem calls_grow (machine : Machine) (host : σ) (count : Nat) :
    Grows machine (calls machine host count).1 := by
  induction count with
  | zero => exact grows_refl machine
  | succ count ih => exact grows_trans ih (call_grows _ _)

/-- What a call records is right, but for a label that is lost by the fault that the call gives. -/
theorem call_explains (machine : Machine) (host : σ) :
    ∃ stop?, Explains σ machine stop? (call machine host).1.2 ∧
      ∀ error, stop? = some (.fault error) → (call machine host).1.1 = .error error := by
  have walked := keeps_toEnd explains_steady machine host
  rw [call_eq]
  rcases ran : toEnd.on machine host with ⟨⟨(code | error) | ⟨⟩, after⟩, later⟩
  all_goals rw [ran] at walked
  · refine ⟨some (.exit code), ?_, by simp⟩
    exact explains_then walked rfl rfl rfl [.exited code after.pc] rfl (by simp)
  · refine ⟨some (.fault error), ?_, ?_⟩
    · exact explains_then walked rfl rfl rfl [.failed error.category after.pc] rfl (by simp)
    · rintro _ ⟨⟩
      rfl
  · exact ⟨none, walked, by simp⟩

/-- The call that comes after a number of calls fails in a jump to a label: the jump is taken in
that call and finds no block. -/
def LosesLabel (machine : Machine) (host : σ) (count : Nat) (label : String) : Prop :=
  let before := calls machine host count
  let ended := call before.1 before.2
  ∃ jump error, jump.nameOrEmpty = label ∧ ended.1.1 = .error (.executed error) ∧
    LosesJump σ before.1 jump error ended.1.2

/-- One of the first calls loses a label. -/
def LostWithin (machine : Machine) (host : σ) (count : Nat) (label : String) : Prop :=
  ∃ earlier < count, LosesLabel machine host earlier label

/-- The table is sound after one more call, if it was before. -/
theorem call_sound {machine : Machine} {host : σ} {count : Nat}
    (known : IsSound (LostWithin machine host count) (calls machine host count).1) :
    IsSound (LostWithin machine host (count + 1)) (calls machine host (count + 1)).1 := by
  have longer (label : String) (lost : LostWithin machine host count label) :
      LostWithin machine host (count + 1) label := by
    obtain ⟨earlier, less, loses⟩ := lost
    exact ⟨earlier, Nat.lt_succ_of_lt less, loses⟩
  obtain ⟨stop?, explained, outcome⟩ :=
    call_explains (calls machine host count).1 (calls machine host count).2
  rcases explained.sound _ known with sound | ⟨jump, error, stopped, loses, sound⟩
  · exact sound_mono (Nat.le_refl _) longer sound
  · refine sound_mono (Nat.le_refl _) (fun label lost => ?_) sound
    rcases lost with lost | same
    · exact longer label lost
    · exact ⟨count, Nat.lt_succ_self _, jump, error, same.symm, outcome _ stopped, loses⟩

theorem calls_sound (tokens : Array Token) (capacity : Nat) (host : σ) (count : Nat) :
    IsSound (LostWithin (Machine.load tokens capacity) host count)
      (calls (Machine.load tokens capacity) host count).1 := by
  induction count with
  | zero =>
    intro label range held
    cases held
  | succ count ih => exact call_sound ih

/-- Calls of one machine, in any number and with any host, keep the table of labels right. After
each call, and whenever a token is executed, every recorded range is that of a block of its label
which opens before the counter; or it is not known, and then the label was lost in an earlier
call, or in this one if it is over: a jump to it was taken and found no block. What is recorded
stays recorded as it is, from each token to the next and from each call to the next, and in all
calls together each label is jumped to or passed over at most once. -/
theorem calls_keep_labels (tokens : Array Token) (capacity : Nat) (host : σ) (count : Nat) :
    let machine := Machine.load tokens capacity
    let before := (calls machine host count).1
    let after := (calls machine host (count + 1)).1
    Sound tokens after.pc (LostWithin machine host (count + 1)) after.labels ∧
      Extends before.labels after.labels ∧
      (∃ new, after.log = new ++ before.log ∧ ∀ dispatch, .dispatched dispatch ∈ new →
        Sound tokens dispatch.index (LostWithin machine host count) dispatch.labels ∧
          Extends before.labels dispatch.labels ∧ Extends dispatch.labels after.labels) ∧
      (tables after.log).Pairwise (fun later earlier => Extends earlier later) ∧
      ∀ label, after.log.countP (isVisit label) ≤ 1 := by
  intro machine before after
  have grown : Grows before after := call_grows _ _
  have whole : Grows machine after := calls_grow machine host (count + 1)
  have same : before.tokens = tokens := (calls_forward machine host count).tokens
  have final : after.tokens = tokens := (calls_forward machine host (count + 1)).tokens
  obtain ⟨_, explained, _⟩ := call_explains before (calls machine host count).2
  obtain ⟨new, log, ordered, between, visits⟩ := whole.logged
  have all : after.log = new := by
    rw [log]
    exact List.append_nil new
  refine ⟨?_, grown.kept, ?_, ?_, ?_⟩
  · exact final ▸ calls_sound tokens capacity host (count + 1)
  · obtain ⟨recent, recentLog, sound⟩ := explained.logged
    obtain ⟨again, againLog, _, kept, _⟩ := grown.logged
    cases List.append_cancel_right (recentLog.symm.trans againLog)
    refine ⟨recent, recentLog, fun dispatch member => ⟨?_, kept dispatch.labels ?_⟩⟩
    · exact same ▸ sound _ (calls_sound tokens capacity host count) dispatch member
    · exact List.mem_filterMap.mpr ⟨_, member, rfl⟩
  · exact all ▸ ordered
  · intro label
    rw [all]
    rcases visits label with never | ⟨once, _⟩ <;> omega

/-- A jump that is taken and finds no block leaves its label without a range. -/
example :
    let jump : Array Token := #[⟨.jump, .label "a", ⟨1, 0⟩⟩, ⟨.conditional, .absent, ⟨1, 7⟩⟩,
      ⟨.boolean, .boolean true, ⟨1, 10⟩⟩]
    let ended := (call (Machine.load jump 1) (Transcript.ofInput [])).1
    ended.1 = .error (.executed (.missingSection "a" ⟨1, 0⟩)) ∧
      ended.2.labels.get? "a" = some .unknown := ⟨rfl, rfl⟩

end Calls

end StackScript.LabelTable
