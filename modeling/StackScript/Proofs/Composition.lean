import StackScript.Host.Transcript
import StackScript.Proofs.AlignedWalk

/-! One program after another. Tokens that stand one after the other are executed one after the
other: where the seam lets nothing of the second program belong to the first one, running both is
running the first and then the second on what the first one left. -/
namespace StackScript.Composition
open Exec Walk Progress StackScript.Alignment

/-- Where a program may be followed by another: the second one starts in a line of its own, what
comes last in the first one could not have gone on, and the first token of the second one does
not take a variable of the first one as its operand. -/
structure Seam (first second : Array Token) : Prop where
  apart {last next : Token} (ends : first.back? = some last) (begins : second[0]? = some next) :
    next.position.line ≠ last.position.line
  closed {last : Token} (ends : first.back? = some last) : isOpenEnded last.kind = false
  operand {last next : Token} (ends : first.back? = some last) (begins : second[0]? = some next)
    (named : last.kind = .identifier) : isInfix next.kind = false

/-- The calls of the host in a log. -/
def hostCalls (log : List Event) : List Event :=
  log.filter fun
    | .wrote _ | .took _ _ => true
    | _ => false

theorem hostCalls_append (new old : List Event) :
    hostCalls (new ++ old) = hostCalls new ++ hostCalls old := List.filter_append new old

/-- Labels that differ in where the blocks stand that were not known before. -/
def Relabelled (known : Labels) (move : BlockRange → BlockRange) (labels others : Labels) : Prop :=
  ∀ label, match known.get? label with
    | some range => labels.get? label = some range ∧ others.get? label = some range
    | none => others.get? label = (labels.get? label).map move

/-- The first program is the start of both. -/
def ahead (first second : Array Token) : Alignment where
  program := first
  image := first ++ second
  offset := 0
  start := 1
  move := id
  cut := True
  excused := seesEnd
  Labelled labels others := others = labels
  Logged log other := other = log

/-- The second program is the rest of both. -/
def behind (first second : Array Token) (known : Labels) : Alignment where
  program := second
  image := first ++ second
  offset := first.size
  start := 1
  move := id
  cut := False
  excused _ := False
  Labelled := Relabelled known (·.shift first.size)
  Logged log other := hostCalls other = hostCalls log

section Ahead
variable {first second : Array Token}

theorem ahead_alike {event other : Event} (alike : (ahead first second).Alike event other) :
    other = event := by
  cases alike with
  | dispatched index kind depth height labelled =>
    cases labelled
    rfl
  | _ => rfl

theorem ahead_lawful (seam : Seam first second) :
    (ahead first second).Lawful where
  start_pos := Nat.one_pos
  token := by
    intro index token _ held
    exact (Array.getElem?_append_left (Array.getElem?_eq_some_iff.mp held).1).trans held
  operand := by
    intro index token _ held _
    have inside : index < first.size := (Array.getElem?_eq_some_iff.mp held).1
    change variableBefore (first ++ second) index =
      (variableBefore first index).map (·.mapPosition id)
    rw [Token.map_mapPosition_id]
    cases index with
    | zero => rfl
    | succ before =>
      simp only [variableBefore, tokenBefore?]
      rw [Array.getElem?_append_left (Nat.lt_of_succ_lt inside)]
  column _ _ := Iff.rfl
  line _ _ := Iff.rfl
  whole uncut := (uncut trivial).elim
  excuse := by
    intro _ error seen
    exact seen
  apart := by
    intro _ last next ends begins
    refine seam.apart ends ?_
    change (first ++ second)[first.size]? = _ at begins
    rwa [Array.getElem?_append_right (Nat.le_refl _), Nat.sub_self] at begins
  closed := by
    intro _ last ends
    exact seam.closed ends
  contains := by
    rintro labels _ rfl label
    rfl
  added := by
    rintro labels _ label range rfl _ _
    simp only [ahead, BlockRange.shift_zero]
  logged := by
    rintro log _ event other rfl alike
    rw [ahead_alike alike]
    rfl

/-- The machine on both programs is the machine on the first one, with more tokens. -/
theorem eq_of_ahead {machine twin : Machine} (near : (ahead first second).Near machine twin) :
    twin = { machine with tokens := first ++ second } := by
  have stack : twin.stack = machine.stack := stack_of_near near id
  obtain ⟨_, tokens, counter, _, _, _, _, bindings, labels, depth, log⟩ := near
  rcases twin with ⟨_, _, _, _, _, _, _⟩
  rcases machine with ⟨_, _, _, _, _, _, _⟩
  cases tokens
  cases counter
  cases stack
  cases bindings
  cases labels
  cases depth
  cases log
  rfl

/-- Both start alike. -/
theorem ahead_near (first second : Array Token) (start : Machine) :
    (ahead first second).Near { start with tokens := first, pc := 0 }
      { start with tokens := first ++ second, pc := 0 } where
  tokens := rfl
  twinTokens := rfl
  counter := rfl
  near := Nat.le_refl _
  within := Nat.zero_le _
  values := rfl
  capacity := .inl rfl
  bindings := rfl
  labels := rfl
  depth := rfl
  log := rfl

end Ahead

section Labels
variable {known : Labels} {move : BlockRange → BlockRange} {labels others : Labels}

theorem relabelled_refl (labels : Labels) (move : BlockRange → BlockRange) :
    Relabelled labels move labels labels := by
  intro label
  cases held : labels.get? label with
  | none => rfl
  | some range => exact ⟨rfl, rfl⟩

/-- A label that is new is recorded on both sides, each with its own block. -/
theorem relabelled_insert {label : String} (relabelled : Relabelled known move labels others)
    (new : known.get? label = none) (range : BlockRange) :
    Relabelled known move ⟨labels.table.insert label range⟩
      ⟨others.table.insert label (move range)⟩ := by
  intro other
  have before := relabelled other
  by_cases same : label = other
  · subst same
    simp only [new]
    simp [Labels.get?]
  · simpa [Labels.get?, Table.get?_insert, same] using before

theorem contains_of_relabelled (relabelled : Relabelled known move labels others)
    (label : String) : others.contains label = labels.contains label := by
  have before := relabelled label
  change (others.get? label).isSome = (labels.get? label).isSome
  split at before
  · rw [before.1, before.2]
  · rw [before, Option.isSome_map]

/-- What is new was not known before. -/
theorem unknown_of_new {label : String} (relabelled : Relabelled known move labels others)
    (new : labels.contains label = false) : known.get? label = none := by
  have before := relabelled label
  split at before
  · have held : (labels.get? label).isSome = false := new
    rw [before.1] at held
    cases held
  · assumption

theorem get?_of_relabelled (relabelled : Relabelled known move labels others) (label : String) :
    others.get? label = (known.get? label).or ((labels.get? label).map move) := by
  have here := relabelled label
  cases held : known.get? label with
  | some range =>
    rw [held] at here
    exact here.2
  | none =>
    rw [held] at here
    exact here

end Labels

section Behind
variable {first second : Array Token} {known : Labels}

theorem behind_alike {event other : Event}
    (alike : (behind first second known).Alike event other) :
    hostCalls [other] = hostCalls [event] := by
  cases alike <;> rfl

/-- A machine at the end of the first program is a machine at the start of the second one. -/
theorem behind_near (second : Array Token) {middle : Machine} (ended : middle.pc = first.size) :
    (behind first second middle.labels).Near { middle with tokens := second, pc := 0 }
      { middle with tokens := first ++ second } where
  tokens := rfl
  twinTokens := rfl
  counter := by
    change middle.pc = 0 + first.size
    rw [ended, Nat.zero_add]
  near := Nat.le_refl _
  within := Nat.zero_le _
  values := rfl
  capacity := .inl rfl
  bindings := rfl
  labels := relabelled_refl _ _
  depth := rfl
  log := rfl

theorem behind_lawful (seam : Seam first second) :
    (behind first second known).Lawful where
  start_pos := Nat.one_pos
  token := by
    intro index token _ held
    change (first ++ second)[index + first.size]? = _
    rw [Array.getElem?_append_right (Nat.le_add_left _ _), Nat.add_sub_cancel]
    exact held
  operand := by
    intro index token _ held operator
    change variableBefore (first ++ second) (index + first.size) =
      (variableBefore second index).map (·.mapPosition id)
    rw [Token.map_mapPosition_id]
    cases index with
    | zero =>
      simp only [variableBefore, Nat.zero_add]
      cases sized : first.size with
      | zero => rfl
      | succ size =>
        -- The operator comes first, and what is then to its left is no variable.
        have inside : size < first.size := by omega
        have ends : first.back? = some first[size] := by
          rw [Array.back?_eq_getElem?, sized]
          exact Array.getElem?_eq_getElem inside
        have unnamed : first[size].kind ≠ .identifier := by
          intro named
          rw [seam.operand ends held named] at operator
          cases operator
        simp only [tokenBefore?]
        rw [Array.getElem?_append_left inside, Array.getElem?_eq_getElem inside]
        simp [unnamed]
    | succ before =>
      have index : before + 1 + first.size = before + first.size + 1 := by omega
      simp only [variableBefore, tokenBefore?, index]
      rw [Array.getElem?_append_right (Nat.le_add_left _ _), Nat.add_sub_cancel]
  column _ _ := Iff.rfl
  line _ _ := Iff.rfl
  whole _ := by
    change (first ++ second).size = second.size + first.size
    rw [Array.size_append, Nat.add_comm]
  excuse cut := cut.elim
  apart cut := cut.elim
  closed cut := cut.elim
  contains := contains_of_relabelled
  added := by
    intro labels others label range labelled new _
    exact relabelled_insert labelled (unknown_of_new labelled new) range
  logged := by
    intro log twinLog event other so alike
    change hostCalls ([other] ++ twinLog) = hostCalls ([event] ++ log)
    rw [hostCalls_append, hostCalls_append, behind_alike alike, so]

end Behind

/-- The indices of the tokens that were executed after a machine was as it was before. -/
def executedSince (before after : Machine) : List Nat :=
  indices (after.log.take (after.log.length - before.log.length))

theorem executedSince_lt {before after : Machine} (forward : Forward before after)
    (within : before.pc ≤ before.tokens.size) {index : Nat}
    (executed : index ∈ executedSince before after) : index < before.tokens.size := by
  obtain ⟨new, log, _, bounded⟩ := forward.logged
  rw [executedSince, log, List.length_append, Nat.add_sub_cancel, List.take_left] at executed
  exact Nat.lt_of_lt_of_le (bounded index executed).2 (forward.within within)

/-- Running a program and a second one after it, from any state and on any host. If the first one
completes, this is running the first one and then the second one on what the first one left; only
the blocks of the labels that the second one records stand further right. If the first one ends
itself or fails, and not because it found its own end, then nothing of the second one is
executed. -/
theorem call_append {σ : Type} [Host (StateM σ)] {first second : Array Token}
    (seam : Seam first second) (start : Machine) (host : σ) :
    let whole := call { start with tokens := first ++ second, pc := 0 } host
    let former := call { start with tokens := first, pc := 0 } host
    let latter := call { former.1.2 with tokens := second, pc := 0 } former.2
    (completes former.1.1 = true →
      whole.1.1 = latter.1.1 ∧ whole.2 = latter.2 ∧
        hostCalls whole.1.2.events = hostCalls latter.1.2.events ∧
        whole.1.2.stack = latter.1.2.stack ∧ whole.1.2.bindings = latter.1.2.bindings ∧
        whole.1.2.pc = latter.1.2.pc + first.size ∧
        (∀ label, whole.1.2.labels.get? label = (former.1.2.labels.get? label).or
          ((latter.1.2.labels.get? label).map (·.shift first.size)))) ∧
    (completes former.1.1 = false → (∀ error, former.1.1 = .error error → ¬ seesEnd error) →
      whole = ((former.1.1, { former.1.2 with tokens := first ++ second }), former.2) ∧
        ∀ index ∈ executedSince start whole.1.2, index < first.size) := by
  intro whole former latter
  obtain ⟨completed, stopped⟩ :=
    call_follows (ahead_lawful seam) host (ahead_near first second start)
  constructor
  · intro done
    obtain ⟨counter, middle, agreed, goesOn⟩ := completed done
    have here : middle = { former.1.2 with tokens := first ++ second } := eq_of_ahead agreed
    have there : (behind first second former.1.2.labels).Near
        { former.1.2 with tokens := second, pc := 0 } middle := by
      rw [here]
      exact behind_near second counter
    rcases call_alike (behind_lawful seam) former.2 id there with ⟨_, _, excused⟩ | same
    · exact excused.elim
    · obtain ⟨outcome, later, ended⟩ := same
      rw [goesOn] at outcome later ended
      have calls : hostCalls whole.1.2.log = hostCalls latter.1.2.log := ended.log
      refine ⟨outcome.trans (Error.mapError_mapPosition_id _), later, ?_, stack_of_near ended id,
        ended.bindings, ended.counter, get?_of_relabelled ended.labels⟩
      simp only [Machine.events, hostCalls, List.filter_reverse]
      exact congrArg List.reverse calls
  · intro interrupted unseen
    rcases stopped interrupted with ⟨error, failed, seen⟩ | ⟨outcome, later, agreed⟩
    · exact (unseen error failed seen).elim
    · have state : whole.1.2 = { former.1.2 with tokens := first ++ second } := eq_of_ahead agreed
      have result : whole.1.1 = former.1.1 := outcome.trans (Error.mapError_mapPosition_id _)
      refine ⟨Prod.ext (Prod.ext result state) later, ?_⟩
      rw [state]
      intro index executed
      exact executedSince_lt (call_forward { start with tokens := first, pc := 0 } host)
        (Nat.zero_le _) executed

/-- A program that writes a line and names a block. -/
def greeting : Array Token :=
  #[⟨.command .print, .absent, ⟨1, 0⟩⟩, ⟨.string, .string "hello", ⟨1, 6⟩⟩,
    ⟨.labelled, .label "ASIDE", ⟨2, 0⟩⟩, ⟨.boolean, .boolean true, ⟨3, 2⟩⟩,
    ⟨.blockEnd, .absent, ⟨4, 0⟩⟩]

/-- A program that jumps to a block of its own. -/
def farewell : Array Token :=
  #[⟨.jump, .label "LAST", ⟨5, 0⟩⟩, ⟨.conditional, .absent, ⟨5, 10⟩⟩,
    ⟨.boolean, .boolean true, ⟨5, 13⟩⟩, ⟨.labelled, .label "LAST", ⟨6, 0⟩⟩,
    ⟨.command .print, .absent, ⟨7, 2⟩⟩, ⟨.string, .string "bye", ⟨7, 8⟩⟩,
    ⟨.blockEnd, .absent, ⟨8, 0⟩⟩]

theorem greeting_farewell_seam : Seam greeting farewell where
  apart := by
    rintro _ _ ⟨⟩ ⟨⟩
    decide
  closed := by
    rintro _ ⟨⟩
    rfl
  operand := by
    rintro _ _ ⟨⟩ ⟨⟩ named
    cases named

theorem call_append_farewell :
    let start := Machine.load #[] 4
    let whole := call { start with tokens := greeting ++ farewell, pc := 0 } (Transcript.ofInput [])
    let former := call { start with tokens := greeting, pc := 0 } (Transcript.ofInput [])
    let latter := call { former.1.2 with tokens := farewell, pc := 0 } former.2
    completes former.1.1 = true ∧ latter.2.output = ["hello", "bye"] ∧ whole.2 = latter.2 ∧
      latter.1.2.labels.get? "LAST" = some ⟨some 3, some 6⟩ ∧
      whole.1.2.labels.get? "LAST" = some ⟨some 8, some 11⟩ := by
  have joined :=
    call_append greeting_farewell_seam (Machine.load #[] 4) (Transcript.ofInput [])
  dsimp only at joined ⊢
  obtain ⟨_, host, _, _, _, _, labels⟩ := joined.1 (by decide +kernel)
  refine ⟨by decide +kernel, by decide +kernel, host, by decide +kernel, ?_⟩
  rw [labels "LAST"]
  decide +kernel

end StackScript.Composition
