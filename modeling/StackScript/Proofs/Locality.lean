import StackScript.Proofs.ReachedWalk

/-! An expression depends on its own tokens and on those before them. What stands after it has no
influence on its value and on what it does, however deeply it nests and whatever it executes. The
argument follows two programs up to the last token of the expression; that this token is never an
`AND` keeps a prompt from looking beyond it. -/
namespace StackScript.Locality
open Exec Walk Progress Reach

variable {σ : Type} [Host (StateM σ)]

/-- Two programs that have the tokens before an index in common, on one host. -/
def scope (σ : Type) (program image : Array Token) (stop : Nat) : Scope σ where
  program
  image
  Reached stop? machine := stop? = none ∧ machine.pc < stop
  Hosts _ host other := other = host

theorem scope_lawful {program image : Array Token} {stop : Nat}
    (same : ∀ index < stop, image[index]? = program[index]?)
    (closed : ∀ token, program[stop - 1]? = some token → token.kind ≠ .binary .and) :
    (scope σ program image stop).Lawful where
  back := by
    rintro before after _ forward ⟨_, inside⟩
    exact ⟨rfl, Nat.lt_of_le_of_lt forward.counter inside⟩
  leave reached := reached
  here := by
    rintro machine ⟨_, inside⟩ index before
    exact same index (Nat.lt_of_le_of_lt before inside)
  following := by
    rintro machine token ⟨_, inside⟩ next asks
    by_cases more : machine.pc + 1 < stop
    · exact same _ more
    · have last : stop - 1 = machine.pc := by omega
      rw [← last] at next
      exact absurd asks (closed token next)
  stopped := by
    rintro machine stop ⟨interrupted, _⟩
    cases interrupted
  silent _ hosts := hosts
  write := by
    rintro _ host _ rfl line
    exact ⟨_, rfl, rfl⟩
  read := by
    rintro _ host _ rfl prompt _ _
    exact ⟨_, rfl, rfl⟩

section Groups
variable {opener : Token} {machine after : Machine} {host later : σ}

omit [Host (StateM σ)] in
/-- A group is left by its closing parenthesis. -/
theorem closes_of_groupContinues
    (asked : (groupContinues opener : Exec (StateM σ) Bool).on machine host =
      ((.ok false, after), later)) :
    after = { machine with pc := machine.pc + 1 } ∧ later = host ∧
      ∃ closer, machine.current? = some closer ∧ closer.kind = .rightParen := by
  unfold groupContinues at asked
  rw [on_bind, on_current?] at asked
  cases next : machine.current? with
  | none => simp [next] at asked
  | some token =>
    by_cases closes : token.kind = .rightParen
    · simp only [next, closes, ↓reduceIte] at asked
      cases asked
      exact ⟨rfl, rfl, token, rfl, closes⟩
    · simp only [next, closes, ↓reduceIte] at asked
      cases asked

omit [Host (StateM σ)] in
/-- What comes last in a group is its closing parenthesis. -/
theorem last_of_group {body : Unit → Exec (StateM σ) Unit}
    (looped : Loop (groupContinues opener) body () machine host ((.ok (), after), later)) :
    ∃ closer, after.tokens[after.pc - 1]? = some closer ∧ closer.kind = .rightParen := by
  obtain ⟨last, _, asked⟩ := loop_last looped rfl
  obtain ⟨rfl, _, closer, held, kind⟩ := closes_of_groupContinues asked
  exact ⟨closer, held, kind⟩

/-- The tokens of a group are executed alike, up to the closing parenthesis. The counter comes out
of reach only with the test that ends the loop, so each step before it is in reach. -/
theorem group_mirrored {program image : Array Token} {less : Nat}
    (lawful : (scope σ program image after.pc).Lawful) {start : Unit}
    {result : (Except Stop Unit × Machine) × σ}
    (looped : Loop (groupContinues opener) (fun _ => stepWith (level? less)) start machine host
      result)
    (tokens : machine.tokens = program) (ended : result = ((.ok (), after), later)) :
    machine.pc < after.pc ∧ ∀ other, Loop (groupContinues opener)
      (fun _ => stepWith (level? less)) start { machine with tokens := image } host other →
        other = ((.ok (), { after with tokens := image }), later) := by
  induction looped with
  | refused asked => cases ended
  | @finished _ machine _ host _ asked =>
    cases ended
    obtain ⟨rfl, rfl, closer, next, closes⟩ := closes_of_groupContinues asked
    have inside : machine.pc < machine.pc + 1 := Nat.lt_succ_self _
    refine ⟨inside, fun other otherLooped => ?_⟩
    refine loop_finished otherLooped ?_
    have same : ({ machine with tokens := image } : Machine).current? = some closer :=
      (Scope.current_mirrored lawful tokens ⟨rfl, inside⟩).trans next
    unfold groupContinues
    rw [on_bind, on_current?, same]
    simp only [closes, ↓reduceIte]
    rfl
  | broken asked ran => cases ended
  | @again _ _ machine middle next host between _ _ asked ran rest ih =>
    obtain ⟨rfl, rfl, _⟩ := (group_consuming less opener machine.tokens).asked rfl asked
    obtain ⟨forward, stepped⟩ := (Scope.further_of_lawful lawful less).step middle between
    have tested := (Scope.mirrors_groupContinues lawful opener middle between).same tokens rfl
    rw [ran] at forward stepped
    rw [asked] at tested
    obtain ⟨ahead, follows⟩ := ih (forward.tokens.trans tokens) ended
    have inside : middle.pc < after.pc := Nat.lt_of_le_of_lt forward.counter ahead
    refine ⟨inside, fun other otherLooped => ?_⟩
    obtain ⟨_, otherAsked, rfl⟩ := tested ⟨rfl, inside⟩
    obtain ⟨_, otherRan, rfl⟩ := stepped tokens rfl ⟨rfl, ahead⟩
    exact follows other (loop_again otherLooped otherAsked otherRan)

end Groups

section Expressions
variable {machine after : Machine} {host later : σ}

omit [Host (StateM σ)] in
theorem same_of_pop {value : Value}
    (popped : (pop : Exec (StateM σ) Value).on machine host = ((.ok value, after), later)) :
    after.pc = machine.pc ∧ after.tokens = machine.tokens := by
  rw [on_pop] at popped
  split at popped
  · cases popped
    exact ⟨rfl, rfl⟩
  · cases popped

omit [Host (StateM σ)] in
/-- Taking a value off the stack has nothing to do with the tokens. -/
theorem pop_local {value : Value} (image : Array Token)
    (popped : (pop : Exec (StateM σ) Value).on machine host = ((.ok value, after), later)) :
    (pop : Exec (StateM σ) Value).on { machine with tokens := image } host =
      ((.ok value, { after with tokens := image }), later) := by
  rw [on_pop] at popped ⊢
  simp only
  split at popped
  · cases popped
    rfl
  · cases popped

theorem group_local {levels : Nat} {opener : Token} {value : Value} {image : Array Token}
    (ran : (group (level? levels) opener).on machine host = ((.ok value, after), later))
    (same : ∀ index < after.pc, image[index]? = machine.tokens[index]?) :
    (group (level? levels) opener).on { machine with tokens := image } host =
      ((.ok value, { after with tokens := image }), later) := by
  cases levels with
  | zero => cases ran
  | succ less =>
    have unchanged : after.tokens = machine.tokens := by
      have forward := keeps_group forward_steady (level_keeps forward_steady (less + 1)) opener
        machine host
      rw [Leads, ran] at forward
      exact forward.tokens
    let loop : Exec (StateM σ) Unit :=
      whileTokens (groupContinues opener) (fun _ => stepWith (level? less)) ()
    have shape : group (level? (less + 1)) opener = counted (loop >>= fun _ => pop) := rfl
    rw [shape, on_counted_entered] at ran ⊢
    rcases inner : (loop >>= fun _ => pop).on (entered machine) host with ⟨⟨result, last⟩, final⟩
    rw [inner] at ran
    cases ran
    have unchanged : last.tokens = machine.tokens := unchanged
    obtain ⟨_, walked, between, ended, popped⟩ := on_bind_eq_ok inner
    obtain ⟨counter, tokens⟩ := same_of_pop popped
    have looped := loops_end.group less opener (entered machine) host
    rw [ended] at looped
    have lawful : (scope σ machine.tokens image walked.pc).Lawful := by
      refine scope_lawful (fun index inside => same index (counter ▸ inside)) ?_
      intro token held asks
      obtain ⟨closer, closes, kind⟩ := last_of_group looped
      rw [← tokens, unchanged] at closes
      cases held.symm.trans closes
      rw [kind] at asks
      cases asks
    have mirrored : loop.on (entered { machine with tokens := image }) host =
        ((.ok (), { walked with tokens := image }), between) :=
      (group_mirrored lawful looped rfl rfl).2 _
        (loops_end.group less opener { entered machine with tokens := image } host)
    rw [on_bind, mirrored]
    simp only
    rw [pop_local image popped]
    rfl

theorem expression_local {levels : Nat} {value : Value} {image : Array Token}
    (ran : (expression (level? levels)).on machine host = ((.ok value, after), later))
    (same : ∀ index < after.pc, image[index]? = machine.tokens[index]?) :
    (expression (level? levels)).on { machine with tokens := image } host =
      ((.ok value, { after with tokens := image }), later) := by
  obtain ⟨token, middle, between, took, ran⟩ := on_bind_eq_ok ran
  have forward := keeps_expressionFrom forward_steady (level_keeps forward_steady levels) token
    middle between
  rw [Leads, ran] at forward
  rw [on_consume] at took
  split at took
  · rename_i next
    cases took
    have there : ({ machine with tokens := image } : Machine).current? = some token :=
      (same machine.pc (Nat.lt_of_succ_le forward.counter)).trans next
    unfold expression
    rw [on_bind, on_consume, there]
    simp only
    unfold expressionFrom at ran ⊢
    split at ran
    · exact group_local ran same
    · rw [on_lookup] at ran ⊢
      simp only at ran ⊢
      split at ran
      · cases ran
        rfl
      · cases ran
    · cases ran
      rfl
  · cases took

end Expressions

section Recording

/-- A block stands before an index, as far as it is known. -/
def Below (range : BlockRange) (bound : Nat) : Prop :=
  ∀ index, range.start? = some index ∨ range.stop? = some index → index < bound

/-- The blocks that are recorded on the way stand in the program. -/
structure Records (before after : Machine) : Prop where
  tokens : after.tokens = before.tokens
  counter : before.pc ≤ after.pc
  inside {label : String} {range : BlockRange} (held : after.labels.get? label = some range) :
    before.labels.get? label = some range ∨ Below range before.tokens.size

theorem records_of_same {before after : Machine} (tokens : after.tokens = before.tokens)
    (counter : before.pc ≤ after.pc) (labels : after.labels = before.labels) :
    Records before after :=
  ⟨tokens, counter, fun held => .inl (labels ▸ held)⟩

theorem records_refl (machine : Machine) : Records machine machine :=
  records_of_same rfl (Nat.le_refl _) rfl

theorem records_trans {first second third : Machine} (before : Records first second)
    (after : Records second third) : Records first third := by
  refine ⟨after.tokens.trans before.tokens, Nat.le_trans before.counter after.counter, ?_⟩
  intro label range held
  rcases after.inside held with earlier | below
  · exact before.inside earlier
  · rw [before.tokens] at below
    exact .inr below

/-- A block is recorded that stands in the program. -/
theorem records_block {before after : Machine} {label : String} {range : BlockRange}
    (tokens : after.tokens = before.tokens) (counter : before.pc ≤ after.pc)
    (labels : after.labels = ⟨before.labels.table.insert label range⟩)
    (below : Below range before.tokens.size) : Records before after := by
  refine ⟨tokens, counter, ?_⟩
  intro other held known
  rw [labels, Labels.get?_insert] at known
  split at known
  · cases known
    exact .inr below
  · exact .inl known

theorem records_steady : Steady σ fun _ before _ after => Records before after where
  refl := records_refl
  halt machine _ := records_refl machine
  full _ := records_refl _
  bare _ := records_refl _
  trans := records_trans
  counter recorded := recorded.counter
  take _ := records_of_same rfl (Nat.le_succ _) rfl
  pass forward _ := records_of_same rfl forward rfl
  push _ := records_of_same rfl (Nat.le_refl _) rfl
  pop _ := records_of_same rfl (Nat.le_refl _) rfl
  bind _ _ := records_of_same rfl (Nat.le_add_right _ 2) rfl
  passBlock := by
    intro _ machine opener stop next _ _ ends
    obtain ⟨after, ⟨closer, held, _⟩, _⟩ := firstFrom_eq_some_iff.mp ends
    have inside := (Array.getElem?_eq_some_iff.mp held).1
    refine records_block rfl after rfl ?_
    rintro index (⟨⟨⟩⟩ | ⟨⟨⟩⟩)
    · exact Nat.lt_of_succ_le (Nat.le_of_lt (Nat.lt_of_le_of_lt after inside))
    · exact inside
  jumpTo := by
    intro _ machine label start stop _ target
    obtain ⟨ahead, ⟨opener, opens, _⟩, _⟩ := firstFrom_eq_some_iff.mp target.found
    obtain ⟨_, _, ends⟩ := target.ends
    obtain ⟨_, ⟨closer, closes, _⟩, _⟩ := firstFrom_eq_some_iff.mp ends
    refine records_block rfl (Nat.le_succ_of_le ahead) rfl ?_
    rintro index (⟨⟨⟩⟩ | ⟨⟨⟩⟩)
    · exact (Array.getElem?_eq_some_iff.mp opens).1
    · exact (Array.getElem?_eq_some_iff.mp closes).1
  lose _ walked _ _ := by
    refine records_trans walked (records_block rfl (Nat.le_refl _) rfl ?_)
    rintro index (⟨⟨⟩⟩ | ⟨⟨⟩⟩)
  remark _ _ := records_of_same rfl (Nat.le_refl _) rfl
  call _ _ _ _ begun walked :=
    records_trans begun (records_trans walked (records_of_same rfl (Nat.le_refl _) rfl))
  nested := by
    intro _ machine after _ recorded
    have going : Records machine (entered machine) := records_of_same rfl (Nat.le_refl _) rfl
    have coming : Records after (left after) := records_of_same rfl (Nat.le_refl _) rfl
    exact records_trans going (records_trans recorded coming)

/-- What an expression records stands before its end: it would do the same in a program that ends
right there. -/
theorem expression_records {machine after : Machine} {host later : σ} {levels : Nat} {value : Value}
    (ran : (expression (level? levels)).on machine host = ((.ok value, after), later))
    {label : String} {range : BlockRange} (held : after.labels.get? label = some range) :
    machine.labels.get? label = some range ∨ Below range after.pc := by
  have same : ∀ index < after.pc,
      (machine.tokens.extract 0 after.pc)[index]? = machine.tokens[index]? := by
    intro index inside
    rw [Array.getElem?_extract, Nat.zero_add]
    split
    · rfl
    · exact (Array.getElem?_eq_none_iff.mpr (by omega)).symm
  have kept := keeps_expression records_steady (level_keeps records_steady levels)
    { machine with tokens := machine.tokens.extract 0 after.pc } host
  rw [Leads, expression_local ran same] at kept
  rcases kept.inside held with before | below
  · exact .inl before
  · right
    intro index stands
    have size : (machine.tokens.extract 0 after.pc).size ≤ after.pc := by
      rw [Array.size_extract]
      omega
    exact Nat.lt_of_lt_of_le (below index stands) size

end Recording

end StackScript.Locality
