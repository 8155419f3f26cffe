import StackScript.Structured

/-! How many levels a program needs. Meanings are given for a number of levels that constructs may
still be nested. From the height of an operand and the nesting of a program on, the number makes no
difference, and nothing fails for the lack of a level. -/
namespace StackScript.Nesting

variable {α β : Type} {height further : Nat}

/-- A result that is the same for all numbers of levels from `height` on, and never the fault that
no level is left. -/
structure Settled (height : Nat) (reference : Nat → Except Error α) : Prop where
  same {less more : Nat} (enough : height ≤ less) (plenty : height ≤ more) :
    reference less = reference more
  shallow {less : Nat} (enough : height ≤ less) (limit : Nat) (position : Position) :
    reference less ≠ .error (.executed (.nestingTooDeep limit position))

theorem settled_const {result : Except Error α}
    (shallow : ∀ limit position, result ≠ .error (.executed (.nestingTooDeep limit position))) :
    Settled height fun _ => result :=
  ⟨fun _ _ => rfl, fun _ => shallow⟩

theorem settled_mono {reference : Nat → Except Error α} (settled : Settled height reference)
    (low : height ≤ further) : Settled further reference :=
  ⟨fun enough plenty => settled.same (Nat.le_trans low enough) (Nat.le_trans low plenty),
    fun enough => settled.shallow (Nat.le_trans low enough)⟩

theorem settled_bind {reference : Nat → Except Error α} {later : α → Nat → Except Error β}
    (settled : Settled height reference) (rest : ∀ value, Settled height (later value)) :
    Settled height fun levels => reference levels >>= fun value => later value levels := by
  constructor
  · intro less more enough plenty
    simp only [settled.same enough plenty, (rest _).same enough plenty]
  · intro less enough limit position
    have first := settled.shallow enough limit position
    rcases known : reference less with error | value
    · rw [known] at first
      intro same
      cases same
      exact first rfl
    · exact (rest value).shallow enough limit position

theorem settled_inside {reference : Nat → Except Error α} (place : Position)
    (settled : Settled height reference) :
    Settled (height + 1) fun levels => Expression.inside levels place reference := by
  constructor
  · intro less more enough plenty
    obtain ⟨less, rfl⟩ := Nat.exists_eq_add_of_le' enough
    obtain ⟨more, rfl⟩ := Nat.exists_eq_add_of_le' plenty
    exact settled.same (Nat.le_add_left _ _) (Nat.le_add_left _ _)
  · intro less enough
    obtain ⟨less, rfl⟩ := Nat.exists_eq_add_of_le' enough
    exact settled.shallow (Nat.le_add_left _ _)

theorem settled_applyOperator (operator : Operator) (name : String) (left right : Value)
    (position : Position) :
    Settled height fun _ => Expression.applyOperator operator name left right position := by
  refine settled_const fun limit place => ?_
  unfold Expression.applyOperator
  cases Expression.operatorRule? operator left right <;> exact nofun

theorem settled_demandBoolean (operator : String) (value : Value) (position : Position) :
    Settled height fun _ => Expression.demandBoolean operator value position := by
  refine settled_const fun limit place => ?_
  cases value <;> exact nofun

theorem settled_applyArithmetic (operation : Arithmetic) (left right : Value)
    (position : Position) :
    Settled height fun _ => Expression.applyArithmetic operation left right position := by
  refine settled_const fun limit place => ?_
  unfold Expression.applyArithmetic
  split
  · cases operation with
    | div =>
      simp only
      split <;> exact nofun
    | _ => exact nofun
  · cases operation <;> exact nofun
  · exact nofun

/-- A tree needs as many levels as it is high. -/
theorem settled_evaluate (bindings : Table Value) (tree : Expression) :
    Settled tree.height fun levels => tree.evaluate bindings levels := by
  induction tree with
  | literal => exact settled_const nofun
  | name text position =>
    refine settled_const fun limit place => ?_
    cases bindings.get? text <;> exact nofun
  | compare opener left operator sign right closer ihLeft ihRight =>
    refine settled_inside opener (settled_bind (settled_mono ihLeft (Nat.le_max_left _ _)) ?_)
    intro first
    refine settled_bind (settled_mono ihRight (Nat.le_max_right _ _)) fun second => ?_
    exact settled_bind (settled_applyOperator operator _ first second _)
      fun _ => settled_const nofun
  | differ opener left not equal right closer ihLeft ihRight =>
    refine settled_inside opener (settled_bind (settled_mono ihLeft (Nat.le_max_left _ _)) ?_)
    intro first
    refine settled_bind (settled_mono ihRight (Nat.le_max_right _ _)) fun second => ?_
    exact settled_bind (settled_applyOperator .equal _ first second _) fun _ => settled_const nofun
  | negate opener sign operand closer ih =>
    refine settled_inside opener (settled_bind ih fun value => ?_)
    exact settled_bind (settled_demandBoolean _ value _) fun _ => settled_const nofun
  | arithmetic parens? operation sign left right ihLeft ihRight =>
    refine settled_inside _ (settled_bind (settled_mono ihLeft (Nat.le_max_left _ _)) ?_)
    intro first
    refine settled_bind (settled_mono ihRight (Nat.le_max_right _ _)) fun second => ?_
    exact settled_applyArithmetic operation first second _

theorem settled_printed (bindings : Table Value) (values : List Expression) :
    Settled ((values.map Expression.height).foldr max 0) fun levels =>
      Structured.printed bindings levels values := by
  induction values with
  | nil => exact settled_const nofun
  | cons value values ih =>
    refine settled_bind (settled_mono (settled_evaluate bindings value) (Nat.le_max_left _ _)) ?_
    intro held
    exact settled_bind (settled_mono ih (Nat.le_max_right _ _)) fun _ => settled_const nofun

/-- A meaning that is the same for all numbers of levels from `height` on, and never ends with the
fault that no level is left. -/
structure Decided (height : Nat) (mean : Nat → Structured.Meaning) : Prop where
  same {less more : Nat} (enough : height ≤ less) (plenty : height ≤ more) : mean less = mean more
  shallow {less : Nat} (enough : height ≤ less) (limit : Nat) (position : Position) :
    (mean less).result ≠ .error (.executed (.nestingTooDeep limit position))

theorem decided_const {mean : Structured.Meaning} (shallow : ∀ limit position,
    mean.result ≠ .error (.executed (.nestingTooDeep limit position))) :
    Decided height fun _ => mean :=
  ⟨fun _ _ => rfl, fun _ => shallow⟩

theorem decided_mono {mean : Nat → Structured.Meaning} (decided : Decided height mean)
    (low : height ≤ further) : Decided further mean :=
  ⟨fun enough plenty => decided.same (Nat.le_trans low enough) (Nat.le_trans low plenty),
    fun enough => decided.shallow (Nat.le_trans low enough)⟩

/-- What depends on a settled result, and passes its faults on, is decided. -/
theorem decided_of_settled {reference : Nat → Except Error α}
    (image : Except Error α → Nat → Structured.Meaning) (settled : Settled height reference)
    (faults : ∀ error levels, image (.error error) levels = .silent (.error error))
    (values : ∀ value, Decided height (image (.ok value))) :
    Decided height fun levels => image (reference levels) levels := by
  constructor
  · intro less more enough plenty
    rw [settled.same enough plenty]
    rcases reference more with error | value
    · rw [faults, faults]
    · exact (values value).same enough plenty
  · intro less enough limit position
    have first := settled.shallow enough limit position
    rcases known : reference less with error | value
    · rw [known] at first
      rw [faults]
      intro same
      cases same
      exact first rfl
    · exact (values value).shallow enough limit position

theorem decided_andThen {first : Nat → Structured.Meaning}
    {second : Nat → Table Value → Structured.Meaning} (early : Decided height first)
    (late : ∀ bindings, Decided height fun levels => second levels bindings) :
    Decided height fun levels => (first levels).andThen (second levels) := by
  constructor
  · intro less more enough plenty
    have rest : second less = second more :=
      funext fun bindings => (late bindings).same enough plenty
    simp only [early.same enough plenty, rest]
  · intro less enough limit position
    have start := early.shallow enough limit position
    unfold Structured.Meaning.andThen
    rcases known : (first less).result with error | bindings
    · rw [known] at start
      exact start
    · exact (late bindings).shallow enough limit position

/-- A body stands one level further in than its block. -/
theorem decided_block {body : Nat → Structured.Meaning} (keyword : Position)
    (bindings : Table Value) (decided : Decided height body) :
    Decided (height + 1) (Structured.Meaning.block keyword bindings body (.ok true)) := by
  constructor
  · intro less more enough plenty
    obtain ⟨less, rfl⟩ := Nat.exists_eq_add_of_le' enough
    obtain ⟨more, rfl⟩ := Nat.exists_eq_add_of_le' plenty
    exact decided.same (Nat.le_add_left _ _) (Nat.le_add_left _ _)
  · intro less enough
    obtain ⟨less, rfl⟩ := Nat.exists_eq_add_of_le' enough
    exact decided.shallow (Nat.le_add_left _ _)

/-- A program needs as many levels as its constructs are nested. -/
theorem decided_meaning (program : Structured) (bindings : Table Value) :
    Decided program.nesting fun levels => program.meaning levels bindings := by
  induction program generalizing bindings with
  | done => exact decided_const nofun
  | assign declare? keyword value target name place rest ih =>
    have settled := settled_mono (settled_evaluate bindings value)
      (Nat.le_max_left value.height rest.nesting)
    refine decided_andThen (decided_of_settled
      (fun known _ => .silent (known.map (bindings.insert name))) settled ?_ ?_) ?_
    · exact fun _ _ => rfl
    · exact fun _ => decided_const nofun
    · exact fun bindings => decided_mono (ih bindings) (Nat.le_max_right _ _)
  | print keyword values rest ih =>
    have settled := settled_mono (settled_printed bindings values)
      (Nat.le_max_left _ rest.nesting)
    refine decided_andThen (decided_of_settled (fun known _ => .line bindings known)
      settled ?_ ?_) ?_
    · exact fun _ _ => rfl
    · exact fun _ => decided_const nofun
    · exact fun bindings => decided_mono (ih bindings) (Nat.le_max_right _ _)
  | conditional keyword guard body closer rest ihBody ihRest =>
    have guarded : Settled guard.height fun levels => Structured.guardHolds bindings levels guard :=
      settled_bind (settled_evaluate bindings guard) fun value => settled_demandBoolean _ value _
    have settled := settled_mono guarded
      (Nat.le_max_left guard.height (max (body.nesting + 1) rest.nesting))
    refine decided_andThen (decided_of_settled (Structured.Meaning.block keyword bindings _)
      settled ?_ ?_) ?_
    · exact fun _ _ => rfl
    · intro flag
      cases flag with
      | true =>
        refine decided_mono (decided_block keyword bindings (ihBody bindings)) ?_
        exact Nat.le_trans (Nat.le_max_left _ _) (Nat.le_max_right _ _)
      | false => exact decided_const nofun
    · intro bindings
      refine decided_mono (ihRest bindings) ?_
      exact Nat.le_trans (Nat.le_max_right _ _) (Nat.le_max_right _ _)

end StackScript.Nesting
