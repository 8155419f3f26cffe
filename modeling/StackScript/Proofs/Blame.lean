import StackScript.Host.Transcript
import StackScript.Proofs.Evaluation
import StackScript.Proofs.Pieces
import StackScript.Proofs.Relayout

/-! The places that faults name. A fault of an execution names the place of a token that the counter
has gone past when the fault comes up: the token that the fault is about or, if it is about none,
the one right before the counter. Only a jump whose block does not end names the token that opens
the block, which is still ahead. A fault of the reading names a place in a word. In either case the
place is that of a character of the source text, and never the place before all programs.

An action is judged from the tokens that are known to be behind the counter when it starts. There is
one rule for each elementary action and one lemma for each construct, and an induction on the
nesting levels closes them. -/
namespace StackScript.Blame
open Exec Walk Progress Pieces

/-- Whether a token of a kind can open a nesting level. -/
def opensLevel : TokenKind → Bool
  | .leftParen | .command _ | .conditional | .jump => true
  | _ => false

/-- Whether a fault is about a token, by what the fault says. -/
def isAbout : Error → Token → Bool
  | .written (.expectedKeyword _ found _), token
  | .written (.expectedIdentifier _ found _), token => token.mention = found
  | .executed (.unmatchedParen _), token => token.kind = .leftParen
  | .executed (.unterminatedBlock block _), token =>
    (block = "IF" ∧ token.kind = .conditional) ∨ (block = "SECTION" ∧ token.kind = .labelled)
  | .executed (.missingSection label _), token => token.kind = .jump ∧ token.nameOrEmpty = label
  | .executed (.nestingTooDeep _ _), token => opensLevel token.kind
  | .meant (.undefinedVariable name _), token =>
    token.kind = .identifier ∧ token.nameOrEmpty = name
  | .meant (.duplicateLabel label _), token =>
    (token.kind = .jump ∨ token.kind = .labelled) ∧ token.nameOrEmpty = label
  | _, _ => false

/-- Whether a fault is about no token in particular. -/
def isGeneral : Error → Bool
  | .executed (.unexpectedEndOfInput _) | .executed (.divisionByZero _)
  | .meant (.typeMismatch _ _ _ _) | .meant (.unexpectedType _ _ _ _)
  | .meant (.invalidConversion _ _ _) | .meant (.invalidExitCode _ _) => true
  | _ => false

/-- What a fault of an execution may name when the counter has come to an index. -/
inductive Blamed (tokens : Array Token) (counter : Nat) : Error → Position → Prop where
  /-- The token right before the counter, if the fault is about none in particular. -/
  | last {token : Token} {error : Error} (held : tokenBefore? tokens counter = some token)
      (general : isGeneral error = true) : Blamed tokens counter error token.position
  /-- A token that the counter has gone past and that the fault is about. -/
  | itself {index : Nat} {token : Token} {error : Error} (before : index < counter)
      (held : tokens[index]? = some token) (about : isAbout error token = true) :
      Blamed tokens counter error token.position
  /-- The token that opens the block of a jump behind the counter, if the block does not end: the
  first one ahead that has the label of the jump. -/
  | target {index start : Nat} {jump opener : Token} (before : index < counter)
      (held : tokens[index]? = some jump) (kind : jump.kind = .jump)
      (found : findBlock tokens counter jump.nameOrEmpty = some start)
      (opens : tokens[start]? = some opener)
      (endless : endOfBlock tokens (start + 1) opener.position.column = none) :
      Blamed tokens counter (.executed (.unterminatedBlock "SECTION" opener.position))
        opener.position

/-- The counter has gone past a token. -/
def Behind (machine : Machine) (token : Token) : Prop :=
  ∃ index < machine.pc, machine.tokens[index]? = some token

/-- The counter is inside the program, which is not empty, and has gone past the tokens that are
known. -/
structure Ready (known : List Token) (machine : Machine) : Prop where
  within : machine.pc ≤ machine.tokens.size
  inhabited : 0 < machine.tokens.size
  behind : ∀ token ∈ known, Behind machine token

/-- If an action was stopped by a fault that names a place, it names one that it may. -/
def Blames {σ α : Type} (ended : (Except Stop α × Machine) × σ) : Prop :=
  ∀ error position, ended.1.1 = .error (.fault error) → error.position? = some position →
    Blamed ended.1.2.tokens ended.1.2.pc error position

/-- An action has gone forward from a machine, and blames only what it may. -/
structure FairFrom {σ α : Type} (machine : Machine) (ended : (Except Stop α × Machine) × σ) :
    Prop where
  moved : Forward machine ended.1.2
  blames : Blames ended

/-- An action goes forward and blames only what it may, from every machine where some tokens are
known to be behind the counter. -/
def Fair {σ α : Type} (known : List Token) (action : Exec (StateM σ) α) : Prop :=
  ∀ machine host, Ready known machine → FairFrom machine (action.on machine host)

section Machines
variable {known : List Token} {machine before after : Machine} {token : Token}

theorem ready_forward (moved : Forward before after) (ready : Ready known before) :
    Ready known after := by
  obtain ⟨tokens, counter, within, _⟩ := moved
  refine ⟨tokens ▸ within ready.within, tokens ▸ ready.inhabited, ?_⟩
  intro token member
  obtain ⟨index, less, held⟩ := ready.behind token member
  exact ⟨index, Nat.lt_of_lt_of_le less counter, tokens ▸ held⟩

theorem ready_mono {fewer : List Token} (subset : ∀ token ∈ fewer, token ∈ known)
    (ready : Ready known machine) : Ready fewer machine :=
  ⟨ready.within, ready.inhabited, fun token member => ready.behind token (subset token member)⟩

theorem forward_skip (next : machine.current? = some token) :
    Forward machine { machine with pc := machine.pc + 1 } :=
  forward_of_pass rfl (Nat.le_succ _) (fun _ => inside_of_current next) [] rfl rfl

/-- A token that comes next is behind the counter once it is taken. -/
theorem ready_next (next : machine.current? = some token) (moved : Forward machine after)
    (past : machine.pc < after.pc) (ready : Ready known machine) :
    Ready (token :: known) after := by
  obtain ⟨within, inhabited, behind⟩ := ready_forward moved ready
  refine ⟨within, inhabited, ?_⟩
  intro other member
  rcases List.mem_cons.mp member with rfl | member
  · exact ⟨machine.pc, past, moved.tokens ▸ next⟩
  · exact behind other member

theorem lastPlace_started (within : machine.pc ≤ machine.tokens.size) (started : 0 < machine.pc) :
    ∃ token, tokenBefore? machine.tokens machine.pc = some token ∧
      machine.lastPlace = token.position := by
  obtain ⟨tokens, pc, _⟩ := machine
  cases pc with
  | zero => cases started
  | succ index =>
    have held : tokens[index]? = some tokens[index] := Array.getElem?_eq_getElem within
    refine ⟨tokens[index], held, ?_⟩
    simp only [Machine.lastPlace, tokenBefore?, held, Option.map_some, Option.getD_some]

/-- Where a token is behind the counter, there is a last one. -/
theorem lastPlace_known (member : token ∈ known) (ready : Ready known machine) :
    ∃ last, tokenBefore? machine.tokens machine.pc = some last ∧
      machine.lastPlace = last.position := by
  obtain ⟨index, less, _⟩ := ready.behind token member
  exact lastPlace_started ready.within (Nat.zero_lt_of_lt less)

end Machines

section Rules
variable {σ α β : Type} {known : List Token} {machine started : Machine} {token : Token}
  {host : σ} {action : Exec (StateM σ) α} {next : α → Exec (StateM σ) β}

theorem blames_ok (value : α) :
    Blames (((.ok value : Except Stop α), machine), host) := by
  rintro error position ⟨⟩

/-- A fault that names no place blames nothing. -/
theorem fairFrom_placeless {error : Error} (moved : Forward machine started)
    (placeless : error.position? = none) :
    FairFrom machine (((.error (.fault error) : Except Stop α), started), host) := by
  refine ⟨moved, ?_⟩
  rintro _ position ⟨⟩ named
  cases placeless.symm.trans named

/-- A fault about a token behind the counter may name the place of that token. -/
theorem fairFrom_fault {error : Error} (moved : Forward machine started)
    (behind : Behind started token) (about : isAbout error token = true)
    (named : error.position? = some token.position) :
    FairFrom machine (((.error (.fault error) : Except Stop α), started), host) := by
  obtain ⟨index, before, held⟩ := behind
  refine ⟨moved, ?_⟩
  rintro _ position ⟨⟩ same
  cases named.symm.trans same
  exact .itself before held about

/-- A fault that is about no token of its own names the place of the last one. -/
theorem fairFrom_general {error : Error}
    (held : tokenBefore? machine.tokens machine.pc = some token)
    (general : isGeneral error = true) (named : error.position? = some token.position) :
    FairFrom machine (((.error (.fault error) : Except Stop α), machine), host) := by
  refine ⟨forward_refl machine, ?_⟩
  rintro _ position ⟨⟩ same
  cases named.symm.trans same
  exact .last held general

theorem fairFrom_from (moved : Forward machine started) {ended : (Except Stop α × Machine) × σ}
    (fair : FairFrom started ended) : FairFrom machine ended :=
  ⟨forward_trans moved fair.moved, fair.blames⟩

/-- The second action is needed only where the first one leads. -/
theorem fairFrom_bind (first : FairFrom machine (action.on started host))
    (rest : ∀ value middle between, action.on started host = ((.ok value, middle), between) →
      FairFrom middle ((next value).on middle between)) :
    FairFrom machine ((action >>= next).on started host) := by
  rw [on_bind]
  rcases ran : action.on started host with ⟨⟨stop | value, middle⟩, between⟩
  all_goals rw [ran] at first
  · refine ⟨first.moved, ?_⟩
    rintro error position ⟨⟩ named
    exact first.blames error position rfl named
  · exact fairFrom_from first.moved (rest value middle between ran)

theorem fair_bind (first : Fair known action) (rest : ∀ value, Fair known (next value)) :
    Fair known (action >>= next) := by
  intro machine host ready
  have begun := first machine host ready
  refine fairFrom_bind begun ?_
  intro value middle between ran
  rw [ran] at begun
  exact rest value middle between (ready_forward begun.moved ready)

theorem fair_mono {fewer : List Token} (subset : ∀ token ∈ fewer, token ∈ known)
    (fair : Fair fewer action) : Fair known action :=
  fun machine host ready => fair machine host (ready_mono subset ready)

theorem fair_pure (value : α) : Fair known (pure value : Exec (StateM σ) α) :=
  fun machine _ _ => ⟨forward_refl machine, blames_ok _⟩

theorem fair_get : Fair known (get : Exec (StateM σ) Machine) :=
  fun machine _ _ => ⟨forward_refl machine, blames_ok _⟩

theorem fair_current : Fair known (current? : Exec (StateM σ) (Option Token)) :=
  fun machine _ _ => ⟨forward_refl machine, blames_ok _⟩

theorem fair_exit_program (code : Int) : Fair known (throw (.exit code) : Exec (StateM σ) α) :=
  fun machine _ _ => ⟨forward_refl machine, by rintro error position ⟨⟩⟩

theorem fair_raise {error : Error} (member : token ∈ known) (about : isAbout error token = true)
    (named : error.position? = some token.position := by rfl) :
    Fair known (raise error : Exec (StateM σ) α) :=
  fun machine _ ready =>
    fairFrom_fault (forward_refl machine) (ready.behind token member) about named

theorem fairFrom_last (error : Position → Error) (member : token ∈ known)
    (ready : Ready known machine)
    (general : ∀ place, isGeneral (error place) = true := by exact fun _ => rfl)
    (named : ∀ place, (error place).position? = some place := by exact fun _ => rfl) :
    FairFrom machine
      (((.error (.fault (error machine.lastPlace)) : Except Stop α), machine), host) := by
  obtain ⟨last, held, place⟩ := lastPlace_known member ready
  refine fairFrom_general held (general _) ?_
  rw [named, place]

/-- A fault may name the last token once there is one. -/
theorem fair_raise_last {error : Position → Error} (member : token ∈ known)
    (general : ∀ place, isGeneral (error place) = true := by exact fun _ => rfl)
    (named : ∀ place, (error place).position? = some place := by exact fun _ => rfl) :
    Fair known (do raise (error (← lastPlace)) : Exec (StateM σ) α) :=
  fun _ _ ready => fairFrom_last error member ready general named

theorem fair_record {event : Event} (silent : indices [event] = []) :
    Fair known (record event : Exec (StateM σ) Unit) :=
  fun _ _ _ => ⟨forward_of_same rfl rfl [event] rfl silent, blames_ok _⟩

/-- At the end of the program its last token is blamed. -/
theorem fairFrom_ended (ready : Ready known machine) (ended : machine.current? = none) :
    FairFrom machine (((.error (.fault (.executed (.unexpectedEndOfInput machine.lastPlace))) :
      Except Stop α), machine), host) := by
  have past : machine.tokens.size ≤ machine.pc := Array.getElem?_eq_none_iff.mp ended
  obtain ⟨last, held, place⟩ := lastPlace_started ready.within
    (Nat.lt_of_lt_of_le ready.inhabited past)
  exact fairFrom_general held rfl (congrArg some place)

/-- A token that is taken may be blamed from then on. -/
theorem fair_consume {next : Token → Exec (StateM σ) β}
    (rest : ∀ token, Fair (token :: known) (next token)) : Fair known (consume >>= next) := by
  intro machine host ready
  rw [on_bind, on_consume]
  cases held : machine.current? with
  | none => exact fairFrom_ended ready held
  | some token =>
    exact fairFrom_from (forward_skip held) (rest token { machine with pc := machine.pc + 1 } host
      (ready_next held (forward_skip held) (Nat.lt_succ_self _) ready))

theorem fair_push (value : Value) : Fair known (push value : Exec (StateM σ) Unit) := by
  intro machine host _
  rw [on_push]
  split
  · exact ⟨forward_of_same rfl rfl [] rfl rfl, blames_ok _⟩
  · rename_i error refused
    obtain ⟨_, rfl⟩ := Stack.push_eq_error_iff.mp refused
    exact fairFrom_placeless (forward_refl machine) rfl

theorem fair_pop : Fair known (pop : Exec (StateM σ) Value) := by
  intro machine host _
  rw [on_pop]
  split
  · exact ⟨forward_of_same rfl rfl [] rfl rfl, blames_ok _⟩
  · rename_i error refused
    obtain ⟨_, rfl⟩ := Stack.pop_eq_error_iff.mp refused
    exact fairFrom_placeless (forward_refl machine) rfl

/-- A variable that has no value is blamed itself. -/
theorem fairFrom_lookup (behind : Behind machine token) (kind : token.kind = .identifier) :
    FairFrom machine ((lookup token : Exec (StateM σ) Value).on machine host) := by
  rw [on_lookup]
  split
  · exact ⟨forward_refl machine, blames_ok _⟩
  · exact fairFrom_fault (forward_refl machine) behind (by simp [isAbout, kind]) rfl

theorem fair_lookup (member : token ∈ known) (kind : token.kind = .identifier) :
    Fair known (lookup token : Exec (StateM σ) Value) :=
  fun _ _ ready => fairFrom_lookup (ready.behind token member) kind

theorem fair_assign (name : String) (value : Value) :
    Fair known (assign name value : Exec (StateM σ) Unit) :=
  fun _ _ _ => ⟨forward_of_same rfl rfl [.bound name value] rfl rfl, blames_ok _⟩

theorem fair_writeLine [Host (StateM σ)] (line : String) :
    Fair known (writeLine line : Exec (StateM σ) Unit) := by
  intro machine host _
  rw [on_writeLine]
  split
  · exact ⟨forward_of_same rfl rfl [.wrote line] rfl rfl, blames_ok _⟩
  · exact fairFrom_placeless (forward_refl machine) rfl

theorem fair_readLine [Host (StateM σ)] (prompt : Option String) :
    Fair known (readLine prompt : Exec (StateM σ) (Option String)) := by
  intro machine host _
  rw [on_readLine]
  split
  · exact ⟨forward_of_same rfl rfl [.took prompt _] rfl rfl, blames_ok _⟩
  · exact fairFrom_placeless (forward_refl machine) rfl

theorem fair_counted (fair : Fair known action) : Fair known (counted action) := by
  intro machine host ready
  have going : Forward machine (entered machine) := forward_of_same rfl rfl [.entered] rfl rfl
  obtain ⟨moved, blames⟩ := fair (entered machine) host (ready_forward going ready)
  rw [on_counted_entered]
  refine ⟨forward_trans going (forward_trans moved ?_), blames⟩
  exact forward_of_same rfl rfl [.left] rfl rfl

theorem fair_repeatWhile {test : Exec (StateM σ) Bool} {body : α → Exec (StateM σ) α}
    (asked : Fair known test) (fair : ∀ value, Fair known (body value)) (count : Nat) (start : α) :
    Fair known (repeatWhile test body count start) := by
  induction count generalizing start with
  | zero => exact fair_bind asked fun _ => fair_pure start
  | succ count ih =>
    refine fair_bind asked fun again => ?_
    cases again with
    | false => exact fair_pure start
    | true => exact fair_bind (fair start) ih

theorem fair_whileTokens {test : Exec (StateM σ) Bool} {body : α → Exec (StateM σ) α}
    (asked : Fair known test) (fair : ∀ value, Fair known (body value)) (start : α) :
    Fair known (whileTokens test body start) :=
  fair_bind fair_get fun machine => fair_repeatWhile asked fair machine.remaining start

end Rules

/-- Only a label that is recorded already is refused. -/
theorem duplicate_of_add {labels : Labels} {label : String} {range : BlockRange}
    {position : Position} {error : SemanticError}
    (refused : labels.add label range position = .error error) :
    error = .duplicateLabel label position := by
  unfold Labels.add at refused
  split at refused
  · cases refused
    rfl
  · cases refused

section Lookahead
variable {σ : Type} {known : List Token} {machine : Machine} {host : σ} {token opener : Token}

theorem fair_takeKeyword (kind : TokenKind) (keyword : String) :
    Fair known (takeKeyword kind keyword : Exec (StateM σ) Unit) := by
  refine fair_consume fun token => ?_
  split
  · exact fair_raise List.mem_cons_self (by simp [isAbout])
  · exact fair_pure ()

theorem fair_takeTarget : Fair known (takeTarget : Exec (StateM σ) String) := by
  refine fair_consume fun token => ?_
  split
  · exact fair_pure _
  · exact fair_raise List.mem_cons_self (by simp [isAbout])

theorem fair_takeEnd : Fair known (takeEnd : Exec (StateM σ) Unit) := by
  intro machine host _
  unfold takeEnd
  rw [on_bind, on_current?]
  cases next : machine.current? with
  | none => exact ⟨forward_refl machine, blames_ok _⟩
  | some token =>
    simp only
    split
    · exact ⟨forward_skip next, blames_ok _⟩
    · exact ⟨forward_refl machine, blames_ok _⟩

theorem fair_takeCast : Fair known (takeCast : Exec (StateM σ) (Option Cast)) := by
  intro machine host _
  unfold takeCast
  rw [on_bind, on_current?]
  cases next : machine.current? with
  | none => exact ⟨forward_refl machine, blames_ok _⟩
  | some token =>
    simp only [Option.map_some]
    split
    · exact ⟨forward_skip next, blames_ok _⟩
    · exact ⟨forward_refl machine, blames_ok _⟩

theorem fair_moreOnLine : Fair known (moreOnLine : Exec (StateM σ) Bool) :=
  fun machine _ _ => ⟨forward_refl machine, blames_ok _⟩

/-- A group that does not close is blamed on its opening parenthesis. -/
theorem fair_groupContinues (member : opener ∈ known) (kind : opener.kind = .leftParen) :
    Fair known (groupContinues opener : Exec (StateM σ) Bool) := by
  intro machine host ready
  unfold groupContinues
  rw [on_bind, on_current?]
  cases next : machine.current? with
  | none =>
    exact fairFrom_fault (forward_refl machine) (ready.behind opener member)
      (by simp [isAbout, kind]) rfl
  | some token =>
    simp only
    split
    · exact ⟨forward_skip next, blames_ok _⟩
    · exact ⟨forward_refl machine, blames_ok _⟩

/-- A conditional block that does not end is blamed on its opening token. -/
theorem fair_bodyContinues (member : opener ∈ known) (kind : opener.kind = .conditional) :
    Fair known (bodyContinues opener : Exec (StateM σ) Bool) := by
  refine fair_bind fair_current fun next? => ?_
  cases next? with
  | none => exact fair_raise member (by simp [isAbout, kind])
  | some token => exact fair_pure _

/-- The variable to the left of an operator that has been taken has been taken too. -/
theorem fairFrom_operandBefore {index : Nat} (before : index ≤ machine.pc)
    (ready : Ready known machine) :
    FairFrom machine ((operandBefore index : Exec (StateM σ) Value).on machine host) := by
  rw [on_operandBefore]
  cases held : variableBefore machine.tokens index with
  | none => exact fair_pop machine host ready
  | some token =>
    obtain ⟨found, kind⟩ := Option.filter_eq_some_iff.mp held
    cases index with
    | zero => cases found
    | succ earlier => exact fairFrom_lookup ⟨earlier, before, found⟩ (of_decide_eq_true kind)

theorem forward_endOfBlock {start column stop : Nat} (forward : machine.pc ≤ start)
    (found : endOfBlock machine.tokens start column = some stop) :
    Forward machine { machine with pc := stop } := by
  obtain ⟨after, ⟨token, held, _⟩, _⟩ := firstFrom_eq_some_iff.mp found
  exact forward_of_pass rfl (Nat.le_trans forward after)
    (fun _ => Nat.le_of_lt (Array.getElem?_eq_some_iff.mp held).1) [] rfl rfl

/-- Both faults of a block that is passed over are blamed on its opening token. -/
theorem fair_passOver (member : opener ∈ known) (kind : opener.kind = .labelled) :
    Fair known (passOver opener : Exec (StateM σ) Unit) := by
  intro machine host ready
  have behind : Behind machine opener := ready.behind opener member
  unfold passOver
  rw [on_bind, on_get]
  simp only
  split
  · exact fairFrom_fault (forward_refl machine) behind (by simp [isAbout, kind]) rfl
  · rename_i stop ends
    rw [on_bind, on_addLabel]
    cases added : machine.labels.add opener.nameOrEmpty ⟨some (machine.pc - 1), some stop⟩
      opener.position with
    | error error =>
      obtain rfl := duplicate_of_add added
      exact fairFrom_fault (forward_refl machine) behind (by simp [isAbout, kind]) rfl
    | ok labels =>
      obtain ⟨_, rfl⟩ := Labels.of_add added
      have passing : Forward machine (passed machine opener.nameOrEmpty (machine.pc - 1) stop) := by
        obtain ⟨after, ⟨closer, closes, _⟩, _⟩ := firstFrom_eq_some_iff.mp ends
        have inside : stop < machine.tokens.size := (Array.getElem?_eq_some_iff.mp closes).1
        exact forward_of_pass rfl after (fun _ => Nat.le_of_lt inside)
          [.passed opener.nameOrEmpty (machine.pc - 1) stop] rfl rfl
      exact fairFrom_from passing (fair_takeEnd _ _ (ready_forward passing ready))

end Lookahead

/-- What is executed when some more levels may be nested is fair: a step is, and a command is where
a token is behind the counter. -/
structure LevelFair (σ : Type) [Host (StateM σ)] (levels : Nat) : Prop where
  step : Fair [] (stepWith (level? levels) : Exec (StateM σ) Unit)
  perform (token : Token) (command : Command) :
    Fair [token] (perform (level? levels) command : Exec (StateM σ) Unit)

section Constructs
variable {σ α : Type} [Host (StateM σ)] {levels : Nat} {known : List Token} {token : Token}
  (further : ∀ less, levels = less + 1 → LevelFair σ less)
include further

/-- Where no level is left, the token that asks for one is blamed. -/
theorem fair_inside {body : Level (StateM σ) → Exec (StateM σ) α} (member : token ∈ known)
    (opens : opensLevel token.kind = true)
    (fair : ∀ less, LevelFair σ less →
      Fair known (body ⟨stepWith (level? less), perform (level? less)⟩)) :
    Fair known (inside (level? levels) token.position body) := by
  cases levels with
  | zero => exact fair_raise member opens
  | succ less => exact fair_counted (fair less (further less rfl))

theorem fair_group (member : token ∈ known) (kind : token.kind = .leftParen) :
    Fair known (group (level? levels) token : Exec (StateM σ) Value) :=
  fair_inside further member (by rw [kind]; rfl) fun _ inner =>
    fair_bind (fair_whileTokens (fair_groupContinues member kind)
      (fun _ => fair_mono (by simp) inner.step) ()) fun _ => fair_pop

theorem fair_expressionFrom (member : token ∈ known) :
    Fair known (expressionFrom (level? levels) token : Exec (StateM σ) Value) := by
  unfold expressionFrom
  split
  · rename_i kind
    exact fair_group further member kind
  · rename_i kind
    exact fair_lookup member kind
  · exact fair_pure _

theorem fair_expression : Fair known (expression (level? levels) : Exec (StateM σ) Value) :=
  fair_consume fun _ => fair_expressionFrom further List.mem_cons_self

theorem fair_valueFrom (member : token ∈ known) :
    Fair known (valueFrom (level? levels) token : Exec (StateM σ) Value) := by
  unfold valueFrom
  split
  · rename_i command kind
    exact fair_inside further member (by rw [kind]; rfl) fun _ inner =>
      fair_bind (fair_mono (by simpa using member) (inner.perform token command)) fun _ => fair_pop
  · rename_i kind
    exact fair_group further member kind
  · rename_i kind
    split
    · exact fair_pop
    · exact fair_lookup member kind
  · exact fair_pure _

theorem fair_value : Fair known (value (level? levels) : Exec (StateM σ) Value) :=
  fair_consume fun _ => fair_valueFrom further List.mem_cons_self

theorem fair_boolean (member : token ∈ known) (operator : String) :
    Fair known (boolean (level? levels) operator : Exec (StateM σ) Bool) := by
  refine fair_bind (fair_expression further) fun value => ?_
  split
  · exact fair_pure _
  · exact fair_raise_last member

theorem fairFrom_compare {machine : Machine} {index : Nat} (member : token ∈ known)
    (before : index ≤ machine.pc) (operator : Operator) (name : String) (host : σ)
    (ready : Ready known machine) :
    FairFrom machine ((compare (level? levels) operator name index).on machine host) := by
  have left : FairFrom machine ((operandBefore index : Exec (StateM σ) Value).on machine host) :=
    fairFrom_operandBefore before ready
  refine fairFrom_bind left ?_
  intro leftValue middle between ran
  rw [ran] at left
  refine fair_bind (fair_expression further) (fun rightValue => ?_) middle between
    (ready_forward left.moved ready)
  split
  · exact fair_pure _
  · exact fair_raise_last member

theorem fairFrom_compared {machine : Machine} {index : Nat} (member : token ∈ known)
    (before : index ≤ machine.pc) (operator : Operator) (name : String) (finish : Bool → Value)
    (host : σ) (ready : Ready known machine) :
    FairFrom machine ((do
      let result ← compare (level? levels) operator name index
      push (finish result) : Exec (StateM σ) Unit).on machine host) := by
  have compared := fairFrom_compare further member before operator name host ready
  refine fairFrom_bind compared ?_
  intro result middle between ran
  rw [ran] at compared
  exact fair_push (finish result) middle between (ready_forward compared.moved ready)

theorem fair_binary (member : token ∈ known) (operator : Operator) :
    Fair known (binary (level? levels) operator : Exec (StateM σ) Unit) := by
  intro machine host ready
  unfold binary
  rw [on_bind]
  exact fairFrom_compared further member (Nat.sub_le machine.pc 1) operator operator.keyword
    .boolean host ready

theorem fair_negate (member : token ∈ known) :
    Fair known (negate (level? levels) : Exec (StateM σ) Unit) := by
  intro machine host ready
  rw [Evaluation.on_negate]
  split
  · rename_i equals
    obtain ⟨sign, next, _⟩ := (Option.any_eq_true _ _).mp equals
    exact fairFrom_from (forward_skip next) (fairFrom_compared further member
      (Nat.le_trans (Nat.sub_le machine.pc 1) (Nat.le_succ _)) .equal "NOT EQ" _ host
      (ready_forward (forward_skip next) ready))
  · exact fair_bind (fair_boolean further member "NOT") (fun _ => fair_push _) machine host ready

theorem fair_assignment (keyword : Token) :
    Fair known (assignment (level? levels) keyword : Exec (StateM σ) Unit) := by
  have tail : Fair known (do
      let result ← value (level? levels)
      takeKeyword .target "TO"
      let name ← takeTarget
      assign name result : Exec (StateM σ) Unit) :=
    fair_bind (fair_value further) fun result =>
      fair_bind (fair_takeKeyword _ _) fun _ =>
        fair_bind fair_takeTarget fun name => fair_assign name result
  unfold assignment
  split
  · exact fair_bind (fair_takeKeyword _ _) fun _ => tail
  · exact tail

theorem fair_arithmetic (member : token ∈ known) (operation : Arithmetic) :
    Fair known (arithmetic (level? levels) operation : Exec (StateM σ) Unit) := by
  refine fair_bind (fair_value further) fun left => ?_
  refine fair_bind (fair_value further) fun right => ?_
  split
  · exact fair_push _
  · exact fair_raise_last member
  · exact fair_raise_last member

theorem fair_takePrompt :
    Fair known (takePrompt (level? levels) : Exec (StateM σ) (Option String)) := by
  intro machine host ready
  unfold takePrompt
  rw [on_bind, on_get]
  simp only
  split
  · rename_i asked
    obtain ⟨token, following, _⟩ := Option.map_eq_some_iff.mp asked.2
    have inside : machine.pc + 1 < machine.tokens.size :=
      (Array.getElem?_eq_some_iff.mp following).1
    have moved : Forward machine { machine with pc := machine.pc + 2 } :=
      forward_of_pass rfl (Nat.le_add_right _ 2) (fun _ => inside) [] rfl rfl
    exact fairFrom_from moved (fair_bind (fair_value further) (fun _ => fair_pure _) _ _
      (ready_forward moved ready))
  · exact ⟨forward_refl machine, blames_ok _⟩

theorem fair_takeInput (member : token ∈ known) :
    Fair known (takeInput (level? levels) : Exec (StateM σ) Unit) := by
  have stored (result : Value) : Fair known (do
      record (.converted result)
      push result : Exec (StateM σ) Unit) :=
    fair_bind (fair_record rfl) fun _ => fair_push result
  refine fair_bind fair_takeCast fun cast => ?_
  refine fair_bind (fair_takePrompt further) fun prompt => ?_
  refine fair_bind (fair_readLine prompt) fun line? => ?_
  cases line? with
  | none => exact fair_bind (fair_pure _) stored
  | some line =>
    simp only
    split
    · exact fair_bind (fair_pure _) stored
    · exact fun _ _ ready =>
        fairFrom_last (fun place => .meant (.invalidConversion line "NUM" place)) member ready

theorem fair_print : Fair known (print (level? levels) : Exec (StateM σ) Unit) :=
  fair_bind (fair_whileTokens fair_moreOnLine
    (fun _ => fair_bind (fair_value further) fun _ => fair_pure _) "") fair_writeLine

theorem fair_exit (member : token ∈ known) :
    Fair known (exit (level? levels) : Exec (StateM σ) Unit) := by
  refine fair_bind fair_moreOnLine fun more => ?_
  split
  · refine fair_bind (fair_value further) fun code => ?_
    simp only
    split
    · exact fair_exit_program _
    · exact fair_raise_last member
  · exact fair_exit_program 0

theorem fair_perform (member : token ∈ known) (command : Command) :
    Fair known (perform (level? levels) command : Exec (StateM σ) Unit) := by
  cases command with
  | arithmetic operation => exact fair_arithmetic further member operation
  | read => exact fair_takeInput further member
  | print => exact fair_print further
  | exit => exact fair_exit further member

theorem fair_conditional (member : token ∈ known) (kind : token.kind = .conditional) :
    Fair known (conditional (level? levels) token : Exec (StateM σ) Unit) := by
  refine fair_bind (fair_boolean further member "IF") fun holds => ?_
  refine fair_bind (fair_record rfl) fun _ => ?_
  cases holds with
  | true =>
    exact fair_bind (fair_inside further member (by rw [kind]; rfl) fun _ inner =>
      fair_whileTokens (fair_bodyContinues member kind)
        (fun _ => fair_mono (by simp) inner.step) ()) fun _ => fair_takeEnd
  | false =>
    intro machine host ready
    simp only [Bool.false_eq_true, ↓reduceIte]
    rw [on_bind, on_get]
    simp only
    split
    · rename_i stop found
      have moved : Forward machine { machine with pc := stop } :=
        forward_endOfBlock (Nat.le_refl _) found
      exact fairFrom_from moved (fair_takeEnd _ _ (ready_forward moved ready))
    · exact fairFrom_fault (forward_refl machine) (ready.behind token member)
        (by simp [isAbout, kind]) rfl

/-- What a jump that is taken does once its target is found. -/
theorem fair_target (member : token ∈ known) (kind : token.kind = .jump) (stop : Nat) :
    Fair known (do
      inside (level? levels) token.position fun inner =>
        whileTokens (do return (← get).pc < stop) (fun _ => inner.step) ()
      if (← get).pc = stop then
        takeEnd : Exec (StateM σ) Unit) := by
  refine fair_bind (fair_inside further member (by rw [kind]; rfl) fun _ inner =>
    fair_whileTokens (fair_bind fair_get fun _ => fair_pure _)
      (fun _ => fair_mono (by simp) inner.step) ()) fun _ => ?_
  refine fair_bind fair_get fun machine => ?_
  split
  · exact fair_takeEnd
  · exact fair_pure ()

/-- A jump blames itself if its label is recorded already or is not found ahead, and the block that
it finds if that does not end. -/
theorem fair_follow (member : token ∈ known) (kind : token.kind = .jump) :
    Fair known (follow (level? levels) token : Exec (StateM σ) Unit) := by
  intro machine host ready
  have behind : Behind machine token := ready.behind token member
  unfold follow
  rw [on_bind, on_addLabel]
  cases added : machine.labels.add token.nameOrEmpty .unknown token.position with
  | error error =>
    obtain rfl := duplicate_of_add added
    exact fairFrom_fault (forward_refl machine) behind (by simp [isAbout, kind]) rfl
  | ok labels =>
    obtain ⟨fresh, rfl⟩ := Labels.of_add added
    have recorded : Forward machine (labelled machine token.nameOrEmpty .unknown) :=
      forward_of_same rfl rfl [] rfl rfl
    simp only
    rw [on_bind]
    rcases searched : (findTarget token.nameOrEmpty token).on
      (labelled machine token.nameOrEmpty .unknown) host with ⟨⟨stop | ⟨start, stop⟩, after⟩, later⟩
    · obtain ⟨rfl, error, rfl, lost⟩ := findTarget_failed searched
      rw [labelled] at searched
      rw [searched]
      cases lost with
      | missing absent =>
        exact fairFrom_fault recorded behind (by simp [isAbout, kind]) rfl
      | unterminated found opens endless =>
        obtain ⟨index, before, held⟩ := behind
        refine ⟨recorded, ?_⟩
        rintro _ position ⟨⟩ ⟨⟩
        exact .target before held kind found opens endless
    · obtain ⟨rfl, rfl, target⟩ := findTarget_found searched
      rw [labelled] at searched
      rw [searched]
      simp only
      rw [on_bind, on_locateLabel, Labels.locate_insert, Table.insert_insert]
      have going : Forward machine (jumped machine token.nameOrEmpty start stop) := by
        obtain ⟨ahead, ⟨opener, opens, _⟩, _⟩ := firstFrom_eq_some_iff.mp target.found
        have inside : start < machine.tokens.size := (Array.getElem?_eq_some_iff.mp opens).1
        exact forward_of_pass rfl (Nat.le_succ_of_le ahead) (fun _ => inside)
          [.jumped token.nameOrEmpty start stop] rfl rfl
      exact fairFrom_from going
        (fair_target further member kind stop (jumped ..) later (ready_forward going ready))

theorem fair_jump (member : token ∈ known) (kind : token.kind = .jump) :
    Fair known (jump (level? levels) token : Exec (StateM σ) Unit) := by
  have guarded (keyword : Token) : Fair (keyword :: known) (do
      if ← boolean (level? levels) "JUMP" then
        follow (level? levels) token
      else
        record (.stayed token.nameOrEmpty) : Exec (StateM σ) Unit) := by
    refine fair_bind (fair_boolean further (List.mem_cons_of_mem _ member) "JUMP") fun holds => ?_
    split
    · exact fair_follow further (List.mem_cons_of_mem _ member) kind
    · exact fair_record rfl
  have rest : Fair known (do
      let keyword ← consume
      if keyword.kind ≠ .conditional then
        raise (.written (.expectedKeyword "IF" keyword.mention keyword.position))
      if ← boolean (level? levels) "JUMP" then
        follow (level? levels) token
      else
        record (.stayed token.nameOrEmpty) : Exec (StateM σ) Unit) := by
    refine fair_consume fun keyword => ?_
    simp only
    split
    · exact fair_bind (fair_raise List.mem_cons_self (by simp [isAbout])) fun _ => guarded keyword
    · exact guarded keyword
  refine fair_bind fair_get fun machine => ?_
  split
  · exact fair_bind (fair_raise member (by simp [isAbout, kind])) fun _ => rest
  · exact rest

theorem fair_execute (member : token ∈ known) :
    Fair known (execute (level? levels) token : Exec (StateM σ) Unit) := by
  unfold execute
  split
  · exact fair_push _
  · exact fair_push _
  · exact fair_push _
  · exact fair_binary further member _
  · exact fair_negate further member
  · rename_i kind
    exact fair_bind (fair_group further member kind) fun _ => fair_push _
  · exact fair_assignment further token
  · exact fair_assignment further token
  · exact fair_perform further member _
  · rename_i kind
    exact fair_jump further member kind
  · rename_i kind
    exact fair_passOver member kind
  · rename_i kind
    exact fair_conditional further member kind
  all_goals exact fair_pure ()

/-- Whatever token comes next, taking and executing it is fair. -/
theorem fair_stepWith : Fair [] (stepWith (level? levels) : Exec (StateM σ) Unit) := by
  intro machine host ready
  rw [on_stepWith]
  cases next : machine.current? with
  | none => exact fairFrom_ended ready next
  | some token =>
    exact fairFrom_from (forward_take next) (fair_execute further List.mem_cons_self
      (taken machine token) host
      (ready_next next (forward_take next) (Nat.lt_succ_self _) ready))

end Constructs

section Runs
variable {σ : Type} [Host (StateM σ)]

/-- The induction on the nesting levels that are left: what is executed further in has one level
less. -/
theorem level_fair (levels : Nat) : ∀ less, levels = less + 1 → LevelFair σ less := by
  induction levels with
  | zero => rintro less ⟨⟩
  | succ levels ih =>
    rintro less ⟨⟩
    exact ⟨fair_stepWith ih, fun _ command => fair_perform ih List.mem_cons_self command⟩

theorem fair_toEnd : Fair [] (toEnd : Exec (StateM σ) Unit) := by
  refine fair_whileTokens (fair_bind fair_get fun _ => fair_bind fair_get fun _ => fair_pure _)
    (fun _ => ?_) ()
  intro machine host ready
  rw [on_step]
  exact fair_stepWith (level_fair _) machine host ready

/-- A call that fails blames only what it may. -/
theorem call_blames {machine : Machine} {host : σ} {error : Error} {position : Position}
    (within : machine.pc ≤ machine.tokens.size) (failed : (call machine host).1.1 = .error error)
    (named : error.position? = some position) :
    Blamed machine.tokens (call machine host).1.2.pc error position := by
  by_cases inhabited : 0 < machine.tokens.size
  · obtain ⟨moved, blames⟩ := fair_toEnd machine host ⟨within, inhabited, by simp⟩
    rw [call_eq] at failed ⊢
    rcases walked : toEnd.on machine host with ⟨⟨(code | fault) | ⟨⟩, after⟩, later⟩
    all_goals rw [walked] at failed moved blames
    · cases failed
    · cases failed
      have blamed : Blamed after.tokens after.pc error position := blames error position rfl named
      rw [moved.tokens] at blamed
      exact blamed
    · cases failed
  · have ended : machine.tokens.size ≤ machine.pc := by omega
    rw [call_ended host ended] at failed
    cases failed

/-- Whether a fault names no place: the three that are not about the program's text. -/
def isPlaceless : Error → Bool
  | .executed (.stackOverflow _) | .executed .stackUnderflow | .executed (.hostFailure _) => true
  | _ => false

theorem position_of_placed {error : Error} (placed : isPlaceless error = false) :
    ∃ position, error.position? = some position := by
  cases error with
  | written error => exact ⟨_, rfl⟩
  | meant error => exact ⟨_, rfl⟩
  | executed error => cases error <;> first | exact ⟨_, rfl⟩ | cases placed

/-- What is blamed is a token of the program. -/
theorem token_of_blamed {tokens : Array Token} {counter : Nat} {error : Error}
    {position : Position} (blamed : Blamed tokens counter error position) :
    ∃ token ∈ tokens, token.position = position := by
  cases blamed with
  | last held _ =>
    cases counter with
    | zero => cases held
    | succ index => exact ⟨_, Array.mem_of_getElem? held, rfl⟩
  | itself _ held _ => exact ⟨_, Array.mem_of_getElem? held, rfl⟩
  | target _ _ _ _ opens _ => exact ⟨_, Array.mem_of_getElem? opens, rfl⟩

/-- The place that a failed run names is a place in the source text. Every fault names one, except
those of the operand stack and of the host; it is the place of a character of a word; and if the
text is a program, so that the fault comes from its execution, it is the place of a token that the
counter has gone past when the fault comes up, which is the last one or the one that the fault is
about, or else the place of the token that opens the endless block of a jump. -/
theorem run_blames {source : String} {capacity : Nat} {host later : σ} {error : Error}
    (failed : (Program.run source capacity : StateM σ (Except Error Outcome)).run host =
      (.error error, later)) (placed : isPlaceless error = false) :
    ∃ position, error.position? = some position ∧
      (∃ word ∈ Word.scan source, word.covers position = true) ∧
      ∀ tokens, Program.tokenize source = .ok tokens →
        let ended := call (Machine.load tokens.toArray capacity) host
        ended.1.1 = .error error ∧ Blamed tokens.toArray ended.1.2.pc error position := by
  obtain ⟨position, named⟩ := position_of_placed placed
  refine ⟨position, named, ?_⟩
  have reading := read_placed source
  rw [Relayout.run_eq] at failed
  unfold Program.tokenize at failed ⊢
  cases read : Reader.read (Word.scan source) with
  | error fault =>
    rw [read] at failed reading
    cases failed
    cases named
    exact ⟨reading, nofun⟩
  | ok tokens =>
    rw [read] at failed reading
    have ended : (call (Machine.load tokens.toArray capacity) host).1.1 = .error error :=
      congrArg Prod.fst failed
    have blamed := call_blames (Nat.zero_le _) ended named
    obtain ⟨token, member, place⟩ := token_of_blamed blamed
    refine ⟨place ▸ reading token (List.mem_toArray.mp member), ?_⟩
    rintro _ ⟨⟩
    exact ⟨ended, blamed⟩

end Runs

/-- A jump whose block does not end: the block is blamed, although it stands ahead. -/
theorem run_blames_endless :
    let source := "JUMP here IF True\n  SECTION here"
    let tokens : List Token := [⟨.jump, .label "here", ⟨1, 0⟩⟩, ⟨.conditional, .absent, ⟨1, 10⟩⟩,
      ⟨.boolean, .boolean true, ⟨1, 13⟩⟩, ⟨.labelled, .label "here", ⟨2, 2⟩⟩]
    let error : Error := .executed (.unterminatedBlock "SECTION" ⟨2, 2⟩)
    Program.tokenize source = .ok tokens ∧
      ((Program.run source 4 : StateM Transcript (Except Error Outcome)).run
        (Transcript.ofInput [])).1 = .error error ∧
      (∃ word ∈ Word.scan source, word.covers ⟨2, 2⟩ = true) ∧
      Blamed tokens.toArray
        (call (Machine.load tokens.toArray 4) (Transcript.ofInput [])).1.2.pc error ⟨2, 2⟩ := by
  intro source tokens error
  have read : Program.tokenize source = .ok tokens := by
    dsimp only [source, tokens]
    cbv
  have failed : ((Program.run source 4 : StateM Transcript (Except Error Outcome)).run
      (Transcript.ofInput [])).1 = .error error := by
    rw [Relayout.run_eq, read]
    decide +kernel
  obtain ⟨position, named, inside, blamed⟩ := run_blames (Prod.ext failed rfl) rfl
  cases named
  exact ⟨read, failed, inside, (blamed tokens read).2⟩

end StackScript.Blame
