import Heed.Proofs.Grammar.Building
import Heed.Proofs.Token.Alike

/-!
# Two runs on alike tokens

`Agree` compares two runs of a reader or builder from states whose tokens are alike: both fail for the same
cause, or both finish, with values that are related and states that are alike again. Budgets may differ on the
two sides. They do not show and are never used up, because `Agree room` speaks only of states with fewer than
`room` tokens ahead: a run that has taken a token needs less room for the rest, and with no room at all there is
nothing to show.
-/

set_option autoImplicit false

namespace Heed

theorem Cursor.Advances.suffix {strict : Bool} {before after : Cursor}
    (advances : before.Advances strict after) : after.tokens <:+ before.tokens := advances.onward.rest.filter _

/-! ## States with a cursor -/

/-- States of a reading and the failures that end it, with what two of them share if they differ only in
layout. -/
class Located (σ : Type) (ε : outParam Type) [MonadLiftT Reader (StateT σ (Except ε))] where
  cursor : σ → Cursor
  /-- The state with another cursor. -/
  move : σ → Cursor → σ
  /-- The failure of a reader in a state. -/
  fail : σ → SyntaxError → ε
  cause : ε → SyntaxError.Cause
  Alike : σ → σ → Prop
  FailAlike : ε → ε → Prop
  cursor_move : ∀ state after, cursor (move state after) = after
  move_cursor : ∀ state, move state (cursor state) = state
  cause_fail : ∀ state error, cause (fail state error) = error.cause
  alike_cursor : ∀ {left right}, Alike left right → Token.Alike (cursor left).rest (cursor right).rest
  alike_move : ∀ {left right after after'}, Alike left right → Token.Alike after.rest after'.rest →
    Alike (move left after) (move right after')
  alike_fail : ∀ {left right error error'}, Alike left right → error.cause = error'.cause →
    FailAlike (fail left error) (fail right error')
  lift_eq : ∀ {α : Type} (read : Reader α) state,
    (liftM read : StateT σ (Except ε) α) state =
      ((read (cursor state)).mapError (fail state)).map fun outcome => (outcome.1, move state outcome.2)

instance : Located Cursor SyntaxError where
  cursor := id
  move _ after := after
  fail _ error := error
  cause := SyntaxError.cause
  Alike left right := Token.Alike left.rest right.rest
  FailAlike error error' := error.cause = error'.cause
  cursor_move _ _ := rfl
  move_cursor _ := rfl
  cause_fail _ _ := rfl
  alike_cursor alike := alike
  alike_move _ alike := alike
  alike_fail _ same := same
  lift_eq read state := by
    change read state = _
    rw [id]
    cases read state with
    | error error => rfl
    | ok outcome => rfl

instance : Located Draft Failure where
  cursor := Draft.cursor
  move draft cursor := { draft with cursor }
  fail draft error := { error with nodes := draft.nodes }
  cause failure := failure.cause
  Alike left right :=
    Token.Alike left.cursor.rest right.cursor.rest ∧
      left.nodes.map Node.kind = right.nodes.map Node.kind
  FailAlike left right := left.cause = right.cause ∧ left.nodes.map Node.kind = right.nodes.map Node.kind
  cursor_move _ _ := rfl
  move_cursor _ := rfl
  cause_fail _ _ := rfl
  alike_cursor alike := alike.1
  alike_move alike moved := ⟨moved, alike.2⟩
  alike_fail alike same := ⟨same, alike.2⟩
  lift_eq read state := by
    change Builder.ofReader read state = _
    rw [Builder.ofReader]
    cases read state.cursor with
    | error error => rfl
    | ok outcome => rfl

section

variable {σ ε : Type} [MonadLiftT Reader (StateT σ (Except ε))] [Located σ ε] {α β : Type}

open Located (cursor)

def ahead (state : σ) : Nat := (cursor state).tokens.length

/-- How two runs from alike states end. A value that `owes` a token has taken one. -/
inductive Ends (owes : α → Prop) (same : α → α → Prop) (left : σ) :
    Except ε (α × σ) → Except ε (α × σ) → Prop where
  | fail {failure failure' : ε} (alike : Located.FailAlike σ failure failure')
      (inBudget : Located.cause σ failure ≠ .budgetExceeded) : Ends owes same left (.error failure) (.error failure')
  | finish {value value' : α} {after after' : σ} (related : same value value')
      (alike : Located.Alike after after') (onward : (cursor after).tokens <:+ (cursor left).tokens)
      (paid : owes value → ahead after < ahead left) :
      Ends owes same left (.ok (value, after)) (.ok (value', after'))

/-- Two runs end alike from alike states that satisfy `held` and have fewer than `room` tokens ahead. -/
def AgreeWhen (held : σ → σ → Prop) (room : Nat) (owes : α → Prop) (same : α → α → Prop)
    (run run' : StateT σ (Except ε) α) : Prop :=
  ∀ left right, Located.Alike left right → held left right → ahead left < room →
    Ends owes same left (run left) (run' right)

def anywhere (_ _ : σ) : Prop := True

/-- The next tokens are this one and its counterpart on the other side. -/
def Facing (token : Token) (span : Span) (left right : σ) : Prop :=
  (cursor left).peek? = some token ∧ (cursor right).peek? = some { token with span }

def free (_ : α) : Prop := False

def strict (_ : α) : Prop := True

def whatever (_ _ : α) : Prop := True

def SameBut (found found' : α × β) : Prop := found.1 = found'.1

abbrev Agree (room : Nat) (owes : α → Prop) (same : α → α → Prop)
    (run run' : StateT σ (Except ε) α) : Prop :=
  AgreeWhen anywhere room owes same run run'

/-- Two runs that see related values and change nothing. -/
def Sees (same : α → α → Prop) (look look' : StateT σ (Except ε) α) : Prop :=
  ∀ left right, Located.Alike left right →
    ∃ value value', look left = .ok (value, left) ∧ look' right = .ok (value', right) ∧ same value value'

omit [MonadLiftT Reader (StateT σ (Except ε))] [Located σ ε] in
theorem bind_apply (run : StateT σ (Except ε) α) (next : α → StateT σ (Except ε) β)
    (state : σ) : (run >>= next) state = (run state).bind fun outcome => next outcome.1 outcome.2 := rfl

namespace Ends

variable {owes owes' : α → Prop} {same : α → α → Prop} {left middle : σ}
  {outcome outcome' : Except ε (α × σ)}

theorem weaken (ended : Ends owes same middle outcome outcome')
    (onward : (cursor middle).tokens <:+ (cursor left).tokens)
    (owed : ∀ value, owes' value → owes value ∨ ahead middle < ahead left) :
    Ends owes' same left outcome outcome' := by
  cases ended with
  | fail alike inBudget => exact .fail alike inBudget
  | finish related alike onward' paid =>
      refine .finish related alike (onward'.trans onward) fun owe => ?_
      rcases owed _ owe with owe | fewer
      · exact Nat.lt_of_lt_of_le (paid owe) onward.length_le
      · exact Nat.lt_of_le_of_lt onward'.length_le fewer

theorem bind {owes' : β → Prop} {same' : β → β → Prop}
    {next next' : α × σ → Except ε (β × σ)} (ran : Ends owes same left outcome outcome')
    (rest : ∀ value value' after after', same value value' → Located.Alike after after' →
      (cursor after).tokens <:+ (cursor left).tokens → (owes value → ahead after < ahead left) →
        Ends owes' same' left (next (value, after)) (next' (value', after'))) :
    Ends owes' same' left (outcome.bind next) (outcome'.bind next') := by
  cases ran with
  | fail alike inBudget => exact .fail alike inBudget
  | finish related alike onward paid => exact rest _ _ _ _ related alike onward paid

end Ends

namespace AgreeWhen

variable {held : σ → σ → Prop} {room : Nat} {owes : α → Prop} {same : α → α → Prop}
  {run run' : StateT σ (Except ε) α} {owes' : β → Prop} {same' : β → β → Prop}
  {next next' : α → StateT σ (Except ε) β}

theorem idle {value value' : α} (related : same value value') (unowed : ¬ owes value) :
    AgreeWhen held room owes same (pure value : StateT σ (Except ε) α) (pure value') :=
  fun _ _ alike _ _ => .finish related alike List.suffix_rfl fun owed => absurd owed unowed

theorem done {value value' : α} (related : same value value') :
    AgreeWhen held room free same (pure value : StateT σ (Except ε) α) (pure value') :=
  idle related id

theorem noRoom : AgreeWhen held 0 owes same run run' :=
  fun _ _ _ _ fits => absurd fits (Nat.not_lt_zero _)

theorem at_ (agree : Agree room owes same run run') : AgreeWhen held room owes same run run' :=
  fun left right alike _ fits => agree left right alike trivial fits

theorem lower {room' : Nat} (agree : AgreeWhen held room owes same run run') (less : room' ≤ room) :
    AgreeWhen held room' owes same run run' :=
  fun left right alike here fits => agree left right alike here (Nat.lt_of_lt_of_le fits less)

theorem loose (agree : AgreeWhen held room owes same run run') : AgreeWhen held room free same run run' :=
  fun left right alike here fits =>
    (agree left right alike here fits).weaken List.suffix_rfl fun _ => False.elim

/-- Behind a token that was taken there is less room, and no token is owed. -/
theorem inside (agree : AgreeWhen held (room + 1) owes same run run') :
    AgreeWhen held room free same run run' := (agree.lower (Nat.le_succ room)).loose

theorem ite {condition : Prop} [Decidable condition] {other other' : StateT σ (Except ε) α}
    (onTrue : AgreeWhen held room owes same run run') (onFalse : AgreeWhen held room owes same other other') :
    AgreeWhen held room owes same (if condition then run else other)
      (if condition then run' else other') := by
  split
  · exact onTrue
  · exact onFalse

theorem surely {condition : Prop} [Decidable condition] {other other' : StateT σ (Except ε) α}
    (holds : condition) (agree : AgreeWhen held room owes same run run') :
    AgreeWhen held room owes same (if condition then run else other)
      (if condition then run' else other') := by
  rw [if_pos holds, if_pos holds]
  exact agree

theorem otherwise {condition : Prop} [Decidable condition] {other other' : StateT σ (Except ε) α}
    (fails : ¬ condition) (agree : AgreeWhen held room owes same other other') :
    AgreeWhen held room owes same (if condition then run else other)
      (if condition then run' else other') := by
  rw [if_neg fails, if_neg fails]
  exact agree

/-- A choice whose first side goes on with the second one. -/
theorem joined {condition : Prop} [Decidable condition] {other other' : StateT σ (Except ε) α}
    (before : AgreeWhen held room owes same other other' → AgreeWhen held room owes same run run')
    (agree : AgreeWhen held room owes same other other') :
    AgreeWhen held room owes same (if condition then run else other)
      (if condition then run' else other') := .ite (before agree) agree

/-- Runs in sequence. Where the first part took a token, the second one has less room and owes nothing. -/
theorem bind (first : AgreeWhen held room owes same run run')
    (rest : ∀ value value', same value value' → Agree room owes' same' (next value) (next' value') ∨
      owes value ∧ Agree (room - 1) free same' (next value) (next' value')) :
    AgreeWhen held room owes' same' (run >>= next) (run' >>= next') := by
  intro left right alike here fits
  rw [bind_apply, bind_apply]
  refine (first left right alike here fits).bind fun value value' after after' related alike onward paid => ?_
  rcases rest value value' related with agree | ⟨owed, agree⟩
  · have ended := agree after after' alike trivial (Nat.lt_of_le_of_lt onward.length_le fits)
    exact ended.weaken onward fun _ owe => .inl owe
  · have fewer := paid owed
    have ended := agree after after' alike trivial (by omega)
    exact ended.weaken onward fun _ _ => .inr fewer

theorem andThenAs (first : AgreeWhen held room owes same run run')
    (rest : ∀ value value', same value value' → Agree room owes' same' (next value) (next' value')) :
    AgreeWhen held room owes' same' (run >>= next) (run' >>= next') :=
  first.bind fun value value' related => .inl (rest value value' related)

theorem andThen (first : AgreeWhen held room owes Eq run run')
    (rest : ∀ value, Agree room owes' same' (next value) (next' value)) :
    AgreeWhen held room owes' same' (run >>= next) (run' >>= next') :=
  first.andThenAs fun value _ related => related ▸ rest value

/-- What comes first takes a token. -/
theorem firstAs (first : AgreeWhen held (room + 1) strict same run run')
    (rest : ∀ value value', same value value' → Agree room free same' (next value) (next' value')) :
    AgreeWhen held (room + 1) owes' same' (run >>= next) (run' >>= next') :=
  first.bind fun value value' related => .inr ⟨trivial, rest value value' related⟩

theorem first (first : AgreeWhen held (room + 1) strict Eq run run')
    (rest : ∀ value, Agree room free same' (next value) (next' value)) :
    AgreeWhen held (room + 1) owes' same' (run >>= next) (run' >>= next') :=
  first.firstAs fun value _ related => related ▸ rest value

theorem andThenBut {γ : Type} {run run' : StateT σ (Except ε) (α × γ)} {owes : α × γ → Prop}
    {next next' : α × γ → StateT σ (Except ε) β} (first : AgreeWhen held room owes SameBut run run')
    (rest : ∀ value place place', Agree room owes' same' (next (value, place)) (next' (value, place'))) :
    AgreeWhen held room owes' same' (run >>= next) (run' >>= next') := by
  refine first.andThenAs fun found found' same => ?_
  obtain ⟨value, place⟩ := found
  obtain ⟨value', place'⟩ := found'
  obtain rfl : value = value' := same
  exact rest value place place'

theorem firstBut {γ : Type} {run run' : StateT σ (Except ε) (α × γ)}
    {next next' : α × γ → StateT σ (Except ε) β}
    (first : AgreeWhen held (room + 1) strict SameBut run run')
    (rest : ∀ value place place', Agree room free same' (next (value, place)) (next' (value, place'))) :
    AgreeWhen held (room + 1) owes' same' (run >>= next) (run' >>= next') := by
  refine first.firstAs fun found found' same => ?_
  obtain ⟨value, place⟩ := found
  obtain ⟨value', place'⟩ := found'
  obtain rfl : value = value' := same
  exact rest value place place'

/-- What comes first takes a token; the rest would have room enough without that. -/
theorem paidAs (first : AgreeWhen held room strict same run run')
    (rest : ∀ value value', same value value' → Agree room free same' (next value) (next' value')) :
    AgreeWhen held room owes' same' (run >>= next) (run' >>= next') :=
  first.bind fun value value' related =>
    .inr ⟨trivial, (rest value value' related).lower (Nat.sub_le room 1)⟩

theorem paid (first : AgreeWhen held room strict Eq run run')
    (rest : ∀ value, Agree room free same' (next value) (next' value)) :
    AgreeWhen held room owes' same' (run >>= next) (run' >>= next') :=
  first.paidAs fun value _ related => related ▸ rest value

theorem paidBut {γ : Type} {run run' : StateT σ (Except ε) (α × γ)}
    {next next' : α × γ → StateT σ (Except ε) β} (first : AgreeWhen held room strict SameBut run run')
    (rest : ∀ value place place', Agree room free same' (next (value, place)) (next' (value, place'))) :
    AgreeWhen held room owes' same' (run >>= next) (run' >>= next') := by
  refine first.paidAs fun found found' same => ?_
  obtain ⟨value, place⟩ := found
  obtain ⟨value', place'⟩ := found'
  obtain rfl : value = value' := same
  exact rest value place place'

/-- A value that took a token, changed afterwards. -/
theorem returning {change change' : α → β} (agree : AgreeWhen held room strict same run run')
    (related : ∀ value value', same value value' → same' (change value) (change' value')) :
    AgreeWhen held room owes' same' (do return change (← run)) (do return change' (← run')) :=
  agree.paidAs fun value value' same => .done (related value value' same)

/-- What is seen first changes nothing. -/
theorem look {look look' : StateT σ (Except ε) α} (sees : Sees same look look')
    (rest : ∀ value value', same value value' →
      AgreeWhen held room owes' same' (next value) (next' value')) :
    AgreeWhen held room owes' same' (look >>= next) (look' >>= next') := by
  intro left right alike here fits
  obtain ⟨value, value', looked, looked', related⟩ := sees left right alike
  rw [bind_apply, bind_apply, looked, looked']
  exact rest value value' related left right alike here fits

theorem see {look look' : StateT σ (Except ε) α} (sees : Sees Eq look look')
    (rest : ∀ value, AgreeWhen held room owes' same' (next value) (next' value)) :
    AgreeWhen held room owes' same' (look >>= next) (look' >>= next') :=
  .look sees fun value _ related => related ▸ rest value

end AgreeWhen

/-! ## Reading -/

theorem agree_lift {room : Nat} {owes : α → Prop} {same : α → α → Prop} {read read' : Reader α}
    (agree : Agree room owes same read read') :
    Agree room owes same (liftM read : StateT σ (Except ε) α) (liftM read') := by
  intro left right alike _ fits
  have ended := agree (cursor left) (cursor right) (Located.alike_cursor alike) trivial fits
  rw [Located.lift_eq, Located.lift_eq]
  generalize read (cursor left) = outcome at ended ⊢
  generalize read' (cursor right) = outcome' at ended ⊢
  cases ended with
  | fail cause inBudget => exact .fail (Located.alike_fail alike cause) (by rwa [Located.cause_fail])
  | finish related moved onward paid =>
      refine .finish related (Located.alike_move alike moved) ?_ ?_
      · rwa [Located.cursor_move]
      · rwa [ahead, Located.cursor_move]

theorem lift_look {look : Reader α} {state : σ} {value : α}
    (looked : look (cursor state) = .ok (value, cursor state)) :
    (liftM look : StateT σ (Except ε) α) state = .ok (value, state) := by
  rw [Located.lift_eq, looked]
  exact congrArg (fun state => Except.ok (value, state)) (Located.move_cursor state)

theorem sees_lift {same : α → α → Prop} {look look' : Reader α} (sees : Sees same look look') :
    Sees same (liftM look : StateT σ (Except ε) α) (liftM look') := by
  intro left right alike
  obtain ⟨value, value', looked, looked', related⟩ := sees _ _ (Located.alike_cursor alike)
  exact ⟨value, value', lift_look looked, lift_look looked', related⟩

/-- Either no token is ahead, or the next tokens differ at most in their spans. -/
theorem facing_cases {left right : σ} (alike : Located.Alike left right) :
    (cursor left).peek? = none ∧ (cursor right).peek? = none ∨
      ∃ token span, Facing token span left right := by
  rcases (Located.alike_cursor alike).significant_cases with
    ⟨empty, empty'⟩ | ⟨token, span, _, _, -, -, first, first'⟩
  · exact .inl ⟨congrArg List.head? empty, congrArg List.head? empty'⟩
  · exact .inr ⟨token, span, congrArg List.head? first, congrArg List.head? first'⟩

theorem alike_advance {left right : Cursor} (alike : Token.Alike left.rest right.rest) :
    Token.Alike left.advance.rest right.advance.rest := by
  unfold Cursor.advance Cursor.significant
  rcases alike.significant_cases with ⟨empty, empty'⟩ | ⟨token, span, _, _, -, rest, first, first'⟩
  · rw [empty, empty']
    exact .nil
  · rw [first, first']
    exact rest

/-- A test that both sides pass or both fail, and that passes only before a token. -/
def Marks (look look' : StateT σ (Except ε) Bool) : Prop :=
  ∀ left right, Located.Alike left right →
    look left = .ok (false, left) ∧ look' right = .ok (false, right) ∨
      look left = .ok (true, left) ∧ look' right = .ok (true, right) ∧
        ∃ token span, Facing token span left right

theorem marks_nextIs {test : Token → Bool} (byKind : Token.ByKind test) :
    Marks (liftM (Reader.nextIs test) : StateT σ (Except ε) Bool)
      (liftM (Reader.nextIs test)) := by
  intro left right alike
  have looked : ∀ state : σ, (liftM (Reader.nextIs test) : StateT σ (Except ε) _) state =
      .ok ((cursor state).peek?.any test, state) := fun _ => lift_look rfl
  rw [looked, looked]
  rcases facing_cases alike with ⟨none_, none_'⟩ | ⟨token, span, facing⟩
  · rw [none_, none_']
    exact .inl ⟨rfl, rfl⟩
  · have passes_eq : test { token with span } = test token := byKind token span token.text
    rw [facing.1, facing.2, Option.any_some, Option.any_some, passes_eq]
    cases test token with
    | false => exact .inl ⟨rfl, rfl⟩
    | true => exact .inr ⟨rfl, rfl, token, span, facing⟩

/-- A sign right ahead has no newline before it. -/
theorem marks_rawIs {sign : Symbol} :
    Marks (liftM (Reader.rawIs (·.isSymbol sign)) : StateT σ (Except ε) Bool)
      (liftM (Reader.rawIs (·.isSymbol sign))) := by
  intro left right alike
  have looked : ∀ state : σ,
      (liftM (Reader.rawIs (·.isSymbol sign)) : StateT σ (Except ε) _) state =
        .ok ((cursor state).rest.head?.any (·.isSymbol sign), state) := fun _ => lift_look rfl
  have rests := Located.alike_cursor alike
  have passes_eq : (cursor right).rest.head?.any (·.isSymbol sign) =
      (cursor left).rest.head?.any (·.isSymbol sign) :=
    Token.ByKind.any (fun _ _ _ => rfl) rests.head?_kind.symm
  rw [looked, looked, passes_eq]
  cases passes : (cursor left).rest.head?.any (·.isSymbol sign) with
  | false => exact .inl ⟨rfl, rfl⟩
  | true =>
      refine .inr ⟨rfl, rfl, ?_⟩
      unfold Facing Cursor.peek? Cursor.significant
      generalize (cursor left).rest = row at rests passes ⊢
      generalize (cursor right).rest = row' at rests ⊢
      cases rests with
      | nil => cases passes
      | @word token span _ _ significant _ =>
          have significant' : Token.isNewline { token with span } = false := significant
          refine ⟨token, span, ?_, ?_⟩
          · rw [List.dropWhile_cons_of_neg (by simp [significant]), List.head?_cons]
          · rw [List.dropWhile_cons_of_neg (by simp [significant']), List.head?_cons]
      | line isLine _ _ => simp [Token.not_isSymbol_of_isNewline isLine] at passes

theorem Marks.lift {look look' : Reader Bool} (marks : Marks look look') :
    Marks (liftM look : StateT σ (Except ε) Bool) (liftM look') := by
  intro left right alike
  rcases marks _ _ (Located.alike_cursor alike) with ⟨looked, looked'⟩ | ⟨looked, looked', facing⟩
  · exact .inl ⟨lift_look looked, lift_look looked'⟩
  · exact .inr ⟨lift_look looked, lift_look looked', facing⟩

/-- A mark with a further condition. -/
theorem Marks.also {look look' other other' : StateT σ (Except ε) Bool} {change : Bool → Bool}
    (marks : Marks look look') (sees : Sees Eq other other') :
    Marks (do let mark ← look; let found ← other; return mark && change found)
      (do let mark ← look'; let found ← other'; return mark && change found) := by
  intro left right alike
  obtain ⟨found, _, seen, seen', rfl⟩ := sees left right alike
  rw [bind_apply, bind_apply]
  rcases marks left right alike with ⟨looked, looked'⟩ | ⟨looked, looked', facing⟩
  · rw [looked, looked']
    simp only [Except.bind, bind_apply, seen, seen', Bool.false_and]
    exact .inl ⟨rfl, rfl⟩
  · rw [looked, looked']
    simp only [Except.bind, bind_apply, seen, seen', Bool.true_and]
    cases change found with
    | false => exact .inl ⟨rfl, rfl⟩
    | true => exact .inr ⟨rfl, rfl, facing⟩

namespace AgreeWhen

variable {held : σ → σ → Prop} {room : Nat} {owes : α → Prop} {same : α → α → Prop}

theorem onPeek {next next' : Option Token → StateT σ (Except ε) α}
    (onNone : AgreeWhen held room owes same (next none) (next' none))
    (onSome : ∀ token span, AgreeWhen (Facing token span) room owes same (next (some token))
      (next' (some { token with span }))) :
    AgreeWhen held room owes same (liftM Reader.peek >>= next) (liftM Reader.peek >>= next') := by
  intro left right alike here fits
  have peeked : ∀ state : σ, (liftM Reader.peek : StateT σ (Except ε) _) state =
      .ok ((cursor state).peek?, state) := fun _ => lift_look rfl
  rw [bind_apply, bind_apply, peeked, peeked]
  rcases facing_cases alike with ⟨none_, none_'⟩ | ⟨token, span, facing⟩
  · rw [none_, none_']
    exact onNone left right alike here fits
  · rw [facing.1, facing.2]
    exact onSome token span left right alike facing fits

theorem onMark {look look' : StateT σ (Except ε) Bool}
    {next next' : Bool → StateT σ (Except ε) α} (marks : Marks look look')
    (onTrue : ∀ token span, AgreeWhen (Facing token span) room owes same (next true) (next' true))
    (onFalse : AgreeWhen held room owes same (next false) (next' false)) :
    AgreeWhen held room owes same (look >>= next) (look' >>= next') := by
  intro left right alike here fits
  rw [bind_apply, bind_apply]
  rcases marks left right alike with ⟨looked, looked'⟩ | ⟨looked, looked', token, span, facing⟩
  · rw [looked, looked']
    exact onFalse left right alike here fits
  · rw [looked, looked']
    exact onTrue token span left right alike facing fits

theorem bump {token : Token} {span : Span} :
    AgreeWhen (Facing token span) room strict Eq (liftM Reader.bump : StateT σ (Except ε) Unit)
      (liftM Reader.bump) := by
  intro left right alike facing _
  have bumped : ∀ state : σ, (liftM Reader.bump : StateT σ (Except ε) _) state =
      .ok ((), Located.move state (cursor state).advance) := fun _ => Located.lift_eq _ _
  have fewer : ahead (Located.move left (cursor left).advance) < ahead left := by
    rw [ahead, ahead, Located.cursor_move, (Cursor.tokens_eq_cons facing.1).1]
    exact Nat.lt_succ_self _
  rw [bumped, bumped]
  refine .finish rfl (Located.alike_move alike (alike_advance (Located.alike_cursor alike))) ?_ fun _ => fewer
  rw [Located.cursor_move]
  exact (cursor left).advances_advance.suffix

/-- The end of the source, or a token that is there. -/
theorem onEnd {next next' : Bool → StateT σ (Except ε) α}
    (onTrue : AgreeWhen held room owes same (next true) (next' true))
    (onFalse : ∀ token span, AgreeWhen (Facing token span) room owes same (next false) (next' false)) :
    AgreeWhen held room owes same (liftM Reader.atEnd >>= next) (liftM Reader.atEnd >>= next') := by
  intro left right alike here fits
  have looked : ∀ state : σ, (liftM Reader.atEnd : StateT σ (Except ε) _) state =
      .ok ((cursor state).peek?.isNone, state) := fun _ => lift_look rfl
  rw [bind_apply, bind_apply, looked, looked]
  rcases facing_cases alike with ⟨none_, none_'⟩ | ⟨token, span, facing⟩
  · rw [none_, none_']
    exact onTrue left right alike here fits
  · rw [facing.1, facing.2]
    exact onFalse token span left right alike facing fits

/-- A choice by whether a token was taken. -/
theorem choose {take take' : StateT σ (Except ε) Bool}
    {next next' : Bool → StateT σ (Except ε) α}
    (agree : AgreeWhen held room (· = true) Eq take take')
    (onTrue : Agree room free same (next true) (next' true))
    (onFalse : Agree room owes same (next false) (next' false)) :
    AgreeWhen held room owes same (take >>= next) (take' >>= next') := by
  refine agree.bind fun value value' related => ?_
  subst related
  cases value with
  | false => exact .inl onFalse
  | true => exact .inr ⟨rfl, onTrue.lower (Nat.sub_le room 1)⟩

/-- A token that passes one test or another is there. -/
theorem onEither {look look' other other' : StateT σ (Except ε) Bool}
    {yes yes' no no' : StateT σ (Except ε) α} (marks : Marks look look') (marks' : Marks other other')
    (onTrue : ∀ token span, AgreeWhen (Facing token span) room owes same yes yes')
    (onFalse : AgreeWhen held room owes same no no') :
    AgreeWhen held room owes same (do if (← look) || (← other) then yes else no)
      (do if (← look') || (← other') then yes' else no') := by
  refine .onMark marks (fun token span => ?_) ?_
  · refine .onMark marks' (fun token span => ?_) ?_
    · exact .surely rfl (onTrue token span)
    · exact .surely rfl (onTrue token span)
  · refine .onMark marks' (fun token span => ?_) ?_
    · exact .surely rfl (onTrue token span)
    · exact .otherwise Bool.false_ne_true onFalse

end AgreeWhen

section Tokens

variable {held : σ → σ → Prop} {room : Nat} {owes : α → Prop} {same : α → α → Prop}

open Reader

theorem agree_error {read read' : Reader α}
    (fails : ∀ left right, Token.Alike left.rest right.rest →
      ∃ error error', read left = .error error ∧ read' right = .error error' ∧
        error.cause = error'.cause ∧ error.cause ≠ .budgetExceeded) :
    AgreeWhen held room owes same (liftM read : StateT σ (Except ε) α) (liftM read') := by
  intro left right alike _ _
  obtain ⟨error, error', failed, failed', cause, inBudget⟩ := fails _ _ (Located.alike_cursor alike)
  rw [Located.lift_eq, Located.lift_eq, failed, failed']
  exact .fail (Located.alike_fail alike cause) (by rwa [Located.cause_fail])

theorem agree_unexpected {what : Expectation} :
    AgreeWhen held room owes same (liftM (unexpected what) : StateT σ (Except ε) α)
      (liftM (unexpected what)) := by
  refine agree_error fun left right alike => ?_
  rw [unexpected, peek_bind, peek_bind]
  rcases facing_cases (show Located.Alike left right from alike) with
    ⟨none_, none_'⟩ | ⟨token, span, facing, facing'⟩
  · rw [show left.peek? = none from none_, show right.peek? = none from none_']
    exact ⟨_, _, rfl, rfl, rfl, by simp⟩
  · rw [show left.peek? = _ from facing, show right.peek? = _ from facing']
    exact ⟨_, _, rfl, rfl, rfl, by simp⟩

theorem agree_bump : Agree room free Eq (liftM bump : StateT σ (Except ε) Unit) (liftM bump) := by
  refine agree_lift fun left right alike _ _ => ?_
  exact .finish rfl (alike_advance alike) left.advances_advance.suffix False.elim

theorem agree_takeIf {test : Token → Bool} (byKind : Token.ByKind test) :
    Agree room (· = true) Eq (do if ← nextIs test then bump; return true else return false : Reader Bool)
      (do if ← nextIs test then bump; return true else return false) := by
  refine .onMark (marks_nextIs byKind) (fun token span => ?_) (.idle rfl Bool.false_ne_true)
  exact AgreeWhen.bump.returning fun _ _ _ => rfl

theorem agree_eat {sign : Symbol} :
    Agree room (· = true) Eq (liftM (eat sign) : StateT σ (Except ε) Bool) (liftM (eat sign)) :=
  agree_lift (agree_takeIf fun _ _ _ => rfl)

theorem agree_eatWord {word : Keyword} :
    Agree room (· = true) Eq (liftM (eatWord word) : StateT σ (Except ε) Bool)
      (liftM (eatWord word)) :=
  agree_lift (agree_takeIf fun _ _ _ => rfl)

theorem agree_expectThat {what : Expectation} {test : Token → Bool} (byKind : Token.ByKind test) :
    Agree room strict Token.Respans (expectThat what test) (expectThat what test) := by
  refine .onPeek agree_unexpected fun token span => ?_
  have passes_eq : test { token with span } = test token := byKind token span token.text
  dsimp only
  rw [passes_eq]
  exact .ite (AgreeWhen.bump.returning fun _ _ _ => ⟨span, rfl⟩) agree_unexpected

theorem agree_expect {sign : Symbol} :
    Agree room strict whatever (liftM (expect sign) : StateT σ (Except ε) Span)
      (liftM (expect sign)) :=
  agree_lift ((agree_expectThat fun _ _ _ => rfl).returning fun _ _ _ => trivial)

theorem agree_expectWord {word : Keyword} :
    Agree room strict whatever (liftM (expectWord word) : StateT σ (Except ε) Span)
      (liftM (expectWord word)) :=
  agree_lift ((agree_expectThat fun _ _ _ => rfl).returning fun _ _ _ => trivial)

theorem agree_expectName :
    Agree room strict SameBut (liftM expectName : StateT σ (Except ε) _) (liftM expectName) :=
  agree_lift ((agree_expectThat fun _ _ _ => rfl).returning fun _ _ same =>
    same.eq Token.text fun _ _ => rfl)

theorem byKind_propertyName? : Token.ByKind fun token => (propertyName? token).isSome := by
  intro token span text
  obtain ⟨kind, _, _⟩ := token
  cases kind <;> rfl

theorem agree_expectPropertyName :
    Agree room strict SameBut (liftM expectPropertyName : StateT σ (Except ε) _)
      (liftM expectPropertyName) :=
  agree_lift ((agree_expectThat byKind_propertyName?).returning fun _ _ same =>
    same.eq (fun token => (propertyName? token).getD "") fun _ _ => rfl)

theorem agree_skipBalanced {openSign closeSign : Symbol} :
    Agree room strict Eq (liftM (skipBalanced openSign closeSign) : StateT σ (Except ε) Unit)
      (liftM (skipBalanced openSign closeSign)) := by
  refine agree_lift (agree_expect.paidAs fun _ _ _ => ?_)
  intro left right alike _ _
  rw [get_bind, get_bind]
  have ends := Token.Alike.closeGroup alike openSign closeSign 1
  cases closes : Cursor.closeGroup openSign closeSign 1 left.rest with
  | found token behind =>
      rw [closes] at ends
      generalize Cursor.closeGroup openSign closeSign 1 right.rest = closing at ends ⊢
      cases ends with
      | found span rest => exact .finish rfl rest (Cursor.advances_closeGroup closes).suffix False.elim
  | missing =>
      rw [closes] at ends
      generalize Cursor.closeGroup openSign closeSign 1 right.rest = closing at ends ⊢
      cases ends with
      | missing => exact .fail rfl (by simp)
  | underflow => exact absurd closes (Cursor.closeGroup_ne_underflow Nat.one_pos)

/-- What stands behind a group in parentheses is looked at only. -/
theorem AgreeWhen.onBehindParens {row row' : List Token} (rows : Token.Alike row row')
    {next next' : Option Token → StateT σ (Except ε) α}
    (rest : ∀ found found', found.map Token.kind = found'.map Token.kind →
      AgreeWhen held room owes same (next found) (next' found')) :
    AgreeWhen held room owes same (liftM (behindParens row) >>= next) (liftM (behindParens row') >>= next') := by
  intro left right alike here fits
  have ends := rows.closeGroup .parenOpen .parenClose 0
  rw [bind_apply, bind_apply, behindParens, behindParens]
  generalize Cursor.closeGroup .parenOpen .parenClose 0 row = closing at ends ⊢
  generalize Cursor.closeGroup .parenOpen .parenClose 0 row' = closing' at ends ⊢
  cases ends with
  | found span behind =>
      rw [lift_look rfl, lift_look rfl]
      exact rest _ _ (behind.nthOf_kind 0) left right alike here fits
  | missing =>
      rw [lift_look rfl, lift_look rfl]
      exact rest _ _ rfl left right alike here fits
  | underflow =>
      rw [Located.lift_eq, Located.lift_eq]
      exact .fail (Located.alike_fail alike rfl) (by simp [Located.cause_fail])

theorem sees_nextIs {test : Token → Bool} (byKind : Token.ByKind test) :
    Sees Eq (liftM (nextIs test) : StateT σ (Except ε) Bool) (liftM (nextIs test)) := by
  refine sees_lift fun left right alike => ⟨_, _, rfl, rfl, ?_⟩
  have rests := Token.Alike.dropWhile alike
  exact byKind.any rests.head?_kind

theorem sees_nthIs {n : Nat} {test : Token → Bool} (byKind : Token.ByKind test) :
    Sees Eq (liftM (nthIs n test) : StateT σ (Except ε) Bool) (liftM (nthIs n test)) :=
  sees_lift fun _ _ alike => ⟨_, _, rfl, rfl, byKind.any (Token.Alike.nthOf_kind alike n)⟩

theorem sees_get : Sees (fun left right : Cursor => Token.Alike left.rest right.rest) (get : Reader Cursor) get :=
  fun left right alike => ⟨left, right, rfl, rfl, alike⟩

theorem sees_lastEnd : Sees whatever (liftM lastEnd : StateT σ (Except ε) Nat) (liftM lastEnd) :=
  sees_lift fun _ _ _ => ⟨_, _, rfl, rfl, trivial⟩

theorem sees_nextStart :
    Sees whatever (liftM nextStart : StateT σ (Except ε) Nat) (liftM nextStart) :=
  sees_lift fun _ _ _ => ⟨_, _, rfl, rfl, trivial⟩

end Tokens

namespace Sees

variable {look look' : StateT σ (Except ε) α} {next next' : α → StateT σ (Except ε) β}
  {same : α → α → Prop} {same' : β → β → Prop}

theorem done (value : α) : Sees Eq (pure value : StateT σ (Except ε) α) (pure value) :=
  fun _ _ _ => ⟨value, value, rfl, rfl, rfl⟩

theorem bind (first : Sees Eq look look') (rest : ∀ value, Sees same' (next value) (next' value)) :
    Sees same' (look >>= next) (look' >>= next') := by
  intro left right alike
  obtain ⟨value, value', looked, looked', rfl⟩ := first left right alike
  obtain ⟨result, result', ran, ran', related⟩ := rest value left right alike
  refine ⟨result, result', ?_, ?_, related⟩
  · rw [bind_apply, looked]
    exact ran
  · rw [bind_apply, looked']
    exact ran'

theorem ite {condition : Prop} [Decidable condition] {other other' : StateT σ (Except ε) α}
    (onTrue : Sees same look look') (onFalse : Sees same other other') :
    Sees same (if condition then look else other) (if condition then look' else other') := by
  split
  · exact onTrue
  · exact onFalse

end Sees

/-! ## Loops -/

def Turn.GoesOn : Turn α → Prop
  | .stop => False
  | .last _ => False
  | .more _ => True

def Found : Option α → Prop
  | none => False
  | some _ => True

section Loops

variable {held : σ → σ → Prop} {room : Nat} {turn turn' : StateT σ (Except ε) (Turn α)}
  {step step' : α → StateT σ (Except ε) (Option α)}
  {item item' : StateT σ (Except ε) α}

/-- A loop with enough turns on both sides for the tokens ahead. -/
theorem agree_within {owes : α → Prop} {same : α → α → Prop}
    {loop loop' : Nat → StateT σ (Except ε) α}
    (agree : ∀ count ≤ room, ∀ budget budget', count ≤ budget → count ≤ budget' →
      Agree count owes same (loop budget) (loop' budget')) :
    Agree room owes same (do loop ((← liftM Reader.remaining) + 1))
      (do loop' ((← liftM Reader.remaining) + 1)) := by
  intro left right alike _ fits
  have counted : ∀ state : σ, (liftM Reader.remaining : StateT σ (Except ε) _) state =
      .ok ((cursor state).rest.length, state) := fun _ => lift_look rfl
  have enough : ∀ state : σ, ahead state ≤ (cursor state).rest.length := fun state =>
    List.length_filter_le _ _
  have same : ahead left = ahead right := (Located.alike_cursor alike).length_filter
  rw [bind_apply, bind_apply, counted, counted]
  refine agree (ahead left + 1) fits _ _ ?_ ?_ left right alike trivial (Nat.lt_succ_self _)
  · exact Nat.succ_le_succ (enough left)
  · exact Nat.succ_le_succ (same ▸ enough right)

theorem agree_collect (agree : Agree room Turn.GoesOn Eq turn turn') :
    Agree room free Eq (collect turn) (collect turn') := by
  refine agree_within fun count fits => ?_
  induction count with
  | zero => exact fun _ _ _ _ => .noRoom
  | succ count ih =>
      intro budget budget' enough enough'
      cases budget with
      | zero => omega
      | succ budget =>
          cases budget' with
          | zero => omega
          | succ budget' =>
              have rest := ih (by omega) budget budget' (by omega) (by omega)
              refine (agree.lower fits).bind fun outcome outcome' related => ?_
              subst related
              cases outcome with
              | stop => exact .inl (.done rfl)
              | last item => exact .inl (.done rfl)
              | more item => exact .inr ⟨trivial, rest.andThen fun _ => .done rfl⟩

theorem agree_grow (agree : ∀ value, Agree room Found Eq (step value) (step' value)) (value : α) :
    Agree room free Eq (grow step value) (grow step' value) := by
  refine @agree_within _ _ _ _ _ _ _ _ (growWithin step · value) (growWithin step' · value) fun count fits => ?_
  induction count generalizing value with
  | zero => exact fun _ _ _ _ => .noRoom
  | succ count ih =>
      intro budget budget' enough enough'
      cases budget with
      | zero => omega
      | succ budget =>
          cases budget' with
          | zero => omega
          | succ budget' =>
              have rest := fun value => ih value (by omega) budget budget' (by omega) (by omega)
              refine ((agree value).lower fits).bind fun found found' related => ?_
              subst related
              cases found with
              | none => exact .inl (.done rfl)
              | some value => exact .inr ⟨trivial, rest value⟩

theorem agree_commaBehind (value : α) :
    Agree room Turn.GoesOn Eq
      (do if ← Reader.eat .comma then return Turn.more (some value) else return Turn.last value :
        StateT σ (Except ε) (Turn α))
      (do if ← Reader.eat .comma then return Turn.more (some value) else return Turn.last value) := by
  exact agree_eat.choose (.done rfl) (.idle rfl id)

theorem agree_commaSeparated (agree : Agree room free Eq item item') :
    Agree room free Eq (commaSeparated item) (commaSeparated item') :=
  agree_collect (agree.andThen agree_commaBehind)

theorem agree_commaList {close : Symbol} (agree : Agree room free Eq item item') :
    Agree room free Eq (commaList close item) (commaList close item') :=
  agree_collect (.see (sees_nextIs fun _ _ _ => rfl) fun _ =>
    .ite (.idle rfl id) (agree.andThen agree_commaBehind))

theorem agree_holedList {close : Symbol} (agree : Agree room free Eq item item') :
    Agree room free Eq (holedList close item) (holedList close item') := by
  refine agree_collect (.see (sees_nextIs fun _ _ _ => rfl) fun _ => .ite (.idle rfl id) ?_)
  exact agree_eat.choose (.done rfl) (agree.andThen agree_commaBehind)

theorem agree_bracedItems {item item' : StateT σ (Except ε) (Option α)}
    (agree : Agree room strict Eq item item') :
    Agree room free Eq (bracedItems item) (bracedItems item') := by
  refine agree_collect (.see (sees_nextIs fun _ _ _ => rfl) fun _ => .ite (.idle rfl id) ?_)
  refine .onEnd agree_unexpected fun _ _ => ?_
  exact AgreeWhen.at_ (agree.returning fun _ _ => congrArg Turn.more)

theorem agree_some (agree : Agree room strict Eq item item') :
    Agree room strict Eq (some <$> item) (some <$> item') :=
  agree.returning fun _ _ => congrArg some

end Loops

end

/-! ## Building -/

section Building

variable {α : Type} {held : Draft → Draft → Prop} {room : Nat} {owes : α → Prop}

open Builder

theorem agree_alloc {kind : NodeKind} {span span' : Span} :
    AgreeWhen held room free Eq (alloc kind span) (alloc kind span') := by
  intro left right alike _ _
  have sizes : left.nodes.size = right.nodes.size := by
    simpa using congrArg Array.size alike.2
  refine .finish sizes ⟨alike.1, ?_⟩ List.suffix_rfl False.elim
  rw [Array.map_push, Array.map_push, alike.2]

/-- Nodes of the same kinds are found by the same numbers. -/
theorem AgreeWhen.onNode {β : Type} {id : Nat} {owes : β → Prop} {same : β → β → Prop}
    {next next' : Node → Builder β} (rest : ∀ node node', AgreeWhen held room owes same (next node) (next' node')) :
    AgreeWhen held room owes same (nodeOf id >>= next) (nodeOf id >>= next') := by
  intro left right alike here fits
  have sizes : left.nodes.size = right.nodes.size := by
    simpa using congrArg Array.size alike.2
  rw [bind_apply, bind_apply]
  by_cases inside : id < left.nodes.size
  · rw [nodeOf_eq inside, nodeOf_eq (sizes ▸ inside)]
    exact rest _ _ left right alike here fits
  · rw [nodeOf_error inside, nodeOf_error (sizes ▸ inside)]
    exact .fail ⟨rfl, alike.2⟩ nofun

theorem AgreeWhen.onSpan {β : Type} {id : Nat} {owes : β → Prop} {same : β → β → Prop}
    {next next' : Span → Builder β} (rest : ∀ span span', AgreeWhen held room owes same (next span) (next' span')) :
    AgreeWhen held room owes same (spanOf id >>= next) (spanOf id >>= next') := by
  rw [spanOf, bind_assoc, bind_assoc]
  exact .onNode fun node node' => rest node.span node'.span

/-- A node whose span comes from that of another one. -/
theorem agree_node {kind : NodeKind} {id : Nat} {place place' : Span → Span} :
    AgreeWhen held room free Eq (do alloc kind (place (← spanOf id)))
      (do alloc kind (place' (← spanOf id))) :=
  .onSpan fun _ _ => agree_alloc

theorem agree_allocFrom {kind : NodeKind} {start start' : Nat} :
    AgreeWhen held room free Eq (allocFrom kind start) (allocFrom kind start') :=
  .look sees_lastEnd fun _ _ _ => agree_alloc

theorem kind_ascribed_congr {ascription : Nat} {node node' : Node} (same : node.kind = node'.kind) :
    (ascribed ascription node).kind = (ascribed ascription node').kind := by
  unfold ascribed
  rw [← same]
  cases node.kind with
  | identifier name _ => rfl
  | _ => exact same

theorem agree_ascribe {id ascription : Nat} :
    AgreeWhen held room free Eq (ascribe id ascription) (ascribe id ascription) := by
  refine .onNode fun _ _ left right alike _ _ => ?_
  refine .finish rfl ⟨alike.1, ?_⟩ List.suffix_rfl False.elim
  change (left.nodes.modify id (ascribed ascription)).map Node.kind =
    (right.nodes.modify id (ascribed ascription)).map Node.kind
  apply Array.ext_getElem?
  intro other
  have stored := congrArg (fun kinds : Array NodeKind => kinds[other]?) alike.2
  simp only [Array.getElem?_map, Array.getElem?_modify] at stored ⊢
  split
  · cases found : left.nodes[other]? with
    | none =>
        rw [found] at stored
        rw [Option.map_eq_none_iff.mp stored.symm]
    | some node =>
        rw [found] at stored
        obtain ⟨node', found', kind_eq⟩ := Option.map_eq_some_iff.mp stored.symm
        rw [found']
        exact congrArg some (kind_ascribed_congr kind_eq.symm)
  · exact stored

/-- As many nodes of the same kinds are left. -/
theorem map_kind_take {nodes nodes' kept kept' : Array Node} (alike : nodes.map Node.kind = nodes'.map Node.kind)
    (keptAlike : kept.map Node.kind = kept'.map Node.kind) :
    (nodes.take kept.size).map Node.kind = (nodes'.take kept'.size).map Node.kind := by
  have sizes : kept.size = kept'.size := by simpa using congrArg Array.size keptAlike
  rw [Array.take_eq_extract, Array.take_eq_extract, Array.map_extract, Array.map_extract, alike, sizes]

theorem agree_discarding {build build' : Builder α} (agree : Agree room owes Eq build build') :
    Agree room free Eq (discarding build) (discarding build') := by
  intro left right alike _ fits
  refine (agree left right alike trivial fits).bind fun _ _ after after' _ alike' onward _ => ?_
  exact .finish rfl ⟨alike'.1, map_kind_take alike'.2 alike.2⟩ onward False.elim

/-- A failure on one side is a failure on the other. -/
theorem agree_attempt {build build' : Builder α} (agree : Agree room strict Eq build build') :
    Agree room Found Eq (attempt build) (attempt build') := by
  intro left right alike _ fits
  have ended := agree left right alike trivial fits
  rw [attempt, attempt]
  generalize build left = outcome at ended ⊢
  generalize build' right = outcome' at ended ⊢
  cases ended with
  | fail failAlike inBudget =>
      obtain ⟨cause, kinds⟩ := failAlike
      dsimp only
      rw [← cause]
      split
      · exact .fail ⟨cause, kinds⟩ inBudget
      · exact .finish rfl ⟨alike.1, map_kind_take kinds alike.2⟩ List.suffix_rfl False.elim
  | finish related alike onward paid => exact .finish (congrArg some related) alike onward paid

theorem sees_draft :
    Sees (fun left right : Draft => Token.Alike left.cursor.rest right.cursor.rest) (get : Builder Draft) get :=
  fun left right alike => ⟨left, right, rfl, rfl, alike.1⟩

end Building

end Heed
