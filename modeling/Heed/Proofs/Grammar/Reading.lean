import Heed.Grammar.TypeSyntax

/-!
# How readers move a cursor

Whatever a reader does, it moves its cursor forward over tokens, where newlines do not count, or it refuses
what stands there; it never asks for what is not there, and what it refuses is a token ahead or the end of the
source. `Takes false` says just that, and `Takes true` that it moves over at least one token. Each reader gets
its rule from the rules of its parts, type syntax included: a type is never empty.
-/

set_option autoImplicit false

namespace Heed

section Runs

variable {σ ε α β : Type}

theorem bind_ok {run : StateT σ (Except ε) α} {next : α → StateT σ (Except ε) β} {state after : σ}
    {value : β} (success : (run >>= next) state = .ok (value, after)) :
    ∃ first middle, run state = .ok (first, middle) ∧ next first middle = .ok (value, after) := by
  change (run state).bind (fun pair => next pair.1 pair.2) = .ok (value, after) at success
  cases outcome : run state with
  | error error => simp [outcome, Except.bind] at success
  | ok pair =>
      rw [outcome] at success
      exact ⟨pair.1, pair.2, rfl, success⟩

theorem bind_error {run : StateT σ (Except ε) α} {next : α → StateT σ (Except ε) β} {state : σ} {error : ε}
    (failed : (run >>= next) state = .error error) :
    run state = .error error ∨ ∃ first middle, run state = .ok (first, middle) ∧ next first middle = .error error := by
  change (run state).bind (fun pair => next pair.1 pair.2) = .error error at failed
  cases outcome : run state with
  | error other =>
      rw [outcome] at failed
      exact .inl (congrArg Except.error (Except.error.inj failed))
  | ok pair =>
      rw [outcome] at failed
      exact .inr ⟨pair.1, pair.2, rfl, failed⟩

theorem pure_ok {value result : α} {state after : σ}
    (success : (pure value : StateT σ (Except ε) α) state = .ok (result, after)) :
    value = result ∧ state = after :=
  Prod.mk.inj (Except.ok.inj success)

theorem get_bind (see : σ → StateT σ (Except ε) α) (state : σ) : (get >>= see) state = see state state := rfl

end Runs

def endOf (before : Nat) (taken : List Token) : Nat :=
  taken.foldl (fun _ token => token.span.stop) before

namespace Cursor

def tokens (cursor : Cursor) : List Token := cursor.rest.filter fun token => !token.isNewline

theorem filter_dropWhile_newline (rest : List Token) :
    rest.filter (fun token => !token.isNewline) =
      (rest.dropWhile Token.isNewline).filter fun token => !token.isNewline := by
  induction rest with
  | nil => rfl
  | cons token rest ih =>
      rw [List.dropWhile_cons]
      split
      case isTrue newline => simpa [newline] using ih
      case isFalse => rfl

/-- Either no token is ahead, or the next one is taken. -/
theorem advance_cases (cursor : Cursor) :
    (cursor.peek? = none ∧ cursor.tokens = [] ∧ cursor.advance.tokens = [] ∧
        cursor.advance.lastEnd = cursor.lastEnd) ∨
      ∃ token, cursor.peek? = some token ∧ cursor.tokens = token :: cursor.advance.tokens ∧
        cursor.advance.lastEnd = token.span.stop := by
  have tokens_eq : cursor.tokens = cursor.significant.filter fun token => !token.isNewline :=
    filter_dropWhile_newline cursor.rest
  have newline := List.head?_dropWhile_not Token.isNewline cursor.rest
  rw [← significant] at newline
  unfold advance peek?
  rw [tokens_eq]
  cases ahead : cursor.significant with
  | nil => exact .inl ⟨rfl, rfl, rfl, rfl⟩
  | cons token behind =>
      have significant : token.isNewline = false := by simpa [ahead] using newline
      exact .inr ⟨token, rfl, by simp [significant, tokens], rfl⟩

theorem tokens_eq_nil {cursor : Cursor} (none_ : cursor.peek? = none) : cursor.tokens = [] := by
  rcases cursor.advance_cases with ⟨-, empty, -⟩ | ⟨token, ahead, -⟩
  · exact empty
  · simp [none_] at ahead

theorem tokens_eq_cons {cursor : Cursor} {token : Token} (next : cursor.peek? = some token) :
    cursor.tokens = token :: cursor.advance.tokens ∧ cursor.advance.lastEnd = token.span.stop := by
  rcases cursor.advance_cases with ⟨none_, -⟩ | ⟨other, ahead, rest⟩
  · simp [next] at none_
  · cases Option.some.inj (ahead.symm.trans next)
    exact rest

/-- Further on in the same source. -/
structure Onward (before after : Cursor) : Prop where
  rest : after.rest <:+ before.rest
  sourceEnd_eq : after.sourceEnd = before.sourceEnd

theorem Onward.refl (cursor : Cursor) : Onward cursor cursor := ⟨List.suffix_rfl, rfl⟩

theorem Onward.trans {first second third : Cursor} (left : Onward first second) (right : Onward second third) :
    Onward first third :=
  ⟨right.rest.trans left.rest, right.sourceEnd_eq.trans left.sourceEnd_eq⟩

/-- Reading on over tokens, at least one if the reading is strict. -/
structure Advances (strict : Bool) (before after : Cursor) : Prop where
  onward : before.Onward after
  taken : ∃ taken, before.tokens = taken ++ after.tokens ∧ after.lastEnd = endOf before.lastEnd taken ∧
    (strict = true → taken ≠ [])

namespace Advances

variable {strict strict' : Bool} {first second third : Cursor}

theorem refl (cursor : Cursor) : Advances false cursor cursor :=
  ⟨.refl cursor, [], rfl, rfl, by simp⟩

theorem trans (left : Advances strict first second) (right : Advances strict' second third) :
    Advances (strict || strict') first third := by
  obtain ⟨onward, taken, tokens_eq, lastEnd_eq, some⟩ := left
  obtain ⟨onward', taken', tokens_eq', lastEnd_eq', some'⟩ := right
  refine ⟨onward.trans onward', taken ++ taken', ?_, ?_, ?_⟩
  · rw [tokens_eq, tokens_eq', List.append_assoc]
  · rw [lastEnd_eq', lastEnd_eq, endOf, endOf, endOf, List.foldl_append]
  · intro either
    rcases Bool.or_eq_true _ _ ▸ either with is | is
    · exact List.append_ne_nil_of_left_ne_nil (some is) taken'
    · exact List.append_ne_nil_of_right_ne_nil taken (some' is)

theorem weaken (advances : Advances strict first second) : Advances false first second := by
  obtain ⟨onward, taken, tokens_eq, lastEnd_eq, -⟩ := advances
  exact ⟨onward, taken, tokens_eq, lastEnd_eq, by simp⟩

theorem relax (advances : Advances true first second) : Advances strict first second := by
  cases strict with
  | true => exact advances
  | false => exact advances.weaken

end Advances

theorem advance_suffix (cursor : Cursor) : cursor.advance.rest <:+ cursor.rest := by
  have dropped : cursor.significant <:+ cursor.rest := List.dropWhile_suffix _
  unfold advance
  split
  case h_1 => exact List.nil_suffix
  case h_2 token behind ahead =>
      rw [ahead] at dropped
      exact (List.suffix_cons token behind).trans dropped

theorem onward_advance (cursor : Cursor) : cursor.Onward cursor.advance := by
  refine ⟨cursor.advance_suffix, ?_⟩
  unfold advance
  split <;> rfl

theorem advances_of_peek? {cursor : Cursor} {token : Token} (next : cursor.peek? = some token) :
    Advances true cursor cursor.advance := by
  obtain ⟨tokens_eq, lastEnd_eq⟩ := tokens_eq_cons next
  exact ⟨cursor.onward_advance, [token], tokens_eq, lastEnd_eq, by simp⟩

theorem advances_advance (cursor : Cursor) : Advances false cursor cursor.advance := by
  rcases cursor.advance_cases with ⟨-, empty, empty', lastEnd_eq⟩ | ⟨token, next, -⟩
  · exact ⟨cursor.onward_advance, [], by simp [empty, empty'], lastEnd_eq, by simp⟩
  · exact (advances_of_peek? next).weaken

theorem advances_advanceRaw (cursor : Cursor) : Advances false cursor cursor.advanceRaw := by
  unfold advanceRaw
  split
  case h_1 => exact .refl cursor
  case h_2 token behind ahead =>
      have suffix : behind <:+ cursor.rest := ahead ▸ List.suffix_cons token behind
      cases newline : token.isNewline with
      | true => exact ⟨⟨suffix, rfl⟩, [], by simp [tokens, ahead, newline], rfl, by simp⟩
      | false => exact ⟨⟨suffix, rfl⟩, [token], by simp [tokens, ahead, newline], rfl, by simp⟩

section Groups

variable {openSign closeSign : Symbol} {depth : Nat} {token : Token} {rest : List Token}

theorem closeGroup_of_open (opens : token.isSymbol openSign = true) :
    closeGroup openSign closeSign depth (token :: rest) = closeGroup openSign closeSign (depth + 1) rest := by
  rw [closeGroup.eq_def]
  exact if_pos opens

theorem closeGroup_of_other (opens : ¬ token.isSymbol openSign = true)
    (closes : ¬ token.isSymbol closeSign = true) :
    closeGroup openSign closeSign depth (token :: rest) = closeGroup openSign closeSign depth rest := by
  rw [closeGroup.eq_def]
  exact (if_neg opens).trans (if_neg closes)

theorem closeGroup_zero_of_close (opens : ¬ token.isSymbol openSign = true)
    (closes : token.isSymbol closeSign = true) :
    closeGroup openSign closeSign 0 (token :: rest) = .underflow := by
  rw [closeGroup.eq_def]
  exact (if_neg opens).trans (if_pos closes)

theorem closeGroup_one_of_close (opens : ¬ token.isSymbol openSign = true)
    (closes : token.isSymbol closeSign = true) :
    closeGroup openSign closeSign 1 (token :: rest) = .found token rest := by
  rw [closeGroup.eq_def]
  exact (if_neg opens).trans (if_pos closes)

theorem closeGroup_succ_of_close (opens : ¬ token.isSymbol openSign = true)
    (closes : token.isSymbol closeSign = true) :
    closeGroup openSign closeSign (depth + 2) (token :: rest) =
      closeGroup openSign closeSign (depth + 1) rest := by
  rw [closeGroup.eq_def]
  exact (if_neg opens).trans (if_pos closes)

end Groups

/-- A group ends with its sign. -/
theorem closeGroup_eq_found {openSign closeSign : Symbol} {depth : Nat} {tokens behind : List Token}
    {token : Token} (closes : closeGroup openSign closeSign depth tokens = .found token behind) :
    ∃ inner, tokens = inner ++ token :: behind ∧ token.isSymbol closeSign = true := by
  fun_induction closeGroup openSign closeSign depth tokens with
  | case1 => cases closes
  | case2 depth first rest _ ih =>
      obtain ⟨inner, rfl, isClose⟩ := ih closes
      exact ⟨first :: inner, rfl, isClose⟩
  | case3 => cases closes
  | case4 first rest _ isClose =>
      obtain ⟨rfl, rfl⟩ := Closing.found.inj closes
      exact ⟨[], rfl, isClose⟩
  | case5 first rest _ _ depth ih =>
      obtain ⟨inner, rfl, isClose⟩ := ih closes
      exact ⟨first :: inner, rfl, isClose⟩
  | case6 depth first rest _ _ ih =>
      obtain ⟨inner, rfl, isClose⟩ := ih closes
      exact ⟨first :: inner, rfl, isClose⟩

/-- No group is closed that was not opened, where one is open to begin with. -/
theorem closeGroup_ne_underflow {openSign closeSign : Symbol} {depth : Nat} {tokens : List Token}
    (isOpen : 0 < depth) : closeGroup openSign closeSign depth tokens ≠ .underflow := by
  fun_induction closeGroup openSign closeSign depth tokens with
  | case1 => exact Closing.noConfusion
  | case2 depth first rest _ ih => exact ih (Nat.succ_pos depth)
  | case3 => exact absurd isOpen (Nat.lt_irrefl 0)
  | case4 => exact Closing.noConfusion
  | case5 first rest _ _ depth ih => exact ih (Nat.succ_pos depth)
  | case6 depth first rest _ _ ih => exact ih isOpen

theorem closeGroup_cons_ne_underflow {openSign closeSign : Symbol} {token : Token} {rest : List Token}
    (opens : token.isSymbol openSign = true) :
    closeGroup openSign closeSign 0 (token :: rest) ≠ .underflow := by
  rw [closeGroup_of_open opens]
  exact closeGroup_ne_underflow (Nat.succ_pos 0)

theorem advances_closeGroup {cursor : Cursor} {openSign closeSign : Symbol} {depth : Nat} {token : Token}
    {behind : List Token}
    (closes : closeGroup openSign closeSign depth cursor.rest = .found token behind) :
    Advances false cursor { cursor with rest := behind, lastEnd := token.span.stop } := by
  obtain ⟨inner, rest_eq, isClose⟩ := closeGroup_eq_found closes
  have significant : token.isNewline = false := by
    simp [Token.isNewline, eq_of_beq isClose]
  have suffix : behind <:+ cursor.rest := ⟨inner ++ [token], by simp [rest_eq]⟩
  refine ⟨⟨suffix, rfl⟩, inner.filter (fun token => !token.isNewline) ++ [token], ?_, ?_, by simp⟩
  · simp [tokens, rest_eq, significant]
  · simp [endOf]

/-- A span that a cursor looks at: that of a token ahead, or the end of the source. -/
def InSight (cursor : Cursor) (span : Span) : Prop :=
  (∃ token ∈ cursor.rest, span = token.span) ∨ span = .point cursor.sourceEnd

theorem inSight_of_peek? {cursor : Cursor} {token : Token} (next : cursor.peek? = some token) :
    cursor.InSight token.span := by
  have listed : token ∈ cursor.significant := List.mem_of_head? next
  exact .inl ⟨token, (List.dropWhile_suffix _).subset listed, rfl⟩

/-- What comes in sight further on was in sight before. -/
theorem InSight.back {before after : Cursor} {span : Span} (inSight : after.InSight span)
    (onward : before.Onward after) : before.InSight span := by
  rcases inSight with ⟨token, listed, span_eq⟩ | span_eq
  · exact .inl ⟨token, onward.rest.subset listed, span_eq⟩
  · exact .inr (by rw [span_eq, onward.sourceEnd_eq])

end Cursor

namespace Reader

variable {α β : Type}

/-- A run moves its cursor forward, or it fails for what stands there. -/
def Steps (strict : Bool) (cursor : Cursor) : Except SyntaxError (α × Cursor) → Prop
  | .ok (_, after) => cursor.Advances strict after
  | .error error => error.cause ≠ .outOfRange ∧ cursor.InSight error.span

/-- Every run of a reader is a step forward. -/
def Takes (strict : Bool) (read : Reader α) : Prop := ∀ cursor, Steps strict cursor (read cursor)

def TakesAt (token : Token) (strict : Bool) (read : Reader α) : Prop :=
  ∀ cursor, cursor.peek? = some token → Steps strict cursor (read cursor)

/-- A reader that always succeeds and leaves the cursor where it is. -/
def Looks (read : Reader α) : Prop := ∀ cursor, ∃ value, read cursor = .ok (value, cursor)

theorem looks_nthIs (n : Nat) (test : Token → Bool) : Looks (nthIs n test) := fun _ => ⟨_, rfl⟩

theorem Looks.done (value : α) : Looks (pure value : Reader α) := fun _ => ⟨value, rfl⟩

theorem Looks.bind {read : Reader α} {next : α → Reader β} (first : read.Looks)
    (rest : ∀ value, (next value).Looks) : Looks (read >>= next) := by
  intro cursor
  obtain ⟨value, looked⟩ := first cursor
  obtain ⟨result, returned⟩ := rest value cursor
  refine ⟨result, ?_⟩
  change (read cursor).bind (fun pair => next pair.1 pair.2) = _
  rw [looked]
  exact returned

theorem Looks.takes {read : Reader α} (looks : read.Looks) : read.Takes false := by
  intro cursor
  obtain ⟨value, success⟩ := looks cursor
  rw [success]
  exact .refl cursor

namespace Steps

variable {strict strict' : Bool} {cursor : Cursor} {outcome : Except SyntaxError (α × Cursor)}

theorem weaken (steps : Steps strict cursor outcome) : Steps false cursor outcome := by
  cases outcome with
  | ok pair => exact Cursor.Advances.weaken steps
  | error error => exact steps

theorem relax (steps : Steps true cursor outcome) : Steps strict cursor outcome := by
  cases outcome with
  | ok pair => exact Cursor.Advances.relax steps
  | error error => exact steps

theorem bind {read : Reader α} {next : α → Reader β} (first : Steps strict cursor (read cursor))
    (rest : ∀ value middle, read cursor = .ok (value, middle) → Steps strict' middle (next value middle)) :
    Steps (strict || strict') cursor ((read >>= next) cursor) := by
  change Steps _ cursor ((read cursor).bind fun pair => next pair.1 pair.2)
  cases outcome : read cursor with
  | error error =>
      rw [outcome] at first
      exact first
  | ok pair =>
      rw [outcome] at first
      have second := rest pair.1 pair.2 outcome
      change Steps _ cursor (next pair.1 pair.2)
      cases continued : next pair.1 pair.2 with
      | error error =>
          rw [continued] at second
          exact ⟨second.1, second.2.back first.onward⟩
      | ok last =>
          rw [continued] at second
          exact Cursor.Advances.trans first second

end Steps

namespace Takes

variable {strict : Bool} {read : Reader α} {next : α → Reader β}

theorem moves (takes : Takes strict read) {cursor after : Cursor} {value : α}
    (success : read cursor = .ok (value, after)) : cursor.Advances strict after := by
  have steps := takes cursor
  rw [success] at steps
  exact steps

theorem sound (takes : Takes strict read) {cursor : Cursor} {error : SyntaxError}
    (failed : read cursor = .error error) : error.cause ≠ .outOfRange ∧ cursor.InSight error.span := by
  have steps := takes cursor
  rw [failed] at steps
  exact steps

theorem weaken (takes : Takes strict read) : Takes false read := fun cursor => (takes cursor).weaken

theorem at_ (takes : Takes strict read) (token : Token) : TakesAt token strict read := fun cursor _ => takes cursor

theorem bind {strict' : Bool} (first : Takes strict read) (rest : ∀ value, Takes strict' (next value)) :
    Takes (strict || strict') (read >>= next) :=
  fun cursor => (first cursor).bind fun value middle _ => rest value middle

/-- What comes first takes a token. -/
theorem first (first : Takes true read) (rest : ∀ value, Takes false (next value)) :
    Takes strict (read >>= next) := fun cursor => (first.bind rest cursor).relax

/-- What comes next takes a token if any does. -/
theorem andThen (first : Takes false read) (rest : ∀ value, Takes strict (next value)) :
    Takes strict (read >>= next) := first.bind rest

theorem done (value : α) : Takes false (pure value : Reader α) := Cursor.Advances.refl

theorem ite {condition : Prop} [Decidable condition] {left right : Reader α}
    (onTrue : Takes strict left) (onFalse : Takes strict right) :
    Takes strict (if condition then left else right) := by
  split
  · exact onTrue
  · exact onFalse

theorem of_error (fails : ∀ cursor, ∃ error, read cursor = .error error ∧ error.cause ≠ .outOfRange ∧
    cursor.InSight error.span) : Takes strict read := by
  intro cursor
  obtain ⟨error, failed, sound⟩ := fails cursor
  rw [failed]
  exact sound

/-- Looking at the cursor takes nothing. -/
theorem look {see : Cursor → Reader α} (takes : ∀ cursor, Takes strict (see cursor)) :
    Takes strict (get >>= see) := by
  intro cursor
  rw [get_bind]
  exact takes cursor cursor

/-- A choice whose first side goes on with the second one. -/
theorem joined {condition : Prop} [Decidable condition] {left right : Reader α}
    (before : Takes strict right → Takes strict left) (takes : Takes strict right) :
    Takes strict (if condition then left else right) := .ite (before takes) takes

end Takes

theorem peek_bind (next : Option Token → Reader α) (cursor : Cursor) :
    (peek >>= next) cursor = next cursor.peek? cursor := rfl

theorem unexpected_error (what : Expectation) (cursor : Cursor) :
    ∃ error, (unexpected what : Reader α) cursor = .error error ∧
      (∃ found, error.cause = .expected what found) ∧ cursor.InSight error.span := by
  rw [unexpected, peek_bind]
  cases ahead : cursor.peek? with
  | none => exact ⟨_, rfl, ⟨_, rfl⟩, .inr rfl⟩
  | some token => exact ⟨_, rfl, ⟨_, rfl⟩, Cursor.inSight_of_peek? ahead⟩

theorem takes_unexpected {strict : Bool} (what : Expectation) :
    Takes strict (unexpected what : Reader α) := by
  refine .of_error fun cursor => ?_
  obtain ⟨error, failed, ⟨found, cause⟩, inSight⟩ := @unexpected_error α what cursor
  exact ⟨error, failed, by simp [cause], inSight⟩

theorem takes_exhausted {strict : Bool} : Takes strict (exhausted : Reader α) :=
  .of_error fun _ => ⟨_, rfl, by simp, .inr rfl⟩

theorem takes_peek : Takes false peek := .look fun _ => .done _

theorem takes_nextIs (test : Token → Bool) : Takes false (nextIs test) := takes_peek.andThen fun _ => .done _

theorem takes_nthIs (n : Nat) (test : Token → Bool) : Takes false (nthIs n test) :=
  .look fun _ => .done _

theorem takes_rawIs (test : Token → Bool) : Takes false (rawIs test) := .look fun _ => .done _

theorem takes_atEnd : Takes false atEnd := takes_peek.andThen fun _ => .done _

theorem takes_remaining : Takes false remaining := .look fun _ => .done _

theorem takes_bump : Takes false bump := Cursor.advances_advance

theorem takes_nextThenBump (test : Token → Bool) : Takes false (do
    if ← nextIs test then
      bump
      return true
    else
      return false : Reader Bool) :=
  (takes_nextIs test).andThen fun _ => .ite (takes_bump.andThen fun _ => .done _) (.done _)

theorem takes_eat (sign : Symbol) : Takes false (eat sign) := takes_nextThenBump _

theorem takes_eatWord (word : Keyword) : Takes false (eatWord word) := takes_nextThenBump _

/-- A sign that is taken was the next token, and the cursor stays where it is not taken. -/
theorem eat_ok {sign : Symbol} {cursor after : Cursor} {found : Bool}
    (eaten : eat sign cursor = .ok (found, after)) :
    (found = false ∧ after = cursor) ∨
      (found = true ∧ after = cursor.advance ∧ ∃ token, cursor.peek? = some token ∧ token.kind = .symbol sign) := by
  have look : nextIs (·.isSymbol sign) cursor = .ok (cursor.peek?.any (·.isSymbol sign), cursor) := rfl
  obtain ⟨passes, same, looked, turned⟩ := bind_ok eaten
  obtain ⟨rfl, rfl⟩ := Prod.mk.inj (Except.ok.inj (look.symm.trans looked))
  split at turned
  case isFalse =>
      obtain ⟨rfl, rfl⟩ := pure_ok turned
      exact .inl ⟨rfl, rfl⟩
  case isTrue passes =>
      obtain ⟨rfl, rfl⟩ := Prod.mk.inj (Except.ok.inj turned)
      obtain ⟨token, ahead, isSign⟩ := (Option.any_eq_true _ _).mp passes
      exact .inr ⟨rfl, rfl, token, ahead, beq_iff_eq.mp isSign⟩

/-- A token that is ahead is taken. -/
theorem takesAt_bump {strict : Bool} {token : Token} {next : Unit → Reader β}
    (rest : Takes false (next ())) : TakesAt token strict (bump >>= next) := by
  intro cursor ahead
  have bumped : Steps true cursor (bump cursor) := Cursor.advances_of_peek? ahead
  exact (bumped.bind fun _ middle _ => rest middle).relax

theorem takes_onPeek {strict : Bool} {next : Option Token → Reader α} (onNone : Takes strict (next none))
    (onSome : ∀ token, TakesAt token strict (next (some token))) : Takes strict (peek >>= next) := by
  intro cursor
  rw [peek_bind]
  cases ahead : cursor.peek? with
  | none => exact onNone cursor
  | some token => exact onSome token cursor ahead

/-- Expecting a token: it is the next one, it passes the test, and it is taken. -/
theorem expectThat_ok {what : Expectation} {test : Token → Bool} {cursor after : Cursor} {token : Token}
    (success : expectThat what test cursor = .ok (token, after)) :
    cursor.peek? = some token ∧ test token = true ∧ after = cursor.advance := by
  rw [expectThat, peek_bind] at success
  cases ahead : cursor.peek? with
  | none =>
      obtain ⟨error, failed, -⟩ := @unexpected_error Token what cursor
      simp only [ahead] at success
      rw [failed] at success
      cases success
  | some found =>
      simp only [ahead] at success
      split at success
      case isTrue passes =>
          obtain ⟨rfl, rfl⟩ := Prod.mk.inj (Except.ok.inj success)
          exact ⟨rfl, passes, rfl⟩
      case isFalse =>
          obtain ⟨error, failed, -⟩ := @unexpected_error Token what cursor
          rw [failed] at success
          cases success

/-- A reader that takes just the next token and gives its span. -/
def Gives (read : Reader α) (spanOf : α → Span) : Prop :=
  ∀ cursor value after, read cursor = .ok (value, after) →
    ∃ token, cursor.peek? = some token ∧ after = cursor.advance ∧ spanOf value = token.span

theorem gives_expectThat (what : Expectation) (test : Token → Bool) :
    (expectThat what test).Gives Token.span := by
  intro cursor token after success
  obtain ⟨ahead, -, rfl⟩ := expectThat_ok success
  exact ⟨token, ahead, rfl, rfl⟩

theorem Gives.map {read : Reader α} {spanOf : α → Span} (gives : read.Gives spanOf) {change : α → β}
    {spanOf' : β → Span} (same : ∀ value, spanOf' (change value) = spanOf value) :
    Gives (do return change (← read)) spanOf' := by
  intro cursor value after success
  obtain ⟨found, middle, ran, returned⟩ := bind_ok success
  obtain ⟨rfl, rfl⟩ := pure_ok returned
  obtain ⟨token, ahead, advanced, span_eq⟩ := gives cursor found middle ran
  exact ⟨token, ahead, advanced, (same found).trans span_eq⟩

theorem gives_expect (sign : Symbol) : (expect sign).Gives id :=
  (gives_expectThat _ _).map fun _ => rfl

theorem gives_expectWord (word : Keyword) : (expectWord word).Gives id :=
  (gives_expectThat _ _).map fun _ => rfl

theorem gives_expectName : expectName.Gives Prod.snd := (gives_expectThat _ _).map fun _ => rfl

theorem gives_expectPropertyName : expectPropertyName.Gives Prod.snd :=
  (gives_expectThat _ _).map fun _ => rfl

theorem takes_expectThat {strict : Bool} (what : Expectation) (test : Token → Bool) :
    Takes strict (expectThat what test) := by
  refine takes_onPeek (takes_unexpected _) fun token => ?_
  dsimp only
  split
  · exact takesAt_bump (.done _)
  · exact (takes_unexpected _).at_ token

theorem takes_expect {strict : Bool} (sign : Symbol) : Takes strict (expect sign) :=
  (takes_expectThat _ _).first fun _ => .done _

theorem takes_expectWord (word : Keyword) : Takes false (expectWord word) :=
  (takes_expectThat _ _).first fun _ => .done _

theorem takes_expectName {strict : Bool} : Takes strict expectName :=
  (takes_expectThat _ _).first fun _ => .done _

theorem takes_expectPropertyName {strict : Bool} : Takes strict expectPropertyName :=
  (takes_expectThat _ _).first fun _ => .done _

theorem takes_skipBalanced {strict : Bool} (openSign closeSign : Symbol) :
    Takes strict (skipBalanced openSign closeSign) := by
  refine (takes_expect openSign).first fun _ cursor => ?_
  rw [get_bind]
  cases closes : Cursor.closeGroup openSign closeSign 1 cursor.rest with
  | found token behind => exact Cursor.advances_closeGroup closes
  | missing => exact ⟨SyntaxError.Cause.noConfusion, .inr rfl⟩
  | underflow => exact absurd closes (Cursor.closeGroup_ne_underflow Nat.one_pos)

theorem looks_behindParens {token : Token} {rest : List Token} (opens : token.isSymbol .parenOpen = true) :
    Looks (behindParens (token :: rest)) := by
  intro cursor
  rw [behindParens]
  cases closes : Cursor.closeGroup .parenOpen .parenClose 0 (token :: rest) with
  | found close behind => exact ⟨_, rfl⟩
  | missing => exact ⟨_, rfl⟩
  | underflow => exact absurd closes (Cursor.closeGroup_cons_ne_underflow opens)

/-- A group in parentheses is looked at from its opening sign. -/
theorem takesAt_behindParens {strict : Bool} {token : Token} {next : Option Token → Reader α}
    (opens : token.isSymbol .parenOpen = true) (rest : ∀ found, Takes strict (next found)) :
    TakesAt token strict (get >>= fun cursor => behindParens cursor.significant >>= next) := by
  intro cursor ahead
  obtain ⟨behind, ahead_eq⟩ := List.head?_eq_some_iff.mp ahead
  rw [get_bind, ahead_eq]
  exact (looks_behindParens opens).takes.andThen rest cursor

section Loops

variable {turn : Reader (Turn α)} {step : α → Reader (Option α)} {item : Reader α}

theorem takes_collect (takes : Takes false turn) : Takes false (collect turn) := by
  have within : ∀ budget, Takes false (collectWithin turn budget) := by
    intro budget
    induction budget with
    | zero => exact takes_exhausted
    | succ budget ih =>
        refine takes.andThen fun outcome => ?_
        cases outcome with
        | stop => exact .done _
        | last item => exact .done _
        | more item => exact ih.andThen fun _ => .done _
  exact takes_remaining.andThen fun _ => within _

theorem takes_grow (takes : ∀ value, Takes false (step value)) (value : α) :
    Takes false (grow step value) := by
  have within : ∀ budget value, Takes false (growWithin step budget value) := by
    intro budget
    induction budget with
    | zero => exact fun _ => takes_exhausted
    | succ budget ih =>
        intro value
        refine (takes value).andThen fun found => ?_
        cases found with
        | none => exact .done _
        | some value => exact ih value
  exact takes_remaining.andThen fun _ => within _ value

theorem takes_commaBehind (item : α) : Takes false (do
    if ← eat .comma then return Turn.more (some item) else return Turn.last item : Reader (Turn α)) :=
  (takes_eat .comma).andThen fun _ => .ite (.done _) (.done _)

theorem takes_commaSeparated (takes : Takes false item) : Takes false (commaSeparated item) :=
  takes_collect (takes.andThen takes_commaBehind)

theorem takes_commaList {close : Symbol} (takes : Takes false item) :
    Takes false (commaList close item) :=
  takes_collect ((takes_nextIs _).andThen fun _ => .ite (.done _) (takes.andThen takes_commaBehind))

end Loops

/-- A token that passes a test is there. -/
theorem takes_onNext {strict : Bool} {test : Token → Bool} {next : Bool → Reader α}
    (onTrue : ∀ token, TakesAt token strict (next true)) (onFalse : Takes strict (next false)) :
    Takes strict (nextIs test >>= next) := by
  intro cursor
  change Steps strict cursor (next (cursor.peek?.any test) cursor)
  cases passes : cursor.peek?.any test with
  | false => exact onFalse cursor
  | true =>
      cases ahead : cursor.peek? with
      | none => simp [ahead] at passes
      | some token => exact onTrue token cursor ahead

/-- A token that is ahead stays there while the reader looks further. -/
theorem takesAt_nthIs {strict : Bool} {token : Token} {n : Nat} {test : Token → Bool}
    {next : Bool → Reader α} (rest : ∀ passes, TakesAt token strict (next passes)) :
    TakesAt token strict (nthIs n test >>= next) :=
  fun cursor ahead => rest _ cursor ahead

end Reader

/-! ## Types -/

structure TypeProductions.TakeTokens (types : TypeProductions) : Prop where
  type : types.type.Takes true
  operand : types.operand.Takes true

namespace Grammar

open Reader

variable {types : TypeProductions} {strict : Bool} (take : types.TakeTokens)

theorem takes_atTupleLabel : atTupleLabel.Takes false := by
  refine (takes_nextIs _).andThen fun _ => .ite ?_ (.done _)
  refine (takes_nthIs _ _).andThen fun _ => .ite (.done _) ?_
  exact (takes_nthIs _ _).andThen fun _ => .ite (takes_nthIs _ _) (.done _)

theorem takes_atAccessor : atAccessor.Takes false := by
  refine (takes_nextIs _).andThen fun _ => (takes_nextIs _).andThen fun _ => .ite ?_ (.done _)
  exact (takes_nthIs _ _).andThen fun _ => .done _

include take

theorem takes_typeParams : (typeParams types).Takes false := by
  refine (takes_nextIs _).andThen fun _ => .ite (takes_bump.andThen fun _ => ?_) (.done _)
  refine (takes_commaList ?_).andThen fun _ => (takes_expect _).andThen fun _ => .done _
  refine (takes_grow (fun _ => ?_) ()).andThen fun _ => ?_
  · refine (takes_nextIs _).andThen fun _ => (takes_nextIs _).andThen fun _ => .ite ?_ (.done _)
    exact (takes_nthIs _ _).andThen fun _ => .ite (takes_bump.andThen fun _ => .done _) (.done _)
  refine (takes_eatWord _).andThen fun _ => takes_expectName.andThen fun _ => ?_
  refine (takes_nextIs _).andThen fun _ => .joined (fun rest => ?_) ?_
  · exact takes_bump.andThen fun _ => take.type.weaken.andThen fun _ => rest
  refine (takes_eat _).andThen fun _ => .ite ?_ (.done _)
  exact take.type.weaken.andThen fun _ => .done _

theorem takes_typeArgs : (typeArgs types).Takes false := by
  refine (takes_rawIs _).andThen fun _ => .ite (takes_bump.andThen fun _ => ?_) (.done _)
  refine (takes_commaList take.type.weaken).andThen fun _ => ?_
  exact (takes_expect _).andThen fun _ => .done _

theorem takes_typeReference : (typeReference types).Takes true := by
  refine takes_expectName.first fun _ => ?_
  refine (takes_grow (fun _ => ?_) _).andThen fun _ => ?_
  · refine (takes_eat _).andThen fun _ => .ite ?_ (.done _)
    exact takes_expectPropertyName.andThen fun _ => .done _
  · exact (takes_typeArgs take).andThen fun _ => .done _

theorem takes_returnType : (returnType types).Takes true := by
  have others : Takes true (do
      if (← nextIs isNameOrThis) && (← nthIs 1 (·.isWord "is")) then
        bump
        bump
        let _ ← types.type
        return .plain "boolean"
      else
        types.type : Reader TypeExpr) := by
    refine (takes_nextIs _).andThen fun _ => (takes_nthIs _ _).andThen fun _ => .ite ?_ take.type
    exact takes_bump.andThen fun _ => takes_bump.andThen fun _ => take.type.first fun _ => .done _
  refine takes_onNext (fun token => takesAt_nthIs fun isAsserted => ?_) ?_
  · cases isAsserted with
    | false => exact others.at_ token
    | true =>
        refine takesAt_bump (takes_bump.andThen fun _ => (takes_nextIs _).andThen fun _ => ?_)
        refine .ite (takes_bump.andThen fun _ => ?_) (.done _)
        exact take.type.weaken.andThen fun _ => .done _
  · exact (takes_nthIs _ _).andThen fun _ => others

theorem takes_functionType : (functionType types).Takes true := by
  refine (takes_typeParams take).andThen fun _ => (takes_skipBalanced _ _).first fun _ => ?_
  refine (takes_expect _).andThen fun _ => ?_
  exact (takes_returnType take).weaken.andThen fun _ => .done _

theorem takes_tupleType : (tupleType types).Takes true := by
  refine (takes_expect _).first fun _ => ?_
  refine (takes_commaList ?_).andThen fun _ => (takes_expect _).andThen fun _ => .done _
  refine (takes_eat _).andThen fun _ => takes_atTupleLabel.andThen fun _ => .joined (fun rest => ?_) ?_
  · refine takes_bump.andThen fun _ => (takes_eat _).andThen fun _ => ?_
    exact (takes_expect _).andThen fun _ => rest
  exact take.type.weaken.andThen fun _ => (takes_eat _).andThen fun _ => .done _

theorem takes_skipSignature : (skipSignature types).Takes false := by
  refine (takes_typeParams take).andThen fun _ => (takes_skipBalanced _ _).andThen fun _ => ?_
  refine (takes_eat _).andThen fun _ => .ite ?_ (.done _)
  exact (takes_returnType take).weaken.andThen fun _ => .done _

theorem takes_methodMember (name : String) (accessor : Bool) :
    (methodMember types name accessor).Takes false := by
  have last : ∀ result : TypeExpr, Takes false (do
      if name = TypeMember.initializerName then
        return .initializer
      else if accessor then
        return .property name result
      else
        return .method name result : Reader TypeMember) :=
    fun _ => .ite (.done _) (.ite (.done _) (.done _))
  refine (takes_typeParams take).andThen fun _ => (takes_skipBalanced _ _).andThen fun _ => ?_
  refine (takes_eat _).andThen fun _ => .ite ?_ ((Takes.done _).andThen last)
  exact (takes_returnType take).weaken.andThen last

theorem takes_namedMember : (namedMember types).Takes false := by
  refine takes_atAccessor.andThen fun _ => .joined (fun rest => takes_bump.andThen fun _ => rest) ?_
  refine takes_expectPropertyName.andThen fun _ => (takes_eat _).andThen fun _ => ?_
  refine (takes_nextIs _).andThen fun _ => (takes_nextIs _).andThen fun _ => ?_
  refine .ite (takes_methodMember take _ _) ((takes_eat _).andThen fun _ => .ite ?_ ?_)
  · exact take.type.weaken.andThen fun _ => .done _
  · exact (Takes.done _).andThen fun _ => .done _

theorem takes_typeMember : (typeMember types).Takes false := by
  refine (takes_nextIs _).andThen fun _ => .joined (fun rest => ?_) ?_
  · exact (takes_nthIs _ _).andThen fun _ => .ite (takes_bump.andThen fun _ => rest) rest
  refine (takes_nextIs _).andThen fun _ => .ite ?_ ?_
  · refine (takes_skipBalanced _ _).andThen fun _ => (takes_eat _).andThen fun _ => ?_
    refine (takes_eat _).andThen fun _ => .ite ?_ (.done _)
    exact take.type.weaken.andThen fun _ => .done _
  refine (takes_nextIs _).andThen fun _ => (takes_nextIs _).andThen fun _ => .ite ?_ ?_
  · exact (takes_skipSignature take).andThen fun _ => .done _
  refine (takes_nextIs _).andThen fun _ => .ite ?_ ?_
  · exact takes_bump.andThen fun _ => (takes_skipSignature take).andThen fun _ => .done _
  · exact (takes_namedMember take).andThen fun _ => .done _

theorem takes_typeMembers : (typeMembers types).Takes true := by
  refine (takes_expect _).first fun _ => takes_collect ?_
  refine (takes_eat _).andThen fun _ => .ite (.done _) ?_
  refine (takes_eat _).andThen fun _ => .ite (.done _) ?_
  refine (takes_eat _).andThen fun _ => .ite (.done _) ?_
  refine takes_atEnd.andThen fun _ => .ite (takes_unexpected _) ?_
  exact (takes_typeMember take).andThen fun _ => .done _

theorem takesAt_parenType {token : Token} (opens : token.isSymbol .parenOpen = true) :
    TakesAt token true (parenType types) := by
  refine takesAt_behindParens opens fun _ => .ite (takes_functionType take) ?_
  refine takes_bump.andThen fun _ => take.type.first fun _ => ?_
  exact (takes_expect _).andThen fun _ => .done _

theorem takes_wordType (word : String) : (wordType types word).Takes true := by
  unfold wordType
  refine .ite ?_ (.ite ?_ (.ite ?_ (.ite ?_ (takes_typeReference take))))
  · refine takes_bump.andThen fun _ => takes_expectPropertyName.first fun _ => ?_
    refine (takes_grow (fun _ => ?_) ()).andThen fun _ => .done _
    refine (takes_eat _).andThen fun _ => .ite ?_ (.done _)
    exact takes_expectPropertyName.andThen fun _ => .done _
  · exact takes_bump.andThen fun _ => take.operand.first fun _ => .done _
  · exact takes_bump.andThen fun _ => take.operand
  · exact takes_bump.andThen fun _ => takes_expectName.first fun _ => .done _

theorem takes_primaryType : (primaryType types).Takes true := by
  refine takes_onPeek (takes_unexpected _) fun token => ?_
  dsimp only
  split
  case h_1 isParen => exact takesAt_parenType take (by simp [Token.isSymbol, isParen])
  · exact (takes_functionType take).at_ token
  · refine Takes.at_ (takes_bump.andThen fun _ => ?_) token
    exact (takes_functionType take).first fun _ => .done _
  · exact ((takes_typeMembers take).first fun _ => .done _).at_ token
  · exact (takes_tupleType take).at_ token
  · exact takesAt_bump (.done _)
  · exact takesAt_bump (.done _)
  · exact takesAt_bump (.done _)
  · exact takesAt_bump (.done _)
  · exact takesAt_bump ((takes_expectThat _ _).andThen fun _ => .done _)
  · exact takesAt_bump (.done _)
  · exact takesAt_bump (.done _)
  · exact (takes_wordType take _).at_ token
  · exact (takes_unexpected _).at_ token

theorem takes_operandType : (operandType types).Takes true := by
  refine (takes_primaryType take).first fun _ => takes_grow (fun _ => ?_) _
  refine (takes_rawIs _).andThen fun _ => .ite (takes_bump.andThen fun _ => ?_) (.done _)
  refine (takes_eat _).andThen fun _ => .ite (.done _) ?_
  exact take.type.weaken.andThen fun _ => (takes_expect _).andThen fun _ => .done _

omit take in
theorem takes_partsOf {sign : Symbol} {part : Reader TypeExpr} {join : List TypeExpr → TypeExpr}
    (takes : part.Takes true) : (partsOf sign part join).Takes true := by
  refine (takes_eat _).andThen fun _ => takes.first fun _ => ?_
  refine (takes_collect ((takes_eat _).andThen fun _ => .ite ?_ (.done _))).andThen fun _ => .done _
  exact takes.weaken.andThen fun _ => .done _

theorem takes_unionType : (unionType types).Takes true :=
  takes_partsOf (takes_partsOf (takes_operandType take))

theorem takes_anyType : (anyType types).Takes true := by
  refine (takes_unionType take).first fun _ => (takes_nextIs _).andThen fun _ => .ite ?_ (.done _)
  refine takes_bump.andThen fun _ => (takes_unionType take).weaken.andThen fun _ => ?_
  refine (takes_expect _).andThen fun _ => take.type.weaken.andThen fun _ => ?_
  exact (takes_expect _).andThen fun _ => take.type.weaken.andThen fun _ => .done _

omit take in
theorem takeTokens_typeProductions (budget : Nat) : (typeProductions budget).TakeTokens := by
  induction budget with
  | zero => exact ⟨takes_exhausted, takes_exhausted⟩
  | succ budget ih => exact ⟨takes_anyType ih, takes_operandType ih⟩

omit take in
theorem takes_withTypes {α : Type} {read : TypeProductions → Reader α}
    (takes : ∀ types, types.TakeTokens → (read types).Takes strict) : (withTypes read).Takes strict :=
  takes_remaining.andThen fun _ => takes _ (takeTokens_typeProductions _)

end Grammar

/-! ## Readers that builders use -/

namespace Reader

variable {α : Type}

/-- Every run of the reader is a step forward. The class finds this for the readers that builders lift. -/
class Steady (read : Reader α) : Prop where
  takes : read.Takes false

instance {n : Nat} {test : Token → Bool} : Steady (nthIs n test) := ⟨takes_nthIs n test⟩

instance {test : Token → Bool} : Steady (rawIs test) := ⟨takes_rawIs test⟩

instance {sign : Symbol} : Steady (check sign) := ⟨takes_nextIs _⟩

instance {word : Keyword} : Steady (checkWord word) := ⟨takes_nextIs _⟩

instance {text : String} : Steady (checkText text) := ⟨takes_nextIs _⟩

instance : Steady checkName := ⟨takes_nextIs _⟩

instance : Steady peek := ⟨takes_peek⟩

instance : Steady atEnd := ⟨takes_atEnd⟩

instance : Steady remaining := ⟨takes_remaining⟩

instance : Steady lastEnd := ⟨.look fun _ => .done _⟩

instance : Steady nextStart := ⟨takes_peek.andThen fun _ => .done _⟩

instance : Steady bump := ⟨takes_bump⟩

instance {sign : Symbol} : Steady (eat sign) := ⟨takes_eat sign⟩

instance {word : Keyword} : Steady (eatWord word) := ⟨takes_eatWord word⟩

instance {sign : Symbol} : Steady (expect sign) := ⟨takes_expect sign⟩

instance {word : Keyword} : Steady (expectWord word) := ⟨takes_expectWord word⟩

instance : Steady expectName := ⟨takes_expectName⟩

instance : Steady expectPropertyName := ⟨takes_expectPropertyName⟩

instance {openSign closeSign : Symbol} : Steady (skipBalanced openSign closeSign) :=
  ⟨takes_skipBalanced openSign closeSign⟩

instance {what : Expectation} : Steady (unexpected what : Reader α) := ⟨takes_unexpected what⟩

instance : Steady (exhausted : Reader α) := ⟨takes_exhausted⟩

end Reader

namespace Grammar

open Reader

theorem takes_type : (withTypes (·.type)).Takes true := takes_withTypes fun _ take => take.type

instance : Steady (withTypes (·.type)) := ⟨takes_type.weaken⟩

instance : Steady (withTypes returnType) := ⟨(takes_withTypes fun _ => takes_returnType).weaken⟩

instance : Steady (withTypes typeParams) := ⟨takes_withTypes fun _ => takes_typeParams⟩

instance : Steady (withTypes typeMembers) := ⟨(takes_withTypes fun _ => takes_typeMembers).weaken⟩

end Grammar

end Heed
