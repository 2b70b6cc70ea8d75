import Heed.Proofs.Grammar.StatementAgreement
import Heed.Proofs.Token.Tiling

/-!
# Every parse comes to an end

A run of the parser ends in one of two ways: it has read on within the tokens ahead, or it has refused the
token that it found. It neither uses up its budget nor asks for what is not there. The first half is what two
equal runs agree on, and the second is what a build does to the nodes that there are.

`Routine.run_settles` says this of every routine that stands on its own, at any token and over any nodes, and
`Tree.ofTokens_total` of all the tokens of a source.
-/

set_option autoImplicit false

namespace Heed

open Builder (Turns)

variable {α : Type}

/-- A run has read on, over a token where its value owes one, or it has refused what it found. -/
inductive Settles (owes : α → Prop) (draft : Draft) : Except Failure (α × Draft) → Prop
  | finished {value : α} {after : Draft} (onward : after.cursor.rest <:+ draft.cursor.rest)
      (paid : owes value → after.cursor.rest.length < draft.cursor.rest.length) :
      Settles owes draft (.ok (value, after))
  | refused {failure : Failure} (blameless : failure.cause.isFault = false) : Settles owes draft (.error failure)

theorem SyntaxError.Cause.isFault_eq_false {cause : SyntaxError.Cause} (inBudget : cause ≠ .budgetExceeded)
    (inRange : cause ≠ .outOfRange) : cause.isFault = false := by
  cases cause with
  | budgetExceeded => exact absurd rfl inBudget
  | outOfRange => exact absurd rfl inRange
  | _ => rfl

/-- Fewer tokens ahead are fewer tokens, newlines included. -/
theorem Cursor.length_rest_lt {before after : Cursor} (onward : after.rest <:+ before.rest)
    (fewer : after.tokens.length < before.tokens.length) : after.rest.length < before.rest.length := by
  rcases Nat.lt_or_eq_of_le onward.length_le with shorter | same
  · exact shorter
  · rw [tokens, tokens, onward.eq_of_length same] at fewer
    exact absurd fewer (Nat.lt_irrefl _)

/-- A build that agrees with itself settles, where its budget suffices. -/
theorem settles {build : Builder α} {room : Nat} {owes : α → Prop} {same : α → α → Prop} {outs : α → List Slot}
    {draft : Draft} (agree : Agree room owes same build build) (turns : Turns [] build outs)
    (fits : ahead draft < room) : Settles owes draft (build draft) := by
  have alike : Located.Alike draft draft := ⟨Token.alike_of_contents _ _ rfl, rfl⟩
  have ended := agree draft draft alike trivial fits
  have stays := turns.safe draft fun _ listed => absurd listed List.not_mem_nil
  cases outcome : build draft with
  | error error =>
      rw [outcome] at ended
      cases ended with
      | fail _ inBudget =>
          exact .refused (SyntaxError.Cause.isFault_eq_false inBudget (stays.of_error outcome).1)
  | ok pair =>
      rw [outcome] at ended
      obtain ⟨onward, -⟩ := stays.of_ok outcome
      cases ended with
      | finish _ _ _ paid => exact .finished onward.rest fun owed => Cursor.length_rest_lt onward.rest (paid owed)

theorem settles_read {read : Reader α} {room : Nat} {owes : α → Prop} {same : α → α → Prop} {draft : Draft}
    (agree : Agree room owes same read read) (takes : read.Takes false) (fits : ahead draft < room) :
    Settles owes draft ((liftM read : Builder α) draft) := by
  have steady : read.Steady := ⟨takes⟩
  exact settles (agree_lift agree) (Turns.ofRead read) fits

/-! ## Routines -/

/-- The routines that stand on their own, and so may be used at any token. -/
inductive Routine where
  | statement
  | block
  | switchCase
  | expression
  | conditional
  | operation (precedence : Nat)
  | unary
  | callOrMember
  | primary
  | bindingTarget
  | param
  | params
  | classMember
  | type
  | returnType
  | primaryType
  | typeMember
  | typeMembers

namespace Routine

def Result : Routine → Type
  | .params => List Nat
  | .type | .returnType | .primaryType => TypeExpr
  | .typeMember => Option TypeMember
  | .typeMembers => List TypeMember
  | _ => Nat

open Grammar

def run (budget : Nat) : (routine : Routine) → Builder routine.Result
  | .statement => Grammar.statement (productions budget)
  | .block => Grammar.block (productions budget)
  | .switchCase => Grammar.switchCase (productions budget)
  | .expression => Grammar.expression (productions budget)
  | .conditional => Grammar.conditional (productions budget)
  | .operation precedence => Grammar.operation (productions budget) precedence
  | .unary => Grammar.unary (productions budget)
  | .callOrMember => Grammar.callOrMember (productions budget)
  | .primary => Grammar.primary (productions budget)
  | .bindingTarget => Grammar.bindingTarget (productions budget)
  | .param => Grammar.param (productions budget)
  | .params => Grammar.params (productions budget)
  | .classMember => Grammar.classMember (productions budget)
  | .type => liftM (anyType (typeProductions budget))
  | .returnType => liftM (Grammar.returnType (typeProductions budget))
  | .primaryType => liftM (Grammar.primaryType (typeProductions budget))
  | .typeMember => liftM (Grammar.typeMember (typeProductions budget))
  | .typeMembers => liftM (Grammar.typeMembers (typeProductions budget))

/-- Every routine takes a token or refuses one, where its budget exceeds the tokens ahead. -/
theorem run_settles (routine : Routine) {budget : Nat} {draft : Draft} (enough : ahead draft < budget) :
    Settles strict draft (routine.run budget draft) := by
  have agrees := agrees_productions enough enough
  have typesAgree := agrees_typeProductions enough enough
  have trees := makeTrees_productions budget
  have take := takeTokens_typeProductions budget
  -- A return type and a case of a switch start with a nested use, the others with a token of their own.
  have tight : ahead draft < (ahead draft).succ := Nat.lt_succ_self _
  have fits : ahead draft < (ahead draft).succ + 1 := Nat.lt_succ_of_lt tight
  cases routine with
  | statement => exact settles (agree_statement agrees) (makes_statement trees) fits
  | block => exact settles (agree_block agrees) (makes_block trees) fits
  | switchCase => exact settles (agree_switchCase agrees) (makes_switchCase trees) tight
  | expression => exact settles (agree_expression agrees) (makes_expression trees) fits
  | conditional => exact settles (agree_conditional agrees) (makes_conditional trees) fits
  | operation precedence =>
      exact settles (agree_operation agrees precedence) (makes_operation trees precedence) fits
  | unary => exact settles (agree_unary agrees) (makes_unary trees) fits
  | callOrMember => exact settles (agree_callOrMember agrees) (makes_callOrMember trees) fits
  | primary => exact settles (agree_primary agrees) (makes_primary trees) fits
  | bindingTarget => exact settles (agree_bindingTarget agrees) (makes_bindingTarget trees) fits
  | param => exact settles (agree_param agrees) (makes_param trees) fits
  | params => exact settles (agree_params agrees) (turns_params trees) fits
  | classMember => exact settles (agree_classMember agrees) (makes_classMember trees) fits
  | type => exact settles_read (agree_anyType typesAgree) (takes_anyType take).weaken fits
  | returnType => exact settles_read (agree_returnType typesAgree) (takes_returnType take).weaken tight
  | primaryType => exact settles_read (agree_primaryType typesAgree) (takes_primaryType take).weaken fits
  | typeMember => exact settles_read (agree_typeMember typesAgree) (takes_typeMember take) fits
  | typeMembers => exact settles_read (agree_typeMembers typesAgree) (takes_typeMembers take).weaken fits

end Routine

/-! ## Positions -/

/-- A cursor stands before the token of a row that has this many others before it. -/
def Cursor.StandsAt (tokens : List Token) (position : Nat) (cursor : Cursor) : Prop :=
  position ≤ tokens.length ∧ cursor.rest = tokens.drop position

namespace Cursor.StandsAt

variable {tokens : List Token} {position : Nat} {before after : Cursor}

theorem ahead_le {draft : Draft} (stands : draft.cursor.StandsAt tokens position) :
    ahead draft ≤ tokens.length - position := by
  have fewer : draft.cursor.tokens.length ≤ draft.cursor.rest.length := List.length_filter_le _ _
  rwa [stands.2, List.length_drop] at fewer

/-- Reading on leads to a later position. -/
theorem later (stands : before.StandsAt tokens position) (onward : after.rest <:+ before.rest)
    (shorter : after.rest.length < before.rest.length) : ∃ next, after.StandsAt tokens next ∧ position < next := by
  obtain ⟨taken, taken_eq⟩ := onward
  have lengths := congrArg List.length stands.2
  rw [List.length_drop] at lengths
  have lengths' := congrArg List.length taken_eq
  rw [List.length_append] at lengths'
  refine ⟨position + taken.length, ⟨by omega, ?_⟩, by omega⟩
  rw [← List.drop_drop, ← stands.2, ← taken_eq, List.drop_left]

/-- Three dots that were taken end behind three bytes. -/
theorem three_le_lastEnd {edge : Nat → Prop} {low : Nat} (stands : before.StandsAt tokens position)
    (laid : Token.Laid edge low tokens) (eaten : Reader.eat .spread before = .ok (true, after)) :
    3 ≤ after.lastEnd := by
  rcases Reader.eat_ok eaten with ⟨wrong, -⟩ | ⟨-, rfl, token, ahead, spread⟩
  · cases wrong
  · obtain ⟨tokens_eq, lastEnd_eq⟩ := tokens_eq_cons ahead
    have listed : token ∈ before.rest := (List.mem_filter.mp (tokens_eq ▸ List.mem_cons_self)).1
    rw [stands.2] at listed
    have width := (laid.stands token (List.mem_of_mem_drop listed)).spread_width spread
    omega

end Cursor.StandsAt

theorem Settles.takes_or_refuses {tokens : List Token} {position : Nat} {draft : Draft}
    {outcome : Except Failure (α × Draft)} (settled : Settles strict draft outcome)
    (stands : draft.cursor.StandsAt tokens position) :
    (∃ value after next, outcome = .ok (value, after) ∧ after.cursor.StandsAt tokens next ∧ position < next) ∨
      ∃ error, outcome = .error error ∧ error.cause.isFault = false := by
  cases settled with
  | finished onward paid =>
      obtain ⟨next, behind, further⟩ := stands.later onward (paid trivial)
      exact .inl ⟨_, _, next, rfl, behind, further⟩
  | refused blameless => exact .inr ⟨_, rfl, blameless⟩

/-! ## Sources -/

namespace Token

theorem isFault_of_refuse {char : Char} {rest : List Char} {cause : SyntaxError.Cause} {length : Nat}
    (found : step char rest = .refuse cause length) : cause.isFault = false := by
  simp only [step, quotedStep, commentStep, symbolStep] at found
  grind [SyntaxError.Cause.isFault]

theorem isFault_of_scanFrom {start : Nat} {chars : List Char} {error : SyntaxError}
    (failed : scanFrom start chars = .error error) : error.cause.isFault = false := by
  fun_induction scanFrom start chars with
  | case1 => cases failed
  | case2 start char rest length found ih => exact ih failed
  | case3 => cases failed
  | case4 start char rest kind length found chars stop error' scannedRest ih =>
      cases failed
      exact ih scannedRest
  | case5 start char rest cause length found =>
      cases failed
      exact isFault_of_refuse found

end Token

namespace Tree

theorem ofTokens_total (tokens : List Token) (sourceLength : Nat) :
    (∃ tree, ofTokens tokens sourceLength = .ok tree) ∨
      ∃ error, ofTokens tokens sourceLength = .error error ∧ error.cause.isFault = false := by
  have agrees := Grammar.agrees_productions (Nat.le_refl (tokens.length + 1)) (Nat.le_refl (tokens.length + 1))
  have makes := Grammar.makes_program (Grammar.makeTrees_productions (tokens.length + 1)) sourceLength
  have fits : ahead (⟨Cursor.ofTokens tokens, #[]⟩ : Draft) < tokens.length + 1 :=
    Nat.lt_succ_of_le (List.length_filter_le _ tokens)
  have settled := settles (Grammar.agree_program agrees) makes fits
  rw [ofTokens]
  cases outcome : Grammar.program (Grammar.productions (tokens.length + 1)) sourceLength
      ⟨Cursor.ofTokens tokens, #[]⟩ with
  | ok pair => exact .inl ⟨_, rfl⟩
  | error failure =>
      rw [outcome] at settled
      cases settled with
      | refused blameless => exact .inr ⟨failure.toSyntaxError, rfl, blameless⟩

/-- Every source is refused for what stands in it, or has a tree. Its tokens can be cut out of it; from each
position a routine gets to a later one that is no further than the end, or refuses a token; and three dots that
were taken end at the third byte or later. -/
theorem parse_total (source : String) :
    (∃ error, Token.scan source = .error error ∧ parse source = .error error ∧ error.cause.isFault = false) ∨
      ∃ tokens, Token.scan source = .ok tokens ∧ (∀ token ∈ tokens, Token.Placed source token) ∧
        (∀ (routine : Routine) budget draft position, draft.cursor.StandsAt tokens position →
          tokens.length - position < budget →
          (∃ value after next, routine.run budget draft = .ok (value, after) ∧
            after.cursor.StandsAt tokens next ∧ position < next) ∨
          ∃ error, routine.run budget draft = .error error ∧ error.cause.isFault = false) ∧
        (∀ cursor behind position, cursor.StandsAt tokens position →
          Reader.eat .spread cursor = .ok (true, behind) → 3 ≤ behind.lastEnd) ∧
        ((∃ tree, parse source = .ok tree) ∨
          ∃ error, parse source = .error error ∧ error.cause.isFault = false) := by
  cases scanned : Token.scan source with
  | error error => exact .inl ⟨error, rfl, by rw [parse, scanned], Token.isFault_of_scanFrom scanned⟩
  | ok tokens =>
      refine .inr ⟨tokens, rfl, ?_, ?_, ?_, ?_⟩
      · exact (Token.tiles_scanFrom scanned).placed (List.nil_append _).symm rfl
      · intro routine budget draft position stands enough
        exact (routine.run_settles (Nat.lt_of_le_of_lt stands.ahead_le enough)).takes_or_refuses stands
      · intro cursor behind position stands eaten
        exact stands.three_le_lastEnd (Token.laid_scan scanned) eaten
      · rw [parse, scanned]
        exact ofTokens_total tokens _

end Tree

end Heed
