import Heed.Grammar.Expression
import Heed.Proofs.Grammar.Agreement
import Heed.Proofs.Grammar.Rendering

/-!
# Runs over a row of lexemes

A draft faces a row of lexemes if these are the kinds of the tokens ahead. From there the run of a builder is
followed step by step, and what it makes of an expression does not depend on what stands behind it, as long as
that may follow.

An operator between two operands is not read by the production of the left one but by the loop around it, so
an expression that is built to the left is never read on its own. What is shown of it is that the loop comes by
it: it climbs from the first value to the node of the whole expression, and may climb on from there.
-/

set_option autoImplicit false

namespace Heed

/-! ## Runs -/

def Runs {σ ε α : Type} (run : StateT σ (Except ε) α) (state : σ) (value : α) (after : σ) : Prop :=
  run state = .ok (value, after)

namespace Runs

variable {σ ε α β : Type} {run other : StateT σ (Except ε) α}
  {next : α → StateT σ (Except ε) β} {state middle after : σ} {value : α} {result : β}

theorem bind (first : Runs run state value middle) (rest : Runs (next value) middle result after) :
    Runs (run >>= next) state result after := by
  unfold Runs at *
  rw [bind_apply, first]
  exact rest

theorem done : Runs (pure value : StateT σ (Except ε) α) state value state := rfl

theorem yes {condition : Prop} [Decidable condition] (holds : condition)
    (runs : Runs run state value after) : Runs (if condition then run else other) state value after := by
  rwa [if_pos holds]

theorem no {condition : Prop} [Decidable condition] (fails : ¬ condition)
    (runs : Runs other state value after) : Runs (if condition then run else other) state value after := by
  rwa [if_neg fails]

theorem lift {read : Reader α} {draft : Draft} {cursor : Cursor}
    (runs : Runs read draft.cursor value cursor) :
    Runs (liftM read : Builder α) draft value { draft with cursor } := by
  change Builder.ofReader read draft = _
  rw [Builder.ofReader, show read draft.cursor = _ from runs]

end Runs

/-! ## Facing a row -/

def Lexeme.isPlain : Lexeme → Bool
  | .symbol .arrow => false
  | .reserved .function_ => false
  | _ => true

/-- The tokens ahead are these lexemes, and fewer than `room`. -/
structure Faces (room : Nat) (draft : Draft) (row : List Lexeme) : Prop where
  kinds : draft.cursor.rest.map Token.kind = row.map Lexeme.kind
  plain : ∀ lexeme ∈ row, lexeme.isPlain = true
  fits : row.length < room

def Draft.next (draft : Draft) : Draft := { draft with cursor := draft.cursor.advance }

def ahead? (row : List Lexeme) : Option Token.Kind := row.head?.map Lexeme.kind

def isNext (row : List Lexeme) (sign : Symbol) : Bool := (ahead? row).any (· == .symbol sign)

namespace Faces

variable {room : Nat} {draft : Draft} {lexeme : Lexeme} {row : List Lexeme}

theorem wide (faces : Faces room draft row) : Faces (room + 1) draft row :=
  { faces with fits := Nat.lt_succ_of_lt faces.fits }

theorem exists_token (faces : Faces room draft (lexeme :: row)) :
    ∃ token, draft.cursor.peek? = some token ∧ token.kind = lexeme.kind ∧
      draft.cursor.rest = token :: draft.cursor.advance.rest := by
  have kinds := faces.kinds
  unfold Cursor.peek? Cursor.advance Cursor.significant
  cases ahead : draft.cursor.rest with
  | nil => simp [ahead] at kinds
  | cons token rest =>
      rw [ahead, List.map_cons, List.map_cons] at kinds
      obtain ⟨kind, -⟩ := List.cons_eq_cons.mp kinds
      have significant : token.isNewline = false := by
        rw [Token.isNewline, kind]
        cases lexeme <;> rfl
      rw [List.dropWhile_cons_of_neg (by simp [significant])]
      exact ⟨token, rfl, kind, rfl⟩

theorem later (faces : Faces room draft (lexeme :: row)) : Faces room draft.next row := by
  obtain ⟨token, -, -, rest⟩ := faces.exists_token
  have kinds := faces.kinds
  rw [rest, List.map_cons, List.map_cons] at kinds
  exact
    { kinds := (List.cons_eq_cons.mp kinds).2
      plain := fun lexeme member => faces.plain lexeme (List.mem_cons_of_mem _ member)
      fits := Nat.lt_of_succ_lt faces.fits }

theorem next (faces : Faces (room + 1) draft (lexeme :: row)) : Faces room draft.next row :=
  { faces.later with fits := Nat.lt_of_succ_lt_succ faces.fits }

theorem peek?_kind (faces : Faces room draft row) : draft.cursor.peek?.map Token.kind = ahead? row := by
  cases row with
  | nil =>
      have empty : draft.cursor.rest = [] := List.map_eq_nil_iff.mp faces.kinds
      rw [Cursor.peek?, Cursor.significant, empty]
      rfl
  | cons lexeme row =>
      obtain ⟨token, found, kind, -⟩ := faces.exists_token
      rw [found, Option.map_some, kind]
      rfl

theorem peek?_eq_none (faces : Faces room draft []) : draft.cursor.peek? = none :=
  Option.map_eq_none_iff.mp faces.peek?_kind

theorem rest_length (faces : Faces room draft row) : draft.cursor.rest.length = row.length := by
  have lengths := congrArg List.length faces.kinds
  rwa [List.length_map, List.length_map] at lengths

/-- A token that was seen ahead is one of the row. -/
theorem exists_lexeme (faces : Faces room draft row) {token : Token} (member : token ∈ draft.cursor.rest) :
    ∃ lexeme ∈ row, lexeme.kind = token.kind := by
  have listed : token.kind ∈ row.map Lexeme.kind := faces.kinds ▸ List.mem_map_of_mem member
  exact List.mem_map.mp listed

theorem not_arrow (faces : Faces room draft row) {token : Token} (member : token ∈ draft.cursor.rest) :
    token.isSymbol .arrow = false := by
  obtain ⟨lexeme, listed, kind⟩ := faces.exists_lexeme member
  have plain := faces.plain lexeme listed
  rw [Token.isSymbol, ← kind, beq_eq_false_iff_ne]
  intro arrow
  cases lexeme with
  | name word => cases arrow
  | reserved word => cases arrow
  | symbol sign =>
      obtain rfl := Token.Kind.symbol.inj arrow
      cases plain

theorem not_function (faces : Faces room draft row) {token : Token} (member : token ∈ draft.cursor.rest) :
    token.isKeyword .function_ = false := by
  obtain ⟨lexeme, listed, kind⟩ := faces.exists_lexeme member
  have plain := faces.plain lexeme listed
  rw [Token.isKeyword, ← kind, beq_eq_false_iff_ne]
  intro function
  cases lexeme with
  | name word => cases function
  | symbol sign => cases function
  | reserved word =>
      obtain rfl := Token.Kind.keyword.inj function
      cases plain

end Faces

theorem mem_of_nthOf {n : Nat} {row : List Token} {token : Token} (found : Cursor.nthOf n row = some token) :
    token ∈ row := by
  fun_induction Cursor.nthOf n row with
  | case1 => cases found
  | case2 _ _ _ _ ih => exact List.mem_cons_of_mem _ (ih found)
  | case3 first rest _ =>
      obtain rfl := Option.some.inj found
      exact List.mem_cons_self
  | case4 _ _ _ _ ih => exact List.mem_cons_of_mem _ (ih found)

/-! ## Taking and testing tokens -/

namespace Faces

open Reader (peek_bind)

variable {room : Nat} {draft : Draft} {row : List Lexeme} {lexeme : Lexeme} {sign : Symbol} {word : Name}

/-- A test of the next token by its kind. -/
theorem sees (faces : Faces room draft row) {test : Token → Bool} (passes : Token.Kind → Bool)
    (byKind : ∀ token, test token = passes token.kind) :
    Runs (Reader.nextIs test) draft.cursor ((ahead? row).any passes) draft.cursor := by
  have answer : draft.cursor.peek?.any test = (ahead? row).any passes := by
    rw [← faces.peek?_kind, Option.any_map]
    exact congrArg draft.cursor.peek?.any (funext byKind)
  rw [Reader.nextIs, Runs, peek_bind, answer]
  rfl

theorem seesSign (faces : Faces room draft row) (sign : Symbol) :
    Runs (Reader.check sign) draft.cursor (isNext row sign) draft.cursor :=
  faces.sees (· == .symbol sign) fun _ => rfl

theorem check (faces : Faces room draft row) (sign : Symbol) :
    Runs (liftM (Reader.check sign) : Builder Bool) draft (isNext row sign) draft :=
  (faces.seesSign sign).lift

theorem checkText (faces : Faces room draft row) (text : String) :
    Runs (liftM (Reader.checkText text) : Builder Bool) draft ((ahead? row).any (· == .name text)) draft :=
  (faces.sees (· == .name text) fun _ => rfl).lift

theorem rawIs (faces : Faces room draft row) (sign : Symbol) :
    Runs (liftM (Reader.rawIs (·.isSymbol sign)) : Builder Bool) draft (isNext row sign) draft := by
  have answer : draft.cursor.rest.head?.any (·.isSymbol sign) = isNext row sign := by
    rw [isNext, ahead?, ← List.head?_map, ← faces.kinds, List.head?_map, Option.any_map]
    rfl
  refine Runs.lift ?_
  rw [Reader.rawIs, Runs, get_bind, answer]
  rfl

theorem bumps (cursor : Cursor) : Runs Reader.bump cursor () cursor.advance := rfl

theorem eat (faces : Faces room draft (.symbol sign :: row)) :
    Runs (liftM (Reader.eat sign) : Builder Bool) draft true draft.next := by
  have found : isNext (.symbol sign :: row) sign = true := beq_self_eq_true (Token.Kind.symbol sign)
  refine Runs.lift ?_
  exact (faces.seesSign sign).bind (.yes found ((bumps _).bind .done))

theorem leaves (faces : Faces room draft row) (other : isNext row sign = false) :
    Runs (Reader.eat sign) draft.cursor false draft.cursor :=
  (faces.seesSign sign).bind (.no (Bool.eq_false_iff.mp other) .done)

theorem pass (faces : Faces room draft row) (other : isNext row sign = false) :
    Runs (liftM (Reader.eat sign) : Builder Bool) draft false draft := (faces.leaves other).lift

/-- The next token passes a test that it must pass. -/
theorem expectThat (faces : Faces room draft (lexeme :: row)) (what : Expectation) {test : Token → Bool}
    (passes : ∀ token : Token, token.kind = lexeme.kind → test token = true) :
    ∃ token, Runs (Reader.expectThat what test) draft.cursor token draft.cursor.advance ∧
      token.kind = lexeme.kind := by
  obtain ⟨token, found, kind, -⟩ := faces.exists_token
  refine ⟨token, ?_, kind⟩
  rw [Reader.expectThat, Runs, peek_bind, found]
  exact Runs.yes (passes token kind) ((bumps _).bind .done)

theorem expect (faces : Faces room draft (.symbol sign :: row)) :
    ∃ span, Runs (liftM (Reader.expect sign) : Builder Span) draft span draft.next := by
  obtain ⟨token, runs, -⟩ := faces.expectThat (.symbol sign) fun _ kind => beq_iff_eq.mpr kind
  have runs : Runs (Reader.expect sign) draft.cursor token.span draft.cursor.advance := runs.bind .done
  exact ⟨token.span, runs.lift⟩

theorem expectName (faces : Faces room draft (.name word :: row)) :
    ∃ found, Runs (liftM Reader.expectName : Builder (String × Span)) draft found draft.next := by
  have passes : ∀ token : Token, token.kind = .name word.text → token.isName = true := by
    intro token kind
    rw [Token.isName, kind]
  obtain ⟨token, runs, -⟩ := faces.expectThat .identifier passes
  have runs : Runs Reader.expectName draft.cursor (token.text, token.span) draft.cursor.advance :=
    runs.bind .done
  exact ⟨_, runs.lift⟩

theorem expectPropertyName (faces : Faces room draft (.name word :: row)) :
    ∃ span, Runs (liftM Reader.expectPropertyName : Builder (String × Span)) draft (word.text, span)
      draft.next := by
  have named : ∀ token : Token, token.kind = .name word.text →
      Reader.propertyName? token = some word.text := by
    intro token kind
    rw [Reader.propertyName?, kind]
  have passes : ∀ token : Token, token.kind = .name word.text →
      (Reader.propertyName? token).isSome = true := by
    intro token kind
    rw [named token kind, Option.isSome_some]
  obtain ⟨token, runs, kind⟩ := faces.expectThat .propertyName passes
  have runs : Runs Reader.expectPropertyName draft.cursor ((Reader.propertyName? token).getD "", token.span)
      draft.cursor.advance := runs.bind .done
  rw [named token kind, Option.getD_some] at runs
  exact ⟨token.span, runs.lift⟩

end Faces

/-! ## What starts and what may follow -/

theorem Expr.Opening.not_next {row : List Lexeme} (opening : Expr.Opening row) (more : List Lexeme) :
    isNext (row ++ more) .parenClose = false ∧ isNext (row ++ more) .spread = false := by
  obtain ⟨first, rest, rfl, opens⟩ := opening
  cases opens with
  | name word => exact ⟨rfl, rfl⟩
  | group => exact ⟨rfl, rfl⟩
  | leading operator =>
      rcases operator with (_ | _ | _) | _ <;> exact ⟨rfl, rfl⟩

namespace Operator

theorem level_pos (operator : Operator) : 0 < operator.level := by
  rcases operator with operator | operator <;> cases operator <;> decide

theorem level_lt (operator : Operator) : operator.level < 7 := by
  rcases operator with operator | operator <;> cases operator <;> decide

end Operator

theorem operator?_sign (operator : Operator) :
    Grammar.operator? operator.sign = some (operator.level, operator.node) := by
  rcases operator with operator | operator <;> cases operator <;> rfl

/-- What may stand behind an expression in a place that asks for a level. -/
inductive Follows (level : Nat) : List Lexeme → Prop where
  | nothing : Follows level []
  | parenClose (row : List Lexeme) : Follows level (.symbol .parenClose :: row)
  | comma (row : List Lexeme) : Follows level (.symbol .comma :: row)
  | colon (row : List Lexeme) : Follows level (.symbol .colon :: row)
  | question (row : List Lexeme) (inside : 0 < level) : Follows level (.symbol .question :: row)
  | operator (operator : Operator) (row : List Lexeme) (looser : operator.level < level) :
      Follows level (.symbol operator.sign :: row)

def mayFollow : Symbol → Bool
  | .parenClose | .comma | .colon | .question => true
  | sign => (Grammar.operator? sign).isSome

namespace Follows

variable {level : Nat} {row : List Lexeme}

/-- A place takes all that another one takes if it takes its operators. -/
theorem widen {higher : Nat} (follows : Follows level row) (inside : 0 < level → 0 < higher)
    (looser : ∀ operator : Operator, operator.level < level → operator.level < higher) :
    Follows higher row := by
  cases follows with
  | nothing => exact .nothing
  | parenClose row => exact .parenClose row
  | comma row => exact .comma row
  | colon row => exact .colon row
  | question row positive => exact .question row (inside positive)
  | operator operator row below => exact .operator operator row (looser operator below)

theorem raise {higher : Nat} (follows : Follows level row) (le : level ≤ higher) : Follows higher row :=
  follows.widen (Nat.lt_of_lt_of_le · le) fun _ below => Nat.lt_of_lt_of_le below le

/-- No operator binds tighter than an operand with its sign. -/
theorem operand (follows : Follows level row) : Follows 7 row :=
  follows.widen (fun _ => by decide) fun operator _ => operator.level_lt

theorem exists_sign {lexeme : Lexeme} (follows : Follows level (lexeme :: row)) :
    ∃ sign, lexeme = .symbol sign ∧ mayFollow sign = true := by
  cases follows with
  | operator operator row _ =>
      refine ⟨operator.sign, rfl, ?_⟩
      rcases operator with operator | operator <;> cases operator <;> rfl
  | _ => exact ⟨_, rfl, rfl⟩

theorem not_next {sign : Symbol} (follows : Follows level row) (never : mayFollow sign = false) :
    isNext row sign = false := by
  cases row with
  | nil => rfl
  | cons lexeme row =>
      obtain ⟨other, rfl, may⟩ := follows.exists_sign
      refine beq_eq_false_iff_ne.mpr ?_
      rintro ⟨rfl⟩
      exact Bool.false_ne_true (never.symm.trans may)

theorem absent {sign : Symbol} (follows : Follows level row) (never : mayFollow sign = false) :
    ¬ isNext row sign = true := Bool.eq_false_iff.mp (follows.not_next never)

theorem not_text (follows : Follows level row) (text : String) :
    (ahead? row).any (· == .name text) = false := by
  cases row with
  | nil => rfl
  | cons lexeme row =>
      obtain ⟨other, rfl, -⟩ := follows.exists_sign
      rfl

theorem not_question (follows : Follows 0 row) : isNext row .question = false := by
  cases follows with
  | question row inside => cases inside
  | operator operator row looser => cases looser
  | _ => rfl

/-- An operator that follows binds looser. -/
theorem looser {sign : Symbol} {own : Nat} {make : Nat → Nat → NodeKind} {rest : List Lexeme}
    (follows : Follows level (.symbol sign :: rest)) (found : Grammar.operator? sign = some (own, make)) :
    own < level := by
  generalize ahead : (.symbol sign :: rest : List Lexeme) = row at follows
  cases follows with
  | nothing => cases ahead
  | parenClose row => cases ahead; cases found
  | comma row => cases ahead; cases found
  | colon row => cases ahead; cases found
  | question row _ => cases ahead; cases found
  | operator operator row looser =>
      obtain ⟨same, -⟩ := List.cons_eq_cons.mp ahead
      rw [Lexeme.symbol.inj same, operator?_sign] at found
      obtain ⟨rfl, -⟩ := Prod.mk.inj (Option.some.inj found)
      exact looser

end Follows

/-! ## Loops -/

namespace Runs

variable {α : Type} {turn : Builder (Turn α)} {budget : Nat} {draft middle after : Draft} {item : α}

theorem stop (runs : Runs turn draft .stop after) : Runs (collectWithin turn (budget + 1)) draft [] after :=
  runs.bind .done

theorem last (runs : Runs turn draft (.last item) after) :
    Runs (collectWithin turn (budget + 1)) draft [item] after := runs.bind .done

theorem more {items : List α} (runs : Runs turn draft (.more (some item)) middle)
    (rest : Runs (collectWithin turn budget) middle items after) :
    Runs (collectWithin turn (budget + 1)) draft (item :: items) after := runs.bind (rest.bind .done)

theorem collect {items : List α}
    (runs : Runs (collectWithin turn (draft.cursor.rest.length + 1)) draft items after) :
    Runs (collect turn) draft items after := by
  have remaining : Runs (liftM Reader.remaining : Builder Nat) draft draft.cursor.rest.length draft := rfl
  exact remaining.bind runs

end Runs

/-- A loop gets from one value to another, taking tokens at each turn. -/
inductive Climbs (step : Nat → Builder (Option Nat)) : Nat → Draft → Nat → Draft → Prop where
  | stay (value : Nat) (draft : Draft) : Climbs step value draft value draft
  | up {value higher last : Nat} {draft middle after : Draft}
      (turn : Runs (step value) draft (some higher) middle)
      (fewer : middle.cursor.rest.length < draft.cursor.rest.length)
      (rest : Climbs step higher middle last after) : Climbs step value draft last after

namespace Climbs

variable {step : Nat → Builder (Option Nat)} {value last : Nat} {draft after : Draft}

theorem snoc {middle : Draft} {before : Nat} (climbs : Climbs step value draft before middle)
    (turn : Runs (step before) middle (some last) after)
    (fewer : after.cursor.rest.length < middle.cursor.rest.length) : Climbs step value draft last after := by
  induction climbs with
  | stay value draft => exact .up turn fewer (.stay last after)
  | up turn' fewer' _ ih => exact .up turn' fewer' (ih turn fewer)

theorem growWithin (climbs : Climbs step value draft last after) (stops : Runs (step last) after none after)
    (budget : Nat) (enough : draft.cursor.rest.length < budget) :
    Runs (growWithin step budget value) draft last after := by
  induction climbs generalizing budget with
  | stay value draft =>
      cases budget with
      | zero => cases enough
      | succ budget => exact stops.bind .done
  | up turn fewer _ ih =>
      cases budget with
      | zero => cases enough
      | succ budget => exact turn.bind (ih stops budget (by omega))

/-- The budget of the loop is enough, since no more turns are made than tokens are taken. -/
theorem grow (climbs : Climbs step value draft last after) (stops : Runs (step last) after none after) :
    Runs (grow step value) draft last after := by
  have remaining : Runs (liftM Reader.remaining : Builder Nat) draft draft.cursor.rest.length draft := rfl
  exact remaining.bind (climbs.growWithin stops _ (Nat.lt_succ_self _))

end Climbs

/-! ## Reading an expression -/

/-- A run ends before `rest` with a node for an expression, and keeps the nodes that were there. -/
structure Lands (room : Nat) (before after : Draft) (rest : List Lexeme) (expr : Expr) (node : Nat) : Prop where
  faces : Faces room after rest
  kept : Kept (kindAt before.nodes) (kindAt after.nodes)
  unfolds : expr.Unfolds (kindAt after.nodes) node

/-- A builder takes a row and makes it a node for an expression, whatever follows it that may. -/
def Reads (room : Nat) (build : Builder Nat) (row : List Lexeme) (follows : List Lexeme → Prop)
    (expr : Expr) : Prop :=
  ∀ draft rest, Faces room draft (row ++ rest) → follows rest →
    ∃ node after, Runs build draft node after ∧ Lands room draft after rest expr node

/-- A builder starts on a row, and a loop comes by at a node for the expression. -/
def Passes (room : Nat) (first : Builder Nat) (step : Nat → Builder (Option Nat)) (row : List Lexeme)
    (follows : List Lexeme → Prop) (expr : Expr) : Prop :=
  ∀ draft rest, Faces room draft (row ++ rest) → follows rest →
    ∃ value middle node after, Runs first draft value middle ∧ Climbs step value middle node after ∧
      Lands room draft after rest expr node

section

variable {room : Nat} {build : Builder Nat} {step : Nat → Builder (Option Nat)} {row : List Lexeme}
  {follows follows' : List Lexeme → Prop} {expr : Expr}

theorem Reads.passes (reads : Reads room build row follows expr) : Passes room build step row follows expr := by
  intro draft rest faces follow
  obtain ⟨node, after, runs, lands⟩ := reads draft rest faces follow
  exact ⟨node, after, node, after, runs, .stay node after, lands⟩

theorem Passes.narrow (passes : Passes room build step row follows expr)
    (may : ∀ rest, follows' rest → follows rest) : Passes room build step row follows' expr :=
  fun draft rest faces follow => passes draft rest faces (may rest follow)

theorem Passes.reads (passes : Passes room build step row follows expr)
    (may : ∀ rest, follows' rest → follows rest)
    (stops : ∀ draft rest value, Faces room draft rest → follows' rest → Runs (step value) draft none draft) :
    Reads room (do grow step (← build)) row follows' expr := by
  intro draft rest faces follow
  obtain ⟨value, middle, node, after, first, climbs, lands⟩ := passes draft rest faces (may rest follow)
  exact ⟨node, after, first.bind (climbs.grow (stops after rest node lands.faces follow)), lands⟩

theorem Passes.snoc {more : List Lexeme} {whole : Expr} (passes : Passes room build step row follows expr)
    (may : ∀ rest, follows' rest → follows (more ++ rest)) (some_ : more ≠ [])
    (turn : ∀ draft rest value, Faces room draft (more ++ rest) → follows' rest →
      expr.Unfolds (kindAt draft.nodes) value →
        ∃ node after, Runs (step value) draft (some node) after ∧ Lands room draft after rest whole node) :
    Passes room build step (row ++ more) follows' whole := by
  intro draft rest faces follow
  rw [List.append_assoc] at faces
  obtain ⟨value, middle, node, between, first, climbs, lands⟩ :=
    passes draft (more ++ rest) faces (may rest follow)
  obtain ⟨last, after, turned, lands'⟩ := turn between rest node lands.faces follow lands.unfolds
  have fewer : after.cursor.rest.length < between.cursor.rest.length := by
    have positive := List.length_pos_iff.mpr some_
    rw [lands.faces.rest_length, lands'.faces.rest_length, List.length_append]
    omega
  exact ⟨value, middle, last, after, first, climbs.snoc turned fewer,
    lands'.faces, lands.kept.trans lands'.kept, lands'.unfolds⟩

end

def Draft.added (draft : Draft) (kind : NodeKind) (span : Span) : Draft :=
  { draft with nodes := draft.nodes.push ⟨kind, span⟩ }

theorem Faces.added {room : Nat} {draft : Draft} {row : List Lexeme} (faces : Faces room draft row)
    (kind : NodeKind) (span : Span) : Faces room (draft.added kind span) row :=
  ⟨faces.kinds, faces.plain, faces.fits⟩

/-- A new node stands for an expression if it does so over the nodes that were there. -/
theorem Lands.made {room : Nat} {before draft : Draft} {rest : List Lexeme} {expr : Expr} {kind : NodeKind}
    {span : Span} (faces : Faces room draft rest) (kept : Kept (kindAt before.nodes) (kindAt draft.nodes))
    (unfolds : ∀ kinds, Kept (kindAt draft.nodes) kinds → kinds draft.nodes.size = kind →
      expr.Unfolds kinds draft.nodes.size) :
    Lands room before (draft.added kind span) rest expr draft.nodes.size :=
  { faces := faces.added kind span
    kept := kept.trans (.push draft.nodes ⟨kind, span⟩)
    unfolds := unfolds _ (.push draft.nodes ⟨kind, span⟩) (kindAt_push_size draft.nodes ⟨kind, span⟩) }

end Heed
