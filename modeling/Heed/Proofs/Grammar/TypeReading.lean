import Heed.Grammar.TypeSyntax
import Heed.Proofs.Grammar.RowReading
import Heed.Proofs.Grammar.TypeRendering

/-!
# Types are read as they are written

The productions of type syntax are run on the row of a type. A production reads a row whatever stands behind
it, as long as that may follow in its place: behind a part of a union a further part, behind the item of an
array type its brackets, and everywhere the signs that close a group or separate two items.

Brackets behind a type are taken by a loop around it. So the item of an array type is never read on its own:
what is shown of it is that the loop comes by it.
-/

set_option autoImplicit false

namespace Heed

namespace TypeExpr

open Glyph (joined between word sign Balanced)
open Grammar Reader

/-! ## What starts and what follows -/

/-- A sign that may stand somewhere is none that may not. -/
theorem not_symbol {may : Symbol → Bool} {symbol : Symbol} (never : may symbol = false) (other : Symbol)
    (holds : may other = true) : (Token.Kind.symbol other == .symbol symbol) = false := by
  rw [beq_eq_false_iff_ne]
  rintro ⟨rfl⟩
  exact Bool.false_ne_true (never.symm.trans holds)

namespace Follows

variable {place : Nat} {row : List Glyph}

theorem raise {higher : Nat} (follows : Follows place row) (le : place ≤ higher) : Follows higher row := by
  intro glyph ahead
  obtain ⟨symbol, kind, may⟩ := follows glyph ahead
  refine ⟨symbol, kind, ?_⟩
  cases symbol with
  | pipe =>
      simp only [mayFollow, decide_eq_true_eq] at may ⊢
      omega
  | amp =>
      simp only [mayFollow, decide_eq_true_eq] at may ⊢
      omega
  | bracketOpen =>
      simp only [mayFollow, decide_eq_true_eq] at may ⊢
      omega
  | _ => exact may

/-- A test of the next token that no sign passes which may follow. -/
theorem not_any (follows : Follows place row) (test : Token.Kind → Bool)
    (never : ∀ symbol, mayFollow place symbol = true → test (.symbol symbol) = false) :
    (row.head?.any fun glyph => test glyph.kind) = false := by
  cases ahead : row.head? with
  | none => rfl
  | some glyph =>
      obtain ⟨symbol, kind, may⟩ := follows glyph ahead
      rw [Option.any_some, kind]
      exact never symbol may

theorem not_ahead {symbol : Symbol} (follows : Follows place row) (never : mayFollow place symbol = false) :
    isAhead row symbol = false := follows.not_any (· == .symbol symbol) (not_symbol never)

end Follows

namespace Opening

variable {row : List Glyph}

theorem not_ahead {symbol : Symbol} (opening : Opening row) (never : mayOpen symbol = false) :
    isAhead row symbol = false := by
  cases opening with
  | name behind => rfl
  | @literal kind text rest isLiteral =>
      cases kind with
      | symbol other => cases isLiteral
      | _ => rfl
  | @sign other rest opens => exact not_symbol never other opens

/-- A name at the start of a type stands alone: no test is passed by what comes next that no sign passes which
may follow a name. -/
theorem not_both (opening : Opening row) (first second : Token.Kind → Bool)
    (named : ∀ kind, first kind = true → (∃ name, kind = .name name) ∨ kind = .keyword .this_)
    (never : ∀ symbol, mayFollowName symbol = true → second (.symbol symbol) = false) :
    ((row.head?.any fun glyph => first glyph.kind) && (row[1]?.any fun glyph => second glyph.kind)) = false := by
  rw [Bool.and_eq_false_imp]
  intro starts
  cases opening with
  | @name word text rest behind =>
      rw [List.getElem?_cons_succ, ← List.head?_eq_getElem?]
      cases ahead : rest.head? with
      | none => rfl
      | some glyph =>
          obtain ⟨symbol, kind, may⟩ := behind glyph ahead
          rw [Option.any_some, kind]
          exact never symbol may
  | @literal kind text rest isLiteral =>
      rcases named kind starts with ⟨name, rfl⟩ | rfl <;> cases isLiteral
  | @sign other rest opens =>
      rcases named _ starts with ⟨name, same⟩ | same <;> cases same

end Opening

/-! ## Results and items -/

/-- The type is read at the places inside of a form, which are places that ask for no level. -/
structure Nests (room : Nat) (types : TypeProductions) (type : TypeExpr) : Prop where
  parses : Parses room types.type type.words (Follows 1) type
  opening : Opening type.words

section

variable {room : Nat} {types : TypeProductions} {type : TypeExpr} {cursor : Cursor} {row rest : List Glyph}

def isNameKind : Token.Kind → Bool
  | .name _ => true
  | _ => false

def isNameOrThisKind (kind : Token.Kind) : Bool := isNameKind kind || kind == .keyword .this_

theorem named_of_isNameOrThisKind (kind : Token.Kind) (holds : isNameOrThisKind kind = true) :
    (∃ name, kind = .name name) ∨ kind = .keyword .this_ := by
  cases kind with
  | name name => exact .inl ⟨name, rfl⟩
  | keyword word => exact .inr (beq_iff_eq.mp holds)
  | _ => cases holds

theorem typeParams_absent (shows : Shows room cursor row) (absent : isAhead row .less = false) :
    Runs (typeParams types) cursor [] cursor := (shows.check .less).bind (.no (Bool.eq_false_iff.mp absent) .done)

/-- A type is never taken for a predicate or an assertion. -/
theorem parses_returnType (nests : Nests room types type) :
    Parses room (returnType types) type.words (Follows 1) type := by
  intro cursor rest shows follow
  obtain ⟨after, runs, shown⟩ := nests.parses cursor rest shows follow
  have opening := nests.opening.append (follow.raise (by omega))
  have asserts := shows.checkText "asserts"
  have subject := shows.seesNth 1 isNameOrThis isNameOrThisKind fun _ => rfl
  have named := shows.sees isNameOrThis isNameOrThisKind fun _ => rfl
  have predicate := shows.seesNth 1 (·.isWord "is") (· == .name "is") fun _ => rfl
  have unasserted := opening.not_both (· == .name "asserts") isNameOrThisKind
    (fun kind same => .inl ⟨_, beq_iff_eq.mp same⟩) fun _ _ => rfl
  have unpredicated := opening.not_both isNameOrThisKind (· == .name "is") named_of_isNameOrThisKind fun _ _ => rfl
  exact ⟨after, asserts.bind (subject.bind (.no (Bool.eq_false_iff.mp unasserted)
    (named.bind (predicate.bind (.no (Bool.eq_false_iff.mp unpredicated) runs))))), shown⟩

def tupleItem (types : TypeProductions) : Reader TypeExpr := do
  let _ ← Reader.eat .spread
  if ← atTupleLabel then
    bump
    let _ ← Reader.eat .question
    let _ ← expect .colon
  let item ← types.type
  let _ ← Reader.eat .question
  return item

/-- A type is never taken for a label. -/
theorem not_atTupleLabel (opening : Opening row) (shows : Shows room cursor row) :
    Runs atTupleLabel cursor false cursor := by
  have named := shows.sees Token.isName isNameKind fun _ => rfl
  have colon := shows.seesNth 1 (·.isSymbol .colon) (· == .symbol .colon) fun _ => rfl
  have question := shows.seesNth 1 (·.isSymbol .question) (· == .symbol .question) fun _ => rfl
  have isNamed : ∀ kind, isNameKind kind = true → (∃ name, kind = .name name) ∨ kind = .keyword .this_ :=
    fun kind holds => named_of_isNameOrThisKind kind (by rw [isNameOrThisKind, holds, Bool.true_or])
  have noColon := opening.not_both isNameKind (· == .symbol .colon) isNamed (not_symbol rfl)
  have noQuestion := opening.not_both isNameKind (· == .symbol .question) isNamed (not_symbol rfl)
  refine named.bind ?_
  cases starts : row.head?.any fun glyph => isNameKind glyph.kind with
  | false => exact .no Bool.false_ne_true .done
  | true =>
      rw [starts, Bool.true_and] at noColon noQuestion
      exact .yes rfl (colon.bind (.no (Bool.eq_false_iff.mp noColon)
        (question.bind (.no (Bool.eq_false_iff.mp noQuestion) .done))))

theorem parses_tupleItem (nests : Nests room types type) :
    Parses room (tupleItem types) type.words (Follows 1) type := by
  intro cursor rest shows follow
  obtain ⟨after, runs, shown⟩ := nests.parses cursor rest shows follow
  have opening := nests.opening.append (follow.raise (by omega))
  have unspread : Runs (Reader.eat .spread) cursor false cursor := shows.leaves (opening.not_ahead rfl)
  have required : Runs (Reader.eat .question) after false after := shown.leaves (follow.not_ahead rfl)
  exact ⟨after, unspread.bind ((not_atTupleLabel opening shows).bind (.no Bool.false_ne_true
    (runs.bind (required.bind .done)))), shown⟩

/-! ## Lists of types -/

theorem rowsAt_zero (types : List TypeExpr) : rowsAt 0 types = types.map words := by
  rw [rowsAt_eq_map]
  exact List.map_congr_left fun type _ => wordsAt_of_le (Nat.zero_le type.level)

/-- Types with commas between them, up to a sign that closes the list. -/
theorem list_runs {read : Reader TypeExpr} (close : Symbol) (distinct : close ≠ .comma)
    (closes : mayFollow 1 close = true) (never : mayOpen close = false) {items : List TypeExpr}
    (parses : ∀ item ∈ items, Parses room read item.words (Follows 1) item)
    (opening : ∀ item ∈ items, Opening item.words)
    (shows : Shows room cursor (joined .comma (rowsAt 0 items) ++ sign close :: rest)) :
    ∃ after, Runs (commaList close read) cursor items after ∧ Shows room after (sign close :: rest) := by
  rw [rowsAt_zero] at shows
  refine parses_commaList distinct (follows_sign rfl) (follows_sign closes) parses ?_ shows
  intro item member rest follow
  exact ((opening item member).append (follow.raise (by omega))).not_ahead never

theorem typeArgs_runs {args : List TypeExpr} (nests : ∀ arg ∈ args, Nests room types arg)
    (shows : Shows (room + 1) cursor (argumentWords (rowsAt 0 args) ++ rest)) (follow : Follows 4 rest) :
    ∃ after, Runs (typeArgs types) cursor args after ∧ Shows (room + 1) after rest := by
  cases args with
  | nil =>
      have absent : ¬ isAhead rest .less = true := Bool.eq_false_iff.mp (follow.not_ahead rfl)
      exact ⟨cursor, (shows.rawIs .less).bind (.no absent .done), shows⟩
  | cons arg args =>
      have shows : Shows (room + 1) cursor
          (sign .less :: (joined .comma (rowsAt 0 (arg :: args)) ++ sign .greater :: rest)) := by
        simpa [rowsAt, argumentWords, between] using shows
      obtain ⟨after, runs, shown⟩ := list_runs .greater (by decide) rfl rfl
        (fun item member => (nests item member).parses) (fun item member => (nests item member).opening) shows.next
      obtain ⟨span, closed⟩ := shown.expect
      refine ⟨after.advance, ?_, shown.later.wide⟩
      exact (shows.rawIs .less).bind (.yes rfl ((Faces.bumps _).bind (runs.bind (closed.bind .done))))

theorem tupleType_runs {items : List TypeExpr} (nests : ∀ item ∈ items, Nests room types item)
    (shows : Shows (room + 1) cursor ((TypeExpr.tuple items).words ++ rest)) :
    ∃ after, Runs (tupleType types) cursor (.tuple items) after ∧ Shows (room + 1) after rest := by
  have shows : Shows (room + 1) cursor
      (sign .bracketOpen :: (joined .comma (rowsAt 0 items) ++ sign .bracketClose :: rest)) := by
    simpa [words, between] using shows
  obtain ⟨after, runs, shown⟩ := list_runs .bracketClose (by decide) rfl rfl
    (fun item member => parses_tupleItem (nests item member)) (fun item member => (nests item member).opening)
    shows.next
  obtain ⟨span, opened⟩ := shows.expect
  obtain ⟨span', closed⟩ := shown.expect
  exact ⟨after.advance, opened.bind (runs.bind (closed.bind .done)), shown.later.wide⟩

/-! ## References -/

def dotStep (name : String) : Reader (Option String) := do
  if ← Reader.eat .dot then
    let (part, _) ← expectPropertyName
    return some (name ++ "." ++ part)
  else
    return none

def dottedName (first : String) (others : List String) : String :=
  others.foldl (fun name part => name ++ "." ++ part) first

theorem dotStep_carries (first : String) (others : List String)
    (shows : Shows room cursor (trailing .dot (fun part => [word part]) others ++ rest)) :
    ∃ after, Carries dotStep first cursor (dottedName first others) after ∧ Shows room after rest := by
  induction others generalizing first cursor with
  | nil => exact ⟨cursor, .stay first cursor, shows⟩
  | cons part others ih =>
      have shows : Shows room cursor
          (sign .dot :: word part :: (trailing .dot (fun part => [word part]) others ++ rest)) := by
        simpa [trailing] using shows
      obtain ⟨span, named⟩ := shows.later.expectPropertyName
      obtain ⟨after, carries, shown⟩ := ih (first ++ "." ++ part) shows.later.later
      have turn : Runs (dotStep first) cursor (some (first ++ "." ++ part)) cursor.advance.advance :=
        shows.eat.bind (.yes rfl (named.bind .done))
      have fewer : cursor.advance.advance.rest.length < cursor.rest.length := by
        rw [shows.later.later.rest_length, shows.rest_length]
        simp only [List.length_cons]
        omega
      exact ⟨after, (Carries.turn turn fewer).trans carries, shown⟩

theorem toList_dottedName (first : String) (others : List String) :
    (dottedName first others).toList = ['.'].intercalate ((first :: others).map String.toList) := by
  induction others generalizing first with
  | nil => simp [dottedName]
  | cons part others ih =>
      have step : dottedName first (part :: others) = dottedName (first ++ "." ++ part) others := rfl
      rw [step, ih]
      cases others with
      | nil => simp [List.intercalate_cons_cons]
      | cons next others => simp [List.intercalate_cons_cons]

theorem dottedName_segments {name first : String} {others : List String} (parts : segments name = first :: others) :
    dottedName first others = name := by
  apply String.toList_injective
  rw [toList_dottedName, ← parts, segments, List.map_map]
  have same : (String.toList ∘ String.ofList) = id := funext fun chars => String.toList_ofList
  rw [same, List.map_id, List.intercalate_splitOn]

theorem typeReference_runs {name : String} {args : List TypeExpr} (reference : isReference name = true)
    (nests : ∀ arg ∈ args, Nests room types arg)
    (shows : Shows (room + 1) cursor ((TypeExpr.named name args).words ++ rest)) (follow : Follows 4 rest) :
    ∃ after, Runs (typeReference types) cursor (.named name args) after ∧ Shows (room + 1) after rest := by
  obtain ⟨first, others, parts, isName, -⟩ := segments_of_isReference reference
  rw [words, parts, joined_map_cons, List.append_assoc, List.append_assoc, word_of_isTypeName isName,
    List.singleton_append] at shows
  obtain ⟨span, named⟩ := shows.expectName
  obtain ⟨middle, carries, shown⟩ := dotStep_carries first others shows.later
  rw [dottedName_segments parts] at carries
  have ends : isAhead (argumentWords (rowsAt 0 args) ++ rest) .dot = false := by
    cases args with
    | nil => exact follow.not_ahead rfl
    | cons arg args => rfl
  have undotted : Runs (dotStep name) middle none middle :=
    (shown.leaves ends).bind (.no Bool.false_ne_true .done)
  obtain ⟨after, runs, shown'⟩ := typeArgs_runs nests shown follow
  exact ⟨after, named.bind ((carries.grow undotted).bind (runs.bind .done)), shown'⟩

/-! ## Members -/

def endsName (kind : Token.Kind) : Bool :=
  [Symbol.colon, .question, .parenOpen, .less, .semicolon, .comma, .braceClose].any (kind == .symbol ·)

structure AtMember (room : Nat) (cursor : Cursor) (name : String) (symbol : Symbol) (row : List Glyph) : Prop where
  shows : Shows room cursor (word name :: sign symbol :: row)
  isName : TypeMember.isMemberName name = true
  ends : symbol = .colon ∨ symbol = .parenOpen

namespace AtMember

variable {name : String} {symbol : Symbol}

theorem nameEnds (atMember : AtMember room cursor name symbol row) : Runs (nameEndsAt 1) cursor true cursor := by
  have seen : Runs (nameEndsAt 1) cursor
      ((word name :: sign symbol :: row)[1]?.any fun glyph => endsName glyph.kind) cursor :=
    atMember.shows.seesNth 1 _ endsName fun _ => rfl
  rcases atMember.ends with rfl | rfl
  · exact seen
  · exact seen

/-- The name is never taken for the word of an accessor. -/
theorem plain (atMember : AtMember room cursor name symbol row) : Runs atAccessor cursor false cursor := by
  have either : ∀ marked : Bool, Runs (if marked then do return !(← nameEndsAt 1) else return false)
      cursor false cursor := by
    intro marked
    cases marked with
    | false => exact .no Bool.false_ne_true .done
    | true => exact .yes rfl (atMember.nameEnds.bind .done)
  exact (atMember.shows.checkText "get").bind ((atMember.shows.checkText "set").bind (either _))

theorem not_new (atMember : AtMember room cursor name symbol row) : Runs (checkWord .new_) cursor false cursor := by
  have seen := atMember.shows.sees (·.isKeyword .new_) (· == .keyword .new_) fun _ => rfl
  have other : (Token.wordKind name == .keyword .new_) = false := by
    rw [beq_eq_false_iff_ne]
    intro reserved
    rcases Token.wordKind_cases name with kind | ⟨keyword, kind, spells⟩
    · rw [kind] at reserved
      cases reserved
    · rw [kind] at reserved
      obtain rfl := Token.Kind.keyword.inj reserved
      have differs := (Bool.and_eq_true_iff.mp atMember.isName).2
      rw [← spells] at differs
      cases differs
  rw [List.head?_cons, Option.any_some, show (word name).kind = Token.wordKind name from rfl, other] at seen
  exact seen

end AtMember

def unmarkedMember (types : TypeProductions) : Reader (Option TypeMember) := do
  if ← check .bracketOpen then
    skipBalanced .bracketOpen .bracketClose
    let _ ← Reader.eat .question
    if ← Reader.eat .colon then
      let _ ← types.type
    return none
  else if (← check .parenOpen) || (← check .less) then
    skipSignature types
    return none
  else if ← checkWord .new_ then
    bump
    skipSignature types
    return none
  else
    return some (← namedMember types)

theorem typeMember_of_named {name : String} {symbol : Symbol} {member : TypeMember} {after : Cursor}
    (atMember : AtMember room cursor name symbol row) (runs : Runs (namedMember types) cursor member after) :
    Runs (typeMember types) cursor (some member) after := by
  have shows := atMember.shows
  have absent : ∀ other, isAhead (word name :: sign symbol :: row) other = false := isAhead_word name _
  have signless : ¬ (isAhead (word name :: sign symbol :: row) .parenOpen ||
      isAhead (word name :: sign symbol :: row) .less) = true := by
    simp [absent]
  have unmarked : Runs (unmarkedMember types) cursor (some member) after :=
    (shows.check .bracketOpen).bind (.no (Bool.eq_false_iff.mp (absent _)) ((shows.check .parenOpen).bind
      ((shows.check .less).bind (.no signless (atMember.not_new.bind (.no Bool.false_ne_true (runs.bind .done)))))))
  -- `readonly` is itself the name where a sign follows that ends a name
  refine (shows.checkText "readonly").bind ?_
  cases (word name :: sign symbol :: row).head?.any fun glyph => glyph.kind == .name "readonly" with
  | false => exact .no Bool.false_ne_true unmarked
  | true => exact .yes rfl (atMember.nameEnds.bind (.no Bool.false_ne_true unmarked))

theorem method_runs {name : String} {after : Cursor} {member : TypeMember}
    (atMember : AtMember room cursor name .parenOpen row)
    (runs : Runs (methodMember types name false) cursor.advance member after) :
    Runs (typeMember types) cursor (some member) after := by
  obtain ⟨span, named⟩ := atMember.shows.expectPropertyName
  have behind := atMember.shows.later
  have required : Runs (Reader.eat .question) cursor.advance false cursor.advance := behind.leaves rfl
  exact typeMember_of_named atMember (atMember.plain.bind (.no Bool.false_ne_true (named.bind (required.bind
    ((behind.check .less).bind ((behind.check .parenOpen).bind (.yes rfl runs)))))))

theorem member_runs {member : TypeMember} (named : member.isNamed = true)
    (nests : ∀ type ∈ member.type?, Nests room types type)
    (shows : Shows room cursor (memberWords member ++ sign .semicolon :: rest)) :
    ∃ after, Runs (typeMember types) cursor (some member) after ∧ Shows room after (sign .semicolon :: rest) := by
  have ends : Follows 1 (sign .semicolon :: rest) := follows_sign rfl rest
  cases member with
  | property name type =>
      have atMember : AtMember room cursor name .colon (type.words ++ sign .semicolon :: rest) :=
        ⟨shows, named, .inl rfl⟩
      obtain ⟨span, isNamed⟩ := shows.expectPropertyName
      obtain ⟨after, runs, shown⟩ := (nests type rfl).parses _ _ shows.later.later ends
      have required : Runs (Reader.eat .question) cursor.advance false cursor.advance := shows.later.leaves rfl
      refine ⟨after, typeMember_of_named atMember ?_, shown⟩
      exact atMember.plain.bind (.no Bool.false_ne_true (isNamed.bind (required.bind ((shows.later.check .less).bind
        ((shows.later.check .parenOpen).bind (.no Bool.false_ne_true (shows.later.eat.bind (.yes rfl
          (runs.bind .done)))))))))
  | method name result =>
      obtain ⟨isName, other⟩ := Bool.and_eq_true_iff.mp named
      obtain ⟨middle, skipped, shown⟩ := shows.later.skipParens
      obtain ⟨after, runs, shown'⟩ := parses_returnType (nests result rfl) _ _ shown.later ends
      have unparametrised := @typeParams_absent _ types _ _ shows.later rfl
      refine ⟨after, method_runs ⟨shows, isName, .inr rfl⟩ ?_, shown'⟩
      exact unparametrised.bind (skipped.bind (shown.eat.bind (.yes rfl (runs.bind
        (.no (by simpa using other) (.no Bool.false_ne_true .done))))))
  | initializer =>
      obtain ⟨after, skipped, shown⟩ := shows.later.skipParens
      have unparametrised := @typeParams_absent _ types _ _ shows.later rfl
      have untyped : Runs (Reader.eat .colon) after false after := shown.leaves rfl
      refine ⟨after, method_runs ⟨shows, rfl, .inr rfl⟩ ?_, shown⟩
      exact unparametrised.bind (skipped.bind (untyped.bind (.no Bool.false_ne_true (Runs.bind .done (.yes rfl .done)))))

def memberTurn (types : TypeProductions) : Reader (Turn TypeMember) := do
  if ← Reader.eat .semicolon then
    return .more none
  else if ← Reader.eat .comma then
    return .more none
  else if ← Reader.eat .braceClose then
    return .stop
  else if ← atEnd then
    unexpected .closingBrace
  else
    return .more (← typeMember types)

theorem memberWords_cons (member : TypeMember) :
    ∃ tail, memberWords member = word member.name :: tail := by
  cases member with
  | property name type => exact ⟨_, rfl⟩
  | method name result => exact ⟨_, rfl⟩
  | initializer => exact ⟨_, rfl⟩

/-- A turn that reads a member. -/
theorem memberTurn_runs {member : TypeMember} {after : Cursor}
    (shows : Shows room cursor (memberWords member ++ row))
    (runs : Runs (typeMember types) cursor (some member) after) :
    Runs (memberTurn types) cursor (.more (some member)) after := by
  obtain ⟨tail, starts⟩ := memberWords_cons member
  rw [starts, List.cons_append] at shows
  have passes : ∀ symbol, Runs (Reader.eat symbol) cursor false cursor :=
    fun symbol => shows.leaves (isAhead_word _ _ symbol)
  exact (passes .semicolon).bind (.no Bool.false_ne_true ((passes .comma).bind (.no Bool.false_ne_true
    ((passes .braceClose).bind (.no Bool.false_ne_true (shows.not_atEnd.bind (.no Bool.false_ne_true
      (runs.bind .done))))))))

theorem gathers_members {members : List TypeMember} (named : ∀ member ∈ members, member.isNamed = true)
    (nests : ∀ member ∈ members, ∀ type ∈ member.type?, Nests room types type)
    (shows : Shows room cursor (membersWords members ++ sign .braceClose :: rest)) :
    ∃ after, Gathers (memberTurn types) cursor members after ∧ Shows room after rest := by
  induction members generalizing cursor with
  | nil =>
      have other : ∀ symbol, symbol ≠ .braceClose → Runs (Reader.eat symbol) cursor false cursor :=
        fun symbol differs => shows.leaves (isAhead_sign_of_ne differs.symm rest)
      refine ⟨cursor.advance, .stop ?_, shows.later⟩
      exact (other .semicolon (by decide)).bind (.no Bool.false_ne_true ((other .comma (by decide)).bind
        (.no Bool.false_ne_true (shows.eat.bind (.yes rfl .done)))))
  | cons member members ih =>
      rw [List.forall_mem_cons] at named nests
      rw [membersWords, List.append_assoc, List.cons_append] at shows
      obtain ⟨middle, runs, shown⟩ := member_runs named.1 nests.1 shows
      obtain ⟨after, gathers, shown'⟩ := ih named.2 nests.2 shown.later
      have separated : Runs (memberTurn types) middle (.more none) middle.advance := shown.eat.bind (.yes rfl .done)
      have fewer : middle.rest.length < cursor.rest.length := by
        obtain ⟨tail, starts⟩ := memberWords_cons member
        rw [shown.rest_length, shows.rest_length, starts]
        simp only [List.length_append, List.length_cons]
        omega
      have fewer' : middle.advance.rest.length < middle.rest.length := by
        rw [shown.later.rest_length, shown.rest_length, List.length_cons]
        omega
      -- the semicolon behind a member takes a turn of its own
      exact ⟨after, .more (memberTurn_runs shows runs) fewer (.more separated fewer' gathers), shown'⟩

theorem typeMembers_runs {members : List TypeMember} (named : ∀ member ∈ members, member.isNamed = true)
    (nests : ∀ member ∈ members, ∀ type ∈ member.type?, Nests room types type)
    (shows : Shows (room + 1) cursor ((TypeExpr.object members).words ++ rest)) :
    ∃ after, Runs (typeMembers types) cursor members after ∧ Shows (room + 1) after rest := by
  have shows : Shows (room + 1) cursor (sign .braceOpen :: (membersWords members ++ sign .braceClose :: rest)) := by
    simpa [words, between] using shows
  obtain ⟨span, opened⟩ := shows.expect
  obtain ⟨after, gathers, shown⟩ := gathers_members named nests shows.next
  exact ⟨after, opened.bind gathers.collect, shown.wide⟩

/-! ## Functions and groups -/

theorem behindParens_any {next : Option Token} (seen : next.map Token.glyph = rest.head?) (symbol : Symbol) :
    next.any (·.isSymbol symbol) = isAhead rest symbol := by
  rw [isAhead, ← seen, Option.any_map]
  rfl

/-- Parentheses with an arrow behind them start a function type. -/
theorem parenType_function (nests : Nests room types type)
    (shows : Shows (room + 1) cursor ((TypeExpr.function type).words ++ rest)) (follow : Follows 1 rest) :
    ∃ after, Runs (parenType types) cursor (.function type) after ∧ Shows (room + 1) after rest := by
  have shows : Shows (room + 1) cursor
      (sign .parenOpen :: sign .parenClose :: sign .arrow :: (type.words ++ rest)) := by
    simpa [words] using shows
  obtain ⟨next, looked, seen⟩ := @Shows.behindParens _ _ [] (sign .arrow :: (type.words ++ rest)) shows .nil
  have arrow : next.any (·.isSymbol .arrow) = true := behindParens_any seen .arrow
  have unparametrised := @typeParams_absent _ types _ _ shows rfl
  obtain ⟨middle, skipped, shown⟩ := shows.skipParens
  obtain ⟨span, expected⟩ := shown.expect
  have inside : Shows room middle.advance (type.words ++ rest) := by
    have fits := shows.fits
    simp only [List.length_cons] at fits
    exact { shown.later with fits := by omega }
  obtain ⟨after, runs, shown'⟩ := parses_returnType nests _ _ inside follow
  have here : Runs (get : Reader Cursor) cursor cursor cursor := rfl
  exact ⟨after, here.bind (looked.bind (.yes arrow (unparametrised.bind (skipped.bind (expected.bind
    (runs.bind .done)))))), shown'.wide⟩

/-- Other parentheses hold a type. -/
theorem parenType_group (parses : Parses room types.type row (Follows 1) type) (balanced : Balanced row)
    (shows : Shows (room + 1) cursor (between .parenOpen .parenClose row ++ rest)) (follow : Follows 4 rest) :
    ∃ after, Runs (parenType types) cursor type after ∧ Shows (room + 1) after rest := by
  obtain ⟨next, looked, seen⟩ := shows.behindParens balanced
  have plain : ¬ next.any (·.isSymbol .arrow) = true := by
    rw [behindParens_any seen, follow.not_ahead rfl]
    exact Bool.false_ne_true
  have shows : Shows (room + 1) cursor (sign .parenOpen :: (row ++ sign .parenClose :: rest)) := by
    simpa [between] using shows
  obtain ⟨after, runs, shown⟩ := parses _ _ shows.next (follows_sign rfl rest)
  obtain ⟨span, closed⟩ := shown.expect
  have here : Runs (get : Reader Cursor) cursor cursor cursor := rfl
  exact ⟨after.advance, here.bind (looked.bind (.no plain ((Faces.bumps _).bind (runs.bind (closed.bind .done))))),
    shown.later.wide⟩

/-! ## Forms that bind tight -/

def indexStep (types : TypeProductions) (type : TypeExpr) : Reader (Option TypeExpr) := do
  if ← rawIs (·.isSymbol .bracketOpen) then
    bump
    if ← Reader.eat .bracketClose then
      return some (.array type)
    else
      let _ ← types.type
      let _ ← expect .bracketClose
      return some .unmodelled
  else
    return none

theorem literal_runs {text : String} (literal : isLiteral text = true)
    (shows : Shows room cursor ((TypeExpr.literal text).words ++ rest)) :
    ∃ after, Runs (primaryType types) cursor (.literal text) after ∧ Shows room after rest := by
  rw [words] at shows
  rcases literal_cases literal with ⟨kind, -, isKind, row⟩ | ⟨numeral, value, rfl, -, row⟩
  · rw [row] at shows
    obtain ⟨span, seen⟩ := shows.peek
    refine ⟨cursor.advance, seen.bind ?_, shows.later⟩
    cases kind with
    | string value => exact (Faces.bumps _).bind .done
    | number value => exact (Faces.bumps _).bind .done
    | keyword word =>
        cases word with
        | true_ => exact (Faces.bumps _).bind .done
        | false_ => exact (Faces.bumps _).bind .done
        | _ => cases isKind
    | _ => cases isKind
  · rw [row] at shows
    obtain ⟨span, seen⟩ := shows.peek
    have passes : ∀ token : Token, token.glyph = ⟨.number value, numeral⟩ → isNumberKind token.kind = true := by
      intro token same
      rw [show token.kind = .number value from congrArg Glyph.kind same]
      rfl
    obtain ⟨token, runs, same⟩ := shows.later.expectThat .number passes
    have spelled : token.text = numeral := congrArg Glyph.text same
    refine ⟨cursor.advance.advance, seen.bind ((Faces.bumps _).bind (runs.bind ?_)), shows.later.later⟩
    rw [spelled]
    exact .done

theorem array_runs (shows : Shows room cursor ([sign .bracketOpen, sign .bracketClose] ++ rest)) :
    ∃ after, Runs (indexStep types type) cursor (some (.array type)) after ∧ Shows room after rest := by
  have shows : Shows room cursor (sign .bracketOpen :: sign .bracketClose :: rest) := shows
  refine ⟨cursor.advance.advance, ?_, shows.later.later⟩
  exact (shows.rawIs .bracketOpen).bind (.yes rfl ((Faces.bumps _).bind (shows.later.eat.bind (.yes rfl .done))))

theorem wordType_runs {name : String} (isName : isTypeName name = true) {after : Cursor}
    (runs : Runs (typeReference types) cursor type after) : Runs (wordType types name) cursor type after := by
  have differs : name ∉ typeOperators := by
    simpa using (Bool.and_eq_true_iff.mp isName).2
  simp only [typeOperators, List.mem_cons, List.not_mem_nil, or_false, not_or] at differs
  obtain ⟨notTypeof, notKeyof, notUnique, notReadonly, notInfer⟩ := differs
  exact .no notTypeof (.no (not_or.mpr ⟨notKeyof, notUnique⟩) (.no notReadonly (.no notInfer runs)))

end

/-! ## Parts -/

def partTurn (symbol : Symbol) (part : Reader TypeExpr) : Reader (Turn TypeExpr) := do
  if ← Reader.eat symbol then return .more (some (← part)) else return .stop

/-- A sign joins the parts that stand in a place which asks for the next level. -/
structure Joins (symbol : Symbol) (place : Nat) : Prop where
  within : mayFollow (place + 1) symbol = true
  alone : mayFollow place symbol = false
  unopened : mayOpen symbol = false
  low : place < 4

theorem joins_pipe : Joins .pipe 1 := ⟨rfl, rfl, rfl, by omega⟩

theorem joins_amp : Joins .amp 2 := ⟨rfl, rfl, rfl, by omega⟩

section

variable {room : Nat} {part : Reader TypeExpr} {join : List TypeExpr → TypeExpr} {symbol : Symbol} {place : Nat}

/-- One part, with no sign that joins it to another. -/
theorem partsOf_single {row : List Glyph} {type : TypeExpr} {lower : Nat} (joins : Joins symbol place)
    (le : lower ≤ place) (parses : Parses room part row (Follows lower) type) (opening : Opening row) :
    Parses room (partsOf symbol part join) row (Follows lower) type := by
  intro cursor rest shows follow
  have low := joins.low
  have unled := shows.leaves ((opening.append (follow.raise (by omega))).not_ahead joins.unopened)
  obtain ⟨after, runs, shown⟩ := parses cursor rest shows follow
  have stopped : Gathers (partTurn symbol part) after [] after :=
    .stop ((shown.leaves ((follow.raise le).not_ahead joins.alone)).bind (.no Bool.false_ne_true .done))
  exact ⟨after, unled.bind (runs.bind (stopped.collect.bind .done)), shown⟩

/-- Behind a part stands what may follow it: a further part, or what follows the last one. -/
theorem follows_trailing (joins : Joins symbol place) (rowOf : TypeExpr → List Glyph) (others : List TypeExpr)
    {rest : List Glyph} (follow : Follows place rest) :
    Follows (place + 1) (trailing symbol rowOf others ++ rest) := by
  cases others with
  | nil => exact follow.raise (by omega)
  | cons other others => exact follows_sign joins.within _

theorem gathers_parts {rowOf : TypeExpr → List Glyph} {others : List TypeExpr} (joins : Joins symbol place)
    (parses : ∀ other ∈ others, Parses room part (rowOf other) (Follows (place + 1)) other) {cursor : Cursor}
    {rest : List Glyph} (shows : Shows room cursor (trailing symbol rowOf others ++ rest)) (follow : Follows place rest) :
    ∃ after, Gathers (partTurn symbol part) cursor others after ∧ Shows room after rest := by
  induction others generalizing cursor with
  | nil =>
      refine ⟨cursor, .stop ?_, shows⟩
      exact (shows.leaves (follow.not_ahead joins.alone)).bind (.no Bool.false_ne_true .done)
  | cons other others ih =>
      rw [List.forall_mem_cons] at parses
      have shows : Shows room cursor (sign symbol :: (rowOf other ++ (trailing symbol rowOf others ++ rest))) := by
        simpa [trailing] using shows
      obtain ⟨middle, runs, shown⟩ := parses.1 _ _ shows.later (follows_trailing joins rowOf others follow)
      obtain ⟨after, gathers, shown'⟩ := ih parses.2 shown
      have turn : Runs (partTurn symbol part) cursor (.more (some other)) middle :=
        shows.eat.bind (.yes rfl (runs.bind .done))
      have fewer : middle.rest.length < cursor.rest.length := by
        rw [shown.rest_length, shows.rest_length]
        simp only [List.length_append, List.length_cons]
        omega
      exact ⟨after, .more turn fewer gathers, shown'⟩

/-- Two parts or more with a sign between them. -/
theorem partsOf_many {rowOf : TypeExpr → List Glyph} {parts : List TypeExpr} (joins : Joins symbol place)
    (many : 2 ≤ parts.length) (opening : ∀ part ∈ parts, Opening (rowOf part))
    (parses : ∀ type ∈ parts, Parses room part (rowOf type) (Follows (place + 1)) type) :
    Parses room (partsOf symbol part join) (joined symbol (parts.map rowOf)) (Follows place) (join parts) := by
  intro cursor rest shows follow
  cases parts with
  | nil => cases many
  | cons first others =>
      rw [joined_map_cons, List.append_assoc] at shows
      rw [List.forall_mem_cons] at parses opening
      have low := joins.low
      have behind := follows_trailing joins rowOf others follow
      have unled := shows.leaves ((opening.1.append (behind.raise (by omega))).not_ahead joins.unopened)
      obtain ⟨middle, runs, shown⟩ := parses.1 cursor _ shows behind
      obtain ⟨after, gathers, shown'⟩ := gathers_parts joins parses.2 shown follow
      have isMany : others.isEmpty = false := by
        cases others with
        | nil => simp at many
        | cons other others => rfl
      refine ⟨after, unled.bind (runs.bind (gathers.collect.bind ?_)), shown'⟩
      rw [isMany]
      exact .done

end

/-! ## Levels -/

section

variable {row : List Glyph} {type : TypeExpr}

/-- The row is read as the type in a place that asks for no level. -/
def ReadsWhole (row : List Glyph) (type : TypeExpr) : Prop :=
  ∀ budget, Parses (budget + 1) (anyType (typeProductions budget)) row (Follows 1) type

/-- The row is read as the type where the part of a union is expected. -/
def ReadsPart (row : List Glyph) (type : TypeExpr) : Prop :=
  ∀ budget, Parses (budget + 1) (intersectionType (typeProductions budget)) row (Follows 2) type

/-- The row is read as the type where the part of an intersection or an item is expected. -/
def ReadsTight (row : List Glyph) (type : TypeExpr) : Prop :=
  ∀ budget, Arrives (budget + 1) (primaryType (typeProductions budget)) (indexStep (typeProductions budget)) row
    (Follows 4) type

theorem operand_of_arrives {budget place higher : Nat} (le : place ≤ higher) (low : place ≤ 3)
    (arrives : Arrives (budget + 1) (primaryType (typeProductions budget)) (indexStep (typeProductions budget)) row
      (Follows higher) type) :
    Parses (budget + 1) (operandType (typeProductions budget)) row (Follows place) type := by
  refine arrives.parses (fun rest follow => follow.raise le) fun cursor rest shows follow => ?_
  have absent : isAhead rest .bracketOpen = false := (follow.raise low).not_ahead rfl
  exact (shows.rawIs .bracketOpen).bind (.no (Bool.eq_false_iff.mp absent) .done)

theorem any_of_union {budget : Nat} (parses : Parses (budget + 1) (unionType (typeProductions budget)) row (Follows 1) type) :
    Parses (budget + 1) (anyType (typeProductions budget)) row (Follows 1) type := by
  intro cursor rest shows follow
  obtain ⟨after, runs, shown⟩ := parses cursor rest shows follow
  have plain := follow.not_any (· == .name "extends") fun _ _ => rfl
  exact ⟨after, runs.bind ((shown.checkText "extends").bind (.no (Bool.eq_false_iff.mp plain) .done)), shown⟩

theorem ReadsTight.part (tight : ReadsTight row type) (opening : Opening row) : ReadsPart row type := by
  intro budget
  exact partsOf_single joins_amp (by omega) (operand_of_arrives (by omega) (by omega) (tight budget)) opening

theorem ReadsPart.whole (part : ReadsPart row type) (opening : Opening row) : ReadsWhole row type := by
  intro budget
  have alone : Parses (budget + 1) (intersectionType (typeProductions budget)) row (Follows 1) type :=
    (part budget).narrow fun rest follow => follow.raise (by omega)
  exact any_of_union (partsOf_single joins_pipe (by omega) alone opening)

/-- A type is read inside of a form with one less of the budget, a sign being taken before it. -/
theorem ReadsWhole.nested (whole : ReadsWhole row type) (budget : Nat) :
    Parses budget (typeProductions budget).type row (Follows 1) type := by
  cases budget with
  | zero =>
      -- a row fits into no room at all
      intro cursor rest shows _
      exact absurd shows.fits (Nat.not_lt_zero _)
  | succ budget => exact whole budget

theorem ReadsWhole.group (whole : ReadsWhole row type) (balanced : Balanced row) :
    ReadsTight (between .parenOpen .parenClose row) type := by
  intro budget
  refine Parses.arrives fun cursor rest shows follow => ?_
  obtain ⟨after, runs, shown⟩ := parenType_group (whole.nested budget) balanced shows follow
  obtain ⟨span, seen⟩ := Shows.peek shows
  exact ⟨after, seen.bind runs, shown⟩

/-- The type is read in all places. -/
structure Readable (type : TypeExpr) : Prop where
  whole : ReadsWhole type.words type
  part : ReadsPart (type.wordsAt 2) type
  tight : ReadsTight (type.wordsAt 3) type

theorem Readable.nests (readable : Readable type) (writable : type.Writable) (budget : Nat) :
    Nests budget (typeProductions budget) type :=
  ⟨readable.whole.nested budget, opening_words writable⟩

namespace Readable

theorem of_tight (writable : type.Writable) (level : type.level = 3) (tight : ReadsTight type.words type) :
    Readable type := by
  have opening := opening_words writable
  have part := tight.part opening
  refine ⟨part.whole opening, ?_, ?_⟩
  · rwa [wordsAt_of_le (by omega)]
  · rwa [wordsAt_of_le (by omega)]

theorem of_part (writable : type.Writable) (level : type.level = 2) (part : ReadsPart type.words type) :
    Readable type := by
  have whole := part.whole (opening_words writable)
  refine ⟨whole, ?_, ?_⟩
  · rwa [wordsAt_of_le (by omega)]
  · rw [wordsAt_of_lt (by omega)]
    exact whole.group (balanced_words writable)

theorem of_whole (writable : type.Writable) (level : type.level < 2) (whole : ReadsWhole type.words type) :
    Readable type := by
  have group := whole.group (balanced_words writable)
  refine ⟨whole, ?_, ?_⟩
  · rw [wordsAt_of_lt level]
    exact group.part (.sign rfl)
  · rwa [wordsAt_of_lt (by omega)]

end Readable

/-! ## Every type that can be written -/

theorem readsTight_named {name : String} {args : List TypeExpr} (reference : isReference name = true)
    (nests : ∀ budget, ∀ arg ∈ args, Nests budget (typeProductions budget) arg) :
    ReadsTight (TypeExpr.named name args).words (.named name args) := by
  intro budget
  refine Parses.arrives fun cursor rest shows follow => ?_
  obtain ⟨after, runs, shown⟩ := typeReference_runs reference (nests budget) shows follow
  obtain ⟨first, others, parts, isName, -⟩ := segments_of_isReference reference
  rw [words, parts, joined_map_cons, word_of_isTypeName isName] at shows
  obtain ⟨span, seen⟩ := Shows.peek shows
  exact ⟨after, seen.bind (wordType_runs isName runs), shown⟩

theorem readsWhole_function {result : TypeExpr} (writable : result.Writable)
    (nests : ∀ budget, Nests budget (typeProductions budget) result) :
    ReadsWhole (TypeExpr.function result).words (.function result) := by
  intro budget
  have primary : Parses (budget + 1) (primaryType (typeProductions budget)) (TypeExpr.function result).words
      (Follows 1) (.function result) := by
    intro cursor rest shows follow
    obtain ⟨after, runs, shown⟩ := parenType_function (nests budget) shows follow
    obtain ⟨span, seen⟩ := Shows.peek shows
    exact ⟨after, seen.bind runs, shown⟩
  have opening := opening_words (.function writable)
  have operand := operand_of_arrives (Nat.le_refl 1) (by omega) primary.arrives
  exact any_of_union (partsOf_single joins_pipe (by omega) (partsOf_single joins_amp (by omega) operand opening) opening)

theorem readsTight_object {members : List TypeMember} (named : ∀ member ∈ members, member.isNamed = true)
    (nests : ∀ budget, ∀ member ∈ members, ∀ type ∈ member.type?, Nests budget (typeProductions budget) type) :
    ReadsTight (TypeExpr.object members).words (.object members) := by
  intro budget
  refine Parses.arrives fun cursor rest shows follow => ?_
  obtain ⟨after, runs, shown⟩ := typeMembers_runs named (nests budget) shows
  obtain ⟨span, seen⟩ := Shows.peek shows
  exact ⟨after, seen.bind (runs.bind .done), shown⟩

theorem readsTight_tuple {items : List TypeExpr}
    (nests : ∀ budget, ∀ item ∈ items, Nests budget (typeProductions budget) item) :
    ReadsTight (TypeExpr.tuple items).words (.tuple items) := by
  intro budget
  refine Parses.arrives fun cursor rest shows follow => ?_
  obtain ⟨after, runs, shown⟩ := tupleType_runs (nests budget) shows
  obtain ⟨span, seen⟩ := Shows.peek shows
  exact ⟨after, seen.bind runs, shown⟩

/-- Every type that can be written is read in all places. -/
theorem readable (writable : type.Writable) : Readable type := by
  -- a form is read in the place of its own level, and from there in all others
  induction writable with
  | named reference all ih =>
      refine .of_tight (.named reference all) rfl (readsTight_named reference fun budget arg member => ?_)
      exact (ih arg member).nests (all arg member) budget
  | @union parts many all ih =>
      refine .of_whole (.union many all) Nat.one_lt_two fun budget => any_of_union ?_
      rw [words, rowsAt_eq_map]
      refine partsOf_many joins_pipe many (fun part member => opening_grouped (opening_words (all part member)) 2) ?_
      exact fun part member => (ih part member).part budget
  | @intersection parts many all ih =>
      refine .of_part (.intersection many all) rfl fun budget => ?_
      rw [words, rowsAt_eq_map]
      refine partsOf_many joins_amp many (fun part member => opening_grouped (opening_words (all part member)) 3) ?_
      exact fun part member => operand_of_arrives (by omega) (by omega) ((ih part member).tight budget)
  | function result ih =>
      exact .of_whole (.function result) Nat.zero_lt_two (readsWhole_function result fun budget => ih.nests result budget)
  | object named all ih =>
      refine .of_tight (.object named all) rfl (readsTight_object named fun budget member listed type typed => ?_)
      exact (ih member listed type typed).nests (all member listed type typed) budget
  | array item ih =>
      -- the loop comes by the item and takes the brackets in its next turn
      refine .of_tight (.array item) rfl fun budget => ?_
      exact (ih.tight budget).snoc (fun rest _ => follows_sign rfl _) (List.cons_ne_nil _ _) fun cursor rest => array_runs
  | tuple all ih =>
      refine .of_tight (.tuple all) rfl (readsTight_tuple fun budget item member => ?_)
      exact (ih item member).nests (all item member) budget
  | literal isLiteral =>
      refine .of_tight (.literal isLiteral) rfl fun budget => Parses.arrives fun cursor rest shows _ => ?_
      exact literal_runs isLiteral shows

end

end TypeExpr

end Heed
