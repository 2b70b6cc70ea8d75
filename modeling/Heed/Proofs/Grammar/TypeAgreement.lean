import Heed.Proofs.Grammar.Agreement

/-!
# Types do not depend on layout

The readers of type syntax agree on alike tokens. The productions that they refer back to need to agree only
where fewer tokens are ahead, since a reader has taken a token when it refers back.
-/

set_option autoImplicit false

namespace Heed

structure TypeProductions.Agrees (room : Nat) (types types' : TypeProductions) : Prop where
  type : Agree room strict Eq types.type types'.type
  operand : Agree room strict Eq types.operand types'.operand

namespace Grammar

open Reader

variable {types types' : TypeProductions} {room : Nat}

theorem sees_atTupleLabel : Sees Eq atTupleLabel atTupleLabel := by
  refine (sees_nextIs fun _ _ _ => rfl).bind fun _ => .ite ?_ (.done _)
  refine (sees_nthIs fun _ _ _ => rfl).bind fun _ => .ite (.done _) ?_
  exact (sees_nthIs fun _ _ _ => rfl).bind fun _ => .ite (sees_nthIs fun _ _ _ => rfl) (.done _)

theorem sees_atAccessor : Sees Eq atAccessor atAccessor := by
  refine (sees_nextIs fun _ _ _ => rfl).bind fun _ => (sees_nextIs fun _ _ _ => rfl).bind fun _ => ?_
  exact .ite ((sees_nthIs fun _ _ _ => rfl).bind fun _ => .done _) (.done _)

/-- A dot with the name of a member behind it. -/
theorem agree_dotted {α : Type} {next : String × Span → Reader (Option α)}
    (rest : ∀ name place place', Agree room free Eq (next (name, place)) (next (name, place'))) :
    Agree room Found Eq (do if ← eat .dot then expectPropertyName >>= next else return none)
      (do if ← eat .dot then expectPropertyName >>= next else return none) :=
  agree_eat.choose (agree_expectPropertyName.andThenBut rest) (.idle rfl id)

section

variable (agrees : TypeProductions.Agrees room types types')

include agrees

theorem agree_typeParams : Agree (room + 1) free Eq (typeParams types) (typeParams types') := by
  refine .onMark (marks_nextIs fun _ _ _ => rfl) (fun _ _ => ?_) (.done rfl)
  refine AgreeWhen.bump.first fun _ => ?_
  refine (agree_commaList ?_).andThen fun _ => agree_expect.andThenAs fun _ _ _ => .done rfl
  refine (agree_grow (fun _ => ?_) ()).andThen fun _ => ?_
  · refine .onEither (marks_nextIs fun _ _ _ => rfl) (marks_nextIs fun _ _ _ => rfl) (fun _ _ => ?_) ?_
    · refine .see (sees_nthIs fun _ _ _ => rfl) fun _ => ?_
      exact .ite (AgreeWhen.bump.returning fun _ _ _ => rfl) (.idle rfl id)
    · exact .idle rfl id
  refine agree_eatWord.andThen fun _ => agree_expectName.andThenBut fun name _ _ => ?_
  refine .see (sees_nextIs fun _ _ _ => rfl) fun _ => .joined (fun rest => ?_) ?_
  · exact agree_bump.andThen fun _ => agrees.type.andThen fun _ => rest
  · exact agree_eat.andThen fun _ => .ite (agrees.type.andThen fun _ => .done rfl) (.done rfl)

theorem agree_typeArgs : Agree (room + 1) free Eq (typeArgs types) (typeArgs types') := by
  refine .onMark marks_rawIs (fun _ _ => ?_) (.done rfl)
  refine AgreeWhen.bump.first fun _ => (agree_commaList agrees.type.loose).andThen fun _ => ?_
  exact agree_expect.andThenAs fun _ _ _ => .done rfl

theorem agree_typeReference : Agree (room + 1) strict Eq (typeReference types) (typeReference types') := by
  refine agree_expectName.firstBut fun name _ _ => ?_
  refine (agree_grow (fun _ => agree_dotted fun _ _ _ => .done rfl) _).andThen fun _ => ?_
  exact (agree_typeArgs agrees).inside.andThen fun _ => .done rfl

/-- A return type may refer back before it takes a token. -/
theorem agree_returnType : Agree room strict Eq (returnType types) (returnType types') := by
  have others : Agree room strict Eq
      (do if (← nextIs isNameOrThis) && (← nthIs 1 (·.isWord "is")) then
            bump
            bump
            let _ ← types.type
            return .plain "boolean"
          else
            types.type : Reader TypeExpr)
      (do if (← nextIs isNameOrThis) && (← nthIs 1 (·.isWord "is")) then
            bump
            bump
            let _ ← types'.type
            return .plain "boolean"
          else
            types'.type) := by
    refine .see (sees_nextIs fun _ _ _ => rfl) fun _ => .see (sees_nthIs fun _ _ _ => rfl) fun _ => ?_
    refine .ite (agree_bump.andThen fun _ => agree_bump.andThen fun _ => ?_) agrees.type
    exact agrees.type.returning fun _ _ _ => rfl
  refine .onMark (marks_nextIs fun _ _ _ => rfl) (fun token span => ?_) ?_
  · refine .see (sees_nthIs fun _ _ _ => rfl) fun _ => .ite ?_ others.at_
    refine AgreeWhen.bump.paid fun _ => agree_bump.andThen fun _ => ?_
    refine .see (sees_nextIs fun _ _ _ => rfl) fun _ => .joined (fun rest => ?_) (.done rfl)
    exact agree_bump.andThen fun _ => agrees.type.andThen fun _ => rest
  · exact .see (sees_nthIs fun _ _ _ => rfl) fun _ => others

theorem agree_functionType : Agree (room + 1) strict Eq (functionType types) (functionType types') := by
  refine (agree_typeParams agrees).andThen fun _ => agree_skipBalanced.first fun _ => ?_
  refine agree_expect.andThenAs fun _ _ _ => ?_
  exact (agree_returnType agrees).andThen fun _ => .done rfl

theorem agree_tupleType : Agree (room + 1) strict Eq (tupleType types) (tupleType types') := by
  refine agree_expect.firstAs fun _ _ _ => ?_
  refine (agree_commaList ?_).andThen fun _ => agree_expect.andThenAs fun _ _ _ => .done rfl
  refine agree_eat.andThen fun _ => .see sees_atTupleLabel fun _ => .joined (fun rest => ?_) ?_
  · refine agree_bump.andThen fun _ => agree_eat.andThen fun _ => ?_
    exact agree_expect.andThenAs fun _ _ _ => rest
  · exact agrees.type.andThen fun _ => agree_eat.andThen fun _ => .done rfl

theorem agree_skipSignature : Agree (room + 1) strict Eq (skipSignature types) (skipSignature types') := by
  refine (agree_typeParams agrees).andThen fun _ => agree_skipBalanced.first fun _ => ?_
  refine agree_eat.andThen fun _ => .ite ?_ (.done rfl)
  exact (agree_returnType agrees).andThen fun _ => .done rfl

theorem agree_methodMember (name : String) (accessor : Bool) :
    Agree (room + 1) strict Eq (methodMember types name accessor) (methodMember types' name accessor) := by
  have last : ∀ result : TypeExpr, Agree room free Eq
      (do if name = TypeMember.initializerName then return .initializer
          else if accessor then return .property name result
          else return .method name result : Reader TypeMember)
      (do if name = TypeMember.initializerName then return .initializer
          else if accessor then return .property name result
          else return .method name result) :=
    fun _ => .ite (.done rfl) (.ite (.done rfl) (.done rfl))
  refine (agree_typeParams agrees).andThen fun _ => agree_skipBalanced.first fun _ => ?_
  refine agree_eat.andThen fun _ => .ite ?_ ?_
  · exact (agree_returnType agrees).andThen last
  · exact (AgreeWhen.done rfl).andThen last

theorem agree_namedMember : Agree (room + 1) strict Eq (namedMember types) (namedMember types') := by
  refine .see sees_atAccessor fun _ => .joined (fun rest => agree_bump.andThen fun _ => rest) ?_
  refine agree_expectPropertyName.firstBut fun name _ _ => agree_eat.andThen fun _ => ?_
  refine .see (sees_nextIs fun _ _ _ => rfl) fun _ => .see (sees_nextIs fun _ _ _ => rfl) fun _ => ?_
  refine .ite ?_ (agree_eat.andThen fun _ => .ite ?_ ?_)
  · exact (agree_methodMember agrees _ _).inside
  · exact agrees.type.andThen fun _ => .done rfl
  · exact (AgreeWhen.done rfl).andThen fun _ => .done rfl

theorem agree_typeMember : Agree (room + 1) strict Eq (typeMember types) (typeMember types') := by
  refine .see (sees_nextIs fun _ _ _ => rfl) fun _ => .joined (fun rest => ?_) ?_
  · refine .see (sees_nthIs fun _ _ _ => rfl) fun _ => ?_
    exact .joined (fun rest => agree_bump.andThen fun _ => rest) rest
  refine .see (sees_nextIs fun _ _ _ => rfl) fun _ => .ite ?_ ?_
  · refine agree_skipBalanced.first fun _ => agree_eat.andThen fun _ => ?_
    exact agree_eat.andThen fun _ => .ite (agrees.type.andThen fun _ => .done rfl) (.done rfl)
  refine .see (sees_nextIs fun _ _ _ => rfl) fun _ => .see (sees_nextIs fun _ _ _ => rfl) fun _ => ?_
  refine .ite ((agree_skipSignature agrees).returning fun _ _ _ => rfl) ?_
  refine .see (sees_nextIs fun _ _ _ => rfl) fun _ => .ite (agree_bump.andThen fun _ => ?_) ?_
  · exact (agree_skipSignature agrees).returning fun _ _ _ => rfl
  · exact (agree_namedMember agrees).returning fun _ _ => congrArg some

theorem agree_typeMembers : Agree (room + 1) strict Eq (typeMembers types) (typeMembers types') := by
  refine agree_expect.firstAs fun _ _ _ => agree_collect ?_
  refine agree_eat.choose (.done rfl) (agree_eat.choose (.done rfl) (agree_eat.choose (.done rfl) ?_))
  refine .onEnd agree_unexpected fun _ _ => AgreeWhen.at_ ?_
  exact ((agree_typeMember agrees).lower (Nat.le_succ _)).returning fun _ _ => congrArg Turn.more

theorem agree_parenType {token : Token} {span : Span} :
    AgreeWhen (Facing token span) (room + 1) strict Eq (parenType types) (parenType types') := by
  refine .look sees_get fun cursor cursor' alike => ?_
  refine .onBehindParens alike.dropWhile fun found found' kinds => ?_
  have behind : found.any (·.isSymbol .arrow) = found'.any (·.isSymbol .arrow) :=
    Token.ByKind.any (fun _ _ _ => rfl) kinds
  rw [behind]
  refine .ite (agree_functionType agrees).at_ (AgreeWhen.bump.first fun _ => ?_)
  exact agrees.type.andThen fun _ => agree_expect.andThenAs fun _ _ _ => .done rfl

theorem agree_wordType {token : Token} {span : Span} (word : String) :
    AgreeWhen (Facing token span) (room + 1) strict Eq (wordType types word) (wordType types' word) := by
  unfold wordType
  refine .ite ?_ (.ite ?_ (.ite ?_ (.ite ?_ (agree_typeReference agrees).at_)))
  · refine AgreeWhen.bump.first fun _ => agree_expectPropertyName.andThenAs fun _ _ _ => ?_
    exact (agree_grow (fun _ => agree_dotted fun _ _ _ => .done rfl) ()).andThen fun _ => .done rfl
  · exact AgreeWhen.bump.first fun _ => agrees.operand.andThen fun _ => .done rfl
  · exact AgreeWhen.bump.first fun _ => agrees.operand.loose
  · exact AgreeWhen.bump.first fun _ => agree_expectName.andThenAs fun _ _ _ => .done rfl

theorem agree_primaryType : Agree (room + 1) strict Eq (primaryType types) (primaryType types') := by
  refine .onPeek agree_unexpected fun token span => ?_
  dsimp only
  generalize token.kind = kind
  split
  · exact agree_parenType agrees
  · exact (agree_functionType agrees).at_
  · refine AgreeWhen.bump.first fun _ => ?_
    exact (agree_functionType agrees).inside.andThen fun _ => .done rfl
  · exact ((agree_typeMembers agrees).returning fun _ _ => congrArg TypeExpr.object).at_
  · exact (agree_tupleType agrees).at_
  · exact AgreeWhen.bump.first fun _ => .done rfl
  · exact AgreeWhen.bump.first fun _ => .done rfl
  · exact AgreeWhen.bump.first fun _ => .done rfl
  · exact AgreeWhen.bump.first fun _ => .done rfl
  · refine AgreeWhen.bump.first fun _ => ?_
    refine (agree_expectThat fun _ _ _ => rfl).andThenAs fun number number' same => ?_
    have text_eq : number.text = number'.text := same.eq Token.text fun _ _ => rfl
    rw [text_eq]
    exact .done rfl
  · exact AgreeWhen.bump.first fun _ => .done rfl
  · exact AgreeWhen.bump.first fun _ => .done rfl
  · exact agree_wordType agrees _
  · exact agree_unexpected

theorem agree_operandType : Agree (room + 1) strict Eq (operandType types) (operandType types') := by
  refine (agree_primaryType agrees).first fun _ => agree_grow (fun _ => ?_) _
  refine .onMark marks_rawIs (fun _ _ => AgreeWhen.bump.paid fun _ => ?_) (.idle rfl id)
  refine agree_eat.andThen fun _ => .ite (.done rfl) ?_
  exact agrees.type.andThen fun _ => agree_expect.andThenAs fun _ _ _ => .done rfl

omit agrees in
theorem agree_partsOf {sign : Symbol} {part part' : Reader TypeExpr} {join : List TypeExpr → TypeExpr}
    (agree : Agree (room + 1) strict Eq part part') :
    Agree (room + 1) strict Eq (partsOf sign part join) (partsOf sign part' join) := by
  refine agree_eat.andThen fun _ => agree.first fun _ => ?_
  refine (agree_collect ?_).andThen fun _ => .done rfl
  refine agree_eat.andThen fun _ => .ite ?_ (.idle rfl id)
  exact (agree.lower (Nat.le_succ room)).returning fun _ _ same => congrArg (Turn.more ∘ some) same

theorem agree_unionType : Agree (room + 1) strict Eq (unionType types) (unionType types') :=
  agree_partsOf (agree_partsOf (agree_operandType agrees))

theorem agree_anyType : Agree (room + 1) strict Eq (anyType types) (anyType types') := by
  refine (agree_unionType agrees).first fun _ => .see (sees_nextIs fun _ _ _ => rfl) fun _ => ?_
  refine .ite (agree_bump.andThen fun _ => ?_) (.done rfl)
  refine (agree_unionType agrees).inside.andThen fun _ => ?_
  refine agree_expect.andThenAs fun _ _ _ => agrees.type.andThen fun _ => ?_
  exact agree_expect.andThenAs fun _ _ _ => agrees.type.andThen fun _ => .done rfl

end

/-- Budgets that the tokens ahead cannot use up do not show. -/
theorem agrees_typeProductions {room budget budget' : Nat} (enough : room ≤ budget)
    (enough' : room ≤ budget') : (typeProductions budget).Agrees room (typeProductions budget') := by
  induction room generalizing budget budget' with
  | zero => exact ⟨.noRoom, .noRoom⟩
  | succ room ih =>
      cases budget with
      | zero => omega
      | succ budget =>
          cases budget' with
          | zero => omega
          | succ budget' =>
              have inner := ih (Nat.le_of_succ_le_succ enough) (Nat.le_of_succ_le_succ enough')
              exact ⟨agree_anyType inner, agree_operandType inner⟩

theorem agree_withTypes {α : Type} {owes : α → Prop} {same : α → α → Prop} {read : TypeProductions → Reader α}
    (agree : ∀ room types types', types.Agrees room types' → Agree room owes same (read types) (read types')) :
    Agree room owes same (withTypes read) (withTypes read) :=
  @agree_within _ _ _ _ _ _ _ _ (fun budget => read (typeProductions budget))
    (fun budget => read (typeProductions budget))
    fun count _ _ _ enough enough' => agree count _ _ (agrees_typeProductions enough enough')

end Grammar

end Heed
