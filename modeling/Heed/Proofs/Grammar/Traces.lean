import Heed.Proofs.Grammar.Statement

/-!
# What a build leaves of the nodes from before

A build that runs to its end leaves nodes, and so does one that fails on the way. Every part of the grammar only
adds to the nodes that it finds, however deep it got before it failed; one part alone changes a node from before,
and only the identifier that it is given. So it is enough to count the nodes before an attempt in order to take
it back.
-/

set_option autoImplicit false

namespace Heed

theorem Grows.toList_isPrefix {ins outs : List Slot} {before after : Array Node}
    (grows : Grows ins outs before after) (unbound : ∀ id, Slot.mk id .binding ∉ ins) :
    before.toList <+: after.toList := by
  rw [List.prefix_iff_getElem?]
  intro id inside
  have kept := grows.kept id inside (unbound id)
  rw [← Array.getElem?_toList, ← Array.getElem?_toList] at kept
  rw [kept, List.getElem?_eq_getElem inside]

namespace Builder

variable {α : Type}

/-- The nodes at the end of a run, or where it failed. -/
def nodesLeft : Except Failure (α × Draft) → Array Node
  | .ok (_, after) => after.nodes
  | .error failure => failure.nodes

/-- A build on roots of which none is in a binding position adds nodes and changes none. -/
theorem Turns.appendsOn {ins : List Slot} {build : Builder α} {outs : α → List Slot} (turns : Turns ins build outs)
    (unbound : ∀ id, Slot.mk id .binding ∉ ins) (draft : Draft) :
    draft.nodes.toList <+: (nodesLeft (build draft)).toList := by
  cases outcome : build draft with
  | ok found => exact (turns.made draft found.1 found.2 outcome).1.toList_isPrefix unbound
  | error failure => exact (turns.failed draft failure outcome).toList_isPrefix unbound

theorem Turns.appends {build : Builder α} {outs : α → List Slot} (turns : Turns [] build outs) (draft : Draft) :
    draft.nodes.toList <+: (nodesLeft (build draft)).toList :=
  turns.appendsOn (fun _ => List.not_mem_nil) draft

theorem nodesLeft_read (read : Reader α) (draft : Draft) :
    nodesLeft ((liftM read : Builder α) draft) = draft.nodes := by
  cases outcome : (liftM read : Builder α) draft with
  | ok found =>
      obtain ⟨cursor, -, same⟩ := read_ok outcome
      rw [nodesLeft, same]
  | error failure => exact (read_error outcome).2

theorem nodesLeft_ascribe (target ascription : Nat) (draft : Draft) :
    nodesLeft (ascribe target ascription draft) = draft.nodes.modify target (ascribed ascription) := by
  change nodesLeft ((nodeOf target draft).bind _) = _
  by_cases inside : target < draft.nodes.size
  · rw [nodeOf_eq inside]
    rfl
  · rw [nodeOf_error inside]
    apply Array.ext_getElem?
    intro id
    rw [Array.getElem?_modify]
    split
    case isTrue same =>
        rw [← same, Array.getElem?_eq_none (Nat.le_of_not_lt inside)]
        exact Array.getElem?_eq_none (Nat.le_of_not_lt inside)
    case isFalse => rfl

end Builder

namespace Grammar

open Reader Builder

variable (syn : Productions)

/-- The parts of the grammar that change none of the nodes they find. Whatever only reads tokens is one. -/
inductive Part : {α : Type} → Builder α → Prop
  | read {α : Type} (reader : Reader α) : Part (liftM reader : Builder α)
  -- bindings and blocks
  | typeAscription : Part typeAscription
  | returnAscription : Part returnAscription
  | skipDefaultValue : Part (skipDefaultValue syn)
  | restBinding : Part (restBinding syn)
  | propertyBinding : Part (propertyBinding syn)
  | objectPattern (start : Span) : Part (objectPattern syn start)
  | arrayPattern (start : Span) : Part (arrayPattern syn start)
  | bindingTarget : Part (bindingTarget syn)
  | param : Part (param syn)
  | params : Part (params syn)
  | block : Part (block syn)
  | optionalBlock : Part (optionalBlock syn)
  -- expressions
  | spreadOrExpression : Part (spreadOrExpression syn)
  | arguments : Part (arguments syn)
  | functionTail (name : Option Nat) (isAsync : Bool) (start : Nat) : Part (functionTail syn name isAsync start)
  | functionExpression (isAsync : Bool) (start : Nat) : Part (functionExpression syn isAsync start)
  | namedProperty : Part (namedProperty syn)
  | objectLiteral : Part (objectLiteral syn)
  | arrayLiteral (start : Span) : Part (arrayLiteral syn start)
  | parenthesised : Part (parenthesised syn)
  | primary : Part (primary syn)
  | memberTail (base : Nat) (optional : Bool) : Part (memberTail base optional)
  | computedTail (base : Nat) (optional : Bool) : Part (computedTail syn base optional)
  | callTail (callee : Nat) : Part (callTail syn callee)
  | newExpression : Part (newExpression syn)
  | optionalTail (base : Nat) : Part (optionalTail syn base)
  | valueTail (value : Nat) : Part (valueTail syn value)
  | callOrMember : Part (callOrMember syn)
  | updateTail (argument : Nat) : Part (updateTail argument)
  | unary : Part (unary syn)
  | asTarget : Part asTarget
  | assertionTail (value : Nat) (isAs : Bool) : Part (assertionTail value isAs)
  | operatorTail (precedence left : Nat) : Part (operatorTail syn precedence left)
  | operationTail (precedence left : Nat) : Part (operationTail syn precedence left)
  | operation (precedence : Nat) : Part (operation syn precedence)
  | conditional : Part (conditional syn)
  | arrowFunction (isAsync : Bool) (start : Nat) : Part (arrowFunction syn isAsync start)
  | arrowFunction? : Part (arrowFunction? syn)
  | assignmentTail (left : Nat) : Part (assignmentTail syn left)
  | expression : Part (expression syn)
  -- declarations
  | declarator : Part (declarator syn)
  | variableDeclaration (word : DeclarationWord) (ambient : Bool) (start : Nat) :
      Part (variableDeclaration syn word ambient start)
  | functionDeclaration (isAsync : Bool) (start : Nat) : Part (functionDeclaration syn isAsync start)
  | indexSignature (start : Nat) : Part (indexSignature start)
  | methodDefinition (key : Nat) (modifiers : Modifiers) (start : Nat) :
      Part (methodDefinition syn key modifiers start)
  | propertyDefinition (key : Nat) (modifiers : Modifiers) (start : Nat) :
      Part (propertyDefinition syn key modifiers start)
  | classMember : Part (classMember syn)
  | classMember? : Part (classMember? syn)
  | classDeclaration (ambient : Bool) (start : Nat) : Part (classDeclaration syn ambient start)
  | typeAlias (start : Nat) : Part (typeAlias start)
  | interfaceDeclaration (start : Nat) : Part (interfaceDeclaration start)
  | ambientModule (start : Nat) : Part (ambientModule start)
  | ambientDeclaration (start : Nat) : Part (ambientDeclaration syn start)
  | importDeclaration (start : Nat) : Part (importDeclaration start)
  -- statements
  | expressionStatement : Part (expressionStatement syn)
  | throwStatement (start : Nat) : Part (throwStatement syn start)
  | returnStatement (start : Nat) : Part (returnStatement syn start)
  | condition : Part (condition syn)
  | ifStatement (start : Nat) : Part (ifStatement syn start)
  | whileStatement (start : Nat) : Part (whileStatement syn start)
  | doWhileStatement (start : Nat) : Part (doWhileStatement syn start)
  | loopInit : Part (loopInit syn)
  | loopOverValues (left start : Nat) : Part (loopOver syn (.forOfStatement left) start)
  | loopOverKeys (left start : Nat) : Part (loopOver syn (.forInStatement left) start)
  | loopClauses (init : Option Nat) (start : Nat) : Part (loopClauses syn init start)
  | forStatement (start : Nat) : Part (forStatement syn start)
  | caseTest : Part (caseTest syn)
  | switchCase : Part (switchCase syn)
  | switchStatement (start : Nat) : Part (switchStatement syn start)
  | labeledStatement (start : Nat) : Part (labeledStatement syn start)
  | breakStatement (start : Nat) : Part (jumpStatement .breakStatement start)
  | continueStatement (start : Nat) : Part (jumpStatement .continueStatement start)
  | catchParam : Part (catchParam syn)
  | catchClause : Part (catchClause syn)
  | finallyBlock : Part (finallyBlock syn)
  | tryStatement (start : Nat) : Part (tryStatement syn start)
  | exportedStatement : Part (exportedStatement syn)
  | wordStatement (word : String) (start : Nat) : Part (wordStatement syn word start)
  | statement : Part (statement syn)
  | program (sourceLength : Nat) : Part (program syn sourceLength)

variable {syn}

/-- Every part of the grammar adds nodes and changes none, whether it fails or not. -/
theorem Part.appends (trees : syn.MakeTrees) {α : Type} {build : Builder α} (part : Part syn build)
    (draft : Draft) : draft.nodes.toList <+: (nodesLeft (build draft)).toList := by
  have unbound : ∀ {role : Role} {nodes : List Nat}, role ≠ .binding →
      ∀ id, Slot.mk id .binding ∉ Slot.row role nodes := by
    intro role nodes other id listed
    simp only [Slot.row, List.mem_flatMap, List.mem_singleton, Slot.mk.injEq] at listed
    obtain ⟨_, -, -, same⟩ := listed
    exact other same.symm
  have plainRoot : ∀ {node : Nat} id, Slot.mk id .binding ∉ [Slot.mk node .plain] := by simp
  have nameRoot : ∀ {node : Nat} id, Slot.mk id .binding ∉ [Slot.mk node .name] := by simp
  cases part with
  | read reader => exact (nodesLeft_read reader draft).symm ▸ List.prefix_rfl
  | typeAscription => exact makes_typeAscription.appends draft
  | returnAscription => exact mayMake_returnAscription.appends draft
  | skipDefaultValue => exact (turns_skipDefaultValue trees []).appends draft
  | restBinding => exact (@makes_restBinding syn trees .parameter fun _ _ => rfl).appends draft
  | propertyBinding => exact (makes_propertyBinding trees).appends draft
  | objectPattern start => exact (makes_objectPattern trees start).appends draft
  | arrayPattern start => exact (makes_arrayPattern trees start).appends draft
  | bindingTarget => exact (makes_bindingTarget trees).appends draft
  | param => exact (makes_param trees).appends draft
  | params => exact (turns_params trees).appends draft
  | block => exact (makes_block trees).appends draft
  | optionalBlock => exact (mayMake_optionalBlock trees).appends draft
  | spreadOrExpression => exact (makes_spreadOrExpression trees).appends draft
  | arguments => exact (turns_arguments trees).appends draft
  | functionTail name isAsync start =>
      exact (turns_functionTail trees name isAsync start).appendsOn (unbound (by decide)) draft
  | functionExpression isAsync start => exact (makes_functionExpression trees isAsync start).appends draft
  | namedProperty => exact (makes_namedProperty trees).appends draft
  | objectLiteral => exact (makes_objectLiteral trees).appends draft
  | arrayLiteral start => exact (makes_arrayLiteral trees start).appends draft
  | parenthesised => exact (makes_parenthesised trees).appends draft
  | primary => exact (makes_primary trees).appends draft
  | memberTail base optional => exact (turns_memberTail base optional).appendsOn plainRoot draft
  | computedTail base optional => exact (turns_computedTail trees base optional).appendsOn plainRoot draft
  | callTail callee => exact (turns_callTail trees callee).appendsOn plainRoot draft
  | newExpression => exact (makes_newExpression trees).appends draft
  | optionalTail base => exact (turns_optionalTail trees base).appendsOn plainRoot draft
  | valueTail value => exact (turns_valueTail trees value).appendsOn plainRoot draft
  | callOrMember => exact (makes_callOrMember trees).appends draft
  | updateTail argument => exact (turns_updateTail argument).appendsOn plainRoot draft
  | unary => exact (makes_unary trees).appends draft
  | asTarget => exact makes_asTarget.appends draft
  | assertionTail value isAs => exact (turns_assertionTail value isAs).appendsOn plainRoot draft
  | operatorTail precedence left => exact (turns_operatorTail trees precedence left).appendsOn plainRoot draft
  | operationTail precedence left => exact (turns_operationTail trees precedence left).appendsOn plainRoot draft
  | operation precedence => exact (makes_operation trees precedence).appends draft
  | conditional => exact (makes_conditional trees).appends draft
  | arrowFunction isAsync start => exact (makes_arrowFunction trees isAsync start).appends draft
  | arrowFunction? => exact (mayMake_arrowFunction? trees).appends draft
  | assignmentTail left => exact (turns_assignmentTail trees left).appendsOn plainRoot draft
  | expression => exact (makes_expression trees).appends draft
  | declarator => exact (makes_declarator trees).appends draft
  | variableDeclaration word ambient start =>
      exact (makes_variableDeclaration trees word ambient start).appends draft
  | functionDeclaration isAsync start => exact (makes_functionDeclaration trees isAsync start).appends draft
  | indexSignature start => exact (makes_indexSignature start).appends draft
  | methodDefinition key modifiers start =>
      exact (turns_methodDefinition trees key modifiers start).appendsOn nameRoot draft
  | propertyDefinition key modifiers start =>
      exact (turns_propertyDefinition trees key modifiers start).appendsOn nameRoot draft
  | classMember => exact (makes_classMember trees).appends draft
  | classMember? => exact (mayMake_classMember? trees).appends draft
  | classDeclaration ambient start => exact (makes_classDeclaration trees ambient start).appends draft
  | typeAlias start => exact (makes_typeAlias start).appends draft
  | interfaceDeclaration start => exact (makes_interfaceDeclaration start).appends draft
  | ambientModule start => exact (makes_ambientModule start).appends draft
  | ambientDeclaration start => exact (makes_ambientDeclaration trees start).appends draft
  | importDeclaration start => exact (makes_importDeclaration start).appends draft
  | expressionStatement => exact (makes_expressionStatement trees).appends draft
  | throwStatement start => exact (makes_throwStatement trees start).appends draft
  | returnStatement start => exact (makes_returnStatement trees start).appends draft
  | condition => exact (makes_condition trees).appends draft
  | ifStatement start => exact (makes_ifStatement trees start).appends draft
  | whileStatement start => exact (makes_whileStatement trees start).appends draft
  | doWhileStatement start => exact (makes_doWhileStatement trees start).appends draft
  | loopInit => exact (mayMake_loopInit trees).appends draft
  | loopOverValues left start =>
      exact (turns_loopOver trees left start (fun _ _ => rfl) fun _ _ _ => rfl).appendsOn plainRoot draft
  | loopOverKeys left start =>
      exact (turns_loopOver trees left start (fun _ _ => rfl) fun _ _ _ => rfl).appendsOn plainRoot draft
  | loopClauses init start => exact (turns_loopClauses trees init start).appendsOn (unbound (by decide)) draft
  | forStatement start => exact (makes_forStatement trees start).appends draft
  | caseTest => exact (mayMake_caseTest trees).appends draft
  | switchCase => exact (makes_switchCase trees).appends draft
  | switchStatement start => exact (makes_switchStatement trees start).appends draft
  | labeledStatement start => exact (makes_labeledStatement trees start).appends draft
  | breakStatement start =>
      exact (makes_jumpStatement start (fun _ => rfl) fun _ _ => rfl).appends draft
  | continueStatement start =>
      exact (makes_jumpStatement start (fun _ => rfl) fun _ _ => rfl).appends draft
  | catchParam => exact (turns_catchParam trees).appends draft
  | catchClause => exact (mayMake_catchClause trees).appends draft
  | finallyBlock => exact (mayMake_finallyBlock trees).appends draft
  | tryStatement start => exact (makes_tryStatement trees start).appends draft
  | exportedStatement => exact (makes_exportedStatement trees).appends draft
  | wordStatement word start => exact (makes_wordStatement trees word start).appends draft
  | statement => exact (makes_statement trees).appends draft
  | program sourceLength => exact (makes_program trees sourceLength).appends draft

theorem ascribed_of_other {node : Node} (other : ∀ name old, node.kind ≠ .identifier name old)
    (ascription : Nat) : ascribed ascription node = node := by
  unfold ascribed
  cases kindEq : node.kind with
  | identifier name old => exact absurd kindEq (other name old)
  | _ => rfl

/-! ## The one node that is changed -/

/-- A colon and a type come next, and the type gets this node. -/
def Ascribes (draft : Draft) (ascription : Nat) : Prop :=
  draft.cursor.peek?.any (·.isSymbol .colon) = true ∧
    ∃ after, typeAscription { draft with cursor := draft.cursor.advance } = .ok (ascription, after)

theorem attachAscription_eq (target : Nat) (draft : Draft) :
    attachAscription target draft =
      if draft.cursor.peek?.any (·.isSymbol .colon) then
        (typeAscription { draft with cursor := draft.cursor.advance }).bind fun made =>
          ascribe target made.1 made.2
      else .ok ((), draft) := by
  have outcome : attachAscription target draft =
      (if draft.cursor.peek?.any (·.isSymbol .colon) then do
        bump
        let ascription ← typeAscription
        ascribe target ascription
      else pure () : Builder Unit) draft := rfl
  rw [outcome]
  split <;> rfl

theorem getElem?_of_appends {before after : Array Node} (appends : before.toList <+: after.toList) {id : Nat}
    {node : Node} (stored : before[id]? = some node) : after[id]? = some node := by
  obtain ⟨added, same⟩ := appends
  rw [← Array.getElem?_toList] at stored ⊢
  obtain ⟨inside, -⟩ := List.getElem?_eq_some_iff.mp stored
  rw [← same, List.getElem?_append_left inside, stored]

/-- A node from before, once a type has been read and given to the target. -/
theorem attachAscription_stored {draft : Draft} {ascription : Nat} (ascribes : Ascribes draft ascription)
    (target : Nat) {id : Nat} {node : Node} (stored : draft.nodes[id]? = some node) :
    (nodesLeft (attachAscription target draft))[id]? =
      if target = id then some (ascribed ascription node) else some node := by
  obtain ⟨isNext, after, made⟩ := ascribes
  have appends : draft.nodes.toList <+: after.nodes.toList := by
    have appends := makes_typeAscription.appends { draft with cursor := draft.cursor.advance }
    rwa [made] at appends
  rw [attachAscription_eq, if_pos isNext, made, Except.bind, nodesLeft_ascribe, Array.getElem?_modify,
    getElem?_of_appends appends stored, Option.map_some]

/-- An ascription is given to an identifier that is the target, and it is the next node. -/
theorem attachAscription_rewrites {draft : Draft} {ascription target : Nat} {node : Node} {name : String}
    {old : Option Nat} (ascribes : Ascribes draft ascription) (stored : draft.nodes[target]? = some node)
    (kindEq : node.kind = .identifier name old) :
    ascription = draft.nodes.size ∧ (nodesLeft (attachAscription target draft))[target]? =
      some { node with kind := .identifier name (some ascription) } := by
  refine ⟨?_, ?_⟩
  · obtain ⟨-, after, made⟩ := ascribes
    exact (typeAscription_ok made).1
  · rw [attachAscription_stored ascribes target stored, if_pos rfl, ascribed, kindEq]

/-- All other nodes are kept, and all nodes where no type is read. -/
theorem attachAscription_keeps {draft : Draft} {target id : Nat} {node : Node}
    (stored : draft.nodes[id]? = some node)
    (spared : id ≠ target ∨ (∀ name old, node.kind ≠ .identifier name old) ∨
      ∀ ascription, ¬ Ascribes draft ascription) :
    (nodesLeft (attachAscription target draft))[id]? = some node := by
  by_cases ascribes : ∃ ascription, Ascribes draft ascription
  · obtain ⟨ascription, ascribes⟩ := ascribes
    rw [attachAscription_stored ascribes target stored]
    rcases spared with other | other | unascribed
    · rw [if_neg (Ne.symm other)]
    · rw [ascribed_of_other other, ite_self]
    · exact absurd ascribes (unascribed ascription)
  · rw [attachAscription_eq]
    split
    case isFalse => exact stored
    case isTrue isNext =>
        have appends := makes_typeAscription.appends { draft with cursor := draft.cursor.advance }
        cases made : typeAscription { draft with cursor := draft.cursor.advance } with
        | ok pair => exact absurd ⟨pair.1, isNext, pair.2, made⟩ ascribes
        | error failure =>
            -- what was built of a type that is refused stands behind the nodes from before
            rw [made] at appends
            exact getElem?_of_appends appends stored

/-! ## Attempts -/

/-- What is tried and fails is as if it had not been tried. -/
theorem arrowFunction?_of_none (trees : syn.MakeTrees) {draft after : Draft}
    (failed : arrowFunction? syn draft = .ok (none, after)) : after = draft := by
  rw [arrowFunction?, get_bind] at failed
  cases ahead : draft.cursor.significant with
  | nil =>
      rw [ahead] at failed
      exact (pure_ok failed).2.symm
  | cons first rest =>
      simp only [ahead] at failed
      obtain ⟨sign, middle, looked, failed⟩ := bind_ok failed
      obtain ⟨cursor, ran, rfl⟩ := read_ok looked
      obtain ⟨_, stays⟩ := looks_arrowSign _ draft.cursor
      obtain ⟨-, rfl⟩ := Prod.mk.inj (Except.ok.inj (ran.symm.trans stays))
      cases sign with
      | absent => exact (pure_ok failed).2.symm
      | certain =>
          obtain ⟨_, _, -, returned⟩ := bind_ok failed
          cases (pure_ok returned).1
      | possible =>
          rcases (makes_arrowFunction trees _ _).attempt_ok failed with ⟨_, found, -⟩ | ⟨-, same, -⟩
          · cases found
          · exact same

/-- A default value moves the cursor and leaves no nodes. -/
theorem skipDefaultValue_ok (trees : syn.MakeTrees) {draft after : Draft}
    (success : skipDefaultValue syn draft = .ok ((), after)) :
    after.nodes = draft.nodes ∧ after.cursor.rest <:+ draft.cursor.rest := by
  have stays := (turns_skipDefaultValue trees []).safe draft fun _ listed => absurd listed List.not_mem_nil
  refine ⟨?_, (stays.of_ok success).1.rest⟩
  obtain ⟨isGiven, middle, eaten, success⟩ := bind_ok success
  obtain ⟨cursor, -, rfl⟩ := read_ok eaten
  cases isGiven with
  | false => rw [← (pure_ok success).2]
  | true => exact (trees.expression.discarding_ok success).1

/-- Nothing is left of what is tried in vain. Where no arrow function is found, the draft is the one from before,
and where a default value is read, so are the nodes; only the cursor has moved on. Every part of the grammar adds
nodes and changes none, whether it fails or not, except that an ascription is given to the one identifier that it
is meant for. That happens where a colon and a type come next, and then the ascription is the next node. -/
theorem parts_leave_no_trace (budget : Nat) (draft : Draft) :
    let syn := productions budget
    (∀ after, arrowFunction? syn draft = .ok (none, after) → after = draft) ∧
    (∀ after, skipDefaultValue syn draft = .ok ((), after) →
      after.nodes = draft.nodes ∧ after.cursor.rest <:+ draft.cursor.rest) ∧
    (∀ {α : Type} (build : Builder α), Part syn build →
      draft.nodes.toList <+: (nodesLeft (build draft)).toList) ∧
    ∀ target id node, draft.nodes[id]? = some node →
      (∀ name old ascription, id = target → node.kind = .identifier name old → Ascribes draft ascription →
        ascription = draft.nodes.size ∧ (nodesLeft (attachAscription target draft))[id]? =
          some { node with kind := .identifier name (some ascription) }) ∧
      (id ≠ target ∨ (∀ name old, node.kind ≠ .identifier name old) ∨
          (∀ ascription, ¬ Ascribes draft ascription) →
        (nodesLeft (attachAscription target draft))[id]? = some node) := by
  intro syn
  have trees := makeTrees_productions budget
  refine ⟨?_, ?_, ?_, ?_⟩
  · intro after failed
    exact arrowFunction?_of_none trees failed
  · intro after success
    exact skipDefaultValue_ok trees success
  · intro α build part
    exact part.appends trees draft
  · intro target id node stored
    refine ⟨?_, attachAscription_keeps stored⟩
    rintro name old ascription rfl kindEq ascribes
    exact attachAscription_rewrites ascribes stored kindEq

def draftBefore (text : String) : Draft :=
  ⟨.ofTokens ((Token.scan text).toOption.getD []), #[⟨.identifier "x" none, ⟨0, 1⟩⟩]⟩

/-- A group with a colon behind it is tried as an arrow function, which builds two nodes before it fails; a default
value is read; an ascription is given. -/
theorem parts_leave_no_trace_of_group :
    arrowFunction? (productions 9) (draftBefore "(a = b): c") = .ok (none, draftBefore "(a = b): c") ∧
    (nodesLeft (arrowFunction (productions 9) false 0 (draftBefore "(a = b): c"))).size = 3 ∧
    (draftBefore "(a = b): c").nodes.toList <+:
      (nodesLeft (arrowFunction (productions 9) false 0 (draftBefore "(a = b): c"))).toList ∧
    (∃ after, skipDefaultValue (productions 9) (draftBefore "= b => c") = .ok ((), after) ∧
      after.nodes = (draftBefore "= b => c").nodes) ∧
    Ascribes (draftBefore ": c") 1 ∧
    (nodesLeft (attachAscription 0 (draftBefore ": c")))[0]? = some ⟨.identifier "x" (some 1), ⟨0, 1⟩⟩ ∧
    (nodesLeft (attachAscription 1 (draftBefore ": c")))[0]? = some ⟨.identifier "x" none, ⟨0, 1⟩⟩ := by
  have tried : (arrowFunction? (productions 9) (draftBefore "(a = b): c")).toOption.any
      (fun found => found.1.isNone) = true := by decide +kernel
  have read : (skipDefaultValue (productions 9) (draftBefore "= b => c")).toOption.isSome = true := by
    decide +kernel
  have ascribes : Ascribes (draftBefore ": c") 1 := by
    refine ⟨by decide +kernel, ?_⟩
    have typed : (typeAscription { draftBefore ": c" with cursor := (draftBefore ": c").cursor.advance }).toOption.any
        (fun made => made.1 == 1) = true := by decide +kernel
    cases outcome : typeAscription { draftBefore ": c" with cursor := (draftBefore ": c").cursor.advance } with
    | error failure =>
        rw [outcome] at typed
        cases typed
    | ok made =>
        rw [outcome] at typed
        obtain ⟨id, after⟩ := made
        obtain rfl : id = 1 := beq_iff_eq.mp typed
        exact ⟨after, rfl⟩
  obtain ⟨traceless, -, appends, -⟩ := parts_leave_no_trace 9 (draftBefore "(a = b): c")
  obtain ⟨-, dropped, -, -⟩ := parts_leave_no_trace 9 (draftBefore "= b => c")
  obtain ⟨-, -, -, changes⟩ := parts_leave_no_trace 9 (draftBefore ": c")
  have stored : (draftBefore ": c").nodes[0]? = some ⟨.identifier "x" none, ⟨0, 1⟩⟩ := rfl
  refine ⟨?_, by decide +kernel, appends _ (.arrowFunction false 0), ?_, ascribes, ?_, ?_⟩
  · cases outcome : arrowFunction? (productions 9) (draftBefore "(a = b): c") with
    | error failure =>
        rw [outcome] at tried
        cases tried
    | ok found =>
        rw [outcome] at tried
        obtain ⟨arrow, after⟩ := found
        obtain rfl : arrow = none := Option.isNone_iff_eq_none.mp tried
        rw [traceless after outcome]
  · cases outcome : skipDefaultValue (productions 9) (draftBefore "= b => c") with
    | error failure =>
        rw [outcome] at read
        cases read
    | ok found => exact ⟨found.2, rfl, (dropped found.2 outcome).1⟩
  · exact ((changes 0 0 _ stored).1 "x" none 1 rfl rfl ascribes).2
  · exact (changes 1 0 _ stored).2 (.inl Nat.zero_ne_one)

end Grammar

end Heed
