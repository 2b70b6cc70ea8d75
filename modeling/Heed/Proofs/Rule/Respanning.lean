import Heed.Proofs.Grammar.StatementAgreement
import Heed.Proofs.Rule.Findings

/-!
# Verdicts do not depend on layout

Two sources whose tokens differ only in layout make trees that differ only in spans, or are refused with the
same message. Nothing but the place of a finding depends on spans: the scopes of two such trees, the types of
their nodes and the verdicts on them are the same.
-/

set_option autoImplicit false

namespace Heed

namespace Tree

/-- Trees that differ only in spans. -/
structure Respans (left right : Tree) : Prop where
  kinds : left.nodes.map Node.kind = right.nodes.map Node.kind
  parents : left.parents = right.parents
  root : left.root = right.root

theorem links_eq {left right : Array Node} (kinds : left.map Node.kind = right.map Node.kind) :
    links left = links right := by
  have by_kinds : ∀ nodes : Array Node, links nodes =
      (nodes.map Node.kind).toList.zipIdx.flatMap fun entry =>
        entry.1.children.map fun child => (child, entry.2) := by
    intro nodes
    rw [links, Array.toList_map, List.zipIdx_map, List.flatMap_map]
    rfl
  rw [by_kinds, by_kinds, kinds]

theorem respans_ofNodes {left right : Array Node} (kinds : left.map Node.kind = right.map Node.kind)
    (root : Nat) : (ofNodes left root).Respans (ofNodes right root) := by
  refine ⟨kinds, ?_, rfl⟩
  have sizes : left.size = right.size := by simpa using congrArg Array.size kinds
  rw [ofNodes, ofNodes, parentsOf_eq, parentsOf_eq, sizes, links_eq kinds]

namespace Respans

variable {left right : Tree} (respans : left.Respans right)

include respans

theorem size : left.size = right.size := by
  simpa [Tree.size] using congrArg Array.size respans.kinds

theorem kind : left.kind = right.kind := by
  funext node
  have stored := congrArg (fun kinds : Array NodeKind => kinds[node]?) respans.kinds
  simp only [Array.getElem?_map] at stored
  unfold Tree.kind
  cases found : left.nodes[node]? with
  | none =>
      rw [found] at stored
      rw [Option.map_eq_none_iff.mp stored.symm]
  | some entry =>
      rw [found] at stored
      obtain ⟨entry', found', kind_eq⟩ := Option.map_eq_some_iff.mp stored.symm
      rw [found']
      exact kind_eq.symm

theorem parent? : left.parent? = right.parent? := by
  funext node
  rw [Tree.parent?, Tree.parent?, respans.parents]

theorem parentKind? : left.parentKind? = right.parentKind? := by
  funext node
  rw [Tree.parentKind?, Tree.parentKind?, respans.parent?, respans.kind]

theorem identifierName? : left.identifierName? = right.identifierName? := by
  funext node
  rw [Tree.identifierName?, Tree.identifierName?, respans.kind]

theorem memberName? : left.memberName? = right.memberName? := by
  funext node
  unfold Tree.memberName?
  rw [respans.kind, respans.identifierName?]

theorem above (node : Nat) : left.above node = right.above node := by
  fun_induction Tree.above left node with
  | case1 node parent found inside ih =>
      rw [Tree.above.eq_1 right, ← respans.parent?, found]
      dsimp only
      rw [← respans.size, if_pos inside, ih]
  | case2 node parent found outside =>
      rw [Tree.above.eq_1 right, ← respans.parent?, found]
      dsimp only
      rw [← respans.size, if_neg outside]
  | case3 node found =>
      rw [Tree.above.eq_1 right, ← respans.parent?, found]

theorem ancestors : left.ancestors = right.ancestors := by
  funext node
  unfold Tree.ancestors
  rw [respans.parent?]
  cases right.parent? node with
  | none => rfl
  | some parent => exact congrArg (parent :: ·) (respans.above parent)

theorem outline : left.outline = right.outline := by
  funext node
  induction node using Nat.strongRecOn with
  | ind node ih =>
      rw [Tree.outline, Tree.outline, children, children, respans.kind]
      refine congrArg (Outline.node node) (List.map_congr_left fun child _ => ?_)
      split
      case isTrue below => exact ih child below
      case isFalse => rfl

theorem boundBy : left.boundBy = right.boundBy := by
  funext node
  induction node using Nat.strongRecOn with
  | ind node ih =>
      have parts : ∀ part, (if part < node then left.boundBy part else []) =
          if part < node then right.boundBy part else [] := by
        intro part
        split
        case isTrue below => exact ih part below
        case isFalse => rfl
      rw [Tree.boundBy, Tree.boundBy, respans.kind]
      simp only [parts]

end Respans

end Tree

variable {left right : Tree}

namespace Survey

section

variable (respans : left.Respans right)

include respans

theorem declare_respans (survey : Survey) : survey.declare left = survey.declare right := by
  funext scope owner identifiers
  rw [declare, declare, respans.identifierName?]

theorem declareOutside_respans (survey : Survey) : survey.declareOutside left = survey.declareOutside right := by
  funext scope node
  unfold declareOutside
  simp only [declare_respans respans, respans.kind, respans.boundBy]

theorem opens?_respans : opens? left = opens? right := by
  funext node
  unfold opens?
  rw [respans.kind, respans.parentKind?]

theorem boundInside_respans : boundInside left = boundInside right := by
  funext node
  unfold boundInside
  rw [respans.kind, respans.boundBy]

end

mutual

theorem visit_respans (respans : left.Respans right) (scope : Nat) :
    ∀ outline survey, visit left scope outline survey = visit right scope outline survey
  | .node node children, survey => by
      rw [visit, visit, declareOutside_respans respans, opens?_respans respans]
      simp only [declare_respans respans, boundInside_respans respans, visitAll_respans respans _ children]

theorem visitAll_respans (respans : left.Respans right) (scope : Nat) :
    ∀ outlines survey, visitAll left scope outlines survey = visitAll right scope outlines survey
  | [], survey => by rw [visitAll, visitAll]
  | outline :: rest, survey => by
      rw [visitAll, visitAll, visit_respans respans scope outline, visitAll_respans respans scope rest]

end

theorem ofTree_respans (respans : left.Respans right) : ofTree left = ofTree right := by
  rw [ofTree, ofTree, respans.root, respans.outline, visit_respans respans]

end Survey

namespace Use

section

variable (respans : left.Respans right)

include respans

theorem ofName_respans : ofName left = ofName right := by
  funext declared scope identifier access
  rw [ofName, ofName, respans.identifierName?]

theorem own_respans : own left = own right := by
  funext declared scope node
  unfold own isLoopBinding
  simp only [ofName_respans respans, respans.kind, respans.boundBy, respans.parent?, respans.parentKind?]

theorem skips_respans : skips left = skips right := by
  funext node child
  unfold skips isNaming
  rw [respans.kind]

end

mutual

theorem visit_respans (respans : left.Respans right) (declared : Declared) (scope : Nat) :
    ∀ outline, visit left declared scope outline = visit right declared scope outline
  | .node node children => by
      rw [visit, visit, own_respans respans, visitAll_respans respans declared _ node children]

theorem visitAll_respans (respans : left.Respans right) (declared : Declared) (scope parent : Nat) :
    ∀ outlines, visitAll left declared scope parent outlines = visitAll right declared scope parent outlines
  | [] => by rw [visitAll, visitAll]
  | outline :: rest => by
      rw [visitAll, visitAll, skips_respans respans, visit_respans respans declared scope outline,
        visitAll_respans respans declared scope parent rest]

end

end Use

theorem ScopeAnalysis.ofTree_respans (respans : left.Respans right) :
    ScopeAnalysis.ofTree left = ScopeAnalysis.ofTree right := by
  unfold ScopeAnalysis.ofTree
  rw [Survey.ofTree_respans respans, respans.size, respans.root, respans.outline]
  simp only [Use.visit_respans respans]

theorem Declarations.ofTree_respans (respans : left.Respans right) :
    Declarations.ofTree left = Declarations.ofTree right := by
  have add_eq : add left = add right := by
    funext declarations node
    unfold add ClassMember.ofNode?
    simp only [respans.kind, respans.identifierName?]
  rw [ofTree, ofTree, add_eq, Tree.preorder, Tree.preorder, respans.root, respans.outline]

namespace Checker

section

variable (respans : left.Respans right) (scopes : ScopeAnalysis) (declarations : Declarations)

include respans

theorem ascribed?_respans : ascribed? ⟨left, scopes, declarations⟩ = ascribed? ⟨right, scopes, declarations⟩ := by
  funext ascription
  rw [ascribed?, ascribed?, respans.kind]

theorem functionResult_respans {m : Type → Type} [Monad m] (ask : Nat → m Ty) :
    functionResult ⟨left, scopes, declarations⟩ ask = functionResult ⟨right, scopes, declarations⟩ ask := by
  funext node
  unfold functionResult resultOf bodyType returns
  simp only [respans.kind, ascribed?_respans respans, respans.outline]

theorem memberWithin_respans {m : Type → Type} [Monad m] (ask : Nat → m Ty) (name : String) (levels : Nat) :
    memberWithin ⟨left, scopes, declarations⟩ ask name levels =
      memberWithin ⟨right, scopes, declarations⟩ ask name levels := by
  induction levels with
  | zero => rfl
  | succ levels ih =>
      funext type
      rw [memberWithin, memberWithin, ih]
      unfold namedMember classMember classMemberType propertyType literalMember
      simp only [functionResult_respans respans, ascribed?_respans respans, respans.kind, respans.identifierName?]

theorem infer_respans {m : Type → Type} [Monad m] (ask : Nat → m Ty) :
    infer ⟨left, scopes, declarations⟩ ask = infer ⟨right, scopes, declarations⟩ ask := by
  funext node
  unfold infer identifierType bindingType destructured loopElement globalType thisType accessType elementType member
  simp only [functionResult_respans respans, ascribed?_respans respans, respans.kind, respans.identifierName?,
    respans.parent?, respans.parentKind?, respans.ancestors, memberWithin_respans respans]

theorem typeWithin_respans (budget : Nat) :
    typeWithin ⟨left, scopes, declarations⟩ budget = typeWithin ⟨right, scopes, declarations⟩ budget := by
  induction budget with
  | zero => rfl
  | succ budget ih =>
      funext path node
      rw [typeWithin, typeWithin, ih]
      simp only [infer_respans respans]

theorem ofChecker_respans :
    Oracle.ofChecker ⟨left, scopes, declarations⟩ = Oracle.ofChecker ⟨right, scopes, declarations⟩ := by
  unfold Oracle.ofChecker hasMember memberType member typeOf
  simp only [typeWithin_respans respans, memberWithin_respans respans, respans.size]

end

end Checker

namespace Tree

section

variable (respans : left.Respans right)

include respans

theorem isHandledBelow_respans (isHandler : String → Bool) (value : Nat) (accessed : Bool) (above : List Nat) :
    left.isHandledBelow isHandler value accessed above = right.isHandledBelow isHandler value accessed above := by
  induction above generalizing value accessed with
  | nil => rfl
  | cons parent above ih =>
      rw [isHandledBelow, isHandledBelow, respans.kind]
      simp only [hasMemberName, respans.memberName?, ih]

theorem controlsBranchBelow_respans (value : Nat) (above : List Nat) :
    left.controlsBranchBelow value above = right.controlsBranchBelow value above := by
  induction above generalizing value with
  | nil => rfl
  | cons parent above ih =>
      rw [controlsBranchBelow, controlsBranchBelow, respans.kind]
      simp only [ih]

theorem isReturnedBelow_respans (above : List Nat) : left.isReturnedBelow above = right.isReturnedBelow above := by
  induction above with
  | nil => rfl
  | cons parent above ih =>
      rw [isReturnedBelow, isReturnedBelow, respans.kind]
      simp only [ih]

theorem producers_respans : left.producers = right.producers := by
  unfold producers isProducer isAwaited preorder
  simp only [respans.kind, respans.parentKind?, respans.root, respans.outline]

end

end Tree

namespace Inspection

section

variable {m : Type → Type} {τ : Type} [Monad m] (respans : left.Respans right) (scopes : ScopeAnalysis)
  (oracle : Oracle m τ) (options : RuleOptions)

include respans

theorem isResult_respans :
    isResult ⟨left, scopes, oracle, options⟩ = isResult ⟨right, scopes, oracle, options⟩ := by
  funext node
  unfold isResult
  simp only [respans.kind]

theorem localVerdict?_respans :
    localVerdict? ⟨left, scopes, oracle, options⟩ = localVerdict? ⟨right, scopes, oracle, options⟩ := by
  funext node isUse
  unfold localVerdict? isDeclarative isHandled isChecked isReturned Tree.isMemberOf Tree.isCallOf Tree.hasMemberName
  simp only [isResult_respans respans, respans.kind, respans.parentKind?, respans.ancestors, respans.memberName?,
    Tree.isHandledBelow_respans respans, Tree.controlsBranchBelow_respans respans,
    Tree.isReturnedBelow_respans respans]

theorem transfer_respans :
    transfer ⟨left, scopes, oracle, options⟩ = transfer ⟨right, scopes, oracle, options⟩ := by
  have deferralBelow_eq : ∀ above child, deferralBelow ⟨left, scopes, oracle, options⟩ child above =
      deferralBelow ⟨right, scopes, oracle, options⟩ child above := by
    intro above
    induction above with
    | nil => exact fun _ => rfl
    | cons parent above ih =>
        intro child
        rw [deferralBelow, deferralBelow]
        unfold Tree.storedBy?
        simp only [isResult_respans respans, respans.kind, ih]
  funext node
  unfold transfer deferral
  simp only [deferralBelow_eq, respans.ancestors]
  rfl

theorem judge_respans :
    judge ⟨left, scopes, oracle, options⟩ = judge ⟨right, scopes, oracle, options⟩ := by
  have judgeWithin_eq : ∀ budget, judgeWithin ⟨left, scopes, oracle, options⟩ budget =
      judgeWithin ⟨right, scopes, oracle, options⟩ budget := by
    intro budget
    induction budget with
    | zero => rfl
    | succ budget ih =>
        funext path node isUse
        rw [judgeWithin, judgeWithin, localVerdict?_respans respans, transfer_respans respans, ih]
  funext producer
  rw [judge, judge, judgeWithin_eq, respans.size]

theorem findings_respans :
    findings ⟨left, scopes, oracle, options⟩ = findings ⟨right, scopes, oracle, options⟩ := by
  unfold findings blame?
  simp only [judge_respans respans, Tree.producers_respans respans]

end

end Inspection

/-! ## Sources with the same contents -/

/-- What the rule looks at in a tree, with the checker of the tree as its oracle. -/
def Tree.inspection (tree : Tree) (options : RuleOptions) : Inspection Session Ty :=
  { tree
    scopes := ScopeAnalysis.ofTree tree
    oracle := Oracle.ofChecker (Checker.ofTree tree)
    options }

theorem Checker.ofTree_respans (respans : left.Respans right) :
    Checker.ofTree right = { Checker.ofTree left with tree := right } := by
  rw [ofTree, ofTree, ScopeAnalysis.ofTree_respans respans, Declarations.ofTree_respans respans]

theorem Tree.inspection_respans (respans : left.Respans right) (options : RuleOptions) :
    right.inspection options = { left.inspection options with tree := right } := by
  have oracles := Checker.ofChecker_respans respans (ScopeAnalysis.ofTree left) (Declarations.ofTree left)
  rw [inspection, inspection, Checker.ofTree_respans respans, ScopeAnalysis.ofTree_respans respans]
  exact congrArg (Inspection.mk right (ScopeAnalysis.ofTree right) · options) oracles.symm

theorem Tree.judge_respans (respans : left.Respans right) (options : RuleOptions) :
    (left.inspection options).judge = (right.inspection options).judge := by
  rw [inspection_respans respans options]
  exact Inspection.judge_respans respans _ _ _

/-- The nodes that the rule reports, in the order of their producers. -/
theorem Checker.findings_respans (respans : left.Respans right) (options : RuleOptions) :
    ((ofTree left).findings options).map Finding.node = ((ofTree right).findings options).map Finding.node := by
  have nodes : ∀ tree : Tree, ((ofTree tree).findings options).map Finding.node =
      ((tree.inspection options).findings.run (ofTree tree).fresh).run.1 := by
    intro tree
    rw [findings, List.map_map]
    exact List.map_id _
  have starts : (ofTree left).fresh = (ofTree right).fresh := by
    rw [fresh, fresh, ofTree, ofTree, respans.size]
  rw [nodes, nodes, starts, Tree.inspection_respans respans options]
  exact congrArg (fun run : Session (List Nat) => (run.run (ofTree right).fresh).run.1)
    (Inspection.findings_respans respans _ _ _)

/-- Alike tokens make trees that differ only in spans, or are refused for the same cause. -/
theorem Tree.ofTokens_alike {tokens tokens' : List Token} (alike : Token.Alike tokens tokens')
    (length length' : Nat) :
    (∃ error error', ofTokens tokens length = .error error ∧ ofTokens tokens' length' = .error error' ∧
        error.cause = error'.cause) ∨
      ∃ tree tree', ofTokens tokens length = .ok tree ∧ ofTokens tokens' length' = .ok tree' ∧
        tree.Respans tree' := by
  let left : Draft := ⟨Cursor.ofTokens tokens, #[]⟩
  let right : Draft := ⟨Cursor.ofTokens tokens', #[]⟩
  have counted : ∀ row : List Token, (row.filter fun token => !token.isNewline).length ≤ row.length :=
    fun row => List.length_filter_le _ row
  have drafts : Located.Alike left right := ⟨alike, rfl⟩
  have agrees : (Grammar.productions (tokens.length + 1)).Agrees (ahead left + 1)
      (Grammar.productions (tokens'.length + 1)) := by
    refine Grammar.agrees_productions (Nat.succ_le_succ (counted tokens)) (Nat.succ_le_succ ?_)
    exact Nat.le_trans (Nat.le_of_eq alike.length_filter) (counted tokens')
  have ended := @Grammar.agree_program _ _ _ agrees length length' left right drafts trivial (Nat.lt_succ_self _)
  rw [ofTokens, ofTokens]
  change Ends free Eq left (Grammar.program _ length left) (Grammar.program _ length' right) at ended
  generalize Grammar.program _ length left = outcome at ended ⊢
  generalize Grammar.program _ length' right = outcome' at ended ⊢
  cases ended with
  | fail failAlike => exact .inl ⟨_, _, rfl, rfl, failAlike.1⟩
  | @finish root root' after after' related alike _ _ =>
      subst related
      exact .inr ⟨_, _, rfl, rfl, respans_ofNodes alike.2 root⟩

/-- Sources whose tokens say the same apart from layout are refused with the same message, or make the same
nodes up to spans, which the rule judges and reports alike. -/
theorem parse_ignores_layout {first second : String} {tokens tokens' : List Token}
    (scanned : Token.scan first = .ok tokens) (scanned' : Token.scan second = .ok tokens')
    (same : Token.contents tokens = Token.contents tokens') :
    (∃ error error', Tree.parse first = .error error ∧ Tree.parse second = .error error' ∧
        error.message = error'.message) ∨
      ∃ tree tree', Tree.parse first = .ok tree ∧ Tree.parse second = .ok tree' ∧
        tree.nodes.map Node.kind = tree'.nodes.map Node.kind ∧ tree.parents = tree'.parents ∧
        tree.root = tree'.root ∧
        ∀ options, (tree.inspection options).judge = (tree'.inspection options).judge ∧
          ((Checker.ofTree tree).findings options).map Finding.node =
            ((Checker.ofTree tree').findings options).map Finding.node ∧
          ∃ reports reports', lint options first = .ok reports ∧ lint options second = .ok reports' ∧
            (reports.map Finding.node).Perm (reports'.map Finding.node) := by
  have alike := Token.alike_of_contents tokens tokens' same
  have parsed := Tree.parse_of_scan scanned
  have parsed' := Tree.parse_of_scan scanned'
  rcases Tree.ofTokens_alike alike first.utf8ByteSize second.utf8ByteSize with
    ⟨error, error', failed, failed', cause⟩ | ⟨tree, tree', made, made', respans⟩
  · exact .inl ⟨error, error', parsed.trans failed, parsed'.trans failed',
      congrArg SyntaxError.Cause.message cause⟩
  · refine .inr ⟨tree, tree', parsed.trans made, parsed'.trans made', respans.kinds, respans.parents,
      respans.root, fun options => ?_⟩
    have nodes_eq := Checker.findings_respans respans options
    obtain ⟨reports, linted, sorted⟩ := lint_of_parse (parsed.trans made) options
    obtain ⟨reports', linted', sorted'⟩ := lint_of_parse (parsed'.trans made') options
    exact ⟨Tree.judge_respans respans options, nodes_eq, reports, reports', linted, linted',
      sorted.trans (nodes_eq ▸ sorted'.symm)⟩

def spacedOut : String := "declare function f ( ) : R\n  /* a\n b */\n\nconst r = f ( ) // lost"

def closeTogether : String := "declare function f():R\nconst r=f()"

theorem parse_ignores_layout_of_comments :
    ∃ tokens tokens', Token.scan spacedOut = .ok tokens ∧ Token.scan closeTogether = .ok tokens' ∧
      tokens.length = tokens'.length + 2 ∧ Token.contents tokens = Token.contents tokens' ∧
      ∃ tree tree', Tree.parse spacedOut = .ok tree ∧ Tree.parse closeTogether = .ok tree' ∧
        tree.nodes.map Node.kind = tree'.nodes.map Node.kind ∧
        ∀ options, ((Checker.ofTree tree).findings options).map Finding.node =
          ((Checker.ofTree tree').findings options).map Finding.node := by
  have checks : ((Token.scan spacedOut).toOption.any fun tokens =>
      (Token.scan closeTogether).toOption.any fun tokens' =>
        decide (tokens.length = tokens'.length + 2 ∧ Token.contents tokens = Token.contents tokens')) = true := by
    decide +kernel
  have parses : (Tree.parse spacedOut).toOption.isSome = true := by decide +kernel
  cases scanned : Token.scan spacedOut with
  | error error => simp [scanned, Except.toOption] at checks
  | ok tokens =>
      cases scanned' : Token.scan closeTogether with
      | error error => simp [scanned, scanned', Except.toOption] at checks
      | ok tokens' =>
          rw [scanned, scanned'] at checks
          obtain ⟨longer, same⟩ := of_decide_eq_true checks
          refine ⟨tokens, tokens', rfl, rfl, longer, same, ?_⟩
          rcases parse_ignores_layout scanned scanned' same with
            ⟨error, _, failed, -, -⟩ | ⟨tree, tree', parsed, parsed', kinds, -, -, reports⟩
          · rw [failed] at parses
            cases parses
          · exact ⟨tree, tree', parsed, parsed', kinds, fun options => (reports options).2.1⟩

end Heed
