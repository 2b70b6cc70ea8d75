import Heed.Proofs.Ty.Instantiation
import Heed.Ty.Expand

/-!
# What holds of every union inside a type

A property that every union in normal form has is kept wherever unions are made anew: when written types
are resolved, aliases are expanded, and values are awaited, called or indexed. Replacing type parameters in
a resolved type makes no union anew; that case is left to those who know the types.
-/

set_option autoImplicit false

namespace Heed

namespace Ty

mutual

/-- The parts of every union inside a type have a property. -/
def Each (good : List Ty → Prop) : Ty → Prop
  | .named _ args => EachOf good args
  | .object members => EachMember good members
  | .function result => Each good result
  | .promise inner => Each good inner
  | .array item => Each good item
  | .tuple items => EachOf good items
  | .union parts => good parts ∧ EachOf good parts
  | .intersection parts => EachOf good parts
  | _ => True

def EachOf (good : List Ty → Prop) : List Ty → Prop
  | [] => True
  | type :: rest => Each good type ∧ EachOf good rest

def EachMember (good : List Ty → Prop) : List (String × Ty) → Prop
  | [] => True
  | (_, type) :: rest => Each good type ∧ EachMember good rest

end

variable {good : List Ty → Prop}

mutual

instance decidableEach [DecidablePred good] : ∀ type : Ty, Decidable (Each good type)
  | .named _ args => decidableEachOf args
  | .object members => decidableEachMember members
  | .function result => decidableEach result
  | .promise inner => decidableEach inner
  | .array item => decidableEach item
  | .tuple items => decidableEachOf items
  | .union parts =>
      have := decidableEachOf parts
      inferInstanceAs (Decidable (good parts ∧ EachOf good parts))
  | .intersection parts => decidableEachOf parts
  | .any | .unknown | .never | .void | .null | .undefined | .primitive _ | .literal _ | .objectLiteral _
  | .classValue _ => .isTrue trivial

instance decidableEachOf [DecidablePred good] : ∀ types : List Ty, Decidable (EachOf good types)
  | [] => .isTrue trivial
  | type :: rest =>
      have := decidableEach type
      have := decidableEachOf rest
      inferInstanceAs (Decidable (Each good type ∧ EachOf good rest))

instance decidableEachMember [DecidablePred good] :
    ∀ members : List (String × Ty), Decidable (EachMember good members)
  | [] => .isTrue trivial
  | (_, type) :: rest =>
      have := decidableEach type
      have := decidableEachMember rest
      inferInstanceAs (Decidable (Each good type ∧ EachMember good rest))

end

theorem eachOf_iff {types : List Ty} : EachOf good types ↔ ∀ type ∈ types, Each good type := by
  induction types with
  | nil => simp [EachOf]
  | cons type rest ih => simp [EachOf, ih]

theorem eachMember_iff {members : List (String × Ty)} :
    EachMember good members ↔ ∀ member ∈ members, Each good member.2 := by
  induction members with
  | nil => simp [EachMember]
  | cons member rest ih => simp [EachMember, ih]

mutual

theorem each_leaves : ∀ type : Ty, Each good type → ∀ leaf ∈ leaves type, Each good leaf
  | .union parts, each, leaf, member => each_leavesAll parts each.2 leaf member
  | .never, _, _, member => by simp [leaves] at member
  | .any, each, _, member | .unknown, each, _, member | .void, each, _, member | .null, each, _, member
  | .undefined, each, _, member | .primitive _, each, _, member | .literal _, each, _, member
  | .named _ _, each, _, member | .object _, each, _, member | .objectLiteral _, each, _, member
  | .function _, each, _, member | .classValue _, each, _, member | .promise _, each, _, member
  | .array _, each, _, member | .tuple _, each, _, member | .intersection _, each, _, member => by
      rw [leaves_of_isLeaf rfl, List.mem_singleton] at member
      rw [member]
      exact each

theorem each_leavesAll : ∀ types : List Ty, EachOf good types → ∀ leaf ∈ leavesAll types, Each good leaf
  | [], _, _, member => by simp [leavesAll] at member
  | type :: rest, each, leaf, member => by
      rcases List.mem_append.mp member with first | later
      · exact each_leaves type each.1 leaf first
      · exact each_leavesAll rest each.2 leaf later

end

section Made

variable (admits : ∀ parts, NormalParts parts → good parts)

include admits

theorem each_unionOf {types : List Ty} (each : ∀ type ∈ types, Each good type) :
    Each good (unionOf types) := by
  have eachLeaf := each_leavesAll types (eachOf_iff.mpr each)
  rcases unionOf_cases types with never | ⟨leaf, listed, one⟩ | ⟨parts, several, normal, listed⟩
  · rw [never]
    trivial
  · rw [one]
    exact eachLeaf leaf listed
  · rw [several]
    exact ⟨admits parts normal, eachOf_iff.mpr fun part member => eachLeaf part (listed part member)⟩

theorem each_withoutNullish {type : Ty} (each : Each good type) : Each good type.withoutNullish := by
  cases type with
  | union parts =>
      refine each_unionOf admits fun part member => ?_
      exact eachOf_iff.mp each.2 part (List.mem_filter.mp member).1
  | _ => exact each

end Made

theorem each_ofName {name : String} {args : List Ty} (each : ∀ arg ∈ args, Each good arg) :
    Each good (ofName name args) := by
  have first : Each good (args.headD .unknown) := by
    cases args with
    | nil => trivial
    | cons arg rest => exact each arg List.mem_cons_self
  unfold ofName
  split
  case h_14 => exact first
  case h_15 => exact first
  case h_16 => exact first
  case h_17 => exact first
  case h_18 => exact eachOf_iff.mpr each
  all_goals trivial

end Ty

open Ty (Each EachOf EachMember)

namespace Substitution

variable {good : List Ty → Prop}

theorem each_of_find? {substitution : Substitution} (each : ∀ entry ∈ substitution, Each good entry.2)
    {name : String} {args : List Ty} {type : Ty} (found : substitution.find? name args = some type) :
    Each good type :=
  each (name, type) (mem_of_find? found).2

theorem each_ofParams (params : List String) {args : List Ty} (each : ∀ arg ∈ args, Each good arg) :
    ∀ entry ∈ ofParams params args, Each good entry.2 := by
  intro entry member
  obtain ⟨⟨param, index⟩, -, rfl⟩ := List.mem_map.mp (List.mem_reverse.mp member)
  change Each good (args.getD index .unknown)
  rw [List.getD_eq_getElem?_getD]
  cases found : args[index]? with
  | none => trivial
  | some arg => exact each arg (List.mem_of_getElem? found)

end Substitution

namespace TypeExpr

variable {good : List Ty → Prop} {substitution : Substitution}

mutual

theorem each_resolve (admits : ∀ parts, Ty.NormalParts parts → good parts)
    (each : ∀ entry ∈ substitution, Each good entry.2) :
    ∀ type : TypeExpr, Each good (type.resolve substitution)
  | .named name args => by
      rw [resolve]
      cases found : substitution.find? name (resolveAll substitution args) with
      | some type => exact Substitution.each_of_find? each found
      | none => exact Ty.each_ofName (Ty.eachOf_iff.mp (each_resolveAll admits each args))
  | .union parts => Ty.each_unionOf admits (Ty.eachOf_iff.mp (each_resolveAll admits each parts))
  | .intersection parts => each_resolveAll admits each parts
  | .function result => each_resolve admits each result
  | .object members => each_resolveMembers admits each members
  | .array item => each_resolve admits each item
  | .tuple items => each_resolveAll admits each items
  | .literal _ => trivial
  | .unmodelled => trivial

theorem each_resolveAll (admits : ∀ parts, Ty.NormalParts parts → good parts)
    (each : ∀ entry ∈ substitution, Each good entry.2) :
    ∀ types : List TypeExpr, EachOf good (resolveAll substitution types)
  | [] => trivial
  | type :: rest => ⟨each_resolve admits each type, each_resolveAll admits each rest⟩

theorem each_resolveMembers (admits : ∀ parts, Ty.NormalParts parts → good parts)
    (each : ∀ entry ∈ substitution, Each good entry.2) :
    ∀ members : List TypeMember, EachMember good (resolveMembers substitution members)
  | [] => trivial
  | .property _ type :: rest => ⟨each_resolve admits each type, each_resolveMembers admits each rest⟩
  | .method _ result :: rest => ⟨each_resolve admits each result, each_resolveMembers admits each rest⟩
  | .initializer :: rest => each_resolveMembers admits each rest

end

/-- A written type without type parameters. -/
theorem each_resolve_nil (admits : ∀ parts, Ty.NormalParts parts → good parts) (type : TypeExpr) :
    Each good (type.resolve []) :=
  type.each_resolve admits (by simp)

end TypeExpr

theorem TypeMember.each_resolve {good : List Ty → Prop} (admits : ∀ parts, Ty.NormalParts parts → good parts)
    {substitution : Substitution} (each : ∀ entry ∈ substitution, Each good entry.2) (member : TypeMember) :
    ∀ type ∈ member.resolve substitution, Each good type := by
  cases member with
  | property name type => simpa [TypeMember.resolve] using type.each_resolve admits each
  | method name result => simpa [TypeMember.resolve, Each] using result.each_resolve admits each
  | initializer => simp [TypeMember.resolve]

namespace Declarations

variable {good : List Ty → Prop} (admits : ∀ parts, Ty.NormalParts parts → good parts)
  (declarations : Declarations)

include admits

theorem each_step? {type : Ty} (each : Each good type) : ∀ next ∈ declarations.step? type, Each good next := by
  intro next found
  cases type with
  | named name args =>
      obtain ⟨shape, -, rfl⟩ := Option.map_eq_some_iff.mp found
      exact shape.body.each_resolve admits (Substitution.each_ofParams _ (Ty.eachOf_iff.mp each))
  | _ => cases found

theorem each_expandWithin (steps : Nat) {type : Ty} (each : Each good type) :
    Each good (declarations.expandWithin steps type) := by
  induction steps generalizing type with
  | zero => trivial
  | succ steps ih =>
      rw [expandWithin]
      cases found : declarations.step? type with
      | none => exact each
      | some next => exact ih (each_step? admits declarations each next found)

theorem each_expand {type : Ty} (each : Each good type) : Each good (declarations.expand type) :=
  each_expandWithin admits declarations depthLimit each

theorem each_awaitedWithin (levels : Nat) {type : Ty} (each : Each good type) :
    Each good (declarations.awaitedWithin levels type) := by
  induction levels generalizing type with
  | zero => trivial
  | succ levels ih =>
      have each := each_expand admits declarations each
      rw [awaitedWithin]
      split
      case h_1 found =>
          rw [found] at each
          exact ih each
      case h_2 found =>
          rw [found] at each
          refine Ty.each_unionOf admits (List.forall_mem_map.mpr fun part member => ih ?_)
          exact Ty.eachOf_iff.mp each.2 part member
      case h_3 => exact each

theorem each_awaited {type : Ty} (each : Each good type) : Each good (declarations.awaited type) :=
  each_awaitedWithin admits declarations _ each

theorem each_resultWithin (levels : Nat) {type : Ty} (each : Each good type) :
    Each good (declarations.resultWithin levels type) := by
  induction levels generalizing type with
  | zero => trivial
  | succ levels ih =>
      have each := each_expand admits declarations each
      rw [resultWithin]
      split
      case h_1 found =>
          rw [found] at each
          exact each
      case h_2 => trivial
      case h_3 found =>
          rw [found] at each
          refine Ty.each_unionOf admits (List.forall_mem_map.mpr fun part member => ih ?_)
          exact Ty.eachOf_iff.mp each.2 part member
      case h_4 => trivial

theorem each_result {type : Ty} (each : Each good type) : Each good (declarations.result type) :=
  each_resultWithin admits declarations _ each

theorem each_element {type : Ty} (each : Each good type) : Each good (declarations.element type) := by
  have each := each_expand admits declarations each
  rw [element]
  split
  case h_1 found =>
      rw [found] at each
      exact each
  case h_2 found =>
      rw [found] at each
      exact Ty.each_unionOf admits (Ty.eachOf_iff.mp each)
  case h_3 => trivial
  case h_4 => trivial

omit admits in
theorem each_instantiate (type : Ty) : Each good (declarations.instantiate type) := by
  unfold instantiate
  split
  case h_1 =>
      refine Ty.eachOf_iff.mpr fun arg member => ?_
      rw [List.eq_of_mem_replicate member]
      trivial
  case h_2 => trivial
  case h_3 => trivial

end Declarations

namespace Ty

variable {good : List Ty → Prop}

theorem each_arrayMember? (admits : ∀ parts, NormalParts parts → good parts) {item : Ty}
    (each : Each good item) (name : String) : ∀ type ∈ item.arrayMember? name, Each good type := by
  have orUndefined : Each good (unionOf [item, .undefined]) :=
    each_unionOf admits (by simp [each, Each])
  unfold arrayMember?
  split <;> simp [Each, orUndefined]

theorem each_promiseMember? {inner : Ty} (each : Each good inner) (name : String) :
    ∀ type ∈ inner.promiseMember? name, Each good type := by
  unfold promiseMember?
  split <;> simp [Each, each]

theorem each_stringMember? (name : String) : ∀ type ∈ stringMember? name, Each good type := by
  unfold stringMember?
  split <;> simp [Each]

end Ty

/-! ## Replacing type parameters -/

namespace Ty

mutual

def mentions (params : List String) : Ty → Bool
  | .named name args => (args.isEmpty && params.contains name) || mentionsIn params args
  | .object members => mentionsInMembers params members
  | .function result => mentions params result
  | .promise inner => mentions params inner
  | .array item => mentions params item
  | .tuple items => mentionsIn params items
  | .union parts => mentionsIn params parts
  | .intersection parts => mentionsIn params parts
  | _ => false

def mentionsIn (params : List String) : List Ty → Bool
  | [] => false
  | type :: rest => mentions params type || mentionsIn params rest

def mentionsInMembers (params : List String) : List (String × Ty) → Bool
  | [] => false
  | (_, type) :: rest => mentions params type || mentionsInMembers params rest

end

/-- The outermost constructor of a type. -/
def head : Ty → Ty
  | .named name _ => .named name []
  | .object _ => .object []
  | .function _ => .function .never
  | .promise _ => .promise .never
  | .array _ => .array .never
  | .tuple _ => .tuple []
  | .union _ => .union []
  | .intersection _ => .intersection []
  | type => type

/-- Parts of a union that stay apart, whatever type parameters are replaced by: no part is a type parameter
itself, and one in which a type parameter occurs has an outermost constructor of its own. -/
structure StayApart (params : List String) (parts : List Ty) : Prop where
  notBare : ∀ param ∈ params, .named param [] ∉ parts
  heads : parts.Pairwise fun one other => one.mentions params || other.mentions params → one.head ≠ other.head

instance (params : List String) : DecidablePred (StayApart params) := fun parts =>
  decidable_of_iff ((∀ param ∈ params, .named param [] ∉ parts) ∧ parts.Pairwise fun one other =>
      one.mentions params || other.mentions params → one.head ≠ other.head)
    ⟨fun both => ⟨both.1, both.2⟩, fun apart => ⟨apart.notBare, apart.heads⟩⟩

theorem isLeaf_head (type : Ty) : type.head.isLeaf = type.isLeaf := by
  cases type <;> rfl

theorem find?_eq_none {params : List String} {substitution : Substitution}
    (within : ∀ entry ∈ substitution, entry.1 ∈ params) {name : String} {args : List Ty}
    (notBare : ¬ (args = [] ∧ name ∈ params)) : substitution.find? name args = none := by
  cases found : substitution.find? name args with
  | none => rfl
  | some type =>
      obtain ⟨empty, listed⟩ := Substitution.mem_of_find? found
      exact absurd ⟨empty, within _ listed⟩ notBare

mutual

theorem substitute_of_not_mentions {params : List String} {substitution : Substitution}
    (within : ∀ entry ∈ substitution, entry.1 ∈ params) :
    ∀ type : Ty, type.mentions params = false → type.substitute substitution = type
  | .named name args, absent => by
      rw [mentions, Bool.or_eq_false_iff] at absent
      have kept : substitution.find? name args = none := by
        apply find?_eq_none within
        rintro ⟨rfl, listed⟩
        simp [listed] at absent
      rw [substitute, kept, substituteAll_of_not_mentions within args absent.2]
  | .object members, absent => by rw [substitute, substituteMembers_of_not_mentions within members absent]
  | .function result, absent => by rw [substitute, substitute_of_not_mentions within result absent]
  | .promise inner, absent => by rw [substitute, substitute_of_not_mentions within inner absent]
  | .array item, absent => by rw [substitute, substitute_of_not_mentions within item absent]
  | .tuple items, absent => by rw [substitute, substituteAll_of_not_mentions within items absent]
  | .union parts, absent => by rw [substitute, substituteAll_of_not_mentions within parts absent]
  | .intersection parts, absent => by rw [substitute, substituteAll_of_not_mentions within parts absent]
  | .any, _ | .unknown, _ | .never, _ | .void, _ | .null, _ | .undefined, _ | .primitive _, _
  | .literal _, _ | .objectLiteral _, _ | .classValue _, _ => rfl

theorem substituteAll_of_not_mentions {params : List String} {substitution : Substitution}
    (within : ∀ entry ∈ substitution, entry.1 ∈ params) :
    ∀ types : List Ty, mentionsIn params types = false → substituteAll substitution types = types
  | [], _ => rfl
  | type :: rest, absent => by
      rw [mentionsIn, Bool.or_eq_false_iff] at absent
      rw [substituteAll, substitute_of_not_mentions within type absent.1,
        substituteAll_of_not_mentions within rest absent.2]

theorem substituteMembers_of_not_mentions {params : List String} {substitution : Substitution}
    (within : ∀ entry ∈ substitution, entry.1 ∈ params) :
    ∀ members : List (String × Ty), mentionsInMembers params members = false →
      substituteMembers substitution members = members
  | [], _ => rfl
  | (_, type) :: rest, absent => by
      rw [mentionsInMembers, Bool.or_eq_false_iff] at absent
      rw [substituteMembers, substitute_of_not_mentions within type absent.1,
        substituteMembers_of_not_mentions within rest absent.2]

end

mutual

theorem mentions_nil : ∀ type : Ty, type.mentions [] = false
  | .named _ args => by simp [mentions, mentionsIn_nil args]
  | .object members => mentionsInMembers_nil members
  | .function result => mentions_nil result
  | .promise inner => mentions_nil inner
  | .array item => mentions_nil item
  | .tuple items => mentionsIn_nil items
  | .union parts => mentionsIn_nil parts
  | .intersection parts => mentionsIn_nil parts
  | .any | .unknown | .never | .void | .null | .undefined | .primitive _ | .literal _ | .objectLiteral _
  | .classValue _ => rfl

theorem mentionsIn_nil : ∀ types : List Ty, mentionsIn [] types = false
  | [] => rfl
  | type :: rest => by rw [mentionsIn, mentions_nil type, mentionsIn_nil rest, Bool.or_self]

theorem mentionsInMembers_nil : ∀ members : List (String × Ty), mentionsInMembers [] members = false
  | [] => rfl
  | (_, type) :: rest => by
      rw [mentionsInMembers, mentions_nil type, mentionsInMembers_nil rest, Bool.or_self]

end

theorem substitute_nil (type : Ty) : type.substitute [] = type :=
  substitute_of_not_mentions (by simp) type type.mentions_nil

mutual

/-- What the replaced parts of every union have, every union has in the end. -/
theorem each_substitute {good stays : List Ty → Prop} {substitution : Substitution}
    (entries : ∀ entry ∈ substitution, Each good entry.2)
    (keeps : ∀ parts, good parts → stays parts → good (substituteAll substitution parts)) :
    ∀ type : Ty, Each good type → Each stays type → Each good (type.substitute substitution)
  | .named name args, each, stay => by
      rw [substitute]
      cases found : substitution.find? name args with
      | some type => exact Substitution.each_of_find? entries found
      | none => exact eachOf_substituteAll entries keeps args each stay
  | .object members, each, stay => eachMember_substituteMembers entries keeps members each stay
  | .function result, each, stay => each_substitute entries keeps result each stay
  | .promise inner, each, stay => each_substitute entries keeps inner each stay
  | .array item, each, stay => each_substitute entries keeps item each stay
  | .tuple items, each, stay => eachOf_substituteAll entries keeps items each stay
  | .union parts, each, stay =>
      ⟨keeps parts each.1 stay.1, eachOf_substituteAll entries keeps parts each.2 stay.2⟩
  | .intersection parts, each, stay => eachOf_substituteAll entries keeps parts each stay
  | .any, _, _ | .unknown, _, _ | .never, _, _ | .void, _, _ | .null, _, _ | .undefined, _, _
  | .primitive _, _, _ | .literal _, _, _ | .objectLiteral _, _, _ | .classValue _, _, _ => trivial

theorem eachOf_substituteAll {good stays : List Ty → Prop} {substitution : Substitution}
    (entries : ∀ entry ∈ substitution, Each good entry.2)
    (keeps : ∀ parts, good parts → stays parts → good (substituteAll substitution parts)) :
    ∀ types : List Ty, EachOf good types → EachOf stays types → EachOf good (substituteAll substitution types)
  | [], _, _ => trivial
  | type :: rest, each, stay =>
      ⟨each_substitute entries keeps type each.1 stay.1, eachOf_substituteAll entries keeps rest each.2 stay.2⟩

theorem eachMember_substituteMembers {good stays : List Ty → Prop} {substitution : Substitution}
    (entries : ∀ entry ∈ substitution, Each good entry.2)
    (keeps : ∀ parts, good parts → stays parts → good (substituteAll substitution parts)) :
    ∀ members : List (String × Ty), EachMember good members → EachMember stays members →
      EachMember good (substituteMembers substitution members)
  | [], _, _ => trivial
  | (_, type) :: rest, each, stay =>
      ⟨each_substitute entries keeps type each.1 stay.1,
        eachMember_substituteMembers entries keeps rest each.2 stay.2⟩

end

theorem length_substituteAll (substitution : Substitution) (types : List Ty) :
    (substituteAll substitution types).length = types.length := by
  rw [substituteAll_eq_map, List.length_map]

section Replaced

variable {params : List String} {substitution : Substitution}
  (within : ∀ entry ∈ substitution, entry.1 ∈ params)

include within

/-- A type that is no type parameter keeps its outermost constructor. -/
theorem head_substitute {type : Ty} (notBare : ∀ param ∈ params, type ≠ .named param []) :
    (type.substitute substitution).head = type.head := by
  cases type with
  | named name args =>
      have kept : substitution.find? name args = none := by
        apply find?_eq_none within
        rintro ⟨rfl, listed⟩
        exact notBare name listed rfl
      rw [substitute, kept]
      rfl
  | _ => rfl

theorem normalParts_substituteAll {parts : List Ty} (normal : NormalParts parts)
    (apart : StayApart params parts) : NormalParts (substituteAll substitution parts) := by
  have heads : ∀ part ∈ parts, (part.substitute substitution).head = part.head := fun part member =>
    head_substitute within fun param listed same => apart.notBare param listed (same ▸ member)
  constructor
  case two_le =>
      rw [length_substituteAll]
      exact normal.two_le
  case isLeaf =>
      rw [substituteAll_eq_map, List.forall_mem_map]
      intro part member
      rw [← isLeaf_head, heads part member, isLeaf_head]
      exact normal.isLeaf part member
  case nodup =>
      rw [substituteAll_eq_map, List.nodup_iff_pairwise_ne, List.pairwise_map]
      refine (normal.nodup.and apart.heads).imp_of_mem fun {one other} oneIn otherIn both same => ?_
      obtain ⟨differ, heads_⟩ := both
      -- Parts in which something is replaced differ at the outside, the others are as they were.
      by_cases mentioned : one.mentions params || other.mentions params
      · refine heads_ mentioned ?_
        rw [← heads one oneIn, ← heads other otherIn, same]
      · rw [Bool.not_eq_true, Bool.or_eq_false_iff] at mentioned
        rw [substitute_of_not_mentions within one mentioned.1,
          substitute_of_not_mentions within other mentioned.2] at same
        exact differ same

end Replaced

end Ty

end Heed
