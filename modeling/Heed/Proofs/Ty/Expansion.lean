import Heed.Checker.Session
import Heed.Proofs.Tree.Shape
import Heed.Proofs.Ty.Canonicity
import Heed.Proofs.Ty.Instantiation

/-!
# What is behind aliases and promises

Replacing a reference to an alias by the body of the alias, again and again, either ends at a type that is no
such reference or goes on for ever. Expansion follows it for a limited number of replacements and gives
`unknown` where these are not enough. What it gives never refers to an alias, so expanding again changes
nothing, and the same is true of awaiting: what is left has no promise and no alias at its outside, and if it
is a union then none of its parts has.
-/

set_option autoImplicit false

namespace Heed

/-! ## Parameters and their arguments -/

namespace Substitution

/-- Each parameter stands for the argument at its place, or for `unknown` where there is none. Of two parameters
of one name the later counts, and no other name stands for anything. -/
def Binds (params : List String) (args : List Ty) (substitution : Substitution) : Prop :=
  ∀ name type, substitution.lookup name = some type ↔
    ∃ index, params[index]? = some name ∧ (∀ later, index < later → params[later]? ≠ some name) ∧
      type = args.getD index .unknown

theorem ofParams_append_singleton (params : List String) (last : String) (args : List Ty) :
    ofParams (params ++ [last]) args = (last, args.getD params.length .unknown) :: ofParams params args := by
  simp [ofParams, List.zipIdx_append]

theorem binds_ofParams (params : List String) (args : List Ty) : Binds params args (ofParams params args) := by
  intro name type
  induction params using List.reverseRecOn with
  | nil => simp [ofParams]
  | append_singleton params last ih =>
      rw [ofParams_append_singleton]
      by_cases same : name = last
      · subst same
        rw [List.lookup_cons_self, Option.some_inj]
        constructor
        · rintro rfl
          exact ⟨params.length, by simp, by grind, rfl⟩
        · rintro ⟨index, found, final, rfl⟩
          grind
      · have skipped : ((last, args.getD params.length .unknown) :: ofParams params args).lookup name =
            (ofParams params args).lookup name := by
          rw [List.lookup_cons, beq_false_of_ne same]
        rw [skipped, ih]
        grind

/-- Two substitutions that bind the same parameters to the same arguments find the same types. -/
theorem Binds.lookup_eq {params : List String} {args : List Ty} {substitution other : Substitution}
    (binds : Binds params args substitution) (otherBinds : Binds params args other) (name : String) :
    substitution.lookup name = other.lookup name := by
  apply Option.ext
  intro type
  rw [binds name type, otherBinds name type]

end Substitution

namespace TypeExpr

variable {substitution other : Substitution}

mutual

theorem resolve_congr (same : ∀ name, substitution.lookup name = other.lookup name) :
    ∀ type : TypeExpr, type.resolve substitution = type.resolve other
  | .named name args => by
      rw [resolve, resolve, resolveAll_congr same args, Substitution.find?, Substitution.find?, same]
  | .union parts => by rw [resolve, resolve, resolveAll_congr same parts]
  | .intersection parts => by rw [resolve, resolve, resolveAll_congr same parts]
  | .function result => by rw [resolve, resolve, resolve_congr same result]
  | .object members => by rw [resolve, resolve, resolveMembers_congr same members]
  | .array item => by rw [resolve, resolve, resolve_congr same item]
  | .tuple items => by rw [resolve, resolve, resolveAll_congr same items]
  | .literal _ => rfl
  | .unmodelled => rfl

theorem resolveAll_congr (same : ∀ name, substitution.lookup name = other.lookup name) :
    ∀ types : List TypeExpr, resolveAll substitution types = resolveAll other types
  | [] => rfl
  | type :: rest => by rw [resolveAll, resolveAll, resolve_congr same type, resolveAll_congr same rest]

theorem resolveMembers_congr (same : ∀ name, substitution.lookup name = other.lookup name) :
    ∀ members : List TypeMember, resolveMembers substitution members = resolveMembers other members
  | [] => rfl
  | .property _ type :: rest => by
      rw [resolveMembers, resolveMembers, resolve_congr same type, resolveMembers_congr same rest]
  | .method _ result :: rest => by
      rw [resolveMembers, resolveMembers, resolve_congr same result, resolveMembers_congr same rest]
  | .initializer :: rest => by rw [resolveMembers, resolveMembers, resolveMembers_congr same rest]

end

end TypeExpr

/-! ## Replacing aliases -/

namespace Declarations

variable (declarations : Declarations)

def IsAlias : Ty → Prop
  | .named name _ => ∃ shape, declarations.alias? name = some shape
  | _ => False

/-- A reference to an alias is replaced by the body of the alias, with the parameters bound to the arguments. -/
inductive Replaces : Ty → Ty → Prop where
  | body {name : String} {args : List Ty} {shape : AliasShape} {substitution : Substitution}
      (found : declarations.alias? name = some shape)
      (binds : Substitution.Binds shape.typeParams args substitution) :
      Replaces (.named name args) (shape.body.resolve substitution)

inductive Rewrites : Nat → Ty → Ty → Prop where
  | here (type : Ty) : Rewrites 0 type type
  | next {count : Nat} {type middle last : Ty} (first : declarations.Replaces type middle)
      (rest : Rewrites count middle last) : Rewrites (count + 1) type last

variable {declarations} {type next last : Ty}

theorem step?_eq_none_iff : declarations.step? type = none ↔ ¬ declarations.IsAlias type := by
  cases type with
  | named name args =>
      rw [step?, Option.map_eq_none_iff, IsAlias, Option.eq_none_iff_forall_ne_some]
      exact not_exists.symm
  | _ => simp [step?, IsAlias]

/-- There is one way to replace a reference. -/
theorem step?_eq_some_iff : declarations.step? type = some next ↔ declarations.Replaces type next := by
  constructor
  · intro found
    cases type with
    | named name args =>
        obtain ⟨shape, declared, rfl⟩ := Option.map_eq_some_iff.mp found
        exact .body declared (Substitution.binds_ofParams shape.typeParams args)
    | _ => cases found
  · rintro ⟨found, binds⟩
    rw [step?, found, Option.map_some]
    exact congrArg some (TypeExpr.resolve_congr ((Substitution.binds_ofParams _ _).lookup_eq binds) _)

/-- The replacements are followed to their end if there are fewer of them than steps. -/
theorem expandWithin_of_rewrites {count : Nat} (rewrites : declarations.Rewrites count type last)
    (final : ¬ declarations.IsAlias last) (steps : Nat) :
    declarations.expandWithin steps type = if count < steps then last else .unknown := by
  induction rewrites generalizing steps with
  | here type =>
      cases steps with
      | zero => rfl
      | succ steps => rw [expandWithin, step?_eq_none_iff.mpr final, if_pos (Nat.succ_pos steps)]
  | next first rest ih =>
      cases steps with
      | zero => rfl
      | succ steps =>
          rw [expandWithin, step?_eq_some_iff.mpr first]
          simp only [ih final steps, Nat.succ_lt_succ_iff]

theorem expandWithin_of_endless (endless : ∀ count last, declarations.Rewrites count type last →
    declarations.IsAlias last) (steps : Nat) : declarations.expandWithin steps type = .unknown := by
  induction steps generalizing type with
  | zero => rfl
  | succ steps ih =>
      rw [expandWithin]
      cases found : declarations.step? type with
      | none => exact absurd (endless 0 type (.here type)) (step?_eq_none_iff.mp found)
      | some next =>
          apply ih
          intro count last rewrites
          exact endless (count + 1) last (.next (step?_eq_some_iff.mp found) rewrites)

theorem not_isAlias_expandWithin (steps : Nat) (type : Ty) :
    ¬ declarations.IsAlias (declarations.expandWithin steps type) := by
  induction steps generalizing type with
  | zero => exact id
  | succ steps ih =>
      rw [expandWithin]
      cases found : declarations.step? type with
      | none => exact step?_eq_none_iff.mp found
      | some next => exact ih next

theorem expand_of_not_isAlias (final : ¬ declarations.IsAlias type) : declarations.expand type = type :=
  expandWithin_of_rewrites (.here type) final depthLimit

/-! ### Replacements that can be computed -/

/-- The type after a number of replacements, if so many can be made. -/
def rewritten? (declarations : Declarations) : Nat → Ty → Option Ty
  | 0, type => some type
  | count + 1, type => (declarations.step? type).bind (rewritten? declarations count)

theorem rewritten?_eq_some_iff {count : Nat} :
    declarations.rewritten? count type = some last ↔ declarations.Rewrites count type last := by
  induction count generalizing type with
  | zero =>
      rw [rewritten?, Option.some_inj]
      constructor
      · rintro rfl
        exact .here type
      · rintro ⟨⟩
        rfl
  | succ count ih =>
      rw [rewritten?, Option.bind_eq_some_iff]
      constructor
      · rintro ⟨middle, first, rest⟩
        exact .next (step?_eq_some_iff.mp first) (ih.mp rest)
      · rintro (_ | ⟨first, rest⟩)
        exact ⟨_, step?_eq_some_iff.mpr first, ih.mpr rest⟩

instance (count : Nat) (type last : Ty) : Decidable (declarations.Rewrites count type last) :=
  decidable_of_iff _ rewritten?_eq_some_iff

end Declarations

/-- Where the replacements end after fewer than `depthLimit` steps, their end is what a type expands to;
otherwise it expands to `unknown`. Either way no alias is left, and nothing changes when it is expanded again. -/
theorem Declarations.expand_exact_below_limit (declarations : Declarations) (type : Ty) :
    (∀ count last, declarations.Rewrites count type last → ¬ declarations.IsAlias last →
      declarations.expand type = if count < depthLimit then last else .unknown) ∧
    ((∀ count last, declarations.Rewrites count type last → declarations.IsAlias last) →
      declarations.expand type = .unknown) ∧
    ¬ declarations.IsAlias (declarations.expand type) ∧
    declarations.expand (declarations.expand type) = declarations.expand type := by
  have final := @not_isAlias_expandWithin declarations depthLimit type
  refine ⟨?_, ?_, final, expand_of_not_isAlias final⟩
  · intro count last rewrites final
    exact expandWithin_of_rewrites rewrites final depthLimit
  · intro endless
    exact expandWithin_of_endless endless depthLimit

def Declarations.identity : Declarations :=
  { Declarations.empty with aliases := [("I", ⟨["T"], .plain "T"⟩)] }

/-- One replacement fewer than the limit is followed to its end. -/
theorem Declarations.expand_exact_last_below_limit :
    let type := Nat.repeat (fun inner => .named "I" [inner]) 31 (.primitive .string)
    identity.Rewrites 31 type (.primitive .string) ∧ ¬ identity.IsAlias (.primitive .string) ∧
      identity.expand type = .primitive .string := by
  have rewrites : identity.Rewrites 31 (Nat.repeat (fun inner => .named "I" [inner]) 31 (.primitive .string))
      (.primitive .string) := by
    decide +kernel
  exact ⟨rewrites, id, (expand_exact_below_limit identity _).1 31 _ rewrites id⟩

/-- A variable whose type is `string` behind as many references to an alias of its own parameter as the limit
counts. -/
def behindReferences : String :=
  "type I<T> = T\ndeclare const x: " ++ String.join (List.replicate depthLimit "I<") ++ "string" ++
    String.join (List.replicate depthLimit ">") ++ "\nx"

/-- The last replacement within the limit gives `string`, and expansion gives up all the same. -/
theorem Declarations.expand_gives_up_at_limit :
    ∃ tree, Tree.parse (behindReferences) = .ok tree ∧
      let checker := Checker.ofTree tree
      let type := ((checker.typeOf 7).run checker.fresh).1
      checker.declarations.Rewrites depthLimit type (.primitive .string) ∧
        ¬ checker.declarations.IsAlias (.primitive .string) ∧
        checker.declarations.expand type = .unknown := by
  have checks : (Tree.parse (behindReferences)).toOption.any (fun tree => decide (
      let checker := Checker.ofTree tree
      let type := ((checker.typeOf 7).run checker.fresh).1
      checker.declarations.Rewrites depthLimit type (.primitive .string) ∧
        checker.declarations.expand type = .unknown)) = true := by
    decide +kernel
  obtain ⟨tree, parsed, checks⟩ := Tree.exists_of_checks checks
  obtain ⟨rewrites, unknown⟩ := of_decide_eq_true checks
  exact ⟨tree, parsed, rewrites, id, unknown⟩

/-! ## Awaiting -/

namespace Declarations

variable {declarations : Declarations} {type : Ty}

/-- Neither a promise nor a reference to an alias. -/
structure Settled (declarations : Declarations) (type : Ty) : Prop where
  notPromise : ∀ inner, type ≠ .promise inner
  notAlias : ¬ declarations.IsAlias type

/-- What is left when a value is awaited: nothing at all, one settled type, or a union in normal form whose
parts are settled. -/
inductive AtRest (declarations : Declarations) : Ty → Prop where
  | never : AtRest declarations .never
  | single {type : Ty} (leaf : type.isLeaf = true) (settled : declarations.Settled type) :
      AtRest declarations type
  | union {parts : List Ty} (normal : Ty.NormalParts parts) (settled : ∀ part ∈ parts, declarations.Settled part) :
      AtRest declarations (.union parts)

theorem AtRest.settled_leaves (rest : declarations.AtRest type) : ∀ leaf ∈ type.leaves, declarations.Settled leaf := by
  cases rest with
  | never => simp [Ty.leaves]
  | single leaf settled => simpa [Ty.leaves_of_isLeaf leaf] using settled
  | union normal settled => rwa [Ty.leaves, Ty.leavesAll_of_isLeaf normal.isLeaf]

theorem AtRest.settled (rest : declarations.AtRest type) : declarations.Settled type := by
  cases rest with
  | never => exact ⟨by simp, id⟩
  | single leaf settled => exact settled
  | union normal settled => exact ⟨by simp, id⟩

theorem atRest_unionOf {types : List Ty} (rest : ∀ type ∈ types, declarations.AtRest type) :
    declarations.AtRest (Ty.unionOf types) := by
  have settled : ∀ leaf ∈ Ty.leavesAll types, declarations.Settled leaf := by
    intro leaf listed
    rw [Ty.leavesAll_eq_flatMap, List.mem_flatMap] at listed
    obtain ⟨type, member, listed⟩ := listed
    exact (rest type member).settled_leaves leaf listed
  rcases Ty.unionOf_cases types with never | ⟨leaf, listed, one⟩ | ⟨parts, several, normal, listed⟩
  · rw [never]
    exact .never
  · rw [one]
    exact .single (Ty.isLeaf_of_mem_leavesAll types listed) (settled leaf listed)
  · rw [several]
    exact .union normal fun part member => settled part (listed part member)

/-- A type that does not refer to an alias, and is neither a promise nor a union. -/
theorem atRest_of_not_isAlias (notAlias : ¬ declarations.IsAlias type) (notPromise : ∀ inner, type ≠ .promise inner)
    (notUnion : ∀ parts, type ≠ .union parts) : declarations.AtRest type := by
  cases type with
  | never => exact .never
  | union parts => exact absurd rfl (notUnion parts)
  | _ => exact .single rfl ⟨notPromise, notAlias⟩

theorem atRest_awaitedWithin (levels : Nat) (type : Ty) :
    declarations.AtRest (declarations.awaitedWithin levels type) := by
  induction levels generalizing type with
  | zero => exact .single rfl ⟨by simp [awaitedWithin], id⟩
  | succ levels ih =>
      rw [awaitedWithin]
      split
      case h_1 inner found => exact ih inner
      case h_2 parts found =>
          apply atRest_unionOf
          rw [List.forall_mem_map]
          exact fun part _ => ih part
      case h_3 notPromise notUnion =>
          exact atRest_of_not_isAlias (not_isAlias_expandWithin depthLimit type) notPromise notUnion

theorem awaitedWithin_of_settled (leaf : type.isLeaf = true) (settled : declarations.Settled type) (levels : Nat) :
    declarations.awaitedWithin (levels + 1) type = type := by
  rw [awaitedWithin, expand_of_not_isAlias settled.notAlias]
  cases type with
  | promise inner => exact absurd rfl (settled.notPromise inner)
  | union parts => cases leaf
  | _ => rfl

/-- What is at rest is not changed by awaiting, as long as the parts of a union are looked at. -/
theorem AtRest.awaitedWithin_eq (rest : declarations.AtRest type) (levels : Nat) :
    declarations.awaitedWithin (levels + 2) type = type := by
  cases rest with
  | never => rfl
  | single leaf settled => exact awaitedWithin_of_settled leaf settled (levels + 1)
  | @union parts normal settled =>
      have unchanged : parts.map (declarations.awaitedWithin (levels + 1)) = parts := by
        rw [List.map_congr_left (g := id), List.map_id]
        intro part member
        exact awaitedWithin_of_settled (normal.isLeaf part member) (settled part member) levels
      rw [awaitedWithin, expand_of_not_isAlias id]
      simp only [unchanged]
      rw [Ty.unionOf_eq, Ty.leavesAll_of_isLeaf normal.isLeaf, eraseDups_of_nodup normal.nodup,
        Ty.ofDistinct_of_two_le normal.two_le]

theorem partsWithin_cases (levels : Nat) (type : Ty) :
    ∀ part ∈ declarations.partsWithin levels type, part.isLeaf = true ∧ ¬ declarations.IsAlias part := by
  induction levels generalizing type with
  | zero => simp [partsWithin]
  | succ levels ih =>
      rw [partsWithin]
      split
      case h_1 parts found =>
          intro part listed
          obtain ⟨inner, -, listed⟩ := List.mem_flatMap.mp listed
          exact ih inner part listed
      case h_2 => simp
      case h_3 notUnion notNever =>
          intro part listed
          rw [List.mem_singleton.mp listed]
          refine ⟨?_, not_isAlias_expandWithin depthLimit type⟩
          generalize declarations.expand type = expanded at notUnion notNever
          cases expanded with
          | union parts => exact absurd rfl (notUnion parts)
          | never => exact absurd rfl notNever
          | _ => rfl

end Declarations

/-- Awaiting twice is awaiting once. What it gives, and each part of it if it is a union, is neither a promise nor
a reference to an alias. The parts of a type are neither unions nor `never` nor references to an alias. -/
theorem Declarations.awaited_comes_to_rest (declarations : Declarations) (type : Ty) :
    declarations.awaited (declarations.awaited type) = declarations.awaited type ∧
    declarations.Settled (declarations.awaited type) ∧
    (∀ parts, declarations.awaited type = .union parts → ∀ part ∈ parts, declarations.Settled part) ∧
    ∀ part ∈ declarations.parts type,
      (∀ parts, part ≠ .union parts) ∧ part ≠ .never ∧ ¬ declarations.IsAlias part := by
  have rest := @atRest_awaitedWithin declarations (depthLimit + 1) type
  refine ⟨rest.awaitedWithin_eq _, rest.settled, ?_, ?_⟩
  · intro parts several
    change declarations.AtRest (declarations.awaited type) at rest
    rw [several] at rest
    cases rest with
    | single leaf _ => cases leaf
    | union _ settled => exact settled
  · intro part listed
    obtain ⟨leaf, notAlias⟩ := partsWithin_cases _ type part listed
    refine ⟨?_, ?_, notAlias⟩
    · rintro parts rfl
      cases leaf
    · rintro rfl
      cases leaf

end Heed
