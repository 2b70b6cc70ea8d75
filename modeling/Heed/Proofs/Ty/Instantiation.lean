import Heed.Checker.Member
import Heed.Proofs.Ty.Unions

/-!
# Two ways to replace type parameters

The members of an interface have their type parameters replaced while they are resolved, those of a class
afterwards. Replacing afterwards leaves unions that are not in normal form. Once every union inside is
rebuilt, both ways give the same type.
-/

set_option autoImplicit false

namespace Heed

namespace Ty

mutual

/-- Rebuilds every union inside a type, the inner ones first. -/
def normalize : Ty → Ty
  | .named name args => .named name (normalizeAll args)
  | .object members => .object (normalizeMembers members)
  | .function result => .function (normalize result)
  | .promise inner => .promise (normalize inner)
  | .array item => .array (normalize item)
  | .tuple items => .tuple (normalizeAll items)
  | .union parts => unionOf (normalizeAll parts)
  | .intersection parts => .intersection (normalizeAll parts)
  | type => type

def normalizeAll : List Ty → List Ty
  | [] => []
  | type :: rest => normalize type :: normalizeAll rest

def normalizeMembers : List (String × Ty) → List (String × Ty)
  | [] => []
  | (name, type) :: rest => (name, normalize type) :: normalizeMembers rest

end

theorem normalizeAll_eq_map (types : List Ty) : normalizeAll types = types.map normalize := by
  induction types with
  | nil => rfl
  | cons type rest ih => rw [normalizeAll, ih, List.map_cons]

theorem substituteAll_eq_map (substitution : Substitution) (types : List Ty) :
    substituteAll substitution types = types.map (substitute substitution) := by
  induction types with
  | nil => rfl
  | cons type rest ih => rw [substituteAll, ih, List.map_cons]

theorem unionOf_normalize (type : Ty) : unionOf [normalize type] = normalize type := by
  cases type with
  | union parts =>
      rw [normalize]
      exact unionOf_unionOf _
  | _ => rfl

theorem rebuilds_normalize : Rebuilds normalize where
  never := rfl
  union parts := by rw [normalize, normalizeAll_eq_map]
  settled := unionOf_normalize

/-- Replacing type parameters may nest unions, which are rebuilt then. -/
theorem rebuilds_substitute (substitution : Substitution) :
    Rebuilds fun type => (type.substitute substitution).normalize where
  never := rfl
  union parts := by
    rw [substitute, normalize, normalizeAll_eq_map, substituteAll_eq_map, List.map_map]
    rfl
  settled type := unionOf_normalize (type.substitute substitution)

def builtInNames : List String :=
  ["string", "number", "boolean", "bigint", "symbol", "object", "any", "unknown", "never", "void", "null",
    "undefined", "Function", "Promise", "PromiseLike", "Array", "ReadonlyArray"]

theorem ofName_eq_named_iff {name : String} {args : List Ty} :
    ofName name args = .named name args ↔ name ∉ builtInNames := by
  unfold ofName
  split <;> simp_all [builtInNames]

end Ty

/-! ## Written types -/

namespace Substitution

/-- None of the names that are replaced is built in. -/
def Foreign (substitution : Substitution) : Prop :=
  ∀ name ∈ substitution.map Prod.fst, name ∉ Ty.builtInNames

theorem find?_nil (name : String) (args : List Ty) : find? [] name args = none := by
  rw [find?]
  split <;> rfl

theorem mem_of_find? {substitution : Substitution} {name : String} {args : List Ty} {type : Ty}
    (found : substitution.find? name args = some type) : args = [] ∧ (name, type) ∈ substitution := by
  rw [find?] at found
  split at found
  case isTrue empty =>
      obtain ⟨before, after, rfl, -⟩ := List.lookup_eq_some_iff.mp found
      exact ⟨List.isEmpty_iff.mp empty, by simp⟩
  case isFalse => cases found

theorem Foreign.of_find? {substitution : Substitution} (foreign : substitution.Foreign) {name : String}
    {args : List Ty} {type : Ty} (found : substitution.find? name args = some type) :
    name ∉ Ty.builtInNames :=
  foreign name (List.mem_map_of_mem (mem_of_find? found).2)

/-- Whether a reference is replaced depends on whether it has arguments, not on which. -/
theorem find?_congr (substitution : Substitution) (name : String) {args args' : List Ty}
    (same : args.length = args'.length) : substitution.find? name args = substitution.find? name args' := by
  have empty : args.isEmpty = args'.isEmpty := by
    rw [Bool.eq_iff_iff, List.isEmpty_iff_length_eq_zero, List.isEmpty_iff_length_eq_zero, same]
  rw [find?, find?, empty]

theorem mem_params_of_mem {params : List String} {args : List Ty} {entry : String × Ty}
    (member : entry ∈ ofParams params args) : entry.1 ∈ params := by
  obtain ⟨⟨param, index⟩, listed, rfl⟩ := List.mem_map.mp (List.mem_reverse.mp member)
  exact List.fst_mem_of_mem_zipIdx listed

theorem foreign_ofParams {params : List String} {args : List Ty}
    (foreign : ∀ param ∈ params, param ∉ Ty.builtInNames) : (ofParams params args).Foreign := by
  intro name member
  obtain ⟨entry, listed, rfl⟩ := List.mem_map.mp member
  exact foreign entry.1 (mem_params_of_mem listed)

end Substitution

namespace TypeExpr

variable {substitution : Substitution}

/-- A reference that is not replaced: what its arguments stand for decides. -/
theorem normalize_ofName {name : String} {during after : List Ty}
    (kept : substitution.find? name after = none)
    (same : during.map Ty.normalize = after.map fun type => (type.substitute substitution).normalize) :
    (Ty.ofName name during).normalize = ((Ty.ofName name after).substitute substitution).normalize := by
  have first : (during.headD .unknown).normalize =
      ((after.headD .unknown).substitute substitution).normalize := by
    cases during <;> cases after <;> simp_all [Ty.substitute]
  by_cases builtIn : name ∈ Ty.builtInNames
  · simp only [Ty.builtInNames, List.mem_cons, List.not_mem_nil, or_false] at builtIn
    rcases builtIn with rfl | rfl | rfl | rfl | rfl | rfl | rfl | rfl | rfl | rfl | rfl | rfl | rfl | rfl |
      rfl | rfl | rfl <;> simp only [Ty.ofName, Ty.substitute, Ty.normalize, first]
  · rw [Ty.ofName_eq_named_iff.mpr builtIn, Ty.ofName_eq_named_iff.mpr builtIn, Ty.substitute, kept]
    simp only [Ty.normalize, Ty.normalizeAll_eq_map, Ty.substituteAll_eq_map, List.map_map, same]
    rfl

theorem length_resolveAll (substitution : Substitution) (types : List TypeExpr) :
    (resolveAll substitution types).length = types.length := by
  induction types with
  | nil => rfl
  | cons type rest ih => rw [resolveAll, List.length_cons, List.length_cons, ih]

mutual

theorem normalize_resolve (foreign : substitution.Foreign) : ∀ type : TypeExpr,
    (type.resolve substitution).normalize = ((type.resolve []).substitute substitution).normalize
  | .named name args => by
      have same := normalize_resolveAll foreign args
      have sameLength := (length_resolveAll substitution args).trans (length_resolveAll [] args).symm
      have find?_eq := substitution.find?_congr name sameLength
      rw [resolve, resolve, Substitution.find?_nil, Option.getD_none]
      cases found : substitution.find? name (resolveAll substitution args) with
      | some type =>
          -- only a name without arguments is replaced, and then it is kept until it is replaced
          rw [find?_eq] at found
          have declared := foreign.of_find? found
          have kept : Ty.ofName name (resolveAll [] args) = .named name (resolveAll [] args) :=
            Ty.ofName_eq_named_iff.mpr declared
          rw [kept, Ty.substitute, found]
          rfl
      | none => exact normalize_ofName (find?_eq.symm.trans found) same
  | .union parts => by
      rw [resolve, resolve, Ty.rebuilds_normalize.unionOf, (Ty.rebuilds_substitute substitution).unionOf,
        normalize_resolveAll foreign parts]
  | .intersection parts => by
      simp only [resolve, Ty.substitute, Ty.normalize, Ty.normalizeAll_eq_map, Ty.substituteAll_eq_map,
        normalize_resolveAll foreign parts, List.map_map]
      rfl
  | .function result => by
      simp only [resolve, Ty.substitute, Ty.normalize, normalize_resolve foreign result]
  | .object members => by
      simp only [resolve, Ty.substitute, Ty.normalize, normalize_resolveMembers foreign members]
  | .array item => by
      simp only [resolve, Ty.substitute, Ty.normalize, normalize_resolve foreign item]
  | .tuple items => by
      simp only [resolve, Ty.substitute, Ty.normalize, Ty.normalizeAll_eq_map, Ty.substituteAll_eq_map,
        normalize_resolveAll foreign items, List.map_map]
      rfl
  | .literal _ => rfl
  | .unmodelled => rfl

theorem normalize_resolveAll (foreign : substitution.Foreign) : ∀ types : List TypeExpr,
    (resolveAll substitution types).map Ty.normalize =
      (resolveAll [] types).map fun type => (type.substitute substitution).normalize
  | [] => rfl
  | type :: rest => by
      simp only [resolveAll, List.map_cons, normalize_resolve foreign type, normalize_resolveAll foreign rest]

theorem normalize_resolveMembers (foreign : substitution.Foreign) : ∀ members : List TypeMember,
    Ty.normalizeMembers (resolveMembers substitution members) =
      Ty.normalizeMembers (Ty.substituteMembers substitution (resolveMembers [] members))
  | [] => rfl
  | .property name type :: rest => by
      simp only [resolveMembers, Ty.substituteMembers, Ty.normalizeMembers, normalize_resolve foreign type,
        normalize_resolveMembers foreign rest]
  | .method name result :: rest => by
      simp only [resolveMembers, Ty.substituteMembers, Ty.normalizeMembers, Ty.substitute, Ty.normalize,
        normalize_resolve foreign result, normalize_resolveMembers foreign rest]
  | .initializer :: rest => by
      rw [resolveMembers, resolveMembers]
      exact normalize_resolveMembers foreign rest

end

end TypeExpr

theorem TypeMember.normalize_resolve {substitution : Substitution} (foreign : substitution.Foreign)
    (member : TypeMember) :
    (member.resolve substitution).map Ty.normalize =
      (member.resolve []).map fun type => (type.substitute substitution).normalize := by
  cases member with
  | property name type => exact congrArg some (type.normalize_resolve foreign)
  | method name result =>
      simp only [TypeMember.resolve, Option.map_some, Ty.substitute, Ty.normalize,
        result.normalize_resolve foreign]
  | initializer => rfl

/-! ## Members of interfaces and classes -/

namespace Checker

variable (checker : Checker)

def writtenType? (ascription : Option Nat) : Option TypeExpr :=
  match ascription.map checker.tree.kind with
  | some (.typeAscription type) => some type
  | _ => none

theorem ascribed?_eq (ascription : Option Nat) :
    checker.ascribed? ascription = (checker.writtenType? ascription).map (·.resolve []) := by
  unfold ascribed? writtenType?
  cases ascription.map checker.tree.kind with
  | none => rfl
  | some kind => cases kind <;> rfl

/-- A member of a class as an interface would write it, if its type is written. -/
def written? (member : ClassMember) : Option TypeMember :=
  match member.kind, checker.tree.kind member.node with
  | .method, .methodDefinition _ _ returnType _ _ _ =>
      (checker.writtenType? returnType).map (.method member.name)
  | .property, .propertyDefinition _ ascription _ _ =>
      (checker.writtenType? ascription).map (.property member.name)
  | _, _ => none

variable {checker} {m : Type → Type} [Monad m] [LawfulMonad m]

theorem classMemberType_of_written (ask : Nat → m Ty) {member : ClassMember} {written : TypeMember}
    (writes : checker.written? member = some written) :
    ∃ type, written.resolve [] = some type ∧ checker.classMemberType ask member = pure type := by
  unfold written? at writes
  split at writes
  case h_1 isMethod node =>
      obtain ⟨result, found, rfl⟩ := Option.map_eq_some_iff.mp writes
      refine ⟨_, rfl, ?_⟩
      simp [classMemberType, isMethod, functionResult, node, resultOf, ascribed?_eq, found]
  case h_2 isProperty node =>
      obtain ⟨type, found, rfl⟩ := Option.map_eq_some_iff.mp writes
      refine ⟨_, rfl, ?_⟩
      simp [classMemberType, isProperty, propertyType, node, ascribed?_eq, found]
  case h_3 => cases writes

theorem classMember_of_written (ask : Nat → m Ty) (within : Ty → m (Option Ty)) {name : String}
    {shape : ClassShape} {member : ClassMember} {written : TypeMember} (found : shape.member? name = some member)
    (writes : checker.written? member = some written) (args : List Ty) :
    checker.classMember ask within name shape args = pure ((written.resolve []).map fun type =>
      type.substitute (.ofParams shape.typeParams args)) := by
  obtain ⟨type, resolved, asked⟩ := classMemberType_of_written ask writes
  simp [classMember, found, asked, resolved]

end Checker

/-- Type parameters that are replaced while a written type is resolved, or afterwards in the resolved type,
leave the same type once its unions are rebuilt. So what an interface and a class write alike about a member
gives the member the same type in both, up to that. -/
theorem instantiation_agrees :
    (∀ substitution : Substitution, substitution.Foreign → ∀ type : TypeExpr,
      (type.resolve substitution).normalize = ((type.resolve []).substitute substitution).normalize) ∧
    ∀ {m : Type → Type} [Monad m] [LawfulMonad m] (checker : Checker) (ask : Nat → m Ty)
      (within : Ty → m (Option Ty)) (name : String) (interface_ : InterfaceShape) (class_ : ClassShape)
      (written : TypeMember) (member : ClassMember) (args : List Ty),
      interface_.member? name = some written → class_.member? name = some member →
      checker.written? member = some written → class_.typeParams = interface_.typeParams →
      (∀ param ∈ class_.typeParams, param ∉ Ty.builtInNames) →
        Option.map Ty.normalize <$> Checker.interfaceMember within name interface_ args =
          Option.map Ty.normalize <$> checker.classMember ask within name class_ args := by
  refine ⟨fun _ foreign type => type.normalize_resolve foreign, ?_⟩
  intro m _ _ checker ask within name interface_ class_ written member args declared found writes params
    foreign
  have during : Checker.interfaceMember within name interface_ args =
      pure (written.resolve (.ofParams interface_.typeParams args)) := by
    rw [Checker.interfaceMember, declared]
  rw [during, Checker.classMember_of_written ask within found writes args, map_pure, map_pure, Option.map_map,
    ← params, written.normalize_resolve (Substitution.foreign_ofParams foreign)]
  rfl

def optionalProperty : Tree :=
  let type : TypeExpr := .union [.plain "T", .plain "undefined"]
  Tree.ofNodes
    #[{ kind := .identifier "value" none, span := .empty }, { kind := .typeAscription type, span := .empty },
      { kind := .propertyDefinition 0 (some 1) none false, span := .empty }] 2

/-- Afterwards the union of the argument stands inside the union that is written. -/
theorem instantiation_agrees_nested :
    let type : TypeExpr := .union [.plain "T", .plain "undefined"]
    let args : List Ty := [.union [.primitive .string, .undefined]]
    let substitution := Substitution.ofParams ["T"] args
    let member : ClassMember := { name := "value", node := 2, isStatic := false, kind := .property }
    let interface_ : InterfaceShape := { typeParams := ["T"], bases := [], members := [.property "value" type] }
    let class_ : ClassShape := { node := 2, typeParams := ["T"], heritage := [], members := [member] }
    let checker := Checker.ofTree optionalProperty
    let within : Ty → StateM Unit (Option Ty) := fun _ => pure none
    type.resolve substitution = .union [.primitive .string, .undefined] ∧
      (type.resolve []).substitute substitution =
        .union [.union [.primitive .string, .undefined], .undefined] ∧
      (type.resolve substitution).normalize = ((type.resolve []).substitute substitution).normalize ∧
      Option.map Ty.normalize <$> Checker.interfaceMember within "value" interface_ args =
        Option.map Ty.normalize <$> checker.classMember (fun _ => pure .unknown) within "value" class_ args := by
  intro type args substitution member interface_ class_ checker within
  have foreign : ∀ param ∈ ["T"], param ∉ Ty.builtInNames := by decide
  refine ⟨by decide, by decide, instantiation_agrees.1 substitution ?_ type, ?_⟩
  · exact Substitution.foreign_ofParams foreign
  · exact instantiation_agrees.2 checker _ within "value" interface_ class_ (.property "value" type) member
      args rfl rfl rfl rfl foreign

end Heed
