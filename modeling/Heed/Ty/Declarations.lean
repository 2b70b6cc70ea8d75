import Heed.Association
import Heed.Tree.Outline

/-!
# Declared types

The interfaces, classes and aliases that a tree declares, wherever they stand. Interfaces of one name
merge; of two classes or two aliases of one name the later counts.
-/

set_option autoImplicit false

namespace Heed

structure InterfaceShape where
  typeParams : List String
  bases : List TypeExpr
  members : List TypeMember
deriving Inhabited, Repr

inductive ClassMemberKind where
  | method | property | initializer
deriving DecidableEq, Repr

structure ClassMember where
  name : String
  node : Nat
  isStatic : Bool
  kind : ClassMemberKind
deriving DecidableEq, Repr

structure ClassShape where
  node : Nat
  typeParams : List String
  heritage : List TypeExpr
  members : List ClassMember
deriving Inhabited, Repr

structure AliasShape where
  typeParams : List String
  body : TypeExpr
deriving Inhabited, Repr

structure Declarations where
  interfaces : List (String × InterfaceShape)
  classes : List (String × ClassShape)
  aliases : List (String × AliasShape)

/-- An interface with one more declaration of it. The type parameters are those of the first declaration
that has any. -/
def InterfaceShape.merge (shape : InterfaceShape) (next : InterfaceShape) : InterfaceShape :=
  { typeParams := if shape.typeParams.isEmpty then next.typeParams else shape.typeParams
    bases := shape.bases ++ next.bases
    members := shape.members ++ next.members }

/-- The member that a node in the body of a class declares. -/
def ClassMember.ofNode? (tree : Tree) (node : Nat) : Option ClassMember :=
  match tree.kind node with
  | .methodDefinition key _ _ _ _ isStatic =>
      (tree.identifierName? key).map fun name =>
        let kind := if name = TypeMember.initializerName then .initializer else .method
        { name, node, isStatic, kind }
  | .propertyDefinition key _ _ isStatic =>
      (tree.identifierName? key).map fun name => { name, node, isStatic, kind := .property }
  | _ => none

namespace Declarations

def empty : Declarations := { interfaces := [], classes := [], aliases := [] }

def add (tree : Tree) (declarations : Declarations) (node : Nat) : Declarations :=
  -- interfaces of one name are merged, of aliases and classes the last one counts
  match tree.kind node with
  | .interfaceDeclaration id typeParams bases members =>
      match tree.identifierName? id with
      | some name =>
          let next : InterfaceShape := { typeParams, bases, members }
          { declarations with
            interfaces := upsert name (fun shape? => (shape?.map (·.merge next)).getD next)
              declarations.interfaces }
      | none => declarations
  | .typeAlias id typeParams ascription =>
      match tree.identifierName? id, tree.kind ascription with
      | some name, .typeAscription body =>
          { declarations with
            aliases := upsert name (fun _ => { typeParams, body }) declarations.aliases }
      | _, _ => declarations
  | .classDeclaration id typeParams heritage body _ =>
      match tree.identifierName? id with
      | some name =>
          let shape : ClassShape :=
            { node, typeParams, heritage, members := body.filterMap (ClassMember.ofNode? tree) }
          { declarations with classes := upsert name (fun _ => shape) declarations.classes }
      | none => declarations
  | _ => declarations

def ofTree (tree : Tree) : Declarations := tree.preorder.foldl (add tree) empty

def interface? (declarations : Declarations) (name : String) : Option InterfaceShape :=
  declarations.interfaces.lookup name

def class? (declarations : Declarations) (name : String) : Option ClassShape :=
  declarations.classes.lookup name

def alias? (declarations : Declarations) (name : String) : Option AliasShape :=
  declarations.aliases.lookup name

end Declarations

/-- The member of a name that an interface declares itself. Of two the later counts. -/
def InterfaceShape.member? (shape : InterfaceShape) (name : String) : Option TypeMember :=
  shape.members.reverse.find? (·.name == name)

/-- The member of a name that an instance of a class has from the class itself. Of two the earlier
counts. -/
def ClassShape.member? (shape : ClassShape) (name : String) : Option ClassMember :=
  shape.members.find? fun member =>
    member.name == name && !member.isStatic && member.kind != .initializer

end Heed
