import Heed.Proofs.Token.Glyphs
import Heed.TypeSyntax.Basic

/-!
# Types as they are written

A type is written as a row of glyphs. It binds at a level, and each place for a part asks for a level:
parentheses stand around a part just where it binds looser than its place asks. From loose to tight the levels
are 0 for functions, 1 for unions, 2 for intersections and 3 for all other forms. The parts of a union ask for
level 2, those of an intersection and the items of an array type for level 3, and all other places for none.

Not every type can be written: a union of one part reads as that part, and some words start a form of their
own where the name of a type is expected. `Writable` says which types can.
-/

set_option autoImplicit false

namespace Heed

namespace TypeExpr

open Token (Kind whole? isWordText)
open Glyph (joined between grouped word sign written Balanced)

def level : TypeExpr → Nat
  | .function _ => 0
  | .union _ => 1
  | .intersection _ => 2
  | _ => 3

/-! ## Names and literals -/

def segments (name : String) : List String := (name.toList.splitOn '.').map String.ofList

/-- The words that start a form of their own where a type is expected. -/
def typeOperators : List String := ["typeof", "keyof", "unique", "readonly", "infer"]

def isTypeName (text : String) : Bool := (Keyword.ofText? text).isNone && !typeOperators.contains text

/-- Whether a name is a dotted one that can stand for a type. -/
def isReference (name : String) : Bool :=
  (segments name).all isWordText && (segments name).head?.any isTypeName

theorem segments_of_isReference {name : String} (reference : isReference name = true) :
    ∃ first others, segments name = first :: others ∧ isTypeName first = true ∧
      ∀ part ∈ first :: others, isWordText part = true := by
  obtain ⟨isWords, head⟩ := Bool.and_eq_true_iff.mp reference
  cases parts : segments name with
  | nil =>
      rw [parts] at head
      cases head
  | cons first others =>
      rw [parts] at head isWords
      exact ⟨first, others, rfl, head, List.all_eq_true.mp isWords⟩

theorem word_of_isTypeName {text : String} (isName : isTypeName text = true) : word text = ⟨.name text, text⟩ := by
  have unreserved := Option.isNone_iff_eq_none.mp (Bool.and_eq_true_iff.mp isName).1
  rw [word, Token.wordKind, unreserved]

def isLiteralKind : Kind → Bool
  | .string _ | .number _ | .keyword .true_ | .keyword .false_ => true
  | _ => false

def isNumberKind : Kind → Bool
  | .number _ => true
  | _ => false

def magnitude (text : String) : String := String.ofList text.toList.tail

/-- Whether a text is a literal, which may be a number with a sign. -/
def isLiteral (text : String) : Bool :=
  match whole? text with
  | some kind => isLiteralKind kind
  | none => text.toList.head? == some '-' && (whole? (magnitude text)).any isNumberKind

def literalWords (text : String) : List Glyph :=
  match whole? text with
  | some kind => [⟨kind, text⟩]
  | none => sign .minus :: (whole? (magnitude text)).toList.map (⟨·, magnitude text⟩)

theorem minus_append_magnitude {text : String} (minus : text.toList.head? = some '-') :
    text = "-" ++ magnitude text := by
  apply String.toList_injective
  simp only [String.toList_append, magnitude, String.toList_ofList]
  exact List.eq_cons_of_mem_head? minus

/-- A literal is one token, or a number behind its sign. -/
theorem literal_cases {text : String} (literal : isLiteral text = true) :
    (∃ kind, whole? text = some kind ∧ isLiteralKind kind = true ∧ literalWords text = [⟨kind, text⟩]) ∨
      ∃ numeral value, text = "-" ++ numeral ∧ whole? numeral = some (.number value) ∧
        literalWords text = [sign .minus, ⟨.number value, numeral⟩] := by
  unfold isLiteral at literal
  unfold literalWords
  split at literal
  case h_1 kind found =>
      left
      exact ⟨kind, found, literal, rfl⟩
  case h_2 =>
      right
      obtain ⟨minus, number⟩ := Bool.and_eq_true_iff.mp literal
      cases found : whole? (magnitude text) with
      | none =>
          rw [found] at number
          cases number
      | some kind =>
          rw [found, Option.any_some] at number
          cases kind with
          | number value => exact ⟨magnitude text, value, minus_append_magnitude (beq_iff_eq.mp minus), found, rfl⟩
          | _ => cases number

/-! ## Words -/

def argumentWords : List (List Glyph) → List Glyph
  | [] => []
  | first :: others => between .less .greater (joined .comma (first :: others))

mutual

def words : TypeExpr → List Glyph
  | .named name args =>
      joined .dot ((segments name).map fun part => [word part]) ++ argumentWords (rowsAt 0 args)
  | .union parts => joined .pipe (rowsAt 2 parts)
  | .intersection parts => joined .amp (rowsAt 3 parts)
  | .function result => sign .parenOpen :: sign .parenClose :: sign .arrow :: result.words
  | .object members => between .braceOpen .braceClose (membersWords members)
  | .array item => grouped (item.level < 3) item.words ++ [sign .bracketOpen, sign .bracketClose]
  | .tuple items => between .bracketOpen .bracketClose (joined .comma (rowsAt 0 items))
  | .literal text => literalWords text
  | .unmodelled => []

def rowsAt (place : Nat) : List TypeExpr → List (List Glyph)
  | [] => []
  | type :: types => grouped (type.level < place) type.words :: rowsAt place types

def memberWords : TypeMember → List Glyph
  | .property name type => word name :: sign .colon :: type.words
  | .method name result => word name :: sign .parenOpen :: sign .parenClose :: sign .colon :: result.words
  | .initializer => [word TypeMember.initializerName, sign .parenOpen, sign .parenClose]

def membersWords : List TypeMember → List Glyph
  | [] => []
  | member :: members => memberWords member ++ sign .semicolon :: membersWords members

end

/-- The row of a type in a place that asks for a level. -/
def wordsAt (place : Nat) (type : TypeExpr) : List Glyph := grouped (type.level < place) type.words

theorem wordsAt_of_le {place : Nat} {type : TypeExpr} (tight : place ≤ type.level) : type.wordsAt place = type.words := by
  rw [wordsAt, decide_eq_false (by omega)]
  rfl

theorem wordsAt_of_lt {place : Nat} {type : TypeExpr} (loose : type.level < place) :
    type.wordsAt place = between .parenOpen .parenClose type.words := by
  rw [wordsAt, decide_eq_true loose]
  rfl

theorem rowsAt_eq_map (place : Nat) (types : List TypeExpr) : rowsAt place types = types.map (wordsAt place) := by
  induction types with
  | nil => rfl
  | cons type types ih => rw [rowsAt, ih, List.map_cons, wordsAt]

theorem membersWords_eq_flatMap (members : List TypeMember) :
    membersWords members = members.flatMap fun member => memberWords member ++ [sign .semicolon] := by
  induction members with
  | nil => rfl
  | cons member members ih => simp [membersWords, ih]

def text (type : TypeExpr) : String := String.ofList (written type.words)

/-! ## What can be written -/

end TypeExpr

namespace TypeMember

open Token (isWordText)

/-- Whether a name can be that of a member: a construct signature starts with `new`. -/
def isMemberName (name : String) : Bool := isWordText name && name != "new"

def isNamed : TypeMember → Bool
  | .property name _ => isMemberName name
  | .method name _ => isMemberName name && name != initializerName
  | .initializer => true

def type? : TypeMember → Option TypeExpr
  | .property _ type => some type
  | .method _ result => some result
  | .initializer => none

theorem isWordText_name {member : TypeMember} (named : member.isNamed = true) : isWordText member.name = true := by
  cases member with
  | property name type => exact (Bool.and_eq_true_iff.mp named).1
  | method name result => exact (Bool.and_eq_true_iff.mp (Bool.and_eq_true_iff.mp named).1).1
  | initializer => rfl

end TypeMember

namespace TypeExpr

open Glyph (joined between grouped word sign Balanced)

inductive Writable : TypeExpr → Prop where
  | named {name : String} {args : List TypeExpr} (reference : isReference name = true)
      (all : ∀ arg ∈ args, Writable arg) : Writable (.named name args)
  | union {parts : List TypeExpr} (many : 2 ≤ parts.length) (all : ∀ part ∈ parts, Writable part) :
      Writable (.union parts)
  | intersection {parts : List TypeExpr} (many : 2 ≤ parts.length) (all : ∀ part ∈ parts, Writable part) :
      Writable (.intersection parts)
  | function {result : TypeExpr} (writable : Writable result) : Writable (.function result)
  | object {members : List TypeMember} (named : ∀ member ∈ members, member.isNamed = true)
      (all : ∀ member ∈ members, ∀ type ∈ member.type?, Writable type) : Writable (.object members)
  | array {item : TypeExpr} (writable : Writable item) : Writable (.array item)
  | tuple {items : List TypeExpr} (all : ∀ item ∈ items, Writable item) : Writable (.tuple items)
  | literal {text : String} (isLiteral : isLiteral text = true) : Writable (.literal text)

mutual

def isWritable : TypeExpr → Bool
  | .named name args => isReference name && areWritable args
  | .union parts => decide (2 ≤ parts.length) && areWritable parts
  | .intersection parts => decide (2 ≤ parts.length) && areWritable parts
  | .function result => result.isWritable
  | .object members => members.all TypeMember.isNamed && membersWritable members
  | .array item => item.isWritable
  | .tuple items => areWritable items
  | .literal text => isLiteral text
  | .unmodelled => false

def areWritable : List TypeExpr → Bool
  | [] => true
  | type :: types => type.isWritable && areWritable types

def memberWritable : TypeMember → Bool
  | .property _ type => type.isWritable
  | .method _ result => result.isWritable
  | .initializer => true

def membersWritable : List TypeMember → Bool
  | [] => true
  | member :: members => memberWritable member && membersWritable members

end

theorem areWritable_iff {types : List TypeExpr} : areWritable types = true ↔ ∀ type ∈ types, type.isWritable = true := by
  induction types with
  | nil => simp [areWritable]
  | cons type types ih => simp [areWritable, ih]

theorem membersWritable_iff {members : List TypeMember} : membersWritable members = true ↔
    ∀ member ∈ members, ∀ type ∈ member.type?, type.isWritable = true := by
  have single : ∀ member, memberWritable member = true ↔ ∀ type ∈ member.type?, type.isWritable = true := by
    intro member
    cases member <;> simp [memberWritable, TypeMember.type?]
  induction members with
  | nil => simp [membersWritable]
  | cons member members ih =>
      rw [List.forall_mem_cons]
      exact Bool.and_eq_true_iff.trans (and_congr (single member) ih)

mutual

theorem writable_of_isWritable : ∀ type : TypeExpr, type.isWritable = true → type.Writable
  | .named name args, holds => by
      obtain ⟨reference, all⟩ := Bool.and_eq_true_iff.mp holds
      exact .named reference (writable_of_areWritable args all)
  | .union parts, holds => by
      obtain ⟨many, all⟩ := Bool.and_eq_true_iff.mp holds
      exact .union (of_decide_eq_true many) (writable_of_areWritable parts all)
  | .intersection parts, holds => by
      obtain ⟨many, all⟩ := Bool.and_eq_true_iff.mp holds
      exact .intersection (of_decide_eq_true many) (writable_of_areWritable parts all)
  | .function result, holds => .function (writable_of_isWritable result holds)
  | .object members, holds => by
      obtain ⟨named, all⟩ := Bool.and_eq_true_iff.mp holds
      exact .object (List.all_eq_true.mp named) (writable_of_membersWritable members all)
  | .array item, holds => .array (writable_of_isWritable item holds)
  | .tuple items, holds => .tuple (writable_of_areWritable items holds)
  | .literal _, holds => .literal holds
  | .unmodelled, holds => by cases holds

theorem writable_of_areWritable : ∀ types : List TypeExpr, areWritable types = true →
    ∀ type ∈ types, type.Writable
  | [], _ => by simp
  | type :: types, holds => by
      obtain ⟨first, all⟩ := Bool.and_eq_true_iff.mp holds
      exact List.forall_mem_cons.mpr ⟨writable_of_isWritable type first, writable_of_areWritable types all⟩

theorem writable_of_memberWritable : ∀ member : TypeMember, memberWritable member = true →
    ∀ type ∈ member.type?, type.Writable
  | .property _ type, holds => fun _ same => Option.some.inj same ▸ writable_of_isWritable type holds
  | .method _ result, holds => fun _ same => Option.some.inj same ▸ writable_of_isWritable result holds
  | .initializer, _ => fun _ absent => by cases absent

theorem writable_of_membersWritable : ∀ members : List TypeMember, membersWritable members = true →
    ∀ member ∈ members, ∀ type ∈ member.type?, type.Writable
  | [], _ => by simp
  | member :: members, holds => by
      obtain ⟨first, all⟩ := Bool.and_eq_true_iff.mp holds
      exact List.forall_mem_cons.mpr
        ⟨writable_of_memberWritable member first, writable_of_membersWritable members all⟩

end

theorem Writable.isWritable {type : TypeExpr} (writable : type.Writable) : type.isWritable = true := by
  induction writable with
  | named reference _ ih => exact Bool.and_eq_true_iff.mpr ⟨reference, areWritable_iff.mpr ih⟩
  | union many _ ih => exact Bool.and_eq_true_iff.mpr ⟨decide_eq_true many, areWritable_iff.mpr ih⟩
  | intersection many _ ih => exact Bool.and_eq_true_iff.mpr ⟨decide_eq_true many, areWritable_iff.mpr ih⟩
  | function _ ih => exact ih
  | object named _ ih => exact Bool.and_eq_true_iff.mpr ⟨List.all_eq_true.mpr named, membersWritable_iff.mpr ih⟩
  | array _ ih => exact ih
  | tuple _ ih => exact areWritable_iff.mpr ih
  | literal isLiteral => exact isLiteral

instance : DecidablePred Writable := fun type =>
  decidable_of_iff (type.isWritable = true) ⟨writable_of_isWritable type, Writable.isWritable⟩

/-! ## Parentheses -/

theorem balanced_rowsAt {place : Nat} {types : List TypeExpr} (all : ∀ type ∈ types, Balanced type.words) :
    ∀ row ∈ rowsAt place types, Balanced row := by
  intro row member
  rw [rowsAt_eq_map] at member
  obtain ⟨type, listed, rfl⟩ := List.mem_map.mp member
  exact (all type listed).grouped _

theorem balanced_literal {text : String} (literal : isLiteral text = true) : Balanced (literalWords text) := by
  rcases literal_cases literal with ⟨kind, found, isKind, row⟩ | ⟨numeral, value, -, found, row⟩
  · rw [row]
    cases kind with
    | symbol symbol => cases isKind
    | newline => cases isKind
    | _ => exact .glyph ⟨found, by simp⟩ rfl
  · rw [row]
    exact (Balanced.sign .minus).cons (.glyph ⟨found, by simp⟩ rfl)

theorem balanced_member {member : TypeMember} (named : member.isNamed = true)
    (typed : ∀ type ∈ member.type?, Balanced type.words) : Balanced (memberWords member) := by
  have name := Balanced.word (TypeMember.isWordText_name named)
  have brackets : Balanced [sign .parenOpen, sign .parenClose] := .group .nil
  cases member with
  | property name' type => exact name.cons ((Balanced.sign .colon).cons (typed type rfl))
  | method name' result => exact name.cons (brackets.append ((Balanced.sign .colon).cons (typed result rfl)))
  | initializer => exact name.cons brackets

theorem balanced_words {type : TypeExpr} (writable : type.Writable) : Balanced type.words := by
  induction writable with
  | @named name args reference _ ih =>
      rw [words]
      obtain ⟨first, others, parts, -, isWords⟩ := segments_of_isReference reference
      rw [parts]
      refine .append (.joined (.sign .dot) fun row member => ?_) ?_
      · obtain ⟨part, listed, rfl⟩ := List.mem_map.mp member
        exact .word (isWords part listed)
      · cases args with
        | nil => exact .nil
        | cons arg args =>
            exact .between (.sign .less) (.sign .greater) (.joined (.sign .comma) (balanced_rowsAt ih))
  | union _ _ ih => exact .joined (.sign .pipe) (balanced_rowsAt ih)
  | intersection _ _ ih => exact .joined (.sign .amp) (balanced_rowsAt ih)
  | function _ ih => exact (Balanced.group .nil).append ((Balanced.sign .arrow).cons ih)
  | @object members named _ ih =>
      rw [words, membersWords_eq_flatMap]
      refine .between (.sign .braceOpen) (.sign .braceClose) (.flatMap fun member listed => ?_)
      exact (balanced_member (named member listed) (ih member listed)).append (.sign .semicolon)
  | array _ ih => exact (ih.grouped _).append (.between (.sign .bracketOpen) (.sign .bracketClose) .nil)
  | tuple _ ih =>
      exact .between (.sign .bracketOpen) (.sign .bracketClose) (.joined (.sign .comma) (balanced_rowsAt ih))
  | literal isLiteral => exact balanced_literal isLiteral

/-! ## What starts and what may follow -/

/-- The signs that may stand behind a type in a place that asks for a level. -/
def mayFollow (place : Nat) : Symbol → Bool
  | .parenClose | .bracketClose | .greater | .comma | .semicolon => true
  | .pipe => 1 < place
  | .amp => 2 < place
  | .bracketOpen => 3 < place
  | _ => false

def Follows (place : Nat) (row : List Glyph) : Prop :=
  ∀ glyph ∈ row.head?, ∃ symbol, glyph.kind = .symbol symbol ∧ mayFollow place symbol = true

def mayFollowName (symbol : Symbol) : Bool := symbol == .dot || symbol == .less || mayFollow 4 symbol

def mayOpen (symbol : Symbol) : Bool := [Symbol.parenOpen, .braceOpen, .bracketOpen, .minus].contains symbol

/-- What a type starts with, and if that is a name, what comes next. -/
inductive Opening : List Glyph → Prop where
  | name {word text : String} {rest : List Glyph}
      (behind : ∀ glyph ∈ rest.head?, ∃ symbol, glyph.kind = .symbol symbol ∧ mayFollowName symbol = true) :
      Opening (⟨.name word, text⟩ :: rest)
  | literal {kind : Token.Kind} {text : String} {rest : List Glyph} (isLiteral : isLiteralKind kind = true) :
      Opening (⟨kind, text⟩ :: rest)
  | sign {symbol : Symbol} {rest : List Glyph} (opens : mayOpen symbol = true) : Opening (sign symbol :: rest)

theorem Opening.append {row rest : List Glyph} (opening : Opening row) (follows : Follows 4 rest) :
    Opening (row ++ rest) := by
  cases opening with
  | @name word text behindRow behind =>
      apply Opening.name
      cases behindRow with
      | nil =>
          intro glyph ahead
          obtain ⟨symbol, kind, may⟩ := follows glyph ahead
          exact ⟨symbol, kind, by simp [mayFollowName, may]⟩
      | cons next more => exact behind
  | literal isLiteral => exact .literal isLiteral
  | sign opens => exact .sign opens

theorem follows_nil (place : Nat) : Follows place [] := by
  intro glyph ahead
  cases ahead

theorem follows_sign {place : Nat} {symbol : Symbol} (may : mayFollow place symbol = true) (row : List Glyph) :
    Follows place (sign symbol :: row) := by
  intro glyph ahead
  obtain rfl := Option.some.inj ahead
  exact ⟨symbol, rfl, may⟩

theorem opening_grouped {type : TypeExpr} (opening : Opening type.words) (place : Nat) :
    Opening (type.wordsAt place) := by
  unfold wordsAt grouped
  split
  case isTrue => exact .sign rfl
  case isFalse => exact opening

theorem opening_joined {symbol : Symbol} (may : mayFollow 4 symbol = true) {place : Nat} {parts : List TypeExpr}
    (many : 2 ≤ parts.length) (all : ∀ part ∈ parts, Opening part.words) :
    Opening (joined symbol (rowsAt place parts)) := by
  rw [rowsAt_eq_map]
  cases parts with
  | nil => cases many
  | cons first others =>
      cases others with
      | nil => simp at many
      | cons second others => exact (opening_grouped (all first List.mem_cons_self) place).append (follows_sign may _)

theorem opening_words {type : TypeExpr} (writable : type.Writable) : Opening type.words := by
  induction writable with
  | @named name args reference _ _ =>
      obtain ⟨first, others, parts, isName, -⟩ := segments_of_isReference reference
      rw [words, parts]
      simp only [List.map_cons, joined, word_of_isTypeName isName, List.cons_append]
      apply Opening.name
      intro glyph ahead
      cases others with
      | nil =>
          cases args with
          | nil => cases ahead
          | cons arg args =>
              obtain rfl := Option.some.inj ahead
              exact ⟨.less, rfl, rfl⟩
      | cons second others =>
          obtain rfl := Option.some.inj ahead
          exact ⟨.dot, rfl, rfl⟩
  | union many _ ih => exact opening_joined rfl many ih
  | intersection many _ ih => exact opening_joined rfl many ih
  | function _ _ => exact .sign rfl
  | object _ _ _ => exact .sign rfl
  | array _ ih => exact (opening_grouped ih 3).append (follows_sign rfl _)
  | tuple _ _ => exact .sign rfl
  | literal isLiteral =>
      rcases literal_cases isLiteral with ⟨kind, -, isKind, row⟩ | ⟨numeral, value, -, -, row⟩
      · rw [words, row]
        exact .literal isKind
      · rw [words, row]
        exact .sign rfl

end TypeExpr

end Heed
