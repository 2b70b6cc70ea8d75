import Heed.Proofs.Grammar.Initialiser
import Heed.Proofs.Grammar.TypeReading

/-!
# The round trip of types

A type that is written down, with parentheses just where its places ask for them, and given a name is parsed
without error, and the name stands for exactly this type.
-/

set_option autoImplicit false

namespace Heed

namespace TypeExpr

open Glyph (word sign written gap)

/-! ## The text of an alias -/

def aliasRow (type : TypeExpr) : List Glyph := word "type" :: word "X" :: sign .assign :: type.words

/-- A space stands between the sign of assignment and a type. -/
theorem gap_assign {first : Glyph} {rest : List Glyph} (opening : Opening (first :: rest)) :
    gap (sign .assign) first = [' '] := by
  cases opening with
  | name behind => rfl
  | @literal kind text rest isLiteral =>
      cases kind with
      | symbol symbol => cases isLiteral
      | _ => rfl
  | @sign symbol rest opens =>
      have listed : symbol = .parenOpen ∨ symbol = .braceOpen ∨ symbol = .bracketOpen ∨ symbol = .minus := by
        simpa [mayOpen] using opens
      rcases listed with rfl | rfl | rfl | rfl <;> rfl

theorem written_aliasRow {type : TypeExpr} (writable : type.Writable) :
    written type.aliasRow = ("type X = " ++ type.text).toList := by
  have opening := opening_words writable
  rw [String.toList_append, text, @String.toList_ofList (written type.words), aliasRow]
  generalize type.words = row at opening
  cases row with
  | nil => cases opening
  | cons first rest =>
      rw [written, written, written, gap_assign opening]
      rfl

theorem scan_alias {type : TypeExpr} (writable : type.Writable) :
    ∃ tokens, Token.scan ("type X = " ++ type.text) = .ok tokens ∧ tokens.map Token.glyph = type.aliasRow := by
  have sound : ∀ glyph ∈ type.aliasRow, glyph.Sound := by
    refine List.forall_mem_cons.mpr ⟨Glyph.sound_word rfl, List.forall_mem_cons.mpr ⟨Glyph.sound_word rfl, ?_⟩⟩
    exact List.forall_mem_cons.mpr ⟨Glyph.sound_sign .assign, (balanced_words writable).sound⟩
  rw [Token.scan, ← written_aliasRow writable]
  exact Glyph.scanFrom_written sound 0

end TypeExpr

namespace Grammar

open Reader Builder

variable {syn : Productions} {word name sign : Span} {rest : List Token} {low sourceEnd : Nat}

def aliasTokens (word name sign : Span) (rest : List Token) : List Token :=
  ⟨.name "type", word, "type"⟩ :: ⟨.name "X", name, "X"⟩ :: ⟨.symbol .assign, sign, "="⟩ :: rest

def behindAlias (name sign : Span) (rest : List Token) (sourceEnd : Nat) : Draft :=
  ⟨⟨rest, sign.stop, sourceEnd⟩, #[⟨.identifier "X" none, name⟩]⟩

theorem statement_alias : statement syn ⟨⟨aliasTokens word name sign rest, low, sourceEnd⟩, #[]⟩ =
    (do let ascription ← typeAscription
        endStatement
        allocFrom (.typeAlias 0 [] ascription) word.start : Builder Nat)
      (behindAlias name sign rest sourceEnd) := by
  rw [statement]
  rfl

theorem exists_aliasTokens {tokens : List Token} {type : TypeExpr} (glyphs : tokens.map Token.glyph = type.aliasRow) :
    ∃ word name sign rest, tokens = aliasTokens word name sign rest ∧ rest.map Token.glyph = type.words := by
  obtain ⟨⟨_, word, _⟩, tokens, rfl, isWord, named⟩ := List.map_eq_cons_iff.mp glyphs
  obtain ⟨⟨_, name, _⟩, tokens, rfl, isName, assigned⟩ := List.map_eq_cons_iff.mp named
  obtain ⟨⟨_, sign, _⟩, rest, rfl, isSign, written⟩ := List.map_eq_cons_iff.mp assigned
  obtain ⟨rfl, rfl⟩ := Glyph.mk.inj isWord
  obtain ⟨rfl, rfl⟩ := Glyph.mk.inj isName
  obtain ⟨rfl, rfl⟩ := Glyph.mk.inj isSign
  exact ⟨word, name, sign, rest, rfl, written⟩

/-- The type is read up to the end of the tokens, and hung into a node. -/
theorem typeAscription_runs {type : TypeExpr} (writable : type.Writable) {draft : Draft}
    (glyphs : draft.cursor.rest.map Token.glyph = type.words) :
    ∃ cursor span, cursor.peek? = none ∧
      Runs typeAscription draft draft.nodes.size ⟨cursor, draft.nodes.push ⟨.typeAscription type, span⟩⟩ := by
  have shows : Shows (draft.cursor.rest.length + 1) draft.cursor (type.words ++ []) := by
    rw [List.append_nil, ← glyphs]
    refine ⟨rfl, ?_, by rw [List.length_map]; exact Nat.lt_succ_self _⟩
    rw [glyphs]
    exact fun glyph member => ((TypeExpr.balanced_words writable).sound glyph member).solid
  obtain ⟨cursor, runs, shown⟩ :=
    (TypeExpr.readable writable).whole draft.cursor.rest.length draft.cursor [] shows (TypeExpr.follows_nil 1)
  have counted : Runs (remaining : Reader Nat) draft.cursor draft.cursor.rest.length draft.cursor := rfl
  have read : Runs (withTypes (·.type)) draft.cursor type cursor := counted.bind runs
  have started : Runs (liftM nextStart : Builder Nat) draft _ draft := rfl
  have ended : Runs (liftM lastEnd : Builder Nat) { draft with cursor } cursor.lastEnd { draft with cursor } := rfl
  refine ⟨cursor, _, ?_, started.bind (read.lift.bind (ended.bind (allocs _ _ _)))⟩
  exact Option.map_eq_none_iff.mp shown.peek?_eq

def aliasNodes (type : TypeExpr) (name ascription statement : Span) : Array Node :=
  #[⟨.identifier "X" none, name⟩, ⟨.typeAscription type, ascription⟩, ⟨.typeAlias 0 [] 1, statement⟩]

theorem statement_runs_alias {type : TypeExpr} (writable : type.Writable) (glyphs : rest.map Token.glyph = type.words) :
    ∃ ascription span cursor, cursor.peek? = none ∧
      Runs (statement syn) ⟨⟨aliasTokens word name sign rest, low, sourceEnd⟩, #[]⟩ 2
        ⟨cursor, aliasNodes type name ascription span⟩ := by
  obtain ⟨cursor, ascription, empty, runs⟩ := @typeAscription_runs _ writable (behindAlias name sign rest sourceEnd) glyphs
  obtain ⟨after, ended, empty'⟩ := Cursor.Ends.endStatement (.inl empty)
  have placed : Runs (liftM lastEnd : Builder Nat)
      ⟨after, #[⟨.identifier "X" none, name⟩, ⟨.typeAscription type, ascription⟩]⟩ after.lastEnd _ := rfl
  refine ⟨ascription, ⟨word.start, after.lastEnd⟩, after, empty', statement_alias.trans ?_⟩
  exact runs.bind (ended.lift.bind (placed.bind (allocs _ _ _)))

theorem ofTokens_alias {type : TypeExpr} (writable : type.Writable) (glyphs : rest.map Token.glyph = type.words)
    (length : Nat) : ∃ ascription span, Tree.ofTokens (aliasTokens word name sign rest) length =
      .ok (Tree.ofNodes ((aliasNodes type name ascription span).push ⟨.program [2], ⟨0, length⟩⟩) 3) := by
  obtain ⟨ascription, span, cursor, empty, stated⟩ := @statement_runs_alias
    (productions (aliasTokens word name sign rest).length) word name sign rest 0
    (Cursor.ofTokens (aliasTokens word name sign rest)).sourceEnd type writable glyphs
  have body : Runs (collect do
      if ← atEnd then return .stop
      else return .more (some (← (productions ((aliasTokens word name sign rest).length + 1)).statement)) :
      Builder (List Nat)) ⟨Cursor.ofTokens (aliasTokens word name sign rest), #[]⟩ [2]
      ⟨cursor, aliasNodes type name ascription span⟩ := by
    refine .collect (.more ((atEnds rfl).bind (.no Bool.false_ne_true (stated.bind .done))) ?_)
    exact .stop ((atEnds empty).bind (.yes rfl .done))
  exact ⟨ascription, span, ofTokens_of_program (body.bind (allocs _ _ _))⟩

end Grammar

/-- A type that can be written, with parentheses where its places ask for them, is the type of its alias. -/
theorem parse_written_type (type : TypeExpr) (writable : type.Writable) :
    ∃ tree statement name ascription, Tree.parse ("type X = " ++ type.text) = .ok tree ∧
      tree.kind tree.root = .program [statement] ∧ tree.kind statement = .typeAlias name [] ascription ∧
      tree.kind name = .identifier "X" none ∧ tree.kind ascription = .typeAscription type := by
  obtain ⟨tokens, scanned, glyphs⟩ := TypeExpr.scan_alias writable
  obtain ⟨word, name, sign, rest, rfl, behind⟩ := Grammar.exists_aliasTokens glyphs
  obtain ⟨ascription, span, parsed⟩ := @Grammar.ofTokens_alias word name sign rest type writable behind
    ("type X = " ++ type.text).utf8ByteSize
  refine ⟨Tree.ofNodes ((Grammar.aliasNodes type name ascription span).push
    ⟨.program [2], ⟨0, ("type X = " ++ type.text).utf8ByteSize⟩⟩) 3, 2, 0, 1, ?_, rfl, rfl, rfl, rfl⟩
  rw [Tree.parse, scanned]
  exact parsed

example : (TypeExpr.union [.array (.intersection [.plain "A", .named "m.B" [.literal "-1"]]), .function (.tuple []),
    .object [.method "get" (.plain "A"), .initializer]]).text =
      "(A & m.B<-1>)[] | (() => []) | { get(): A; constructor(); }" := by
  decide +kernel

/-- A type with a form of each kind, some of them in places that ask for parentheses. -/
def TypeExpr.assorted : TypeExpr :=
  .union [
    .intersection [
      .function (.union [.plain "A", .plain "B"]),
      .named "maps.default.Map" [.plain "K", .array (.union [.literal "-1", .literal "true"])]],
    .array (.function (.plain "void")),
    .tuple [.literal "'a'", .union [.union [.plain "A", .plain "B"], .array (.array (.plain "C"))], .tuple []],
    .object [.property "get" (.function (.literal "0.5")), .method "if" (.plain "asserts"), .initializer,
      .property "constructor" (.intersection [.plain "A", .object []])]]

theorem parse_assorted_type : TypeExpr.assorted.Writable ∧
    ∃ tree statement name ascription, Tree.parse ("type X = " ++ TypeExpr.assorted.text) = .ok tree ∧
      tree.kind tree.root = .program [statement] ∧ tree.kind statement = .typeAlias name [] ascription ∧
      tree.kind name = .identifier "X" none ∧ tree.kind ascription = .typeAscription TypeExpr.assorted := by
  have writable : TypeExpr.assorted.Writable := by decide +kernel
  exact ⟨writable, parse_written_type TypeExpr.assorted writable⟩

end Heed
