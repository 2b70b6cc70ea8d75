import Heed.Proofs.Grammar.Facing
import Heed.Proofs.Token.Glyphs

/-!
# Reading a row of glyphs

A cursor shows a row of glyphs if these are the tokens ahead. From there the run of a reader is followed step
by step. What a reader makes of a row does not depend on what stands behind the row, as long as that may follow.

A loop that gathers items and a loop that changes a value are given a budget of one more than the tokens ahead.
Each turn takes a token, so what is left of the budget stays above the tokens that are left.
-/

set_option autoImplicit false

namespace Heed

namespace Reader

open Glyph (sign word joined between Balanced)

/-- The tokens ahead are these glyphs, newlines are not among them, and they are fewer than `room`. -/
structure Shows (room : Nat) (cursor : Cursor) (row : List Glyph) : Prop where
  glyphs : cursor.rest.map Token.glyph = row
  solid : ∀ glyph ∈ row, glyph.kind ≠ .newline
  fits : row.length < room

def isAhead (row : List Glyph) (symbol : Symbol) : Bool := row.head?.any (·.kind == .symbol symbol)

theorem isAhead_word (text : String) (row : List Glyph) (symbol : Symbol) :
    isAhead (word text :: row) symbol = false := by
  unfold isAhead word
  rcases Token.wordKind_cases text with kind | ⟨keyword, kind, -⟩
  · rw [kind]
    rfl
  · rw [kind]
    rfl

namespace Shows

variable {room : Nat} {cursor : Cursor} {glyph : Glyph} {row : List Glyph} {symbol : Symbol}

theorem wide (shows : Shows room cursor row) : Shows (room + 1) cursor row :=
  { shows with fits := Nat.lt_succ_of_lt shows.fits }

theorem rest_length (shows : Shows room cursor row) : cursor.rest.length = row.length := by
  rw [← shows.glyphs, List.length_map]

theorem exists_token (shows : Shows room cursor (glyph :: row)) :
    ∃ token, cursor.peek? = some token ∧ token.glyph = glyph ∧ cursor.significant = cursor.rest ∧
      cursor.rest = token :: cursor.advance.rest := by
  have glyphs := shows.glyphs
  unfold Cursor.peek? Cursor.advance Cursor.significant
  cases ahead : cursor.rest with
  | nil => simp [ahead] at glyphs
  | cons token rest =>
      rw [ahead, List.map_cons] at glyphs
      obtain ⟨same, -⟩ := List.cons_eq_cons.mp glyphs
      have visible : token.isNewline = false := by
        have solid := shows.solid glyph List.mem_cons_self
        rw [← same] at solid
        exact beq_eq_false_iff_ne.mpr solid
      rw [List.dropWhile_cons_of_neg (by simp [visible])]
      exact ⟨token, rfl, same, rfl, rfl⟩

theorem later (shows : Shows room cursor (glyph :: row)) : Shows room cursor.advance row := by
  obtain ⟨token, -, -, -, rest⟩ := shows.exists_token
  have glyphs := shows.glyphs
  rw [rest, List.map_cons] at glyphs
  exact
    { glyphs := (List.cons_eq_cons.mp glyphs).2
      solid := fun glyph member => shows.solid glyph (List.mem_cons_of_mem _ member)
      fits := Nat.lt_of_succ_lt shows.fits }

theorem next (shows : Shows (room + 1) cursor (glyph :: row)) : Shows room cursor.advance row :=
  { shows.later with fits := Nat.lt_of_succ_lt_succ shows.fits }

theorem behind {more : List Glyph} (shows : Shows room cursor (row ++ more)) {tokens rest : List Token}
    (split : cursor.rest = tokens ++ rest) (taken : tokens.map Token.glyph = row) (lastEnd : Nat) :
    Shows room { cursor with rest, lastEnd } more := by
  have glyphs := shows.glyphs
  have fits := shows.fits
  rw [split, List.map_append, taken] at glyphs
  rw [List.length_append] at fits
  exact
    { glyphs := List.append_cancel_left glyphs
      solid := fun glyph member => shows.solid glyph (List.mem_append_right _ member)
      fits := by omega }

theorem nthOf_eq (shows : Shows room cursor row) (n : Nat) :
    (Cursor.nthOf n cursor.rest).map Token.glyph = row[n]? := by
  have visible : ∀ token ∈ cursor.rest, token.isNewline = false := by
    intro token member
    have solid := shows.solid token.glyph (shows.glyphs ▸ List.mem_map_of_mem member)
    exact beq_eq_false_iff_ne.mpr solid
  rw [← shows.glyphs, List.getElem?_map]
  -- with no newline among the tokens, none is passed over
  generalize cursor.rest = tokens at visible
  congr 1
  fun_induction Cursor.nthOf n tokens with
  | case1 => rfl
  | case2 n token rest newline =>
      rw [visible token List.mem_cons_self] at newline
      cases newline
  | case3 token rest => rfl
  | case4 token rest _ n ih => exact ih fun other member => visible other (List.mem_cons_of_mem _ member)

theorem peek?_eq (shows : Shows room cursor row) : cursor.peek?.map Token.glyph = row.head? := by
  cases row with
  | nil =>
      have empty : cursor.rest = [] := List.map_eq_nil_iff.mp shows.glyphs
      rw [Cursor.peek?, Cursor.significant, empty]
      rfl
  | cons glyph row =>
      obtain ⟨token, found, rfl, -⟩ := shows.exists_token
      rw [found]
      rfl

/-! ## Taking and testing tokens -/

theorem sees (shows : Shows room cursor row) (test : Token → Bool) (passes : Token.Kind → Bool)
    (byKind : ∀ token, test token = passes token.kind) :
    Runs (nextIs test) cursor (row.head?.any fun glyph => passes glyph.kind) cursor := by
  have answer : cursor.peek?.any test = row.head?.any fun glyph => passes glyph.kind := by
    rw [← shows.peek?_eq, Option.any_map]
    exact congrArg cursor.peek?.any (funext byKind)
  rw [nextIs, Runs, peek_bind, answer]
  rfl

theorem seesNth (shows : Shows room cursor row) (n : Nat) (test : Token → Bool) (passes : Token.Kind → Bool)
    (byKind : ∀ token, test token = passes token.kind) :
    Runs (nthIs n test) cursor (row[n]?.any fun glyph => passes glyph.kind) cursor := by
  have answer : (Cursor.nthOf n cursor.rest).any test = row[n]?.any fun glyph => passes glyph.kind := by
    rw [← shows.nthOf_eq, Option.any_map]
    exact congrArg (Cursor.nthOf n cursor.rest).any (funext byKind)
  rw [nthIs, Runs, get_bind, answer]
  rfl

theorem check (shows : Shows room cursor row) (symbol : Symbol) :
    Runs (Reader.check symbol) cursor (isAhead row symbol) cursor :=
  shows.sees (·.isSymbol symbol) (· == .symbol symbol) fun _ => rfl

theorem checkText (shows : Shows room cursor row) (text : String) :
    Runs (Reader.checkText text) cursor (row.head?.any (·.kind == .name text)) cursor :=
  shows.sees (·.isWord text) (· == .name text) fun _ => rfl

theorem peek {kind : Token.Kind} {text : String} (shows : Shows room cursor (⟨kind, text⟩ :: row)) :
    ∃ span, Runs Reader.peek cursor (some ⟨kind, span, text⟩) cursor := by
  obtain ⟨⟨kind', span, text'⟩, found, same, -⟩ := shows.exists_token
  obtain ⟨rfl, rfl⟩ := Glyph.mk.inj same
  refine ⟨span, ?_⟩
  rw [← found]
  rfl

theorem not_atEnd (shows : Shows room cursor (glyph :: row)) : Runs atEnd cursor false cursor := by
  obtain ⟨span, seen⟩ := shows.peek
  exact seen.bind .done

theorem rawIs (shows : Shows room cursor row) (symbol : Symbol) :
    Runs (Reader.rawIs (·.isSymbol symbol)) cursor (isAhead row symbol) cursor := by
  have answer : cursor.rest.head?.any (·.isSymbol symbol) = isAhead row symbol := by
    rw [isAhead, ← shows.glyphs, List.head?_map, Option.any_map]
    rfl
  rw [Reader.rawIs, Runs, get_bind, answer]
  rfl

theorem eat (shows : Shows room cursor (sign symbol :: row)) : Runs (Reader.eat symbol) cursor true cursor.advance := by
  have found : isAhead (sign symbol :: row) symbol = true := beq_self_eq_true (Token.Kind.symbol symbol)
  exact (shows.check symbol).bind (.yes found ((Faces.bumps _).bind .done))

theorem leaves (shows : Shows room cursor row) (other : isAhead row symbol = false) :
    Runs (Reader.eat symbol) cursor false cursor :=
  (shows.check symbol).bind (.no (Bool.eq_false_iff.mp other) .done)

/-- The next token passes a test that it must pass. -/
theorem expectThat (shows : Shows room cursor (glyph :: row)) (what : Expectation) {test : Token → Bool}
    (passes : ∀ token : Token, token.glyph = glyph → test token = true) :
    ∃ token, Runs (Reader.expectThat what test) cursor token cursor.advance ∧ token.glyph = glyph := by
  obtain ⟨token, found, same, -⟩ := shows.exists_token
  refine ⟨token, ?_, same⟩
  rw [Reader.expectThat, Runs, peek_bind, found]
  exact Runs.yes (passes token same) ((Faces.bumps _).bind .done)

theorem expect (shows : Shows room cursor (sign symbol :: row)) :
    ∃ span, Runs (Reader.expect symbol) cursor span cursor.advance := by
  have passes : ∀ token : Token, token.glyph = sign symbol → token.isSymbol symbol = true :=
    fun _ same => beq_iff_eq.mpr (congrArg Glyph.kind same)
  obtain ⟨token, runs, -⟩ := shows.expectThat (.symbol symbol) passes
  exact ⟨token.span, runs.bind .done⟩

theorem expectName {name : String} (shows : Shows room cursor (⟨.name name, name⟩ :: row)) :
    ∃ span, Runs Reader.expectName cursor (name, span) cursor.advance := by
  have passes : ∀ token : Token, token.glyph = ⟨.name name, name⟩ → token.isName = true := by
    intro token same
    have kind : token.kind = .name name := congrArg Glyph.kind same
    rw [Token.isName, kind]
  obtain ⟨token, runs, same⟩ := shows.expectThat .identifier passes
  have text : token.text = name := congrArg Glyph.text same
  refine ⟨token.span, ?_⟩
  rw [← text]
  exact runs.bind .done

theorem propertyName?_word {token : Token} {text : String} (same : token.glyph = word text) :
    propertyName? token = some text := by
  have kind : token.kind = Token.wordKind text := congrArg Glyph.kind same
  rcases Token.wordKind_cases text with isName | ⟨keyword, reserved, spells⟩
  · rw [propertyName?, kind, isName]
  · rw [propertyName?, kind, reserved, ← spells]

theorem expectPropertyName {text : String} (shows : Shows room cursor (word text :: row)) :
    ∃ span, Runs Reader.expectPropertyName cursor (text, span) cursor.advance := by
  have passes : ∀ token : Token, token.glyph = word text → (propertyName? token).isSome = true := by
    intro token same
    rw [propertyName?_word same, Option.isSome_some]
  obtain ⟨token, runs, same⟩ := shows.expectThat .propertyName passes
  have runs : Runs Reader.expectPropertyName cursor ((propertyName? token).getD "", token.span) cursor.advance :=
    runs.bind .done
  rw [propertyName?_word same, Option.getD_some] at runs
  exact ⟨token.span, runs⟩

end Shows

/-! ## Groups in parentheses -/

theorem isSymbol_of_sign {token : Token} {symbol : Symbol} (same : token.glyph = sign symbol) (other : Symbol) :
    token.isSymbol other = (Token.Kind.symbol symbol == .symbol other) := by
  rw [Token.isSymbol, show token.kind = .symbol symbol from congrArg Glyph.kind same]

theorem exists_between {tokens : List Token} {opening closing : Symbol} {row : List Glyph}
    (glyphs : tokens.map Token.glyph = between opening closing row) :
    ∃ first middle last, tokens = first :: (middle ++ [last]) ∧ first.glyph = sign opening ∧
      middle.map Token.glyph = row ∧ last.glyph = sign closing := by
  obtain ⟨first, inside, rfl, isFirst, inner⟩ := List.map_eq_cons_iff.mp glyphs
  obtain ⟨middle, ending, rfl, middleGlyphs, isEnding⟩ := List.map_eq_append_iff.mp inner
  obtain ⟨last, rfl, isLast⟩ := List.map_eq_singleton_iff.mp isEnding
  exact ⟨first, middle, last, rfl, isFirst, middleGlyphs, isLast⟩

/-- The search for the end of a group comes by a balanced row. -/
theorem closeGroup_balanced {row : List Glyph} (balanced : Balanced row) {tokens : List Token}
    (glyphs : tokens.map Token.glyph = row) (depth : Nat) (rest : List Token) :
    Cursor.closeGroup .parenOpen .parenClose (depth + 1) (tokens ++ rest) =
      Cursor.closeGroup .parenOpen .parenClose (depth + 1) rest := by
  induction balanced generalizing tokens depth rest with
  | nil =>
      rw [List.map_eq_nil_iff.mp glyphs]
      rfl
  | @glyph glyph _ plain =>
      obtain ⟨token, rfl, rfl⟩ := List.map_eq_singleton_iff.mp glyphs
      simp only [Glyph.isSign, List.any_cons, List.any_nil, Bool.or_false, Bool.or_eq_false_iff] at plain
      exact Cursor.closeGroup_of_other (Bool.eq_false_iff.mp plain.1) (Bool.eq_false_iff.mp plain.2)
  | append _ _ left right =>
      obtain ⟨first, second, rfl, leftGlyphs, rightGlyphs⟩ := List.map_eq_append_iff.mp glyphs
      rw [List.append_assoc, left leftGlyphs, right rightGlyphs]
  | group _ inner =>
      obtain ⟨first, middle, last, rfl, isFirst, middleGlyphs, isLast⟩ := exists_between glyphs
      have opens : first.isSymbol .parenOpen = true := isSymbol_of_sign isFirst _
      have closes : last.isSymbol .parenClose = true := isSymbol_of_sign isLast _
      have differs : last.isSymbol .parenOpen = false := isSymbol_of_sign isLast _
      rw [List.cons_append, Cursor.closeGroup_of_open opens, List.append_assoc, inner middleGlyphs,
        List.singleton_append, Cursor.closeGroup_succ_of_close (Bool.eq_false_iff.mp differs) closes]

namespace Shows

variable {room : Nat} {cursor : Cursor} {row rest : List Glyph}

/-- The token that is seen behind a group in parentheses. -/
theorem behindParens (shows : Shows room cursor (between .parenOpen .parenClose row ++ rest))
    (balanced : Balanced row) : ∃ next, Runs (Reader.behindParens cursor.significant) cursor next cursor ∧
      next.map Token.glyph = rest.head? := by
  obtain ⟨group, behind, split, groupGlyphs, -⟩ := List.map_eq_append_iff.mp shows.glyphs
  have shown := shows.behind split groupGlyphs cursor.lastEnd
  obtain ⟨first, middle, last, rfl, isFirst, middleGlyphs, isLast⟩ := exists_between groupGlyphs
  have opens : first.isSymbol .parenOpen = true := isSymbol_of_sign isFirst _
  have closes : last.isSymbol .parenClose = true := isSymbol_of_sign isLast _
  have differs : last.isSymbol .parenOpen = false := isSymbol_of_sign isLast _
  have found : Cursor.closeGroup .parenOpen .parenClose 0 cursor.significant = .found last behind := by
    obtain ⟨-, -, -, significant, -⟩ := shows.exists_token
    rw [significant, split, List.cons_append, Cursor.closeGroup_of_open opens, List.append_assoc,
      closeGroup_balanced balanced middleGlyphs, List.singleton_append]
    exact Cursor.closeGroup_one_of_close (Bool.eq_false_iff.mp differs) closes
  refine ⟨Cursor.nthOf 0 behind, ?_, ?_⟩
  · rw [Reader.behindParens, found]
    exact .done
  · rw [shown.nthOf_eq 0, List.head?_eq_getElem?]

/-- Parentheses with nothing in them are skipped. -/
theorem skipParens (shows : Shows room cursor (sign .parenOpen :: sign .parenClose :: row)) :
    ∃ after, Runs (skipBalanced .parenOpen .parenClose) cursor () after ∧ Shows room after row := by
  obtain ⟨span, expected⟩ := shows.expect
  obtain ⟨last, -, isLast, -, rest⟩ := shows.later.exists_token
  have closes : last.isSymbol .parenClose = true := isSymbol_of_sign isLast _
  have differs : last.isSymbol .parenOpen = false := isSymbol_of_sign isLast _
  have found : Cursor.closeGroup .parenOpen .parenClose 1 cursor.advance.rest =
      .found last cursor.advance.advance.rest := by
    rw [rest]
    exact Cursor.closeGroup_one_of_close (Bool.eq_false_iff.mp differs) closes
  have shown := @Shows.behind _ _ [sign .parenClose] _ shows.later [last] _ rest
    (by rw [List.map_singleton, isLast]) last.span.stop
  refine ⟨_, expected.bind ?_, shown⟩
  rw [Runs, get_bind, found]
  rfl

end Shows

/-! ## Loops -/

section

variable {α : Type}

/-- A loop gathers these items, whatever its budget beyond the tokens ahead. -/
def Gathers (turn : Reader (Turn α)) (cursor : Cursor) (items : List α) (after : Cursor) : Prop :=
  ∀ budget, cursor.rest.length < budget → Runs (collectWithin turn budget) cursor items after

namespace Gathers

variable {turn : Reader (Turn α)} {cursor middle after : Cursor} {items : List α}

theorem stop (runs : Runs turn cursor .stop after) : Gathers turn cursor [] after := by
  intro budget enough
  cases budget with
  | zero => cases enough
  | succ budget => exact runs.bind .done

theorem last {item : α} (runs : Runs turn cursor (.last item) after) : Gathers turn cursor [item] after := by
  intro budget enough
  cases budget with
  | zero => cases enough
  | succ budget => exact runs.bind .done

theorem more {item : Option α} (runs : Runs turn cursor (.more item) middle)
    (fewer : middle.rest.length < cursor.rest.length) (rest : Gathers turn middle items after) :
    Gathers turn cursor (item.toList ++ items) after := by
  intro budget enough
  cases budget with
  | zero => cases enough
  | succ budget => exact runs.bind ((rest budget (by omega)).bind .done)

theorem collect (gathers : Gathers turn cursor items after) : Runs (collect turn) cursor items after := by
  have remaining : Runs Reader.remaining cursor cursor.rest.length cursor := rfl
  exact remaining.bind (gathers _ (Nat.lt_succ_self _))

end Gathers

/-- A loop gets from one value to another, and its budget stays above the tokens ahead. -/
def Carries (step : α → Reader (Option α)) (value : α) (cursor : Cursor) (last : α) (after : Cursor) : Prop :=
  ∀ budget, cursor.rest.length < budget → ∃ spare, after.rest.length < spare ∧
    growWithin step budget value cursor = growWithin step spare last after

namespace Carries

variable {step : α → Reader (Option α)} {value last : α} {cursor after : Cursor}

theorem stay (value : α) (cursor : Cursor) : Carries step value cursor value cursor :=
  fun budget enough => ⟨budget, enough, rfl⟩

theorem turn (runs : Runs (step value) cursor (some last) after) (fewer : after.rest.length < cursor.rest.length) :
    Carries step value cursor last after := by
  intro budget enough
  cases budget with
  | zero => cases enough
  | succ budget =>
      refine ⟨budget, by omega, ?_⟩
      rw [growWithin, bind_apply, show step value cursor = _ from runs]
      rfl

theorem trans {between : α} {middle : Cursor} (first : Carries step value cursor between middle)
    (second : Carries step between middle last after) : Carries step value cursor last after := by
  intro budget enough
  obtain ⟨spare, left, there⟩ := first budget enough
  obtain ⟨rest, left', onward⟩ := second spare left
  exact ⟨rest, left', there.trans onward⟩

theorem grow (carries : Carries step value cursor last after) (stops : Runs (step last) after none after) :
    Runs (grow step value) cursor last after := by
  have remaining : Runs Reader.remaining cursor cursor.rest.length cursor := rfl
  refine remaining.bind ?_
  obtain ⟨spare, left, same⟩ := carries (cursor.rest.length + 1) (Nat.lt_succ_self _)
  rw [Runs, same]
  -- what is left of the budget pays for the turn that changes nothing
  cases spare with
  | zero => cases left
  | succ spare => exact stops.bind .done

end Carries

end

/-! ## Reading a row -/

section

variable {α : Type}

/-- A reader takes a row and gives a value for it, whatever follows the row that may. -/
def Parses (room : Nat) (read : Reader α) (row : List Glyph) (follows : List Glyph → Prop) (value : α) : Prop :=
  ∀ cursor rest, Shows room cursor (row ++ rest) → follows rest →
    ∃ after, Runs read cursor value after ∧ Shows room after rest

/-- A reader starts on a row, and a loop comes by at a value for the whole row. -/
def Arrives (room : Nat) (first : Reader α) (step : α → Reader (Option α)) (row : List Glyph)
    (follows : List Glyph → Prop) (value : α) : Prop :=
  ∀ cursor rest, Shows room cursor (row ++ rest) → follows rest →
    ∃ start middle after, Runs first cursor start middle ∧ Carries step start middle value after ∧
      Shows room after rest

variable {room : Nat} {read : Reader α} {step : α → Reader (Option α)} {row : List Glyph}
  {follows follows' : List Glyph → Prop} {value : α}

theorem Parses.narrow (parses : Parses room read row follows value) (may : ∀ rest, follows' rest → follows rest) :
    Parses room read row follows' value := fun cursor rest shows follow => parses cursor rest shows (may rest follow)

theorem Parses.arrives (parses : Parses room read row follows value) : Arrives room read step row follows value := by
  intro cursor rest shows follow
  obtain ⟨after, runs, shown⟩ := parses cursor rest shows follow
  exact ⟨value, after, after, runs, .stay value after, shown⟩

theorem Arrives.parses (arrives : Arrives room read step row follows value)
    (may : ∀ rest, follows' rest → follows rest)
    (stops : ∀ cursor rest, Shows room cursor rest → follows' rest → Runs (step value) cursor none cursor) :
    Parses room (do grow step (← read)) row follows' value := by
  intro cursor rest shows follow
  obtain ⟨start, middle, after, first, carries, shown⟩ := arrives cursor rest shows (may rest follow)
  exact ⟨after, first.bind (carries.grow (stops after rest shown follow)), shown⟩

/-- The loop around a row makes one more turn. -/
theorem Arrives.snoc {more : List Glyph} {whole : α} (arrives : Arrives room read step row follows value)
    (may : ∀ rest, follows' rest → follows (more ++ rest)) (some_ : more ≠ [])
    (turn : ∀ cursor rest, Shows room cursor (more ++ rest) →
      ∃ after, Runs (step value) cursor (some whole) after ∧ Shows room after rest) :
    Arrives room read step (row ++ more) follows' whole := by
  intro cursor rest shows follow
  rw [List.append_assoc] at shows
  obtain ⟨start, middle, between, first, carries, shown⟩ := arrives cursor (more ++ rest) shows (may rest follow)
  obtain ⟨after, turned, shown'⟩ := turn between rest shown
  have fewer : after.rest.length < between.rest.length := by
    have positive := List.length_pos_iff.mpr some_
    rw [shown.rest_length, shown'.rest_length, List.length_append]
    omega
  exact ⟨start, middle, after, first, carries.trans (.turn turned fewer), shown'⟩

/-! ## Lists -/

def trailing (symbol : Symbol) (rowOf : α → List Glyph) (items : List α) : List Glyph :=
  items.flatMap fun item => sign symbol :: rowOf item

theorem joined_map_cons (symbol : Symbol) (rowOf : α → List Glyph) (first : α) (others : List α) :
    joined symbol ((first :: others).map rowOf) = rowOf first ++ trailing symbol rowOf others := by
  rw [List.map_cons, joined, List.flatMap_map, trailing]

theorem isAhead_sign_of_ne {symbol other : Symbol} (differs : symbol ≠ other) (row : List Glyph) :
    isAhead (sign symbol :: row) other = false :=
  beq_eq_false_iff_ne.mpr fun same => differs (Token.Kind.symbol.inj same)

def commaTurn (close : Symbol) (read : Reader α) : Reader (Turn α) := do
  if ← Reader.check close then
    return .stop
  else
    let value ← read
    if ← Reader.eat .comma then return .more (some value) else return .last value

/-- One or more items, each read before a comma or the sign that closes the list, and none starting with it. -/
theorem gathers_commaTurn {close : Symbol} (distinct : close ≠ .comma) {rowOf : α → List Glyph}
    (comma : ∀ rest, follows (sign .comma :: rest)) (closes : ∀ rest, follows (sign close :: rest))
    {first : α} {others : List α} (parses : ∀ item ∈ first :: others, Parses room read (rowOf item) follows item)
    (opens : ∀ item ∈ first :: others, ∀ rest, follows rest → isAhead (rowOf item ++ rest) close = false)
    {cursor : Cursor} {rest : List Glyph}
    (shows : Shows room cursor (rowOf first ++ (trailing .comma rowOf others ++ sign close :: rest))) :
    ∃ after, Gathers (commaTurn close read) cursor (first :: others) after ∧
      Shows room after (sign close :: rest) := by
  -- behind the first item stands a comma, or the sign that closes the list
  induction others generalizing first cursor with
  | nil =>
      have unclosed := opens first List.mem_cons_self _ (closes rest)
      obtain ⟨after, runs, shown⟩ := parses first List.mem_cons_self cursor _ shows (closes rest)
      have alone := shown.leaves (isAhead_sign_of_ne distinct rest)
      refine ⟨after, .last ?_, shown⟩
      exact (shows.check close).bind (.no (Bool.eq_false_iff.mp unclosed)
        (runs.bind (alone.bind (.no Bool.false_ne_true .done))))
  | cons second others ih =>
      have behind : trailing .comma rowOf (second :: others) ++ sign close :: rest =
          sign .comma :: (rowOf second ++ (trailing .comma rowOf others ++ sign close :: rest)) := by
        simp [trailing]
      rw [behind] at shows
      obtain ⟨middle, runs, shown⟩ := parses first List.mem_cons_self cursor _ shows (comma _)
      have unclosed := opens first List.mem_cons_self _ (comma (rowOf second ++ (trailing .comma rowOf others ++
        sign close :: rest)))
      obtain ⟨after, gathers, shown'⟩ := ih (fun item member => parses item (List.mem_cons_of_mem _ member))
        (fun item member => opens item (List.mem_cons_of_mem _ member)) shown.later
      have fewer : middle.advance.rest.length < cursor.rest.length := by
        rw [shown.later.rest_length, shows.rest_length]
        simp only [List.length_append, List.length_cons]
        omega
      have turn : Runs (commaTurn close read) cursor (.more (some first)) middle.advance :=
        (shows.check close).bind (.no (Bool.eq_false_iff.mp unclosed) (runs.bind (shown.eat.bind (.yes rfl .done))))
      exact ⟨after, .more turn fewer gathers, shown'⟩

theorem parses_commaList {close : Symbol} (distinct : close ≠ .comma) {rowOf : α → List Glyph}
    (comma : ∀ rest, follows (sign .comma :: rest)) (closes : ∀ rest, follows (sign close :: rest))
    {items : List α} (parses : ∀ item ∈ items, Parses room read (rowOf item) follows item)
    (opens : ∀ item ∈ items, ∀ rest, follows rest → isAhead (rowOf item ++ rest) close = false)
    {cursor : Cursor} {rest : List Glyph}
    (shows : Shows room cursor (joined .comma (items.map rowOf) ++ sign close :: rest)) :
    ∃ after, Runs (commaList close read) cursor items after ∧ Shows room after (sign close :: rest) := by
  cases items with
  | nil =>
      have here : isAhead (sign close :: rest) close = true := beq_self_eq_true (Token.Kind.symbol close)
      exact ⟨cursor, (Gathers.stop ((shows.check close).bind (.yes here .done))).collect, shows⟩
  | cons first others =>
      rw [joined_map_cons, List.append_assoc] at shows
      obtain ⟨after, gathers, shown⟩ := gathers_commaTurn distinct comma closes parses opens shows
      exact ⟨after, gathers.collect, shown⟩

end

end Reader

end Heed
