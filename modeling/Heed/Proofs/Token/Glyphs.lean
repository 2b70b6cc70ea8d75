import Heed.Proofs.Token.Lexicon
import Heed.Proofs.Token.Openings

/-!
# Rows of tokens written down

A glyph is a token without its place. A row of glyphs is written with a space between two of them, or without
one where both a reader and the scanner can do without it: the first glyph must end before the character that
comes next. The scanner reads the text of a row as exactly this row.
-/

set_option autoImplicit false

namespace Heed

/-- A token without its place. -/
@[ext] structure Glyph where
  kind : Token.Kind
  text : String
deriving DecidableEq, Repr

namespace Token

def glyph (token : Token) : Glyph := ⟨token.kind, token.text⟩

/-- The kind of the token that a text is, if it is one token and nothing else. -/
def whole? (text : String) : Option Kind :=
  match text.toList with
  | [] => none
  | first :: rest =>
      match step first rest with
      | .token kind length => if length = rest.length then some kind else none
      | _ => none

theorem whole?_eq_some_iff {text : String} {kind : Kind} : whole? text = some kind ↔
    ∃ first rest, text.toList = first :: rest ∧ step first rest = .token kind rest.length := by
  unfold whole?
  constructor
  · intro found
    split at found
    case h_1 => cases found
    case h_2 first rest spells =>
        split at found
        case h_1 length taken =>
            obtain ⟨rfl, same⟩ := Option.ite_none_right_eq_some.mp found
            exact ⟨first, rest, spells, taken.trans (by rw [Option.some.inj same])⟩
        case h_2 => cases found
  · rintro ⟨first, rest, spells, taken⟩
    simp [spells, taken]

/-- Whether a token ends where this character comes next. -/
def Kind.endsBefore : Kind → Char → Bool
  | .keyword _, next | .name _, next => !isNamePart next
  | .number _, next => !isDigitOrUnderscore next && next != '.'
  | .string _, _ => true
  | .symbol sign, next =>
      Symbol.all.all (fun other => !(sign.text.toList ++ [next]).isPrefixOf other.text.toList) &&
        (sign != .slash || (next != '/' && next != '*'))
  | .newline, _ => false

/-! ## Where a token ends -/

theorem runLength_append {test : Char → Bool} {chars : List Char} (whole : runLength test chars = chars.length)
    {next : Char} (fails : test next = false) (more : List Char) :
    runLength test (chars ++ next :: more) = chars.length := by
  have all := all_take_runLength test chars
  rw [whole, List.take_length] at all
  rw [runLength, List.takeWhile_append_of_pos all, List.takeWhile_cons_of_neg (by simp [fails]),
    List.append_nil]

theorem of_mem_numerals {word : List Char} (isNumeral : word ∈ numerals) :
    ∀ char ∈ word, isDigitOrUnderscore char = true ∨ char = '.' := by
  have ofDigits : ∀ word ∈ digits, ∀ char ∈ word, isDigitOrUnderscore char = true := by
    intro word isDigits char member
    obtain ⟨digit, tail, rfl, starts, follows⟩ := mem_run_iff.mp isDigits
    rcases List.mem_cons.mp member with rfl | member
    · simp [isDigitOrUnderscore, starts]
    · exact follows char member
  obtain ⟨whole, isWhole, fraction, rfl, isFraction⟩ := mem_numerals_iff.mp isNumeral
  intro char member
  rcases List.mem_append.mp member with member | member
  · exact .inl (ofDigits whole isWhole char member)
  · rcases isFraction with rfl | ⟨tail, isDigits, rfl⟩
    · cases member
    · rcases List.mem_cons.mp member with rfl | member
      · exact .inr rfl
      · exact .inl (ofDigits tail isDigits char member)

/-- A number does not grow over a character that is no part of any number. -/
theorem numberLength_append {first : Char} {rest : List Char} (starts : isDigit first = true)
    (whole : numberLength rest = rest.length) {next : Char} (notDigit : isDigitOrUnderscore next = false)
    (notPoint : next ≠ '.') (more : List Char) : numberLength (rest ++ next :: more) = rest.length := by
  have isNumeral := (@longest_numeral first rest starts).mem
  rw [whole, List.take_length] at isNumeral
  have taken := @longest_numeral first (rest ++ next :: more) starts
  have covers := taken.longest _ isNumeral (List.prefix_append (first :: rest) (next :: more))
  have long := covers.length_le
  simp only [List.length_cons, List.length_take] at long
  by_contra differs
  have longer : rest.length < numberLength (rest ++ next :: more) := by omega
  have member : next ∈ first :: (rest ++ next :: more).take (numberLength (rest ++ next :: more)) := by
    refine List.mem_cons_of_mem _ (List.mem_take_iff_getElem.mpr ⟨rest.length, ?_, ?_⟩)
    · simp only [List.length_append, List.length_cons]
      omega
    · simp
  rcases of_mem_numerals taken.mem next member with digit | point
  · rw [notDigit] at digit
    cases digit
  · exact notPoint point

/-- A string ends with its closing quote, whatever comes next. -/
theorem quotedStep_append {quote : Char} {rest : List Char} {kind : Kind} (isQuote : Quoted.isQuote quote = true)
    (found : quotedStep quote rest = .token kind rest.length) (more : List Char) :
    quotedStep quote (rest ++ more) = .token kind rest.length := by
  unfold quotedStep at found
  dsimp only at found
  split at found
  case isFalse => cases found
  case isTrue closed =>
      obtain ⟨rfl, whole⟩ := Step.token.inj found
      have isUnits := take_unitsLength_mem quote rest
      generalize Quoted.unitsLength quote rest = length at closed whole isUnits
      -- the closing quote is the last character
      have split_eq : rest = rest.take length ++ [quote] := by
        have last : rest.drop length = [quote] := by
          have one : (rest.drop length).length = 1 := by
            rw [List.length_drop]
            omega
          obtain ⟨only, alone⟩ := List.length_eq_one_iff.mp one
          rw [alone, List.head?_cons] at closed
          rw [alone, Option.some.inj closed]
        rw [← last, List.take_append_drop]
      have taken : (rest.take length).length = length := by
        rw [List.length_take]
        omega
      have units := unitsLength_of_units isQuote isUnits more
      have texts : rest ++ more = rest.take length ++ quote :: more := by
        conv => lhs; rw [split_eq, List.append_assoc, List.singleton_append]
      unfold quotedStep
      rw [texts, units]
      simp [taken, whole]

theorem atHead?_text (sign : Symbol) : Symbol.atHead? sign.text.toList = some sign := by
  cases sign <;> rfl

theorem symbol_text_injective {sign other : Symbol} (same : sign.text.toList = other.text.toList) : sign = other := by
  have found := atHead?_text sign
  rw [same, atHead?_text other] at found
  exact (Option.some.inj found).symm

/-- A symbol is found where no longer one stands. -/
theorem atHead?_append {sign : Symbol} {next : Char} (more : List Char)
    (ends : Symbol.all.all (fun other => !(sign.text.toList ++ [next]).isPrefixOf other.text.toList) = true) :
    Symbol.atHead? (sign.text.toList ++ next :: more) = some sign := by
  have stands : sign.text.toList <+: sign.text.toList ++ next :: more := List.prefix_append _ _
  cases found : Symbol.atHead? (sign.text.toList ++ next :: more) with
  | none =>
      have absent := List.find?_eq_none.mp found sign (mem_all_symbols sign)
      exact absurd (List.isPrefixOf_iff_prefix.mpr stands) absent
  | some other =>
      have longer := length_le_of_atHead? found stands
      have otherStands := prefix_of_atHead? found
      have begins := List.prefix_of_prefix_length_le stands otherStands longer
      by_cases same : other.text.toList.length = sign.text.toList.length
      · rw [symbol_text_injective (begins.eq_of_length same.symm)]
      · have extended : sign.text.toList ++ [next] <+: other.text.toList := by
          apply List.prefix_of_prefix_length_le ⟨more, by simp⟩ otherStands
          rw [List.length_append, List.length_singleton]
          omega
        have shorter := List.all_eq_true.mp ends other (mem_all_symbols other)
        rw [List.isPrefixOf_iff_prefix.mpr extended] at shorter
        cases shorter

/-- A word is a name, or a reserved word that is spelled so. -/
theorem wordKind_cases (text : String) :
    wordKind text = .name text ∨ ∃ keyword, wordKind text = .keyword keyword ∧ keyword.text = text := by
  unfold wordKind
  cases found : Keyword.ofText? text with
  | none => exact .inl rfl
  | some keyword =>
      have spells := List.find?_some (show List.find? (·.text == text) Keyword.all = some keyword from found)
      exact .inr ⟨keyword, rfl, beq_iff_eq.mp spells⟩

theorem endsBefore_wordKind (text : String) (next : Char) :
    (wordKind text).endsBefore next = !isNamePart next := by
  rcases wordKind_cases text with kind | ⟨keyword, kind, -⟩
  · rw [kind]
    rfl
  · rw [kind]
    rfl

theorem commentStep_kind {rest : List Char} {kind : Kind} {length : Nat}
    (found : commentStep rest = .token kind length) : kind = .newline := by
  unfold commentStep at found
  split at found
  case h_1 => cases found
  case h_2 =>
      split at found
      case isTrue => exact (Step.token.inj found).1.symm
      case isFalse => cases found

/-- A symbol that is a text of its own is also taken where no longer symbol and no comment starts. -/
theorem step_symbol_append {first next : Char} {rest : List Char} {kind : Kind} (visible : isBlank first = false)
    (inLine : first ≠ '\n') (nameless : isNameStart first = false) (undigit : isDigit first = false)
    (unquoted : Quoted.isQuote first = false) (found : symbolStep first rest = .token kind rest.length)
    (ends : kind.endsBefore next = true) (noComment : first = '/' → rest.head? ≠ some '/' ∧ rest.head? ≠ some '*')
    (more : List Char) : step first (rest ++ next :: more) = .token kind rest.length := by
  unfold symbolStep at found
  split at found
  case h_2 => cases found
  case h_1 sign stands =>
      obtain ⟨rfl, length⟩ := Step.token.inj found
      have spells := take_of_atHead? stands
      rw [length, List.take_length] at spells
      obtain ⟨alone, notSlash⟩ := Bool.and_eq_true_iff.mp ends
      have slash : first = '/' → ∀ char, char = '/' ∨ char = '*' → (rest ++ next :: more).head? ≠ some char := by
        rintro rfl char comment
        cases rest with
        | nil =>
            obtain rfl : sign = .slash := symbol_text_injective spells.symm
            rintro ⟨rfl⟩
            rcases comment with rfl | rfl <;> cases notSlash
        | cons other rest =>
            obtain ⟨line, block⟩ := noComment rfl
            rcases comment with rfl | rfl
            · exact line
            · exact block
      have noLine : ¬ (first = '/' ∧ (rest ++ next :: more).head? = some '/') :=
        fun both => slash both.1 '/' (.inl rfl) both.2
      have noBlock : ¬ (first = '/' ∧ (rest ++ next :: more).head? = some '*') :=
        fun both => slash both.1 '*' (.inr rfl) both.2
      have whole := atHead?_append more alone
      rw [← spells, List.cons_append] at whole
      simp only [step, visible, inLine, nameless, undigit, unquoted, noLine, noBlock, symbolStep, whole, length]
      rfl

/-- A token that is a text of its own is also taken where a character comes next before which it ends. -/
theorem step_append {first next : Char} {rest : List Char} {kind : Kind} (found : step first rest = .token kind rest.length)
    (ends : kind.endsBefore next = true) (more : List Char) :
    step first (rest ++ next :: more) = .token kind rest.length := by
  by_cases blank : isBlank first
  · rw [step, if_pos blank] at found
    cases found
  by_cases feed : first = '\n'
  · rw [step, if_neg blank, if_pos feed] at found
    rw [← (Step.token.inj found).1] at ends
    cases ends
  by_cases starts : isNameStart first
  · rw [step, if_neg blank, if_neg feed, if_pos starts] at found ⊢
    obtain ⟨rfl, whole⟩ := Step.token.inj found
    rw [endsBefore_wordKind, Bool.not_eq_true'] at ends
    simp only [runLength_append whole ends, whole, List.take_left, List.take_length]
  by_cases digit : isDigit first
  · rw [step, if_neg blank, if_neg feed, if_neg starts, if_pos digit] at found ⊢
    obtain ⟨rfl, whole⟩ := Step.token.inj found
    simp only [Kind.endsBefore, Bool.and_eq_true, Bool.not_eq_true', bne_iff_ne] at ends
    simp only [numberLength_append digit whole ends.1 ends.2, whole, List.take_left, List.take_length]
  by_cases isQuote : Quoted.isQuote first
  · rw [step, if_neg blank, if_neg feed, if_neg starts, if_neg digit, if_pos isQuote] at found ⊢
    exact quotedStep_append isQuote found _
  by_cases line : first = '/' ∧ rest.head? = some '/'
  · rw [step, if_neg blank, if_neg feed, if_neg starts, if_neg digit, if_neg isQuote, if_pos line] at found
    cases found
  by_cases block : first = '/' ∧ rest.head? = some '*'
  · rw [step, if_neg blank, if_neg feed, if_neg starts, if_neg digit, if_neg isQuote, if_neg line,
      if_pos block] at found
    rw [commentStep_kind found] at ends
    cases ends
  · rw [step, if_neg blank, if_neg feed, if_neg starts, if_neg digit, if_neg isQuote, if_neg line,
      if_neg block] at found
    refine step_symbol_append (by simpa using blank) feed (by simpa using starts) (by simpa using digit)
      (by simpa using isQuote) found ends (fun slash => ⟨?_, ?_⟩) more
    · exact fun head => line ⟨slash, head⟩
    · exact fun head => block ⟨slash, head⟩

end Token

/-! ## Glyphs -/

namespace Glyph

open Token

def word (text : String) : Glyph := ⟨wordKind text, text⟩

def sign (sign : Symbol) : Glyph := ⟨.symbol sign, sign.text⟩

def isSign (glyph : Glyph) (signs : List Symbol) : Bool := signs.any fun sign => glyph.kind == .symbol sign

/-- The text of a glyph is a token of its kind. -/
structure Sound (glyph : Glyph) : Prop where
  whole : whole? glyph.text = some glyph.kind
  solid : glyph.kind ≠ .newline

theorem sound_of_scans {glyph : Glyph} (scans : Scans glyph.text.toList glyph.kind) (solid : glyph.kind ≠ .newline) :
    glyph.Sound := by
  obtain ⟨first, rest, spells, -, found⟩ := scans
  have alone := found [] (.inl rfl)
  rw [List.append_nil] at alone
  exact ⟨whole?_eq_some_iff.mpr ⟨first, rest, spells, alone⟩, solid⟩

theorem sound_word {text : String} (isWord : isWordText text = true) : (word text).Sound := by
  have scans : Scans (word text).text.toList (word text).kind := scans_word isWord
  apply sound_of_scans scans
  change wordKind text ≠ .newline
  rcases wordKind_cases text with kind | ⟨keyword, kind, -⟩ <;> simp [kind]

theorem sound_sign (symbol : Symbol) : (sign symbol).Sound :=
  sound_of_scans (scans_sign symbol) (by simp [sign])

/-- Whether a reader expects no space between two glyphs: brackets and points hold what they stand at, and no
space stands before commas and colons. -/
def isNeat (left right : Glyph) : Bool :=
  left.isSign [.parenOpen, .bracketOpen, .less, .dot, .minus] ||
    right.isSign [.parenClose, .bracketClose, .greater, .comma, .semicolon, .colon, .dot, .less] ||
    right.isSign [.parenOpen, .bracketOpen] &&
      (!left.isSign Symbol.all || left.isSign [.parenClose, .bracketClose, .braceClose, .greater])

def gap (left right : Glyph) : List Char :=
  if left.isNeat right && right.text.toList.head?.any left.kind.endsBefore then [] else [' ']

def written : List Glyph → List Char
  | [] => []
  | [last] => last.text.toList
  | left :: right :: row => left.text.toList ++ (gap left right ++ written (right :: row))

theorem written_cons (glyph : Glyph) (row : List Glyph) : ∃ more, written (glyph :: row) = glyph.text.toList ++ more := by
  cases row with
  | nil => exact ⟨[], (List.append_nil _).symm⟩
  | cons next row => exact ⟨_, rfl⟩

theorem endsBefore_space {kind : Kind} (solid : kind ≠ .newline) : kind.endsBefore ' ' = true := by
  cases kind with
  | newline => exact absurd rfl solid
  | symbol sign =>
      have spaceless : ∀ other ∈ Symbol.all, ' ' ∉ other.text.toList := by decide
      refine Bool.and_eq_true_iff.mpr ⟨List.all_eq_true.mpr fun other member => ?_, Bool.or_true _⟩
      rw [Bool.not_eq_true', Bool.eq_false_iff]
      intro stands
      apply spaceless other member
      exact (List.isPrefixOf_iff_prefix.mp stands).subset (List.mem_append_right _ (List.mem_singleton_self ' '))
  | _ => rfl

/-- Behind a glyph stands a character before which it ends. -/
theorem exists_endsBefore {left right : Glyph} (leftSound : left.Sound) (rightSound : right.Sound)
    (row : List Glyph) : ∃ next more, gap left right ++ written (right :: row) = next :: more ∧
      left.kind.endsBefore next = true := by
  unfold gap
  split
  case isTrue tight =>
      obtain ⟨first, rest, spells, -⟩ := whole?_eq_some_iff.mp rightSound.whole
      obtain ⟨more, written_eq⟩ := written_cons right row
      have ends := (Bool.and_eq_true_iff.mp tight).2
      rw [spells, List.head?_cons, Option.any_some] at ends
      refine ⟨first, rest ++ more, ?_, ends⟩
      rw [List.nil_append, written_eq, spells]
      rfl
  case isFalse => exact ⟨' ', _, rfl, endsBefore_space leftSound.solid⟩

theorem scanFrom_gap (left right : Glyph) (start : Nat) (chars : List Char) :
    ∃ start', scanFrom start (gap left right ++ chars) = scanFrom start' chars := by
  unfold gap
  split
  case isTrue => exact ⟨start, rfl⟩
  case isFalse => exact ⟨start + 1, scanFrom_blank start chars⟩

/-- A token in front of what is scanned behind it. -/
theorem scanFrom_of_step {glyph : Glyph} {first : Char} {rest tail : List Char} {start : Nat} {tokens : List Token}
    (spells : glyph.text.toList = first :: rest) (found : step first (rest ++ tail) = .token glyph.kind rest.length)
    (behind : scanFrom (start + byteLength (first :: rest)) tail = .ok tokens) :
    ∃ token, scanFrom start (glyph.text.toList ++ tail) = .ok (token :: tokens) ∧ token.glyph = glyph := by
  refine ⟨⟨glyph.kind, ⟨start, start + byteLength (first :: rest)⟩, String.ofList (first :: rest)⟩, ?_, ?_⟩
  · rw [spells, List.cons_append, scanFrom, found]
    simp only [List.take_left, List.drop_left, behind]
  · rw [← spells, String.ofList_toList]
    rfl

/-- The scanner reads the text of a row as just this row. -/
theorem scanFrom_written {row : List Glyph} (sound : ∀ glyph ∈ row, glyph.Sound) (start : Nat) :
    ∃ tokens, scanFrom start (written row) = .ok tokens ∧ tokens.map Token.glyph = row := by
  induction row generalizing start with
  | nil => exact ⟨[], by rw [written, scanFrom], rfl⟩
  | cons left row ih =>
      rw [List.forall_mem_cons] at sound
      obtain ⟨first, rest, spells, alone⟩ := whole?_eq_some_iff.mp sound.1.whole
      cases row with
      | nil =>
          have found : step first (rest ++ []) = .token left.kind rest.length := by rwa [List.append_nil]
          have behind : scanFrom (start + byteLength (first :: rest)) [] = .ok [] := by rw [scanFrom]
          obtain ⟨token, scanned, same⟩ := scanFrom_of_step spells found behind
          rw [List.append_nil] at scanned
          exact ⟨[token], scanned, by rw [List.map_singleton, same]⟩
      | cons right row =>
          have rightSound := sound.2 right List.mem_cons_self
          obtain ⟨next, more, behind, ends⟩ := exists_endsBefore sound.1 rightSound row
          obtain ⟨start', skipped⟩ :=
            scanFrom_gap left right (start + byteLength (first :: rest)) (written (right :: row))
          obtain ⟨tokens, scannedRest, glyphs⟩ := ih sound.2 start'
          have found := step_append alone ends more
          rw [← behind] at found
          obtain ⟨token, scanned, same⟩ := scanFrom_of_step spells found (skipped.trans scannedRest)
          exact ⟨token :: tokens, scanned, by rw [List.map_cons, same, glyphs]⟩

/-! ## Rows in brackets -/

def joined (symbol : Symbol) : List (List Glyph) → List Glyph
  | [] => []
  | first :: others => first ++ others.flatMap (sign symbol :: ·)

def between (opening closing : Symbol) (row : List Glyph) : List Glyph := sign opening :: (row ++ [sign closing])

def grouped (loose : Bool) (row : List Glyph) : List Glyph :=
  if loose then between .parenOpen .parenClose row else row

/-- Rows of sound glyphs in which every parenthesis has its partner. -/
inductive Balanced : List Glyph → Prop where
  | nil : Balanced []
  | glyph {glyph : Glyph} (sound : glyph.Sound) (plain : glyph.isSign [.parenOpen, .parenClose] = false) :
      Balanced [glyph]
  | append {left right : List Glyph} (leftBalanced : Balanced left) (rightBalanced : Balanced right) :
      Balanced (left ++ right)
  | group {row : List Glyph} (balanced : Balanced row) : Balanced (between .parenOpen .parenClose row)

namespace Balanced

variable {row : List Glyph}

theorem sound (balanced : Balanced row) : ∀ glyph ∈ row, glyph.Sound := by
  induction balanced with
  | nil => simp
  | glyph sound plain => exact List.forall_mem_singleton.mpr sound
  | append _ _ left right => exact List.forall_mem_append.mpr ⟨left, right⟩
  | group _ inner =>
      refine List.forall_mem_cons.mpr ⟨sound_sign _, List.forall_mem_append.mpr ⟨inner, ?_⟩⟩
      exact List.forall_mem_singleton.mpr (sound_sign _)

theorem word {text : String} (isWord : isWordText text = true) : Balanced [Glyph.word text] := by
  refine .glyph (sound_word isWord) ?_
  unfold isSign Glyph.word
  rcases wordKind_cases text with kind | ⟨keyword, kind, -⟩
  · rw [kind]
    rfl
  · rw [kind]
    rfl

theorem sign (symbol : Symbol) (plain : [Symbol.parenOpen, .parenClose].contains symbol = false := by rfl) :
    Balanced [Glyph.sign symbol] := by
  refine .glyph (sound_sign symbol) ?_
  revert plain
  cases symbol <;> simp [isSign, Glyph.sign]

theorem cons {glyph : Glyph} (first : Balanced [glyph]) (rest : Balanced row) : Balanced (glyph :: row) :=
  first.append rest

theorem flatMap {α : Type} {items : List α} {rowOf : α → List Glyph} (all : ∀ item ∈ items, Balanced (rowOf item)) :
    Balanced (items.flatMap rowOf) := by
  induction items with
  | nil => exact .nil
  | cons item items ih =>
      rw [List.forall_mem_cons] at all
      rw [List.flatMap_cons]
      exact all.1.append (ih all.2)

theorem joined {symbol : Symbol} (plain : Balanced [Glyph.sign symbol]) {rows : List (List Glyph)}
    (all : ∀ row ∈ rows, Balanced row) : Balanced (joined symbol rows) := by
  cases rows with
  | nil => exact .nil
  | cons first others =>
      rw [List.forall_mem_cons] at all
      exact all.1.append (flatMap fun row member => plain.cons (all.2 row member))

theorem between {opening closing : Symbol} (opens : Balanced [Glyph.sign opening])
    (closes : Balanced [Glyph.sign closing]) (balanced : Balanced row) : Balanced (between opening closing row) :=
  opens.cons (balanced.append closes)

theorem grouped (loose : Bool) (balanced : Balanced row) : Balanced (grouped loose row) := by
  cases loose with
  | false => exact balanced
  | true => exact .group balanced

end Balanced

end Glyph

end Heed
