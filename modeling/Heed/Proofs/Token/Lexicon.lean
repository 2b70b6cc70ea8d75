import Heed.Proofs.Token.Spelling
import Mathlib.Computability.Language

/-!
# The words of the language

The patterns of tokens, blanks and comments as sets of words. All of them together are the lexicon. A token that
the scanner takes is the longest word of the lexicon at the head of the text. `step_takes` says so for one step,
together with what is skipped; by `longest_lexicon` it is enough to compare the words that start alike.
-/

set_option autoImplicit false

open scoped Computability

namespace Heed.Token

def one (test : Char → Bool) : Language Char := {word | ∃ char, test char = true ∧ word = [char]}

def run (first more : Char → Bool) : Language Char := one first * (one more)∗

def blanks : Language Char := run isBlank isBlank

def newlines : Language Char := run (· == '\n') (· == '\n')

def identifiers : Language Char := run isNameStart isNamePart

def digits : Language Char := run isDigit isDigitOrUnderscore

def numerals : Language Char := digits * (1 + one (· == '.') * digits)

/-- What may stand between two quotes: plain characters, and backslashes with the character behind them. -/
def units (quote : Char) : Language Char :=
  (one (Quoted.isPlain quote) + one (· == '\\') * one (· != '\n'))∗

def quoted (quote : Char) : Language Char := one (· == quote) * units quote * one (· == quote)

def strings : Language Char := {word | ∃ quote, Quoted.isQuote quote = true ∧ word ∈ quoted quote}

def symbols : Language Char := {word | ∃ sign : Symbol, word = sign.text.toList}

def lineComments : Language Char := {['/', '/']} * (one (· != '\n'))∗

/-- A block comment ends with the first `*/` behind its `/*`. -/
def blockComments : Language Char :=
  {word | ∃ body, word = ['/', '*'] ++ body ++ ['*', '/'] ∧ ¬ ['*', '/'] <:+: body ++ ['*']}

def newlineComments : Language Char := {word | word ∈ blockComments ∧ '\n' ∈ word}

def inlineComments : Language Char := {word | word ∈ blockComments ∧ '\n' ∉ word}

def lexicon : Language Char :=
  blanks + newlines + identifiers + numerals + strings + symbols + lineComments + blockComments

/-- How a token of a kind may be spelled. -/
def Kind.pattern : Kind → Language Char
  | .keyword word => {word.text.toList}
  | .symbol sign => {sign.text.toList}
  | .number _ => numerals
  | .string _ => strings
  | .name text => {word | word ∈ identifiers ∧ word = text.toList ∧ ∀ reserved : Keyword, reserved.text ≠ text}
  | .newline => newlines + newlineComments

/-! ## Runs of characters -/

theorem mem_one_iff {test : Char → Bool} {word : List Char} :
    word ∈ one test ↔ ∃ char, test char = true ∧ word = [char] := Iff.rfl

theorem mem_star_one_iff {test : Char → Bool} {word : List Char} :
    word ∈ (one test)∗ ↔ ∀ char ∈ word, test char = true := by
  rw [Language.mem_kstar]
  constructor
  · rintro ⟨parts, rfl, passes⟩ char member
    obtain ⟨part, listed, inPart⟩ := List.mem_flatten.mp member
    obtain ⟨other, passed, rfl⟩ := passes part listed
    rwa [List.mem_singleton.mp inPart]
  · intro passes
    refine ⟨word.map ([·]), by simp [← List.flatMap_def], ?_⟩
    intro part listed
    obtain ⟨char, member, rfl⟩ := List.mem_map.mp listed
    exact ⟨char, passes char member, rfl⟩

theorem mem_run_iff {first more : Char → Bool} {word : List Char} : word ∈ run first more ↔
    ∃ char tail, word = char :: tail ∧ first char = true ∧ ∀ other ∈ tail, more other = true := by
  rw [run, Language.mem_mul]
  constructor
  · rintro ⟨_, ⟨char, starts, rfl⟩, tail, follows, rfl⟩
    exact ⟨char, tail, rfl, starts, mem_star_one_iff.mp follows⟩
  · rintro ⟨char, tail, rfl, starts, follows⟩
    exact ⟨[char], ⟨char, starts, rfl⟩, tail, mem_star_one_iff.mpr follows, rfl⟩

/-- The longest word of a language that stands at the head of a text. -/
structure Longest (language : Language Char) (chars word : List Char) : Prop where
  mem : word ∈ language
  stands : word <+: chars
  longest : ∀ other ∈ language, other <+: chars → other <+: word

theorem length_le_runLength {test : Char → Bool} {word rest : List Char}
    (passes : ∀ char ∈ word, test char = true) (stands : word <+: rest) :
    word.length ≤ runLength test rest := by
  obtain ⟨more, rfl⟩ := stands
  rw [runLength, List.takeWhile_append_of_pos passes, List.length_append]
  exact Nat.le_add_right _ _

theorem all_take_runLength (test : Char → Bool) (rest : List Char) :
    ∀ char ∈ rest.take (runLength test rest), test char = true := by
  intro char member
  have same : rest.take (runLength test rest) = rest.takeWhile test :=
    (List.prefix_iff_eq_take.mp (List.takeWhile_prefix test)).symm
  rw [same] at member
  exact List.all_eq_true.mp List.all_takeWhile char member

/-- A word that is not longer than what is taken is a part of it. -/
theorem prefix_take {word : List Char} {char : Char} {rest : List Char} {length : Nat}
    (stands : word <+: char :: rest) (bounded : word.length ≤ length + 1) :
    word <+: char :: rest.take length := by
  change word <+: (char :: rest).take (length + 1)
  exact List.prefix_take_iff.mpr ⟨stands, bounded⟩

theorem longest_run {first more : Char → Bool} {char : Char} {rest : List Char} (starts : first char = true) :
    Longest (run first more) (char :: rest) (char :: rest.take (runLength more rest)) where
  mem := mem_run_iff.mpr ⟨char, _, rfl, starts, all_take_runLength more rest⟩
  stands := List.cons_prefix_cons.mpr ⟨rfl, List.take_prefix _ _⟩
  longest := by
    intro word member stands
    obtain ⟨other, tail, rfl, -, follows⟩ := mem_run_iff.mp member
    refine prefix_take stands (Nat.succ_le_succ ?_)
    exact length_le_runLength follows (List.cons_prefix_cons.mp stands).2

/-! ## Numbers -/

theorem mem_numerals_iff {word : List Char} : word ∈ numerals ↔
    ∃ whole ∈ digits, ∃ fraction, word = whole ++ fraction ∧
      (fraction = [] ∨ ∃ tail ∈ digits, fraction = '.' :: tail) := by
  rw [numerals, Language.mem_mul]
  refine exists_congr fun whole => and_congr_right fun _ => ?_
  simp only [Language.mem_add, Language.mem_one, Language.mem_mul, mem_one_iff, beq_iff_eq]
  constructor
  · rintro ⟨fraction, rfl | ⟨_, ⟨_, rfl, rfl⟩, tail, isDigits, rfl⟩, rfl⟩
    · exact ⟨[], rfl, .inl rfl⟩
    · exact ⟨_, rfl, .inr ⟨tail, isDigits, rfl⟩⟩
  · rintro ⟨fraction, rfl, rfl | ⟨tail, isDigits, rfl⟩⟩
    · exact ⟨[], .inl rfl, rfl⟩
    · exact ⟨_, .inr ⟨['.'], ⟨'.', rfl, rfl⟩, tail, isDigits, rfl⟩, rfl⟩

theorem fraction_take (rest : List Char) : rest.take (fractionLength rest) = [] ∨
    ∃ tail ∈ digits, rest.take (fractionLength rest) = '.' :: tail := by
  unfold fractionLength
  split
  case h_1 digit rest =>
      split
      case isTrue starts =>
          refine .inr ⟨digit :: rest.take (runLength isDigitOrUnderscore rest), ?_, ?_⟩
          · exact (longest_run starts).mem
          · rw [Nat.add_comm 2]
            rfl
      case isFalse => exact .inl rfl
  case h_2 => exact .inl rfl

theorem length_le_fractionLength {tail rest : List Char} (isDigits : tail ∈ digits)
    (stands : '.' :: tail <+: rest) : tail.length + 1 ≤ fractionLength rest := by
  obtain ⟨digit, more, rfl, starts, follows⟩ := mem_run_iff.mp isDigits
  obtain ⟨behind, rfl⟩ := stands
  have bounded := length_le_runLength follows (List.prefix_append more behind)
  rw [List.cons_append, List.cons_append, fractionLength, if_pos starts]
  simp only [List.length_cons]
  omega

theorem longest_numeral {char : Char} {rest : List Char} (starts : isDigit char = true) :
    Longest numerals (char :: rest) (char :: rest.take (numberLength rest)) where
  mem := by
    refine mem_numerals_iff.mpr ⟨char :: rest.take (runLength isDigitOrUnderscore rest), (longest_run starts).mem,
      _, ?_, fraction_take (rest.drop (runLength isDigitOrUnderscore rest))⟩
    rw [numberLength, List.take_add]
    rfl
  stands := List.cons_prefix_cons.mpr ⟨rfl, List.take_prefix _ _⟩
  longest := by
    intro word member stands
    obtain ⟨whole, isWhole, fraction, rfl, isFraction⟩ := mem_numerals_iff.mp member
    obtain ⟨digit, tail, rfl, -, follows⟩ := mem_run_iff.mp isWhole
    refine prefix_take stands ?_
    have behind : tail ++ fraction <+: rest := (List.cons_prefix_cons.mp stands).2
    rw [List.cons_append, List.length_cons, List.length_append]
    refine Nat.succ_le_succ ?_
    rcases isFraction with rfl | ⟨decimals, isDecimals, rfl⟩
    · rw [List.append_nil] at behind
      exact Nat.le_trans (length_le_runLength follows behind) (Nat.le_add_right _ _)
    · -- the point ends the run of digits, so the fraction is looked for right there
      obtain ⟨more, rfl⟩ := behind
      have ends : runLength isDigitOrUnderscore (tail ++ '.' :: decimals ++ more) = tail.length := by
        rw [runLength, List.append_assoc, List.takeWhile_append_of_pos follows]
        exact congrArg List.length (List.append_nil tail)
      have point := length_le_fractionLength isDecimals (List.prefix_append ('.' :: decimals) more)
      rw [numberLength, ends, List.append_assoc, List.drop_left]
      exact Nat.add_le_add_left point _

/-! ## Strings -/

theorem append_mem_star {language : Language Char} {word rest : List Char} (member : word ∈ language)
    (more : rest ∈ language∗) : word ++ rest ∈ language∗ := by
  rw [← Language.one_add_self_mul_kstar_eq_kstar]
  exact .inr (Language.append_mem_mul member more)

theorem unitsLength_plain {quote char : Char} (plain : Quoted.isPlain quote char = true) (rest : List Char) :
    Quoted.unitsLength quote (char :: rest) = 1 + Quoted.unitsLength quote rest := by
  cases rest with
  | nil => simp [Quoted.unitsLength, plain]
  | cons next rest => rw [Quoted.unitsLength, if_pos plain]

theorem unitsLength_escape {quote next : Char} (continues : next ≠ '\n') (rest : List Char) :
    Quoted.unitsLength quote ('\\' :: next :: rest) = 2 + Quoted.unitsLength quote rest := by
  have special : Quoted.isPlain quote '\\' = false := by simp [Quoted.isPlain]
  rw [Quoted.unitsLength, special, if_neg Bool.false_ne_true, if_pos ⟨rfl, continues⟩]

theorem unitsLength_quote {quote : Char} (isQuote : Quoted.isQuote quote = true) (rest : List Char) :
    Quoted.unitsLength quote (quote :: rest) = 0 := by
  have special : Quoted.isPlain quote quote = false := by simp [Quoted.isPlain]
  have other : quote ≠ '\\' := by
    rintro rfl
    cases isQuote
  cases rest with
  | nil => rw [Quoted.unitsLength, special, if_neg Bool.false_ne_true]
  | cons next rest =>
      rw [Quoted.unitsLength, special, if_neg Bool.false_ne_true, if_neg fun escape => other escape.1]

theorem cons_plain_mem_units {quote char : Char} {rest : List Char} (plain : Quoted.isPlain quote char = true)
    (isUnits : rest ∈ units quote) : char :: rest ∈ units quote := by
  refine append_mem_star (?_ : [char] ∈ _) isUnits
  exact (Language.mem_add _ _ _).mpr (.inl ⟨char, plain, rfl⟩)

theorem cons_escape_mem_units {quote next : Char} {rest : List Char} (continues : next ≠ '\n')
    (isUnits : rest ∈ units quote) : '\\' :: next :: rest ∈ units quote := by
  refine append_mem_star (?_ : ['\\', next] ∈ _) isUnits
  refine (Language.mem_add _ _ _).mpr (.inr (Language.mem_mul.mpr ?_))
  exact ⟨['\\'], ⟨'\\', rfl, rfl⟩, [next], ⟨next, by simpa using continues, rfl⟩, rfl⟩

theorem take_unitsLength_mem (quote : Char) (rest : List Char) :
    rest.take (Quoted.unitsLength quote rest) ∈ units quote := by
  fun_induction Quoted.unitsLength quote rest with
  | case1 => exact Language.nil_mem_kstar _
  | case2 char plain => exact cons_plain_mem_units plain (Language.nil_mem_kstar _)
  | case3 => exact Language.nil_mem_kstar _
  | case4 char next rest plain ih =>
      rw [Nat.add_comm 1, List.take_succ_cons]
      exact cons_plain_mem_units plain ih
  | case5 char next rest special escape ih =>
      obtain ⟨rfl, continues⟩ := escape
      rw [Nat.add_comm 2, List.take_succ_cons, List.take_succ_cons]
      exact cons_escape_mem_units continues ih
  | case6 => exact Language.nil_mem_kstar _

/-- The units before a quote are found as they are: no other row of units ends there. -/
theorem unitsLength_of_units {quote : Char} {body : List Char} (isQuote : Quoted.isQuote quote = true)
    (isBody : body ∈ units quote) (more : List Char) :
    Quoted.unitsLength quote (body ++ quote :: more) = body.length := by
  obtain ⟨parts, rfl, isUnit⟩ := Language.mem_kstar.mp isBody
  clear isBody
  induction parts with
  | nil => exact unitsLength_quote isQuote more
  | cons part parts ih =>
      have rest := ih fun other listed => isUnit other (.tail _ listed)
      rw [List.flatten_cons, List.append_assoc, List.length_append]
      rcases isUnit part (.head _) with ⟨char, plain, rfl⟩ | ⟨_, ⟨_, isEscape, rfl⟩, _, ⟨next, continues, rfl⟩, rfl⟩
      · exact (unitsLength_plain plain _).trans (congrArg (1 + ·) rest)
      · obtain rfl := beq_iff_eq.mp isEscape
        exact (unitsLength_escape (by simpa using continues) _).trans (congrArg (2 + ·) rest)

theorem mem_quoted_iff {quote : Char} {word : List Char} :
    word ∈ quoted quote ↔ ∃ body ∈ units quote, word = quote :: (body ++ [quote]) := by
  simp only [quoted, Language.mem_mul, mem_one_iff, beq_iff_eq]
  constructor
  · rintro ⟨_, ⟨_, ⟨_, rfl, rfl⟩, body, isBody, rfl⟩, _, ⟨_, rfl, rfl⟩, rfl⟩
    exact ⟨body, isBody, rfl⟩
  · rintro ⟨body, isBody, rfl⟩
    exact ⟨quote :: body, ⟨[quote], ⟨quote, rfl, rfl⟩, body, isBody, rfl⟩, [quote], ⟨quote, rfl, rfl⟩, rfl⟩

theorem longest_quoted {quote : Char} {rest : List Char} (isQuote : Quoted.isQuote quote = true)
    (closed : (rest.drop (Quoted.unitsLength quote rest)).head? = some quote) :
    Longest (quoted quote) (quote :: rest) (quote :: rest.take (Quoted.unitsLength quote rest + 1)) where
  mem := by
    obtain ⟨more, same⟩ := List.head?_eq_some_iff.mp closed
    refine mem_quoted_iff.mpr ⟨_, take_unitsLength_mem quote rest, ?_⟩
    rw [List.take_add, same]
    rfl
  stands := List.cons_prefix_cons.mpr ⟨rfl, List.take_prefix _ _⟩
  longest := by
    intro word member stands
    obtain ⟨body, isBody, rfl⟩ := mem_quoted_iff.mp member
    obtain ⟨more, rfl⟩ := (List.cons_prefix_cons.mp stands).2
    refine prefix_take stands ?_
    rw [List.append_assoc, List.singleton_append, unitsLength_of_units isQuote isBody]
    simp

/-! ## Comments -/

theorem mem_lineComments_iff {word : List Char} :
    word ∈ lineComments ↔ ∃ tail, word = '/' :: '/' :: tail ∧ ∀ char ∈ tail, char ≠ '\n' := by
  rw [lineComments, Language.mem_mul]
  constructor
  · rintro ⟨_, rfl, tail, inLine, rfl⟩
    exact ⟨tail, rfl, fun char member => by simpa using mem_star_one_iff.mp inLine char member⟩
  · rintro ⟨tail, rfl, inLine⟩
    exact ⟨_, rfl, tail, mem_star_one_iff.mpr fun char member => by simpa using inLine char member, rfl⟩

theorem longest_lineComment {rest : List Char} (slash : rest.head? = some '/') :
    Longest lineComments ('/' :: rest) ('/' :: rest.take (runLength (· != '\n') rest)) where
  mem := by
    obtain ⟨behind, rfl⟩ := List.head?_eq_some_iff.mp slash
    have inLine := all_take_runLength (· != '\n') behind
    refine mem_lineComments_iff.mpr ⟨behind.take (runLength (· != '\n') behind), ?_, ?_⟩
    · rfl
    · intro char member
      simpa using inLine char member
  stands := List.cons_prefix_cons.mpr ⟨rfl, List.take_prefix _ _⟩
  longest := by
    intro word member stands
    obtain ⟨tail, rfl, inLine⟩ := mem_lineComments_iff.mp member
    refine prefix_take stands (Nat.succ_le_succ ?_)
    refine length_le_runLength ?_ (List.cons_prefix_cons.mp stands).2
    intro char member
    rcases List.mem_cons.mp member with rfl | member
    · rfl
    · simpa using inLine char member

theorem take_of_commentLength? {chars : List Char} {length : Nat} (found : commentLength? chars = some length) :
    ∃ body, chars.take length = body ++ ['*', '/'] ∧ ¬ ['*', '/'] <:+: body ++ ['*'] := by
  fun_induction commentLength? chars generalizing length with
  | case1 => cases found
  | case2 => cases found
  | case3 first second rest closes =>
      obtain ⟨rfl, rfl⟩ := closes
      obtain rfl := Option.some.inj found
      refine ⟨[], rfl, fun inside => ?_⟩
      have short := inside.length_le
      simp at short
  | case4 first second rest opens ih =>
      obtain ⟨inner, later, rfl⟩ := Option.map_eq_some_iff.mp found
      obtain ⟨body, taken, first_end⟩ := ih later
      refine ⟨first :: body, by rw [List.take_succ_cons, taken]; rfl, fun inside => ?_⟩
      rcases List.infix_cons_iff.mp inside with here | behind
      · -- the closing signs would stand at the head, where the search has passed them
        obtain ⟨rfl, slash⟩ := List.cons_prefix_cons.mp here
        cases body with
        | nil => cases (List.cons_prefix_cons.mp slash).1
        | cons char body =>
            obtain ⟨rfl, -⟩ := List.cons_prefix_cons.mp slash
            cases inner with
            | zero => cases taken
            | succ inner => exact opens ⟨rfl, (List.cons.inj taken).1⟩
      · exact first_end behind

theorem commentLength?_of_body {body : List Char} (first_end : ¬ ['*', '/'] <:+: body ++ ['*'])
    (more : List Char) : commentLength? (body ++ '*' :: '/' :: more) = some (body.length + 2) := by
  induction body with
  | nil => rfl
  | cons char body ih =>
      have later : ¬ ['*', '/'] <:+: body ++ ['*'] := fun inside => first_end (List.infix_cons inside)
      have found := ih later
      cases body with
      | nil =>
          rw [List.singleton_append, commentLength?, if_neg (fun closes => by cases closes.2)]
          exact congrArg (Option.map (· + 1)) found
      | cons next body =>
          have opens : ¬ (char = '*' ∧ next = '/') := by
            rintro ⟨rfl, rfl⟩
            exact first_end ⟨[], body ++ ['*'], rfl⟩
          rw [List.cons_append, List.cons_append, commentLength?, if_neg opens]
          exact congrArg (Option.map (· + 1)) found

theorem longest_blockComment {rest : List Char} {length : Nat} (star : rest.head? = some '*')
    (found : commentLength? (rest.drop 1) = some length) :
    Longest blockComments ('/' :: rest) ('/' :: rest.take (1 + length)) where
  mem := by
    obtain ⟨behind, rfl⟩ := List.head?_eq_some_iff.mp star
    obtain ⟨body, taken, first_end⟩ := take_of_commentLength? found
    refine ⟨body, ?_, first_end⟩
    rw [Nat.add_comm, List.take_succ_cons, show behind.take length = body ++ ['*', '/'] from taken]
    rfl
  stands := List.cons_prefix_cons.mpr ⟨rfl, List.take_prefix _ _⟩
  longest := by
    rintro word ⟨body, rfl, first_end⟩ stands
    have behind : '*' :: (body ++ ['*', '/']) <+: rest := (List.cons_prefix_cons.mp stands).2
    obtain ⟨more, rfl⟩ := behind
    have here : commentLength? (body ++ ['*', '/'] ++ more) = some length := found
    rw [List.append_assoc] at here
    have same := Option.some.inj (here.symm.trans (commentLength?_of_body first_end more))
    refine prefix_take stands ?_
    simp only [List.length_append, List.length_cons, List.length_nil]
    omega

/-! ## Symbols -/

theorem mem_all_symbols (sign : Symbol) : sign ∈ Symbol.all := by
  cases sign <;> decide

theorem pairwise_all_symbols :
    Symbol.all.Pairwise fun earlier later => later.text.toList.length ≤ earlier.text.toList.length := by
  decide +kernel

/-- No symbol that stands at the head is longer than the one that is found. -/
theorem length_le_of_atHead? {chars : List Char} {sign other : Symbol} (found : Symbol.atHead? chars = some sign)
    (stands : other.text.toList <+: chars) : other.text.toList.length ≤ sign.text.toList.length := by
  obtain ⟨-, before, after, split_eq, earlier⟩ := List.find?_eq_some_iff_append.mp found
  have listed := mem_all_symbols other
  rw [split_eq] at listed
  rcases List.mem_append.mp listed with passed | rest
  · have absent := earlier other passed
    rw [List.isPrefixOf_iff_prefix.mpr stands] at absent
    cases absent
  · rcases List.mem_cons.mp rest with rfl | later
    · exact Nat.le_refl _
    · have ordered := pairwise_all_symbols
      rw [split_eq, List.pairwise_append] at ordered
      exact List.rel_of_pairwise_cons ordered.2.1 later

theorem prefix_of_atHead? {chars : List Char} {sign : Symbol} (found : Symbol.atHead? chars = some sign) :
    sign.text.toList <+: chars := by
  have stands := List.find?_some found
  exact List.isPrefixOf_iff_prefix.mp stands

theorem take_of_atHead? {char : Char} {rest : List Char} {sign : Symbol}
    (found : Symbol.atHead? (char :: rest) = some sign) :
    char :: rest.take (sign.text.length - 1) = sign.text.toList := by
  have stands := prefix_of_atHead? found
  have positive : 0 < sign.text.length := by
    cases sign <;> decide
  have taken := List.prefix_iff_eq_take.mp stands
  rw [String.length_toList, ← Nat.sub_add_cancel positive] at taken
  exact taken.symm

theorem longest_symbol {char : Char} {rest : List Char} {sign : Symbol}
    (found : Symbol.atHead? (char :: rest) = some sign) :
    Longest symbols (char :: rest) (char :: rest.take (sign.text.length - 1)) := by
  have stands := prefix_of_atHead? found
  rw [take_of_atHead? found]
  refine ⟨⟨sign, rfl⟩, stands, ?_⟩
  rintro _ ⟨other, rfl⟩ otherStands
  exact List.prefix_of_prefix_length_le otherStands stands (length_le_of_atHead? found otherStands)

/-! ## One step -/

/-- The words of the lexicon that are looked for where a text starts with a character. -/
def candidates (char : Char) (rest : List Char) : Language Char :=
  if isBlank char then blanks
  else if char = '\n' then newlines
  else if isNameStart char then identifiers
  else if isDigit char then numerals
  else if Quoted.isQuote char then quoted char
  else if char = '/' ∧ rest.head? = some '/' then lineComments
  else if char = '/' ∧ rest.head? = some '*' then blockComments
  else symbols

theorem not_isNameStart_of_isDigit {char : Char} (digit : isDigit char = true) :
    isBlank char = false ∧ char ≠ '\n' ∧ isNameStart char = false := by
  refine ⟨?_, ?_, ?_⟩
  · rw [Bool.eq_false_iff]
    intro blank
    simp only [isBlank, Bool.or_eq_true, beq_iff_eq] at blank
    rcases blank with ((rfl | rfl) | rfl) | rfl <;> cases digit
  · rintro rfl
    cases digit
  · rw [Bool.eq_false_iff]
    intro starts
    simp only [isNameStart, isDigit, Bool.or_eq_true, Bool.and_eq_true, decide_eq_true_eq, beq_iff_eq,
      Char.le_def, UInt32.le_iff_toNat_le] at digit starts
    rcases starts with ((low | high) | rfl) | rfl
    · exact absurd (low.1.trans digit.2) (by decide)
    · exact absurd (high.1.trans digit.2) (by decide)
    · exact absurd digit.2 (by decide)
    · exact absurd digit.1 (by decide)

theorem mem_lexicon_of_candidate {char : Char} {rest word : List Char} (member : word ∈ candidates char rest) :
    word ∈ lexicon := by
  simp only [lexicon, Language.mem_add]
  unfold candidates at member
  split_ifs at member with _ _ _ _ isQuote
  case pos => tauto
  case pos => tauto
  case pos => tauto
  case pos => tauto
  case pos => exact .inl (.inl (.inl (.inr ⟨char, isQuote, member⟩)))
  all_goals tauto

/-- A word of the lexicon at the head of a text is a candidate there, unless it is just the first character. -/
theorem mem_candidates {char : Char} {rest word : List Char} (member : word ∈ lexicon)
    (stands : word <+: char :: rest) : word ∈ candidates char rest ∨ word = [char] := by
  simp only [lexicon, Language.mem_add] at member
  rcases member with
    ((((((isBlanks | isNewlines) | isIdentifier) | isNumeral) | isString) | isSymbol) | isLine) | isBlock
  · obtain ⟨first, tail, rfl, blank, -⟩ := mem_run_iff.mp isBlanks
    obtain ⟨rfl, -⟩ := List.cons_prefix_cons.mp stands
    rw [candidates, if_pos blank]
    exact .inl isBlanks
  · obtain ⟨first, tail, rfl, feed, -⟩ := mem_run_iff.mp isNewlines
    obtain ⟨rfl, -⟩ := List.cons_prefix_cons.mp stands
    obtain rfl := beq_iff_eq.mp feed
    exact .inl isNewlines
  · obtain ⟨first, tail, rfl, starts, -⟩ := mem_run_iff.mp isIdentifier
    obtain ⟨rfl, -⟩ := List.cons_prefix_cons.mp stands
    obtain ⟨visible, other⟩ := not_isBlank_of_isNameStart starts
    rw [candidates, visible, if_neg Bool.false_ne_true, if_neg other, if_pos starts]
    exact .inl isIdentifier
  · obtain ⟨whole, isWhole, fraction, rfl, -⟩ := mem_numerals_iff.mp isNumeral
    obtain ⟨digit, tail, rfl, starts, -⟩ := mem_run_iff.mp isWhole
    obtain ⟨rfl, -⟩ := List.cons_prefix_cons.mp stands
    obtain ⟨visible, other, nameless⟩ := not_isNameStart_of_isDigit starts
    rw [candidates, visible, nameless, if_neg Bool.false_ne_true, if_neg other, if_neg Bool.false_ne_true,
      if_pos starts]
    exact .inl isNumeral
  · obtain ⟨quote, isQuote, isQuoted⟩ := isString
    obtain ⟨body, -, rfl⟩ := mem_quoted_iff.mp isQuoted
    obtain ⟨rfl, -⟩ := List.cons_prefix_cons.mp stands
    simp only [Quoted.isQuote, Bool.or_eq_true, beq_iff_eq] at isQuote
    rcases isQuote with (rfl | rfl) | rfl <;> exact .inl isQuoted
  · obtain ⟨sign, rfl⟩ := isSymbol
    cases sign <;> obtain ⟨rfl, -⟩ := List.cons_prefix_cons.mp stands
    case slash => exact .inr rfl
    all_goals exact .inl ⟨_, rfl⟩
  · obtain ⟨tail, rfl, -⟩ := mem_lineComments_iff.mp isLine
    obtain ⟨rfl, behind⟩ := List.cons_prefix_cons.mp stands
    obtain ⟨more, rfl⟩ := behind
    exact .inl isLine
  · obtain ⟨body, rfl, first_end⟩ := isBlock
    have stands : '/' :: '*' :: (body ++ ['*', '/']) <+: char :: rest := stands
    obtain ⟨rfl, behind⟩ := List.cons_prefix_cons.mp stands
    obtain ⟨more, rfl⟩ := behind
    exact .inl ⟨body, rfl, first_end⟩

theorem longest_lexicon {char : Char} {rest tail : List Char}
    (longest : Longest (candidates char rest) (char :: rest) (char :: tail)) :
    Longest lexicon (char :: rest) (char :: tail) where
  mem := mem_lexicon_of_candidate longest.mem
  stands := longest.stands
  longest := by
    intro word member stands
    rcases mem_candidates member stands with candidate | rfl
    · exact longest.longest word candidate stands
    · exact List.cons_prefix_cons.mpr ⟨rfl, List.nil_prefix⟩

/-- What a step over some characters takes: a token takes a word of its kind, and what is skipped is a run of
blanks, a comment in one line, or a comment up to the end of its line. -/
def Step.Takes (char : Char) (rest : List Char) : Step → Prop
  | .skip length =>
      (char :: rest.take length ∈ blanks ∨ char :: rest.take length ∈ inlineComments ∨
        char :: rest.take length ∈ lineComments ∧ ∀ next ∈ (rest.drop length).head?, next = '\n')
  | .token kind length =>
      char :: rest.take length ∈ kind.pattern ∧ Longest lexicon (char :: rest) (char :: rest.take length)
  | .refuse .. => True

theorem longest_newlines (rest : List Char) :
    Longest newlines ('\n' :: rest) ('\n' :: rest.take (runLength (· == '\n') rest)) :=
  longest_run rfl

theorem mem_pattern_wordKind {word : List Char} (isIdentifier : word ∈ identifiers) :
    word ∈ (wordKind (String.ofList word)).pattern := by
  unfold wordKind
  split
  case h_1 reserved found =>
      have spelled := List.find?_some found
      have same : reserved.text.toList = word := by
        rw [beq_iff_eq.mp spelled, String.toList_ofList]
      exact same.symm
  case h_2 free =>
      refine ⟨isIdentifier, String.toList_ofList.symm, fun reserved same => ?_⟩
      have listed : reserved ∈ Keyword.all := by
        cases reserved <;> decide
      exact List.find?_eq_none.mp free reserved listed (beq_iff_eq.mpr same)

theorem quotedStep_takes {quote : Char} {rest : List Char} (isQuote : Quoted.isQuote quote = true)
    (longest : ∀ {tail}, Longest (quoted quote) (quote :: rest) (quote :: tail) →
      Longest lexicon (quote :: rest) (quote :: tail)) : (quotedStep quote rest).Takes quote rest := by
  unfold quotedStep
  dsimp only
  split
  case isTrue closed =>
      have taken := longest_quoted isQuote closed
      exact ⟨⟨quote, isQuote, taken.mem⟩, longest taken⟩
  case isFalse => trivial

theorem commentStep_takes {rest : List Char} (star : rest.head? = some '*')
    (longest : ∀ {tail}, Longest blockComments ('/' :: rest) ('/' :: tail) →
      Longest lexicon ('/' :: rest) ('/' :: tail)) : (commentStep rest).Takes '/' rest := by
  unfold commentStep
  split
  case h_1 => trivial
  case h_2 length found =>
      have taken := longest_blockComment star found
      split
      case isTrue contained =>
          have feeds : '\n' ∈ '/' :: rest.take (1 + length) := .tail _ (List.contains_iff_mem.mp contained)
          exact ⟨.inr ⟨taken.mem, feeds⟩, longest taken⟩
      case isFalse absent =>
          refine .inr (.inl ⟨taken.mem, fun feeds => ?_⟩)
          rcases List.mem_cons.mp feeds with slash | inside
          · cases slash
          · exact absent (List.contains_iff_mem.mpr inside)

theorem symbolStep_takes {char : Char} {rest : List Char}
    (longest : ∀ {tail}, Longest symbols (char :: rest) (char :: tail) →
      Longest lexicon (char :: rest) (char :: tail)) : (symbolStep char rest).Takes char rest := by
  unfold symbolStep
  split
  case h_1 sign found => exact ⟨take_of_atHead? found, longest (longest_symbol found)⟩
  case h_2 => trivial

/-- A comment that runs to the end of its line stops before a line feed or at the end of the text. -/
theorem head_drop_runLength (rest : List Char) :
    ∀ next ∈ (rest.drop (runLength (· != '\n') rest)).head?, next = '\n' := by
  intro next found
  have same : rest.drop (runLength (· != '\n') rest) = rest.dropWhile (· != '\n') := by
    have halves : rest.takeWhile (· != '\n') ++ rest.dropWhile (· != '\n') = rest :=
      List.takeWhile_append_dropWhile
    have dropped := congrArg (List.drop (runLength (· != '\n') rest)) halves
    rwa [runLength, List.drop_left, eq_comm] at dropped
  rw [same] at found
  have stops := List.head?_dropWhile_not (· != '\n') rest
  rw [Option.mem_def.mp found] at stops
  simpa using stops

theorem step_takes (char : Char) (rest : List Char) : (step char rest).Takes char rest := by
  have longest : ∀ {tail}, Longest (candidates char rest) (char :: rest) (char :: tail) →
      Longest lexicon (char :: rest) (char :: tail) := longest_lexicon
  unfold candidates at longest
  unfold step
  split
  case isTrue blank => exact .inl (longest_run blank).mem
  case isFalse visible =>
  rw [if_neg visible] at longest
  split
  case isTrue feed =>
      subst feed
      exact ⟨.inl (longest_newlines rest).mem, longest (longest_newlines rest)⟩
  case isFalse inLine =>
  rw [if_neg inLine] at longest
  split
  case isTrue starts =>
      rw [if_pos starts] at longest
      have taken : Longest identifiers (char :: rest) (char :: rest.take (runLength isNamePart rest)) :=
        longest_run starts
      exact ⟨mem_pattern_wordKind taken.mem, longest taken⟩
  case isFalse nameless =>
  rw [if_neg nameless] at longest
  split
  case isTrue digit =>
      rw [if_pos digit] at longest
      exact ⟨(longest_numeral digit).mem, longest (longest_numeral digit)⟩
  case isFalse undigit =>
  rw [if_neg undigit] at longest
  split
  case isTrue isQuote =>
      rw [if_pos isQuote] at longest
      exact quotedStep_takes isQuote longest
  case isFalse unquoted =>
  rw [if_neg unquoted] at longest
  split
  case isTrue slashes =>
      obtain ⟨rfl, slash⟩ := slashes
      exact .inr (.inr ⟨(longest_lineComment slash).mem, head_drop_runLength rest⟩)
  case isFalse noLine =>
  rw [if_neg noLine] at longest
  split
  case isTrue opens =>
      rw [if_pos opens] at longest
      obtain ⟨rfl, star⟩ := opens
      exact commentStep_takes star longest
  case isFalse noBlock =>
      rw [if_neg noBlock] at longest
      exact symbolStep_takes longest

end Heed.Token
