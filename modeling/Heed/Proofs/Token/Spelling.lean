import Heed.Token.Scan

/-!
# Words that are scanned one by one

A lexeme is a name, a reserved word or a symbol, and has a spelling. A row of lexemes is written down with one
space between two of them. The scanner reads that text as exactly these lexemes: the space ends each of them,
so that neither does a symbol grow into a longer one nor does a comment start.
-/

set_option autoImplicit false

namespace Heed

def Token.isWordText (text : String) : Bool :=
  match text.toList with
  | [] => false
  | first :: rest => isNameStart first && rest.all isNamePart

/-- A word that is not reserved. -/
@[ext] structure Name where
  text : String
  isWord : Token.isWordText text = true
  unreserved : Keyword.ofText? text = none

inductive Lexeme where
  | name (word : Name)
  | reserved (word : Keyword)
  | symbol (sign : Symbol)

namespace Lexeme

def kind : Lexeme → Token.Kind
  | .name word => .name word.text
  | .reserved word => .keyword word
  | .symbol sign => .symbol sign

def text : Lexeme → String
  | .name word => word.text
  | .reserved word => word.text
  | .symbol sign => sign.text

end Lexeme

/-- The lexemes with one space between two of them. -/
def spelled (row : List Lexeme) : String := " ".intercalate (row.map Lexeme.text)

namespace Token

/-- A lexeme ends here: at the end of the text or before a space. -/
def IsCut (tail : List Char) : Prop := tail = [] ∨ ∃ more, tail = ' ' :: more

/-- The scanner takes these characters as one token wherever they are cut off. -/
def Scans (chars : List Char) (kind : Kind) : Prop :=
  ∃ first rest, chars = first :: rest ∧ isBlank first = false ∧
    ∀ tail, IsCut tail → step first (rest ++ tail) = .token kind rest.length

theorem not_isBlank_of_isNameStart {char : Char} (starts : isNameStart char = true) :
    isBlank char = false ∧ char ≠ '\n' := by
  constructor
  · rw [Bool.eq_false_iff]
    intro blank
    simp only [isBlank, Bool.or_eq_true, beq_iff_eq] at blank
    rcases blank with ((rfl | rfl) | rfl) | rfl <;> cases starts
  · rintro rfl
    cases starts

/-- A word is taken whole where no further part of it follows. -/
theorem step_of_word {text : String} (isWord : isWordText text = true) :
    ∃ first rest, text.toList = first :: rest ∧ isBlank first = false ∧
      ∀ tail : List Char, tail.takeWhile isNamePart = [] →
        step first (rest ++ tail) = .token (wordKind text) rest.length := by
  rw [isWordText] at isWord
  split at isWord
  case h_1 => cases isWord
  case h_2 first rest chars =>
      obtain ⟨starts, parts⟩ := Bool.and_eq_true_iff.mp isWord
      obtain ⟨visible, notNewline⟩ := not_isBlank_of_isNameStart starts
      refine ⟨first, rest, chars, visible, ?_⟩
      intro tail ends
      have run : runLength isNamePart (rest ++ tail) = rest.length := by
        rw [runLength, List.takeWhile_append_of_pos (List.all_eq_true.mp parts), ends, List.append_nil]
      have whole : String.ofList (first :: rest) = text := by
        rw [← chars, String.ofList_toList]
      simp only [step, visible, notNewline, starts, run, List.take_left, whole]
      rfl

theorem scans_word {text : String} (isWord : isWordText text = true) :
    Scans text.toList (wordKind text) := by
  obtain ⟨first, rest, chars, visible, found⟩ := step_of_word isWord
  refine ⟨first, rest, chars, visible, fun tail cut => found tail ?_⟩
  rcases cut with rfl | ⟨more, rfl⟩
  · rfl
  · exact List.takeWhile_cons_of_neg (by decide)

theorem scans_sign (sign : Symbol) : Scans sign.text.toList (.symbol sign) := by
  have atEnd : ∃ first rest, sign.text.toList = first :: rest ∧ isBlank first = false ∧
      step first rest = .token (.symbol sign) rest.length := by
    cases sign <;> exact ⟨_, _, rfl, rfl, rfl⟩
  have beforeSpace : ∀ more, ∃ first rest, sign.text.toList = first :: rest ∧
      step first (rest ++ ' ' :: more) = .token (.symbol sign) rest.length := by
    intro more
    cases sign <;> exact ⟨_, _, rfl, rfl⟩
  obtain ⟨first, rest, chars, visible, found⟩ := atEnd
  refine ⟨first, rest, chars, visible, ?_⟩
  intro tail cut
  rcases cut with rfl | ⟨more, rfl⟩
  · rw [List.append_nil]
    exact found
  · obtain ⟨first', rest', chars', found⟩ := beforeSpace more
    obtain ⟨rfl, rfl⟩ := List.cons_eq_cons.mp (chars.symm.trans chars')
    exact found

theorem wordKind_text (word : Keyword) : wordKind word.text = .keyword word := by
  cases word <;> rfl

theorem scans_lexeme (lexeme : Lexeme) : Scans lexeme.text.toList lexeme.kind := by
  cases lexeme with
  | name word =>
      have kind : wordKind word.text = .name word.text := by
        rw [wordKind, word.unreserved]
      have scans := scans_word word.isWord
      rwa [kind] at scans
  | reserved word =>
      have isWord : isWordText word.text = true := by
        cases word <;> rfl
      have scans := scans_word isWord
      rwa [wordKind_text] at scans
  | symbol sign => exact scans_sign sign

theorem scanFrom_of_scans {text : String} {tail : List Char} {kind : Kind} {tokens : List Token} {start : Nat}
    (scans : Scans text.toList kind) (cut : IsCut tail)
    (behind : scanFrom (start + byteLength text.toList) tail = .ok tokens) :
    scanFrom start (text.toList ++ tail) =
      .ok (⟨kind, ⟨start, start + byteLength text.toList⟩, text⟩ :: tokens) := by
  obtain ⟨first, rest, spells, -, found⟩ := scans
  have same : String.ofList (first :: rest) = text := by rw [← spells, String.ofList_toList]
  rw [spells] at behind ⊢
  rw [List.cons_append, scanFrom, found tail cut]
  simp only [List.take_left, List.drop_left, behind, same]

/-- A space is dropped, and the next lexeme starts right behind it. -/
theorem scanFrom_space {chars tail : List Char} {kind : Kind} {start : Nat} (scans : Scans chars kind) :
    scanFrom start (' ' :: (chars ++ tail)) = scanFrom (start + 1) (chars ++ tail) := by
  obtain ⟨first, rest, rfl, visible, -⟩ := scans
  have stops : step ' ' (first :: (rest ++ tail)) = .skip 0 := by
    have none_ : runLength isBlank (first :: (rest ++ tail)) = 0 := by
      rw [runLength, List.takeWhile_cons, visible, if_neg Bool.false_ne_true, List.length_nil]
    rw [step, none_]
    rfl
  rw [List.cons_append, scanFrom, stops]
  rfl

/-! ## Rows -/

def behind : List String → List Char
  | [] => []
  | text :: texts => ' ' :: (text.toList ++ behind texts)

theorem isCut_behind (texts : List String) : IsCut (behind texts) := by
  cases texts with
  | nil => exact .inl rfl
  | cons text texts => exact .inr ⟨_, rfl⟩

theorem toList_intercalate_cons (text : String) (texts : List String) :
    (" ".intercalate (text :: texts)).toList = text.toList ++ behind texts := by
  rw [String.toList_intercalate]
  induction texts generalizing text with
  | nil => simp [behind]
  | cons next texts ih =>
      rw [List.map_cons, List.map_cons, List.intercalate_cons_cons, ← List.map_cons, ih, behind, List.append_assoc]
      rfl

section Rows

variable {α : Type} {text : α → String} {kind : α → Kind} {row : List α}

theorem scanFrom_behind (scans : ∀ item ∈ row, Scans (text item).toList (kind item)) (start : Nat) :
    ∃ tokens, scanFrom start (behind (row.map text)) = .ok tokens ∧ tokens.map Token.kind = row.map kind ∧
      tokens.map Token.text = row.map text := by
  induction row generalizing start with
  | nil => exact ⟨[], by rw [List.map_nil, behind, scanFrom], rfl, rfl⟩
  | cons item row ih =>
      rw [List.forall_mem_cons] at scans
      obtain ⟨tokens, rest, kinds, texts⟩ := ih scans.2 (start + 1 + byteLength (text item).toList)
      have scanned := scanFrom_of_scans scans.1 (isCut_behind _) rest
      rw [← scanFrom_space scans.1] at scanned
      exact ⟨_, scanned, congrArg (kind item :: ·) kinds, congrArg (text item :: ·) texts⟩

/-- Texts that are tokens each by itself are scanned as just these tokens, one space between two of them. -/
theorem scan_intercalate (scans : ∀ item ∈ row, Scans (text item).toList (kind item)) :
    ∃ tokens, scan (" ".intercalate (row.map text)) = .ok tokens ∧ tokens.map Token.kind = row.map kind ∧
      tokens.map Token.text = row.map text := by
  cases row with
  | nil => exact ⟨[], by rw [scan, List.map_nil, String.intercalate, String.toList_empty, scanFrom], rfl, rfl⟩
  | cons item row =>
      rw [List.forall_mem_cons] at scans
      obtain ⟨tokens, rest, kinds, texts⟩ := scanFrom_behind scans.2 (0 + byteLength (text item).toList)
      have scanned := scanFrom_of_scans scans.1 (isCut_behind _) rest
      rw [← toList_intercalate_cons] at scanned
      exact ⟨_, scanned, congrArg (kind item :: ·) kinds, congrArg (text item :: ·) texts⟩

end Rows

theorem toList_spelled_cons (lexeme : Lexeme) (row : List Lexeme) :
    (spelled (lexeme :: row)).toList = lexeme.text.toList ++ behind (row.map Lexeme.text) :=
  toList_intercalate_cons lexeme.text (row.map Lexeme.text)

/-- The scanner reads a row that is spelled out as just this row. -/
theorem scan_spelled (row : List Lexeme) :
    ∃ tokens, scan (spelled row) = .ok tokens ∧ tokens.map Token.kind = row.map Lexeme.kind := by
  obtain ⟨tokens, scanned, kinds, -⟩ := scan_intercalate fun lexeme (_ : lexeme ∈ row) => scans_lexeme lexeme
  exact ⟨tokens, scanned, kinds⟩

end Token

end Heed
