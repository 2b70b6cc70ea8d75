import Heed.Proofs.Token.Delimiting

/-!
# Texts between quotes

Every text can be written as a string, with any of the quotes. A backslash goes before each backslash and each
quote of the text, and a line feed is written as a backslash with an `n`. The body is then a row of units, so that
the quote behind it is the first one that ends the string, and what the body stands for is the text.
-/

set_option autoImplicit false

namespace Heed.Token

namespace Quoted

def escape (quote char : Char) : List Char :=
  if char = '\n' then ['\\', 'n']
  else if char = '\\' ∨ char = quote then ['\\', char]
  else [char]

/-- The body of a string that stands for these characters. -/
def encode (quote : Char) (chars : List Char) : List Char := chars.flatMap (escape quote)

def enclose (quote : Char) (text : String) : String :=
  String.ofList (quote :: (encode quote text.toList ++ [quote]))

@[simp] theorem encode_nil (quote : Char) : encode quote [] = [] := rfl

@[simp] theorem encode_cons (quote char : Char) (chars : List Char) :
    encode quote (char :: chars) = escape quote char ++ encode quote chars := rfl

/-! ## Units -/

/-- A character is written as one unit: a backslash with what is no line feed, or itself where it is plain. -/
theorem escape_cases (quote char : Char) :
    (∃ next, escape quote char = ['\\', next] ∧ next ≠ '\n' ∧
      (char = '\n' ∧ next = 'n' ∨ next = char ∧ (char = '\\' ∨ char = quote))) ∨
      escape quote char = [char] ∧ isPlain quote char = true := by
  by_cases feed : char = '\n'
  · exact .inl ⟨'n', if_pos feed, by decide, .inl ⟨feed, rfl⟩⟩
  by_cases special : char = '\\' ∨ char = quote
  · exact .inl ⟨char, (if_neg feed).trans (if_pos special), feed, .inr ⟨rfl, special⟩⟩
  · refine .inr ⟨(if_neg feed).trans (if_neg special), ?_⟩
    obtain ⟨unescaped, inner⟩ := not_or.mp special
    simp [isPlain, feed, unescaped, inner]

theorem encode_mem_units (quote : Char) (chars : List Char) : encode quote chars ∈ units quote := by
  induction chars with
  | nil => exact Language.nil_mem_kstar _
  | cons char chars ih =>
      rw [encode_cons]
      rcases escape_cases quote char with ⟨next, written, continues, -⟩ | ⟨written, plain⟩
      · rw [written]
        exact cons_escape_mem_units continues ih
      · rw [written]
        exact cons_plain_mem_units plain ih

/-! ## What a body stands for -/

theorem decode_plain {char : Char} (unescaped : char ≠ '\\') (rest : List Char) :
    decode (char :: rest) = char :: decode rest := by
  cases rest with
  | nil => rfl
  | cons next rest => rw [decode, if_neg unescaped]

theorem decode_escape (next : Char) (rest : List Char) :
    decode ('\\' :: next :: rest) = unescapeChar next :: decode rest := by
  rw [decode, if_pos rfl]

/-- Only letters stand for something else behind a backslash. -/
theorem unescapeChar_of_special {quote char : Char} (isQuote : isQuote quote = true)
    (special : char = '\\' ∨ char = quote) : unescapeChar char = char := by
  rcases special with rfl | rfl
  · rfl
  · simp only [Quoted.isQuote, Bool.or_eq_true, beq_iff_eq] at isQuote
    rcases isQuote with (rfl | rfl) | rfl <;> rfl

theorem decode_escape_append {quote : Char} (isQuote : isQuote quote = true) (char : Char) (rest : List Char) :
    decode (escape quote char ++ rest) = char :: decode rest := by
  rcases escape_cases quote char with ⟨next, written, -, means⟩ | ⟨written, plain⟩
  · rw [written, List.cons_append, List.singleton_append, decode_escape]
    rcases means with ⟨rfl, rfl⟩ | ⟨rfl, special⟩
    · rfl
    · rw [unescapeChar_of_special isQuote special]
  · have unescaped : char ≠ '\\' := by
      rintro rfl
      simp [isPlain] at plain
    rw [written, List.singleton_append, decode_plain unescaped]

/-- What was encoded is decoded. -/
theorem decode_encode {quote : Char} (isQuote : isQuote quote = true) (chars : List Char) :
    decode (encode quote chars) = chars := by
  induction chars with
  | nil => rfl
  | cons char chars ih => rw [encode_cons, decode_escape_append isQuote, ih]

end Quoted

/-! ## Strings in a source -/

/-- A text between two quotes is one string, whatever comes next. -/
theorem quotedStep_encode {quote : Char} (isQuote : Quoted.isQuote quote = true) (chars more : List Char) :
    quotedStep quote (Quoted.encode quote chars ++ [quote] ++ more) =
      .token (.string (String.ofList chars)) (Quoted.encode quote chars ++ [quote]).length := by
  have isUnits := Quoted.encode_mem_units quote chars
  have length := unitsLength_of_units isQuote isUnits more
  rw [List.append_assoc, List.singleton_append]
  simp only [quotedStep, length, List.drop_left, List.take_left, List.head?_cons, if_true,
    Quoted.decode_encode isQuote, List.length_append, List.length_singleton]

theorem scans_enclose {quote : Char} (isQuote : Quoted.isQuote quote = true) (text : String) :
    Scans (Quoted.enclose quote text).toList (.string text) := by
  refine ⟨quote, Quoted.encode quote text.toList ++ [quote], String.toList_ofList, ?_, fun tail _ => ?_⟩
  · exact (step_of_quote isQuote []).1
  · have found := quotedStep_encode isQuote text.toList tail
    rw [String.ofList_toList] at found
    rw [(step_of_quote isQuote _).2, found]

/-- A text that is written between two quotes is scanned as one token: the string that is this text, over the
whole of what is written. -/
theorem scan_enclose {quote : Char} (isQuote : Quoted.isQuote quote = true) (text : String) :
    scan (Quoted.enclose quote text) =
      .ok [⟨.string text, ⟨0, (Quoted.enclose quote text).utf8ByteSize⟩, Quoted.enclose quote text⟩] := by
  have nothing : scanFrom (0 + byteLength (Quoted.enclose quote text).toList) [] = .ok [] := by rw [scanFrom]
  have scanned := scanFrom_of_scans (scans_enclose isQuote text) (.inl rfl) nothing
  rwa [List.append_nil, Nat.zero_add, byteLength_toList] at scanned

/-- The text has a backslash before a quote, a letter that is also an escape, a line feed, a character of two
bytes, the other quotes and a backslash at its end. -/
theorem scan_enclose_crowded :
    Quoted.isQuote Quoted.singleQuote = true ∧
      Quoted.enclose Quoted.singleQuote "\\'n\né\"`t\\" = "'\\\\\\'n\\né\"`t\\\\'" ∧
      scan "'\\\\\\'n\\né\"`t\\\\'" = .ok [⟨.string "\\'n\né\"`t\\", ⟨0, 16⟩, "'\\\\\\'n\\né\"`t\\\\'"⟩] := by
  have written : Quoted.enclose Quoted.singleQuote "\\'n\né\"`t\\" = "'\\\\\\'n\\né\"`t\\\\'" := by
    decide +kernel
  refine ⟨rfl, written, ?_⟩
  have scanned := @scan_enclose Quoted.singleQuote rfl "\\'n\né\"`t\\"
  rw [written] at scanned
  exact scanned

end Heed.Token
