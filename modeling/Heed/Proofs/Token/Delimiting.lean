import Heed.Proofs.Token.Glyphs
import Heed.Proofs.Token.Tiling

/-!
# Tokens without their neighbours

A token needs nothing around it. Its text, cut out of the source, is scanned as this token, and so it is before
a space. The texts of all tokens with one space between two of them are scanned as the same tokens again.
-/

set_option autoImplicit false

namespace Heed.Token

/-! ## Cut off behind a token -/

theorem runLength_le (test : Char → Bool) (rest : List Char) : runLength test rest ≤ rest.length :=
  (List.takeWhile_prefix test).length_le

/-- A run that is cut off at its end is a run. -/
theorem runLength_take (test : Char → Bool) (rest : List Char) :
    runLength test (rest.take (runLength test rest)) = (rest.take (runLength test rest)).length := by
  apply Nat.le_antisymm
  · exact runLength_le test _
  · exact length_le_runLength (all_take_runLength test rest) List.prefix_rfl

theorem fractionLength_le (rest : List Char) : fractionLength rest ≤ rest.length := by
  unfold fractionLength
  split
  case h_1 digit rest =>
      have bounded := runLength_le isDigitOrUnderscore rest
      simp only [List.length_cons]
      split <;> omega
  case h_2 => exact Nat.zero_le _

theorem numberLength_le (rest : List Char) : numberLength rest ≤ rest.length := by
  have whole := runLength_le isDigitOrUnderscore rest
  have fraction := fractionLength_le (rest.drop (runLength isDigitOrUnderscore rest))
  rw [List.length_drop] at fraction
  simp only [numberLength]
  omega

theorem numberLength_take {first : Char} {rest : List Char} (starts : isDigit first = true) :
    numberLength (rest.take (numberLength rest)) = (rest.take (numberLength rest)).length := by
  apply Nat.le_antisymm
  · exact numberLength_le _
  · have isNumeral := (@longest_numeral first rest starts).mem
    have alone := (@longest_numeral first (rest.take (numberLength rest)) starts).longest _ isNumeral List.prefix_rfl
    have long := alone.length_le
    simp only [List.length_cons, List.length_take] at long ⊢
    omega

/-- A string that is cut off behind its closing quote. -/
theorem quotedStep_take {quote : Char} {rest : List Char} {kind : Kind} {length : Nat}
    (isQuote : Quoted.isQuote quote = true) (found : quotedStep quote rest = .token kind length) :
    quotedStep quote (rest.take length) = .token kind (rest.take length).length := by
  unfold quotedStep at found
  dsimp only at found
  split at found
  case isFalse => cases found
  case isTrue closed =>
      obtain ⟨rfl, rfl⟩ := Step.token.inj found
      have isUnits := take_unitsLength_mem quote rest
      obtain ⟨more, behind⟩ := List.head?_eq_some_iff.mp closed
      generalize Quoted.unitsLength quote rest = length at behind isUnits ⊢
      have cut : rest.take (length + 1) = rest.take length ++ [quote] := by
        rw [List.take_add, behind]
        rfl
      have units := unitsLength_of_units isQuote isUnits []
      simp only [quotedStep, cut, units, List.drop_left, List.take_left, List.head?_cons, if_true, List.length_append,
        List.length_singleton]

/-- A comment that is cut off behind its end, whatever stands there then. -/
theorem commentStep_take {rest : List Char} {length : Nat} (star : rest.head? = some '*')
    (found : commentStep rest = .token .newline length) :
    ∃ word, rest.take length = '*' :: word ∧
      ∀ tail, commentStep ('*' :: word ++ tail) = .token .newline ('*' :: word).length := by
  obtain ⟨chars, rfl⟩ := List.head?_eq_some_iff.mp star
  unfold commentStep at found
  split at found
  case h_1 => cases found
  case h_2 inner closed =>
      split at found
      case isFalse => cases found
      case isTrue feeds =>
          obtain ⟨-, rfl⟩ := Step.token.inj found
          obtain ⟨body, taken, first_end⟩ := take_of_commentLength? closed
          have cut : ('*' :: chars).take (1 + inner) = '*' :: (body ++ ['*', '/']) := by
            rw [Nat.add_comm, List.take_succ_cons]
            exact congrArg ('*' :: ·) taken
          refine ⟨body ++ ['*', '/'], cut, fun tail => ?_⟩
          have again : commentLength? (('*' :: (body ++ ['*', '/']) ++ tail).drop 1) = some (body.length + 2) := by
            simpa using commentLength?_of_body first_end tail
          have size : 1 + (body.length + 2) = ('*' :: (body ++ ['*', '/'])).length := by
            simp only [List.length_cons, List.length_append, List.length_nil]
            omega
          rw [cut] at feeds
          rw [commentStep, again]
          dsimp only
          rw [size, List.take_left, if_pos feeds]

/-! ## Tokens by themselves -/

theorem step_of_digit {first : Char} (starts : isDigit first = true) (chars : List Char) :
    step first chars =
      .token (.number (Binary64.ofChars (first :: chars.take (numberLength chars)))) (numberLength chars) := by
  obtain ⟨visible, inLine, nameless⟩ := not_isNameStart_of_isDigit starts
  rw [step, if_neg (by simp [visible]), if_neg inLine, if_neg (by simp [nameless]), if_pos starts]

theorem step_of_quote {first : Char} (isQuote : Quoted.isQuote first = true) (chars : List Char) :
    isBlank first = false ∧ step first chars = quotedStep first chars := by
  simp only [Quoted.isQuote, Bool.or_eq_true, beq_iff_eq] at isQuote
  rcases isQuote with (rfl | rfl) | rfl <;> exact ⟨rfl, rfl⟩

theorem scans_newlines (rest : List Char) :
    Scans ('\n' :: rest.take (runLength (· == '\n') rest)) .newline := by
  have alone := runLength_take (· == '\n') rest
  refine ⟨_, _, rfl, rfl, fun tail cut => ?_⟩
  change Step.token .newline (runLength (· == '\n') _) = _
  rcases cut with rfl | ⟨more, rfl⟩
  · rw [List.append_nil, alone]
  · rw [runLength_append alone rfl]

theorem scans_numeral {first : Char} (starts : isDigit first = true) (rest : List Char) :
    Scans (first :: rest.take (numberLength rest))
      (.number (Binary64.ofChars (first :: rest.take (numberLength rest)))) := by
  have alone := @numberLength_take first rest starts
  refine ⟨first, _, rfl, (not_isNameStart_of_isDigit starts).1, fun tail cut => ?_⟩
  have length : numberLength (rest.take (numberLength rest) ++ tail) = (rest.take (numberLength rest)).length := by
    rcases cut with rfl | ⟨more, rfl⟩
    · rw [List.append_nil, alone]
    · exact numberLength_append starts alone rfl (by decide) more
  rw [step_of_digit starts, length, List.take_left]

theorem scans_identifier {first : Char} (starts : isNameStart first = true) (rest : List Char) :
    Scans (first :: rest.take (runLength isNamePart rest))
      (wordKind (String.ofList (first :: rest.take (runLength isNamePart rest)))) := by
  have isWord : isWordText (String.ofList (first :: rest.take (runLength isNamePart rest))) = true := by
    rw [isWordText, String.toList_ofList]
    apply Bool.and_eq_true_iff.mpr
    exact ⟨starts, List.all_eq_true.mpr (all_take_runLength isNamePart rest)⟩
  have scans := scans_word isWord
  rwa [String.toList_ofList] at scans

/-- What the scanner takes as a token is one wherever it is cut off. -/
theorem scans_of_step {first : Char} {rest : List Char} {kind : Kind} {length : Nat}
    (found : step first rest = .token kind length) : Scans (first :: rest.take length) kind := by
  by_cases blank : isBlank first
  · rw [step, if_pos blank] at found
    cases found
  by_cases feed : first = '\n'
  · subst feed
    obtain ⟨rfl, rfl⟩ := Step.token.inj found
    exact scans_newlines rest
  by_cases starts : isNameStart first
  · rw [step, if_neg blank, if_neg feed, if_pos starts] at found
    obtain ⟨rfl, rfl⟩ := Step.token.inj found
    exact scans_identifier starts rest
  by_cases digit : isDigit first
  · rw [step_of_digit digit] at found
    obtain ⟨rfl, rfl⟩ := Step.token.inj found
    exact scans_numeral digit rest
  by_cases isQuote : Quoted.isQuote first
  · obtain ⟨visible, quoted⟩ := step_of_quote isQuote rest
    rw [quoted] at found
    have alone := quotedStep_take isQuote found
    refine ⟨first, _, rfl, visible, fun tail _ => ?_⟩
    rw [(step_of_quote isQuote _).2]
    exact quotedStep_append isQuote alone tail
  rw [step, if_neg blank, if_neg feed, if_neg starts, if_neg digit, if_neg isQuote] at found
  split at found
  case isTrue => cases found
  case isFalse =>
  split at found
  case isTrue opens =>
      obtain ⟨rfl, star⟩ := opens
      obtain rfl := commentStep_kind found
      obtain ⟨word, cut, closes⟩ := commentStep_take star found
      rw [cut]
      exact ⟨'/', _, rfl, rfl, fun tail _ => closes tail⟩
  case isFalse =>
      unfold symbolStep at found
      split at found
      case h_2 => cases found
      case h_1 sign stands =>
          obtain ⟨rfl, rfl⟩ := Step.token.inj found
          rw [take_of_atHead? stands]
          exact scans_sign sign

/-- A token is one by itself, and its span is as long as its text. -/
structure Delimited (token : Token) : Prop where
  scans : Scans token.text.toList token.kind
  width : token.span.stop - token.span.start = byteLength token.text.toList

theorem delimited_of_scanFrom {start : Nat} {chars : List Char} {tokens : List Token}
    (scanned : scanFrom start chars = .ok tokens) : ∀ token ∈ tokens, Delimited token := by
  fun_induction scanFrom start chars generalizing tokens with
  | case1 =>
      cases scanned
      exact fun _ listed => absurd listed List.not_mem_nil
  | case2 start char rest length found ih => exact ih scanned
  | case3 start char rest kind length found chars stop others scannedRest =>
      rename_i ih
      cases scanned
      have first : Delimited ⟨kind, ⟨start, stop⟩, String.ofList chars⟩ := by
        constructor
        · rw [String.toList_ofList]
          exact scans_of_step found
        · rw [String.toList_ofList]
          exact Nat.add_sub_cancel_left start (byteLength chars)
      exact List.forall_mem_cons.mpr ⟨first, ih scannedRest⟩
  | case4 => cases scanned
  | case5 => cases scanned

/-- The text of a token is scanned as this token, which starts where the text starts. -/
theorem Delimited.scan_text {token : Token} (delimited : Delimited token) :
    scan token.text = .ok [⟨token.kind, ⟨0, token.span.stop - token.span.start⟩, token.text⟩] := by
  have nothing : scanFrom (0 + byteLength token.text.toList) [] = .ok [] := by rw [scanFrom]
  have scanned := scanFrom_of_scans delimited.scans (.inl rfl) nothing
  rwa [List.append_nil, Nat.zero_add, ← delimited.width] at scanned

/-- Tokens delimit themselves. What a source has in the span of one of its tokens is scanned as this token, moved
to the start; and these texts, with one space between two of them, are scanned as the same tokens, up to their
places. -/
theorem scan_delimits {source : String} {tokens : List Token} (scanned : scan source = .ok tokens) :
    (∀ token ∈ tokens, scan (token.span.text source) =
      .ok [⟨token.kind, ⟨0, token.span.stop - token.span.start⟩, token.text⟩]) ∧
    ∃ again, scan (" ".intercalate (tokens.map (·.span.text source))) = .ok again ∧
      again.map Token.kind = tokens.map Token.kind ∧ again.map Token.text = tokens.map Token.text := by
  have delimited := delimited_of_scanFrom scanned
  have placed := (tiles_scanFrom scanned).placed (List.nil_append _).symm rfl
  constructor
  · intro token listed
    rw [(placed token listed).text_eq]
    exact (delimited token listed).scan_text
  · rw [List.map_congr_left fun token listed => (placed token listed).text_eq]
    exact scan_intercalate fun token listed => (delimited token listed).scans

/-- Symbols, a number and points that stand together, and a comment that counts as a newline. -/
theorem scan_delimits_crowd :
    ∃ tokens again, scan "'é'+++1.5.x\n/*\n*/" = .ok tokens ∧
      scan "'é' ++ + 1.5 . x \n /*\n*/" = .ok again ∧ again.map Token.kind = tokens.map Token.kind ∧
      again.length = 8 := by
  have checks : (scan "'é'+++1.5.x\n/*\n*/").toOption.any (fun tokens =>
      decide (" ".intercalate (tokens.map (·.span.text "'é'+++1.5.x\n/*\n*/")) = "'é' ++ + 1.5 . x \n /*\n*/" ∧
        tokens.length = 8)) = true := by
    decide +kernel
  cases scanned : scan "'é'+++1.5.x\n/*\n*/" with
  | error => rw [scanned] at checks; cases checks
  | ok tokens =>
      rw [scanned] at checks
      obtain ⟨text, count⟩ := of_decide_eq_true checks
      obtain ⟨-, again, joined, kinds, -⟩ := scan_delimits scanned
      rw [text] at joined
      refine ⟨tokens, again, rfl, joined, kinds, ?_⟩
      rw [← count, ← List.length_map (f := Token.kind), kinds, List.length_map]

end Heed.Token
