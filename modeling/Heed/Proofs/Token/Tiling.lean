import Heed.Proofs.Token.Lexicon
import Heed.Proofs.Token.Order

/-!
# Tokens tile the source

A source is a row of tokens with gaps before, between and behind them. A token stands where its span says and
is spelled in the way of its kind, and no longer word of the lexicon stands there. A gap holds nothing but
blanks and comments.
-/

set_option autoImplicit false

namespace Heed

namespace Token

/-- What may stand between two tokens: blanks, block comments in one line, and comments that run to the end of
their line. The second text is what follows. -/
inductive Gap : List Char → List Char → Prop
  | nil {next : List Char} : Gap [] next
  | blank {char : Char} {gap next : List Char} : isBlank char = true → Gap gap next → Gap (char :: gap) next
  | block {word gap next : List Char} : word ∈ inlineComments → Gap gap next → Gap (word ++ gap) next
  | line {word gap next : List Char} : word ∈ lineComments → (∀ char ∈ (gap ++ next).head?, char = '\n') →
      Gap gap next → Gap (word ++ gap) next

/-- Tokens that cover a text, which starts at an offset, up to gaps. -/
inductive Tiles : Nat → List Char → List Token → Prop
  | gap {start : Nat} {gap : List Char} : Gap gap [] → Tiles start gap []
  | token {start : Nat} {gap word rest : List Char} {token : Token} {tokens : List Token} :
      Gap gap (word ++ rest) → word ≠ [] →
      token.span = ⟨start + byteLength gap, start + byteLength gap + byteLength word⟩ →
      token.text = String.ofList word → word ∈ token.kind.pattern → Longest lexicon (word ++ rest) word →
      Tiles token.span.stop rest tokens → Tiles start (gap ++ (word ++ rest)) (token :: tokens)

theorem Gap.of_blanks {word gap next : List Char} (blank : ∀ char ∈ word, isBlank char = true)
    (isGap : Gap gap next) : Gap (word ++ gap) next := by
  induction word with
  | nil => exact isGap
  | cons char word ih => exact .blank (blank char (.head _)) (ih fun other member => blank other (.tail _ member))

/-- Skipping some characters makes the first gap longer. -/
theorem Tiles.skip {start : Nat} {piece rest : List Char} {tokens : List Token}
    (widens : ∀ gap next, gap ++ next = rest → Gap gap next → Gap (piece ++ gap) next)
    (tiles : Tiles (start + byteLength piece) rest tokens) : Tiles start (piece ++ rest) tokens := by
  cases tiles with
  | gap isGap => exact .gap (widens _ [] (List.append_nil _) isGap)
  | token isGap some_ span text spells longest behind =>
      rw [← List.append_assoc]
      refine .token (widens _ _ rfl isGap) some_ ?_ text spells longest behind
      rw [span, byteLength_append, Nat.add_assoc start]

theorem widens_of_skip {char : Char} {rest : List Char} {length : Nat} (found : step char rest = .skip length)
    {gap next : List Char} (split_eq : gap ++ next = rest.drop length) (isGap : Gap gap next) :
    Gap (char :: rest.take length ++ gap) next := by
  have takes := step_takes char rest
  rw [found] at takes
  rcases takes with isBlanks | isBlock | ⟨isLine, ends⟩
  · obtain ⟨first, tail, same, blank, follows⟩ := mem_run_iff.mp isBlanks
    rw [same]
    exact .blank blank (.of_blanks follows isGap)
  · exact .block isBlock isGap
  · exact .line isLine (by rwa [split_eq]) isGap

theorem tiles_scanFrom {start : Nat} {chars : List Char} {tokens : List Token}
    (scanned : scanFrom start chars = .ok tokens) : Tiles start chars tokens := by
  fun_induction scanFrom start chars generalizing tokens with
  | case1 =>
      cases scanned
      exact .gap .nil
  | case2 start char rest length found ih =>
      have tiles := (ih scanned).skip fun gap next => widens_of_skip found
      rwa [List.cons_append, List.take_append_drop] at tiles
  | case3 start char rest kind length found chars stop others scannedRest =>
      rename_i ih
      cases scanned
      have takes := step_takes char rest
      rw [found] at takes
      obtain ⟨spells, longest⟩ := takes
      have whole : chars ++ rest.drop length = char :: rest := by
        rw [List.cons_append, List.take_append_drop]
      rw [← whole] at longest ⊢
      exact .token (.nil : Gap [] _) (List.cons_ne_nil _ _) rfl rfl spells longest (ih scannedRest)
  | case4 => cases scanned
  | case5 => cases scanned

/-! ## Spans and texts -/

theorem sliceFrom_append (before middle after : List Char) (offset : Nat) :
    sliceFrom ⟨offset + byteLength before, offset + byteLength before + byteLength middle⟩ offset
      (before ++ (middle ++ after)) = middle := by
  induction before generalizing offset with
  | cons char before ih =>
      have positive := char.utf8Size_pos
      have shifted := ih (offset + char.utf8Size)
      simp only [List.cons_append, sliceFrom, byteLength] at shifted ⊢
      rw [if_neg (by omega), if_neg (by omega), ← Nat.add_assoc offset]
      exact shifted
  | nil =>
      simp only [List.nil_append, byteLength, Nat.add_zero]
      -- the start has been reached, so only the end is tested from here on
      suffices taken : ∀ low, low ≤ offset → sliceFrom ⟨low, offset + byteLength middle⟩ offset (middle ++ after) =
          middle from taken offset (Nat.le_refl _)
      induction middle generalizing offset with
      | nil =>
          intro low _
          cases after with
          | nil => rfl
          | cons char after => simp [sliceFrom, byteLength]
      | cons char middle ih =>
          intro low reached
          have positive := char.utf8Size_pos
          have shifted := ih (offset + char.utf8Size) low (by omega)
          simp only [List.cons_append, sliceFrom, byteLength] at shifted ⊢
          rw [if_neg (by omega), if_pos reached, ← Nat.add_assoc offset, shifted]

theorem byteLength_toList (source : String) : byteLength source.toList = source.utf8ByteSize := by
  rw [← utf8ByteSize_ofList, String.ofList_toList]

/-- The text of a span whose ends lie between characters. -/
theorem text_of_append {source : String} {before middle after : List Char}
    (split_eq : source.toList = before ++ (middle ++ after)) :
    Span.text ⟨byteLength before, byteLength before + byteLength middle⟩ source = String.ofList middle := by
  have slice := sliceFrom_append before middle after 0
  rw [Span.text, split_eq]
  simpa using congrArg String.ofList slice

def textFrom (source : String) (offset : Nat) : String := Span.text ⟨offset, source.utf8ByteSize⟩ source

theorem isBoundary_of_append {source : String} {before after : List Char}
    (split_eq : source.toList = before ++ after) : IsBoundary source (byteLength before) := by
  have boundary := isBoundary_byteLength_take source before.length
  rwa [split_eq, List.take_left] at boundary

theorem textFrom_of_append {source : String} {before after : List Char} (split_eq : source.toList = before ++ after) :
    textFrom source (byteLength before) = String.ofList after := by
  have size : source.utf8ByteSize = byteLength before + byteLength after := by
    rw [← byteLength_toList, split_eq, byteLength_append]
  rw [textFrom, size]
  exact text_of_append (show source.toList = before ++ (after ++ []) by rw [List.append_nil, split_eq])

/-! ## Tokens in their source -/

/-- A token that stands in a source where its span says. -/
structure Placed (source : String) (token : Token) : Prop where
  nonempty : token.span.start < token.span.stop
  inside : token.span.stop ≤ source.utf8ByteSize
  boundary_start : IsBoundary source token.span.start
  boundary_stop : IsBoundary source token.span.stop
  text_eq : token.span.text source = token.text
  spells : token.text.toList ∈ token.kind.pattern
  longest : Longest lexicon (textFrom source token.span.start).toList token.text.toList

/-- The stretch between two rows of tokens, the first of which starts at an offset. -/
def between (source : String) (low : Nat) (before after : List Token) : Span :=
  ⟨(before.getLast?.map (·.span.stop)).getD low, (after.head?.map (·.span.start)).getD source.utf8ByteSize⟩

variable {source : String} {start : Nat} {chars : List Char} {tokens : List Token}

/-- What is done once a token has been passed. -/
theorem through_token {done gap word rest : List Char} {token : Token}
    (split_eq : source.toList = done ++ (gap ++ (word ++ rest)))
    (span : token.span =
      ⟨byteLength done + byteLength gap, byteLength done + byteLength gap + byteLength word⟩) :
    source.toList = (done ++ gap ++ word) ++ rest ∧ token.span.stop = byteLength (done ++ gap ++ word) := by
  constructor
  · rw [split_eq, List.append_assoc, List.append_assoc]
  · rw [span, byteLength_append, byteLength_append]

theorem Tiles.placed (tiles : Tiles start chars tokens) {done : List Char} (split_eq : source.toList = done ++ chars)
    (at_start : start = byteLength done) : ∀ token ∈ tokens, Placed source token := by
  induction tiles generalizing done with
  | gap => exact fun _ listed => absurd listed List.not_mem_nil
  | @token start gap word rest token tokens isGap filled span text spells longest behind ih =>
      subst at_start
      have before : source.toList = (done ++ gap) ++ (word ++ rest) := by
        rw [split_eq, List.append_assoc]
      obtain ⟨through, stop⟩ := through_token split_eq span
      rw [← byteLength_append] at span
      have whole : token.text.toList = word := by
        rw [text, String.toList_ofList]
      intro other listed
      rcases List.mem_cons.mp listed with rfl | listed
      · obtain ⟨char, tail, rfl⟩ := List.exists_cons_of_ne_nil filled
        refine ⟨?_, ?_, ?_, ?_, ?_, ?_, ?_⟩
        · rw [span]
          exact Nat.lt_add_of_pos_right (byteLength_pos char tail)
        · rw [stop, ← byteLength_toList, through, byteLength_append (done ++ gap ++ char :: tail)]
          exact Nat.le_add_right _ _
        · rw [span]
          exact isBoundary_of_append before
        · rw [stop]
          exact isBoundary_of_append through
        · rw [span, text_of_append before, text]
        · rw [whole]
          exact spells
        · rw [whole, span, textFrom_of_append before, String.toList_ofList]
          exact longest
      · exact ih through stop other listed

theorem Tiles.gaps (tiles : Tiles start chars tokens) {done : List Char} (split_eq : source.toList = done ++ chars)
    (at_start : start = byteLength done) {before after : List Token} (row : tokens = before ++ after) :
    Gap ((between source start before after).text source).toList
      (textFrom source (between source start before after).stop).toList := by
  induction tiles generalizing done before with
  | @gap start gap isGap =>
      obtain ⟨rfl, rfl⟩ := List.append_eq_nil_iff.mp row.symm
      subst at_start
      have size : source.utf8ByteSize = byteLength done + byteLength gap := by
        rw [← byteLength_toList, split_eq, byteLength_append]
      have last : source.toList = (done ++ gap) ++ [] := by rw [split_eq, List.append_nil]
      have stretch : between source (byteLength done) [] [] = ⟨byteLength done, byteLength done + byteLength gap⟩ := by
        rw [← size]
        rfl
      rw [stretch, ← byteLength_append, textFrom_of_append last, byteLength_append]
      rw [text_of_append (show source.toList = done ++ (gap ++ []) by rw [List.append_nil, split_eq])]
      rw [String.toList_ofList, String.toList_ofList]
      exact isGap
  | @token start gap word rest token tokens isGap filled span text spells longest behind ih =>
      subst at_start
      cases before with
      | nil =>
          obtain rfl : token :: tokens = after := row
          have stretch : between source (byteLength done) [] (token :: tokens) =
              ⟨byteLength done, byteLength done + byteLength gap⟩ := by
            rw [between, List.head?_cons, Option.map_some, span]
            rfl
          rw [stretch, text_of_append split_eq, ← byteLength_append]
          rw [textFrom_of_append (show source.toList = (done ++ gap) ++ (word ++ rest) by
            rw [split_eq, List.append_assoc])]
          rw [String.toList_ofList, String.toList_ofList]
          exact isGap
      | cons first before =>
          obtain ⟨rfl, rfl⟩ := List.cons.inj row
          obtain ⟨through, stop⟩ := through_token split_eq span
          have same : between source (byteLength done) (token :: before) after =
              between source token.span.stop before after := by
            rw [between, between, List.getLast?_cons]
            cases before.getLast? <;> rfl
          rw [same]
          exact ih through stop rfl

theorem Laid.stands {edge : Nat → Prop} {low : Nat} (laid : Laid edge low tokens) :
    ∀ token ∈ tokens, token.Stands edge low := by
  induction tokens generalizing low with
  | nil => exact fun _ listed => absurd listed List.not_mem_nil
  | cons first rest ih =>
      obtain ⟨stands, behind⟩ := laid
      intro token listed
      rcases List.mem_cons.mp listed with rfl | listed
      · exact stands
      · have later := ih behind token listed
        have passed := Nat.le_trans stands.low_le (Nat.le_of_lt stands.nonempty)
        exact { later with low_le := Nat.le_trans passed later.low_le }

theorem Laid.pairwise {edge : Nat → Prop} {low : Nat} (laid : Laid edge low tokens) :
    tokens.Pairwise fun earlier later => earlier.span.stop ≤ later.span.start := by
  induction tokens generalizing low with
  | nil => exact .nil
  | cons first rest ih => exact .cons (fun token listed => (laid.2.stands token listed).low_le) (ih laid.2)

/-- The tokens of a source tile it. Each stands where its span says, between two characters, and is the longest
word there; they follow each other without overlap; and before, between and behind them are only gaps. -/
theorem scan_tiles (scanned : scan source = .ok tokens) :
    (∀ token ∈ tokens, Placed source token) ∧
      tokens.Pairwise (fun earlier later => earlier.span.stop ≤ later.span.start) ∧
      ∀ before after, tokens = before ++ after →
        Gap ((between source 0 before after).text source).toList
          (textFrom source (between source 0 before after).stop).toList := by
  have tiles : Tiles 0 source.toList tokens := tiles_scanFrom scanned
  refine ⟨tiles.placed (List.nil_append _).symm rfl, (laid_scan scanned).pairwise, ?_⟩
  intro before after row
  exact tiles.gaps (List.nil_append _).symm rfl row

/-- Symbols that could be split otherwise, a number before two points, a comment that counts as a newline, and
characters of several bytes. -/
theorem scan_tiles_of_comments :
    ∃ tokens, scan "'é'+++1.5.x// é\n/*\n*/" = .ok tokens ∧
      tokens.map Token.text = ["'é'", "++", "+", "1.5", ".", "x", "\n", "/*\n*/"] ∧
      ∀ token ∈ tokens, Placed "'é'+++1.5.x// é\n/*\n*/" token := by
  have checks : (scan "'é'+++1.5.x// é\n/*\n*/").toOption.any (fun tokens =>
      decide (tokens.map Token.text = ["'é'", "++", "+", "1.5", ".", "x", "\n", "/*\n*/"])) = true := by
    decide +kernel
  cases scanned : scan "'é'+++1.5.x// é\n/*\n*/" with
  | error => rw [scanned] at checks; cases checks
  | ok tokens =>
      rw [scanned] at checks
      exact ⟨tokens, rfl, of_decide_eq_true checks, (scan_tiles scanned).1⟩

end Token

end Heed
