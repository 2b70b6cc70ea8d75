import Heed.Proofs.Token.Alike
import Heed.Proofs.Token.Order
import Heed.Proofs.Token.Spelling

/-!
# The start of a text

Characters open a text as a row of tokens if the scanner reads this row whatever follows, and then goes on
behind them. What it reads there does not depend on the place, up to the spans of the tokens.
-/

set_option autoImplicit false

namespace Heed.Token

/-- A space separates tokens and is dropped, be it the first one of several blanks. -/
theorem scanFrom_blank (start : Nat) (chars : List Char) :
    scanFrom start (' ' :: chars) = scanFrom (start + 1) chars := by
  have width : ∀ chars, byteLength (' ' :: chars) = 1 + byteLength chars := fun _ => rfl
  have skips : step ' ' chars = .skip (runLength isBlank chars) := rfl
  rw [scanFrom, skips]
  dsimp only
  rw [width, ← Nat.add_assoc]
  cases chars with
  | nil => rfl
  | cons char rest =>
      cases blank : isBlank char with
      | true =>
          have run : runLength isBlank (char :: rest) = runLength isBlank rest + 1 := by
            rw [runLength, runLength, List.takeWhile_cons, if_pos blank, List.length_cons]
          have skips : step char rest = .skip (runLength isBlank rest) := by
            rw [step, if_pos blank]
          rw [run, List.take_succ_cons, List.drop_succ_cons]
          conv => rhs; rw [scanFrom, skips]
      | false =>
          have run : runLength isBlank (char :: rest) = 0 := by
            rw [runLength, List.takeWhile_cons, if_neg (by simp [blank]), List.length_nil]
          rw [run]
          rfl

/-! ## The place of a text -/

/-- What is scanned elsewhere differs only in its spans. -/
theorem scanFrom_alike {start : Nat} {chars : List Char} {tokens : List Token}
    (scanned : scanFrom start chars = .ok tokens) (start' : Nat) :
    ∃ tokens', scanFrom start' chars = .ok tokens' ∧ Alike tokens tokens' := by
  fun_induction scanFrom start chars generalizing tokens start' with
  | case1 =>
      cases scanned
      exact ⟨[], by rw [scanFrom], .nil⟩
  | case2 start char rest length found ih =>
      obtain ⟨tokens', elsewhere, alike⟩ := ih scanned (start' + byteLength (char :: rest.take length))
      refine ⟨tokens', ?_, alike⟩
      rw [scanFrom, found]
      exact elsewhere
  | case3 start char rest kind length found chars stop others scannedRest =>
      rename_i ih
      cases scanned
      obtain ⟨tokens', elsewhere, alike⟩ := ih scannedRest (start' + byteLength chars)
      refine ⟨⟨kind, ⟨start', start' + byteLength chars⟩, String.ofList chars⟩ :: tokens', ?_, ?_⟩
      · rw [scanFrom, found]
        dsimp only
        rw [elsewhere]
      · by_cases isLine : kind = .newline
        · subst isLine
          exact .line rfl rfl alike.dropWhile
        · exact .word _ (beq_eq_false_iff_ne.mpr isLine) alike
  | case4 => cases scanned
  | case5 => cases scanned

theorem alike_of_scanFrom {start start' : Nat} {chars : List Char} {tokens tokens' : List Token}
    (scanned : scanFrom start chars = .ok tokens) (scanned' : scanFrom start' chars = .ok tokens') :
    Alike tokens tokens' := by
  obtain ⟨_, elsewhere, alike⟩ := scanFrom_alike scanned start'
  obtain rfl := Except.ok.inj (scanned'.symm.trans elsewhere)
  exact alike

/-! ## Openings -/

/-- The scanner reads these characters as `row`, which depends on where they stand, whatever follows. -/
def Opens (chars : List Char) (row : Nat → List Token) : Prop :=
  ∀ start tail, scanFrom start (chars ++ tail) =
    (scanFrom (start + byteLength chars) tail).map (row start ++ ·)

def before (kind : Kind) (text : String) (row : Nat → List Token) (start : Nat) : List Token :=
  let stop := start + byteLength text.toList
  ⟨kind, ⟨start, stop⟩, text⟩ :: row stop

namespace Opens

variable {chars : List Char} {row : Nat → List Token}

theorem nothing : Opens [] fun _ => [] := by
  intro start tail
  change scanFrom start tail = (scanFrom start tail).map _
  cases scanFrom start tail <;> rfl

theorem space (opens : Opens chars row) : Opens (' ' :: chars) fun start => row (start + 1) := by
  intro start tail
  have stop : start + byteLength (' ' :: chars) = start + 1 + byteLength chars := (Nat.add_assoc _ _ _).symm
  rw [stop, ← opens (start + 1) tail]
  exact scanFrom_blank start (chars ++ tail)

theorem token {first : Char} {rest : List Char} {kind : Kind} (text : String) (spells : text.toList = first :: rest)
    (found : ∀ tail, step first (rest ++ (chars ++ tail)) = .token kind rest.length) (opens : Opens chars row) :
    Opens (text.toList ++ chars) (before kind text row) := by
  intro start tail
  have text_eq : String.ofList (first :: rest) = text := by rw [← spells, String.ofList_toList]
  rw [byteLength_append, ← Nat.add_assoc, List.append_assoc]
  conv => lhs; rw [spells, List.cons_append, scanFrom, found tail]
  simp only [List.take_left, List.drop_left, text_eq]
  rw [← spells, opens]
  cases scanFrom (start + byteLength text.toList + byteLength chars) tail <;> rfl

/-- A word ends before a character that is no part of it. -/
theorem word (text : String) {next : Char} (isWord : isWordText text = true) (ends : isNamePart next = false)
    (opens : Opens (next :: chars) row) :
    Opens (text.toList ++ next :: chars) (before (wordKind text) text row) := by
  obtain ⟨first, rest, spells, -, found⟩ := step_of_word isWord
  refine token text spells (fun tail => found _ ?_) opens
  exact List.takeWhile_cons_of_neg (by simp [ends])

theorem name (word : Name) {next : Char} (ends : isNamePart next = false) (opens : Opens (next :: chars) row) :
    Opens (word.text.toList ++ next :: chars) (before (.name word.text) word.text row) := by
  have kind : wordKind word.text = .name word.text := by rw [wordKind, word.unreserved]
  exact kind ▸ opens.word word.text word.isWord ends

/-- A source is scanned as its start and then as what follows. -/
theorem scan_append (opens : Opens chars row) {front : String} (spells : front.toList = chars) (text : String) :
    scan (front ++ text) = (scanFrom (byteLength chars) text.toList).map (row 0 ++ ·) := by
  rw [scan, String.toList_append, spells, opens, Nat.zero_add]

end Opens

end Heed.Token
