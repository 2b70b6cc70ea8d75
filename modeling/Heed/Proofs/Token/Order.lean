import Heed.Token.Scan

/-!
# Where tokens stand

The scanner lays tokens out from left to right. No token is empty, no two overlap, and each starts and ends
on a boundary between characters of the source.

What counts as a boundary is left open as `edge` until the last step: the offsets that the scanner reaches
by whole characters.
-/

set_option autoImplicit false

namespace Heed

variable {edge : Nat → Prop}

/-- A token that stands at or behind an offset. -/
structure Token.Stands (edge : Nat → Prop) (low : Nat) (token : Token) : Prop where
  low_le : low ≤ token.span.start
  nonempty : token.span.start < token.span.stop
  edge_start : edge token.span.start
  edge_stop : edge token.span.stop
  spread_width : token.kind = .symbol .spread → token.span.start + 3 = token.span.stop

/-- Tokens that stand one behind the other, from an offset on. -/
def Token.Laid (edge : Nat → Prop) : Nat → List Token → Prop
  | _, [] => True
  | low, token :: rest => token.Stands edge low ∧ Laid edge token.span.stop rest

namespace Token

theorem Laid.lower {low bound : Nat} {tokens : List Token} (le : bound ≤ low)
    (laid : Laid edge low tokens) : Laid edge bound tokens := by
  cases tokens with
  | nil => trivial
  | cons token rest =>
      obtain ⟨stands, behind⟩ := laid
      exact ⟨{ stands with low_le := Nat.le_trans le stands.low_le }, behind⟩

theorem Laid.filter {low : Nat} {tokens : List Token} (laid : Laid edge low tokens)
    (keep : Token → Bool) : Laid edge low (tokens.filter keep) := by
  induction tokens generalizing low with
  | nil => trivial
  | cons token rest ih =>
      obtain ⟨stands, behind⟩ := laid
      rw [List.filter_cons]
      split
      · exact ⟨stands, ih behind⟩
      · have low_le : low ≤ token.span.stop :=
          Nat.le_trans stands.low_le (Nat.le_of_lt stands.nonempty)
        exact (ih behind).lower low_le

/-! ## The scanner -/

theorem byteLength_append (left right : List Char) :
    byteLength (left ++ right) = byteLength left + byteLength right := by
  induction left with
  | nil => simp [byteLength]
  | cons char rest ih =>
      simp only [List.cons_append, byteLength, ih]
      omega

theorem byteLength_take (chars : List Char) (first second : Nat) :
    byteLength (chars.take first) + byteLength ((chars.drop first).take second) =
      byteLength (chars.take (first + second)) := by
  rw [← byteLength_append, List.take_add]

theorem byteLength_pos (char : Char) (rest : List Char) : 0 < byteLength (char :: rest) := by
  have := char.utf8Size_pos
  simp only [byteLength]
  omega

/-- Of all steps, only the last one makes symbols. -/
theorem symbolStep_of_symbol {char : Char} {rest : List Char} {length : Nat} {sign : Symbol}
    (found : step char rest = .token (.symbol sign) length) :
    symbolStep char rest = .token (.symbol sign) length := by
  have notWord : ∀ text, wordKind text ≠ .symbol sign := by
    intro text
    unfold wordKind
    split <;> simp
  have notQuoted : quotedStep char rest ≠ .token (.symbol sign) length := by
    unfold quotedStep
    dsimp only
    split <;> simp
  have notComment : commentStep rest ≠ .token (.symbol sign) length := by
    unfold commentStep
    split
    · simp
    · split <;> simp
  unfold step at found
  repeat' split at found
  all_goals first
    | exact found
    | simp [notWord, notQuoted, notComment] at found

/-- Three dots take three bytes. -/
theorem byteLength_of_spread {char : Char} {rest : List Char} {length : Nat}
    (found : step char rest = .token (.symbol .spread) length) :
    byteLength (char :: rest.take length) = 3 := by
  have symbolic := symbolStep_of_symbol found
  unfold symbolStep at symbolic
  split at symbolic
  case h_2 => simp at symbolic
  case h_1 symbol atHead =>
      obtain ⟨rfl, rfl⟩ : symbol = .spread ∧ symbol.text.length - 1 = length := by
        simpa using symbolic
      have dots := List.find?_some atHead
      obtain ⟨behind, same⟩ := List.isPrefixOf_iff_prefix.mp dots
      obtain ⟨rfl, rfl⟩ := List.cons.inj same
      rfl

/-- Behind the characters of one step the boundaries are those of the rest. -/
theorem edges_behind {start : Nat} {char : Char} {rest : List Char} (length : Nat)
    (edges : ∀ count, edge (start + byteLength ((char :: rest).take count))) (count : Nat) :
    edge (start + byteLength (char :: rest.take length) + byteLength ((rest.drop length).take count)) := by
  have edges := edges (1 + length + count)
  rw [← byteLength_take, Nat.add_comm 1] at edges
  rwa [Nat.add_assoc]

theorem laid_scanFrom {start : Nat} {chars : List Char} {tokens : List Token}
    (edges : ∀ count, edge (start + byteLength (chars.take count)))
    (scanned : scanFrom start chars = .ok tokens) : Laid edge start tokens := by
  fun_induction scanFrom start chars generalizing tokens with
  | case1 =>
      cases scanned
      trivial
  | case2 start char rest length found ih => exact (ih (edges_behind length edges) scanned).lower (by omega)
  | case3 start char rest kind length found chars stop others scannedRest =>
      rename_i ih
      cases scanned
      have edges' := edges_behind length edges
      have positive := byteLength_pos char (rest.take length)
      refine ⟨⟨Nat.le_refl _, ?_, ?_, ?_, ?_⟩, ih edges' scannedRest⟩
      · change start < start + byteLength (char :: rest.take length)
        omega
      · simpa [byteLength] using edges 0
      · simpa [byteLength, stop, chars] using edges' 0
      · intro spread
        change kind = _ at spread
        subst spread
        rw [← byteLength_of_spread found]
  | case4 => cases scanned
  | case5 => cases scanned

/-- What the scanner refuses stands between characters, too. -/
theorem edges_of_scanFrom_error {start : Nat} {chars : List Char} {error : SyntaxError}
    (edges : ∀ count, edge (start + byteLength (chars.take count)))
    (refused : scanFrom start chars = .error error) :
    error.span.start ≤ error.span.stop ∧ edge error.span.start ∧ edge error.span.stop := by
  fun_induction scanFrom start chars generalizing error with
  | case1 => cases refused
  | case2 start char rest length found ih => exact ih (edges_behind length edges) refused
  | case3 => cases refused
  | case4 start char rest kind length found chars stop failure failed =>
      rename_i ih
      cases refused
      exact ih (edges_behind length edges) failed
  | case5 start char rest cause length found =>
      cases refused
      refine ⟨Nat.le_add_right _ _, ?_, ?_⟩
      · simpa [byteLength] using edges 0
      · simpa [byteLength] using edges_behind length edges 0

end Token

/-- A boundary between characters of a source, the ends of the source included. -/
def IsBoundary (source : String) (offset : Nat) : Prop := (String.Pos.Raw.mk offset).IsValid source

theorem IsBoundary.le_size {source : String} {offset : Nat} (boundary : IsBoundary source offset) :
    offset ≤ source.utf8ByteSize := boundary.le_utf8ByteSize

theorem utf8ByteSize_ofList (chars : List Char) :
    (String.ofList chars).utf8ByteSize = byteLength chars := by
  induction chars with
  | nil => rfl
  | cons char rest ih =>
      rw [String.ofList_cons, String.utf8ByteSize_append, ih, String.utf8ByteSize_singleton, byteLength]

theorem isBoundary_byteLength_take (source : String) (count : Nat) :
    IsBoundary source (byteLength (source.toList.take count)) := by
  refine String.Pos.Raw.isValid_iff_exists_append.mpr
    ⟨String.ofList (source.toList.take count), String.ofList (source.toList.drop count), ?_, ?_⟩
  · rw [← String.ofList_append, List.take_append_drop, String.ofList_toList]
  · rw [String.rawEndPos, utf8ByteSize_ofList]

theorem isBoundary_from_zero (source : String) (count : Nat) :
    IsBoundary source (0 + byteLength (source.toList.take count)) := by
  rw [Nat.zero_add]
  exact isBoundary_byteLength_take source count

/-- The tokens of a source stand one behind the other, between characters. -/
theorem Token.laid_scan {source : String} {tokens : List Token} (scanned : scan source = .ok tokens) :
    Laid (IsBoundary source) 0 tokens :=
  laid_scanFrom (isBoundary_from_zero source) scanned

end Heed
