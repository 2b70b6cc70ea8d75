import Heed.Proofs.Grammar.Statement
import Heed.Proofs.Token.Tiling

/-!
# Where a text is refused

A source is refused by the scanner, at characters from which it can make no token, or by the parser. The parser
refuses a token that it was given, or the end of the last one. It may have read on and come back any number of
times: what is in sight then was in sight from the start. In each case the refusal has a span that can be cut
out of the source.
-/

set_option autoImplicit false

namespace Heed

/-- A span that can be cut out of a source. -/
structure Span.Within (source : String) (span : Span) : Prop where
  ordered : span.start ≤ span.stop
  inside : span.stop ≤ source.utf8ByteSize
  boundary_start : IsBoundary source span.start
  boundary_stop : IsBoundary source span.stop

theorem Span.within_of_boundaries {source : String} {span : Span} (ordered : span.start ≤ span.stop)
    (starts : IsBoundary source span.start) (stops : IsBoundary source span.stop) : span.Within source :=
  ⟨ordered, stops.le_size, starts, stops⟩

theorem Token.within_of_scan {source : String} {tokens : List Token} (scanned : scan source = .ok tokens) :
    ∀ token ∈ tokens, token.span.Within source := by
  intro token listed
  have stands := (laid_scan scanned).stands token listed
  apply Span.within_of_boundaries
  · exact Nat.le_of_lt stands.nonempty
  · exact stands.edge_start
  · exact stands.edge_stop

theorem Token.within_of_scan_error {source : String} {error : SyntaxError} (refused : scan source = .error error) :
    error.span.Within source := by
  obtain ⟨ordered, starts, stops⟩ := edges_of_scanFrom_error (isBoundary_from_zero source) refused
  exact Span.within_of_boundaries ordered starts stops

/-- The end of the tokens of a source is a boundary, be there none. -/
theorem Cursor.isBoundary_sourceEnd {source : String} {tokens : List Token}
    (within : ∀ token ∈ tokens, token.span.Within source) : IsBoundary source (ofTokens tokens).sourceEnd := by
  unfold ofTokens
  cases last : tokens.getLast? with
  | none => exact String.Pos.Raw.isValid_zero
  | some token => exact (within token (List.mem_of_getLast? last)).boundary_stop

/-- What a cursor has in sight at the head of the tokens. -/
theorem Cursor.InSight.within {source : String} {tokens : List Token} {span : Span}
    (within : ∀ token ∈ tokens, token.span.Within source) (inSight : (ofTokens tokens).InSight span) :
    span.Within source := by
  rcases inSight with ⟨token, listed, rfl⟩ | rfl
  · exact within token listed
  · have ends := isBoundary_sourceEnd within
    exact Span.within_of_boundaries (Nat.le_refl _) ends ends

/-- The parser refuses what it has in sight from the start, however it came there. -/
theorem Tree.inSight_of_ofTokens_error {tokens : List Token} {sourceLength : Nat} {error : SyntaxError}
    (refused : ofTokens tokens sourceLength = .error error) : (Cursor.ofTokens tokens).InSight error.span := by
  have makes := Grammar.makes_program (Grammar.makeTrees_productions (tokens.length + 1)) sourceLength
  have stays := makes.safe ⟨Cursor.ofTokens tokens, #[]⟩ fun _ listed => absurd listed List.not_mem_nil
  unfold ofTokens at refused
  split at refused
  case h_1 => cases refused
  case h_2 failure failed =>
      obtain rfl := Except.error.inj refused
      exact (stays.of_error failed).2

/-- A source is refused at a span that can be cut out of it: its ends are in order, inside the source and
between two characters. -/
theorem Tree.parse_error_span (source : String) (error : SyntaxError) (refused : parse source = .error error) :
    error.span.start ≤ error.span.stop ∧ error.span.stop ≤ source.utf8ByteSize ∧
      IsBoundary source error.span.start ∧ IsBoundary source error.span.stop := by
  suffices within : error.span.Within source from
    ⟨within.ordered, within.inside, within.boundary_start, within.boundary_stop⟩
  unfold parse at refused
  split at refused
  case h_1 tokens scanned =>
      exact (inSight_of_ofTokens_error refused).within (Token.within_of_scan scanned)
  case h_2 failure failed =>
      obtain rfl := Except.error.inj refused
      exact Token.within_of_scan_error failed

/-- A group that was first read as parameters, with a function in it that is read twice, is refused behind a
character of two bytes. -/
theorem Tree.parse_error_span_of_group :
    ∃ error, parse "x = ((a = 'é') => b c" = .error error ∧ error.span = ⟨21, 22⟩ ∧
      IsBoundary "x = ((a = 'é') => b c" error.span.start := by
  have refuses : (parse "x = ((a = 'é') => b c").map (fun _ => ()) =
      .error ⟨.expected (.symbol .parenClose) (some (.name "c")), ⟨21, 22⟩⟩ := by
    decide +kernel
  cases refused : parse "x = ((a = 'é') => b c" with
  | ok =>
      rw [refused] at refuses
      cases refuses
  | error error =>
      obtain ⟨-, -, starts, -⟩ := parse_error_span _ error refused
      rw [refused] at refuses
      exact ⟨error, rfl, congrArg SyntaxError.span (Except.error.inj refuses), starts⟩

end Heed
