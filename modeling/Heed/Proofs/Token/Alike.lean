import Heed.Proofs.Grammar.Reading

/-!
# Tokens apart from layout

Two rows of tokens are alike if they differ only in where their tokens stand and in how many newlines follow
each other. `contents` is what such rows share. Looking ahead in alike rows finds the same: the same token next,
the same token behind others, the same end of a group.
-/

set_option autoImplicit false

namespace Heed

namespace Token

/-! ## Rows and their contents -/

/-- A row with one newline for each run of newlines. -/
def collapse : List Token → List Token
  | [] => []
  | token :: rest =>
      if token.isNewline && rest.head?.any isNewline then collapse rest else token :: collapse rest

/-- What a token is, with the value of a literal, and its text. How a newline is written does not count. -/
def content (token : Token) : Kind × String := (token.kind, if token.isNewline then "" else token.text)

def contents (tokens : List Token) : List (Kind × String) := (collapse tokens).map content

/-- Rows that differ only in the spans of tokens and in the lengths of runs of newlines. -/
inductive Alike : List Token → List Token → Prop where
  | nil : Alike [] []
  | word {token : Token} (span : Span) {left right : List Token} (significant : token.isNewline = false)
      (rest : Alike left right) : Alike (token :: left) ({ token with span } :: right)
  | line {first second : Token} {left right : List Token} (isLine : first.isNewline = true)
      (isLine' : second.isNewline = true)
      (rest : Alike (left.dropWhile isNewline) (right.dropWhile isNewline)) :
      Alike (first :: left) (second :: right)

theorem collapse_cons_word {token : Token} (significant : token.isNewline = false) (rest : List Token) :
    collapse (token :: rest) = token :: collapse rest := by
  rw [collapse, significant, Bool.false_and]
  rfl

theorem contents_cons_word {token : Token} (significant : token.isNewline = false) (rest : List Token) :
    contents (token :: rest) = (token.kind, token.text) :: contents rest := by
  rw [contents, collapse_cons_word significant, List.map_cons, content, significant]
  rfl

/-- A run of newlines counts as one. -/
theorem contents_cons_line {token : Token} (isLine : token.isNewline = true) (rest : List Token) :
    contents (token :: rest) = (.newline, "") :: contents (rest.dropWhile isNewline) := by
  have kind_eq : ∀ {token : Token}, token.isNewline = true → token.content = (.newline, "") := by
    intro token isLine
    rw [content, isLine, eq_of_beq (show (token.kind == .newline) = true from isLine)]
    rfl
  induction rest generalizing token with
  | nil =>
      rw [contents, collapse, Bool.and_comm]
      simp [kind_eq isLine, collapse, contents]
  | cons next rest ih =>
      cases isNext : next.isNewline with
      | true =>
          have both : contents (token :: next :: rest) = contents (next :: rest) := by
            rw [contents, collapse, isLine]
            simp [isNext, contents]
          rw [both, ih isNext, List.dropWhile_cons, if_pos isNext]
      | false =>
          rw [contents, collapse, isLine]
          simp [isNext, contents, kind_eq isLine]

theorem contents_cons_ne_nil (token : Token) (rest : List Token) : contents (token :: rest) ≠ [] := by
  cases isLine : token.isNewline with
  | true => simp [contents_cons_line isLine]
  | false => simp [contents_cons_word isLine]

/-- The head of the contents says whether a newline comes first. -/
theorem isNewline_eq_of_contents {first second : Token} {left right : List Token}
    (same : contents (first :: left) = contents (second :: right)) :
    first.isNewline = second.isNewline := by
  have head_kind : ∀ (token : Token) (rest : List Token),
      ((contents (token :: rest)).head?.map Prod.fst) = some token.kind := by
    intro token rest
    cases isLine : token.isNewline with
    | true =>
        have kind_eq : token.kind = .newline := eq_of_beq isLine
        simp [contents_cons_line isLine, kind_eq]
    | false => simp [contents_cons_word isLine]
  have kind_eq : some first.kind = some second.kind := by
    rw [← head_kind first left, ← head_kind second right, same]
  rw [isNewline, isNewline, Option.some.inj kind_eq]

/-- Rows with the same contents are alike. -/
theorem alike_of_contents (left right : List Token) (same : contents left = contents right) :
    Alike left right := by
  -- a run of newlines goes at one stroke, so the induction is on the length and not on the row
  induction count : left.length using Nat.strongRecOn generalizing left right with
  | ind count ih =>
      cases left with
      | nil =>
          cases right with
          | nil => exact .nil
          | cons second right => exact absurd same.symm (contents_cons_ne_nil second right)
      | cons first left =>
          cases right with
          | nil => exact absurd same (contents_cons_ne_nil first left)
          | cons second right =>
              rw [List.length_cons] at count
              have kinds := isNewline_eq_of_contents same
              cases isLine : first.isNewline with
              | true =>
                  have isLine' := kinds.symm.trans isLine
                  rw [contents_cons_line isLine, contents_cons_line isLine'] at same
                  have shorter := (List.dropWhile_sublist isNewline (l := left)).length_le
                  exact .line isLine isLine' (ih _ (by omega) _ _ (List.cons.inj same).2 rfl)
              | false =>
                  have isLine' := kinds.symm.trans isLine
                  rw [contents_cons_word isLine, contents_cons_word isLine'] at same
                  obtain ⟨content_eq, rest_eq⟩ := List.cons.inj same
                  obtain ⟨kind_eq, text_eq⟩ := Prod.mk.inj content_eq
                  have same : second = { first with span := second.span } := by
                    rw [kind_eq, text_eq]
                  rw [same]
                  exact .word _ isLine (ih _ (by omega) _ _ rest_eq rfl)

/-! ## Newlines are passed over -/

theorem nthOf_dropWhile (n : Nat) (row : List Token) :
    Cursor.nthOf n (row.dropWhile isNewline) = Cursor.nthOf n row := by
  induction row with
  | nil => rfl
  | cons token row ih =>
      cases isLine : token.isNewline with
      | true =>
          rw [List.dropWhile_cons_of_pos isLine, ih]
          cases n with
          | zero => simp [Cursor.nthOf, isLine]
          | succ n => simp [Cursor.nthOf, isLine]
      | false => rw [List.dropWhile_cons_of_neg (by simp [isLine])]

theorem not_isSymbol_of_isNewline {token : Token} (isLine : token.isNewline = true) (sign : Symbol) :
    token.isSymbol sign = false := by
  simp [isSymbol, eq_of_beq (show (token.kind == .newline) = true from isLine)]

theorem closeGroup_dropWhile (openSign closeSign : Symbol) (depth : Nat) (row : List Token) :
    Cursor.closeGroup openSign closeSign depth (row.dropWhile isNewline) =
      Cursor.closeGroup openSign closeSign depth row := by
  induction row with
  | nil => rfl
  | cons token row ih =>
      cases isLine : token.isNewline with
      | true =>
          have unsigned : ∀ sign, ¬ token.isSymbol sign = true := fun sign => by
            simp [not_isSymbol_of_isNewline isLine]
          rw [List.dropWhile_cons_of_pos isLine, ih, Cursor.closeGroup_of_other (unsigned _) (unsigned _)]
      | false => rw [List.dropWhile_cons_of_neg (by simp [isLine])]

/-! ## What does not depend on the place of a token -/

def Respans (token token' : Token) : Prop := ∃ span, token' = { token with span }

theorem Respans.eq {β : Type} {token token' : Token} (same : Respans token token') (view : Token → β)
    (blind : ∀ token span, view { token with span } = view token) : view token = view token' := by
  obtain ⟨span, rfl⟩ := same
  exact (blind token span).symm

/-- A test that neither the place nor the spelling of a token can change. -/
def ByKind (test : Token → Bool) : Prop :=
  ∀ (token : Token) span text, test { token with span, text } = test token

theorem ByKind.any {test : Token → Bool} (byKind : ByKind test) {left right : Option Token}
    (same : left.map kind = right.map kind) : left.any test = right.any test := by
  cases left with
  | none =>
      cases right with
      | none => rfl
      | some second => cases same
  | some first =>
      cases right with
      | none => cases same
      | some second =>
          have kind_eq : first.kind = second.kind := Option.some.inj same
          calc test first
            _ = test { second with span := first.span, text := first.text } := by rw [← kind_eq]
            _ = test second := byKind second first.span first.text

namespace Alike

variable {left right : List Token}

theorem dropWhile (alike : Alike left right) :
    Alike (left.dropWhile isNewline) (right.dropWhile isNewline) := by
  cases alike with
  | nil => exact .nil
  | @word token span left right significant rest =>
      have significant' : isNewline { token with span } = false := significant
      rw [List.dropWhile_cons_of_neg (by simp [significant]),
        List.dropWhile_cons_of_neg (by simp [significant'])]
      exact .word span significant rest
  | line isLine isLine' rest =>
      rw [List.dropWhile_cons_of_pos isLine, List.dropWhile_cons_of_pos isLine']
      exact rest

/-- The next tokens of alike rows. -/
theorem significant_cases (alike : Alike left right) :
    left.dropWhile isNewline = [] ∧ right.dropWhile isNewline = [] ∨
      ∃ token span left' right', token.isNewline = false ∧ Alike left' right' ∧
        left.dropWhile isNewline = token :: left' ∧
        right.dropWhile isNewline = { token with span } :: right' := by
  have dropped := alike.dropWhile
  have first := List.head?_dropWhile_not isNewline left
  generalize left.dropWhile isNewline = left at dropped first ⊢
  generalize right.dropWhile isNewline = right at dropped ⊢
  cases dropped with
  | nil => exact .inl ⟨rfl, rfl⟩
  | word span significant rest => exact .inr ⟨_, span, _, _, significant, rest, rfl, rfl⟩
  | line isLine _ _ => simp [isLine] at first

theorem length_filter (alike : Alike left right) :
    (left.filter fun token => !token.isNewline).length =
      (right.filter fun token => !token.isNewline).length := by
  induction alike with
  | nil => rfl
  | @word token span left right significant rest ih =>
      have significant' : isNewline { token with span } = false := significant
      simp [significant, significant', ih]
  | @line first second left right isLine isLine' rest ih =>
      rw [← Cursor.filter_dropWhile_newline, ← Cursor.filter_dropWhile_newline] at ih
      simp [isLine, isLine', ih]

/-! ## Looking ahead -/

theorem head?_kind (alike : Alike left right) : left.head?.map kind = right.head?.map kind := by
  cases alike with
  | nil => rfl
  | word => rfl
  | line isLine isLine' _ => simp [eq_of_beq isLine, eq_of_beq isLine']

/-- The very next tokens, be they newlines. -/
theorem head?_cases (alike : Alike left right) :
    left.head? = none ∧ right.head? = none ∨
      ∃ kind span text span' text',
        left.head? = some ⟨kind, span, text⟩ ∧ right.head? = some ⟨kind, span', text'⟩ := by
  have kinds := alike.head?_kind
  cases next : left.head? with
  | none =>
      rw [next] at kinds
      exact .inl ⟨rfl, Option.map_eq_none_iff.mp kinds.symm⟩
  | some token =>
      rw [next] at kinds
      obtain ⟨token', next', kind_eq⟩ := Option.map_eq_some_iff.mp kinds.symm
      refine .inr ⟨token.kind, token.span, token.text, token'.span, token'.text, rfl, ?_⟩
      rw [next', ← kind_eq]

theorem nthOf_kind (alike : Alike left right) (n : Nat) :
    (Cursor.nthOf n left).map kind = (Cursor.nthOf n right).map kind := by
  induction alike generalizing n with
  | nil => rfl
  | @word token span left right significant rest ih =>
      have significant' : isNewline { token with span } = false := significant
      cases n with
      | zero => simp [Cursor.nthOf, significant, significant']
      | succ n => simpa [Cursor.nthOf, significant, significant'] using ih n
  | line isLine isLine' rest ih =>
      rw [← nthOf_dropWhile, ← nthOf_dropWhile _ (_ :: _), List.dropWhile_cons_of_pos isLine,
        List.dropWhile_cons_of_pos isLine']
      exact ih n

inductive Ends : Cursor.Closing → Cursor.Closing → Prop where
  | found {token : Token} {left right : List Token} (span : Span) (behind : Alike left right) :
      Ends (.found token left) (.found { token with span } right)
  | missing : Ends .missing .missing
  | underflow : Ends .underflow .underflow

theorem closeGroup (alike : Alike left right) (openSign closeSign : Symbol) (depth : Nat) :
    Ends (Cursor.closeGroup openSign closeSign depth left)
      (Cursor.closeGroup openSign closeSign depth right) := by
  induction alike generalizing depth with
  | nil => exact .missing
  | @word token span left right significant rest ih =>
      have same : ∀ sign, isSymbol { token with span } sign = token.isSymbol sign := fun _ => rfl
      by_cases opens : token.isSymbol openSign = true
      · rw [Cursor.closeGroup_of_open opens, Cursor.closeGroup_of_open ((same _).trans opens)]
        exact ih (depth + 1)
      · have opens' : ¬ isSymbol { token with span } openSign = true := opens
        by_cases closes : token.isSymbol closeSign = true
        · have closes' : isSymbol { token with span } closeSign = true := closes
          cases depth with
          | zero =>
              rw [Cursor.closeGroup_zero_of_close opens closes, Cursor.closeGroup_zero_of_close opens' closes']
              exact .underflow
          | succ depth =>
              cases depth with
              | zero =>
                  rw [Cursor.closeGroup_one_of_close opens closes,
                    Cursor.closeGroup_one_of_close opens' closes']
                  exact .found span rest
              | succ depth =>
                  rw [Cursor.closeGroup_succ_of_close opens closes,
                    Cursor.closeGroup_succ_of_close opens' closes']
                  exact ih (depth + 1)
        · rw [Cursor.closeGroup_of_other opens closes, Cursor.closeGroup_of_other opens' closes]
          exact ih depth
  | line isLine isLine' rest ih =>
      rw [← closeGroup_dropWhile _ _ _ (_ :: _), ← closeGroup_dropWhile _ _ _ (_ :: _),
        List.dropWhile_cons_of_pos isLine, List.dropWhile_cons_of_pos isLine']
      exact ih depth

end Alike

end Token

end Heed
