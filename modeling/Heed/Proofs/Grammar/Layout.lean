import Heed.Proofs.Grammar.Building
import Heed.Proofs.Token.Order
import Heed.Proofs.Tree.Geometry

/-!
# How builders lay out nodes

While nodes are built, what a production has in hand stands in a row: tokens that were taken, nodes that
were built of them, and marks for offsets at which something is to start. The row runs from left to right,
and the tokens ahead stand behind it.

`Lays` says that a builder takes the row `ins` to a row that holds the nodes `outs`, at or behind whatever
offset bounds the first row, and that all nodes of the table sit well if they did before. What ends before that
offset is left alone. The rules of `Lays` follow the shape of the builders. A new node that spans the row in
hand holds its children in order, because they stand in that row, and with them what hangs below them.
-/

set_option autoImplicit false

namespace Heed

variable {edge : Nat → Prop}

/-! ## Moving over tokens that are laid out -/

theorem Token.Laid.behind {low : Nat} {taken rest : List Token}
    (laid : Token.Laid edge low (taken ++ rest)) :
    Token.Laid edge (endOf low taken) rest ∧ low ≤ endOf low taken ∧
      (edge low → edge (endOf low taken)) ∧ ∀ token ∈ taken, token.span.stop ≤ endOf low taken := by
  induction taken generalizing low with
  | nil => exact ⟨laid, Nat.le_refl _, id, by simp⟩
  | cons token taken ih =>
      obtain ⟨stands, laid⟩ := laid
      obtain ⟨laid, le, isEdge, last⟩ := ih laid
      have := stands.low_le
      have := stands.nonempty
      refine ⟨laid, ?_, fun _ => isEdge stands.edge_stop, ?_⟩
      · change low ≤ endOf token.span.stop taken
        omega
      · intro other member
        rcases List.mem_cons.mp member with rfl | member
        · exact le
        · exact last other member

theorem Cursor.Advances.laid {strict : Bool} {before after : Cursor}
    (advances : before.Advances strict after) {low : Nat} (laid : Token.Laid edge low before.tokens) :
    Token.Laid edge low after.tokens := by
  obtain ⟨taken, tokens_eq, -⟩ := advances.taken
  rw [tokens_eq] at laid
  exact laid.behind.1.lower laid.behind.2.1

/-! ## Drafts -/

/-- The tokens ahead of a draft are laid out behind those that were taken, and its nodes sit well. -/
structure Sound (edge : Nat → Prop) (draft : Draft) : Prop where
  laid : Token.Laid edge draft.cursor.lastEnd draft.cursor.tokens
  edge_lastEnd : edge draft.cursor.lastEnd
  settled : Settled edge draft.nodes

/-- A draft that was built from another one. What ends at or before an offset was left alone. -/
structure Extends (low : Nat) (before after : Draft) : Prop where
  advances : before.cursor.Advances false after.cursor
  keeps : Keeps before.nodes after.nodes
  spares : Spares low before.nodes after.nodes

namespace Extends

variable {low : Nat} {first second third : Draft}

theorem refl (low : Nat) (draft : Draft) : Extends low draft draft := ⟨.refl _, .refl _, .refl _ _⟩

theorem trans (left : Extends low first second) (right : Extends low second third) : Extends low first third :=
  ⟨left.advances.trans right.advances, left.keeps.trans right.keeps, left.spares.trans left.keeps right.spares⟩

theorem lower {bound : Nat} (le : bound ≤ low) (extends_ : Extends low first second) :
    Extends bound first second :=
  { extends_ with spares := extends_.spares.lower le }

theorem ofRead {strict : Bool} {draft : Draft} {cursor : Cursor}
    (advances : draft.cursor.Advances strict cursor) : Extends low draft { draft with cursor } :=
  ⟨advances.weaken, .refl _, .refl _ _⟩

theorem lastEnd_le (extends_ : Extends low first second) (sound : Sound edge first) :
    first.cursor.lastEnd ≤ second.cursor.lastEnd := by
  obtain ⟨taken, tokens_eq, lastEnd_eq, -⟩ := extends_.advances.taken
  have laid := sound.laid
  rw [tokens_eq] at laid
  rw [lastEnd_eq]
  exact laid.behind.2.1

end Extends

theorem Sound.advance {draft : Draft} (sound : Sound edge draft) {strict : Bool} {cursor : Cursor}
    (advances : draft.cursor.Advances strict cursor) : Sound edge { draft with cursor } := by
  obtain ⟨taken, tokens_eq, lastEnd_eq, -⟩ := advances.taken
  have laid := sound.laid
  rw [tokens_eq] at laid
  obtain ⟨laid, -, isEdge, -⟩ := laid.behind
  refine ⟨?_, ?_, sound.settled⟩
  · exact lastEnd_eq ▸ laid
  · exact lastEnd_eq ▸ isEdge sound.edge_lastEnd

/-! ## Rows -/

/-- What a production has in hand. -/
inductive Entry where
  /-- An offset where something is to start. -/
  | mark (offset : Nat)
  /-- Tokens that were taken. -/
  | text (span : Span)
  /-- A node that was built. -/
  | node (span : Span) (id : Nat)
  /-- A node that was built without children. -/
  | leaf (span : Span) (id : Nat)

namespace Entry

def start : Entry → Nat
  | .mark offset => offset
  | .text span => span.start
  | .node span _ | .leaf span _ => span.start

def stop : Entry → Nat
  | .mark offset => offset
  | .text span => span.stop
  | .node span _ | .leaf span _ => span.stop

def isSolid : Entry → Bool
  | .mark _ => false
  | _ => true

def id? : Entry → Option Nat
  | .node _ id | .leaf _ id => some id
  | _ => none

def ids (entries : List Entry) : List Nat := entries.filterMap id?

@[simp] theorem ids_nil : ids [] = [] := rfl

@[simp] theorem ids_mark (offset : Nat) (rest : List Entry) : ids (.mark offset :: rest) = ids rest := rfl

@[simp] theorem ids_text (span : Span) (rest : List Entry) : ids (.text span :: rest) = ids rest := rfl

@[simp] theorem ids_node (span : Span) (id : Nat) (rest : List Entry) :
    ids (.node span id :: rest) = id :: ids rest := rfl

@[simp] theorem ids_leaf (span : Span) (id : Nat) (rest : List Entry) :
    ids (.leaf span id :: rest) = id :: ids rest := rfl

@[simp] theorem ids_append (left right : List Entry) : ids (left ++ right) = ids left ++ ids right :=
  List.filterMap_append

structure Taken (edge : Nat → Prop) (draft : Draft) (span : Span) : Prop where
  nonempty : span.start < span.stop
  edge_start : edge span.start
  edge_stop : edge span.stop
  stop_le : span.stop ≤ draft.cursor.lastEnd

/-- A node that was built of what was taken and has no parent yet. -/
structure Loose (edge : Nat → Prop) (draft : Draft) (span : Span) (id : Nat) : Prop extends
    Taken edge draft span where
  id_lt : id < draft.nodes.size
  span_eq : spanAt draft.nodes id = span
  unowned : id ∉ owned draft.nodes

def Holds (edge : Nat → Prop) (draft : Draft) : Entry → Prop
  | .mark offset => edge offset
  | .text span => Taken edge draft span
  | .node span id => Loose edge draft span id
  | .leaf span id => Loose edge draft span id ∧ (kindAt draft.nodes id).children = []

/-- Neither an entry nor what hangs below it ends behind an offset. -/
structure Reaches (nodes : Array Node) (reach : Nat) (entry : Entry) : Prop where
  stop_le : entry.stop ≤ reach
  below_le : ∀ id ∈ entry.id?, ∀ inner, Below nodes id inner → (spanAt nodes inner).stop ≤ reach

theorem Reaches.mono {nodes : Array Node} {entry : Entry} {reach further : Nat} (le : reach ≤ further)
    (reaches : entry.Reaches nodes reach) : entry.Reaches nodes further :=
  ⟨Nat.le_trans reaches.stop_le le, fun id is inner below => Nat.le_trans (reaches.below_le id is inner below) le⟩

theorem below_le_of_mem {nodes : Array Node} {entries : List Entry} {reach : Nat}
    (reaches : ∀ entry ∈ entries, entry.Reaches nodes reach) {id inner : Nat} (listed : id ∈ ids entries)
    (below : Below nodes id inner) : (spanAt nodes inner).stop ≤ reach := by
  obtain ⟨entry, member, is⟩ := List.mem_filterMap.mp listed
  exact (reaches entry member).below_le id is inner below

variable {draft after : Draft} {entry : Entry} {low reach : Nat}

theorem Holds.taken (holds : entry.Holds edge draft) (solid : entry.isSolid = true) :
    Taken edge draft ⟨entry.start, entry.stop⟩ := by
  cases entry with
  | mark offset => simp [isSolid] at solid
  | text span => exact holds
  | node span id => exact holds.toTaken
  | leaf span id => exact holds.1.toTaken

theorem Holds.start_le_stop (holds : entry.Holds edge draft) : entry.start ≤ entry.stop := by
  cases entry with
  | mark offset => exact Nat.le_refl _
  | _ => exact Nat.le_of_lt (holds.taken rfl).nonempty

theorem Holds.edge_start (holds : entry.Holds edge draft) : edge entry.start := by
  cases entry with
  | mark offset => exact holds
  | _ => exact (holds.taken rfl).edge_start

theorem Holds.loose (holds : entry.Holds edge draft) {id : Nat} (is : entry.id? = some id) :
    entry.isSolid = true ∧ Loose edge draft ⟨entry.start, entry.stop⟩ id := by
  cases entry with
  | mark offset => simp [id?] at is
  | text span => simp [id?] at is
  | node span other =>
      obtain rfl := Option.some.inj is
      exact ⟨rfl, holds⟩
  | leaf span other =>
      obtain rfl := Option.some.inj is
      exact ⟨rfl, holds.1⟩

theorem Taken.kept {span : Span} (taken : Taken edge draft span)
    (le : draft.cursor.lastEnd ≤ after.cursor.lastEnd) : Taken edge after span :=
  { taken with stop_le := Nat.le_trans taken.stop_le le }

theorem Loose.kept {span : Span} {id : Nat} (loose : Loose edge draft span id) (sound : Sound edge draft)
    (extends_ : Extends low draft after) (ends : span.stop ≤ low) : Loose edge after span id where
  toTaken := loose.toTaken.kept (extends_.lastEnd_le sound)
  id_lt := Nat.lt_of_lt_of_le loose.id_lt extends_.keeps.size_le
  span_eq := (extends_.keeps.span_eq id loose.id_lt).trans loose.span_eq
  unowned := extends_.spares.unowned id loose.id_lt (loose.span_eq.symm ▸ ends) loose.unowned

/-- An entry that ends before what is changed. -/
theorem Holds.kept (holds : entry.Holds edge draft) (sound : Sound edge draft)
    (extends_ : Extends low draft after) (ends : entry.stop ≤ low) : entry.Holds edge after := by
  cases entry with
  | mark offset => exact holds
  | text span => exact Taken.kept holds (extends_.lastEnd_le sound)
  | node span id => exact Loose.kept holds sound extends_ ends
  | leaf span id =>
      obtain ⟨loose, childless⟩ := holds
      refine ⟨loose.kept sound extends_ ends, ?_⟩
      rw [extends_.spares.kind_eq id loose.id_lt (loose.span_eq.symm ▸ ends)]
      exact childless

theorem Reaches.kept (reaches : entry.Reaches draft.nodes reach) (holds : entry.Holds edge draft)
    (sound : Sound edge draft) (extends_ : Extends low draft after) (ends : reach ≤ low) :
    entry.Reaches after.nodes reach := by
  refine ⟨reaches.stop_le, ?_⟩
  intro id is inner below
  have id_lt := (holds.loose is).2.id_lt
  have below : Below draft.nodes id inner := by
    refine below.of_kept fun other below => ?_
    exact extends_.spares.kind_eq other (sound.settled.below_lt id_lt below)
      (Nat.le_trans (reaches.below_le id is other below) ends)
  rw [extends_.keeps.span_eq inner (sound.settled.below_lt id_lt below)]
  exact reaches.below_le id is inner below

end Entry

/-- Entries that stand one behind the other from an offset on, each with what hangs below it, and the tokens
ahead behind them. -/
def Row (edge : Nat → Prop) (draft : Draft) : Nat → List Entry → Prop
  | low, [] => Token.Laid edge low draft.cursor.tokens
  | low, entry :: rest => low ≤ entry.start ∧ entry.Holds edge draft ∧
      ∃ reach, entry.Reaches draft.nodes reach ∧ Row edge draft reach rest

namespace Row

variable {draft after : Draft} {low : Nat} {entries : List Entry}

theorem lower {bound : Nat} (le : bound ≤ low) (row : Row edge draft low entries) :
    Row edge draft bound entries := by
  cases entries with
  | nil => exact Token.Laid.lower le row
  | cons entry rest => exact ⟨Nat.le_trans le row.1, row.2⟩

/-- Behind the first entry the row goes on. -/
theorem behind {entry : Entry} (row : Row edge draft low (entry :: entries)) :
    Row edge draft entry.stop entries := by
  obtain ⟨-, -, reach, reaches, rest⟩ := row
  exact rest.lower reaches.stop_le

theorem tail {entry : Entry} (row : Row edge draft low (entry :: entries)) :
    Row edge draft low entries :=
  row.behind.lower (Nat.le_trans row.1 row.2.1.start_le_stop)

/-- Entries may be dropped. -/
theorem sublist {fewer : List Entry} (sublist : fewer.Sublist entries)
    (row : Row edge draft low entries) : Row edge draft low fewer := by
  induction sublist generalizing low with
  | slnil => exact row
  | cons entry _ ih => exact ih row.tail
  | cons_cons entry _ ih =>
      obtain ⟨le, holds, reach, reaches, rest⟩ := row
      exact ⟨le, holds, reach, reaches, ih rest⟩

/-- That a node has no children may be forgotten. -/
theorem soften {front : List Entry} {span : Span} {id : Nat}
    (row : Row edge draft low (front ++ .leaf span id :: entries)) :
    Row edge draft low (front ++ .node span id :: entries) := by
  induction front generalizing low with
  | nil =>
      obtain ⟨le, holds, reach, ⟨stop_le, below_le⟩, rest⟩ := row
      exact ⟨le, holds.1, reach, ⟨stop_le, below_le⟩, rest⟩
  | cons entry front ih =>
      obtain ⟨le, holds, reach, reaches, rest⟩ := row
      exact ⟨le, holds, reach, reaches, ih rest⟩

/-- The front of a row stays while the rest of it changes. -/
theorem frame {front : List Entry} (sound : Sound edge draft) (row : Row edge draft low (front ++ entries)) :
    ∃ middle, low ≤ middle ∧ Row edge draft middle entries ∧
      ∀ {after : Draft} {others : List Entry}, Extends middle draft after → Row edge after middle others →
        Row edge after low (front ++ others) := by
  induction front generalizing low with
  | nil => exact ⟨low, Nat.le_refl _, row, fun _ others => others⟩
  | cons entry front ih =>
      obtain ⟨le, holds, reach, reaches, rest⟩ := row
      obtain ⟨middle, reach_le, inner, back⟩ := ih rest
      have ends : entry.stop ≤ middle := Nat.le_trans reaches.stop_le reach_le
      refine ⟨middle, ?_, inner, ?_⟩
      · exact Nat.le_trans le (Nat.le_trans holds.start_le_stop ends)
      · intro after others extends_ row
        exact ⟨le, holds.kept sound extends_ ends, reach, reaches.kept holds sound extends_ reach_le,
          back extends_ row⟩

theorem of_mem (row : Row edge draft low entries) {entry : Entry} (member : entry ∈ entries) :
    low ≤ entry.start ∧ entry.Holds edge draft := by
  induction entries generalizing low with
  | nil => simp at member
  | cons first rest ih =>
      rcases List.mem_cons.mp member with rfl | member
      · exact ⟨row.1, row.2.1⟩
      · exact ih row.tail member

theorem of_id (row : Row edge draft low entries) {id : Nat} (listed : id ∈ Entry.ids entries) :
    ∃ entry ∈ entries, entry.isSolid = true ∧ low ≤ entry.start ∧
      Entry.Loose edge draft ⟨entry.start, entry.stop⟩ id := by
  obtain ⟨entry, member, is⟩ := List.mem_filterMap.mp listed
  obtain ⟨le, holds⟩ := row.of_mem member
  obtain ⟨solid, loose⟩ := holds.loose is
  exact ⟨entry, member, solid, le, loose⟩

/-- A node of a row starts behind the offset from which the row runs, and so it ends behind it. -/
theorem low_lt_stop (row : Row edge draft low entries) {id : Nat} (listed : id ∈ Entry.ids entries) :
    low ≤ (spanAt draft.nodes id).start ∧ low < (spanAt draft.nodes id).stop := by
  obtain ⟨entry, -, -, le, loose⟩ := row.of_id listed
  rw [loose.span_eq]
  exact ⟨le, Nat.lt_of_le_of_lt le loose.nonempty⟩

/-- No entry ends behind the last one. -/
theorem stop_le_last (row : Row edge draft low entries) {entry last : Entry}
    (member : entry ∈ entries) (ends : entries.getLast? = some last) :
    entry.start ≤ last.start ∧ entry.stop ≤ last.stop := by
  induction entries generalizing low with
  | nil => simp at member
  | cons first rest ih =>
      cases rest with
      | nil =>
          cases List.mem_singleton.mp member
          cases Option.some.inj ends
          exact ⟨Nat.le_refl _, Nat.le_refl _⟩
      | cons second rest =>
          have ends : (second :: rest).getLast? = some last := by simpa using ends
          have lastMember : last ∈ second :: rest := List.mem_of_getLast? ends
          obtain ⟨le, lastHolds⟩ := row.behind.of_mem lastMember
          have := row.2.1.start_le_stop
          have := lastHolds.start_le_stop
          rcases List.mem_cons.mp member with rfl | member
          · omega
          · exact ih row.behind member ends

theorem start_le {first : Entry} (row : Row edge draft low entries) (starts : entries.head? = some first)
    {entry : Entry} (member : entry ∈ entries) : low ≤ first.start ∧ first.start ≤ entry.start := by
  cases entries with
  | nil => simp at member
  | cons other rest =>
      cases Option.some.inj starts
      rcases List.mem_cons.mp member with rfl | member
      · exact ⟨row.1, Nat.le_refl _⟩
      · have := row.2.1.start_le_stop
        have := (row.behind.of_mem member).1
        exact ⟨row.1, by omega⟩

/-- The nodes of a row stand one behind the other. -/
theorem ordered (row : Row edge draft low entries) :
    (Entry.ids entries).Pairwise fun left right =>
      StandsBehind draft.nodes (spanAt draft.nodes left).stop right := by
  induction entries generalizing low with
  | nil => exact .nil
  | cons entry rest ih =>
      have others := ih row.behind
      cases is : entry.id? with
      | none => rwa [Entry.ids, List.filterMap_cons_none is]
      | some id =>
          rw [Entry.ids, List.filterMap_cons_some is]
          refine List.pairwise_cons.mpr ⟨?_, others⟩
          intro right listed
          left
          rw [(row.2.1.loose is).2.span_eq]
          exact (row.behind.low_lt_stop listed).1

/-- What hangs below a node of a row starts before the next node does. -/
theorem follows (settled : Settled edge draft.nodes) (row : Row edge draft low entries) :
    (Entry.ids entries).Pairwise fun left right =>
      ∀ inner, Below draft.nodes left inner →
        (spanAt draft.nodes inner).start ≤ (spanAt draft.nodes right).start := by
  induction entries generalizing low with
  | nil => exact .nil
  | cons entry rest ih =>
      obtain ⟨-, -, reach, reaches, behind⟩ := row
      have others := ih behind
      cases is : entry.id? with
      | none => rwa [Entry.ids, List.filterMap_cons_none is]
      | some id =>
          rw [Entry.ids, List.filterMap_cons_some is]
          refine List.pairwise_cons.mpr ⟨?_, others⟩
          intro right listed inner below
          have := settled.start_le inner
          have := reaches.below_le id is inner below
          have := (behind.low_lt_stop listed).1
          omega

/-- An offset between a row, with all that hangs below it, and the tokens ahead. -/
theorem reaches (row : Row edge draft low entries) :
    ∃ reach, low ≤ reach ∧ Token.Laid edge reach draft.cursor.tokens ∧
      ∀ entry ∈ entries, entry.Reaches draft.nodes reach := by
  induction entries generalizing low with
  | nil => exact ⟨low, Nat.le_refl _, row, by simp⟩
  | cons entry rest ih =>
      obtain ⟨le, holds, first, reaches, behind⟩ := row
      obtain ⟨reach, first_le, laid, others⟩ := ih behind
      refine ⟨reach, ?_, laid, List.forall_mem_cons.mpr ⟨reaches.mono first_le, others⟩⟩
      have := holds.start_le_stop
      have := reaches.stop_le
      omega

theorem kept (row : Row edge draft low entries) (sound : Sound edge draft)
    (extends_ : ∀ bound, Extends bound draft after)
    (ahead : ∀ bound, Token.Laid edge bound draft.cursor.tokens →
      Token.Laid edge bound after.cursor.tokens) : Row edge after low entries := by
  rw [← List.append_nil entries] at row ⊢
  obtain ⟨middle, -, laid, back⟩ := row.frame sound
  exact back (extends_ middle) (ahead middle laid)

/-- A token that is taken behind a row stands at its end. -/
theorem take {strict : Bool} {token : Token} {others : List Token} {cursor : Cursor}
    (row : Row edge draft low entries) (sound : Sound edge draft)
    (tokens_eq : draft.cursor.tokens = token :: others) (advances : draft.cursor.Advances strict cursor)
    (stop_le : token.span.stop ≤ cursor.lastEnd) :
    Row edge { draft with cursor } low (entries ++ [.text token.span]) := by
  rw [← List.append_nil entries] at row
  obtain ⟨middle, -, ahead, back⟩ := row.frame sound
  refine back (Extends.ofRead advances) ?_
  have ahead : Token.Laid edge middle (token :: others) := tokens_eq ▸ ahead
  have stands := ahead.1
  refine ⟨stands.low_le, ⟨stands.nonempty, stands.edge_start, stands.edge_stop, stop_le⟩, token.span.stop,
    ⟨Nat.le_refl _, fun _ is => absurd is (Option.not_mem_none _)⟩, ?_⟩
  exact (sound.advance advances).laid.lower stop_le

/-- A node over entries of a row: its children stand in it. -/
theorem sits {kind : NodeKind} {span : Span} (settled : Settled edge draft.nodes) (row : Row edge draft low entries)
    (lists : Entry.ids entries = kind.children) (unnamed : kind.isIdentifier = false)
    (start_le : span.start ≤ span.stop) (nonempty : (∀ body, kind ≠ .program body) → span.start < span.stop)
    (edge_start : edge span.start) (edge_stop : edge span.stop)
    (inside : ∀ entry ∈ entries, entry.isSolid = true → span.start ≤ entry.start ∧ entry.stop ≤ span.stop)
    (ahead : kind.isReturn = true → ∀ child ∈ kind.children, span.start < (spanAt draft.nodes child).start) :
    Sits edge draft.nodes ⟨kind, span⟩ := by
  refine ⟨start_le, nonempty, edge_start, edge_stop, ?_, ?_, ?_, ahead, lists ▸ row.ordered,
    lists ▸ row.follows settled⟩
  · intro child listed
    obtain ⟨_, -, -, -, loose⟩ := row.of_id (lists ▸ listed)
    exact loose.id_lt
  · intro _ child listed
    obtain ⟨entry, member, solid, -, loose⟩ := row.of_id (lists ▸ listed)
    rw [loose.span_eq]
    exact inside entry member solid
  · intro named
    simp [unnamed] at named

/-- The row of a node that was just built over nodes that stand before the tokens ahead. -/
theorem ofPush {node : Node} {reach : Nat} (sound : Sound edge draft) (low_le : low ≤ node.span.start)
    (taken : Entry.Taken edge draft node.span) (children_lt : ∀ child ∈ node.kind.children, child < draft.nodes.size)
    (laid : Token.Laid edge reach draft.cursor.tokens)
    (below_le : ∀ child ∈ node.kind.children, ∀ inner, Below draft.nodes child inner →
      (spanAt draft.nodes inner).stop ≤ reach) :
    Row edge { draft with nodes := draft.nodes.push node } low [.node node.span draft.nodes.size] := by
  have span_eq : spanAt (draft.nodes.push node) draft.nodes.size = node.span := spanAt_push_size _ _
  have unowned : draft.nodes.size ∉ owned (draft.nodes.push node) := by
    rw [owned_push, List.mem_append, mem_owned_iff]
    rintro (⟨parent, listed⟩ | listed)
    · exact Nat.lt_irrefl _ (sound.settled.child_lt listed)
    · exact Nat.lt_irrefl _ (children_lt _ listed)
  have size_lt := size_lt_push draft.nodes node
  refine ⟨low_le, ⟨taken.kept (Nat.le_refl _), size_lt, span_eq, unowned⟩, max node.span.stop reach, ⟨?_, ?_⟩, ?_⟩
  · exact Nat.le_max_left _ _
  · intro id is inner below
    obtain rfl := Option.some.inj is
    rcases sound.settled.below_push_size children_lt below with rfl | ⟨child, listed, below⟩
    · rw [span_eq]
      exact Nat.le_max_left _ _
    · have inside := sound.settled.below_lt (children_lt child listed) below
      rw [spanAt_push_of_lt node inside]
      exact Nat.le_trans (below_le child listed inner below) (Nat.le_max_right _ _)
  · rcases Nat.le_total node.span.stop reach with le | le
    · rw [Nat.max_eq_right le]
      exact laid
    · rw [Nat.max_eq_left le]
      exact sound.laid.lower taken.stop_le

end Row

namespace Builder

variable {α β γ : Type}

/-! ## Builders that only read -/

def Quiet (edge : Nat → Prop) (build : Builder α) : Prop :=
  ∀ draft value after, build draft = .ok (value, after) → Sound edge draft →
    draft.cursor.Advances false after.cursor ∧ after.nodes = draft.nodes

namespace Quiet

variable {build : Builder α} {next : α → Builder β}

theorem sound (quiet : Quiet edge build) {draft after : Draft} {value : α}
    (success : build draft = .ok (value, after)) (before : Sound edge draft) : Sound edge after := by
  obtain ⟨advances, nodes_eq⟩ := quiet draft value after success before
  have sound := before.advance advances
  exact ⟨sound.laid, sound.edge_lastEnd, nodes_eq ▸ before.settled⟩

theorem ofRead {strict : Bool} {read : Reader α} (takes : read.Takes strict) :
    Quiet edge (liftM read : Builder α) := by
  intro draft value after success _
  obtain ⟨cursor, ran, rfl⟩ := read_ok success
  exact ⟨(takes.moves ran).weaken, rfl⟩

theorem bind (first : Quiet edge build) (rest : ∀ value, Quiet edge (next value)) :
    Quiet edge (build >>= next) := by
  intro draft value after success sound
  obtain ⟨found, middle, ran, continued⟩ := bind_ok success
  obtain ⟨advances, nodes_eq⟩ := first draft found middle ran sound
  obtain ⟨advances', nodes_eq'⟩ := rest found middle value after continued (first.sound ran sound)
  exact ⟨advances.trans advances', nodes_eq'.trans nodes_eq⟩

theorem done (value : α) : Quiet edge (pure value) := by
  intro draft result after success _
  obtain ⟨-, rfl⟩ := pure_ok success
  exact ⟨.refl _, rfl⟩

theorem ite {condition : Prop} [Decidable condition] {left right : Builder α}
    (onTrue : Quiet edge left) (onFalse : Quiet edge right) :
    Quiet edge (if condition then left else right) := by
  split
  · exact onTrue
  · exact onFalse

theorem exhausted : Quiet edge (liftM (Reader.exhausted : Reader α) : Builder α) :=
  @ofRead edge α false _ Reader.takes_exhausted

theorem grow {step : α → Builder (Option α)} (quiet : ∀ value, Quiet edge (step value)) (value : α) :
    Quiet edge (grow step value) := by
  have within : ∀ budget value, Quiet edge (growWithin step budget value) := by
    intro budget
    induction budget with
    | zero => exact fun _ => exhausted
    | succ budget ih =>
        intro value
        refine (quiet value).bind fun found => ?_
        cases found with
        | none => exact done _
        | some value => exact ih value
  exact (ofRead Reader.takes_remaining).bind fun _ => within _ value

theorem commaSeparated {item : Builder α} (quiet : Quiet edge item) :
    Quiet edge (commaSeparated item) := by
  have within : ∀ budget, Quiet edge (collectWithin (do
      let value ← item
      if ← Reader.eat .comma then return Turn.more (some value) else return .last value) budget) := by
    intro budget
    induction budget with
    | zero => exact exhausted
    | succ budget ih =>
        refine bind (quiet.bind fun _ => (ofRead (Reader.takes_eat _)).bind fun _ => ?_) fun outcome => ?_
        · exact ite (done _) (done _)
        · cases outcome with
          | stop => exact done _
          | last item => exact done _
          | more item => exact ih.bind fun _ => done _
  exact (ofRead Reader.takes_remaining).bind fun _ => within _

end Quiet

/-! ## Builders that lay out nodes -/

/-- From a draft of which `held` is true, the row `ins` becomes a row of the nodes `outs`. -/
def LaysWhen (edge : Nat → Prop) (held : Draft → Prop) (ins : List Entry) (build : Builder α)
    (outs : α → List Nat) : Prop :=
  ∀ draft value after, build draft = .ok (value, after) → Sound edge draft → held draft →
    ∀ low, Row edge draft low ins →
      Sound edge after ∧ Extends low draft after ∧
        ∃ entries, Entry.ids entries = outs value ∧ Row edge after low entries

abbrev Lays (edge : Nat → Prop) (ins : List Entry) (build : Builder α) (outs : α → List Nat) : Prop :=
  LaysWhen edge (fun _ => True) ins build outs

abbrev LaysAt (edge : Nat → Prop) (token : Token) (ins : List Entry) (build : Builder α)
    (outs : α → List Nat) : Prop :=
  LaysWhen edge (fun draft => draft.cursor.peek? = some token) ins build outs

/-- A span that covers a row in hand. -/
def Covers (edge : Nat → Prop) (ins : List Entry) (span : Draft → Span) : Prop :=
  ∀ draft low, Sound edge draft → Row edge draft low ins →
    low ≤ (span draft).start ∧ Entry.Taken edge draft (span draft) ∧
      ∀ entry ∈ ins, entry.isSolid = true →
        (span draft).start ≤ entry.start ∧ entry.stop ≤ (span draft).stop

def StartsAhead (edge : Nat → Prop) (ins : List Entry) (kind : NodeKind) (span : Draft → Span) : Prop :=
  kind.isReturn = true → ∀ draft low, Row edge draft low ins → ∀ child ∈ kind.children,
    (span draft).start < (spanAt draft.nodes child).start

theorem StartsAhead.of_not_isReturn {ins : List Entry} {kind : NodeKind} {span : Draft → Span}
    (silent : kind.isReturn = false) : StartsAhead edge ins kind span := by
  intro returns
  rw [silent] at returns
  cases returns

namespace LaysWhen

variable {held : Draft → Prop} {ins front tail : List Entry} {build : Builder α} {next : α → Builder β}
  {mids : α → List Nat} {outs : β → List Nat} {kind : NodeKind} {span : Span} {token : Token}

theorem any {outs : α → List Nat} (lays : Lays edge ins build outs) :
    LaysWhen edge held ins build outs := by
  intro draft value after success sound _
  exact lays draft value after success sound trivial

theorem when {held' : Draft → Prop} {outs : α → List Nat} (lays : LaysWhen edge held ins build outs)
    (implies : ∀ draft, held' draft → held draft) : LaysWhen edge held' ins build outs := by
  intro draft value after success sound holds
  exact lays draft value after success sound (implies draft holds)

/-- Entries that are not needed any more. -/
theorem thin {fewer : List Entry} {outs : α → List Nat} (sublist : fewer.Sublist ins)
    (lays : LaysWhen edge held fewer build outs) : LaysWhen edge held ins build outs := by
  intro draft value after success sound holds low row
  exact lays draft value after success sound holds low (row.sublist sublist)

theorem done {value : α} {outs : α → List Nat} (same : Entry.ids ins = outs value) :
    LaysWhen edge held ins (pure value) outs := by
  intro draft result after success sound _ low row
  obtain ⟨rfl, rfl⟩ := pure_ok success
  exact ⟨sound, .refl _ _, ins, same, row⟩

theorem given {value : α} (rest : LaysWhen edge held ins (next value) outs) :
    LaysWhen edge held ins (pure value >>= next) outs := rest

theorem ite {condition : Prop} [Decidable condition] {left right : Builder β}
    (onTrue : LaysWhen edge held ins left outs) (onFalse : LaysWhen edge held ins right outs) :
    LaysWhen edge held ins (if condition then left else right) outs := by
  split
  · exact onTrue
  · exact onFalse

theorem of_error {outs : α → List Nat} (fails : ∀ draft, ∃ error, build draft = .error error) :
    LaysWhen edge held ins build outs := by
  intro draft value after success
  obtain ⟨error, failed⟩ := fails draft
  rw [failed] at success
  cases success

theorem unexpected (what : Expectation) {outs : α → List Nat} :
    LaysWhen edge held ins (liftM (Reader.unexpected what : Reader α) : Builder α) outs := by
  refine of_error fun draft => ?_
  obtain ⟨error, failed, -⟩ := @Reader.unexpected_error α what draft.cursor
  exact ⟨_, lift_error failed⟩

theorem exhausted {outs : α → List Nat} :
    LaysWhen edge held ins (liftM (Reader.exhausted : Reader α) : Builder α) outs :=
  of_error fun _ => ⟨_, rfl⟩

/-- That a node has no children may be forgotten. -/
theorem soften {id : Nat} {outs : α → List Nat} (lays : LaysWhen edge held (front ++ [.node span id]) build outs) :
    LaysWhen edge held (front ++ [.leaf span id]) build outs := by
  intro draft value after success sound holds low row
  exact lays draft value after success sound holds low row.soften

/-- The one node of a row, for what needs no more. -/
theorem ofNode {entries : List Entry} {id : Nat} {outs : α → List Nat} (one : Entry.ids entries = [id])
    (lays : ∀ span, LaysWhen edge held (front ++ [.node span id]) build outs) :
    LaysWhen edge held (front ++ entries) build outs := by
  have listed : id ∈ Entry.ids entries := by simp [one]
  obtain ⟨entry, member, is⟩ := List.mem_filterMap.mp listed
  refine thin ((List.singleton_sublist.mpr member).append_left front) ?_
  cases entry with
  | mark offset => simp [Entry.id?] at is
  | text span => simp [Entry.id?] at is
  | node span other =>
      obtain rfl := Option.some.inj is
      exact lays span
  | leaf span other =>
      obtain rfl := Option.some.inj is
      exact soften (lays span)

theorem ofOnlyNode {entries : List Entry} {id : Nat} {outs : α → List Nat} (one : Entry.ids entries = [id])
    (lays : ∀ span, LaysWhen edge held [.node span id] build outs) : LaysWhen edge held entries build outs :=
  @ofNode edge α held [] build entries id outs one lays

/-! ### Sequences -/

/-- What comes first works on the end of the row. -/
theorem into (first : LaysWhen edge held tail build mids)
    (rest : ∀ value entries, Entry.ids entries = mids value →
      Lays edge (front ++ entries) (next value) outs) :
    LaysWhen edge held (front ++ tail) (build >>= next) outs := by
  intro draft result after success sound holds low row
  obtain ⟨value, middle, built, continued⟩ := bind_ok success
  obtain ⟨bound, le, inner, back⟩ := row.frame sound
  obtain ⟨sound', extends_, entries, same, inner'⟩ := first draft value middle built sound holds bound inner
  obtain ⟨sound'', extends', outcome⟩ :=
    rest value entries same middle result after continued sound' trivial low (back extends_ inner')
  exact ⟨sound'', (extends_.lower le).trans extends', outcome⟩

theorem bind (first : LaysWhen edge held ins build mids)
    (rest : ∀ value entries, Entry.ids entries = mids value → Lays edge entries (next value) outs) :
    LaysWhen edge held ins (build >>= next) outs :=
  @into edge α β held [] ins build next mids outs first rest

/-- What comes first adds nodes to the row. -/
theorem add (first : LaysWhen edge held [] build mids)
    (rest : ∀ value entries, Entry.ids entries = mids value →
      Lays edge (ins ++ entries) (next value) outs) :
    LaysWhen edge held ins (build >>= next) outs := by
  have lays := @into edge α β held ins [] build next mids outs first rest
  rwa [List.append_nil] at lays

theorem intoNode {build : Builder Nat} {next : Nat → Builder β}
    (first : LaysWhen edge held tail build fun id => [id])
    (rest : ∀ id span, Lays edge (front ++ [.node span id]) (next id) outs) :
    LaysWhen edge held (front ++ tail) (build >>= next) outs :=
  into first fun id _ one => ofNode one (rest id)

theorem bindNode {build : Builder Nat} {next : Nat → Builder β}
    (first : LaysWhen edge held ins build fun id => [id])
    (rest : ∀ id span, Lays edge [.node span id] (next id) outs) :
    LaysWhen edge held ins (build >>= next) outs :=
  @intoNode edge β held [] ins outs build next first rest

theorem addNode {build : Builder Nat} {next : Nat → Builder β}
    (first : LaysWhen edge held [] build fun id => [id])
    (rest : ∀ id span, Lays edge (ins ++ [.node span id]) (next id) outs) :
    LaysWhen edge held ins (build >>= next) outs := by
  have lays := @intoNode edge β held ins [] outs build next first rest
  rwa [List.append_nil] at lays

/-! ### Reading -/

theorem quiet (first : Quiet edge build) (rest : ∀ value, Lays edge ins (next value) outs) :
    LaysWhen edge held ins (build >>= next) outs := by
  intro draft result after success sound _ low row
  obtain ⟨value, middle, built, continued⟩ := bind_ok success
  obtain ⟨advances, nodes_eq⟩ := first draft value middle built sound
  have extends_ : ∀ bound, Extends bound draft middle :=
    fun _ => ⟨advances, nodes_eq ▸ .refl _, nodes_eq ▸ .refl _ _⟩
  have row' := row.kept sound extends_ fun _ => advances.laid
  obtain ⟨sound', extends', outcome⟩ :=
    rest value middle result after continued (first.sound built sound) trivial low row'
  exact ⟨sound', (extends_ low).trans extends', outcome⟩

theorem read {strict : Bool} {read : Reader α} (takes : read.Takes strict)
    (rest : ∀ value, Lays edge ins (next value) outs) :
    LaysWhen edge held ins (liftM read >>= next) outs :=
  quiet (.ofRead takes) rest

/-- Tokens that are taken stand at the end of the row. -/
theorem take {read : Reader α} (takes : read.Takes true)
    (rest : ∀ value span, Lays edge (ins ++ [.text span]) (next value) outs) :
    LaysWhen edge held ins (liftM read >>= next) outs := by
  intro draft result after success sound _ low row
  obtain ⟨value, middle, lifted, continued⟩ := bind_ok success
  obtain ⟨cursor, ran, rfl⟩ := read_ok lifted
  have advances := takes.moves ran
  obtain ⟨taken, tokens_eq, lastEnd_eq, some⟩ := advances.taken
  obtain ⟨token, others, rfl⟩ := List.exists_cons_of_ne_nil (some rfl)
  have laid := sound.laid
  rw [tokens_eq] at laid
  have stop_le : token.span.stop ≤ cursor.lastEnd := by
    rw [lastEnd_eq]
    exact laid.behind.2.2.2 token (by simp)
  have row' := row.take sound tokens_eq advances stop_le
  obtain ⟨sound', extends_, outcome⟩ :=
    rest value token.span _ result after continued (sound.advance advances) trivial low row'
  exact ⟨sound', (Extends.ofRead advances).trans extends_, outcome⟩

/-- The token ahead is taken. -/
theorem bump {next : Unit → Builder β} (rest : Lays edge (ins ++ [.text token.span]) (next ()) outs) :
    LaysAt edge token ins (liftM Reader.bump >>= next) outs := by
  intro draft result after success sound ahead low row
  obtain ⟨_, middle, lifted, continued⟩ := bind_ok success
  obtain ⟨cursor, ran, rfl⟩ := read_ok lifted
  obtain ⟨-, rfl⟩ := Prod.mk.inj (Except.ok.inj ran)
  have advances := Cursor.advances_of_peek? ahead
  obtain ⟨tokens_eq, lastEnd_eq⟩ := Cursor.tokens_eq_cons ahead
  have row' := row.take sound tokens_eq advances (Nat.le_of_eq lastEnd_eq.symm)
  obtain ⟨sound', extends_, outcome⟩ :=
    rest _ result after continued (sound.advance advances) trivial low row'
  exact ⟨sound', (Extends.ofRead advances).trans extends_, outcome⟩

theorem give {read : Reader α} {spanOf : α → Span} (gives : read.Gives spanOf)
    (rest : ∀ value, Lays edge (ins ++ [.text (spanOf value)]) (next value) outs) :
    LaysWhen edge held ins (liftM read >>= next) outs := by
  intro draft result after success sound _ low row
  obtain ⟨value, middle, lifted, continued⟩ := bind_ok success
  obtain ⟨cursor, ran, rfl⟩ := read_ok lifted
  obtain ⟨token, ahead, rfl, span_eq⟩ := gives _ _ _ ran
  have rest' : Lays edge (ins ++ [.text token.span]) (next value) outs := span_eq ▸ rest value
  exact @bump edge β ins outs token (fun _ => next value) rest' draft result after continued sound ahead
    low row

theorem expect {sign : Symbol} {next : Span → Builder β}
    (rest : ∀ span, Lays edge (ins ++ [.text span]) (next span) outs) :
    LaysWhen edge held ins (liftM (Reader.expect sign) >>= next) outs :=
  give (Reader.gives_expect sign) rest

theorem name {next : String × Span → Builder β}
    (rest : ∀ name span, Lays edge (ins ++ [.text span]) (next (name, span)) outs) :
    LaysWhen edge held ins (liftM Reader.expectName >>= next) outs :=
  give Reader.gives_expectName fun found => rest found.1 found.2

theorem propertyName {next : String × Span → Builder β}
    (rest : ∀ name span, Lays edge (ins ++ [.text span]) (next (name, span)) outs) :
    LaysWhen edge held ins (liftM Reader.expectPropertyName >>= next) outs :=
  give Reader.gives_expectPropertyName fun found => rest found.1 found.2

theorem onPeek {next : Option Token → Builder β} (onNone : LaysWhen edge held ins (next none) outs)
    (onSome : ∀ token, LaysAt edge token ins (next (some token)) outs) :
    LaysWhen edge held ins (liftM Reader.peek >>= next) outs := by
  intro draft result after success sound holds low row
  change next draft.cursor.peek? draft = .ok (result, after) at success
  cases ahead : draft.cursor.peek? with
  | none =>
      rw [ahead] at success
      exact onNone draft result after success sound holds low row
  | some token =>
      rw [ahead] at success
      exact onSome token draft result after success sound ahead low row

/-- A token that passes a test is ahead. -/
theorem onNext {test : Token → Bool} {next : Bool → Builder β}
    (onTrue : ∀ token, LaysAt edge token ins (next true) outs)
    (onFalse : LaysWhen edge held ins (next false) outs) :
    LaysWhen edge held ins (liftM (Reader.nextIs test) >>= next) outs := by
  intro draft result after success sound holds low row
  change next (draft.cursor.peek?.any test) draft = .ok (result, after) at success
  cases passes : draft.cursor.peek?.any test with
  | false => exact onFalse draft result after (passes ▸ success) sound holds low row
  | true =>
      cases ahead : draft.cursor.peek? with
      | none => simp [ahead] at passes
      | some token => exact onTrue token draft result after (passes ▸ success) sound ahead low row

/-- Three dots that are taken end with the last token taken. -/
theorem onSpread {next : Bool → Builder β}
    (onTrue : ∀ span, span.start + 3 = span.stop →
      LaysWhen edge (fun draft => draft.cursor.lastEnd = span.stop) (ins ++ [.text span]) (next true) outs)
    (onFalse : Lays edge ins (next false) outs) :
    Lays edge ins (liftM (Reader.eat .spread) >>= next) outs := by
  intro draft result after success sound _ low row
  obtain ⟨found, middle, lifted, continued⟩ := bind_ok success
  obtain ⟨cursor, ran, rfl⟩ := read_ok lifted
  rcases Reader.eat_ok ran with ⟨rfl, rfl⟩ | ⟨rfl, rfl, token, ahead, spread⟩
  · exact onFalse draft result after continued sound trivial low row
  · have advances := Cursor.advances_of_peek? ahead
    obtain ⟨tokens_eq, lastEnd_eq⟩ := Cursor.tokens_eq_cons ahead
    have laid := sound.laid
    rw [tokens_eq] at laid
    have row' := row.take sound tokens_eq advances (Nat.le_of_eq lastEnd_eq.symm)
    obtain ⟨sound', extends_, outcome⟩ := onTrue token.span (laid.1.spread_width spread) _ result
      after continued (sound.advance advances) lastEnd_eq low row'
    exact ⟨sound', (Extends.ofRead advances).trans extends_, outcome⟩

theorem lastEnd {stop : Nat} {next : Nat → Builder β} (rest : Lays edge ins (next stop) outs) :
    LaysWhen edge (fun draft => draft.cursor.lastEnd = stop) ins (liftM Reader.lastEnd >>= next) outs := by
  intro draft result after success sound stop_eq low row
  change next draft.cursor.lastEnd draft = .ok (result, after) at success
  rw [stop_eq] at success
  exact rest draft result after success sound trivial low row

/-- What only looks ahead changes nothing. -/
theorem glance {read : Reader α} (looks : read.Looks)
    (rest : ∀ value, LaysWhen edge held ins (next value) outs) :
    LaysWhen edge held ins (liftM read >>= next) outs := by
  intro draft result after success sound holds low row
  obtain ⟨found, middle, lifted, continued⟩ := bind_ok success
  obtain ⟨cursor, ran, rfl⟩ := read_ok lifted
  obtain ⟨seen, looked⟩ := looks draft.cursor
  rw [looked] at ran
  obtain ⟨rfl, rfl⟩ := Prod.mk.inj (Except.ok.inj ran)
  exact rest seen draft result after continued sound holds low row

/-- A mark where the token ahead starts. -/
theorem mark {outs : α → List Nat}
    (lays : LaysAt edge token (ins ++ [.mark token.span.start]) build outs) :
    LaysAt edge token ins build outs := by
  intro draft value after success sound ahead low row
  obtain ⟨tokens_eq, -⟩ := Cursor.tokens_eq_cons ahead
  refine lays draft value after success sound ahead low ?_
  rw [← List.append_nil ins] at row
  obtain ⟨middle, -, laid, back⟩ := row.frame sound
  change Token.Laid edge middle draft.cursor.tokens at laid
  rw [tokens_eq] at laid
  refine back (.refl _ _) ⟨laid.1.low_le, laid.1.edge_start, token.span.start,
    ⟨Nat.le_refl _, fun _ is => absurd is (Option.not_mem_none _)⟩, ?_⟩
  change Token.Laid edge token.span.start draft.cursor.tokens
  rw [tokens_eq]
  exact ⟨{ laid.1 with low_le := Nat.le_refl _ }, laid.2⟩

theorem look (span : Span) {target : Nat} {next : Span → Builder β} (member : Entry.node span target ∈ ins)
    (rest : LaysWhen edge held ins (next span) outs) :
    LaysWhen edge held ins (spanOf target >>= next) outs := by
  intro draft result after success sound holds low row
  have span_eq := (row.of_mem member).2.span_eq
  obtain ⟨found, middle, seen, continued⟩ := bind_ok success
  obtain ⟨⟨node, node_eq, rfl⟩, rfl⟩ := spanOf_ok seen
  rw [spanAt, node_eq] at span_eq
  subst span_eq
  exact rest middle result after continued sound holds low row

theorem inspect {next : Draft → Builder β}
    (rest : ∀ seen, LaysWhen edge (fun draft => held draft ∧ draft = seen) ins (next seen) outs) :
    LaysWhen edge held ins (get >>= next) outs := by
  intro draft result after success sound holds low row
  exact rest draft draft result after success sound ⟨holds, rfl⟩ low row

/-! ### Nodes -/

/-- A node over the row in hand: its children stand in it. -/
theorem allocOver {span : Draft → Span} (lists : Entry.ids ins = kind.children)
    (unnamed : kind.isIdentifier = false) (covers : Covers edge ins span)
    (ahead : StartsAhead edge ins kind span) {draft after : Draft} {id : Nat}
    (success : Builder.alloc kind (span draft) draft = .ok (id, after)) (sound : Sound edge draft)
    {low : Nat} (row : Row edge draft low ins) :
    Sound edge after ∧ Extends low draft after ∧ Row edge after low [.node (span draft) id] := by
  obtain ⟨rfl, rfl⟩ := Prod.mk.inj (Except.ok.inj success)
  obtain ⟨low_le, taken, inside⟩ := covers draft low sound row
  have sits := row.sits sound.settled lists unnamed (Nat.le_of_lt taken.nonempty) (fun _ => taken.nonempty)
    taken.edge_start taken.edge_stop inside fun returns => ahead returns draft low row
  obtain ⟨reach, -, laid, reaches⟩ := row.reaches
  refine ⟨⟨sound.laid, sound.edge_lastEnd, sound.settled.push sits⟩, ⟨.refl _, .push _ _, .push ?_⟩, ?_⟩
  · intro child listed
    exact (row.low_lt_stop (lists ▸ listed)).2
  · exact Row.ofPush sound low_le taken sits.child_lt laid fun child listed _ =>
      Entry.below_le_of_mem reaches (lists ▸ listed)

/-- From the first entry of a row to the last one. -/
theorem covers_ends {body : List Entry} {first last : Entry}
    (starts : (body ++ [last]).head? = some first) (solid : last.isSolid = true) :
    Covers edge (body ++ [last]) fun _ => ⟨first.start, last.stop⟩ := by
  intro draft low sound row
  have ends : (body ++ [last]).getLast? = some last := by simp
  have firstMember := List.mem_of_head? starts
  obtain ⟨low_le, firstHolds⟩ := row.of_mem firstMember
  have lastHolds := (row.of_mem (List.mem_of_getLast? ends)).2
  have taken := lastHolds.taken solid
  have le := row.stop_le_last firstMember ends
  refine ⟨low_le, ⟨?_, firstHolds.edge_start, taken.edge_stop, taken.stop_le⟩, ?_⟩
  · have := taken.nonempty
    simp only at this ⊢
    omega
  · intro entry member _
    exact ⟨(row.start_le starts member).2, (row.stop_le_last member ends).2⟩

theorem nodeTo {body : List Entry} {first last : Entry} {start stop : Nat}
    (starts : (body ++ [last]).head? = some first) (solid : last.isSolid = true)
    (lists : Entry.ids (body ++ [last]) = kind.children) (level : kind.isAhead = false)
    (start_eq : first.start = start) (stop_eq : last.stop = stop) :
    LaysWhen edge held (body ++ [last]) (Builder.alloc kind ⟨start, stop⟩) fun id => [id] := by
  subst start_eq stop_eq
  intro draft id after success sound _ low row
  obtain ⟨unnamed, silent⟩ := NodeKind.isAhead_eq_false_iff.mp level
  obtain ⟨sound', extends_, row'⟩ :=
    allocOver lists unnamed (covers_ends starts solid) (.of_not_isReturn silent) success sound row
  exact ⟨sound', extends_, _, rfl, row'⟩

theorem nodeJoin {body : List Entry} {first last : Entry} {left right : Span}
    (starts : (body ++ [last]).head? = some first)
    (lists : Entry.ids (body ++ [last]) = kind.children) (level : kind.isAhead = false)
    (solid : last.isSolid = true) (left_eq : ⟨first.start, first.stop⟩ = left)
    (right_eq : ⟨last.start, last.stop⟩ = right) :
    LaysWhen edge held (body ++ [last]) (Builder.alloc kind (left.join right)) fun id => [id] := by
  subst left_eq right_eq
  intro draft id after success sound holds low row
  have ends : (body ++ [last]).getLast? = some last := by simp
  have le := row.stop_le_last (List.mem_of_head? starts) ends
  have joined : (Span.mk first.start first.stop).join ⟨last.start, last.stop⟩ =
      ⟨first.start, last.stop⟩ := by
    simp only [Span.join, Span.mk.injEq]
    omega
  rw [joined] at success
  exact nodeTo starts solid lists level rfl rfl draft id after success sound holds low row

/-- A node with the span of its one child. -/
theorem nodeOver {target : Nat} (lists : kind.children = [target])
    (level : kind.isAhead = false) :
    LaysWhen edge held [.node span target] (Builder.alloc kind span) fun id => [id] :=
  @nodeTo edge held kind [] (.node span target) (.node span target) span.start span.stop rfl rfl
    lists.symm level rfl rfl

/-- From the first entry of a row to the last token taken. -/
theorem covers_from {first : Entry} (starts : ins.head? = some first) (solid : ins.any Entry.isSolid = true) :
    Covers edge ins fun draft => ⟨first.start, draft.cursor.lastEnd⟩ := by
  intro draft low sound row
  obtain ⟨low_le, firstHolds⟩ := row.of_mem (List.mem_of_head? starts)
  obtain ⟨entry, member, isSolid⟩ := List.any_eq_true.mp solid
  have taken := (row.of_mem member).2.taken isSolid
  have le := row.start_le starts member
  have nonempty := taken.nonempty
  have stop_le := taken.stop_le
  simp only at nonempty stop_le
  refine ⟨low_le, ⟨?_, firstHolds.edge_start, sound.edge_lastEnd, Nat.le_refl _⟩, ?_⟩
  · simp only
    omega
  · intro other member isSolid
    exact ⟨(row.start_le starts member).2, ((row.of_mem member).2.taken isSolid).stop_le⟩

/-- A node that spans up to the last token taken. -/
theorem nodeFrom {first : Entry} {start : Nat} (starts : ins.head? = some first)
    (solid : ins.any Entry.isSolid = true) (lists : Entry.ids ins = kind.children)
    (level : kind.isAhead = false) (start_eq : first.start = start) :
    LaysWhen edge held ins (allocFrom kind start) fun id => [id] := by
  subst start_eq
  intro draft id after success sound _ low row
  obtain ⟨unnamed, silent⟩ := NodeKind.isAhead_eq_false_iff.mp level
  obtain ⟨sound', extends_, row'⟩ :=
    allocOver lists unnamed (covers_from starts solid) (.of_not_isReturn silent) success sound row
  exact ⟨sound', extends_, _, rfl, row'⟩

/-- The same with a token at the start of the node, before its children. -/
theorem nodeBehind {start : Nat} {body : List Entry}
    (lists : Entry.ids (.mark start :: .text span :: body) = kind.children) (unnamed : kind.isIdentifier = false) :
    LaysWhen edge held (.mark start :: .text span :: body) (allocFrom kind start) fun id => [id] := by
  intro draft id after success sound _ low row
  have ahead : StartsAhead edge (.mark start :: .text span :: body) kind fun draft =>
      ⟨start, draft.cursor.lastEnd⟩ := by
    intro _ draft low row child listed
    have behind : Row edge draft start (.text span :: body) := row.behind
    have starts : start ≤ span.start := behind.1
    have nonempty : span.start < span.stop := (behind.2.1 : Entry.Taken edge draft span).nonempty
    have inBody : child ∈ Entry.ids body := by rwa [← lists] at listed
    have child_ge : span.stop ≤ (spanAt draft.nodes child).start := (behind.behind.low_lt_stop inBody).1
    exact Nat.lt_of_le_of_lt starts (Nat.lt_of_lt_of_le nonempty child_ge)
  have covers : Covers edge (.mark start :: .text span :: body) fun draft => ⟨start, draft.cursor.lastEnd⟩ :=
    @covers_from edge _ (.mark start) rfl rfl
  change Builder.alloc kind ⟨start, draft.cursor.lastEnd⟩ draft = .ok (id, after) at success
  obtain ⟨sound', extends_, row'⟩ := allocOver lists unnamed covers ahead success sound row
  exact ⟨sound', extends_, _, rfl, row'⟩

/-- A function that starts where the first node of a row does, of the rest of the row, and a node over both. -/
theorem nodeBeside {key : Nat} {body : List Entry} {last : Entry} {outer : Nat → NodeKind}
    (solid : last.isSolid = true) (lists : Entry.ids (body ++ [last]) = kind.children)
    (called : kind.isFunctionLike = true) (outer_lists : ∀ id, (outer id).children = [key, id])
    (outer_unnamed : ∀ id, (outer id).isIdentifier = false) :
    LaysWhen edge held (.leaf span key :: (body ++ [last])) (do
      let value ← Builder.alloc kind ⟨span.start, last.stop⟩
      Builder.alloc (outer value) (span.join (← spanOf value))) fun id => [id] := by
  intro draft id after success sound holds low row
  obtain ⟨value, middle, built, success⟩ := bind_ok success
  obtain ⟨rfl, rfl⟩ := Prod.mk.inj (Except.ok.inj built)
  have row' : Row edge draft span.stop (body ++ [last]) := row.behind
  obtain ⟨reach, -, laid, reaches⟩ := row.reaches
  obtain ⟨low_le, ⟨keyLoose, childless⟩, -⟩ := row
  have low_le : low ≤ span.start := low_le
  have ends : (body ++ [last]).getLast? = some last := by simp
  obtain ⟨apart, lastHolds⟩ := row'.of_mem (List.mem_of_getLast? ends)
  have taken := lastHolds.taken solid
  have keyNonempty : span.start < span.stop := keyLoose.nonempty
  have lastNonempty : last.start < last.stop := taken.nonempty
  have wide : Entry.Taken edge draft ⟨span.start, last.stop⟩ := by
    refine ⟨?_, keyLoose.edge_start, taken.edge_stop, taken.stop_le⟩
    simp only
    omega
  have inner : Sits edge draft.nodes ⟨kind, ⟨span.start, last.stop⟩⟩ := by
    refine row'.sits sound.settled lists (NodeKind.not_isIdentifier_of_isFunctionLike called)
      (Nat.le_of_lt wide.nonempty) (fun _ => wide.nonempty) wide.edge_start wide.edge_stop ?_ ?_
    · intro entry member _
      have starts : span.stop ≤ entry.start := (row'.of_mem member).1
      refine ⟨?_, (row'.stop_le_last member ends).2⟩
      simp only
      omega
    · intro _ child listed
      exact Nat.lt_of_lt_of_le keyNonempty (row'.low_lt_stop (lists ▸ listed)).1
  have sits : Sits edge (draft.nodes.push ⟨kind, ⟨span.start, last.stop⟩⟩)
      ⟨outer draft.nodes.size, ⟨span.start, last.stop⟩⟩ := by
    refine inner.around wide.nonempty called keyLoose.id_lt childless (by rw [keyLoose.span_eq]) ?_ ?_
      (outer_lists _) (outer_unnamed _)
    · rw [keyLoose.span_eq]
      simp only
      omega
    · intro child listed
      rw [keyLoose.span_eq]
      exact (row'.low_lt_stop (lists ▸ listed)).1
  have joined : span.join ⟨span.start, last.stop⟩ = ⟨span.start, last.stop⟩ := by
    simp only [Span.join, Span.mk.injEq]
    omega
  obtain ⟨found, middle, seen, allocated⟩ := bind_ok success
  obtain ⟨⟨node, node_eq, rfl⟩, rfl⟩ := spanOf_ok seen
  rw [Array.getElem?_push_size] at node_eq
  cases Option.some.inj node_eq
  rw [joined] at allocated
  obtain ⟨rfl, rfl⟩ := Prod.mk.inj (Except.ok.inj allocated)
  have pushed : Sound edge { draft with nodes := draft.nodes.push ⟨kind, ⟨span.start, last.stop⟩⟩ } :=
    ⟨sound.laid, sound.edge_lastEnd, sound.settled.push inner⟩
  have key_span := (spanAt_push_of_lt ⟨kind, ⟨span.start, last.stop⟩⟩ keyLoose.id_lt).trans keyLoose.span_eq
  have inner_span := spanAt_push_size draft.nodes ⟨kind, ⟨span.start, last.stop⟩⟩
  refine ⟨⟨sound.laid, sound.edge_lastEnd, pushed.settled.push sits⟩,
    ⟨.refl _, (Keeps.push _ _).trans (.push _ _), ?_⟩, [.node ⟨span.start, last.stop⟩ _], rfl, ?_⟩
  · refine Spares.trans (.push _ _) (.push ?_) (.push ?_)
    · intro child listed
      have := (row'.low_lt_stop (lists ▸ listed)).2
      omega
    · intro child listed
      rcases List.mem_pair.mp (outer_lists _ ▸ listed) with rfl | rfl
      · rw [key_span]
        omega
      · rw [inner_span]
        simp only
        omega
  · refine Row.ofPush pushed low_le (wide.kept (Nat.le_refl _)) sits.child_lt laid ?_
    have within : ∀ child ∈ Entry.ids (.leaf span key :: (body ++ [last])), child < draft.nodes.size → ∀ other,
        Below draft.nodes child other →
          (spanAt (draft.nodes.push ⟨kind, ⟨span.start, last.stop⟩⟩) other).stop ≤ reach := by
      intro child listed child_lt other below
      rw [spanAt_push_of_lt _ (sound.settled.below_lt child_lt below)]
      exact Entry.below_le_of_mem reaches listed below
    intro child listed other below
    rcases List.mem_pair.mp (outer_lists _ ▸ listed) with rfl | rfl
    · exact within child (by simp) keyLoose.id_lt other (sound.settled.below_of_push keyLoose.id_lt below)
    · rcases sound.settled.below_push_size inner.child_lt below with rfl | ⟨child, listed, below⟩
      · rw [inner_span]
        exact (reaches last (by simp)).stop_le
      · refine within child ?_ (inner.child_lt child listed) other below
        rw [Entry.ids_leaf, lists]
        exact List.mem_cons_of_mem _ listed

/-- A token becomes a node without children. -/
theorem key {next : Nat → Builder β} (childless : kind.children = [])
    (rest : ∀ id, Lays edge (front ++ [.leaf span id]) (next id) outs) :
    LaysWhen edge held (front ++ [.text span]) (Builder.alloc kind span >>= next) outs := by
  intro draft result after success sound _ low row
  obtain ⟨id, middle, built, continued⟩ := bind_ok success
  obtain ⟨rfl, rfl⟩ := Prod.mk.inj (Except.ok.inj built)
  obtain ⟨bound, bound_ge, inner, back⟩ := row.frame sound
  obtain ⟨le, taken, reach, reaches, ahead⟩ := inner
  have taken : Entry.Taken edge draft span := taken
  have none_ : ∀ child ∈ kind.children, False := by simp [childless]
  have sits : Sits edge draft.nodes ⟨kind, span⟩ := by
    refine ⟨Nat.le_of_lt taken.nonempty, fun _ => taken.nonempty, taken.edge_start, taken.edge_stop, ?_,
      ?_, ?_, ?_, ?_, ?_⟩
    all_goals simp [childless]
  have extends_ : ∀ low, Extends low draft { draft with nodes := draft.nodes.push ⟨kind, span⟩ } :=
    fun _ => ⟨.refl _, .push _ _, .push fun child listed => (none_ child listed).elim⟩
  have row' : Row edge { draft with nodes := draft.nodes.push ⟨kind, span⟩ } low
      (front ++ [.leaf span draft.nodes.size]) := by
    refine back (extends_ bound) ?_
    obtain ⟨low_le, loose, reach', ⟨stop_le, below_le⟩, ahead'⟩ := @Row.ofPush edge draft bound ⟨kind, span⟩ reach
      sound le taken sits.child_lt ahead fun child listed => (none_ child listed).elim
    exact ⟨low_le, ⟨loose, by rw [kindAt_push_size]; exact childless⟩, reach', ⟨stop_le, below_le⟩, ahead'⟩
  obtain ⟨sound', extends', outcome⟩ := rest _ _ result after continued
    ⟨sound.laid, sound.edge_lastEnd, sound.settled.push sits⟩ trivial low row'
  exact ⟨sound', (extends_ low).trans extends', outcome⟩

theorem leaf {next : Nat → Builder β} (childless : kind.children = [])
    (rest : ∀ id, Lays edge (front ++ [.node span id]) (next id) outs) :
    LaysWhen edge held (front ++ [.text span]) (Builder.alloc kind span >>= next) outs :=
  key childless fun id => soften (rest id)

theorem leafOnly (childless : kind.children = []) :
    LaysWhen edge held [.text span] (Builder.alloc kind span) fun id => [id] := by
  have lays := @leaf edge Nat held [] (fun id => [id]) kind span pure childless fun id => done rfl
  rwa [bind_pure] at lays

theorem identifier {name : String} {next : Nat → Builder β}
    (rest : ∀ id, Lays edge (front ++ [.node span id]) (next id) outs) :
    LaysWhen edge held (front ++ [.text span]) (Builder.identifier name span >>= next) outs :=
  leaf rfl rest

/-- An ascription stands behind what it is given to. -/
theorem ascribe {target ascription : Nat} {span' : Span} :
    LaysWhen edge held [.node span target, .node span' ascription]
      (Builder.ascribe target ascription) fun _ => [target] := by
  intro draft value after success sound _ low row
  obtain ⟨node, middle, found, changed⟩ := bind_ok success
  obtain ⟨-, rfl⟩ := nodeOf_ok found
  obtain ⟨-, rfl⟩ := Prod.mk.inj (Except.ok.inj changed)
  have keeps := Keeps.ascribe middle.nodes target ascription
  have spares : Spares low middle.nodes (middle.nodes.modify target (ascribed ascription)) := by
    apply Spares.ascribe
    · exact (row.low_lt_stop (show target ∈ Entry.ids _ by simp)).2
    · exact (row.low_lt_stop (show ascription ∈ Entry.ids _ by simp)).2
  obtain ⟨le, loose, reach, reaches, le', loose', reach', reaches', laid⟩ := row
  have loose : Entry.Loose edge middle span target := loose
  have loose' : Entry.Loose edge middle span' ascription := loose'
  have apart : span.stop ≤ span'.start := Nat.le_trans reaches.stop_le le'
  have settled := sound.settled.ascribe loose.unowned loose'.id_lt (by rwa [loose.span_eq, loose'.span_eq])
  have further : reach ≤ reach' :=
    Nat.le_trans le' (Nat.le_trans (Nat.le_of_lt loose'.nonempty) reaches'.stop_le)
  refine ⟨⟨sound.laid, sound.edge_lastEnd, settled⟩, ⟨.refl _, keeps, spares⟩, [.node span target], rfl, le, ?_,
    reach', ⟨?_, ?_⟩, laid⟩
  · refine ⟨loose.toTaken.kept (Nat.le_refl _), Nat.lt_of_lt_of_le loose.id_lt keeps.size_le,
      (keeps.span_eq target loose.id_lt).trans loose.span_eq, ?_⟩
    intro isOwned
    rcases mem_owned_ascribed isOwned with isOwned | rfl
    · exact loose.unowned isOwned
    · have nonempty := loose.nonempty
      rw [← loose'.span_eq, loose.span_eq] at apart
      omega
  · exact Nat.le_trans reaches.stop_le further
  · intro id is inner below
    obtain rfl := Option.some.inj is
    change (spanAt (middle.nodes.modify target (ascribed ascription)) inner).stop ≤ reach'
    rw [spanAt_modify_ascribed]
    rcases Below.of_ascribed below with below | below
    · exact Nat.le_trans (reaches.below_le target rfl inner below) further
    · exact reaches'.below_le ascription rfl inner below

end LaysWhen

/-- Nodes that are dropped again leave no trace. -/
theorem Quiet.discarding {build : Builder α} {roots : α → List Slot} {mids : α → List Nat}
    (turns : Turns [] build roots) (lays : Lays edge [] build mids) : Quiet edge (Builder.discarding build) := by
  intro draft value after success sound
  obtain ⟨same, found, middle, built, sameCursor⟩ := turns.discarding_ok success
  obtain ⟨-, extends_, -⟩ := lays draft found middle built sound trivial _ sound.laid
  exact ⟨sameCursor ▸ extends_.advances, same⟩

namespace LaysWhen

/-- An attempt that fails leaves no trace. -/
theorem attempt {held : Draft → Prop} {build : Builder Nat} {roots : Nat → List Slot}
    (turns : Turns [] build roots) (lays : LaysWhen edge held [] build fun id => [id]) :
    LaysWhen edge held [] (Builder.attempt build) Option.toList := by
  intro draft found after success sound holds low row
  rcases turns.attempt_ok success with ⟨value, rfl, made⟩ | ⟨rfl, rfl, -⟩
  · exact lays draft value after made sound holds low row
  · exact ⟨sound, .refl _ _, [], rfl, row⟩

/-! ### Loops -/

def turnIds : Turn Nat → List Nat
  | .stop => []
  | .last id => [id]
  | .more found => found.toList

theorem collect {turn : Builder (Turn Nat)} (lays : Lays edge [] turn turnIds) :
    Lays edge [] (collect turn) id := by
  have within : ∀ budget, Lays edge [] (collectWithin turn budget) id := by
    intro budget
    induction budget with
    | zero => exact exhausted
    | succ budget ih =>
        refine lays.bind fun outcome entries same => ?_
        cases outcome with
        | stop => exact done same
        | last item => exact done same
        | more item =>
            refine ih.add fun rest entries' same' => done ?_
            simp [same, same', turnIds]
  exact read Reader.takes_remaining fun _ => within _

/-- A comma behind a node tells whether the loop goes on. -/
theorem commaBehind {entries : List Entry} {item : Nat} (same : Entry.ids entries = [item]) :
    Lays edge entries (do
      if ← (Reader.eat .comma : Reader Bool) then return Turn.more (some item) else return .last item)
      turnIds :=
  read (Reader.takes_eat _) fun _ => ite (done same) (done same)

theorem commaSeparated {item : Builder Nat} (lays : Lays edge [] item fun id => [id]) :
    Lays edge [] (commaSeparated item) id :=
  collect (lays.bind fun _ _ same => commaBehind same)

theorem commaList {close : Symbol} {item : Builder Nat} (lays : Lays edge [] item fun id => [id]) :
    Lays edge [] (commaList close item) id := by
  refine collect (read (Reader.takes_nextIs _) fun _ => ite (done rfl) ?_)
  exact lays.bind fun _ _ same => commaBehind same

theorem holedList {close : Symbol} {item : Builder Nat} (lays : Lays edge [] item fun id => [id]) :
    Lays edge [] (holedList close item) id := by
  refine collect (read (Reader.takes_nextIs _) fun _ => ite (done rfl) ?_)
  refine read (Reader.takes_eat _) fun _ => ite (done rfl) ?_
  exact lays.bind fun _ _ same => commaBehind same

theorem bracedItems {item : Builder (Option Nat)} (lays : Lays edge [] item Option.toList) :
    Lays edge [] (bracedItems item) id := by
  refine collect (read (Reader.takes_nextIs _) fun _ => ite (done rfl) ?_)
  refine read Reader.takes_atEnd fun _ => ite (unexpected _) ?_
  exact lays.bind fun _ _ same => done same

theorem map_some {held : Draft → Prop} {ins : List Entry} {build : Builder Nat}
    (lays : LaysWhen edge held ins build fun id => [id]) :
    LaysWhen edge held ins (some <$> build) Option.toList :=
  lays.bind fun _ _ same => done same

/-- A loop that builds on one node. -/
theorem grow {step : Nat → Builder (Option Nat)}
    (lays : ∀ value span, Lays edge [.node span value] (step value) fun found => [found.getD value])
    (value : Nat) (span : Span) : Lays edge [.node span value] (grow step value) fun id => [id] := by
  have within : ∀ budget value span,
      Lays edge [.node span value] (growWithin step budget value) fun id => [id] := by
    intro budget
    induction budget with
    | zero => exact fun _ _ => exhausted
    | succ budget ih =>
        intro value span
        refine (lays value span).bind fun found entries same => ?_
        cases found with
        | none => exact done same
        | some other => exact ofOnlyNode same (ih other)
  exact read Reader.takes_remaining fun _ => within _ value span

end LaysWhen

/-! ## Builders that need a token -/

/-- A build that fails where no token is ahead. -/
def Needs (edge : Nat → Prop) (build : Builder α) : Prop :=
  ∀ draft value after, build draft = .ok (value, after) → Sound edge draft →
    draft.cursor.peek? ≠ none

namespace Needs

variable {build : Builder α} {next : α → Builder β}

theorem first (needs : Needs edge build) : Needs edge (build >>= next) := by
  intro draft value after success sound
  obtain ⟨found, middle, built, -⟩ := bind_ok success
  exact needs draft found middle built sound

theorem ofRead {read : Reader α} (takes : read.Takes true) : Needs edge (liftM read : Builder α) := by
  intro draft value after success _ empty
  obtain ⟨cursor, ran, rfl⟩ := read_ok success
  obtain ⟨taken, tokens_eq, -, some⟩ := (takes.moves ran).taken
  rw [Cursor.tokens_eq_nil empty] at tokens_eq
  exact some rfl (List.append_eq_nil_iff.mp tokens_eq.symm).1

/-- Without a token ahead no node can be built: it could stand behind any offset. -/
theorem ofLays {build : Builder Nat} (lays : Lays edge [] build fun id => [id]) : Needs edge build := by
  intro draft id after success sound empty
  have none_ := Cursor.tokens_eq_nil empty
  have row : Row edge draft (draft.cursor.lastEnd + 1) [] := by
    change Token.Laid edge _ draft.cursor.tokens
    rw [none_]
    trivial
  obtain ⟨-, extends_, entries, same, row'⟩ := lays draft id after success sound trivial _ row
  obtain ⟨entry, -, -, le, loose⟩ := row'.of_id (show id ∈ Entry.ids entries by simp [same])
  have nonempty : entry.start < entry.stop := loose.nonempty
  have stop_le : entry.stop ≤ after.cursor.lastEnd := loose.stop_le
  obtain ⟨taken, tokens_eq, lastEnd_eq, -⟩ := extends_.advances.taken
  rw [none_] at tokens_eq
  rw [(List.append_eq_nil_iff.mp tokens_eq.symm).1] at lastEnd_eq
  change after.cursor.lastEnd = draft.cursor.lastEnd at lastEnd_eq
  omega

/-- What is read before the token may leave the end where it is. -/
theorem read {strict : Bool} {read : Reader α} (takes : read.Takes strict)
    (rest : ∀ value, Needs edge (next value)) : Needs edge (liftM read >>= next) := by
  intro draft value after success sound empty
  obtain ⟨found, middle, lifted, continued⟩ := bind_ok success
  obtain ⟨cursor, ran, rfl⟩ := read_ok lifted
  have advances := takes.moves ran
  refine rest found _ value after continued (sound.advance advances) ?_
  obtain ⟨taken, tokens_eq, -⟩ := advances.taken
  rw [Cursor.tokens_eq_nil empty] at tokens_eq
  have none_ := (List.append_eq_nil_iff.mp tokens_eq.symm).2
  rcases cursor.advance_cases with ⟨atEnd, -⟩ | ⟨token, -, ahead, -⟩
  · exact atEnd
  · simp [none_] at ahead

theorem ite {condition : Prop} [Decidable condition] {left right : Builder α}
    (onTrue : Needs edge left) (onFalse : Needs edge right) :
    Needs edge (if condition then left else right) := by
  split
  · exact onTrue
  · exact onFalse

/-- No token that is missing passes a test. -/
theorem onNext {test : Token → Bool} {next : Bool → Builder β} (onFalse : Needs edge (next false)) :
    Needs edge (liftM (Reader.nextIs test) >>= next) := by
  intro draft value after success sound empty
  change next (draft.cursor.peek?.any test) draft = .ok (value, after) at success
  rw [empty] at success
  exact onFalse draft value after success sound empty

end Needs

namespace LaysWhen

variable {ins : List Entry} {next : Nat → Builder β} {outs : β → List Nat}

theorem nextStartAt {token : Token} (rest : LaysAt edge token ins (next token.span.start) outs) :
    LaysAt edge token ins (liftM Reader.nextStart >>= next) outs := by
  intro draft result after success sound ahead low row
  change next ((draft.cursor.peek?.map (·.span.start)).getD 0) draft = .ok (result, after) at success
  rw [ahead] at success
  exact rest draft result after success sound ahead low row

/-- The start of the next token, for what needs a token. -/
theorem nextStart (needs : Needs edge (next 0))
    (rest : ∀ token, LaysAt edge token ins (next token.span.start) outs) :
    Lays edge ins (liftM Reader.nextStart >>= next) outs := by
  intro draft result after success sound _ low row
  cases ahead : draft.cursor.peek? with
  | none =>
      change next ((draft.cursor.peek?.map (·.span.start)).getD 0) draft = .ok (result, after) at success
      rw [ahead] at success
      exact absurd ahead (needs draft result after success sound)
  | some token => exact nextStartAt (rest token) draft result after success sound ahead low row

end LaysWhen

end Builder

end Heed
