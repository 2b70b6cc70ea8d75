import Heed.Proofs.Token.Tiling
import Heed.Proofs.Tree.Spans
import Heed.Report.Basic
import Mathlib.Data.List.DropRight
import Mathlib.Data.Prod.Lex
import Mathlib.Order.Monotone.Basic

/-!
# Lines and columns of a source

The index of a source finds the line of every offset: the last one that does not start behind it. Between
characters the position of an offset tells how many line feeds stand before it and how many characters stand behind
the last of them, so that positions rise with offsets.

The index is made of bytes. In UTF-8 only the line feed itself has the byte of a line feed, which is why the lines
can be counted in characters just as well.
-/

set_option autoImplicit false

namespace Heed

namespace LineIndex

/-! ## Starts of lines -/

theorem startsBehind_append (offset : Nat) (left right : List UInt8) :
    startsBehind offset (left ++ right) =
      startsBehind offset left ++ startsBehind (offset + left.length) right := by
  induction left generalizing offset with
  | nil => simp [startsBehind]
  | cons byte left ih =>
      have shift : offset + (left.length + 1) = offset + 1 + left.length := by omega
      by_cases feed : byte = lineFeed
      · simp [startsBehind, feed, ih, shift]
      · simp [startsBehind, feed, ih, shift]

theorem bounds_of_mem_startsBehind {offset start : Nat} {bytes : List UInt8}
    (member : start ∈ startsBehind offset bytes) : offset < start ∧ start ≤ offset + bytes.length := by
  induction bytes generalizing offset with
  | nil => simp [startsBehind] at member
  | cons byte bytes ih =>
      rw [startsBehind] at member
      rw [List.length_cons]
      split at member
      · rcases List.mem_cons.mp member with rfl | member
        · omega
        · have := ih member
          omega
      · have := ih member
        omega

theorem pairwise_startsBehind (offset : Nat) (bytes : List UInt8) :
    (startsBehind offset bytes).Pairwise (· < ·) := by
  induction bytes generalizing offset with
  | nil => exact .nil
  | cons byte bytes ih =>
      rw [startsBehind]
      split
      · apply List.Pairwise.cons
        · intro start member
          exact (bounds_of_mem_startsBehind member).1
        · exact ih (offset + 1)
      · exact ih (offset + 1)

theorem length_startsBehind (offset : Nat) (bytes : List UInt8) :
    (startsBehind offset bytes).length = bytes.count lineFeed := by
  induction bytes generalizing offset with
  | nil => rfl
  | cons byte bytes ih =>
      by_cases feed : byte = lineFeed
      · simp [startsBehind, feed, ih]
      · simp [startsBehind, feed, ih]

/-! ## Characters and bytes -/

def bytes (chars : List Char) : List UInt8 := chars.flatMap String.utf8EncodeChar

theorem bytes_append (left right : List Char) : bytes (left ++ right) = bytes left ++ bytes right :=
  List.flatMap_append

theorem length_bytes (chars : List Char) : (bytes chars).length = byteLength chars := by
  induction chars with
  | nil => rfl
  | cons char chars ih =>
      change (String.utf8EncodeChar char ++ bytes chars).length = _
      rw [List.length_append, String.length_utf8EncodeChar, ih, byteLength]

theorem data_toUTF8 (source : String) : source.toUTF8.data.toList = bytes source.toList := by
  have encoded : source.toByteArray = source.toList.utf8Encode := by
    rw [← String.toByteArray_ofList, String.ofList_toList]
  rw [String.toUTF8, encoded, List.utf8Encode, List.data_toByteArray, bytes]

/-- Of all characters only the line feed has its byte. -/
theorem lineFeed_not_mem {char : Char} (other : char ≠ '\n') : lineFeed ∉ String.utf8EncodeChar char := by
  have differs : char.val.toNat ≠ 10 := by
    intro same
    apply other
    exact Char.ext (UInt32.toNat_inj.mp same)
  have apart : ∀ value : Nat, value < 256 → value ≠ 10 → lineFeed ≠ UInt8.ofNat value := by
    intro value small differs same
    have ten : 10 = value % 256 := congrArg UInt8.toNat same
    omega
  unfold String.utf8EncodeChar
  simp only
  split
  · simp only [List.mem_singleton]
    exact apart _ (by omega) differs
  split
  · simp only [List.mem_cons, List.not_mem_nil, or_false, not_or]
    exact ⟨apart _ (by omega) (by omega), apart _ (by omega) (by omega)⟩
  split
  · simp only [List.mem_cons, List.not_mem_nil, or_false, not_or]
    exact ⟨apart _ (by omega) (by omega), apart _ (by omega) (by omega), apart _ (by omega) (by omega)⟩
  · simp only [List.mem_cons, List.not_mem_nil, or_false, not_or]
    exact ⟨apart _ (by omega) (by omega), apart _ (by omega) (by omega), apart _ (by omega) (by omega),
      apart _ (by omega) (by omega)⟩

theorem count_bytes (chars : List Char) : (bytes chars).count lineFeed = chars.count '\n' := by
  induction chars with
  | nil => rfl
  | cons char chars ih =>
      change (String.utf8EncodeChar char ++ bytes chars).count lineFeed = _
      rw [List.count_append, ih]
      by_cases feed : char = '\n'
      · subst feed
        rw [List.count_cons_self, Nat.add_comm]
        rfl
      · rw [List.count_eq_zero_of_not_mem (lineFeed_not_mem feed), List.count_cons_of_ne feed, Nat.zero_add]

/-! ## The search -/

/-- What the result of a search says: the offset is one of the starts, or the starts before a place are smaller
and those from there on are greater. -/
def Locates (index : LineIndex) (offset : Nat) : SearchResult → Prop
  | .hit place => place < index.starts.size ∧ index.start place = offset
  | .miss place => place ≤ index.starts.size ∧ (∀ earlier < place, index.start earlier < offset) ∧
      ∀ later < index.starts.size, place ≤ later → offset < index.start later

def Rises (index : LineIndex) : Prop :=
  ∀ upper lower, upper < lower → lower < index.starts.size → index.start upper < index.start lower

variable {index : LineIndex} {offset : Nat}

/-- The search keeps the lines apart from those that it still looks at: the ones above start before the offset,
the ones below behind it. -/
theorem locates_searchBetween (rises : index.Rises) {low high : Nat} (ordered : low ≤ high)
    (high_le : high ≤ index.starts.size) (smaller : ∀ earlier < low, index.start earlier < offset)
    (greater : ∀ later < index.starts.size, high ≤ later → offset < index.start later) :
    index.Locates offset (index.searchBetween offset low high) := by
  fun_induction searchBetween index offset low high with
  | case1 low high room middle found => exact ⟨by omega, found⟩
  | case2 low high room middle other before ih =>
      apply ih (by omega) high_le _ greater
      intro earlier below
      by_cases same : earlier = middle
      · rwa [same]
      · have := rises earlier middle (by omega) (by omega)
        omega
  | case3 low high room middle other behind ih =>
      apply ih (by omega) (by omega) smaller
      intro later inside above
      by_cases same : later = middle
      · rw [same]
        omega
      · have := rises middle later (by omega) inside
        omega
  | case4 low high none_ =>
      obtain rfl : low = high := by omega
      exact ⟨high_le, smaller, greater⟩

theorem locates_search (rises : index.Rises) (offset : Nat) : index.Locates offset (index.search offset) := by
  apply locates_searchBetween rises (Nat.zero_le _) (Nat.le_refl _)
  · intro earlier absent
    omega
  · intro later inside outside
    omega

/-- An index whose lines rise from the start of the source. -/
structure Sound (index : LineIndex) : Prop where
  rises : index.Rises
  nonempty : 0 < index.starts.size
  first : index.start 0 = 0

/-- The line of an offset: it does not start behind the offset, and the next one does. -/
structure Holds (index : LineIndex) (offset line : Nat) : Prop where
  line_lt : line < index.starts.size
  start_le : index.start line ≤ offset
  before_next : ∀ later < index.starts.size, line < later → offset < index.start later

theorem Holds.unique {first second : Nat} (holds : index.Holds offset first) (other : index.Holds offset second) :
    first = second := by
  by_contra different
  rcases Nat.lt_or_gt_of_ne different with above | above
  · have := holds.before_next second other.line_lt above
    have := other.start_le
    omega
  · have := other.before_next first holds.line_lt above
    have := holds.start_le
    omega

namespace Sound

variable (sound : index.Sound)

include sound

/-- The first line starts before every other offset, so a search that misses does so behind it. -/
theorem pos_of_miss {next : Nat} (missed : index.search offset = .miss next) : 0 < next := by
  have locates := locates_search sound.rises offset
  rw [missed] at locates
  by_contra none_
  have := locates.2.2 0 sound.nonempty (by omega)
  have := sound.first
  omega

theorem holds_line (offset : Nat) : index.Holds offset (index.line offset) := by
  have locates := locates_search sound.rises offset
  rw [line]
  cases searched : index.search offset with
  | hit place =>
      rw [searched] at locates
      obtain ⟨inside, found⟩ := locates
      refine ⟨inside, Nat.le_of_eq found, ?_⟩
      intro later inside behind
      rw [← found]
      exact sound.rises place later behind inside
  | miss next =>
      have positive := sound.pos_of_miss searched
      rw [searched] at locates
      obtain ⟨inside, smaller, greater⟩ := locates
      refine ⟨?_, Nat.le_of_lt (smaller (next - 1) ?_), ?_⟩
      · dsimp only
        omega
      · omega
      · intro later inside behind
        apply greater later inside
        dsimp only at behind
        omega

end Sound

/-! ## The index of a source -/

variable {source : String}

def startsOf (chars : List Char) : List Nat := 0 :: startsBehind 0 (bytes chars)

theorem starts_ofSource (source : String) : (ofSource source).starts = (startsOf source.toList).toArray := by
  rw [ofSource, data_toUTF8, startsOf]

theorem start_ofSource (source : String) (line : Nat) :
    (ofSource source).start line = (startsOf source.toList)[line]?.getD 0 := by
  rw [start, starts_ofSource, Array.getD_eq_getD_getElem?, List.getElem?_toArray]

theorem size_starts_ofSource (source : String) :
    (ofSource source).starts.size = (startsOf source.toList).length := by
  rw [starts_ofSource, List.size_toArray]

theorem pairwise_startsOf (chars : List Char) : (startsOf chars).Pairwise (· < ·) := by
  apply List.Pairwise.cons
  · intro start member
    exact (bounds_of_mem_startsBehind member).1
  · exact pairwise_startsBehind 0 _

theorem length_startsOf (chars : List Char) : (startsOf chars).length = chars.count '\n' + 1 := by
  rw [startsOf, List.length_cons, length_startsBehind, count_bytes]

theorem startsOf_append (front back : List Char) :
    startsOf (front ++ back) = startsOf front ++ startsBehind (byteLength front) (bytes back) := by
  rw [startsOf, bytes_append, startsBehind_append, length_bytes, Nat.zero_add, startsOf, List.cons_append]

/-- Without a line feed no line starts. -/
theorem startsOf_append_line {front tail : List Char} (inLine : '\n' ∉ tail) :
    startsOf (front ++ tail) = startsOf front := by
  have none_ : startsBehind (byteLength front) (bytes tail) = [] := by
    apply List.eq_nil_of_length_eq_zero
    rw [length_startsBehind, count_bytes, List.count_eq_zero_of_not_mem inLine]
  rw [startsOf_append, none_, List.append_nil]

/-- Behind a line feed a line starts. -/
theorem getLast?_startsOf_concat (before : List Char) :
    (startsOf (before ++ ['\n'])).getLast? = some (byteLength (before ++ ['\n'])) := by
  have last : startsBehind (byteLength before) (bytes ['\n']) = [byteLength before + 1] := rfl
  have width : byteLength (before ++ ['\n']) = byteLength before + 1 := Token.byteLength_append before ['\n']
  rw [startsOf_append, last, List.getLast?_concat, width]

theorem sound_ofSource (source : String) : (ofSource source).Sound where
  rises := by
    intro upper lower above inside
    rw [size_starts_ofSource] at inside
    have rises := List.pairwise_iff_getElem.mp (pairwise_startsOf source.toList) upper lower (by omega) inside above
    rw [start_ofSource, start_ofSource, List.getElem?_eq_getElem inside, List.getElem?_eq_getElem (by omega)]
    exact rises
  nonempty := by
    rw [size_starts_ofSource, length_startsOf]
    omega
  first := by
    rw [start_ofSource]
    rfl

/-- The last line that starts in a text goes on behind it, up to the next line feed. -/
theorem holds_of_append {front back : List Char} (split_eq : source.toList = front ++ back) {last : Nat}
    (isLast : (startsOf front).getLast? = some last) (last_le : last ≤ byteLength front) :
    (ofSource source).Holds (byteLength front) (front.count '\n') ∧
      (ofSource source).start (front.count '\n') = last := by
  have length := length_startsOf front
  have starts : startsOf source.toList = startsOf front ++ startsBehind (byteLength front) (bytes back) := by
    rw [split_eq, startsOf_append]
  have start_eq : (ofSource source).start (front.count '\n') = last := by
    rw [List.getLast?_eq_getElem?, length, Nat.add_sub_cancel] at isLast
    rw [start_ofSource, starts, List.getElem?_append_left (by omega), isLast, Option.getD_some]
  refine ⟨⟨?_, ?_, ?_⟩, start_eq⟩
  · rw [size_starts_ofSource, starts, List.length_append]
    omega
  · rwa [start_eq]
  · intro later inside behind
    rw [size_starts_ofSource, starts, List.length_append] at inside
    have member : (ofSource source).start later ∈ startsBehind (byteLength front) (bytes back) := by
      rw [start_ofSource, starts, List.getElem?_append_right (by omega),
        List.getElem?_eq_getElem (by omega), Option.getD_some]
      exact List.getElem_mem _
    exact (bounds_of_mem_startsBehind member).1

/-- The last line of a text starts behind its last line feed. -/
theorem getLast?_startsOf (chars : List Char) :
    (startsOf chars).getLast? = some (byteLength (chars.rdropWhile (· != '\n'))) := by
  induction chars using List.reverseRecOn with
  | nil => rfl
  | append_singleton chars char ih =>
      rw [List.rdropWhile_concat]
      by_cases feed : char = '\n'
      · subst feed
        exact getLast?_startsOf_concat chars
      · rw [if_pos (by simp [feed]), startsOf_append_line (by simp [Ne.symm feed]), ih]

theorem exists_append_of_mem_startsOf {chars : List Char} {start : Nat} (member : start ∈ startsOf chars) :
    ∃ front back, chars = front ++ back ∧ start = byteLength front := by
  induction chars using List.reverseRecOn with
  | nil => exact ⟨[], [], rfl, List.mem_singleton.mp member⟩
  | append_singleton chars char ih =>
      have earlier : start ∈ startsOf chars → ∃ front back, chars ++ [char] = front ++ back ∧
          start = byteLength front := by
        intro member
        obtain ⟨front, back, rfl, rfl⟩ := ih member
        exact ⟨front, back ++ [char], List.append_assoc front back [char], rfl⟩
      by_cases feed : char = '\n'
      · subst feed
        rw [startsOf_append, List.mem_append] at member
        rcases member with member | member
        · exact earlier member
        · refine ⟨chars ++ ['\n'], [], (List.append_nil _).symm, ?_⟩
          rw [Token.byteLength_append]
          exact List.mem_singleton.mp member
      · rw [startsOf_append_line (by simp [Ne.symm feed])] at member
        exact earlier member

end LineIndex

/-! ## Positions -/

namespace Position

/-- The position behind a text: one line more than it has line feeds, and one column more than it has characters
behind the last of them. -/
def behind (front : List Char) : Position :=
  ⟨1 + front.count '\n', 1 + (front.rtakeWhile (· != '\n')).length⟩

def rank (position : Position) : ℕ ×ₗ ℕ := toLex (position.line, position.column)

/-- A longer text ends at a later position: on a later line, or else on the same line further on. -/
theorem rank_behind_append (front : List Char) {more : List Char} (longer : more ≠ []) :
    (behind front).rank < (behind (front ++ more)).rank := by
  rw [rank, rank, Prod.Lex.toLex_lt_toLex]
  simp only [behind, List.count_append]
  by_cases feeds : '\n' ∈ more
  · left
    have := List.count_pos_iff.mpr feeds
    omega
  · right
    have inLine : ∀ char ∈ more.reverse, (char != '\n') = true := by
      intro char member
      simp only [bne_iff_ne, ne_eq]
      rintro rfl
      exact feeds (List.mem_reverse.mp member)
    have positive := List.length_pos_iff.mpr longer
    constructor
    · rw [List.count_eq_zero_of_not_mem feeds]
      omega
    · rw [List.rtakeWhile, List.rtakeWhile, List.reverse_append, List.takeWhile_append_of_pos inLine,
        List.length_reverse, List.length_reverse, List.length_append, List.length_reverse]
      omega

variable {source : String}

theorem ofOffset_of_append {front back : List Char} (split_eq : source.toList = front ++ back) :
    ofOffset source (byteLength front) = behind front := by
  have size : source.utf8ByteSize = byteLength front + byteLength back := by
    rw [← Token.byteLength_toList, split_eq, Token.byteLength_append]
  have clamped : (LineIndex.ofSource source).clamp (byteLength front) = byteLength front := by
    change min (byteLength front) source.utf8ByteSize = byteLength front
    omega
  have parts : front.rdropWhile (· != '\n') ++ front.rtakeWhile (· != '\n') = front :=
    List.rdropWhile_append_rtakeWhile
  have width : byteLength front =
      byteLength (front.rdropWhile (· != '\n')) + byteLength (front.rtakeWhile (· != '\n')) := by
    rw [← Token.byteLength_append, parts]
  obtain ⟨holds, start_eq⟩ :=
    LineIndex.holds_of_append split_eq (LineIndex.getLast?_startsOf front) (by omega)
  have line_eq := ((LineIndex.sound_ofSource source).holds_line _).unique holds
  have text : Span.text ⟨byteLength (front.rdropWhile (· != '\n')), byteLength front⟩ source =
      String.ofList (front.rtakeWhile (· != '\n')) := by
    rw [width]
    apply Token.text_of_append
    rw [← List.append_assoc, parts, split_eq]
  have source_eq : (LineIndex.ofSource source).source = source := rfl
  simp only [ofOffset, LineIndex.position, clamped, line_eq, start_eq, source_eq, text, String.length_ofList, behind,
    Nat.add_comm]

theorem ofOffset_of_size_le {offset : Nat} (past : source.utf8ByteSize ≤ offset) :
    ofOffset source offset = ofOffset source source.utf8ByteSize := by
  have clamped : (LineIndex.ofSource source).clamp offset =
      (LineIndex.ofSource source).clamp source.utf8ByteSize := by
    change min offset source.utf8ByteSize = min source.utf8ByteSize source.utf8ByteSize
    omega
  rw [ofOffset, ofOffset, LineIndex.position, LineIndex.position, clamped]

end Position

theorem isBoundary_iff {source : String} {offset : Nat} : IsBoundary source offset ↔
    ∃ front back, source.toList = front ++ back ∧ offset = byteLength front := by
  constructor
  · intro boundary
    obtain ⟨front, back, rfl, at_⟩ := String.Pos.Raw.isValid_iff_exists_append.mp boundary
    refine ⟨front.toList, back.toList, String.toList_append, ?_⟩
    rw [Token.byteLength_toList]
    exact congrArg String.Pos.Raw.byteIdx at_
  · rintro ⟨front, back, split_eq, rfl⟩
    exact Token.isBoundary_of_append split_eq

/-- Nothing on the way from an offset to its position is out of range. A search that misses does so behind the first
line. The line is one of the index, and it starts between characters, at or before the offset. -/
structure LineIndex.InRange (index : LineIndex) (offset : Nat) : Prop where
  pos_of_miss : ∀ next, index.search (index.clamp offset) = .miss next → 0 < next
  line_lt : index.line (index.clamp offset) < index.starts.size
  start_le : index.start (index.line (index.clamp offset)) ≤ index.clamp offset
  start_boundary : IsBoundary index.source (index.start (index.line (index.clamp offset)))

theorem LineIndex.inRange_ofSource (source : String) (offset : Nat) : (ofSource source).InRange offset := by
  have sound := sound_ofSource source
  have holds := sound.holds_line ((ofSource source).clamp offset)
  refine ⟨fun _ => sound.pos_of_miss, holds.line_lt, holds.start_le, ?_⟩
  have inside := holds.line_lt
  rw [size_starts_ofSource] at inside
  apply isBoundary_iff.mpr
  apply exists_append_of_mem_startsOf
  rw [start_ofSource, List.getElem?_eq_getElem inside, Option.getD_some]
  exact List.getElem_mem inside

/-- Between characters positions rise with offsets. -/
theorem rank_ofOffset_lt {source : String} {left right : Nat} (leftBoundary : IsBoundary source left)
    (rightBoundary : IsBoundary source right) (before : left < right) :
    (Position.ofOffset source left).rank < (Position.ofOffset source right).rank := by
  obtain ⟨front, back, split_eq, rfl⟩ := isBoundary_iff.mp leftBoundary
  obtain ⟨longer, rest, split_eq', rfl⟩ := isBoundary_iff.mp rightBoundary
  rw [Position.ofOffset_of_append split_eq, Position.ofOffset_of_append split_eq']
  rcases List.append_eq_append_iff.mp (split_eq.symm.trans split_eq') with ⟨more, rfl, -⟩ | ⟨more, rfl, -⟩
  · apply Position.rank_behind_append
    rintro rfl
    simp at before
  · rw [Token.byteLength_append] at before
    omega

/-- A finding ends where it starts or behind. -/
theorem rank_start_le_stop {options : RuleOptions} {source : String} {findings : List Finding}
    (linted : lint options source = .ok findings) {finding : Finding} (member : finding ∈ findings) (file : String) :
    (Record.ofFinding file source finding).start.rank ≤ (Record.ofFinding file source finding).stop.rank := by
  rw [lint] at linted
  cases parsed : Tree.parse source with
  | error error =>
      rw [parsed] at linted
      cases linted
  | ok tree =>
      rw [parsed] at linted
      obtain rfl := Except.ok.inj linted
      obtain ⟨node, -, rfl⟩ := List.mem_map.mp (List.mem_mergeSort.mp member)
      change (Position.ofOffset source (tree.span node).start).rank ≤
        (Position.ofOffset source (tree.span node).stop).rank
      by_cases inside : node < tree.size
      · have sits := Tree.sits_of_parse parsed inside
        rcases Nat.lt_or_eq_of_le sits.start_le with before | same
        · exact le_of_lt (rank_ofOffset_lt sits.edge_start sits.edge_stop before)
        · exact le_of_eq (congrArg (fun offset => (Position.ofOffset source offset).rank) same)
      · rw [Tree.span, Array.getElem?_eq_none (Nat.le_of_not_lt inside)]
        exact le_refl _

/-- A position counts the line feeds before its offset and the characters since the last of them, for offsets between
characters and for those past the end, which stand for the end. For no offset does the index reach out of range. Between
characters positions rise with offsets, line by line, so that no two offsets share one and no finding ends before it
starts. -/
theorem ofOffset_counts_lines (source : String) :
    (∀ offset, IsBoundary source offset ∨ source.utf8ByteSize ≤ offset →
      ∃ front back : String, source = front ++ back ∧ front.utf8ByteSize = min offset source.utf8ByteSize ∧
        Position.ofOffset source offset =
          ⟨1 + front.toList.count '\n', 1 + (front.toList.rtakeWhile (· != '\n')).length⟩) ∧
      (∀ offset, (LineIndex.ofSource source).InRange offset) ∧
      StrictMonoOn (fun offset => (Position.ofOffset source offset).rank) {offset | IsBoundary source offset} ∧
      Set.InjOn (Position.ofOffset source) {offset | IsBoundary source offset} ∧
      ∀ options findings, lint options source = .ok findings → ∀ finding ∈ findings, ∀ file,
        (Record.ofFinding file source finding).start.rank ≤ (Record.ofFinding file source finding).stop.rank := by
  have rising : StrictMonoOn (fun offset => (Position.ofOffset source offset).rank)
      {offset | IsBoundary source offset} := by
    intro left leftBoundary right rightBoundary before
    exact rank_ofOffset_lt leftBoundary rightBoundary before
  refine ⟨?_, LineIndex.inRange_ofSource source, rising, ?_, ?_⟩
  · intro offset reachable
    rcases reachable with boundary | past
    · obtain ⟨front, back, rfl, at_⟩ := String.Pos.Raw.isValid_iff_exists_append.mp boundary
      obtain rfl : offset = front.utf8ByteSize := congrArg String.Pos.Raw.byteIdx at_
      refine ⟨front, back, rfl, (Nat.min_eq_left boundary.le_size).symm, ?_⟩
      rw [← Token.byteLength_toList]
      exact Position.ofOffset_of_append String.toList_append
    · refine ⟨source, "", String.append_empty.symm, (Nat.min_eq_right past).symm, ?_⟩
      rw [Position.ofOffset_of_size_le past, ← Token.byteLength_toList]
      exact Position.ofOffset_of_append (List.append_nil _).symm
  · intro left leftBoundary right rightBoundary same
    exact rising.injOn leftBoundary rightBoundary (congrArg Position.rank same)
  · intro options findings linted finding member file
    exact rank_start_le_stop linted member file

/-- There are two lines before the last one, the second of them empty, and characters of two bytes. A line starts with
the second line feed. None starts in the middle of a character, which is in range all the same. -/
theorem ofOffset_counts_lines_blank :
    ∃ front back : String, "é\n\né = 1" = front ++ back ∧ front.utf8ByteSize = 6 ∧
      Position.ofOffset "é\n\né = 1" 6 = ⟨3, 2⟩ ∧ front.toList.count '\n' = 2 ∧
      (front.toList.rtakeWhile (· != '\n')).length = 1 ∧ Position.ofOffset "é\n\né = 1" 100 = ⟨3, 6⟩ ∧
      (LineIndex.ofSource "é\n\né = 1").search 3 = .hit 1 ∧
      (LineIndex.ofSource "é\n\né = 1").search 5 = .miss 3 ∧ (LineIndex.ofSource "é\n\né = 1").InRange 5 := by
  obtain ⟨counts, inRange, -⟩ := ofOffset_counts_lines "é\n\né = 1"
  have boundary : IsBoundary "é\n\né = 1" 6 := isBoundary_byteLength_take "é\n\né = 1" 4
  obtain ⟨front, back, split_eq, size, position⟩ := counts 6 (.inl boundary)
  have found : Position.ofOffset "é\n\né = 1" 6 = ⟨3, 2⟩ := by decide +kernel
  have last : Position.ofOffset "é\n\né = 1" 100 = ⟨3, 6⟩ := by decide +kernel
  have hit : (LineIndex.ofSource "é\n\né = 1").search 3 = .hit 1 := by decide +kernel
  have miss : (LineIndex.ofSource "é\n\né = 1").search 5 = .miss 3 := by decide +kernel
  obtain ⟨lines, columns⟩ := Position.mk.inj (position.symm.trans found)
  exact ⟨front, back, split_eq, size, found, by omega, by omega, last, hit, miss, inRange 5⟩

end Heed
