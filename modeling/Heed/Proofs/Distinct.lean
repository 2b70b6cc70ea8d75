import Mathlib.Data.List.Induction

/-!
# Lists without repetitions

A list with its repetitions erased keeps every item where it first occurs. How the items of a list came
about does not matter for that: repetitions may be erased from its parts beforehand.
-/

set_option autoImplicit false

namespace Heed

section

variable {α β : Type} [BEq α] [LawfulBEq α] [BEq β] [LawfulBEq β]

omit [LawfulBEq α] in
/-- Erasing repetitions goes on with the items that differ from the first one. -/
theorem eraseDups_induction {motive : List α → Prop} (nil : motive [])
    (cons : ∀ item rest, motive (rest.filter fun other => !other == item) → motive (item :: rest))
    (items : List α) : motive items := by
  induction length_eq : items.length using Nat.strongRecOn generalizing items with
  | ind length ih =>
      cases items with
      | nil => exact nil
      | cons item rest =>
          refine cons item rest (ih _ ?_ _ rfl)
          rw [← length_eq, List.length_cons]
          exact Nat.lt_succ_of_le (List.length_filter_le _ _)

theorem nodup_eraseDups (items : List α) : items.eraseDups.Nodup := by
  induction items using eraseDups_induction with
  | nil => exact List.nodup_nil
  | cons item rest ih =>
      rw [List.eraseDups_cons, List.nodup_cons]
      refine ⟨fun member => ?_, ih⟩
      have kept := (List.mem_filter.mp (List.mem_eraseDups.mp member)).2
      simp at kept

theorem eraseDups_map (f : α → β) (items : List α)
    (inj : ∀ left ∈ items, ∀ right ∈ items, f left = f right → left = right) :
    (items.map f).eraseDups = items.eraseDups.map f := by
  induction items using eraseDups_induction with
  | nil => rfl
  | cons item rest ih =>
      rw [List.map_cons, List.eraseDups_cons, List.eraseDups_cons, List.map_cons, List.filter_map]
      have kept : rest.filter ((fun other => !other == f item) ∘ f) =
          rest.filter fun other => !other == item := by
        refine List.filter_congr fun other member => ?_
        have same : f other = f item ↔ other = item :=
          ⟨inj other (.tail _ member) item (.head _), congrArg f⟩
        rw [Bool.eq_iff_iff]
        simp [same]
      rw [kept, ih]
      intro left leftMember right rightMember
      exact inj left (.tail _ (List.mem_filter.mp leftMember).1) right
        (.tail _ (List.mem_filter.mp rightMember).1)

theorem eraseDups_of_nodup {items : List α} (nodup : items.Nodup) : items.eraseDups = items := by
  induction items with
  | nil => rfl
  | cons item rest ih =>
      obtain ⟨fresh, nodup⟩ := List.nodup_cons.mp nodup
      have all : rest.filter (fun other => !other == item) = rest := by
        refine List.filter_eq_self.mpr fun other member => ?_
        have differ : other ≠ item := fun same => fresh (same ▸ member)
        simpa using differ
      rw [List.eraseDups_cons, all, ih nodup]

theorem eraseDups_filter (keeps : α → Bool) (items : List α) :
    (items.filter keeps).eraseDups = items.eraseDups.filter keeps := by
  induction items using eraseDups_induction with
  | nil => rfl
  | cons item rest ih =>
      rw [List.eraseDups_cons, List.filter_cons, List.filter_cons, ← ih, List.filter_filter]
      split
      case isTrue =>
          rw [List.eraseDups_cons, List.filter_filter]
          simp only [Bool.and_comm]
      case isFalse drops =>
          -- what is kept differs from the first item already
          congr 1
          refine List.filter_congr fun other _ => ?_
          by_cases same : other = item
          · simp [same, drops]
          · simp [same]

/-- Only what remains of the parts matters for what remains of the whole. -/
theorem eraseDups_append_congr {left left' right right' : List α}
    (sameLeft : left.eraseDups = left'.eraseDups) (sameRight : right.eraseDups = right'.eraseDups) :
    (left ++ right).eraseDups = (left' ++ right').eraseDups := by
  have members : ∀ item, left.elem item = left'.elem item := by
    intro item
    rw [Bool.eq_iff_iff, List.elem_iff, List.elem_iff, ← List.mem_eraseDups, sameLeft, List.mem_eraseDups]
  rw [List.eraseDups_append, List.eraseDups_append, List.removeAll, List.removeAll, eraseDups_filter,
    eraseDups_filter, sameLeft, sameRight]
  simp only [members]

theorem eraseDups_append_of_subset {left right : List α} (subset : right ⊆ left) :
    (left ++ right).eraseDups = left.eraseDups := by
  have nothing : right.removeAll left = [] := by
    refine List.filter_eq_nil_iff.mpr fun item member => ?_
    simpa using subset member
  rw [List.eraseDups_append, nothing, List.eraseDups_nil, List.append_nil]

/-- An item behind a row remains if it is new. -/
theorem eraseDups_concat (items : List α) (item : α) :
    (items ++ [item]).eraseDups =
      if items.elem item then items.eraseDups else items.eraseDups ++ [item] := by
  rw [List.eraseDups_append, List.removeAll, List.filter_cons, List.filter_nil]
  cases items.elem item with
  | true => exact List.append_nil _
  | false => rfl

theorem eraseDups_flatMap_eraseDups (f : α → List β) (items : List α) :
    (items.eraseDups.flatMap f).eraseDups = (items.flatMap f).eraseDups := by
  induction items using List.reverseRecOn with
  | nil => rfl
  | append_singleton items item ih =>
      rw [eraseDups_concat, List.flatMap_append, List.flatMap_singleton]
      split
      case isTrue known =>
          have subset : f item ⊆ items.flatMap f := fun _ member =>
            List.mem_flatMap.mpr ⟨item, List.elem_iff.mp known, member⟩
          rw [eraseDups_append_of_subset subset, ih]
      case isFalse =>
          rw [List.flatMap_append, List.flatMap_singleton]
          exact eraseDups_append_congr ih rfl

end

/-! ## The order of what remains -/

/-- The items of a row, each once, in the order in which they first occur. -/
structure FirstOccurrences {α : Type} [BEq α] (items distinct : List α) : Prop where
  mem_iff : ∀ item, item ∈ distinct ↔ item ∈ items
  ordered : distinct.Pairwise fun one other => items.idxOf one < items.idxOf other

section

variable {α : Type} [BEq α] [LawfulBEq α]

theorem firstOccurrences_eraseDups (items : List α) : FirstOccurrences items items.eraseDups := by
  refine ⟨fun item => List.mem_eraseDups, ?_⟩
  induction items using List.reverseRecOn with
  | nil => exact .nil
  | append_singleton items last ih =>
      have before : ∀ item ∈ items.eraseDups, (items ++ [last]).idxOf item = items.idxOf item := by
        intro item member
        rw [List.idxOf_append, if_pos (List.mem_eraseDups.mp member)]
      have kept : items.eraseDups.Pairwise fun one other =>
          (items ++ [last]).idxOf one < (items ++ [last]).idxOf other := by
        refine ih.imp_of_mem fun {one other} oneIn otherIn less => ?_
        rwa [before one oneIn, before other otherIn]
      rw [eraseDups_concat]
      split
      case isTrue => exact kept
      case isFalse fresh =>
          rw [List.elem_iff] at fresh
          rw [List.pairwise_append]
          refine ⟨kept, List.pairwise_singleton _ _, fun item member other same => ?_⟩
          rw [List.mem_singleton.mp same, before item member, List.idxOf_append, if_neg fresh]
          have inside := List.idxOf_lt_length_iff.mpr (List.mem_eraseDups.mp member)
          omega

theorem eraseDups_perm {items others : List α} (perm : items.Perm others) :
    items.eraseDups.Perm others.eraseDups := by
  rw [List.perm_ext_iff_of_nodup (nodup_eraseDups items) (nodup_eraseDups others)]
  intro item
  rw [List.mem_eraseDups, List.mem_eraseDups, perm.mem_iff]

end

end Heed
