import Mathlib.Algebra.Ring.Nat
import Mathlib.Data.List.Basic
import Mathlib.Data.List.Induction
import Mathlib.Data.List.Perm.Subperm

/-!
# Distinct elements

`List.eraseDups` lists the elements of a list once each, in the order in which they are met. What
is met for the first time when the elements are expanded does not depend on their repetitions
(`eraseDups_flatMap`), it stands in the order of these times (`pairwise_eraseDups_flatMap`), and
values come in one group for each key (`perm_groups`) or in as many as they belong to
(`perm_flatMap_filter`).
-/
namespace Multilevel

variable {α β : Type}

theorem length_le_of_nodup {numbers : List Nat} {count : Nat} (once : numbers.Nodup)
    (below : ∀ n ∈ numbers, n < count) : numbers.length ≤ count := by
  have inside : numbers ⊆ List.range count := fun n member => List.mem_range.mpr (below n member)
  simpa using (List.subperm_of_subset once inside).length_le

section
variable [BEq α] [LawfulBEq α]

theorem removeAll_congr {xs seen known : List α} (same : ∀ a, a ∈ seen ↔ a ∈ known) :
    xs.removeAll seen = xs.removeAll known := by
  unfold List.removeAll
  refine List.filter_congr fun a _ => ?_
  simp [same a]

theorem removeAll_eq_nil {xs seen : List α} (subset : ∀ a ∈ xs, a ∈ seen) :
    xs.removeAll seen = [] := by
  unfold List.removeAll
  refine List.filter_eq_nil_iff.mpr fun a member => ?_
  simpa using subset a member

theorem eraseDups_concat (xs : List α) (a : α) :
    (xs ++ [a]).eraseDups = if a ∈ xs then xs.eraseDups else xs.eraseDups ++ [a] := by
  rw [List.eraseDups_append]
  by_cases met : a ∈ xs
  · rw [if_pos met, removeAll_eq_nil (by simpa using met)]
    simp
  · rw [if_neg met]
    simp [List.removeAll, met, List.eraseDups_cons]

theorem nodup_eraseDups (xs : List α) : xs.eraseDups.Nodup := by
  induction xs using List.reverseRecOn with
  | nil => simp
  | append_singleton xs a ih =>
    rw [eraseDups_concat]
    split
    · exact ih
    · rename_i fresh
      refine List.nodup_append.mpr ⟨ih, by simp, fun b member c last => ?_⟩
      obtain rfl := List.mem_singleton.mp last
      rintro rfl
      exact fresh (List.mem_eraseDups.mp member)

theorem eraseDups_sublist (xs : List α) : xs.eraseDups.Sublist xs := by
  induction xs using List.reverseRecOn with
  | nil => simp
  | append_singleton xs a ih =>
    rw [eraseDups_concat]
    split
    · exact ih.trans (List.sublist_append_left xs [a])
    · exact ih.append (List.Sublist.refl [a])

theorem eraseDups_of_nodup {xs : List α} (once : xs.Nodup) : xs.eraseDups = xs := by
  induction xs using List.reverseRecOn with
  | nil => simp
  | append_singleton xs a ih =>
    obtain ⟨before, -, apart⟩ := List.nodup_append.mp once
    have fresh : a ∉ xs := fun met => apart a met a List.mem_cons_self rfl
    rw [eraseDups_concat, if_neg fresh, ih before]

theorem pairwise_idxOf_eraseDups (xs : List α) :
    xs.eraseDups.Pairwise fun a b => xs.idxOf a < xs.idxOf b := by
  induction xs using List.reverseRecOn with
  | nil => simp
  | append_singleton xs a ih =>
    have old : ∀ b ∈ xs.eraseDups, (xs ++ [a]).idxOf b = xs.idxOf b := fun b member =>
      List.idxOf_append_of_mem (List.mem_eraseDups.mp member)
    have before : xs.eraseDups.Pairwise fun b c => (xs ++ [a]).idxOf b < (xs ++ [a]).idxOf c :=
      ih.imp_of_mem fun first second below => by rwa [old _ first, old _ second]
    rw [eraseDups_concat]
    split
    · exact before
    · rename_i fresh
      refine List.pairwise_append.mpr ⟨before, List.pairwise_singleton _ _, fun b member c last => ?_⟩
      obtain rfl := List.mem_singleton.mp last
      rw [old b member, List.idxOf_append_of_notMem fresh]
      have bound := List.idxOf_lt_length_of_mem (List.mem_eraseDups.mp member)
      omega

/-- A list that is expanded element by element meets the same elements first when the repetitions
are left out. -/
theorem eraseDups_flatMap [BEq β] [LawfulBEq β] (xs : List α) (f : α → List β) :
    (xs.eraseDups.flatMap f).eraseDups = (xs.flatMap f).eraseDups := by
  induction xs using List.reverseRecOn with
  | nil => simp
  | append_singleton xs a ih =>
    have single : [a].flatMap f = f a := List.flatMap_singleton f a
    rw [List.flatMap_append, single, eraseDups_concat]
    by_cases met : a ∈ xs
    · have known : ∀ b ∈ f a, b ∈ xs.flatMap f := fun b member =>
        List.mem_flatMap.mpr ⟨a, met, member⟩
      rw [if_pos met, ih, List.eraseDups_append, removeAll_eq_nil known]
      simp
    · have seen : ∀ b, b ∈ xs.eraseDups.flatMap f ↔ b ∈ xs.flatMap f := by
        intro b
        simp only [List.mem_flatMap, List.mem_eraseDups]
      rw [if_neg met, List.flatMap_append, single, List.eraseDups_append, List.eraseDups_append,
        ih, removeAll_congr seen]

theorem eraseDups_filterMap [BEq β] [LawfulBEq β] (xs : List α) (f : α → Option β) :
    (xs.eraseDups.filterMap f).eraseDups = (xs.filterMap f).eraseDups := by
  simp only [List.filterMap_eq_flatMap_toList]
  exact eraseDups_flatMap xs _

/-- Elements that are collected one by one, unless they are passed over or there already. -/
theorem foldl_collect (skip : α → Bool) (xs : List α) :
    xs.foldl (fun met a => if skip a ∨ a ∈ met then met else met ++ [a]) [] =
      (xs.filter fun a => !skip a).eraseDups := by
  induction xs using List.reverseRecOn with
  | nil => simp
  | append_singleton xs a ih =>
    rw [List.foldl_append, List.foldl_cons, List.foldl_nil, ih, List.filter_append]
    by_cases passed : skip a = true
    · simp [passed]
    · have kept : [a].filter (fun a => !skip a) = [a] := by simp [passed]
      rw [kept, eraseDups_concat]
      simp only [passed, Bool.false_eq_true, false_or, List.mem_eraseDups]

end

/-! ### First occurrences -/

/-- A list that is expanded element by element meets a value at some of its positions. -/
def MeetsAt (xs : List α) (f : α → List β) (b : β) (i : Nat) : Prop :=
  ∃ a, xs[i]? = some a ∧ b ∈ f a

theorem MeetsAt.lt {xs : List α} {f : α → List β} {b : β} {i : Nat} (met : MeetsAt xs f b i) :
    i < xs.length := by
  obtain ⟨a, read, -⟩ := met
  exact (List.getElem?_eq_some_iff.mp read).1

theorem mem_flatMap_iff_meetsAt {xs : List α} {f : α → List β} {b : β} :
    b ∈ xs.flatMap f ↔ ∃ i, MeetsAt xs f b i := by
  rw [List.mem_flatMap]
  constructor
  · intro ⟨a, present, listed⟩
    obtain ⟨i, read⟩ := List.mem_iff_getElem?.mp present
    exact ⟨i, a, read, listed⟩
  · intro ⟨i, a, read, listed⟩
    exact ⟨a, List.mem_of_getElem? read, listed⟩

theorem meetsAt_concat {xs : List α} {f : α → List β} {a : α} {b : β} {i : Nat} :
    MeetsAt (xs ++ [a]) f b i ↔ MeetsAt xs f b i ∨ i = xs.length ∧ b ∈ f a := by
  unfold MeetsAt
  rcases Nat.lt_trichotomy i xs.length with inside | last | outside
  · simp [List.getElem?_append_left inside, Nat.ne_of_lt inside]
  · simp [last]
  · have beyond : (xs ++ [a]).length ≤ i := by
      rw [List.length_append, List.length_singleton]
      omega
    simp [List.getElem?_eq_none beyond, List.getElem?_eq_none (Nat.le_of_lt outside),
      Nat.ne_of_gt outside]

/-- Distinct values stand in the order in which they are met: by the position where a value is met
first, and by an order of their own where one position has several. -/
theorem pairwise_eraseDups_flatMap [BEq β] [LawfulBEq β] {R : β → β → Prop} {f : α → List β}
    {xs : List α} (ordered : ∀ a ∈ xs, (f a).Pairwise R) :
    (xs.flatMap f).eraseDups.Pairwise fun b c =>
      ∃ i, MeetsAt xs f b i ∧ ∀ j, MeetsAt xs f c j → i < j ∨ i = j ∧ R b c := by
  induction xs using List.reverseRecOn with
  | nil => simp
  | append_singleton xs a ih =>
    obtain ⟨before, last⟩ := List.forall_mem_append.mp ordered
    have fresh : ∀ c ∈ ((f a).removeAll (xs.flatMap f)).eraseDups,
        c ∈ f a ∧ ∀ j, ¬ MeetsAt xs f c j := by
      intro c member
      rw [List.mem_eraseDups, List.removeAll, List.mem_filter] at member
      obtain ⟨listed, unseen⟩ := member
      refine ⟨listed, fun j met => ?_⟩
      have seen := mem_flatMap_iff_meetsAt.mpr ⟨j, met⟩
      simp [seen] at unseen
    rw [List.flatMap_append, List.flatMap_singleton, List.eraseDups_append, List.pairwise_append]
    simp only [meetsAt_concat]
    refine ⟨(ih before).imp ?_, ?_, ?_⟩
    · rintro b c ⟨i, met, earlier⟩
      refine ⟨i, .inl met, ?_⟩
      rintro j (old | ⟨rfl, -⟩)
      · exact earlier j old
      · exact .inl met.lt
    · have own : (((f a).removeAll (xs.flatMap f)).eraseDups).Pairwise R :=
        (last a List.mem_cons_self).sublist ((eraseDups_sublist _).trans List.filter_sublist)
      refine own.imp_of_mem fun {b c} first second related => ?_
      refine ⟨xs.length, .inr ⟨rfl, (fresh b first).1⟩, ?_⟩
      rintro j (old | ⟨rfl, -⟩)
      · exact absurd old ((fresh c second).2 j)
      · exact .inr ⟨rfl, related⟩
    · intro b first c second
      obtain ⟨i, met⟩ := mem_flatMap_iff_meetsAt.mp (List.mem_eraseDups.mp first)
      refine ⟨i, .inl met, ?_⟩
      rintro j (old | ⟨rfl, -⟩)
      · exact absurd old ((fresh c second).2 j)
      · exact .inl met.lt

/-! ### Groups -/

/-- Values by their keys: those that have some keys are the groups of these keys together. -/
theorem perm_groups [DecidableEq α] (key : β → α) (xs : List β) (keep : β → Bool) {keys : List α}
    (once : keys.Nodup) (kept : ∀ x ∈ xs, keep x = true ↔ key x ∈ keys) :
    (keys.flatMap fun k => xs.filter fun x => key x = k).Perm (xs.filter keep) := by
  induction keys generalizing keep with
  | nil =>
    have none : xs.filter keep = [] := List.filter_eq_nil_iff.mpr fun x member => by
      simp [kept x member]
    rw [none]
    exact List.Perm.nil
  | cons k keys ih =>
    obtain ⟨fresh, once⟩ := List.nodup_cons.mp once
    have own : (xs.filter keep).filter (fun x => key x = k) = xs.filter fun x => key x = k := by
      rw [List.filter_filter]
      refine List.filter_congr fun x member => ?_
      by_cases first : key x = k
      · simp [first, (kept x member).mpr (by simp [first])]
      · simp [first]
    have others := ih (fun x => !decide (key x = k) && keep x) once fun x member => by
      by_cases first : key x = k
      · simp [first, fresh]
      · simp [first, kept x member]
    have parts := List.filter_append_perm (fun x => decide (key x = k)) (xs.filter keep)
    rw [own, List.filter_filter] at parts
    rw [List.flatMap_cons]
    exact (others.append_left _).trans parts

theorem countP_range_mem {numbers : List Nat} {count : Nat} (below : ∀ n ∈ numbers, n < count) :
    (List.range count).countP (· ∈ numbers) = numbers.eraseDups.length := by
  have same : ((List.range count).filter (· ∈ numbers)).Perm numbers.eraseDups := by
    refine (List.perm_ext_iff_of_nodup (List.nodup_range.filter _) (nodup_eraseDups numbers)).mpr
      fun n => ?_
    simp only [List.mem_filter, List.mem_range, decide_eq_true_eq, List.mem_eraseDups]
    exact and_iff_right_of_imp (below n)
  rw [List.countP_eq_length_filter, same.length_eq]

theorem flatMap_singleton_if (keys : List α) (belongs : α → Bool) (x : β) :
    (keys.flatMap fun k => if belongs k then [x] else []) = List.replicate (keys.countP belongs) x := by
  induction keys with
  | nil => rfl
  | cons k keys ih =>
    rw [List.flatMap_cons, ih]
    by_cases own : belongs k = true
    · rw [if_pos own, List.countP_cons_of_pos own, List.replicate_succ]
      rfl
    · rw [if_neg own, List.countP_cons_of_neg own]
      rfl

/-- Values that stand in a group for each key they belong to stand there once for each such key. -/
theorem perm_flatMap_filter (keys : List α) (xs : List β) (belongs : α → β → Bool) :
    (keys.flatMap fun k => xs.filter (belongs k)).Perm
      (xs.flatMap fun x => List.replicate (keys.countP (belongs · x)) x) := by
  induction xs with
  | nil => simp
  | cons x xs ih =>
    have parts : (fun k => (x :: xs).filter (belongs k)) =
        fun k => (if belongs k x then [x] else []) ++ xs.filter (belongs k) := by
      funext k
      rw [List.filter_cons]
      split <;> rfl
    rw [parts, List.flatMap_cons, ← flatMap_singleton_if]
    exact (List.flatMap_append_perm ..).symm.trans (ih.append_left _)

/-- Counted by keys or by values, there are as many pairs of a key and a value that belongs to it. -/
theorem sum_countP (keys : List α) (xs : List β) (belongs : α → β → Bool) :
    (keys.map fun k => xs.countP (belongs k)).sum =
      (xs.map fun x => keys.countP (belongs · x)).sum := by
  have pairs := (perm_flatMap_filter keys xs belongs).length_eq
  simp only [List.length_flatMap, List.length_replicate, ← List.countP_eq_length_filter] at pairs
  exact pairs

end Multilevel
