import Multilevel.Proofs.Distinct
import Multilevel.Proofs.Random.Draw

namespace Multilevel.Random

theorem perm_swapIfInBounds {β : Type} (a : Array β) (i j : Nat) :
    (a.swapIfInBounds i j).toList.Perm a.toList := by
  rw [Array.swapIfInBounds_def]
  split
  · split
    · exact (Array.swap_perm _ _).toList
    · exact .rfl
  · exact .rfl

theorem always_foldlM_perm {β : Type} {f : Array β → Nat → Draw (Array β)}
    (exchange : ∀ a i, Always (·.toList.Perm a.toList) (f a i)) (places : List Nat) (a : Array β) :
    Always (fun b => b.toList.Perm a.toList) (places.foldlM f a) :=
  always_foldlM (P := fun _ b => b.toList.Perm a.toList) .rfl fun _ i _ b _ same =>
    (exchange b i).mono fun _ next => next.trans same

theorem always_shuffle {β : Type} (elements : List β) :
    Always (·.Perm elements) (shuffle elements) := by
  refine (always_foldlM_perm ?_ _ _).bind fun _ same => always_pure same
  exact fun a i _ => perm_swapIfInBounds a i _

/-- Different places, of which there are as many as asked for. -/
structure Chosen (length amount : Nat) (places : List Nat) : Prop where
  count : places.length = amount
  distinct : places.Nodup
  inside : ∀ p ∈ places, p < length

variable {length amount : Nat} {places : List Nat}

theorem Chosen.perm {others : List Nat} (chosen : Chosen length amount places)
    (same : others.Perm places) : Chosen length amount others where
  count := same.length_eq.trans chosen.count
  distinct := same.nodup_iff.mpr chosen.distinct
  inside p member := chosen.inside p (same.mem_iff.mp member)

theorem Chosen.concat {p : Nat} (chosen : Chosen length amount places) (inside : p < length)
    (new : p ∉ places) : Chosen length (amount + 1) (places ++ [p]) where
  count := by rw [List.length_append, chosen.count]; rfl
  distinct := (List.perm_append_singleton p places).nodup_iff.mpr
    (List.nodup_cons.mpr ⟨new, chosen.distinct⟩)
  inside := List.forall_mem_append.mpr ⟨chosen.inside, by simpa using inside⟩

theorem always_chooseInPlace (enough : amount ≤ length) :
    Always (Chosen length amount) (chooseInPlace length amount) := by
  refine (always_foldlM_perm ?_ _ _).bind fun shuffled same => always_pure ?_
  · exact fun a i _ => perm_swapIfInBounds a i _
  · rw [Array.toList_range] at same
    have part := List.take_sublist amount shuffled.toList
    refine ⟨?_, part.nodup (same.nodup_iff.mpr List.nodup_range), fun p member => ?_⟩
    · rw [List.length_take, same.length_eq, List.length_range, Nat.min_eq_left enough]
    · exact List.mem_range.mp (same.mem_iff.mp (part.subset member))

/-- A place up to each of some increasing places is chosen. The last of these is free, since only
places up to those before it are taken. -/
structure UpTo (limits places : List Nat) : Prop where
  count : places.length = limits.length
  distinct : places.Nodup
  below : ∀ p ∈ places, ∃ limit ∈ limits, p ≤ limit

theorem UpTo.concat {limits : List Nat} {limit p : Nat} (chosen : UpTo limits places)
    (below : p ≤ limit) (new : p ∉ places) : UpTo (limits ++ [limit]) (places ++ [p]) where
  count := by rw [List.length_append, List.length_append, chosen.count]; rfl
  distinct := (List.perm_append_singleton p places).nodup_iff.mpr
    (List.nodup_cons.mpr ⟨new, chosen.distinct⟩)
  below := by
    refine List.forall_mem_append.mpr ⟨fun q listed => ?_, by simpa using .inr below⟩
    obtain ⟨earlier, listed, small⟩ := chosen.below q listed
    exact ⟨earlier, List.mem_append_left _ listed, small⟩

theorem UpTo.chosen {limits : List Nat} (upTo : UpTo limits places)
    (count : limits.length = amount) (inside : ∀ limit ∈ limits, limit < length) :
    Chosen length amount places where
  count := upTo.count.trans count
  distinct := upTo.distinct
  inside p listed := by
    obtain ⟨limit, present, small⟩ := upTo.below p listed
    exact Nat.lt_of_le_of_lt small (inside limit present)

theorem always_chooseOneByOne (enough : amount ≤ length) :
    Always (Chosen length amount) (chooseOneByOne length amount) := by
  have inside : ∀ limit ∈ (List.range length).drop (length - amount), limit < length :=
    fun _ listed => List.mem_range.mp (List.mem_of_mem_drop listed)
  have increasing : ((List.range length).drop (length - amount)).Pairwise (· < ·) :=
    List.pairwise_lt_range.sublist (List.drop_sublist _ _)
  have count : ((List.range length).drop (length - amount)).length = amount := by
    rw [List.length_drop, List.length_range]
    omega
  refine (always_foldlM (P := UpTo) ⟨rfl, .nil, nofun⟩ ?_).bind
    (Q := Chosen length amount) fun chosen upTo => ?_
  · intro before j after chosen split upTo
    rw [split] at increasing
    -- what is chosen so far is at most an earlier limit
    have free : j ∉ chosen := by
      intro taken
      obtain ⟨limit, earlier, small⟩ := upTo.below j taken
      have above := (List.pairwise_append.mp increasing).2.2 limit earlier j List.mem_cons_self
      omega
    refine (always_below32 (Nat.succ_pos j)).bind fun t below => ?_
    split
    · exact always_pure (upTo.concat (Nat.le_refl j) free)
    · rename_i new
      exact always_pure (upTo.concat (Nat.le_of_lt_succ below) new)
  · have whole : Chosen length amount chosen := upTo.chosen count inside
    split
    · exact (always_shuffle chosen).mono fun _ same => whole.perm same
    · exact always_pure whole

theorem Chosen.exists_new (chosen : Chosen length amount places) (more : amount < length) :
    ∃ p < length, p ∉ places := by
  by_contra all
  have every : ∀ p ∈ List.range length, p ∈ places := by
    intro p inside
    by_contra new
    exact all ⟨p, List.mem_range.mp inside, new⟩
  have few := (List.subperm_of_subset List.nodup_range every).length_le
  rw [List.length_range, chosen.count] at few
  omega

theorem always_drawNew (chosen : Chosen length amount places) (more : amount < length)
    (tries : Nat) : Always (fun p => p < length ∧ p ∉ places) (drawNew length places tries) := by
  induction tries with
  | zero =>
    -- no more words are drawn, but there is still a place to be found
    obtain ⟨p, inside, new⟩ := chosen.exists_new more
    have found : ((List.range length).find? (· ∉ places)).isSome :=
      List.find?_isSome.mpr ⟨p, List.mem_range.mpr inside, decide_eq_true new⟩
    obtain ⟨q, read⟩ := Option.isSome_iff_exists.mp found
    refine always_pure ?_
    rw [read]
    exact ⟨List.mem_range.mp (List.mem_of_find?_eq_some read),
      of_decide_eq_true (List.find?_some (p := fun n => decide (n ∉ places)) read)⟩
  | succ tries ih =>
    refine (always_spread32 (Nat.zero_lt_of_lt more)).bind fun t inside => ?_
    split
    · exact ih
    · rename_i new
      exact always_pure ⟨inside, new⟩

theorem always_chooseByRetry (enough : amount ≤ length) :
    Always (Chosen length amount) (chooseByRetry length amount) := by
  suffices all : Always (Chosen length (List.replicate amount ()).length)
      (chooseByRetry length amount) by
    rwa [List.length_replicate] at all
  refine always_foldlM (P := fun before => Chosen length before.length) ⟨rfl, .nil, nofun⟩ ?_
  intro before _ after places split chosen
  have more : before.length < amount := by
    have lengths := congrArg List.length split
    simp only [List.length_replicate, List.length_append, List.length_cons] at lengths
    omega
  rw [List.length_append]
  refine (always_drawNew chosen (Nat.lt_of_lt_of_le more enough) period).bind ?_
  exact fun p ⟨inside, new⟩ => always_pure (chosen.concat inside new)

theorem increasing_mergeSort {numbers : List Nat} (distinct : numbers.Nodup) :
    (numbers.mergeSort (· ≤ ·)).Pairwise (· < ·) := by
  have sorted : (numbers.mergeSort (· ≤ ·)).Pairwise (decide <| · ≤ ·) :=
    List.pairwise_mergeSort (fun a b c => by simpa using Nat.le_trans)
      (fun a b => by simpa using Nat.le_total a b) numbers
  have once : (numbers.mergeSort (· ≤ ·)).Nodup :=
    (List.mergeSort_perm numbers _).nodup_iff.mpr distinct
  exact (sorted.and once).imp fun ⟨le, ne⟩ => Nat.lt_of_le_of_ne (of_decide_eq_true le) ne

/-- A choice among enough places, in increasing order. -/
theorem always_choose (length amount : Nat) :
    Always (fun places => Chosen length (min amount length) places ∧ places.Pairwise (· < ·))
      (choose length amount) := by
  have enough := Nat.min_le_right amount length
  have sorted (places : List Nat) (chosen : Chosen length (min amount length) places) :=
    always_pure (P := fun places => Chosen length (min amount length) places ∧
        places.Pairwise (· < ·))
      ⟨chosen.perm (List.mergeSort_perm places _), increasing_mergeSort chosen.distinct⟩
  unfold choose
  dsimp only
  split
  · exact (always_chooseInPlace enough).bind sorted
  · split
    · exact (always_chooseOneByOne enough).bind sorted
    · exact (always_chooseByRetry enough).bind sorted

end Multilevel.Random
