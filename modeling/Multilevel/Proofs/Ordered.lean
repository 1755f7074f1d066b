import Multilevel.Ordered

namespace Multilevel.Ordered

theorem mem_insert {a b : Nat} {s : List Nat} : b ∈ insert a s ↔ b = a ∨ b ∈ s := by
  fun_induction insert a s with
  | case1 => simp
  | case2 c rest below => simp
  | case3 rest => simp
  | case4 c rest _ _ ih =>
    rw [List.mem_cons, ih, List.mem_cons]
    exact or_left_comm

theorem mem_ofList {a : Nat} {numbers : List Nat} : a ∈ ofList numbers ↔ a ∈ numbers := by
  induction numbers with
  | nil => simp [ofList]
  | cons b rest ih =>
    rw [show ofList (b :: rest) = insert b (ofList rest) from rfl, mem_insert, ih, List.mem_cons]

theorem increasing_insert {a : Nat} {s : List Nat} (increasing : s.Pairwise (· < ·)) :
    (insert a s).Pairwise (· < ·) := by
  fun_induction insert a s with
  | case1 => simp
  | case2 c rest below =>
    refine List.pairwise_cons.mpr ⟨fun b member => ?_, increasing⟩
    rcases List.mem_cons.mp member with rfl | later
    · exact below
    · exact Nat.lt_trans below ((List.pairwise_cons.mp increasing).1 b later)
  | case3 rest => exact increasing
  | case4 c rest above different ih =>
    obtain ⟨first, others⟩ := List.pairwise_cons.mp increasing
    refine List.pairwise_cons.mpr ⟨fun b member => ?_, ih others⟩
    rcases mem_insert.mp member with rfl | later
    · omega
    · exact first b later

theorem increasing_ofList (numbers : List Nat) : (ofList numbers).Pairwise (· < ·) := by
  induction numbers with
  | nil => exact List.Pairwise.nil
  | cons b rest ih => exact increasing_insert ih

theorem eq_of_mem_iff {s t : List Nat} (left : s.Pairwise (· < ·)) (right : t.Pairwise (· < ·))
    (same : ∀ a, a ∈ s ↔ a ∈ t) : s = t := by
  have permuted : s.Perm t :=
    (List.perm_ext_iff_of_nodup (left.imp Nat.ne_of_lt) (right.imp Nat.ne_of_lt)).mpr same
  exact permuted.eq_of_pairwise (fun a b _ _ below above => absurd below (Nat.lt_asymm above))
    left right

theorem ofList_congr {numbers others : List Nat} (same : ∀ a, a ∈ numbers ↔ a ∈ others) :
    ofList numbers = ofList others :=
  eq_of_mem_iff (increasing_ofList _) (increasing_ofList _)
    fun a => by rw [mem_ofList, mem_ofList, same]

theorem ofList_of_increasing {s : List Nat} (increasing : s.Pairwise (· < ·)) : ofList s = s :=
  eq_of_mem_iff (increasing_ofList s) increasing fun _ => mem_ofList

theorem perm_ofList {numbers : List Nat} (distinct : numbers.Nodup) : (ofList numbers).Perm numbers :=
  (List.perm_ext_iff_of_nodup ((increasing_ofList numbers).imp Nat.ne_of_lt) distinct).mpr
    fun _ => mem_ofList

theorem length_ofList_le_one {numbers : List Nat} :
    (ofList numbers).length ≤ 1 ↔ ∀ a ∈ numbers, ∀ b ∈ numbers, a = b := by
  have increasing := increasing_ofList numbers
  constructor
  · intro small a first b second
    rw [← mem_ofList] at first second
    match h : ofList numbers with
    | [] => rw [h] at first; cases first
    | [c] => rw [h, List.mem_singleton] at first second; exact first.trans second.symm
    | _ :: _ :: _ => rw [h] at small; simp at small
  · intro same
    match h : ofList numbers with
    | [] => simp
    | [_] => simp
    | c :: d :: rest =>
      have first : c ∈ numbers := mem_ofList.mp (by rw [h]; simp)
      have second : d ∈ numbers := mem_ofList.mp (by rw [h]; simp)
      rw [h] at increasing
      have below := (List.pairwise_cons.mp increasing).1 d List.mem_cons_self
      have equal := same c first d second
      omega

theorem find?_le_eq_some {s : List Nat} (increasing : s.Pairwise (· < ·)) {bound n : Nat} :
    s.find? (bound ≤ ·) = some n ↔ n ∈ s ∧ bound ≤ n ∧ ∀ m ∈ s, bound ≤ m → n ≤ m := by
  induction s with
  | nil => simp
  | cons a s ih =>
    obtain ⟨first, others⟩ := List.pairwise_cons.mp increasing
    by_cases above : bound ≤ a
    · rw [List.find?_cons_of_pos (by simpa using above), Option.some.injEq]
      constructor
      · rintro rfl
        refine ⟨List.mem_cons_self, above, List.forall_mem_cons.mpr ⟨fun _ => Nat.le_refl a, ?_⟩⟩
        exact fun m member _ => Nat.le_of_lt (first m member)
      · rintro ⟨member, -, least⟩
        rcases List.mem_cons.mp member with rfl | later
        · rfl
        · exact absurd (first n later) (Nat.not_lt.mpr (least a List.mem_cons_self above))
    · rw [List.find?_cons_of_neg (by simpa using above), ih others, List.mem_cons,
        List.forall_mem_cons]
      constructor
      · rintro ⟨member, stranger, least⟩
        exact ⟨.inr member, stranger, fun known => absurd known above, least⟩
      · rintro ⟨rfl | member, stranger, -, least⟩
        · exact absurd stranger above
        · exact ⟨member, stranger, least⟩

end Multilevel.Ordered
