import Mathlib.Data.List.Basic
import Mathlib.Data.Rat.Sqrt
import Multilevel.Proofs.Distinct
import Multilevel.Proofs.Weight

/-!
# Exact addition

Rounding makes a sum depend on the order of its terms. Where addition is exact, as it is for
rational numbers, vectors can be added in groups (`sumOf_flatMap`). Where products are exact as
well, vectors that stand behind one another cost what their sum costs (`scalar_flatten`), and groups
may share vectors (`sumOf_groups`). A difference is that of the parts that differ (`zipWith_sub_add`).
-/
namespace Multilevel

open Weight

variable {α : Type} [Zero α] [Add α]

/-- Addition as of rational numbers, without rounding. -/
structure ExactAddition (α : Type) [Zero α] [Add α] : Prop where
  comm : ∀ a b : α, a + b = b + a
  assoc : ∀ a b c : α, a + b + c = a + (b + c)
  zero : ∀ a : α, a + 0 = a

-- found first, so that no statement depends on what else is known of rational numbers
instance zeroRat : Zero Rat := ⟨0⟩

instance oneRat : One Rat := ⟨1⟩

/-- A rational number has a root if it is a square. None is infinite: zero stands in for it. -/
instance gaugeRat : Gauge Rat := ⟨Rat.sqrt, 0, fun x => x.floor.toNat⟩

theorem exactAddition_rat : ExactAddition Rat := ⟨Rat.add_comm, Rat.add_assoc, Rat.add_zero⟩

namespace ExactAddition

theorem zipWith_assoc (exact : ExactAddition α) (u v w : List α) :
    List.zipWith (· + ·) (List.zipWith (· + ·) u v) w =
      List.zipWith (· + ·) u (List.zipWith (· + ·) v w) := by
  induction u generalizing v w with
  | nil => rfl
  | cons a u ih =>
    cases v with
    | nil => rfl
    | cons b v =>
      cases w with
      | nil => rfl
      | cons c w => simp only [List.zipWith_cons_cons, ih, exact.assoc]

theorem zipWith_zeros (exact : ExactAddition α) {dim : Nat} {v : List α}
    (length : v.length = dim) : List.zipWith (· + ·) v (zeros dim) = v := by
  induction v generalizing dim with
  | nil => rfl
  | cons a v ih =>
    subst length
    exact List.cons_eq_cons.mpr ⟨exact.zero a, ih rfl⟩

theorem zeros_zipWith (exact : ExactAddition α) {dim : Nat} {v : List α}
    (length : v.length = dim) : List.zipWith (· + ·) (zeros dim) v = v := by
  rw [List.zipWith_comm_of_comm exact.comm]
  exact exact.zipWith_zeros length

theorem sumOf_zeros (exact : ExactAddition α) {dim : Nat} {vectors : List (List α)}
    (none : ∀ v ∈ vectors, v = zeros dim) : sumOf dim vectors = zeros dim := by
  induction vectors with
  | nil => rfl
  | cons v vectors ih =>
    obtain ⟨first, others⟩ := List.forall_mem_cons.mp none
    subst first
    change addAll (List.zipWith (· + ·) (zeros dim) (zeros dim)) vectors = zeros dim
    rw [exact.zipWith_zeros (length_zeros dim)]
    exact ih others

theorem addAll_eq (exact : ExactAddition α) {start : List α}
    {vectors : List (List α)} (lengths : ∀ v ∈ vectors, v.length = start.length) :
    addAll start vectors = List.zipWith (· + ·) start (sumOf start.length vectors) := by
  induction vectors generalizing start with
  | nil => exact (exact.zipWith_zeros rfl).symm
  | cons v vectors ih =>
    obtain ⟨first, others⟩ := List.forall_mem_cons.mp lengths
    have kept : (List.zipWith (· + ·) start v).length = start.length := by
      rw [List.length_zipWith, first, Nat.min_self]
    have rest : sumOf start.length (v :: vectors) =
        List.zipWith (· + ·) v (sumOf start.length vectors) := by
      change addAll (List.zipWith (· + ·) (zeros start.length) v) vectors = _
      rw [exact.zeros_zipWith first, ih (by rw [first]; exact others), first]
    calc addAll start (v :: vectors)
        = addAll (List.zipWith (· + ·) start v) vectors := rfl
      _ = List.zipWith (· + ·) (List.zipWith (· + ·) start v) (sumOf start.length vectors) := by
        rw [ih (by rw [kept]; exact others), kept]
      _ = List.zipWith (· + ·) start (sumOf start.length (v :: vectors)) := by
        rw [exact.zipWith_assoc, rest]

theorem sumOf_cons (exact : ExactAddition α) {dim : Nat} {v : List α} {vectors : List (List α)}
    (first : v.length = dim) (others : ∀ w ∈ vectors, w.length = dim) :
    sumOf dim (v :: vectors) = List.zipWith (· + ·) v (sumOf dim vectors) := by
  subst first
  change addAll (List.zipWith (· + ·) (zeros v.length) v) vectors = _
  rw [exact.zeros_zipWith rfl]
  exact exact.addAll_eq others

theorem sumOf_append (exact : ExactAddition α) {dim : Nat}
    {vectors others : List (List α)} (left : ∀ v ∈ vectors, v.length = dim)
    (right : ∀ v ∈ others, v.length = dim) :
    sumOf dim (vectors ++ others) =
      List.zipWith (· + ·) (sumOf dim vectors) (sumOf dim others) := by
  have size := length_sumOf left
  have rest : addAll (sumOf dim vectors) others =
      List.zipWith (· + ·) (sumOf dim vectors) (sumOf (sumOf dim vectors).length others) :=
    exact.addAll_eq (by rw [size]; exact right)
  rw [size] at rest
  exact (addAll_append _ _ _).trans rest

theorem sumOf_perm (exact : ExactAddition α) {dim : Nat} {vectors others : List (List α)}
    (same : vectors.Perm others) : sumOf dim vectors = sumOf dim others := by
  have swap : ∀ u v w : List α, List.zipWith (· + ·) (List.zipWith (· + ·) u v) w =
      List.zipWith (· + ·) (List.zipWith (· + ·) u w) v := by
    intro u v w
    have turned : List.zipWith (· + ·) v w = List.zipWith (· + ·) w v :=
      List.zipWith_comm_of_comm exact.comm
    rw [exact.zipWith_assoc, turned, ← exact.zipWith_assoc]
  exact same.foldl_eq' (fun v _ w _ u => swap u v w) (zeros dim)

/-- The vectors that are kept and those that are left out have the sum of all together. -/
theorem sumOf_filter (exact : ExactAddition α) {β : Type} {dim : Nat} {f : β → List α}
    {xs : List β} (lengths : ∀ x ∈ xs, (f x).length = dim) (keep : β → Bool) :
    sumOf dim (xs.map f) = List.zipWith (· + ·) (sumOf dim ((xs.filter keep).map f))
      (sumOf dim ((xs.filter fun x => !keep x).map f)) := by
  have own (kept : β → Bool) : ∀ v ∈ (xs.filter kept).map f, v.length = dim :=
    List.forall_mem_map.mpr fun x member => lengths x (List.mem_filter.mp member).1
  rw [← exact.sumOf_append (own keep) (own _), ← List.map_append]
  exact exact.sumOf_perm ((List.filter_append_perm keep xs).map f).symm

theorem sumOf_filter_of_zeros (exact : ExactAddition α) {β : Type} {dim : Nat} {f : β → List α}
    {xs : List β} {keep : β → Bool} (lengths : ∀ x ∈ xs, (f x).length = dim)
    (rest : ∀ x ∈ xs, keep x = false → f x = zeros dim) :
    sumOf dim (xs.map f) = sumOf dim ((xs.filter keep).map f) := by
  have kept : ∀ v ∈ (xs.filter keep).map f, v.length = dim :=
    List.forall_mem_map.mpr fun x member => lengths x (List.mem_filter.mp member).1
  have none : ∀ v ∈ (xs.filter fun x => !keep x).map f, v = zeros dim := by
    refine List.forall_mem_map.mpr fun x member => ?_
    obtain ⟨present, left⟩ := List.mem_filter.mp member
    exact rest x present (by simpa using left)
  rw [exact.sumOf_filter lengths keep, exact.sumOf_zeros none]
  exact exact.zipWith_zeros (length_sumOf kept)

theorem sumOf_flatMap (exact : ExactAddition α) {β : Type} {dim : Nat}
    {f : β → List (List α)} {xs : List β} (lengths : ∀ x ∈ xs, ∀ v ∈ f x, v.length = dim) :
    sumOf dim (xs.flatMap f) = sumOf dim (xs.map fun x => sumOf dim (f x)) := by
  induction xs with
  | nil => rfl
  | cons x xs ih =>
    obtain ⟨first, others⟩ := List.forall_mem_cons.mp lengths
    have group : (sumOf dim (f x)).length = dim := length_sumOf first
    have alone : sumOf dim [sumOf dim (f x)] = sumOf dim (f x) := exact.zeros_zipWith group
    have later : ∀ v ∈ xs.flatMap f, v.length = dim := fun v member => by
      obtain ⟨y, present, listed⟩ := List.mem_flatMap.mp member
      exact others y present v listed
    have sums : ∀ v ∈ xs.map fun x => sumOf dim (f x), v.length = dim :=
      List.forall_mem_map.mpr fun y present => length_sumOf (others y present)
    calc sumOf dim ((x :: xs).flatMap f)
        = List.zipWith (· + ·) (sumOf dim (f x)) (sumOf dim (xs.flatMap f)) :=
          exact.sumOf_append first later
      _ = List.zipWith (· + ·) (sumOf dim [sumOf dim (f x)])
            (sumOf dim (xs.map fun x => sumOf dim (f x))) := by rw [alone, ih others]
      _ = sumOf dim ((x :: xs).map fun x => sumOf dim (f x)) :=
          (exact.sumOf_append (by simpa using group) sums).symm

theorem foldl_add (exact : ExactAddition α) (values : List α) (a b : α) :
    values.foldl (· + ·) (a + b) = values.foldl (· + ·) a + b := by
  induction values generalizing a with
  | nil => rfl
  | cons x values ih =>
    have moved : a + b + x = a + x + b := by
      rw [exact.assoc, exact.comm b x, ← exact.assoc]
    rw [List.foldl_cons, List.foldl_cons, moved, ih]

theorem foldl_zipWith (exact : ExactAddition α) {u v : List α} (same : u.length = v.length) (a : α) :
    (List.zipWith (· + ·) u v).foldl (· + ·) a = (u ++ v).foldl (· + ·) a := by
  induction u generalizing v a with
  | nil =>
    obtain rfl := List.length_eq_zero_iff.mp same.symm
    rfl
  | cons x u ih =>
    cases v with
    | nil => cases same
    | cons y v =>
      rw [List.zipWith_cons_cons, List.foldl_cons, ih (Nat.succ.inj same), ← exact.assoc,
        List.foldl_append, exact.foldl_add, List.foldl_append, List.foldl_cons, List.foldl_cons]

end ExactAddition

/-! ### Products -/

structure ExactArithmetic (α : Type) [Zero α] [Add α] [Mul α] : Prop extends ExactAddition α where
  distrib : ∀ a b c : α, (a + b) * c = a * c + b * c

theorem exactArithmetic_rat : ExactArithmetic Rat := ⟨exactAddition_rat, Rat.add_mul⟩

namespace ExactArithmetic

variable [Mul α]

theorem zipWith_mul (exact : ExactArithmetic α) (u v factor : List α) :
    List.zipWith (· * ·) (List.zipWith (· + ·) u v) factor =
      List.zipWith (· + ·) (List.zipWith (· * ·) u factor) (List.zipWith (· * ·) v factor) := by
  induction u generalizing v factor with
  | nil => rfl
  | cons a u ih =>
    cases v with
    | nil => simp
    | cons b v =>
      cases factor with
      | nil => rfl
      | cons c factor => simp only [List.zipWith_cons_cons, ih, exact.distrib]

/-- Vectors that are added to another one cost in total what they cost behind it. -/
theorem foldl_addAll (exact : ExactArithmetic α) {start factor : List α} {slots : List (List α)}
    (width : start.length = factor.length) (widths : ∀ slot ∈ slots, slot.length = factor.length)
    (a : α) : (List.zipWith (· * ·) (addAll start slots) factor).foldl (· + ·) a =
      (List.zipWith (· * ·) (start :: slots).flatten
        (List.replicate (start :: slots).length factor).flatten).foldl (· + ·) a := by
  -- each slot is added to the vector in front of it, so that this one has to be arbitrary
  induction slots generalizing start with
  | nil => simp [addAll]
  | cons slot slots ih =>
    obtain ⟨first, others⟩ := List.forall_mem_cons.mp widths
    have kept : (List.zipWith (· + ·) start slot).length = factor.length := by
      rw [List.length_zipWith, width, first, Nat.min_self]
    have parts : (List.zipWith (· * ·) start factor).length =
        (List.zipWith (· * ·) slot factor).length := by
      rw [List.length_zipWith, List.length_zipWith, width, first]
    refine (ih kept others).trans ?_
    simp only [List.flatten_cons, List.length_cons, List.replicate_succ]
    rw [List.zipWith_append kept, List.zipWith_append width, List.zipWith_append first,
      exact.zipWith_mul, List.foldl_append, exact.foldl_zipWith parts, ← List.foldl_append,
      List.append_assoc]

/-- Slots behind one another, each with the same factors, cost what their sum costs. -/
theorem scalar_flatten [Neg α] (exact : ExactArithmetic α) {factor : List α}
    {slots : List (List α)} (nonempty : slots ≠ [])
    (widths : ∀ slot ∈ slots, slot.length = factor.length) :
    scalar slots.flatten (List.replicate slots.length factor).flatten =
      scalar (sumOf factor.length slots) factor := by
  cases slots with
  | nil => cases nonempty rfl
  | cons slot slots =>
    obtain ⟨first, others⟩ := List.forall_mem_cons.mp widths
    have whole : sumOf factor.length (slot :: slots) = addAll slot slots :=
      congrArg (addAll · slots) (exact.zeros_zipWith first)
    have each : ∀ l ∈ (slot :: slots).map List.length, l = factor.length :=
      List.forall_mem_map.mpr widths
    have lengths : (slot :: slots).flatten.length =
        (List.replicate (slot :: slots).length factor).flatten.length := by
      rw [List.length_flatten, List.length_flatten, List.map_replicate,
        List.eq_replicate_of_mem each, List.length_map]
    have size : (sumOf factor.length (slot :: slots)).length = factor.length := length_sumOf widths
    rw [scalar_ok lengths, scalar_ok size, whole]
    exact congrArg Except.ok (exact.foldl_addAll first others _).symm

end ExactArithmetic

/-! ### Multiples -/

def Weight.times [NatCast α] [Mul α] (n : Nat) (w : List α) : List α := w.map (n * ·)

/-- Arithmetic as of rational numbers, where a product with a whole number is a repeated sum. -/
structure ExactMultiples (α : Type) [Zero α] [Add α] [NatCast α] [Mul α] : Prop
    extends ExactAddition α where
  zero_mul : ∀ a : α, (0 : Nat) * a = 0
  succ_mul : ∀ (n : Nat) (a : α), (n + 1 : Nat) * a = n * a + a

theorem exactMultiples_rat : ExactMultiples Rat where
  toExactAddition := exactAddition_rat
  zero_mul := Rat.zero_mul
  succ_mul n a := by
    rw [Rat.natCast_add, Rat.add_mul]
    exact congrArg _ (Rat.one_mul a)

namespace ExactMultiples

variable [NatCast α] [Mul α]

theorem sumOf_replicate (exact : ExactMultiples α) {dim : Nat} {w : List α}
    (length : w.length = dim) (n : Nat) : sumOf dim (List.replicate n w) = times n w := by
  induction n with
  | zero =>
    have none : w.map (((0 : Nat) : α) * ·) = List.replicate w.length 0 :=
      List.map_eq_replicate_iff.mpr fun a _ => exact.zero_mul a
    rw [times, none, length]
    rfl
  | succ n ih =>
    have last : sumOf dim (List.replicate (n + 1) w) = List.zipWith (· + ·) (times n w) w := by
      rw [List.replicate_succ', sumOf, addAll_append, ← ih]
      rfl
    rw [last, times, times, List.zipWith_map_left, List.zipWith_self]
    exact List.map_congr_left fun a _ => (exact.succ_mul n a).symm

/-- Groups that share some of their vectors have the sum of all vectors together, each as many
times as there are groups with it. -/
theorem sumOf_groups {β γ : Type} (exact : ExactMultiples α) {dim : Nat} {f : β → List α}
    {xs : List β} (lengths : ∀ x ∈ xs, (f x).length = dim) (keys : List γ)
    (belongs : γ → β → Bool) :
    sumOf dim (keys.map fun k => sumOf dim ((xs.filter (belongs k)).map f)) =
      sumOf dim (xs.map fun x => times (keys.countP (belongs · x)) (f x)) := by
  have groups : ∀ k ∈ keys, ∀ v ∈ (xs.filter (belongs k)).map f, v.length = dim :=
    fun k _ => List.forall_mem_map.mpr fun x member => lengths x (List.mem_filter.mp member).1
  have copies : ∀ x ∈ xs, ∀ v ∈ List.replicate (keys.countP (belongs · x)) (f x),
      v.length = dim := fun x member v listed =>
    List.eq_of_mem_replicate listed ▸ lengths x member
  have same := (perm_flatMap_filter keys xs belongs).map f
  simp only [List.map_flatMap, List.map_replicate] at same
  calc sumOf dim (keys.map fun k => sumOf dim ((xs.filter (belongs k)).map f))
      = sumOf dim (keys.flatMap fun k => (xs.filter (belongs k)).map f) :=
        (exact.sumOf_flatMap groups).symm
    _ = sumOf dim (xs.flatMap fun x => List.replicate (keys.countP (belongs · x)) (f x)) :=
        exact.sumOf_perm same
    _ = sumOf dim (xs.map fun x => times (keys.countP (belongs · x)) (f x)) := by
        rw [exact.sumOf_flatMap copies]
        exact congrArg _ (List.map_congr_left fun x member =>
          exact.sumOf_replicate (lengths x member) _)

end ExactMultiples

/-! ### Differences -/

structure ExactDifference (α : Type) [Zero α] [Add α] [Sub α] : Prop extends ExactAddition α where
  sub_add : ∀ a b : α, a - b + b = a

theorem exactDifference_rat : ExactDifference Rat :=
  ⟨exactAddition_rat, fun _ _ => Rat.sub_add_cancel⟩

namespace ExactDifference

variable [Sub α]

theorem add_right_cancel (exact : ExactDifference α) {a b c : α} (same : a + c = b + c) :
    a = b := by
  have undone (x : α) : x + c + (0 - c) = x := by
    rw [exact.assoc, exact.comm c, exact.sub_add, exact.zero]
  rw [← undone a, same, undone]

theorem add_sub_add (exact : ExactDifference α) (a b c : α) : a + c - (b + c) = a - b := by
  have same : a + c - (b + c) + b + c = a - b + b + c := by
    rw [exact.assoc, exact.sub_add, exact.sub_add]
  exact exact.add_right_cancel (exact.add_right_cancel same)

theorem zipWith_sub_add (exact : ExactDifference α) {u v w : List α} (left : u.length = w.length)
    (right : v.length = w.length) :
    List.zipWith (· - ·) (List.zipWith (· + ·) u w) (List.zipWith (· + ·) v w) =
      List.zipWith (· - ·) u v := by
  refine List.ext_getElem (by simp [left, right]) fun d _ _ => ?_
  simp only [List.getElem_zipWith, exact.add_sub_add]

end ExactDifference
end Multilevel
