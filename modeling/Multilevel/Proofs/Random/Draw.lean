import Multilevel.Random.Stream

/-!
# Values that can be drawn

What a draw gives depends on the stream, but a property may hold of all values that it can give.
Such properties are proved along the steps of the draw, and along the rounds of a loop. A number
below a bound is what its name says (`always_below32`), whatever words a stream has.
-/
namespace Multilevel.Random

variable {α β : Type}

/-- Whatever the stream, the value that is drawn has a property. -/
def Always (P : α → Prop) (d : Draw α) : Prop := ∀ s, P (d.run s).1

/-! ### Steps -/

theorem always_pure {P : α → Prop} {a : α} (holds : P a) : Always P (pure a) := fun _ => holds

theorem Always.mono {P Q : α → Prop} {d : Draw α} (always : Always P d) (weaker : ∀ a, P a → Q a) :
    Always Q d :=
  fun s => weaker _ (always s)

theorem Always.bind {P : α → Prop} {Q : β → Prop} {d : Draw α} {f : α → Draw β}
    (first : Always P d) (second : ∀ a, P a → Always Q (f a)) : Always Q (d >>= f) :=
  fun s => second _ (first s) _

/-! ### Loops -/

/-- What every round keeps, a loop keeps. The invariant may speak of the rounds so far. -/
theorem always_foldlM {P : List α → β → Prop} {f : β → α → Draw β} {xs : List α} {start : β}
    (initial : P [] start)
    (round : ∀ before x after b, xs = before ++ x :: after → P before b →
      Always (P (before ++ [x])) (f b x)) : Always (P xs) (xs.foldlM f start) := by
  suffices ∀ before rest b, xs = before ++ rest → P before b → Always (P xs) (rest.foldlM f b) from
    this [] xs start rfl initial
  intro before rest
  induction rest generalizing before with
  | nil =>
    rintro b split holds
    rw [List.append_nil] at split
    exact always_pure (split ▸ holds)
  | cons x rest ih =>
    intro b split holds
    rw [List.foldlM_cons]
    refine (round before x rest b split holds).bind fun next kept => ?_
    exact ih (before ++ [x]) next (by rw [split, List.append_cons]) kept

theorem always_mapM {P : β → Prop} {f : α → Draw β} {xs : List α}
    (each : ∀ x ∈ xs, Always P (f x)) :
    Always (fun ys => ys.length = xs.length ∧ ∀ y ∈ ys, P y) (xs.mapM f) := by
  induction xs with
  | nil => exact always_pure ⟨rfl, nofun⟩
  | cons x xs ih =>
    obtain ⟨first, others⟩ := List.forall_mem_cons.mp each
    rw [List.mapM_cons]
    refine first.bind fun y holds => (ih others).bind fun ys ⟨length, rest⟩ => ?_
    exact always_pure ⟨congrArg (· + 1) length, List.forall_mem_cons.mpr ⟨holds, rest⟩⟩

/-! ### Numbers below a bound -/

section
variable {bound : Nat}

theorem always_drawBelow {bits : Nat} {next : Draw Nat} (positive : 0 < bound)
    (word : Always (· < Nat.pow 2 bits) next) (zone tries : Nat) :
    Always (· < bound) (drawBelow bits bound zone next tries) := by
  induction tries with
  | zero => exact always_pure positive
  | succ tries ih =>
    refine word.bind fun w below => ?_
    dsimp only
    split
    · exact always_pure (Nat.div_lt_of_lt_mul (Nat.mul_lt_mul_of_pos_right below positive))
    · exact ih

theorem always_next32 : Always (· < Nat.pow 2 32) (do return (← next32).toNat) :=
  fun s => (next32.run s).1.toNat_lt

theorem always_next64 : Always (· < Nat.pow 2 64) (do return (← next64).toNat) :=
  fun s => (next64.run s).1.toNat_lt

theorem always_below32 (positive : 0 < bound) : Always (· < bound) (below32 bound) :=
  always_drawBelow positive always_next32 _ _

theorem always_below64 (positive : 0 < bound) : Always (· < bound) (below64 bound) :=
  always_drawBelow positive always_next64 _ _

theorem always_spread32 (positive : 0 < bound) : Always (· < bound) (spread32 bound) :=
  always_drawBelow positive always_next32 _ _

end
end Multilevel.Random
