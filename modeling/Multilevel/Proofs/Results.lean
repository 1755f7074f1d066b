import Mathlib.Data.List.Forall2

namespace Multilevel

variable {ε α β γ : Type}

/-! ### Steps -/

theorem bind_ok {x : Except ε α} {f : α → Except ε β} {b : β} :
    x >>= f = .ok b ↔ ∃ a, x = .ok a ∧ f a = .ok b := by
  cases x with
  | error e => simp [bind, Except.bind]
  | ok a => simp [bind, Except.bind]

theorem bind_congr_ok {x : Except ε α} {f g : α → Except ε β} (same : ∀ a, x = .ok a → f a = g a) :
    x >>= f = x >>= g := by
  cases x with
  | error => rfl
  | ok a => exact same a rfl

theorem bind_error {x : Except ε α} {f : α → Except ε β} {e : ε} :
    x >>= f = .error e ↔ x = .error e ∨ ∃ a, x = .ok a ∧ f a = .error e := by
  cases x with
  | error d => simp [bind, Except.bind]
  | ok a => simp [bind, Except.bind]

/-- Where what follows always succeeds, only the first step can fail. -/
theorem bind_error_left {x : Except ε α} {f : α → Except ε β} {e : ε}
    (total : ∀ a, x = .ok a → ∃ b, f a = .ok b) : x >>= f = .error e ↔ x = .error e := by
  rw [bind_error]
  refine or_iff_left ?_
  rintro ⟨a, first, failed⟩
  obtain ⟨b, done⟩ := total a first
  rw [done] at failed
  cases failed

theorem pure_ok {a b : α} : (pure a : Except ε α) = .ok b ↔ a = b := by
  simp [pure, Except.pure]

theorem ite_bind {c : Prop} [Decidable c] {x y : Except ε α} {f : α → Except ε β} :
    (if c then x >>= f else y >>= f) = (if c then x else y) >>= f :=
  (apply_ite (· >>= f) c x y).symm

theorem map_ok {x : Except ε α} {f : α → β} {b : β} :
    f <$> x = .ok b ↔ ∃ a, x = .ok a ∧ f a = b := by
  cases x with
  | error e => simp [Functor.map, Except.map]
  | ok a => simp [Functor.map, Except.map]

theorem map_error {x : Except ε α} {f : α → β} {e : ε} : f <$> x = .error e ↔ x = .error e := by
  cases x with
  | error d => exact ⟨fun h => congrArg Except.error (Except.error.inj h),
      fun h => congrArg Except.error (Except.error.inj h)⟩
  | ok a => exact ⟨nofun, nofun⟩

theorem mapError_ok {x : Except ε α} {f : ε → γ} {a : α} : x.mapError f = .ok a ↔ x = .ok a := by
  cases x with
  | error e => exact ⟨nofun, nofun⟩
  | ok b => exact ⟨fun h => congrArg Except.ok (Except.ok.inj h),
      fun h => congrArg Except.ok (Except.ok.inj h)⟩

theorem mapError_error {x : Except ε α} {f : ε → γ} {e : γ} :
    x.mapError f = .error e ↔ ∃ d, x = .error d ∧ f d = e := by
  cases x with
  | error d => simp [Except.mapError]
  | ok a => simp [Except.mapError]

theorem ok_of_isOk {x : Except ε α} (h : x.isOk = true) : ∃ a, x = .ok a := by
  cases x with
  | error => cases h
  | ok a => exact ⟨a, rfl⟩

theorem ok_of_toOption {x : Except ε α} {a : α} (h : x.toOption = some a) : x = .ok a := by
  cases x with
  | error => cases h
  | ok b => exact congrArg Except.ok (Option.some.inj h)

theorem ok_iff {x : Except ε α} {P : Prop} {a b : α} (necessary : x = .ok b → P)
    (sufficient : P → x = .ok a) : x = .ok b ↔ P ∧ b = a := by
  constructor
  · intro made
    have condition := necessary made
    exact ⟨condition, Except.ok.inj (made.symm.trans (sufficient condition))⟩
  · rintro ⟨condition, rfl⟩
    exact sufficient condition

theorem error_iff {x : Except ε α} {bad e : ε} (only : ∀ d, x = .error d → d = bad) :
    x = .error e ↔ (∀ a, x ≠ .ok a) ∧ e = bad := by
  cases x with
  | error d =>
    obtain rfl := only d rfl
    rw [Except.error.injEq, eq_comm]
    simp
  | ok a => simp

/-! ### Loops -/

/-- What every successful round keeps, a successful loop keeps. -/
theorem foldlM_keeps {f : β → α → Except ε β} (P : β → Prop) {xs : List α} {start last : β}
    (round : ∀ b x b', x ∈ xs → P b → f b x = .ok b' → P b')
    (initial : P start) (h : xs.foldlM f start = .ok last) : P last := by
  induction xs generalizing start with
  | nil =>
    obtain rfl := pure_ok.mp h
    exact initial
  | cons x xs ih =>
    rw [List.foldlM_cons] at h
    obtain ⟨next, first, rest⟩ := bind_ok.mp h
    exact ih (fun b y b' member => round b y b' (List.mem_cons_of_mem _ member))
      (round start x next List.mem_cons_self initial first) rest

/-- A loop that fails, fails in a round that those before it have led to. -/
theorem foldlM_error {f : β → α → Except ε β} {xs : List α} {start : β} {e : ε}
    (h : xs.foldlM f start = .error e) : ∃ before x after b,
      xs = before ++ x :: after ∧ before.foldlM f start = .ok b ∧ f b x = .error e := by
  induction xs generalizing start with
  | nil => cases h
  | cons x xs ih =>
    rw [List.foldlM_cons, bind_error] at h
    rcases h with now | ⟨next, first, later⟩
    · exact ⟨[], x, xs, start, rfl, rfl, now⟩
    · obtain ⟨before, y, after, b, rfl, rounds, last⟩ := ih later
      exact ⟨x :: before, y, after, b, rfl, bind_ok.mpr ⟨next, first, rounds⟩, last⟩

/-- A loop whose rounds succeed wherever an invariant holds. -/
theorem foldlM_eq_foldl {f : β → α → Except ε β} {g : β → α → β} (P : β → Prop) {xs : List α}
    {start : β} (round : ∀ b x, x ∈ xs → P b → f b x = .ok (g b x) ∧ P (g b x))
    (initial : P start) : xs.foldlM f start = .ok (xs.foldl g start) := by
  induction xs generalizing start with
  | nil => rfl
  | cons x xs ih =>
    obtain ⟨first, kept⟩ := round start x List.mem_cons_self initial
    rw [List.foldlM_cons, first, List.foldl_cons]
    exact ih (fun b y member => round b y (List.mem_cons_of_mem _ member)) kept

theorem foldlM_congr {f g : β → α → Except ε β} {xs : List α} {start : β}
    (round : ∀ b, ∀ x ∈ xs, f b x = g b x) : xs.foldlM f start = xs.foldlM g start := by
  induction xs generalizing start with
  | nil => rfl
  | cons x xs ih =>
    rw [List.foldlM_cons, List.foldlM_cons, round start x List.mem_cons_self]
    exact congrArg _ (funext fun b => ih fun b y member => round b y (List.mem_cons_of_mem _ member))

/-- Loops whose rounds agree wherever an invariant holds that they keep. -/
theorem foldlM_congr_where {f g : β → α → Except ε β} (P : β → Prop) {xs : List α} {start : β}
    (round : ∀ b, ∀ x ∈ xs, P b → f b x = g b x)
    (keeps : ∀ b, ∀ x ∈ xs, P b → ∀ b', g b x = .ok b' → P b') (initial : P start) :
    xs.foldlM f start = xs.foldlM g start := by
  induction xs generalizing start with
  | nil => rfl
  | cons x xs ih =>
    rw [List.foldlM_cons, List.foldlM_cons, round start x List.mem_cons_self initial]
    cases first : g start x with
    | error e => rfl
    | ok next =>
      exact ih (fun b y member => round b y (List.mem_cons_of_mem _ member))
        (fun b y member => keeps b y (List.mem_cons_of_mem _ member))
        (keeps start x List.mem_cons_self initial next first)

/-- Loops whose rounds succeed alike, whatever their faults. -/
theorem foldlM_ok_congr {f : β → α → Except ε β} {g : β → α → Except γ β} {xs : List α}
    {start last : β} (round : ∀ b x b', f b x = .ok b' ↔ g b x = .ok b') :
    xs.foldlM f start = .ok last ↔ xs.foldlM g start = .ok last := by
  induction xs generalizing start with
  | nil => rw [List.foldlM_nil, List.foldlM_nil, pure_ok, pure_ok]
  | cons x xs ih =>
    rw [List.foldlM_cons, List.foldlM_cons, bind_ok, bind_ok]
    exact exists_congr fun next => and_congr (round start x next) ih

/-- A loop over lists of steps is one over all the steps. -/
theorem foldlM_flatMap {f : α → List γ} {g : β → γ → Except ε β} {xs : List α} {start : β} :
    (xs.flatMap f).foldlM g start = xs.foldlM (fun b x => (f x).foldlM g b) start := by
  induction xs generalizing start with
  | nil => rfl
  | cons x xs ih =>
    rw [List.flatMap_cons, List.foldlM_append, List.foldlM_cons]
    exact congrArg _ (funext fun _ => ih)

theorem mapM_cons_ok {f : α → Except ε β} {x : α} {xs : List α} {ys : List β} :
    (x :: xs).mapM f = .ok ys ↔ ∃ y rest, f x = .ok y ∧ xs.mapM f = .ok rest ∧ ys = y :: rest := by
  rw [List.mapM_cons, bind_ok]
  constructor
  · rintro ⟨y, first, h⟩
    obtain ⟨rest, others, h⟩ := bind_ok.mp h
    exact ⟨y, rest, first, others, (pure_ok.mp h).symm⟩
  · rintro ⟨y, rest, first, others, rfl⟩
    exact ⟨y, first, bind_ok.mpr ⟨rest, others, rfl⟩⟩

theorem mapM_ok {f : α → Except ε β} {xs : List α} {ys : List β} :
    xs.mapM f = .ok ys ↔ List.Forall₂ (fun x y => f x = .ok y) xs ys := by
  induction xs generalizing ys with
  | nil =>
    rw [List.mapM_nil, pure_ok, List.forall₂_nil_left_iff, eq_comm]
  | cons x xs ih =>
    rw [mapM_cons_ok, List.forall₂_cons_left_iff]
    constructor
    · rintro ⟨y, rest, first, others, rfl⟩
      exact ⟨y, rest, first, ih.mp others, rfl⟩
    · rintro ⟨y, rest, first, others, rfl⟩
      exact ⟨y, rest, first, ih.mpr others, rfl⟩

/-- Elements that have no results together: those before some element have one, but it has none. -/
theorem mapM_error {f : α → Except ε β} {xs : List α} {e : ε} :
    xs.mapM f = .error e ↔ ∃ before x after, xs = before ++ x :: after ∧
      (∀ y ∈ before, ∃ b, f y = .ok b) ∧ f x = .error e := by
  induction xs with
  | nil => simp [pure, Except.pure]
  | cons x xs ih =>
    rw [List.mapM_cons, bind_error]
    constructor
    · rintro (now | ⟨b, first, later⟩)
      · exact ⟨[], x, xs, rfl, nofun, now⟩
      · have rest := (bind_error_left fun _ _ => ⟨_, rfl⟩).mp later
        obtain ⟨before, y, after, rfl, each, failed⟩ := ih.mp rest
        exact ⟨x :: before, y, after, rfl, List.forall_mem_cons.mpr ⟨⟨b, first⟩, each⟩, failed⟩
    · rintro ⟨_ | ⟨_, before⟩, y, after, split, each, failed⟩
      · obtain ⟨rfl, rfl⟩ := List.cons.inj split
        exact .inl failed
      · obtain ⟨rfl, rfl⟩ := List.cons.inj split
        obtain ⟨⟨b, first⟩, each⟩ := List.forall_mem_cons.mp each
        refine .inr ⟨b, first, (bind_error_left fun _ _ => ⟨_, rfl⟩).mpr ?_⟩
        exact ih.mpr ⟨before, y, after, rfl, each, failed⟩

theorem exists_of_mapM {f : α → Except ε β} {xs : List α} {ys : List β} (made : xs.mapM f = .ok ys)
    {y : β} (member : y ∈ ys) : ∃ x ∈ xs, f x = .ok y := by
  induction xs generalizing ys with
  | nil =>
    obtain rfl := pure_ok.mp made
    cases member
  | cons x xs ih =>
    obtain ⟨z, rest, first, others, rfl⟩ := mapM_cons_ok.mp made
    rcases List.mem_cons.mp member with rfl | later
    · exact ⟨x, List.mem_cons_self, first⟩
    · obtain ⟨w, present, result⟩ := ih others later
      exact ⟨w, List.mem_cons_of_mem _ present, result⟩

theorem forall_of_forall₂ {R : α → β → Prop} {P : β → Prop} {xs : List α} {ys : List β}
    (related : List.Forall₂ R xs ys) (each : ∀ x y, R x y → P y) : ∀ y ∈ ys, P y := by
  induction related with
  | nil => nofun
  | cons first _ ih => exact List.forall_mem_cons.mpr ⟨each _ _ first, ih⟩

theorem mapM_eq_pure {m : Type → Type} [Monad m] [LawfulMonad m] {f : α → m β} {g : α → β}
    {xs : List α} (each : ∀ x ∈ xs, f x = pure (g x)) : xs.mapM f = pure (xs.map g) := by
  induction xs with
  | nil => rfl
  | cons x xs ih =>
    obtain ⟨first, others⟩ := List.forall_mem_cons.mp each
    rw [List.mapM_cons, first, ih others, pure_bind, pure_bind, List.map_cons]

theorem mapM_eq_map {f : α → Except ε β} {g : α → β} {xs : List α}
    (each : ∀ x ∈ xs, f x = .ok (g x)) : xs.mapM f = .ok (xs.map g) :=
  mapM_eq_pure each

/-- What is read by the numbers of the elements that are kept. -/
theorem mapM_zipIdx {f : Nat → Except ε β} {g : α → β} {xs : List α} (kept : α → Bool)
    (each : ∀ i x, xs[i]? = some x → f i = .ok (g x)) :
    ((xs.zipIdx.filter fun x => kept x.1).map Prod.snd).mapM f = .ok ((xs.filter kept).map g) := by
  have values : (xs.zipIdx.filter fun x => kept x.1).map Prod.fst = xs.filter kept := by
    conv_rhs => rw [← List.zipIdx_map_fst 0 xs, List.filter_map]
    rfl
  rw [List.mapM_map, ← values, List.map_map]
  exact mapM_eq_map fun x member =>
    each x.2 x.1 (List.mem_zipIdx_iff_getElem?.mp (List.mem_filter.mp member).1)

theorem mapM_range {f : Nat → Except ε β} {g : α → β} {xs : List α} (keep : Nat → Bool)
    (kept : α → Bool) (each : ∀ i x, xs[i]? = some x → keep i = kept x ∧ f i = .ok (g x)) :
    ((List.range xs.length).filter keep).mapM f = .ok ((xs.filter kept).map g) := by
  have same : ∀ x ∈ xs.zipIdx, keep x.2 = kept x.1 := fun x member =>
    (each x.2 x.1 (List.mem_zipIdx_iff_getElem?.mp member)).1
  rw [List.range_eq_range', ← List.zipIdx_map_snd 0 xs, List.filter_map]
  exact List.filter_congr same ▸ mapM_zipIdx kept fun i x read => (each i x read).2

theorem exists_mapM {f : α → Except ε β} {xs : List α} (each : ∀ x ∈ xs, ∃ y, f x = .ok y) :
    ∃ ys, xs.mapM f = .ok ys := by
  induction xs with
  | nil => exact ⟨[], rfl⟩
  | cons x xs ih =>
    obtain ⟨y, first⟩ := each x List.mem_cons_self
    obtain ⟨ys, others⟩ := ih fun z member => each z (List.mem_cons_of_mem _ member)
    exact ⟨y :: ys, mapM_cons_ok.mpr ⟨y, ys, first, others, rfl⟩⟩

theorem mapM_eq_filterMap {f : α → Except ε β} {g : α → Option β} {xs : List α}
    (each : ∀ x ∈ xs, ∃ y, f x = .ok y ∧ g x = some y) : xs.mapM f = .ok (xs.filterMap g) := by
  induction xs with
  | nil => rfl
  | cons x xs ih =>
    obtain ⟨y, first, read⟩ := each x List.mem_cons_self
    rw [List.filterMap_cons_some read]
    exact mapM_cons_ok.mpr ⟨y, _, first, ih fun z member => each z (List.mem_cons_of_mem _ member), rfl⟩

/-- Elements that each have one possible result, under a condition of their own. -/
theorem mapM_ok_iff {f : α → Except ε β} {P : α → Prop} {g : α → β} {xs : List α} {ys : List β}
    (each : ∀ x y, f x = .ok y ↔ P x ∧ y = g x) :
    xs.mapM f = .ok ys ↔ (∀ x ∈ xs, P x) ∧ ys = xs.map g := by
  induction xs generalizing ys with
  | nil =>
    rw [List.mapM_nil, pure_ok, eq_comm]
    simp
  | cons x xs ih =>
    rw [mapM_cons_ok, List.forall_mem_cons, List.map_cons]
    constructor
    · intro ⟨y, rest, first, others, same⟩
      obtain ⟨holds, rfl⟩ := (each x y).mp first
      obtain ⟨all, rfl⟩ := ih.mp others
      exact ⟨⟨holds, all⟩, same⟩
    · intro ⟨⟨holds, all⟩, same⟩
      exact ⟨g x, xs.map g, (each x _).mpr ⟨holds, rfl⟩, ih.mpr ⟨all, rfl⟩, same⟩

end Multilevel
