import Multilevel.Folder
import Multilevel.Proofs.Dictionary
import Multilevel.Proofs.Results
import Multilevel.Proofs.Text.Words

namespace Multilevel

/-! ### Where paths lead -/

namespace Place

/-- The place a path leads to, whatever folders there are. -/
def target (path : String) : Place := (names path).foldl step (start path)

def key (path : String) : String := (target path).path

end Place

namespace Folder

variable {f g : Folder} {path other : String} {source : Source} {s : String}

/-- Whether each name on a way stands in a folder. -/
def Leads (isFolder : Place → Bool) : Place → List String → Prop
  | _, [] => True
  | p, name :: rest => isFolder p = true ∧ Leads isFolder (p.step name) rest

theorem leads_append {isFolder : Place → Bool} {p : Place} {way : List String} {name : String} :
    Leads isFolder p (way ++ [name]) ↔
      Leads isFolder p way ∧ isFolder (way.foldl Place.step p) = true := by
  induction way generalizing p with
  | nil => simp [Leads]
  | cons first way ih => simp [Leads, ih, and_assoc]

theorem enter_ok {p q : Place} : f.enter p = .ok q ↔ f.isFolder p = true ∧ q = p := by
  unfold enter
  split
  · rename_i folder
    rw [Except.ok.injEq, eq_comm]
    exact (and_iff_right folder).symm
  · rename_i none
    constructor
    · intro refused
      split at refused <;> cases refused
    · rintro ⟨folder, -⟩
      exact absurd folder none

theorem walk_ok {p q : Place} {names : List String} :
    f.walk p names = .ok q ↔ Leads f.isFolder p names ∧ q = names.foldl Place.step p := by
  unfold walk
  induction names generalizing p with
  | nil =>
    rw [List.foldlM_nil, pure_ok, eq_comm]
    simp [Leads]
  | cons name names ih =>
    rw [List.foldlM_cons, bind_ok]
    simp only [bind_ok, pure_ok, enter_ok, ih, Leads, List.foldl_cons]
    constructor
    · rintro ⟨_, ⟨_, ⟨folder, rfl⟩, rfl⟩, leads, rfl⟩
      exact ⟨⟨folder, leads⟩, rfl⟩
    · rintro ⟨⟨folder, leads⟩, rfl⟩
      exact ⟨_, ⟨_, ⟨folder, rfl⟩, rfl⟩, leads, rfl⟩

structure Reaches (f : Folder) (path : String) : Prop where
  nonempty : path.isEmpty = false
  leads : Leads f.isFolder (Place.start path) (Place.names path)
  /-- What stands before a slash is a folder. -/
  closed : Place.isOpen path = true → f.isFolder (Place.target path) = true

theorem read_ok : f.read path = .ok source ↔
    f.Reaches path ∧ Dictionary.get? f.files (Place.key path) = some source := by
  unfold read
  split
  · rename_i empty
    constructor
    · intro refused
      cases refused
    · rintro ⟨reaches, -⟩
      exact absurd empty (by simp [reaches.nonempty])
  · rename_i nonempty
    have some : path.isEmpty = false := by simpa using nonempty
    simp only [ite_bind, bind_ok, walk_ok]
    constructor
    · rintro ⟨_, ⟨leads, rfl⟩, p, entered, held⟩
      have found : f.file? p = .some source := by
        split at held
        · rename_i read
          rw [read, pure_ok.mp held]
        · cases held
      split at entered
      · obtain ⟨folder, rfl⟩ := enter_ok.mp entered
        exact ⟨⟨some, leads, fun _ => folder⟩, found⟩
      · rename_i closed
        obtain rfl := pure_ok.mp entered
        exact ⟨⟨some, leads, fun isOpen => absurd isOpen closed⟩, found⟩
    · rintro ⟨reaches, held⟩
      have found : f.file? (Place.target path) = .some source := held
      refine ⟨_, ⟨reaches.leads, rfl⟩, Place.target path, ?_, by rw [found]; rfl⟩
      split
      · rename_i isOpen
        exact enter_ok.mpr ⟨reaches.closed isOpen, rfl⟩
      · rfl

/-! ### Writing -/

/-- A path whose last name is free for a file, in a folder that exists. -/
structure Takes (f : Folder) (path : String) : Prop where
  leads : Leads f.isFolder (Place.start path) (Place.names path)
  closed : Place.isOpen path = false
  named : ∃ name, (Place.names path).getLast? = some name ∧ name ≠ "." ∧ name ≠ ".."
  free : f.isFolder (Place.target path) = false

def stored (f : Folder) (path text : String) : Folder :=
  { f with files := Dictionary.put (Place.key path) (.text text) f.files }

theorem nonempty_of_last {name : String} (last : (Place.names path).getLast? = some name) :
    path.isEmpty = false := by
  refine Bool.eq_false_iff.mpr fun empty => ?_
  obtain rfl : path = "" := by simpa using empty
  cases last

theorem last_nonempty {name : String} (closed : Place.isOpen path = false)
    (last : (Place.names path).getLast? = some name) : name.isEmpty = false := by
  refine Bool.eq_false_iff.mpr fun empty => ?_
  obtain rfl : name = "" := by simpa using empty
  rw [Place.names, List.getLast?_map] at last
  obtain ⟨part, ends, same⟩ := Option.map_eq_some_iff.mp last
  obtain rfl : part = [] := String.ofList_injective same
  obtain ⟨c, final, separates⟩ := Text.getLast?_segments ends
  obtain rfl : c = '/' := of_decide_eq_true separates
  exact absurd (decide_eq_true final) (by simpa [Place.isOpen] using closed)

theorem dropWhile_names (closed : Place.isOpen path = false) :
    (Place.names path).reverse.dropWhile (·.isEmpty) = (Place.names path).reverse := by
  cases turned : (Place.names path).reverse with
  | nil => rfl
  | cons name way =>
    have last : (Place.names path).getLast? = some name := by
      rw [← List.head?_reverse, turned]
      rfl
    exact List.dropWhile_cons_of_neg (by simp [last_nonempty closed last])

theorem write_ok {text : String} :
    f.write path text = .ok g ↔ f.Takes path ∧ g = f.stored path text := by
  have placed {name : String} {way : List String} (names : Place.names path = way.reverse ++ [name]) :
      (way.reverse.foldl Place.step (Place.start path)).step name = Place.target path := by
    rw [Place.target, names, List.foldl_append]
    rfl
  unfold write
  constructor
  · intro made
    split at made
    · cases made
    split at made
    · cases made
    rename_i name way names
    simp only [bind_ok, walk_ok, enter_ok] at made
    obtain ⟨_, ⟨leads, rfl⟩, _, ⟨folder, rfl⟩, made⟩ := made
    split at made
    · cases made
    rename_i free
    simp only [Bool.or_eq_true, decide_eq_true_eq, not_or, Bool.not_eq_true] at free
    obtain ⟨⟨⟨closed, dot⟩, dots⟩, free⟩ := free
    rw [dropWhile_names closed, List.reverse_eq_cons_iff] at names
    rw [placed names] at free made
    refine ⟨⟨?_, closed, ⟨name, ?_, dot, dots⟩, free⟩, (pure_ok.mp made).symm⟩
    · rw [names]
      exact leads_append.mpr ⟨leads, folder⟩
    · rw [names, List.getLast?_concat]
  · rintro ⟨⟨leads, closed, ⟨name, last, dot, dots⟩, free⟩, rfl⟩
    obtain ⟨way, names⟩ := List.getLast?_eq_some_iff.mp last
    have nonempty := nonempty_of_last last
    rw [← way.reverse_reverse] at names
    rw [names] at leads
    obtain ⟨leads, folder⟩ := leads_append.mp leads
    have split : (Place.names path).reverse.dropWhile (·.isEmpty) = name :: way.reverse := by
      rw [dropWhile_names closed, names, List.reverse_append, List.reverse_reverse]
      rfl
    rw [if_neg (by simp [nonempty]), split]
    dsimp only
    refine bind_ok.mpr ⟨_, walk_ok.mpr ⟨leads, rfl⟩, bind_ok.mpr ⟨_, enter_ok.mpr ⟨folder, rfl⟩, ?_⟩⟩
    rw [placed names, if_neg (by simp [closed, dot, dots, free])]
    rfl

/-! ### After writing -/

/-- Writing makes no folder and takes none away. -/
theorem takes_stored {text : String} : (f.stored other text).Takes path ↔ f.Takes path :=
  ⟨fun takes => ⟨takes.leads, takes.closed, takes.named, takes.free⟩,
    fun takes => ⟨takes.leads, takes.closed, takes.named, takes.free⟩⟩

theorem read_stored_self (takes : f.Takes path) (text : String) :
    (f.stored path text).read path = .ok (.text text) := by
  obtain ⟨name, last, -⟩ := takes.named
  have closed : Place.isOpen path = true → (f.stored path text).isFolder (Place.target path) = true :=
    fun isOpen => absurd isOpen (by simp [takes.closed])
  exact read_ok.mpr ⟨⟨nonempty_of_last last, takes.leads, closed⟩,
    Dictionary.get?_put_self f.files⟩

theorem read_stored_of_ne (apart : Place.key path ≠ Place.key other) (held : f.read path = .ok source)
    (text : String) : (f.stored other text).read path = .ok source := by
  obtain ⟨reaches, read⟩ := read_ok.mp held
  exact read_ok.mpr ⟨⟨reaches.nonempty, reaches.leads, reaches.closed⟩,
    (Dictionary.get?_put_of_ne apart f.files).trans read⟩

theorem readText_ok : f.readText path = .ok s ↔ f.read path = .ok (.text s) := by
  unfold readText
  rw [bind_ok]
  constructor
  · rintro ⟨source, held, taken⟩
    cases source with
    | text t =>
      obtain rfl := pure_ok.mp taken
      exact held
    | bytes => cases taken
  · exact fun held => ⟨_, held, rfl⟩

theorem readText_stored_of_ne (apart : Place.key path ≠ Place.key other)
    (held : f.readText path = .ok s) (text : String) : (f.stored other text).readText path = .ok s :=
  readText_ok.mpr (read_stored_of_ne apart (readText_ok.mp held) text)

/-! ### Graphs and partitions -/

section
variable {α : Type} [Numeral α]

theorem readGraph_ok [One α] {factors : Factors α} {graph : Hypergraph α} :
    f.readGraph path factors = .ok graph ↔
      ∃ source, f.read path = .ok source ∧ Hmetis.readGraph source factors = .ok graph := by
  rw [readGraph, mapError_ok, bind_ok]

theorem readGraph_stored_of_ne [One α] {factors : Factors α} {graph : Hypergraph α}
    (apart : Place.key path ≠ Place.key other) (held : f.readGraph path factors = .ok graph)
    (text : String) : (f.stored other text).readGraph path factors = .ok graph := by
  obtain ⟨source, read, parsed⟩ := readGraph_ok.mp held
  exact readGraph_ok.mpr ⟨source, read_stored_of_ne apart read text, parsed⟩

theorem Takes.saveGraph (takes : f.Takes path) (graph : Hypergraph α) :
    f.saveGraph path graph = .ok (f.stored path (Hmetis.writeGraph graph)) :=
  mapError_ok.mpr (write_ok.mpr ⟨takes, rfl⟩)

end

theorem readPartition_ok {p : Partition} : f.readPartition path = .ok p ↔
    ∃ source, f.read path = .ok source ∧ Hmetis.readPartition source = .ok p := by
  rw [readPartition, mapError_ok, bind_ok]

theorem readPartition_stored_of_ne {p : Partition} (apart : Place.key path ≠ Place.key other)
    (held : f.readPartition path = .ok p) (text : String) :
    (f.stored other text).readPartition path = .ok p := by
  obtain ⟨source, read, parsed⟩ := readPartition_ok.mp held
  exact readPartition_ok.mpr ⟨source, read_stored_of_ne apart read text, parsed⟩

theorem Takes.savePartition (takes : f.Takes path) (p : Partition) :
    f.savePartition path p = .ok (f.stored path (Hmetis.writePartition p)) :=
  mapError_ok.mpr (write_ok.mpr ⟨takes, rfl⟩)

end Folder
end Multilevel
