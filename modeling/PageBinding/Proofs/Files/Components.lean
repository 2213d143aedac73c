/-
# Components of paths

Paths are compared by their components: the root, a dot at the front of a relative path, and the
names that lead somewhere.

| path | components |
| --- | --- |
| `/a//./b/` | root, `a`, `b` |
| `./a/../b` | here, `a`, up, `b` |
| empty | none |

A path that is continued by a name has one component more (`components_join`), so a path that
is continued by names goes down from where the path leads (`components_joins`, `settle?_names`).
-/

import PageBinding.Files.Path
import PageBinding.Proofs.Text.Splitting

namespace PageBinding
namespace Files

/-- What counts of a path when paths are compared. -/
inductive Component
  | root
  | here
  | up
  | name (text : String)
  deriving DecidableEq, Repr

namespace Component

/-- The component that a name of a path makes, if it leads somewhere. -/
def ofName? (name : String) : Option Component :=
  if isStay name then none else if name = ".." then some .up else some (.name name)

/-- The names that components come to below a place, by their text alone: `..` takes back the name
before it.  `none` if that leads out, by more `..` than names or by a root. -/
def settle? (below : List String) : List Component → Option (List String)
  | [] => some below
  | .name text :: r => settle? (below ++ [text]) r
  | .here :: r => settle? below r
  | .up :: r => if below = [] then none else settle? below.dropLast r
  | .root :: _ => none

/-- Proper names settle to themselves below the place they start from. -/
theorem settle?_names (below names : List String) :
    settle? below (names.map .name) = some (below ++ names) := by
  induction names generalizing below with
  | nil => rw [List.map_nil, settle?, List.append_nil]
  | cons name names ih => rw [List.map_cons, settle?, ih, List.append_assoc, List.singleton_append]

end Component

/-- The names that lead somewhere. -/
def leading (names : List String) : List String := names.filter fun name => !isStay name

/-- A name is left after dropping the stays just if it is a name and no stay. -/
theorem mem_leading {name : String} {names : List String} :
    name ∈ leading names ↔ name ∈ names ∧ isStay name = false := by
  rw [leading, List.mem_filter, Bool.not_eq_true']

/-- Dropping the stays distributes over concatenation. -/
theorem leading_append (front back : List String) :
    leading (front ++ back) = leading front ++ leading back :=
  List.filter_append ..

/-- A stay at the front is dropped. -/
theorem leading_cons_of_stay {name : String} (h : isStay name = true) (names : List String) :
    leading (name :: names) = leading names :=
  List.filter_cons_of_neg (by simp [h])

/-- A name at the front that is no stay is kept. -/
theorem leading_cons_of_not_stay {name : String} (h : isStay name = false) (names : List String) :
    leading (name :: names) = name :: leading names :=
  List.filter_cons_of_pos (by simp [h])

/-- A name that leads from a directory to what is in it. -/
structure Plain (name : String) : Prop where
  slash : '/' ∉ name.toList
  stay : isStay name = false
  up : name ≠ ".."

namespace Path

variable {p : Path} {name : String} {names : List String}

/-- The components of a path. -/
def components (p : Path) : List Component :=
  (if p.isAbsolute then [.root] else if p.names.head? = some "." then [.here] else []) ++
    p.names.filterMap Component.ofName?

example : [components ⟨"/a//./b/"⟩, components ⟨"./a/../b"⟩, components ⟨""⟩] =
    [[.root, .name "a", .name "b"], [.here, .name "a", .up, .name "b"], []] := by
  decide +kernel

/-! ## Joining -/

/-- A name without a slash is no absolute path. -/
theorem isAbsolute_eq_false (h : '/' ∉ name.toList) : isAbsolute ⟨name⟩ = false := by
  rw [isAbsolute, decide_eq_false_iff_not]
  exact fun hhead => h (List.mem_of_head? hhead)

/-- The names of a path that is continued by one. -/
theorem names_join (p : Path) (h : '/' ∉ name.toList) :
    ∃ front, (p.names = front ∨ p.names = front ++ [""]) ∧
      (p.join ⟨name⟩).names = front ++ [name] := by
  have hlast : (Text.splitAt '/' name.toList).map String.ofList = [name] := by
    rw [Text.splitAt_of_not_mem h, List.map_singleton, String.ofList_toList]
  rw [join, isAbsolute_eq_false h, if_neg Bool.false_ne_true]
  split_ifs with hend
  · rcases hend with hempty | hslash
    · refine ⟨[], .inr ?_, ?_⟩
      · rw [names, hempty]
        rfl
      · rw [names, hempty, String.empty_append, hlast]
        rfl
    · obtain ⟨front, hfront⟩ := List.getLast?_eq_some_iff.1 hslash
      refine ⟨(Text.splitAt '/' front).map String.ofList, .inr ?_, ?_⟩
      · rw [names, hfront, Text.splitAt_append, List.map_append]
        rfl
      · rw [names, String.toList_append, hfront, List.append_assoc, List.singleton_append,
          Text.splitAt_append, List.map_append, hlast]
  · refine ⟨p.names, .inl rfl, ?_⟩
    have htext : (p.text ++ "/" ++ name).toList = p.text.toList ++ '/' :: name.toList := by simp
    rw [names, htext, Text.splitAt_append, List.map_append, hlast]
    rfl

/-- Joining with a name without a slash keeps a path absolute or relative. -/
theorem isAbsolute_join (p : Path) (h : '/' ∉ name.toList) :
    (p.join ⟨name⟩).isAbsolute = p.isAbsolute := by
  have hname := isAbsolute_eq_false h
  rw [join, hname, if_neg Bool.false_ne_true]
  by_cases hempty : p.text = ""
  · rw [if_pos (.inl hempty), hempty, String.empty_append, hname, isAbsolute, hempty]
    rfl
  · obtain ⟨c, r, hr⟩ := List.exists_cons_of_ne_nil (mt String.toList_eq_nil_iff.1 hempty)
    split_ifs <;> simp [isAbsolute, hr]

/-- **A name is one component more.** -/
theorem components_join (p : Path) (h : Plain name) :
    (p.join ⟨name⟩).components = p.components ++ [.name name] := by
  have hcomponent : Component.ofName? name = some (.name name) := by
    rw [Component.ofName?, h.stay, if_neg Bool.false_ne_true, if_neg h.up]
  have hdot : name ≠ "." := by
    rintro rfl
    exact absurd h.stay (by decide)
  obtain ⟨front, hnames, hjoin⟩ := names_join p h.slash
  have hcomponents : p.names.filterMap Component.ofName? = front.filterMap Component.ofName? := by
    rcases hnames with hnames | hnames
    · rw [hnames]
    · rw [hnames, List.filterMap_append]
      exact List.append_nil _
  have hhead : (p.join ⟨name⟩).names.head? = some "." ↔ p.names.head? = some "." := by
    rw [hjoin]
    cases front with
    | nil =>
      rcases hnames with hnames | hnames
      · simp [hnames, hdot]
      · simp [hnames, hdot]
    | cons first front =>
      rcases hnames with hnames | hnames <;> simp [hnames]
  simp only [components, isAbsolute_join p h.slash, hhead, hcomponents]
  rw [hjoin, List.filterMap_append, List.append_assoc]
  simp [hcomponent]

/-- **Names are as many components more.** -/
theorem components_joins (p : Path) (h : ∀ name ∈ names, Plain name) :
    (names.foldl (fun p n => p.join ⟨n⟩) p).components = p.components ++ names.map .name := by
  induction names generalizing p with
  | nil => exact (List.append_nil _).symm
  | cons name names ih =>
    obtain ⟨hname, hnames⟩ := List.forall_mem_cons.1 h
    rw [List.foldl_cons, ih _ hnames, components_join p hname, List.append_assoc]
    rfl

end Path
end Files
end PageBinding
