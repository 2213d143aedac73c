/-
# Where paths lead among locked places

A step that succeeds leads where it leads if nothing is locked (`Guarded.step_ok`).  So names
lead to the places that they spell here as well (`Guarded.of_follow_joins`), and what is found
depends, besides what there is on the way, on what is locked there (`Guarded.found_congr`).
-/

import PageBinding.Files.Guarded
import PageBinding.Proofs.Files.Following

namespace PageBinding
namespace Files
namespace Guarded

variable {g k : Guarded} {p : Path} {here there : Location} {name : String} {names : List String}

/-- The place that the names of a path lead to. -/
def follow (g : Guarded) (p : Path) : Except Failure Location :=
  p.names.foldlM g.step (g.files.start p)

/-- **A lock turns no step elsewhere.** -/
theorem step_ok (h : g.step here name = .ok there) : g.files.step here name = .ok there := by
  rw [step] at h
  split at h
  · split at h
    · cases h
    · exact h
  · exact h

/-- The names of the places on the way are the only thing that a step looks at. -/
theorem step_congr (hat : k.files.at? here = g.files.at? here)
    (hlocked : k.locked here = g.locked here) : k.step here = g.step here := by
  funext name
  rw [step, step, FileSystem.step, FileSystem.step, hat, hlocked]

/-- A slash before a name changes nothing. -/
theorem step_stay_bind (g : Guarded) (here : Location) (next : String) :
    (g.step here "" >>= fun there => g.step there next) = g.step here next := by
  by_cases hhere : g.files.HasDirectory here
  · have hstay : g.step here "" = .ok here := by
      rw [step, hhere]
      dsimp only
      rw [FileSystem.step_stay (by decide) hhere]
      simp
    rw [hstay]
    rfl
  · have hplain : ∀ name, g.step here name = g.files.step here name := by
      intro name
      rw [step]
      split
      · rename_i hdirectory
        exact absurd hdirectory hhere
      · rfl
    rw [hplain, hplain, FileSystem.step_of_not_hasDirectory hhere,
      FileSystem.step_of_not_hasDirectory hhere]
    cases g.files.at? here <;> rfl

/-- A path that leads somewhere is followed there. -/
theorem follow_of_locate (h : g.locate p = .ok here) :
    FileSystem.refusal? p = none ∧ g.follow p = .ok here := by
  rw [locate] at h
  split at h
  · cases h
  · rename_i hrefusal
    exact ⟨hrefusal, h⟩

/-- Under permissions too, following a path joined with names is following the path and then the
names. -/
theorem follow_joins (g : Guarded) (p : Path) (h : ∀ n ∈ names, Plain n) :
    g.follow (names.foldl (fun p n => p.join ⟨n⟩) p) =
      g.follow p >>= fun here => names.foldlM g.step here :=
  FileSystem.foldlM_names_joins (step_stay_bind g) g.files p h

/-- A plain name leads to what it spells. -/
theorem eq_of_step_plain (h : Plain name) (hto : g.step here name = .ok there) :
    there = here ++ [name] :=
  FileSystem.eq_of_step_plain h (step_ok hto)

/-- **A path that is continued by names** leads to what they spell below the place that the path
leads to. -/
theorem of_follow_joins (h : ∀ n ∈ names, Plain n)
    (hto : g.follow (names.foldl (fun p n => p.join ⟨n⟩) p) = .ok there) :
    ∃ here, g.follow p = .ok here ∧ there = here ++ names := by
  rw [follow_joins g p h] at hto
  cases hp : g.follow p with
  | error f => rw [hp] at hto; cases hto
  | ok here =>
    rw [hp] at hto
    exact ⟨here, rfl, FileSystem.foldlM_spells (fun n hn _ _ => eq_of_step_plain (h n hn)) hto⟩

/-! ## What is found -/

/-- A path leads to a directory just if there is one where it leads. -/
theorem isDirectory_iff (h : g.locate p = .ok here) :
    g.isDirectory p = true ↔ g.files.at? here = some .directory := by
  rw [isDirectory, h]
  dsimp only
  split
  · rename_i hdirectory
    exact iff_of_true rfl hdirectory
  · rename_i hother
    exact iff_of_false Bool.false_ne_true hother

/-- What cannot be located counts as no directory, a place behind a denied one included. -/
theorem isDirectory_of_lost {f : Failure} (h : g.locate p = .error f) :
    g.isDirectory p = false := by
  rw [isDirectory, h]

/-- What is read is the text of what is there, unless it is locked. -/
theorem readText_of_locate (h : g.locate p = .ok here) : g.readText p =
    match g.files.at? here with
    | none => .error .notFound
    | some e => if g.locked here then .error .denied else e.text := by
  rw [readText, h]
  rfl

/-- What cannot be located cannot be read, and the failure is the one of locating it. -/
theorem readText_of_lost {f : Failure} (h : g.locate p = .error f) : g.readText p = .error f := by
  rw [readText, h]
  rfl

/-- **What is found at a path that is continued by names** depends on where the path leads and on
what there is and what is locked from that place down along the names, and on nothing else. -/
theorem found_congr (h : ∀ n ∈ names, Plain n) (hfollow : k.follow p = g.follow p)
    (hat : ∀ here, g.follow p = .ok here → ∀ front, front <+: names →
      k.files.at? (here ++ front) = g.files.at? (here ++ front) ∧
        k.locked (here ++ front) = g.locked (here ++ front)) :
    let q := names.foldl (fun p n => p.join ⟨n⟩) p
    k.isDirectory q = g.isDirectory q ∧ k.readText q = g.readText q := by
  intro q
  have hto : k.follow q = g.follow q := by
    rw [follow_joins k p h, follow_joins g p h, hfollow]
    cases hp : g.follow p with
    | error f => rfl
    | ok here =>
      exact FileSystem.foldlM_congr_along
        (fun n hn _ _ => eq_of_step_plain (h n hn))
        fun front hfront => step_congr (hat here hp front hfront).1 (hat here hp front hfront).2
  have hlocate : k.locate q = g.locate q := by
    rw [locate, locate]
    split
    · rfl
    · exact hto
  rw [isDirectory, isDirectory, readText, readText, hlocate]
  cases hq : g.locate q with
  | error f => exact ⟨rfl, rfl⟩
  | ok there =>
    obtain ⟨here, hhere, rfl⟩ := of_follow_joins h (follow_of_locate hq).2
    obtain ⟨hthere, hlocked⟩ := hat here hhere names (List.prefix_refl names)
    simp only [hthere, hlocked, and_self, bind, Except.bind]

end Guarded
end Files
end PageBinding
