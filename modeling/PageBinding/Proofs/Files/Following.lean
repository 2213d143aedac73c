/-
# Where paths lead in a file system

A path is followed from the place where it starts (`FileSystem.follow`).  Continued by a name
it leads one step further (`follow_join`), and continued by names to just the place that these
spell below it, if it leads anywhere (`follow_joins`).
-/

import PageBinding.Files.FileSystem
import PageBinding.Proofs.Files.Components

namespace PageBinding
namespace Files
namespace FileSystem

variable {fs : FileSystem} {p : Path} {here there : Location} {name : String} {names : List String}
  {f : Failure}

/-- The place that the names of a path lead to. -/
def follow (fs : FileSystem) (p : Path) : Except Failure Location :=
  p.names.foldlM fs.step (fs.start p)

/-- Whether there is a directory at a place. -/
def HasDirectory (fs : FileSystem) (here : Location) : Prop := fs.at? here = some .directory

/-- A path the system accepts is located by following its names. -/
theorem locate_eq_follow (h : refusal? p = none) : fs.locate p = fs.follow p := by
  rw [locate, h, follow]

/-! ## Steps -/

/-- From a directory a proper name leads to the place of that name, unless it is too long. -/
theorem step_of_hasDirectory (hstay : isStay name = false) (hup : name ≠ "..")
    (hhere : fs.HasDirectory here) : fs.step here name =
      if name.utf8ByteSize > maxName then .error .nameTooLong else .ok (here ++ [name]) := by
  rw [step, hhere]
  dsimp only
  rw [hstay, if_neg Bool.false_ne_true, if_neg hup]

/-- The empty name and the dot stay in the directory they are followed from. -/
theorem step_stay (h : isStay name = true) (hhere : fs.HasDirectory here) :
    fs.step here name = .ok here := by
  rw [step, hhere]
  exact if_pos h

/-- A step is made from a directory. -/
theorem hasDirectory_of_step (h : fs.step here name = .ok there) : fs.HasDirectory here := by
  rw [step] at h
  split at h
  · cases h
  · cases h
  · assumption

/-- From anything but a directory no name leads on: either nothing is there or a file is. -/
theorem step_of_not_hasDirectory (h : ¬ fs.HasDirectory here) (name : String) :
    fs.step here name =
      match fs.at? here with
      | none => .error .notFound
      | some _ => .error .notDirectory := by
  rw [step]
  split
  · rename_i hnone
    rw [hnone]
  · rename_i hfile
    rw [hfile]
  · rename_i hdir
    exact absurd hdir h

/-- A name that stays changes nothing before another one. -/
theorem step_stay_bind (h : isStay name = true) (here : Location) (next : String) :
    (fs.step here name >>= fun there => fs.step there next) = fs.step here next := by
  by_cases hhere : fs.HasDirectory here
  · rw [step_stay h hhere]
    rfl
  · rw [step_of_not_hasDirectory hhere, step_of_not_hasDirectory hhere]
    cases fs.at? here <;> rfl

/-- **Names without `..`** lead to what they spell, those left out that stay. -/
theorem eq_of_foldlM_step (h : ".." ∉ names) (hto : names.foldlM fs.step here = .ok there) :
    there = here ++ leading names := by
  induction names generalizing here with
  | nil => exact (Except.ok.inj hto).symm.trans (List.append_nil _).symm
  | cons name names ih =>
    obtain ⟨hname, hnames⟩ := not_or.1 (mt List.mem_cons.2 h)
    rw [List.foldlM_cons] at hto
    cases hstep : fs.step here name with
    | error f => rw [hstep] at hto; cases hto
    | ok next =>
      rw [hstep] at hto
      have hhere := hasDirectory_of_step hstep
      cases hstay : isStay name with
      | true =>
        rw [step_stay hstay hhere] at hstep
        obtain rfl := Except.ok.inj hstep
        rw [leading_cons_of_stay hstay]
        exact ih hnames hto
      | false =>
        rw [step_of_hasDirectory hstay (Ne.symm hname) hhere] at hstep
        split_ifs at hstep
        obtain rfl := Except.ok.inj hstep
        rw [leading_cons_of_not_stay hstay, ih hnames hto, List.append_assoc, List.singleton_append]

/-- A plain name leads to what it spells. -/
theorem eq_of_step_plain (h : Plain name) (hto : fs.step here name = .ok there) :
    there = here ++ [name] := by
  rw [step_of_hasDirectory h.stay h.up (hasDirectory_of_step hto)] at hto
  split_ifs at hto
  exact (Except.ok.inj hto).symm

/-- **Names lead to what they spell** if each step does. -/
theorem foldlM_spells {step : Location → String → Except Failure Location}
    (hspell : ∀ n ∈ names, ∀ here there, step here n = .ok there → there = here ++ [n])
    (hto : names.foldlM step here = .ok there) : there = here ++ names := by
  induction names generalizing here with
  | nil => exact (Except.ok.inj hto).symm.trans (List.append_nil _).symm
  | cons name names ih =>
    obtain ⟨hname, hnames⟩ := List.forall_mem_cons.1 hspell
    rw [List.foldlM_cons] at hto
    cases hstep : step here name with
    | error f => rw [hstep] at hto; cases hto
    | ok next =>
      rw [hstep] at hto
      obtain rfl := hname _ _ hstep
      rw [ih hnames hto, List.append_assoc, List.singleton_append]

/-- Plain names lead to what they spell. -/
theorem foldlM_step_plain (h : ∀ n ∈ names, Plain n)
    (hto : names.foldlM fs.step here = .ok there) : there = here ++ names :=
  foldlM_spells (fun n hn _ _ => eq_of_step_plain (h n hn)) hto

/-! ## Paths -/

/-- One name leads one step further. -/
theorem foldlM_singleton (step : Location → String → Except Failure Location) (here : Location)
    (name : String) : [name].foldlM step here = step here name := bind_pure _

/-- **A path that is continued by a name leads one step further,** whatever a step is, if it is
no step to stay behind a slash. -/
theorem foldlM_names_join {step : Location → String → Except Failure Location}
    (hstay : ∀ here next, (step here "" >>= fun there => step there next) = step here next)
    (fs : FileSystem) (p : Path) (h : '/' ∉ name.toList) :
    (p.join ⟨name⟩).names.foldlM step (fs.start (p.join ⟨name⟩)) =
      p.names.foldlM step (fs.start p) >>= fun here => step here name := by
  obtain ⟨front, hnames, hjoin⟩ := Path.names_join p h
  have hstart : fs.start (p.join ⟨name⟩) = fs.start p := by
    rw [start, start, Path.isAbsolute_join p h]
  rw [hjoin, hstart, List.foldlM_append]
  rcases hnames with hnames | hnames
  · rw [hnames]
    exact bind_congr fun here => foldlM_singleton step here name
  · rw [hnames, List.foldlM_append, bind_assoc]
    refine bind_congr fun here => ?_
    rw [foldlM_singleton, foldlM_singleton, hstay]

/-- A path that is continued by names leads as many steps further. -/
theorem foldlM_names_joins {step : Location → String → Except Failure Location}
    (hstay : ∀ here next, (step here "" >>= fun there => step there next) = step here next)
    (fs : FileSystem) (p : Path) (h : ∀ n ∈ names, Plain n) :
    (names.foldl (fun p n => p.join ⟨n⟩) p).names.foldlM step
        (fs.start (names.foldl (fun p n => p.join ⟨n⟩) p)) =
      p.names.foldlM step (fs.start p) >>= fun here => names.foldlM step here := by
  induction names generalizing p with
  | nil => exact (bind_pure _).symm
  | cons name names ih =>
    obtain ⟨hname, hnames⟩ := List.forall_mem_cons.1 h
    rw [List.foldl_cons, ih _ hnames, foldlM_names_join hstay fs p hname.slash, bind_assoc]
    simp only [List.foldlM_cons]

/-- Following a joined path is following the path and then the name. -/
theorem follow_join (fs : FileSystem) (p : Path) (h : '/' ∉ name.toList) :
    fs.follow (p.join ⟨name⟩) = fs.follow p >>= fun here => fs.step here name :=
  foldlM_names_join (step_stay_bind (show isStay "" = true from rfl)) fs p h

/-- Following a path joined with several names is following the path and then the names. -/
theorem follow_joins (fs : FileSystem) (p : Path) (h : ∀ n ∈ names, Plain n) :
    fs.follow (names.foldl (fun p n => p.join ⟨n⟩) p) =
      fs.follow p >>= fun here => names.foldlM fs.step here :=
  foldlM_names_joins (step_stay_bind (show isStay "" = true from rfl)) fs p h

/-- **A path that is continued by names** leads to what they spell below the place that the path
leads to. -/
theorem of_follow_joins (h : ∀ n ∈ names, Plain n)
    (hto : fs.follow (names.foldl (fun p n => p.join ⟨n⟩) p) = .ok there) :
    ∃ here, fs.follow p = .ok here ∧ there = here ++ names := by
  rw [follow_joins fs p h] at hto
  cases hp : fs.follow p with
  | error f => rw [hp] at hto; cases hto
  | ok here =>
    rw [hp] at hto
    exact ⟨here, rfl, foldlM_step_plain h hto⟩

/-- A path that can be located is one the system accepts, and following its names leads to the
place. -/
theorem follow_of_locate (h : fs.locate p = .ok here) :
    refusal? p = none ∧ fs.follow p = .ok here := by
  rw [locate] at h
  split at h
  · cases h
  · rename_i hrefusal
    exact ⟨hrefusal, h⟩

/-! ## What is met on the way -/

variable {gs : FileSystem}

/-- Names lead where they led as long as the directories stay. -/
theorem foldlM_step_of_directories (h : ∀ here, fs.HasDirectory here → gs.HasDirectory here)
    (hto : names.foldlM fs.step here = .ok there) : names.foldlM gs.step here = .ok there := by
  induction names generalizing here with
  | nil => exact hto
  | cons name names ih =>
    rw [List.foldlM_cons] at hto ⊢
    cases hstep : fs.step here name with
    | error f => rw [hstep] at hto; cases hto
    | ok next =>
      have hhere := hasDirectory_of_step hstep
      have hsame : gs.step here name = fs.step here name := by rw [step, step, hhere, h here hhere]
      rw [hstep] at hto
      rw [hsame, hstep]
      exact ih hto

/-- **Names are followed alike** by steps that are alike at the places that they pass. -/
theorem foldlM_congr_along {step other : Location → String → Except Failure Location}
    (hspell : ∀ n ∈ names, ∀ here there, step here n = .ok there → there = here ++ [n])
    (hsame : ∀ front, front <+: names → other (here ++ front) = step (here ++ front)) :
    names.foldlM other here = names.foldlM step here := by
  induction names generalizing here with
  | nil => rfl
  | cons name names ih =>
    obtain ⟨hname, hnames⟩ := List.forall_mem_cons.1 hspell
    have hhere : other here = step here := by
      have := hsame [] List.nil_prefix
      rwa [List.append_nil] at this
    rw [List.foldlM_cons, List.foldlM_cons, hhere]
    cases hnext : step here name with
    | error f => rfl
    | ok next =>
      obtain rfl := hname _ _ hnext
      refine ih hnames fun front hfront => ?_
      rw [List.append_assoc]
      exact hsame _ ((List.prefix_append_right_inj [name]).2 hfront)

/-- Plain names are followed by what there is at the places that they pass. -/
theorem foldlM_step_congr (h : ∀ n ∈ names, Plain n)
    (hat : ∀ front, front <+: names → gs.at? (here ++ front) = fs.at? (here ++ front)) :
    names.foldlM gs.step here = names.foldlM fs.step here :=
  foldlM_congr_along (fun n hn _ _ => eq_of_step_plain (h n hn)) fun front hfront => by
    funext name
    rw [step, step, hat front hfront]

/-- **What is found at a path that is continued by names** depends on where the path leads and on
what there is from that place down along the names, and on nothing else. -/
theorem found_congr (h : ∀ n ∈ names, Plain n) (hfollow : gs.follow p = fs.follow p)
    (hat : ∀ here, fs.follow p = .ok here → ∀ front, front <+: names →
      gs.at? (here ++ front) = fs.at? (here ++ front)) :
    let q := names.foldl (fun p n => p.join ⟨n⟩) p
    gs.isDirectory q = fs.isDirectory q ∧ gs.readText q = fs.readText q := by
  intro q
  have hto : gs.follow q = fs.follow q := by
    rw [follow_joins gs p h, follow_joins fs p h, hfollow]
    cases hp : fs.follow p with
    | error f => rfl
    | ok here => exact foldlM_step_congr h (hat here hp)
  have hlocate : gs.locate q = fs.locate q := by
    rw [locate, locate]
    split
    · rfl
    · exact hto
  rw [isDirectory, isDirectory, readText, readText, hlocate]
  cases hq : fs.locate q with
  | error f => exact ⟨rfl, rfl⟩
  | ok there =>
    obtain ⟨here, hhere, rfl⟩ := of_follow_joins h (follow_of_locate hq).2
    have hthere := hat here hhere names (List.prefix_refl names)
    simp only [hthere, and_self, bind, Except.bind]

end FileSystem
end Files
end PageBinding
