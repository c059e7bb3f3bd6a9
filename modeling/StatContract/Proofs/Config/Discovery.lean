import StatContract.Config.Discovery
import StatContract.File.Tree
import StatContract.Proofs.File.Chain

/-!
# The nearest settings file

The search for settings is compared with the chain of directories above its start. `Nearest` says
which settings file of a chain is the first that is there, and `Loads` what comes of a file or of
there being none. Neither speaks of a run.

A run on files that only looks at them (`FileAccess.OnlyLooks`) is determined by which paths are
there and what they hold. It gives the nearest file (`find_eq`) and loads that one alone
(`loads_discover`). Hence everything that the search does not come to is free to differ:
`find?_congr_of_sought` for the files that are looked for, `Loads.congr` for the one that is read.
Whether a path is there is asked of the path as it is written; how `..` is followed in it is left to
the files.
-/

namespace StatContract

namespace FileAccess

variable {σ : Type}

/-- Looking for a file and reading one change nothing. -/
structure OnlyLooks (files : FileAccess (StateM σ)) : Prop where
  present : ∀ path s, (files.present path s).2 = s
  read : ∀ path s, (files.read path s).2 = s

/-- Whether there is a file or directory. -/
def has (files : FileAccess (StateM σ)) (s : σ) (path : String) : Bool := (files.present path s).1

/-- What reading a file gives. -/
def contents (files : FileAccess (StateM σ)) (s : σ) (path : String) : Except FileError String :=
  (files.read path s).1

theorem onlyLooks_access : FileTree.access.OnlyLooks := ⟨fun _ _ => rfl, fun _ _ => rfl⟩

end FileAccess

namespace Config

variable {σ : Type} {files : FileAccess (StateM σ)} {present present' : String → Bool}
  {contents contents' : String → Except FileError String}

/-- The settings file of a directory. -/
def fileIn (dir : String) : String := (Path.ofString dir).join fileName

/-- The settings file of the first directory that has one. -/
inductive Nearest (present : String → Bool) (dirs : List String) : Option String → Prop where
  | found {nearer farther : List String} {dir : String} (hdirs : dirs = nearer ++ dir :: farther)
      (hnearer : ∀ d ∈ nearer, present (fileIn d) = false) (hdir : present (fileIn dir) = true) :
      Nearest present dirs (some (fileIn dir))
  | missing (h : ∀ d ∈ dirs, present (fileIn d) = false) : Nearest present dirs none

/-- What comes of the chosen settings file: its settings, or what is wrong with it. -/
inductive Loads (contents : String → Except FileError String) :
    Option String → Except ConfigFailure Config → Prop where
  | valid {path text : String} {c : Config} (hread : contents path = .ok text)
      (hparse : parse text = .ok c) : Loads contents (some path) (.ok c)
  | invalid {path text : String} {e : ConfigError} (hread : contents path = .ok text)
      (hparse : parse text = .error e) :
      Loads contents (some path) (.error ⟨e, ["while loading '" ++ path ++ "'"]⟩)
  | unreadable {path : String} {e : FileError} (hread : contents path = .error e) :
      Loads contents (some path) (.error ⟨.unreadable path e.message, []⟩)
  | defaults : Loads contents none (.ok {})

/-- The settings files that are looked for: one for each directory up to the first that has one. -/
def sought (present : String → Bool) : List String → List String
  | [] => []
  | dir :: dirs => fileIn dir :: if present (fileIn dir) then [] else sought present dirs

theorem nearest_iff {dirs : List String} {r : Option String} :
    Nearest present dirs r ↔ (dirs.map fileIn).find? present = r := by
  constructor
  · intro h
    cases h with
    | found hdirs hnearer hdir =>
        rw [hdirs, List.map_append, List.map_cons]
        exact List.find?_eq_some_iff_append.2 ⟨hdir, _, _, rfl, by simpa using hnearer⟩
    | missing h => simpa using h
  · rintro rfl
    cases hfind : (dirs.map fileIn).find? present with
    | none => exact .missing (by simpa using hfind)
    | some path =>
        obtain ⟨hpath, nearer, farther, hdirs, hnearer⟩ := List.find?_eq_some_iff_append.1 hfind
        obtain ⟨nearer, rest, rfl, rfl, hrest⟩ := List.map_eq_append_iff.1 hdirs
        obtain ⟨dir, farther, rfl, rfl, -⟩ := List.map_eq_cons_iff.1 hrest
        exact .found rfl (by simpa using hnearer) hpath

theorem find?_congr_of_sought {dirs : List String}
    (h : ∀ path ∈ sought present dirs, present' path = present path) :
    (dirs.map fileIn).find? present' = (dirs.map fileIn).find? present := by
  induction dirs with
  | nil => rfl
  | cons dir dirs ih =>
      obtain ⟨hdir, hrest⟩ := List.forall_mem_cons.1 h
      rw [List.map_cons, List.find?_cons, List.find?_cons, hdir]
      cases hpresent : present (fileIn dir) with
      | true => rfl
      | false => exact ih (by simpa [hpresent] using hrest)

theorem Loads.unique {chosen : Option String} {r r' : Except ConfigFailure Config}
    (h : Loads contents chosen r) (h' : Loads contents chosen r') : r = r' := by
  cases h <;> cases h' <;> simp_all

theorem Loads.congr {chosen : Option String} {r : Except ConfigFailure Config}
    (h : Loads contents chosen r)
    (hagree : ∀ path, chosen = some path → contents' path = contents path) :
    Loads contents' chosen r := by
  cases h with
  | valid hread hparse => exact .valid ((hagree _ rfl).trans hread) hparse
  | invalid hread hparse => exact .invalid ((hagree _ rfl).trans hread) hparse
  | unreadable hread => exact .unreadable ((hagree _ rfl).trans hread)
  | defaults => exact .defaults

theorem candidates_eq (start : Path) :
    candidates start = (start.ancestors.map Path.text).map fileIn := by
  simp [candidates, fileIn, Path.join, Path.text_ofString]

theorem components_fileIn (dir : String) :
    Path.components (fileIn dir) = Path.components dir ++ [fileName] := by
  rw [fileIn, Path.components_join _ (by decide) (by decide), Path.text_ofString]

theorem find_eq (hlooks : files.OnlyLooks) (start : Path) (s : σ) :
    find files start s = ((candidates start).find? (files.has s), s) := by
  unfold find
  induction candidates start with
  | nil => rfl
  | cons path rest ih =>
      have hrun (f : Bool → StateM σ (Option String)) :
          (files.present path >>= f) s = f (files.has s path) (files.present path s).2 := rfl
      rw [List.findM?, hrun, hlooks.present, List.find?_cons]
      cases files.has s path with
      | true => rfl
      | false => exact ih

theorem loads_load (hlooks : files.OnlyLooks) (path : String) (s : σ) :
    ∃ r, load files path s = (r, s) ∧ Loads (files.contents s) (some path) r := by
  have hrun (f : Except FileError String → StateM σ (Except ConfigFailure Config)) :
      (files.read path >>= f) s = f (files.contents s path) (files.read path s).2 := rfl
  unfold load
  rw [hrun, hlooks.read]
  cases hread : files.contents s path with
  | error e => exact ⟨_, rfl, .unreadable hread⟩
  | ok text =>
      cases hparse : parse text with
      | ok c => exact ⟨.ok c, by simp only [hparse]; rfl, .valid hread hparse⟩
      | error e => exact ⟨.error _, by simp only [hparse]; rfl, .invalid hread hparse⟩

theorem loads_discover (hlooks : files.OnlyLooks) (start : Path) (s : σ) :
    ∃ r, discover files start s = (r, s) ∧
      Loads (files.contents s) ((candidates start).find? (files.has s)) r := by
  have hrun (f : Option String → StateM σ (Except ConfigFailure Config)) :
      (find files start >>= f) s = f (find files start s).1 (find files start s).2 := rfl
  unfold discover
  rw [hrun, find_eq hlooks]
  cases (candidates start).find? (files.has s) with
  | none => exact ⟨_, rfl, .defaults⟩
  | some path => exact loads_load hlooks path s

/-- The search from `start`, above which are the directories `dirs`, uses the nearest settings file
and nothing else. -/
structure UsesNearest (files : FileAccess (StateM σ)) (start : Path) (dirs : List String) (s : σ) :
    Prop where
  /-- The search gives the settings file of the first directory that has one, and none only if no
  directory has one. -/
  finds : ∀ r, (find files start s).1 = r ↔ Nearest (files.has s) dirs r
  /-- The settings are those of this file, and its faults are the result, whatever is further up.
  Without such a file they are the defaults. -/
  discovers : ∀ r, (discover files start s).1 = r ↔
    ∃ chosen, Nearest (files.has s) dirs chosen ∧ Loads (files.contents s) chosen r
  /-- The files stay as they are. -/
  keeps : (find files start s).2 = s ∧ (discover files start s).2 = s
  /-- Only which files there are up to the nearest one matters, and what that one holds. -/
  ignores : ∀ s', (∀ path ∈ sought (files.has s) dirs, files.has s' path = files.has s path) →
    (∀ path, Nearest (files.has s) dirs (some path) →
      files.contents s' path = files.contents s path) →
    (find files start s').1 = (find files start s).1 ∧
      (discover files start s').1 = (discover files start s).1

theorem usesNearest (hlooks : files.OnlyLooks) {start : Path} {dirs : List String}
    (hdirs : candidates start = dirs.map fileIn) (s : σ) : UsesNearest files start dirs s := by
  have hfind (s : σ) := find_eq hlooks start s
  have hdiscover (s : σ) := loads_discover hlooks start s
  rw [hdirs] at hfind hdiscover
  obtain ⟨r, hrun, hloads⟩ := hdiscover s
  refine ⟨fun r' => ?_, fun r' => ?_, ?_, fun s' hsought hread => ?_⟩
  · rw [hfind, nearest_iff]
  · simp only [nearest_iff, exists_eq_left', hrun]
    exact ⟨fun h => h ▸ hloads, hloads.unique⟩
  · rw [hfind, hrun]
    exact ⟨rfl, rfl⟩
  · have hsame := find?_congr_of_sought hsought
    obtain ⟨r', hrun', hloads'⟩ := hdiscover s'
    rw [hsame] at hloads'
    refine ⟨by rw [hfind, hfind, hsame], ?_⟩
    rw [hrun, hrun']
    exact hloads'.unique (hloads.congr fun path hpath => hread path (nearest_iff.2 hpath))

/-- The search for settings from a relative path stops at the nearest settings file, for all files.
The directories above the path form a finite chain that ends with the empty path. The search gives
the settings file of the first of them that has one, loads this file alone, and does not depend on
anything that it does not come to. -/
theorem discover_uses_nearest (files : FileAccess (StateM σ)) (hlooks : files.OnlyLooks)
    (start : String) (hstart : Path.IsRelative start) :
    (∃ dirs, Path.Chain start dirs) ∧
    ∀ dirs, Path.Chain start dirs →
      (∀ dir ∈ dirs, Path.components (fileIn dir) = Path.components dir ++ [fileName]) ∧
      ∀ s, UsesNearest files (Path.ofString start) dirs s := by
  have hchain := Path.chain_ofString hstart
  refine ⟨⟨_, hchain⟩, fun dirs hdirs => ⟨fun dir _ => components_fileIn dir, ?_⟩⟩
  apply usesNearest hlooks
  rw [candidates_eq, hchain.unique hdirs]

/-- A working directory with settings, and in it a directory whose settings file is no TOML. -/
def shadowedTree : FileTree where
  files := [(["a", "checkgen.toml"], "[checker"), (["checkgen.toml"], "")]
  directories := [["a", "b"]]

theorem discover_uses_nearest_shadowed :
    (FileTree.access.contents shadowedTree "checkgen.toml" = .ok "" ∧ parse "" = .ok {}) ∧
    (find FileTree.access (Path.ofString "a/./b/") shadowedTree).1 = some "a/checkgen.toml" ∧
    (discover FileTree.access (Path.ofString "a/./b/") shadowedTree).1 =
      .error ⟨.malformed, ["while loading 'a/checkgen.toml'"]⟩ := by
  have hchain : Path.Chain "a/./b/" ["a/./b/", "a", ""] := Path.chain_ofString (by decide)
  have huses := ((discover_uses_nearest FileTree.access FileAccess.onlyLooks_access "a/./b/"
    (by decide)).2 _ hchain).2 shadowedTree
  have hnearest : Nearest (FileTree.access.has shadowedTree) ["a/./b/", "a", ""]
      (some "a/checkgen.toml") := by
    refine @Nearest.found _ _ ["a/./b/"] [""] "a" rfl ?_ ?_
    · decide +kernel
    · decide +kernel
  have hread : FileTree.access.contents shadowedTree "a/checkgen.toml" = .ok "[checker" := rfl
  have hparse : parse "[checker" = .error .malformed := rfl
  exact ⟨⟨rfl, rfl⟩, (huses.finds _).2 hnearest,
    (huses.discovers _).2 ⟨_, hnearest, .invalid hread hparse⟩⟩

end Config

end StatContract
