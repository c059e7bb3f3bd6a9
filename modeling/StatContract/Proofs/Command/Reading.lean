import StatContract.Command.Run
import StatContract.Proofs.Config.Discovery

/-!
# What a command reads

Before a command has an effect it reads a contract and settings, and it may stop there.
`Reads x s P` says of such a run in the state `s` that it leaves the state as it is and that it
succeeds with exactly the one thing that has the property `P`. There is a rule for each way in which
runs are put together, and from these one lemma for each thing that is read from files whose state
does not change when one looks at them (`FileAccess.OnlyLooks`):

* `FileAccess.reads_loadSpec`: a contract that the file holds (`HasSpec`);
* `FileAccess.reads_loadConfig`: the settings of the chosen file (`Settings`);
* `FileAccess.reads_finalSettings`: these with the level of significance of the command line.

The properties do not mention the runs. Which settings file is the chosen one is said by
`SettingsFile`: a given one, or else the nearest one, or none.
-/

namespace StatContract

/-- The settings with the level of significance of the command line, which has to be a possible
one. -/
inductive Config.Overridden (c : Config) : Option Float → Config → Prop where
  | keep : Overridden c none c
  | change {alpha : Float} (h : Config.isOpenUnit alpha = true) :
      Overridden c (some alpha) { c with alpha }

/-- A success stays one whatever is said about failures. -/
theorem except_mapError_eq_ok_iff {ε ε' α : Type} {r : Except ε α} {f : ε → ε'} {a : α} :
    r.mapError f = .ok a ↔ r = .ok a := by
  cases r with
  | ok b =>
      change (Except.ok b : Except ε' α) = .ok a ↔ _
      rw [Except.ok.injEq, Except.ok.injEq]
  | error e =>
      change (Except.error (f e) : Except ε' α) = .ok a ↔ _
      exact iff_of_false (by simp) (by simp)

namespace FileAccess

variable {σ ε α β : Type} {s : σ}

theorem run_liftM_bind (y : StateM σ β) (f : β → ExceptT ε (StateM σ) α) (s : σ) :
    (liftM y >>= f : ExceptT ε (StateM σ) α).run s = (f (y s).1).run (y s).2 := rfl

/-- A run changes nothing, and succeeds with what has the property. -/
structure Reads (x : StateM σ (Except ε α)) (s : σ) (P : α → Prop) : Prop where
  keeps : (x s).2 = s
  ok_iff : ∀ a, (x s).1 = .ok a ↔ P a

namespace Reads

variable {x : StateM σ (Except ε α)} {P P' : α → Prop} {Q : α → β → Prop}

theorem congr (h : Reads x s P) (hP : ∀ a, P a ↔ P' a) : Reads x s P' :=
  ⟨h.keeps, fun a => (h.ok_iff a).trans (hP a)⟩

/-- A run succeeds with one thing at most. -/
theorem unique {a b : α} (h : Reads x s P) (ha : P a) (hb : P b) : a = b := by
  have hok := (h.ok_iff a).2 ha
  rw [(h.ok_iff b).2 hb] at hok
  exact (Except.ok.inj hok).symm

theorem result (r : Except ε α) : Reads (pure r) s (r = .ok ·) :=
  ⟨rfl, fun _ => Iff.rfl⟩

/-- To look at a file in between changes nothing. -/
theorem lookBetween {y : StateM σ β} {b : β} {f : β → ExceptT ε (StateM σ) α}
    (hy : y s = (b, s)) (h : Reads (f b).run s P) : Reads (liftM y >>= f).run s P := by
  have hrun := run_liftM_bind y f s
  rw [hy] at hrun
  exact ⟨by rw [hrun, h.keeps], fun a => by rw [hrun, h.ok_iff]⟩

/-- A run that goes on after reading ends as what follows ends, or it fails with nothing
changed. -/
theorem ends_bind {x : ExceptT ε (StateM σ) α} {f : α → ExceptT ε (StateM σ) β}
    (h : Reads x.run s P) {R : Except ε β × σ → Prop}
    (hfail : (¬ ∃ a, P a) → ∀ e, R (.error e, s)) (hgo : ∀ a, P a → R ((f a).run s)) :
    R ((x >>= f).run s) := by
  have hrun : (x >>= f).run s = ExceptT.bindCont f (x.run s).1 (x.run s).2 := rfl
  rw [hrun, h.keeps]
  cases hx : (x.run s).1 with
  | ok a => exact hgo a ((h.ok_iff a).1 hx)
  | error e =>
      refine hfail ?_ e
      rintro ⟨a, ha⟩
      rw [(h.ok_iff a).2 ha] at hx
      cases hx

theorem bind {x : ExceptT ε (StateM σ) α} {f : α → ExceptT ε (StateM σ) β}
    (h : Reads x.run s P) (hf : ∀ a, P a → Reads (f a).run s (Q a)) :
    Reads (x >>= f).run s fun b => ∃ a, P a ∧ Q a b := by
  refine ⟨h.ends_bind (R := (·.2 = s)) (fun _ _ => rfl) fun a ha => (hf a ha).keeps, fun b => ?_⟩
  refine h.ends_bind (R := (·.1 = .ok b ↔ ∃ a, P a ∧ Q a b)) (fun hnone e => ?_) fun a ha => ?_
  · refine iff_of_false (fun hok => by cases hok) ?_
    rintro ⟨a, ha, -⟩
    exact hnone ⟨a, ha⟩
  · refine ((hf a ha).ok_iff b).trans ⟨fun hb => ⟨a, ha, hb⟩, ?_⟩
    rintro ⟨a', ha', hb⟩
    obtain rfl := h.unique ha ha'
    exact hb

theorem orFail (source : String) (r : Except (List Diagnostic) α) :
    Reads (Command.orFail source r).run s (r = .ok ·) := by
  cases r with
  | ok a => exact (result (.ok a)).congr (by simp)
  | error ds => exact (result (.error _)).congr (by simp)

theorem orDiagnose (explain : ε → Diagnostic) (r : Except ε α) :
    Reads (Command.orDiagnose explain r).run s (r = .ok ·) :=
  (orFail "" _).congr fun _ => except_mapError_eq_ok_iff

/-- A run for a result leads on to this result. -/
theorem lookOrDiagnose (explain : ε → Diagnostic) (h : Reads x s P) :
    Reads (liftM x >>= Command.orDiagnose explain).run s P :=
  .lookBetween (Prod.ext rfl h.keeps) ((orDiagnose explain _).congr h.ok_iff)

end Reads

variable (files : FileAccess (StateM σ))

/-- The file at the path holds a contract. -/
def HasSpec (s : σ) (path : String) (file : SpecFile) : Prop :=
  ∃ text, files.contents s path = .ok text ∧ SpecFile.parse text = .ok file

/-- The file at the path holds settings, all of them valid. -/
def HasSettings (s : σ) (path : String) (c : Config) : Prop :=
  ∃ text, files.contents s path = .ok text ∧ Config.parse text = .ok c

/-- The places where the settings file of an input is looked for, nearest first. -/
def settingsPlaces (input : String) : List String :=
  Config.candidates ((Path.ofString input).parent?.getD (Path.ofString "."))

/-- The settings file of an input, if there is one: a given one, or else the nearest one. -/
inductive SettingsFile (s : σ) (input : String) : Option String → Option String → Prop where
  | given (path : String) : SettingsFile s input (some path) (some path)
  | nearest {before : List String} {path : String} {after : List String}
      (hplaces : settingsPlaces input = before ++ path :: after)
      (hbefore : ∀ p ∈ before, files.has s p = false) (hpath : files.has s path = true) :
      SettingsFile s input none (some path)
  | missing (h : ∀ p ∈ settingsPlaces input, files.has s p = false) :
      SettingsFile s input none none

/-- The settings in the chosen file, and without one the defaults. -/
def SettingsIn (s : σ) : Option String → Config → Prop
  | some path, c => files.HasSettings s path c
  | none, c => c = {}

/-- The settings that hold for an input. -/
def Settings (s : σ) (input : String) (explicit : Option String) (c : Config) : Prop :=
  ∃ chosen, files.SettingsFile s input explicit chosen ∧ files.SettingsIn s chosen c

/-- The settings that hold for an input, where the level of significance of the command line comes
before all others. -/
def FinalSettings (s : σ) (input : String) (explicit : Option String) (alpha : Option Float)
    (c : Config) : Prop :=
  ∃ loaded, files.Settings s input explicit loaded ∧ loaded.Overridden alpha c

variable {files}

theorem HasSpec.unique {path : String} {file file' : SpecFile} (h : files.HasSpec s path file)
    (h' : files.HasSpec s path file') : file = file' := by
  obtain ⟨text, hread, hparse⟩ := h
  obtain ⟨text', hread', hparse'⟩ := h'
  obtain rfl : text = text' := Except.ok.inj (hread.symm.trans hread')
  exact Except.ok.inj (hparse.symm.trans hparse')

theorem settingsFile_iff {input : String} {explicit chosen : Option String} :
    files.SettingsFile s input explicit chosen ↔
      explicit.or ((settingsPlaces input).find? (files.has s)) = chosen := by
  constructor
  · intro h
    cases h with
    | given path => rfl
    | nearest hplaces hbefore hpath =>
        exact List.find?_eq_some_iff_append.2 ⟨hpath, _, _, hplaces, by simpa using hbefore⟩
    | missing h => simpa using h
  · rintro rfl
    cases explicit with
    | some path => exact .given path
    | none =>
        cases hfind : (settingsPlaces input).find? (files.has s) with
        | none => exact .missing (by simpa using hfind)
        | some path =>
            obtain ⟨hpath, before, after, hplaces, hbefore⟩ :=
              List.find?_eq_some_iff_append.1 hfind
            exact .nearest hplaces (by simpa using hbefore) hpath

theorem loads_ok_iff {chosen : Option String} {c : Config} :
    Config.Loads (files.contents s) chosen (.ok c) ↔ files.SettingsIn s chosen c := by
  constructor
  · intro h
    cases h with
    | valid hread hparse => exact ⟨_, hread, hparse⟩
    | defaults => rfl
  · intro h
    cases chosen with
    | none => exact h ▸ .defaults
    | some path =>
        obtain ⟨text, hread, hparse⟩ := h
        exact .valid hread hparse

/-- A run that loads the chosen settings file succeeds with the settings in it. -/
theorem Reads.of_loads {x : StateM σ (Except ConfigFailure Config)} {chosen : Option String}
    (h : ∃ r, x s = (r, s) ∧ Config.Loads (files.contents s) chosen r) :
    Reads x s (files.SettingsIn s chosen) := by
  obtain ⟨r, hrun, hloads⟩ := h
  refine ⟨by rw [hrun], fun c => ?_⟩
  rw [hrun, ← loads_ok_iff]
  exact ⟨fun hr => hr ▸ hloads, hloads.unique⟩

theorem reads_withAlpha (c : Config) (alpha : Option Float) :
    Reads (Command.withAlpha (m := StateM σ) c alpha).run s (c.Overridden alpha) := by
  cases alpha with
  | none =>
      refine (Reads.result (.ok c)).congr fun c' => ⟨fun h => ?_, fun h => ?_⟩
      · cases h
        exact .keep
      · cases h
        rfl
  | some alpha =>
      simp only [Command.withAlpha]
      split
      case isTrue hunit =>
        refine (Reads.result (.ok _)).congr fun c' => ⟨fun h => ?_, fun h => ?_⟩
        · cases h
          exact .change hunit
        · cases h
          rfl
      case isFalse hunit =>
        refine (Reads.result (.error _)).congr fun c' => ⟨fun h => ?_, fun h => ?_⟩
        · cases h
        · cases h with
          | change h => exact absurd h hunit

section Looking

variable (hlooks : files.OnlyLooks)
include hlooks

theorem reads_load (path : String) :
    Reads (Config.load files path) s (files.SettingsIn s (some path)) :=
  .of_loads (Config.loads_load hlooks path s)

theorem reads_discover (input : String) :
    Reads (Config.discover files ((Path.ofString input).parent?.getD (Path.ofString "."))) s
      (files.SettingsIn s ((settingsPlaces input).find? (files.has s))) :=
  .of_loads (Config.loads_discover hlooks _ s)

theorem reads_loadConfig (input : String) (explicit : Option String) :
    Reads (Command.loadConfig files input explicit).run s (files.Settings s input explicit) := by
  have hsettings (c : Config) : files.Settings s input explicit c ↔
      files.SettingsIn s (explicit.or ((settingsPlaces input).find? (files.has s))) c := by
    simp [Settings, settingsFile_iff]
  refine .congr ?_ fun c => (hsettings c).symm
  unfold Command.loadConfig
  cases explicit with
  | some path => exact .lookOrDiagnose _ (reads_load hlooks path)
  | none => exact .lookOrDiagnose _ (reads_discover hlooks input)

theorem reads_finalSettings (input : String) (explicit : Option String) (alpha : Option Float) :
    Reads (Command.loadConfig files input explicit >>= (Command.withAlpha · alpha)).run s
      (files.FinalSettings s input explicit alpha) :=
  (reads_loadConfig hlooks input explicit).bind fun c _ => reads_withAlpha c alpha

end Looking

end FileAccess

end StatContract
