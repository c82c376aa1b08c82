import Bindery.FileSystem
import Mathlib.Tactic.SplitIfs

/-!
# How a file system changes

A path that leads to a place goes on to do so as long as no directory is lost
(`FileSystem.locate_of_keeps`).  Putting a file where no directory is loses none, so a file that has
been written is there when it is read (`FileSystem.read_of_write`).

Making directories changes nothing but that there are directories where there was nothing
(`FileSystem.GainsDirectories`), whether or not it comes to the end
(`FileSystem.OnlyMakesDirectories.createDirectories`).
-/

namespace Bindery

namespace FileSystem

variable {fs mid later written : FileSystem} {path text : String} {location : Location}

/-! ## Keeping directories -/

/-- Every directory is still there, and relative paths start where they did. -/
structure KeepsDirectories (fs later : FileSystem) : Prop where
  current_eq : later.current = fs.current
  directory : ∀ location, fs.node? location = some .directory →
    later.node? location = some .directory

lemma KeepsDirectories.trans (h : fs.KeepsDirectories mid) (h' : mid.KeepsDirectories later) :
    fs.KeepsDirectories later where
  current_eq := h'.current_eq.trans h.current_eq
  directory location hlocation := h'.directory location (h.directory location hlocation)

/-- A path goes on to lead to the same directory. -/
lemma enter_of_keeps (h : fs.KeepsDirectories later) {start place : Location}
    {segments : List (List Char)} (hplace : fs.enter start segments = .ok place) :
    later.enter start segments = .ok place := by
  induction segments generalizing start with
  | nil => exact hplace
  | cons segment segments ih =>
    rw [enter] at hplace ⊢
    dsimp only at hplace ⊢
    split_ifs at hplace ⊢ with hblank hparent hname
    · exact ih hplace
    · exact ih hplace
    · cases hnode : fs.node? (String.ofList segment :: start) with
      | none => simp [hnode] at hplace
      | some node =>
        cases node with
        | file text => simp [hnode] at hplace
        | directory =>
          simp only [hnode] at hplace
          simp only [h.directory _ hnode]
          exact ih hplace

/-- A path leads to the same place as long as the directories on its way are there. -/
lemma placeOf_of_keeps (h : fs.KeepsDirectories later) {segments : List (List Char)}
    {found : Location} (hfound : fs.placeOf path segments = .ok found) :
    later.placeOf path segments = .ok found := by
  cases segments with
  | nil => exact hfound
  | cons last before =>
    have hstart : later.start path = fs.start path := by rw [start, start, h.current_eq]
    rw [placeOf, place] at hfound ⊢
    rw [hstart]
    cases hentered : fs.enter (fs.start path) before.reverse with
    | error e =>
      rw [hentered] at hfound
      exact nomatch hfound
    | ok around =>
      rw [enter_of_keeps h hentered]
      rwa [hentered] at hfound

/-- A path goes on to lead to the same place. -/
theorem locate_of_keeps (h : fs.KeepsDirectories later) {found : Location}
    (hfound : fs.locate path = .ok found) : later.locate path = .ok found := by
  rw [locate] at hfound ⊢
  split_ifs at hfound ⊢
  exact placeOf_of_keeps h hfound

lemma keepsDirectories_put (hlocation : fs.node? location ≠ some .directory) (node : FileNode) :
    fs.KeepsDirectories (fs.put location node) where
  current_eq := rfl
  directory other hother := by
    have hne : other ≠ location := by
      rintro rfl
      exact hlocation hother
    rw [node?_put_of_ne fs node hne, hother]

/-! ## Writing -/

/-- A write succeeds exactly if the path leads to a place that is no directory. -/
lemma write_eq_some_iff : fs.write path text = some written ↔
    ∃ location, fs.locate path = .ok location ∧ fs.node? location ≠ some .directory ∧
      fs.put location (.file text) = written := by
  rw [write]
  cases fs.locate path with
  | error e => simp
  | ok location =>
    cases hnode : fs.node? location with
    | none => simp [hnode]
    | some node => cases node <;> simp [hnode]

lemma run_writeFile_of_eq_some (h : fs.write path text = some written) :
    (Disk.writeFile path text : StateM FileSystem Bool).run fs = (true, written) := by
  simp only [Disk.writeFile, StateT.run, h]

/-- A write that fails leaves no trace. -/
lemma run_writeFile_of_eq_none (h : fs.write path text = none) :
    (Disk.writeFile path text : StateM FileSystem Bool).run fs = (false, fs) := by
  simp only [Disk.writeFile, StateT.run, h]

/-- What is put where no directory is, is found there. -/
lemma node?_put (hlocation : fs.node? location ≠ some .directory) (node : FileNode) :
    (fs.put location node).node? location = some node := by
  cases location with
  | nil => exact absurd rfl hlocation
  | cons name around => exact node?_put_self fs name around node

/-- A file that has been written is read as it was written. -/
theorem read_of_write (h : fs.write path text = some written) : written.read path = some text := by
  obtain ⟨location, hlocate, hlocation, rfl⟩ := write_eq_some_iff.1 h
  rw [read, locate_of_keeps (keepsDirectories_put hlocation _) hlocate]
  simp only [node?_put hlocation]

/-! ## Making directories -/

/-- At a place nothing changes, or there is a new directory. -/
def GainsAt (fs later : FileSystem) (location : Location) : Prop :=
  later.node? location = fs.node? location ∨
    fs.node? location = none ∧ later.node? location = some .directory

lemma GainsAt.trans (h : fs.GainsAt mid location) (h' : mid.GainsAt later location) :
    fs.GainsAt later location := by
  rcases h with hsame | ⟨hnone, hnew⟩
  · rcases h' with hsame' | ⟨hnone', hnew'⟩
    · exact .inl (hsame'.trans hsame)
    · exact .inr ⟨hsame ▸ hnone', hnew'⟩
  · rcases h' with hsame' | ⟨hnone', -⟩
    · exact .inr ⟨hnone, hsame'.trans hnew⟩
    · rw [hnew] at hnone'
      exact absurd hnone' (by simp)

/-- What is there stays. -/
lemma GainsAt.node?_eq_some (h : fs.GainsAt later location) {node : FileNode}
    (hnode : fs.node? location = some node) : later.node? location = some node := by
  rcases h with hsame | ⟨hnone, -⟩
  · rw [hsame, hnode]
  · rw [hnone] at hnode
    exact nomatch hnode

/-- There are new directories, and nothing else has changed. -/
structure GainsDirectories (fs later : FileSystem) : Prop where
  current_eq : later.current = fs.current
  gainsAt : ∀ location, fs.GainsAt later location

namespace GainsDirectories

lemma refl (fs : FileSystem) : fs.GainsDirectories fs where
  current_eq := rfl
  gainsAt _ := .inl rfl

lemma trans (h : fs.GainsDirectories mid) (h' : mid.GainsDirectories later) :
    fs.GainsDirectories later where
  current_eq := h'.current_eq.trans h.current_eq
  gainsAt location := (h.gainsAt location).trans (h'.gainsAt location)

lemma keeps (h : fs.GainsDirectories later) : fs.KeepsDirectories later where
  current_eq := h.current_eq
  directory location hlocation := (h.gainsAt location).node?_eq_some hlocation

end GainsDirectories

lemma gainsDirectories_make (fs : FileSystem) (path : String) :
    fs.GainsDirectories (fs.make path).2 := by
  unfold make
  split
  · exact .refl fs
  · exact .refl fs
  · next location _ =>
    split
    · exact .refl fs
    · next hnone =>
      have hlocation : fs.node? location ≠ some .directory := by simp [hnone]
      refine ⟨rfl, fun other => ?_⟩
      by_cases hother : other = location
      · rw [hother]
        exact .inr ⟨hnone, node?_put hlocation _⟩
      · exact .inl (node?_put_of_ne fs _ hother)

/-- Whatever it is run on, a computation makes directories and nothing else. -/
def OnlyMakesDirectories {α : Type} (x : StateM FileSystem α) : Prop :=
  ∀ fs : FileSystem, fs.GainsDirectories (x.run fs).2

namespace OnlyMakesDirectories

variable {α β : Type} {x : StateM FileSystem α}

lemma pure (a : α) : OnlyMakesDirectories (Pure.pure a) := fun fs => .refl fs

/-- One after the other, two programs that only make directories only make directories. -/
lemma bind {f : α → StateM FileSystem β} (hx : OnlyMakesDirectories x)
    (hf : ∀ a, OnlyMakesDirectories (f a)) : OnlyMakesDirectories (x >>= f) := fun fs =>
  (hx fs).trans (hf _ _)

lemma makeDirectory (path : String) :
    OnlyMakesDirectories (Disk.makeDirectory path : StateM FileSystem MakeResult) := fun fs =>
  gainsDirectories_make fs path

lemma isDirectory (path : String) :
    OnlyMakesDirectories (Disk.isDirectory path : StateM FileSystem Bool) := fun fs => .refl fs

lemma createAlong (paths : List String) :
    OnlyMakesDirectories (Disk.createAlong paths : StateM FileSystem Bool) := by
  induction paths with
  | nil => exact pure false
  | cons path parents ih =>
    rw [Disk.createAlong]
    split
    · exact pure true
    · refine bind (makeDirectory path) fun result => ?_
      cases result with
      | made => exact pure true
      | refused => exact isDirectory path
      | noParent =>
        refine bind ih fun made => ?_
        split
        · refine bind (makeDirectory path) fun result => ?_
          split
          · exact pure true
          · exact isDirectory path
        · exact pure false

theorem createDirectories (path : String) :
    OnlyMakesDirectories (Disk.createDirectories path : StateM FileSystem Bool) :=
  createAlong _

end OnlyMakesDirectories

end FileSystem

end Bindery
