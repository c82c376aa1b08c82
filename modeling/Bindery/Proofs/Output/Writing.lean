import Bindery.Output.Write
import Bindery.Proofs.FileSystem
import Mathlib.Control.Monad.Basic

/-!
# What writing outputs leaves behind

Paths of different outputs may lead to one place, and an output may stand where a directory would
have to be for another.  `OutputFile.Written` says what is different once outputs are written below
a directory, in terms of the places that their paths lead to in the end.  It is carried through the
list by `OutputFile.Written.cons`: a place that the first output was written to is either written
again, or stays as it is.

Writing comes to the end or stops at one output, for which a directory cannot be made or which
cannot be written (`OutputFile.StopsAt`).  Where it stops there is what the outputs before leave
behind and some more directories (`OutputFile.run_saveEach`).
-/

namespace Bindery

namespace OutputFile

open FileSystem (GainsDirectories OnlyMakesDirectories)

variable {file : OutputFile} {files : List OutputFile} {directory : String}
  {fs between written later : FileSystem}

/-- The path of a file that is written below a directory. -/
def pathIn (directory : String) (file : OutputFile) : String := Path.join directory file.name

/-- What is different once files are written below a directory.  Their paths lead to places, and at
each of these is the text of the last file whose path leads there.  Everywhere else nothing is new
but directories. -/
structure Written (directory : String) (files : List OutputFile) (fs later : FileSystem) :
    Prop where
  keeps : fs.KeepsDirectories later
  located : ∀ file ∈ files, ∃ place, later.locate (file.pathIn directory) = .ok place
  last_stays : ∀ front file rest place, files = front ++ file :: rest →
    later.locate (file.pathIn directory) = .ok place →
    (∀ other ∈ rest, later.locate (other.pathIn directory) ≠ .ok place) →
    later.node? place = some (.file file.render)
  elsewhere : ∀ place, (∀ file ∈ files, later.locate (file.pathIn directory) ≠ .ok place) →
    fs.GainsAt later place

namespace Written

lemma nil (h : fs.GainsDirectories later) : Written directory [] fs later where
  keeps := h.keeps
  located _ hfile := absurd hfile List.not_mem_nil
  last_stays front _ _ _ hsplit := by simp at hsplit
  elsewhere place _ := h.gainsAt place

/-- Directories are made before the files are written. -/
lemma after (hmade : fs.GainsDirectories between) (h : Written directory files between later) :
    Written directory files fs later where
  keeps := hmade.keeps.trans h.keeps
  located := h.located
  last_stays := h.last_stays
  elsewhere place hplace := (hmade.gainsAt place).trans (h.elsewhere place hplace)

/-- One file is written before the others. -/
theorem cons (hwrite : fs.write (file.pathIn directory) file.render = some written)
    (hrest : Written directory files written later) :
    Written directory (file :: files) fs later := by
  obtain ⟨place, hplace, hfree, rfl⟩ := FileSystem.write_eq_some_iff.1 hwrite
  have hkeeps : fs.KeepsDirectories later :=
    (FileSystem.keepsDirectories_put hfree _).trans hrest.keeps
  have hhead : later.locate (file.pathIn directory) = .ok place :=
    FileSystem.locate_of_keeps hkeeps hplace
  refine ⟨hkeeps, List.forall_mem_cons.2 ⟨⟨place, hhead⟩, hrest.located⟩, ?_, ?_⟩
  · intro front last rest found hsplit hfound hothers
    cases front with
    | nil =>
      obtain ⟨rfl, rfl⟩ := List.cons.inj hsplit
      obtain rfl := Except.ok.inj (hhead.symm.trans hfound)
      exact (hrest.elsewhere place hothers).node?_eq_some (FileSystem.node?_put hfree _)
    | cons first front =>
      obtain ⟨rfl, rfl⟩ := List.cons.inj hsplit
      exact hrest.last_stays front last rest found rfl hfound hothers
  · intro other hother
    rw [List.forall_mem_cons] at hother
    have hne : other ≠ place := by
      rintro rfl
      exact hother.1 hhead
    have hsame := FileSystem.node?_put_of_ne fs (.file file.render) hne
    exact FileSystem.GainsAt.trans (.inl hsame) (hrest.elsewhere other hother.2)

end Written

/-! ## One file -/

/-- What stops the writing at a file.  Either the directory it is to lie in cannot be made, or it
can, and then the file cannot be written. -/
inductive StopsAt (directory : String) (file : OutputFile) (before later : FileSystem) :
    WriteError → Prop where
  | parent {parent : String} (hparent : Path.parent? (file.pathIn directory) = some parent)
    (hmade : (Disk.createDirectories parent : StateM FileSystem _).run before = (false, later)) :
    StopsAt directory file before later (.cannotMakeDirectory parent)
  | file
    (hparent : ∀ parent, Path.parent? (file.pathIn directory) = some parent →
      (Disk.createDirectories parent : StateM FileSystem _).run before = (true, later))
    (hwrite : later.write (file.pathIn directory) file.render = none) :
    StopsAt directory file before later (.cannotWrite (file.pathIn directory))

lemma run_ensureDirectory (path : String) (fs : FileSystem) :
    ∃ made later, (Disk.createDirectories path : StateM FileSystem _).run fs = (made, later) ∧
      fs.GainsDirectories later ∧
      (ensureDirectory path : StateM FileSystem _).run fs =
        (if made then .ok () else .error (.cannotMakeDirectory path), later) := by
  have hgains := OnlyMakesDirectories.createDirectories path fs
  rw [ensureDirectory, StateT.run_bind]
  rcases hrun : (Disk.createDirectories path : StateM FileSystem Bool).run fs with ⟨made, later⟩
  rw [hrun] at hgains
  refine ⟨made, later, rfl, hgains, ?_⟩
  cases made <;> rfl

/-- The directory that a file is to lie in is made, if there is one. -/
lemma run_ensureParent (directory : String) (file : OutputFile) (fs : FileSystem) :
    ∃ later, fs.GainsDirectories later ∧
      (((∀ parent, Path.parent? (file.pathIn directory) = some parent →
            (Disk.createDirectories parent : StateM FileSystem _).run fs = (true, later)) ∧
          (ensureParent (file.pathIn directory) : StateM FileSystem _).run fs = (.ok (), later)) ∨
        ∃ e, StopsAt directory file fs later e ∧
          (ensureParent (file.pathIn directory) : StateM FileSystem _).run fs =
            (.error e, later)) := by
  cases hparent : Path.parent? (file.pathIn directory) with
  | none =>
    refine ⟨fs, .refl fs, .inl ⟨by simp, ?_⟩⟩
    rw [ensureParent, hparent]
    rfl
  | some parent =>
    have hensure : (ensureParent (file.pathIn directory) : StateM FileSystem _).run fs =
        (ensureDirectory parent : StateM FileSystem _).run fs := by
      rw [ensureParent, hparent]
    obtain ⟨made, later, hmade, hgains, hrun⟩ := run_ensureDirectory parent fs
    refine ⟨later, hgains, ?_⟩
    rw [hensure, hrun]
    cases made with
    | true =>
      refine .inl ⟨fun other hother => ?_, rfl⟩
      rw [← Option.some.inj hother, hmade]
    | false => exact .inr ⟨_, .parent hparent hmade, rfl⟩

lemma run_save_of_ensureParent
    (h : (ensureParent (file.pathIn directory) : StateM FileSystem _).run fs = (.ok (), between)) :
    (save directory file : StateM FileSystem _).run fs =
      match between.write (file.pathIn directory) file.render with
      | some written => (.ok (), written)
      | none => (.error (.cannotWrite (file.pathIn directory)), between) := by
  rw [save, StateT.run_bind, ← pathIn, h]
  refine (StateT.run_bind _ _ between).trans ?_
  cases hwrite : between.write (file.pathIn directory) file.render with
  | some written =>
    rw [FileSystem.run_writeFile_of_eq_some hwrite]
    rfl
  | none =>
    rw [FileSystem.run_writeFile_of_eq_none hwrite]
    rfl

/-- A file is written once the directories on the way to it are made.  Otherwise there are only
directories, as far as they could be made. -/
lemma run_save (directory : String) (file : OutputFile) (fs : FileSystem) :
    ∃ between, fs.GainsDirectories between ∧
      ((∃ written, between.write (file.pathIn directory) file.render = some written ∧
          (save directory file : StateM FileSystem _).run fs = (.ok (), written)) ∨
        ∃ e, StopsAt directory file fs between e ∧
          (save directory file : StateM FileSystem _).run fs = (.error e, between)) := by
  obtain ⟨between, hgains, ⟨hparent, hensure⟩ | ⟨e, hstops, hensure⟩⟩ :=
    run_ensureParent directory file fs
  · refine ⟨between, hgains, ?_⟩
    rw [run_save_of_ensureParent hensure]
    cases hwrite : between.write (file.pathIn directory) file.render with
    | some written => exact .inl ⟨written, rfl, rfl⟩
    | none => exact .inr ⟨_, .file hparent hwrite, rfl⟩
  · refine ⟨between, hgains, .inr ⟨e, hstops, ?_⟩⟩
    rw [save, StateT.run_bind, ← pathIn, hensure]
    rfl

/-! ## All files -/

lemma run_saveEach_cons (files : List OutputFile)
    (h : (save directory file : StateM FileSystem _).run fs = (.ok (), written)) :
    (saveEach directory (file :: files) : StateM FileSystem _).run fs =
      (saveEach directory files : StateM FileSystem _).run written := by
  rw [saveEach, StateT.run_bind, h]
  rfl

/-- The files are written to the end, or up to one that stops the writing.  What the files before
that one leave behind is what they leave by themselves. -/
theorem run_saveEach (directory : String) (files : List OutputFile) (fs : FileSystem) :
    (∃ later, (saveEach directory files : StateM FileSystem _).run fs = (.ok (), later) ∧
        Written directory files fs later) ∨
      ∃ front file rest before later e, files = front ++ file :: rest ∧
        (saveEach directory front : StateM FileSystem _).run fs = (.ok (), before) ∧
        Written directory front fs before ∧
        (saveEach directory files : StateM FileSystem _).run fs = (.error e, later) ∧
        StopsAt directory file before later e ∧ before.GainsDirectories later := by
  induction files generalizing fs with
  | nil => exact .inl ⟨fs, rfl, .nil (.refl fs)⟩
  | cons file files ih =>
    obtain ⟨between, hgains, ⟨written, hwrite, hsave⟩ | ⟨e, hstops, hsave⟩⟩ :=
      run_save directory file fs
    · rcases ih written with ⟨later, hrun, hrest⟩ |
        ⟨front, last, rest, before, later, e, rfl, hfront, hbefore, hrun, hstops, hlater⟩
      · exact .inl ⟨later, (run_saveEach_cons files hsave).trans hrun,
          .after hgains (.cons hwrite hrest)⟩
      · exact .inr ⟨file :: front, last, rest, before, later, e, rfl,
          (run_saveEach_cons front hsave).trans hfront, .after hgains (.cons hwrite hbefore),
          (run_saveEach_cons _ hsave).trans hrun, hstops, hlater⟩
    · refine .inr ⟨[], file, files, fs, between, e, rfl, rfl, .nil (.refl fs), ?_, hstops, hgains⟩
      rw [saveEach, StateT.run_bind, hsave]
      rfl

lemma run_saveAll_of_ensureDirectory (files : List OutputFile)
    (h : (ensureDirectory directory : StateM FileSystem _).run fs = (.ok (), between)) :
    (saveAll files directory : StateM FileSystem _).run fs =
      (saveEach directory files : StateM FileSystem _).run between := by
  rw [saveAll, StateT.run_bind, h]
  rfl

/-- Writing files below a directory comes to the end, and then each place that a path leads to has
the text of the last file whose path leads there.  Otherwise the directory cannot be made, or one of
the files stops the writing.  Nothing is written for that file and those behind it; there is what
writing the files before it leaves, and some more directories. -/
theorem saveAll_exact (files : List OutputFile) (directory : String) (fs : FileSystem) :
    (∃ later, (saveAll files directory : StateM FileSystem _).run fs = (.ok (), later) ∧
        Written directory files fs later) ∨
      (∃ later, (Disk.createDirectories directory : StateM FileSystem _).run fs = (false, later) ∧
        (saveAll files directory : StateM FileSystem _).run fs =
          (.error (.cannotMakeDirectory directory), later) ∧
        fs.GainsDirectories later) ∨
      ∃ front file rest before later e, files = front ++ file :: rest ∧
        (saveAll front directory : StateM FileSystem _).run fs = (.ok (), before) ∧
        Written directory front fs before ∧
        (saveAll files directory : StateM FileSystem _).run fs = (.error e, later) ∧
        StopsAt directory file before later e ∧ before.GainsDirectories later := by
  obtain ⟨made, between, hmade, hgains, hensure⟩ := run_ensureDirectory directory fs
  cases made with
  | true =>
    rcases run_saveEach directory files between with ⟨later, hrun, hwritten⟩ |
      ⟨front, file, rest, before, later, e, hsplit, hfront, hbefore, hrun, hstops, hlater⟩
    · exact .inl ⟨later, (run_saveAll_of_ensureDirectory files hensure).trans hrun,
        hwritten.after hgains⟩
    · exact .inr (.inr ⟨front, file, rest, before, later, e, hsplit,
        (run_saveAll_of_ensureDirectory front hensure).trans hfront, hbefore.after hgains,
        (run_saveAll_of_ensureDirectory files hensure).trans hrun, hstops, hlater⟩)
  | false =>
    refine .inr (.inl ⟨between, hmade, ?_, hgains⟩)
    rw [saveAll, StateT.run_bind, hensure]
    rfl

/-- The second of two files cannot lie in the first. -/
example : ((saveAll [⟨"Gui", []⟩, ⟨"Gui/Native.cs", []⟩] "out" : StateM FileSystem _).run
    ⟨[], []⟩).1 = .error (.cannotMakeDirectory "out/Gui") := by
  decide +kernel

end OutputFile

end Bindery
