import Bindery.Output.Substitution
import Bindery.Proofs.FirstFailing
import Bindery.Proofs.Text.Replace
import Mathlib.Data.List.Forall2

/-!
# Rewriting the outputs

What substituting in files does, said without the functions that do it.
`Substitution.Rewrites` is about one text: each substitution replaces what it looks for in the text
that the one before it left.  `Block.Rewritten` is about a block: the texts without a role are
rewritten so, at every depth, and everything else is the same.  Both leave no choice
(`rewrites_iff`, `Block.rewritten_iff`).

Substituting can also be done where the files stand, by a visitor that comes to a block before those
inside it, changes its text and keeps count (`OutputFile.rewriteInPlace`).  Going down with the
visitor agrees with going down with `Block.mapPlain`, and the count with the number of texts that
differ in the end (`Block.run_visit`).  Since the substitutions are checked before the first visit,
a list that is refused leaves the files as they are.
-/

namespace Bindery

/-! ## Texts -/

namespace Substitution

variable {s : Substitution} {substitutions : List Substitution} {text out : String}

/-- `out` is what the substitutions make of `text`, one after another. -/
inductive Rewrites : List Substitution → String → String → Prop where
  | nil (text : String) : Rewrites [] text text
  | cons {s : Substitution} {substitutions : List Substitution} {text between out : String}
    (h : Text.Replaced s.search.toList s.replacement.toList text.toList between.toList)
    (hrest : Rewrites substitutions between out) : Rewrites (s :: substitutions) text out

theorem rewrites_iff (hsearch : ∀ s ∈ substitutions, s.search ≠ "") :
    Rewrites substitutions text out ↔ out = applyAll substitutions text := by
  induction substitutions generalizing text with
  | nil => exact ⟨fun h => by cases h; rfl, fun h => h ▸ .nil text⟩
  | cons s substitutions ih =>
    obtain ⟨hs, hrest⟩ := List.forall_mem_cons.1 hsearch
    constructor
    · intro h
      cases h with
      | cons hreplaced h =>
        rw [(ih hrest).1 h, (Text.replaced_iff hs).1 hreplaced]
        rfl
    · intro h
      exact .cons ((Text.replaced_iff hs).2 rfl) ((ih hrest).2 h)

/-! ## Refused lists -/

/-- A list is refused for the first substitution that has nothing to look for. -/
lemma validate_eq_error_iff {e : WriteError} :
    validate substitutions = .error e ↔ ∃ front s,
      FirstFailing (fun s : Substitution => s.search ≠ "") substitutions front s ∧
        e = .emptySubstitution front.length := by
  have hindex (index : Nat) : substitutions.findIdx? (·.search = "") = some index ↔ ∃ front s,
      FirstFailing (fun s : Substitution => s.search ≠ "") substitutions front s ∧
        index = front.length := by
    simp only [findIdx?_eq_some_iff_firstFailing, decide_eq_true_eq, ne_eq]
  have hfound : validate substitutions = .error e ↔ ∃ index,
      substitutions.findIdx? (·.search = "") = some index ∧ e = .emptySubstitution index := by
    unfold validate
    cases substitutions.findIdx? (·.search = "") <;> simp [eq_comm]
  simp only [hfound, hindex]
  constructor
  · rintro ⟨_, ⟨front, s, hfirst, rfl⟩, rfl⟩
    exact ⟨front, s, hfirst, rfl⟩
  · rintro ⟨front, s, hfirst, rfl⟩
    exact ⟨front.length, ⟨front, s, hfirst, rfl⟩, rfl⟩

/-- Only a search for nothing is refused. -/
lemma validate_eq_ok_iff :
    validate substitutions = .ok () ↔ ∀ s ∈ substitutions, s.search ≠ "" := by
  constructor
  · intro h
    by_contra hnot
    obtain ⟨front, s, hfirst⟩ := exists_firstFailing hnot
    rw [validate_eq_error_iff.2 ⟨front, s, hfirst, rfl⟩] at h
    exact absurd h (by simp)
  · intro h
    cases hvalid : validate substitutions with
    | ok valid => rfl
    | error e =>
      obtain ⟨front, s, hfirst, -⟩ := validate_eq_error_iff.1 hvalid
      exact absurd h hfirst.not_forall

end Substitution

/-! ## Blocks -/

namespace Block

variable {substitutions : List Substitution}

/-- The second block is the first with substitutions made in the texts without a role, its own and
those of the blocks inside it. -/
inductive Rewritten (substitutions : List Substitution) : Block → Block → Prop where
  | mk {kind : BlockKind} {text text' : String} {children children' : List Block}
    (hplain : kind = .unknown → Substitution.Rewrites substitutions text text')
    (hother : kind ≠ .unknown → text' = text)
    (hchildren : List.Forall₂ (Rewritten substitutions) children children') :
    Rewritten substitutions (.mk kind text children) (.mk kind text' children')

/-- A block is rewritten by rewriting its text, if it is a plain one, and its children. -/
lemma rewritten_mk_iff {kind kind' : BlockKind} {text text' : String}
    {children children' : List Block} :
    Rewritten substitutions (.mk kind text children) (.mk kind' text' children') ↔
      kind' = kind ∧ (kind = .unknown → Substitution.Rewrites substitutions text text') ∧
        (kind ≠ .unknown → text' = text) ∧
        List.Forall₂ (Rewritten substitutions) children children' := by
  constructor
  · intro h
    cases h with
    | mk hplain hother hchildren => exact ⟨rfl, hplain, hother, hchildren⟩
  · rintro ⟨rfl, hplain, hother, hchildren⟩
    exact .mk hplain hother hchildren

mutual

/-- The relation determines the result: blocks are rewritten in one way only. -/
theorem rewritten_iff (hsearch : ∀ s ∈ substitutions, s.search ≠ "") : ∀ b b' : Block,
    Rewritten substitutions b b' ↔ b' = mapPlain (Substitution.applyAll substitutions) b
  | .mk kind text children, .mk kind' text' children' => by
    rw [rewritten_mk_iff, forall₂_rewritten_iff hsearch children children', mapPlain,
      Block.mk.injEq]
    refine and_congr_right fun _ => ?_
    by_cases hkind : kind = .unknown
    · simp [hkind, Substitution.rewrites_iff hsearch]
    · simp [hkind]

lemma forall₂_rewritten_iff (hsearch : ∀ s ∈ substitutions, s.search ≠ "") :
    ∀ bs bs' : List Block, List.Forall₂ (Rewritten substitutions) bs bs' ↔
      bs' = mapPlainAll (Substitution.applyAll substitutions) bs
  | [], bs' => by rw [List.forall₂_nil_left_iff, mapPlainAll]
  | b :: bs, bs' => by
    rw [List.forall₂_cons_left_iff, mapPlainAll]
    constructor
    · rintro ⟨b', rest, hb, hrest, rfl⟩
      rw [(rewritten_iff hsearch b b').1 hb, (forall₂_rewritten_iff hsearch bs rest).1 hrest]
    · rintro rfl
      exact ⟨_, _, (rewritten_iff hsearch b _).2 rfl, (forall₂_rewritten_iff hsearch bs _).2 rfl,
        rfl⟩

end

/-! ## Texts of blocks -/

mutual

/-- The text of a block and those of the blocks inside it, depth first. -/
def texts : Block → List String
  | .mk _ text children => text :: allTexts children

/-- The texts of all blocks in a list and inside them. -/
def allTexts : List Block → List String
  | [] => []
  | b :: bs => texts b ++ allTexts bs

end

mutual

/-- Rendering a block puts its texts one behind the other. -/
lemma render_eq_join : ∀ b : Block, b.render = String.join b.texts
  | .mk kind text children => by
    rw [render, texts, String.join_cons, renderAll_eq_join children]

lemma renderAll_eq_join : ∀ bs : List Block, renderAll bs = String.join (allTexts bs)
  | [] => by rw [renderAll, allTexts, String.join_nil]
  | b :: bs => by
    rw [renderAll, allTexts, String.join_append, render_eq_join b, renderAll_eq_join bs]

end

/-- In how many places two lists of texts differ. -/
def differences (texts texts' : List String) : Nat :=
  (texts.zip texts').countP fun pair => pair.2 ≠ pair.1

/-- Differences are counted place by place, so lists of one length can be taken apart. -/
lemma differences_append {front front' back back' : List String}
    (h : front.length = front'.length) :
    differences (front ++ back) (front' ++ back') =
      differences front front' + differences back back' := by
  rw [differences, List.zip_append h, List.countP_append]
  rfl

lemma differences_cons (text text' : String) (back back' : List String) :
    differences (text :: back) (text' :: back') =
      (if text' = text then 0 else 1) + differences back back' := by
  rw [differences, List.zip_cons_cons, List.countP_cons, Nat.add_comm]
  by_cases h : text' = text <;> simp [h, differences]

mutual

lemma length_texts_mapPlain (f : String → String) : ∀ b : Block,
    (mapPlain f b).texts.length = b.texts.length
  | .mk kind text children => by
    rw [mapPlain, texts, texts, List.length_cons, List.length_cons,
      length_allTexts_mapPlainAll f children]

lemma length_allTexts_mapPlainAll (f : String → String) : ∀ bs : List Block,
    (allTexts (mapPlainAll f bs)).length = (allTexts bs).length
  | [] => by rw [mapPlainAll]
  | b :: bs => by
    rw [mapPlainAll, allTexts, allTexts, List.length_append, List.length_append,
      length_texts_mapPlain f b, length_allTexts_mapPlainAll f bs]

end

mutual

/-- The texts that differ are the plain ones that the function changes. -/
lemma differences_mapPlain (f : String → String) : ∀ b : Block,
    differences b.texts (mapPlain f b).texts = b.plainTexts.countP fun text => f text ≠ text
  | .mk kind text children => by
    rw [mapPlain, texts, texts, plainTexts, differences_cons, List.countP_append,
      differences_mapPlainAll f children]
    by_cases hkind : kind = .unknown
    · by_cases hsame : f text = text <;> simp [hkind, hsame]
    · simp [hkind]

lemma differences_mapPlainAll (f : String → String) : ∀ bs : List Block,
    differences (allTexts bs) (allTexts (mapPlainAll f bs)) =
      (allPlainTexts bs).countP fun text => f text ≠ text
  | [] => by simp [mapPlainAll, allPlainTexts, allTexts, differences]
  | b :: bs => by
    rw [mapPlainAll, allTexts, allTexts, allPlainTexts,
      differences_append (length_texts_mapPlain f b).symm, List.countP_append,
      differences_mapPlain f b, differences_mapPlainAll f bs]

end

/-! ## Visiting blocks -/

mutual

/-- Runs a step on the text of a block, and then on those of the blocks inside it. -/
def visit {m : Type → Type} [Monad m] (step : BlockKind → String → m String) : Block → m Block
  | .mk kind text children => do
    let text' ← step kind text
    let children' ← visitAll step children
    return .mk kind text' children'

/-- Runs a step on the texts of all blocks in a list and inside them. -/
def visitAll {m : Type → Type} [Monad m] (step : BlockKind → String → m String) :
    List Block → m (List Block)
  | [] => return []
  | b :: bs => do
    let b' ← visit step b
    let bs' ← visitAll step bs
    return b' :: bs'

end

/-- Substitutes in a text without a role, and counts it if that has changed it. -/
def rewriteText (substitutions : List Substitution) (kind : BlockKind) (text : String) :
    StateM Nat String :=
  if kind ≠ .unknown then return text
  else
    let rewritten := Substitution.applyAll substitutions text
    if rewritten ≠ text then do
      modify (· + 1)
      return rewritten
    else return text

lemma run_rewriteText (substitutions : List Substitution) (kind : BlockKind) (text : String)
    (n : Nat) :
    let text' := if kind = .unknown then Substitution.applyAll substitutions text else text
    (rewriteText substitutions kind text).run n = (text', n + if text' = text then 0 else 1) := by
  unfold rewriteText
  dsimp only
  by_cases hkind : kind = .unknown
  · rw [if_neg (not_not.2 hkind), if_pos hkind]
    by_cases hsame : Substitution.applyAll substitutions text = text
    · rw [if_neg (not_not.2 hsame), if_pos hsame, hsame]
      rfl
    · rw [if_pos hsame, if_neg hsame]
      rfl
  · rw [if_pos hkind, if_neg hkind, if_pos rfl]
    rfl

/-- A run of two computations, by the run of the first. -/
lemma run_bind_of_run {α β : Type} {x : StateM Nat α} {n k : Nat} {a : α}
    (h : x.run n = (a, k)) (f : α → StateM Nat β) : (x >>= f).run n = (f a).run k := by
  rw [StateT.run_bind, h]
  rfl

mutual

/-- The visitor does what `mapPlain` does, and adds the texts that it has changed to those counted
before. -/
theorem run_visit (substitutions : List Substitution) : ∀ (b : Block) (n : Nat),
    let b' := mapPlain (Substitution.applyAll substitutions) b
    (visit (rewriteText substitutions) b).run n = (b', n + differences b.texts b'.texts)
  | .mk kind text children, n => by
    dsimp only
    rw [visit, run_bind_of_run (run_rewriteText substitutions kind text n),
      run_bind_of_run (run_visitAll substitutions children _), mapPlain, texts, texts,
      differences_cons, ← Nat.add_assoc]
    rfl

lemma run_visitAll (substitutions : List Substitution) : ∀ (bs : List Block) (n : Nat),
    let bs' := mapPlainAll (Substitution.applyAll substitutions) bs
    (visitAll (rewriteText substitutions) bs).run n =
      (bs', n + differences (allTexts bs) (allTexts bs'))
  | [], n => rfl
  | b :: bs, n => by
    dsimp only
    rw [visitAll, run_bind_of_run (run_visit substitutions b n),
      run_bind_of_run (run_visitAll substitutions bs _), mapPlainAll, allTexts, allTexts,
      differences_append (length_texts_mapPlain _ b).symm, ← Nat.add_assoc]
    rfl

end

end Block

/-! ## Files -/

namespace OutputFile

open Substitution (applyAll)

variable {files : List OutputFile} {substitutions : List Substitution}

/-- The second file is the first with substitutions made in its blocks. -/
structure Rewritten (substitutions : List Substitution) (file file' : OutputFile) : Prop where
  name_eq : file'.name = file.name
  blocks : List.Forall₂ (Block.Rewritten substitutions) file.blocks file'.blocks

/-- The texts of all blocks of files. -/
def texts (files : List OutputFile) : List String :=
  files.flatMap fun file => Block.allTexts file.blocks

/-- Substitutes in the blocks of a file and counts those that have changed. -/
def visit (substitutions : List Substitution) (file : OutputFile) : StateM Nat OutputFile := do
  let blocks ← Block.visitAll (Block.rewriteText substitutions) file.blocks
  return { file with blocks }

/-- Substitutes in the files that are the state, and counts the blocks that have changed.  A refusal
leaves the state as it is by then. -/
def rewriteInPlace (substitutions : List Substitution) :
    ExceptT WriteError (StateM (List OutputFile)) Nat := do
  ofExcept (Substitution.validate substitutions)
  modifyGet fun files => ((files.mapM (visit substitutions)).run 0).swap

/-- The file with its texts without a role rewritten. -/
def rewritten (substitutions : List Substitution) (file : OutputFile) : OutputFile :=
  { file with blocks := Block.mapPlainAll (applyAll substitutions) file.blocks }

theorem rewritten_iff (hsearch : ∀ s ∈ substitutions, s.search ≠ "") {file file' : OutputFile} :
    Rewritten substitutions file file' ↔ file' = file.rewritten substitutions := by
  obtain ⟨name, blocks⟩ := file
  obtain ⟨name', blocks'⟩ := file'
  rw [rewritten, OutputFile.mk.injEq, ← Block.forall₂_rewritten_iff hsearch]
  exact ⟨fun h => ⟨h.name_eq, h.blocks⟩, fun h => ⟨h.1, h.2⟩⟩

lemma forall₂_rewritten_iff (hsearch : ∀ s ∈ substitutions, s.search ≠ "")
    {files' : List OutputFile} :
    List.Forall₂ (Rewritten substitutions) files files' ↔
      files' = files.map (rewritten substitutions) := by
  induction files generalizing files' with
  | nil => rw [List.forall₂_nil_left_iff, List.map_nil]
  | cons file files ih =>
    rw [List.forall₂_cons_left_iff, List.map_cons]
    simp only [rewritten_iff hsearch, ih]
    constructor
    · rintro ⟨_, _, rfl, rfl, h⟩
      exact h
    · rintro rfl
      exact ⟨_, _, rfl, rfl, rfl⟩

lemma differences_texts_cons (file : OutputFile) (files : List OutputFile)
    (substitutions : List Substitution) :
    Block.differences (texts (file :: files))
        (texts ((file :: files).map (rewritten substitutions))) =
      Block.differences (Block.allTexts file.blocks)
          (Block.allTexts (file.rewritten substitutions).blocks) +
        Block.differences (texts files) (texts (files.map (rewritten substitutions))) := by
  simp only [texts, List.map_cons, List.flatMap_cons]
  exact Block.differences_append (Block.length_allTexts_mapPlainAll _ _).symm

lemma differences_rewritten (files : List OutputFile) (substitutions : List Substitution) :
    Block.differences (texts files) (texts (files.map (rewritten substitutions))) =
      (files.flatMap fun file => Block.allPlainTexts file.blocks).countP
        fun text => applyAll substitutions text ≠ text := by
  induction files with
  | nil => rfl
  | cons file files ih =>
    rw [differences_texts_cons, ih, rewritten, Block.differences_mapPlainAll, List.flatMap_cons,
      List.countP_append]

lemma run_mapM_visit (substitutions : List Substitution) (files : List OutputFile) (n : Nat) :
    (files.mapM (visit substitutions)).run n =
      (files.map (rewritten substitutions),
        n + Block.differences (texts files) (texts (files.map (rewritten substitutions)))) := by
  induction files generalizing n with
  | nil => rfl
  | cons file files ih =>
    have hfile : (visit substitutions file).run n = (file.rewritten substitutions,
        n + Block.differences (Block.allTexts file.blocks)
          (Block.allTexts (file.rewritten substitutions).blocks)) := by
      rw [visit, Block.run_bind_of_run (Block.run_visitAll substitutions file.blocks n)]
      rfl
    rw [List.mapM_cons, Block.run_bind_of_run hfile, Block.run_bind_of_run (ih _),
      differences_texts_cons, ← Nat.add_assoc]
    rfl

/-- A refused list leaves all files alone, in whichever way they are rewritten. -/
lemma substitute_of_validate_error {e : WriteError}
    (h : Substitution.validate substitutions = .error e) (files : List OutputFile) :
    substitute files substitutions = .error e ∧
      (rewriteInPlace substitutions).run.run files = (.error e, files) := by
  rw [substitute, rewriteInPlace, h]
  exact ⟨rfl, rfl⟩

lemma substitute_of_forall (hsearch : ∀ s ∈ substitutions, s.search ≠ "")
    (files : List OutputFile) :
    let files' := files.map (rewritten substitutions)
    let changes := Block.differences (texts files) (texts files')
    substitute files substitutions = .ok (files', changes) ∧
      (rewriteInPlace substitutions).run.run files = (.ok changes, files') := by
  have hvalid := Substitution.validate_eq_ok_iff.2 hsearch
  have hrun := run_mapM_visit substitutions files 0
  rw [Nat.zero_add] at hrun
  dsimp only
  constructor
  · rw [substitute, hvalid, differences_rewritten]
    rfl
  · rw [rewriteInPlace, hvalid]
    -- past the check there is nothing but the visit of all files
    change (Except.ok ((files.mapM (visit substitutions)).run 0).swap.1,
      ((files.mapM (visit substitutions)).run 0).swap.2) = _
    rw [hrun]
    rfl

/-- A list with an empty search text is refused for the first one, and the files stay as they are.
Any other list rewrites the files in the one way there is, and the count is the number of blocks
whose text is another one in the end.  The files that come out read as their texts one after
another. -/
theorem substitute_exact (files : List OutputFile) (substitutions : List Substitution) :
    ((∃ s ∈ substitutions, s.search = "") →
        ∃ k, IsLeast {i | ∃ s, substitutions[i]? = some s ∧ s.search = ""} k ∧
          substitute files substitutions = .error (.emptySubstitution k) ∧
          (rewriteInPlace substitutions).run.run files = (.error (.emptySubstitution k), files)) ∧
      ((∀ s ∈ substitutions, s.search ≠ "") →
        ∃ files', (∀ files'', List.Forall₂ (Rewritten substitutions) files files'' ↔
            files'' = files') ∧
          substitute files substitutions =
            .ok (files', Block.differences (texts files) (texts files')) ∧
          (rewriteInPlace substitutions).run.run files =
            (.ok (Block.differences (texts files) (texts files')), files') ∧
          ∀ file ∈ files', file.render = String.join (Block.allTexts file.blocks)) := by
  constructor
  · intro hempty
    have hnot : ¬ ∀ s ∈ substitutions, s.search ≠ "" := by simpa using hempty
    obtain ⟨front, s, hfirst⟩ := exists_firstFailing hnot
    have hvalid := Substitution.validate_eq_error_iff.2 ⟨front, s, hfirst, rfl⟩
    have hleast := hfirst.isLeast
    simp only [ne_eq, not_not] at hleast
    exact ⟨front.length, hleast, substitute_of_validate_error hvalid files⟩
  · intro hsearch
    obtain ⟨hsubstitute, hrun⟩ := substitute_of_forall hsearch files
    exact ⟨files.map (rewritten substitutions), fun _ => forall₂_rewritten_iff hsearch, hsubstitute,
      hrun, fun file _ => Block.renderAll_eq_join file.blocks⟩

/-- A file with a text at the top, and another one inside a class. -/
def bindings : OutputFile :=
  ⟨"Gui.cs", [.plain "using cimgui_impl;", .mk .classType "class cimgui: " [.plain "// cimgui"]]⟩

/-- Of three substitutions the second is the first with nothing to look for.  With two others both
texts without a role are rewritten, and the class keeps its own text. -/
theorem substitute_exact_bindings :
    (rewriteInPlace [⟨"cimgui", "Gui"⟩, ⟨"", "_"⟩, ⟨"", ""⟩]).run.run [bindings] =
        (.error (.emptySubstitution 1), [bindings]) ∧
      ∃ files', (rewriteInPlace [⟨"cimgui_impl", "Gui"⟩, ⟨"cimgui", "Gui"⟩]).run.run [bindings] =
          (.ok 2, files') ∧
        files'.map render = ["using Gui;class cimgui: // Gui"] := by
  constructor
  · obtain ⟨k, ⟨⟨s, hs, hempty⟩, hleast⟩, -, hrun⟩ := (substitute_exact [bindings]
      [⟨"cimgui", "Gui"⟩, ⟨"", "_"⟩, ⟨"", ""⟩]).1 ⟨⟨"", "_"⟩, by simp, rfl⟩
    have hle : k ≤ 1 := hleast ⟨⟨"", "_"⟩, rfl, rfl⟩
    rcases Nat.le_one_iff_eq_zero_or_eq_one.1 hle with rfl | rfl
    · obtain rfl := Option.some.inj hs
      exact absurd hempty (by decide)
    · exact hrun
  · have hsearch : ∀ s ∈ [(⟨"cimgui_impl", "Gui"⟩ : Substitution), ⟨"cimgui", "Gui"⟩],
        s.search ≠ "" := by decide
    obtain ⟨files', hunique, -, hrun, -⟩ := (substitute_exact [bindings] _).2 hsearch
    have hfiles : files' = [bindings].map (rewritten _) :=
      ((hunique _).1 ((forall₂_rewritten_iff hsearch).2 rfl)).symm
    refine ⟨files', ?_, ?_⟩
    · rw [hrun, hfiles]
      congr 2
      decide +kernel
    · rw [hfiles]
      decide +kernel

end OutputFile

end Bindery
