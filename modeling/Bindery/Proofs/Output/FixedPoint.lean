import Bindery.Config
import Bindery.Proofs.Output.Rewriting
import Bindery.Proofs.Text.Overlap

/-!
# Rewriting once is enough

A list of substitutions is overlap-free if every text that is looked for keeps apart from every
replacement.  Then nothing that is looked for is left after the files have been rewritten, and
rewriting them again changes nothing (`OutputFile.rewriteInPlace_settles`).

A substitution leaves none of its own search text behind.  Later ones have to keep it that way, and
earlier search texts have to be kept out by later replacements; both are the same fact, that a text
which occurs nowhere comes in with no replacement that it keeps apart from
(`Substitution.Rewrites.not_infix`).
-/

namespace Bindery

namespace Substitution

variable {substitutions : List Substitution} {text out : String} {search : List Char}

/-- No text of the list is empty, and what is looked for keeps apart from all replacements, those of
other substitutions included. -/
structure OverlapFree (substitutions : List Substitution) : Prop where
  search_ne_empty : ∀ s ∈ substitutions, s.search ≠ ""
  replacement_ne_empty : ∀ s ∈ substitutions, s.replacement ≠ ""
  keepsApart : ∀ s ∈ substitutions, ∀ r ∈ substitutions,
    Text.KeepsApart s.search.toList r.replacement.toList

/-- The text contains nothing that the list looks for. -/
def Settled (substitutions : List Substitution) (text : String) : Prop :=
  ∀ s ∈ substitutions, ¬ s.search.toList <:+: text.toList

/-- No replacement brings the searched text back, so once it is gone it stays away. -/
theorem Rewrites.not_infix (h : Rewrites substitutions text out)
    (hapart : ∀ r ∈ substitutions, Text.KeepsApart search r.replacement.toList)
    (habsent : ¬ search <:+: text.toList) : ¬ search <:+: out.toList := by
  induction h with
  | nil => exact habsent
  | cons hreplaced _ ih =>
    obtain ⟨hfirst, hrest⟩ := List.forall_mem_cons.1 hapart
    exact ih hrest fun hoccurs => habsent (hreplaced.infix_of_infix hfirst hoccurs)

/-- After the whole list nothing searched for is left: each substitution removes its own text, and
the later ones do not bring it back. -/
lemma Rewrites.settled (h : Rewrites substitutions text out)
    (hsearch : ∀ s ∈ substitutions, s.search ≠ "")
    (hapart : ∀ s ∈ substitutions, ∀ r ∈ substitutions,
      Text.KeepsApart s.search.toList r.replacement.toList) : Settled substitutions out := by
  induction h with
  | nil => exact fun s hs => absurd hs List.not_mem_nil
  | @cons s substitutions _ between out hreplaced hrest ih =>
    obtain ⟨hfirst, hothers⟩ := List.forall_mem_cons.1 hsearch
    have hne : s.search.toList ≠ [] := fun hnil => hfirst (String.toList_eq_nil_iff.1 hnil)
    have hgone : ¬ s.search.toList <:+: between.toList :=
      hreplaced.not_infix hne (hapart s List.mem_cons_self s List.mem_cons_self)
    have hkept : ¬ s.search.toList <:+: out.toList :=
      hrest.not_infix (fun r hr => hapart s List.mem_cons_self r (List.mem_cons_of_mem _ hr)) hgone
    refine List.forall_mem_cons.2 ⟨hkept, ih hothers fun r hr r' hr' => ?_⟩
    exact hapart r (List.mem_cons_of_mem _ hr) r' (List.mem_cons_of_mem _ hr')

/-- Where nothing is found nothing is replaced. -/
lemma Rewrites.eq_of_settled (h : Rewrites substitutions text out)
    (hsettled : Settled substitutions text) : out = text := by
  induction h with
  | nil => rfl
  | cons hreplaced _ ih =>
    obtain ⟨hfirst, hrest⟩ := List.forall_mem_cons.1 hsettled
    obtain rfl := String.toList_inj.1 (hreplaced.eq_of_not_infix hfirst)
    exact ih hrest

lemma OverlapFree.settled_applyAll (h : OverlapFree substitutions) (text : String) :
    Settled substitutions (applyAll substitutions text) :=
  ((rewrites_iff h.search_ne_empty).2 rfl).settled h.search_ne_empty h.keepsApart

lemma applyAll_of_settled (hsearch : ∀ s ∈ substitutions, s.search ≠ "")
    (h : Settled substitutions text) : applyAll substitutions text = text :=
  ((rewrites_iff hsearch).2 rfl).eq_of_settled h

end Substitution

/-! ## Texts without a role -/

namespace Block

mutual

lemma plainTexts_mapPlain (f : String → String) : ∀ b : Block,
    plainTexts (mapPlain f b) = (plainTexts b).map f
  | .mk kind text children => by
    rw [mapPlain, plainTexts, plainTexts, List.map_append, allPlainTexts_mapPlainAll f children]
    by_cases hkind : kind = .unknown <;> simp [hkind]

lemma allPlainTexts_mapPlainAll (f : String → String) : ∀ bs : List Block,
    allPlainTexts (mapPlainAll f bs) = (allPlainTexts bs).map f
  | [] => rfl
  | b :: bs => by
    rw [mapPlainAll, allPlainTexts, allPlainTexts, List.map_append, plainTexts_mapPlain f b,
      allPlainTexts_mapPlainAll f bs]

end

mutual

/-- A block stays as it is if the function changes none of its plain texts. -/
lemma mapPlain_eq_self {f : String → String} : ∀ {b : Block},
    (∀ text ∈ plainTexts b, f text = text) → mapPlain f b = b
  | .mk kind text children, h => by
    rw [plainTexts, List.forall_mem_append] at h
    rw [mapPlain, mapPlainAll_eq_self h.2]
    by_cases hkind : kind = .unknown
    · rw [if_pos hkind, h.1 text (by simp [hkind])]
    · rw [if_neg hkind]

lemma mapPlainAll_eq_self {f : String → String} : ∀ {bs : List Block},
    (∀ text ∈ allPlainTexts bs, f text = text) → mapPlainAll f bs = bs
  | [], _ => rfl
  | b :: bs, h => by
    rw [allPlainTexts, List.forall_mem_append] at h
    rw [mapPlainAll, mapPlain_eq_self h.1, mapPlainAll_eq_self h.2]

end

lemma differences_self (texts : List String) : differences texts texts = 0 := by
  induction texts with
  | nil => rfl
  | cons text texts ih => rw [differences_cons, if_pos rfl, ih]

end Block

/-! ## Files -/

namespace OutputFile

open Substitution

variable {substitutions : List Substitution} {files : List OutputFile}

/-- No text without a role in the files contains anything that the list looks for. -/
def AllSettled (substitutions : List Substitution) (files : List OutputFile) : Prop :=
  ∀ file ∈ files, ∀ text ∈ Block.allPlainTexts file.blocks, Settled substitutions text

lemma allSettled_rewritten (h : OverlapFree substitutions) (files : List OutputFile) :
    AllSettled substitutions (files.map (rewritten substitutions)) := by
  intro file' hfile' text htext
  obtain ⟨file, -, rfl⟩ := List.mem_map.1 hfile'
  rw [rewritten, Block.allPlainTexts_mapPlainAll] at htext
  obtain ⟨before, -, rfl⟩ := List.mem_map.1 htext
  exact h.settled_applyAll before

lemma rewritten_of_settled (hsearch : ∀ s ∈ substitutions, s.search ≠ "")
    (h : AllSettled substitutions files) : files.map (rewritten substitutions) = files := by
  refine (List.map_congr_left fun file hfile => ?_).trans (List.map_id files)
  rw [rewritten, Block.mapPlainAll_eq_self fun text htext =>
    applyAll_of_settled hsearch (h file hfile text htext)]
  rfl

/-- The binding to Dear ImGui substitutes without overlaps.  Whatever the files, an overlap-free
list rewrites them so that nothing is left to be found in them, and when they are rewritten once
more no block is changed. -/
theorem rewriteInPlace_settles :
    OverlapFree Config.cimgui.substitutions ∧
      ∀ substitutions, OverlapFree substitutions → ∀ files, ∃ n files',
        (rewriteInPlace substitutions).run.run files = (.ok n, files') ∧
          substitute files substitutions = .ok (files', n) ∧
          AllSettled substitutions files' ∧
          (rewriteInPlace substitutions).run.run files' = (.ok 0, files') ∧
          substitute files' substitutions = .ok (files', 0) := by
  refine ⟨⟨by decide, by decide, by decide⟩, fun substitutions hfree files => ?_⟩
  have hsettled := allSettled_rewritten hfree files
  obtain ⟨hfirst, hfirst'⟩ := substitute_of_forall hfree.search_ne_empty files
  obtain ⟨hagain, hagain'⟩ :=
    substitute_of_forall hfree.search_ne_empty (files.map (rewritten substitutions))
  rw [rewritten_of_settled hfree.search_ne_empty hsettled, Block.differences_self] at hagain hagain'
  exact ⟨_, _, hfirst', hfirst, hsettled, hagain', hagain⟩

/-- Of the two substitutions the first looks for a text that contains what the second looks for. -/
theorem rewriteInPlace_settles_bindings :
    OverlapFree Config.cimgui.substitutions ∧ ∃ n files',
      (rewriteInPlace Config.cimgui.substitutions).run.run [bindings] = (.ok n, files') ∧
        files'.map render = ["using ImGui;class cimgui: // ImGui"] ∧
        (rewriteInPlace Config.cimgui.substitutions).run.run files' = (.ok 0, files') := by
  obtain ⟨hcimgui, hsettles⟩ := rewriteInPlace_settles
  obtain ⟨n, files', hrun, hsubstitute, -, hagain, -⟩ := hsettles _ hcimgui [bindings]
  refine ⟨hcimgui, n, files', hrun, ?_, hagain⟩
  have hfiles := (substitute_of_forall hcimgui.search_ne_empty [bindings]).1
  rw [hsubstitute, Except.ok.injEq, Prod.mk.injEq] at hfiles
  rw [hfiles.1]
  decide +kernel

end OutputFile

end Bindery
