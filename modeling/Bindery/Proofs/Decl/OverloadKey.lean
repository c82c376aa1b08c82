import Mathlib.Data.Set.Function
import Bindery.Pass.DuplicateNames
import Bindery.Proofs.Text.Listed
import Bindery.Proofs.Tree.Development

/-!
# When overload keys tell parameters apart

Clashes of names are found by the overload key, the printed list of the parameter types, and
overrides by the types themselves (`Signature.hasSameParameters`).  Signatures with the same
parameters always have the same key.  The converse depends on the types in use, since a type is
printed without what it names and without the types it points to: the keys of all signatures over a
set of types are right exactly if the types are told apart by their texts, and these texts can be
read back from a list (`keysAgree_iff`).

The types of a header need not be like that.  The overloads of `paletteTree` take two classes of one
name from different namespaces, and they are treated as clashing (`clash_paletteTree`).
-/

namespace Bindery

namespace Signature

/-- The parameters have types of this set. -/
def IsOver (types : Set QualType) (s : Signature) : Prop := ∀ type ∈ s.parameterTypes, type ∈ types

/-- Signatures over these types have one key exactly if they take the same types in the same order
and both argument lists are open or both are closed. -/
def KeysAgree (types : Set QualType) : Prop :=
  ∀ f g : Signature, f.IsOver types → g.IsOver types →
    (f.overloadKey = g.overloadKey ↔ f.hasSameParameters g = true ∧ f.isVariadic = g.isVariadic)

/-- A signature that takes unnamed arguments of these types. -/
def taking (types : List QualType) (isVariadic : Bool) : Signature :=
  ⟨.void, types.map (⟨"", ·, none⟩), isVariadic⟩

variable {types : Set QualType} {f g : Signature}

@[simp]
lemma parameterTypes_taking (types : List QualType) (isVariadic : Bool) :
    (taking types isVariadic).parameterTypes = types := by
  simp [taking, parameterTypes, Function.comp_def]

lemma hasSameParameters_iff :
    f.hasSameParameters g = true ↔ f.parameterTypes = g.parameterTypes := decide_eq_true_iff

lemma overloadKey_eq_listed (s : Signature) :
    s.overloadKey = Text.listed (s.parameterTypes.map (·.display)) s.isVariadic := rfl

@[simp]
lemma overloadKey_taking (types : List QualType) (isVariadic : Bool) :
    (taking types isVariadic).overloadKey = Text.listed (types.map (·.display)) isVariadic := by
  rw [overloadKey_eq_listed, parameterTypes_taking]
  rfl

lemma overloadKey_of_hasSameParameters (hsame : f.hasSameParameters g = true)
    (hvariadic : f.isVariadic = g.isVariadic) : f.overloadKey = g.overloadKey := by
  rw [overloadKey_eq_listed, overloadKey_eq_listed, hasSameParameters_iff.1 hsame, hvariadic]

/-! ## Signatures over types that are told apart by their texts -/

/-- Lists of the texts of types are those of lists of types. -/
lemma exists_types_of_texts {texts : List String}
    (h : ∀ text ∈ texts, text ∈ QualType.display '' types) :
    ∃ list : List QualType, (∀ type ∈ list, type ∈ types) ∧ list.map (·.display) = texts := by
  choose! unprint hmem hdisplay using h
  refine ⟨texts.map unprint, by simpa using hmem, ?_⟩
  rw [List.map_map]
  exact List.map_congr_left hdisplay |>.trans (List.map_id _)

lemma eq_of_map_display {as bs : List QualType} (hinj : Set.InjOn QualType.display types)
    (has : ∀ type ∈ as, type ∈ types) (hbs : ∀ type ∈ bs, type ∈ types)
    (h : as.map (·.display) = bs.map (·.display)) : as = bs := by
  have hback {list : List QualType} (hlist : ∀ type ∈ list, type ∈ types) :
      (list.map (·.display)).map (Function.invFunOn QualType.display types) = list := by
    rw [List.map_map]
    exact (List.map_congr_left fun type hmem => hinj.leftInvOn_invFunOn (hlist type hmem)).trans
      (List.map_id _)
  rw [← hback has, h, hback hbs]

lemma KeysAgree.injOn (h : KeysAgree types) : Set.InjOn QualType.display types := by
  intro a ha b hb hdisplay
  have hkey : (taking [a] false).overloadKey = (taking [b] false).overloadKey := by
    simp [hdisplay]
  obtain ⟨hsame, -⟩ := (h _ _ (by simpa [IsOver] using ha) (by simpa [IsOver] using hb)).1 hkey
  simpa [hasSameParameters_iff] using hsame

lemma KeysAgree.legible (h : KeysAgree types) : Text.Legible (QualType.display '' types) := by
  intro vs ws hvs hws isOpen isOpen' heq
  obtain ⟨as, has, rfl⟩ := exists_types_of_texts hvs
  obtain ⟨bs, hbs, rfl⟩ := exists_types_of_texts hws
  have hkey : (taking as isOpen).overloadKey = (taking bs isOpen').overloadKey := by
    simpa using heq
  obtain ⟨hsame, hvariadic⟩ :=
    (h _ _ (by simpa [IsOver] using has) (by simpa [IsOver] using hbs)).1 hkey
  rw [hasSameParameters_iff, parameterTypes_taking, parameterTypes_taking] at hsame
  exact ⟨congrArg _ hsame, hvariadic⟩

lemma keysAgree_of_legible (hinj : Set.InjOn QualType.display types)
    (hlegible : Text.Legible (QualType.display '' types)) : KeysAgree types := by
  intro f g hf hg
  refine ⟨fun hkey => ?_, fun h => overloadKey_of_hasSameParameters h.1 h.2⟩
  have htexts {s : Signature} (hs : s.IsOver types) :
      ∀ text ∈ s.parameterTypes.map (·.display), text ∈ QualType.display '' types :=
    List.forall_mem_map.2 fun type hmem => ⟨type, hs type hmem, rfl⟩
  obtain ⟨htypes, hvariadic⟩ := hlegible _ _ (htexts hf) (htexts hg) _ _ hkey
  exact ⟨hasSameParameters_iff.2 (eq_of_map_display hinj hf hg htypes), hvariadic⟩

/-- Same parameters give the same key.  Over a set of types the keys are right exactly if no two of
the types are printed alike and lists of their texts can be told apart.  If no text begins with
another one and a comma, the latter means that no type is printed as nothing or as an ellipsis. -/
theorem keysAgree_iff (types : Set QualType) :
    (∀ f g : Signature, f.hasSameParameters g = true ∧ f.isVariadic = g.isVariadic →
      f.overloadKey = g.overloadKey) ∧
    (KeysAgree types ↔
      Set.InjOn QualType.display types ∧ Text.Legible (QualType.display '' types)) ∧
    (Text.CommaFree (QualType.display '' types) →
      (KeysAgree types ↔ Set.InjOn QualType.display types ∧
        ∀ type ∈ types, type.display ∉ ["", "...", ", ..."])) := by
  have hiff : KeysAgree types ↔
      Set.InjOn QualType.display types ∧ Text.Legible (QualType.display '' types) :=
    ⟨fun h => ⟨h.injOn, h.legible⟩, fun h => keysAgree_of_legible h.1 h.2⟩
  refine ⟨fun f g h => overloadKey_of_hasSameParameters h.1 h.2, hiff, fun hfree => ?_⟩
  rw [hiff, Text.legible_iff hfree]
  simp [forall_and]

/-- Types with a comma in one of their texts. -/
def pairTypes : Set QualType :=
  {.builtin "int", .named "float" true (.builtin "float"),
    .named "Pair<int, float>" false (.declared ⟨"Pair<int, float>"⟩)}

theorem keysAgree_pairTypes : KeysAgree pairTypes := by
  have hfree : Text.CommaFree (QualType.display '' pairTypes) := by
    simp only [pairTypes, Set.image_insert_eq, Set.image_singleton]
    rintro v (rfl | rfl | rfl) w (rfl | rfl | rfl) <;> decide
  refine ((keysAgree_iff pairTypes).2.2 hfree).2 ⟨?_, ?_⟩
  · rintro a (rfl | rfl | rfl) b (rfl | rfl | rfl) <;> decide
  · rintro type (rfl | rfl | rfl) <;> decide

end Signature

/-! ## Classes of one name -/

/-- Two classes of one name in different namespaces, and two functions of one name that take
them. -/
def paletteTree : Tree :=
  Tree.empty.changed [
    .insert none (.new ⟨"tu:a.h"⟩ "a.h" .translationUnit),
    .insert (some 0) (.new ⟨"gl"⟩ "gl" .namespaceScope),
    .insert (some 1) (.new ⟨"gl::Color"⟩ "Color" (.classType true [])),
    .insert (some 0) (.new ⟨"ui"⟩ "ui" .namespaceScope),
    .insert (some 3) (.new ⟨"ui::Color"⟩ "Color" (.classType true [])),
    .insert (some 0) (.new ⟨"fill(gl::Color)"⟩ "fill" (.function
      ⟨.void, [⟨"c", .named "Color" false (.declared ⟨"gl::Color"⟩), none⟩], false⟩)),
    .insert (some 0) (.new ⟨"fill(ui::Color)"⟩ "fill" (.function
      ⟨.void, [⟨"c", .named "Color" false (.declared ⟨"ui::Color"⟩), none⟩], false⟩))]

/-- The functions have one key and different parameters, so the second one loses its name. -/
theorem clash_paletteTree :
    (∃ f g, (paletteTree.decl 5).signature? = some f ∧ (paletteTree.decl 6).signature? = some g ∧
      f.overloadKey = g.overloadKey ∧ f.hasSameParameters g = false) ∧
      (paletteTree.separateAllNames.tree.decl 6).name = "fill_1" ∧
      ¬ Signature.KeysAgree Set.univ := by
  have hf : (paletteTree.decl 5).signature? = some ⟨.void,
      [⟨"c", .named "Color" false (.declared ⟨"gl::Color"⟩), none⟩], false⟩ := by decide +kernel
  have hg : (paletteTree.decl 6).signature? = some ⟨.void,
      [⟨"c", .named "Color" false (.declared ⟨"ui::Color"⟩), none⟩], false⟩ := by decide +kernel
  refine ⟨⟨_, _, hf, hg, by decide, by decide⟩, by decide +kernel, fun h => ?_⟩
  exact absurd (h.injOn (Set.mem_univ (.named "Color" false (.declared ⟨"gl::Color"⟩)))
    (Set.mem_univ (.named "Color" false (.declared ⟨"ui::Color"⟩))) rfl) (by decide)

end Bindery
