import Mathlib.Data.List.Infix
import Mathlib.Data.Set.Insert

/-!
# Reading a list of words back

`listed` writes words one after another with commas between them, and an ellipsis behind the last if
the list is open.  A set of words is legible if no two lists of them are written alike (`Legible`).

Words may have commas in them.  If no word begins with another one and a comma (`CommaFree`), a list
can be read from the left, one word at a time (`intercalate_cons_inj`).  Then the words that stand
in the way are three: the empty one, the ellipsis, and what is written for the empty open list
(`legible_iff`).
-/

namespace Bindery.Text

/-- Words in parentheses.  An open list ends in an ellipsis. -/
def listed (words : List String) (isOpen : Bool) : String :=
  let text := String.intercalate ", " words
  if isOpen then "(" ++ text ++ ", ...)" else "(" ++ text ++ ")"

/-- Lists of these words can be told apart by their texts. -/
def Legible (words : Set String) : Prop :=
  ∀ vs ws : List String, (∀ v ∈ vs, v ∈ words) → (∀ w ∈ ws, w ∈ words) → ∀ isOpen isOpen',
    listed vs isOpen = listed ws isOpen' → vs = ws ∧ isOpen = isOpen'

/-- No word begins with one of the words and a comma. -/
def CommaFree (words : Set String) : Prop :=
  ∀ v ∈ words, ∀ w ∈ words, ¬ (v ++ ", ").toList <+: w.toList

variable {words : Set String} {v w : String} {vs ws : List String}

/-! ## One word at a time -/

/-- If neither of two texts begins with the other one and a comma, they end at the first comma that
follows them both. -/
lemma append_comma_inj {a b x y : List Char} (ha : ¬ a ++ [',', ' '] <+: b)
    (hb : ¬ b ++ [',', ' '] <+: a) (h : a ++ ',' :: ' ' :: x = b ++ ',' :: ' ' :: y) :
    a = b ∧ x = y := by
  -- what one text has more than the other would begin with the comma
  have hmore {c x y : List Char} (hc : ',' :: ' ' :: x = c ++ ',' :: ' ' :: y) :
      (c = [] ∧ x = y) ∨ [',', ' '] <+: c := by
    match c with
    | [] => simpa using hc
    | [_] => simp at hc
    | d :: e :: c =>
      simp only [List.cons_append, List.cons.injEq] at hc
      obtain ⟨rfl, rfl, -⟩ := hc
      exact .inr ⟨c, rfl⟩
  rcases List.append_eq_append_iff.1 h with ⟨c, rfl, hc⟩ | ⟨c, rfl, hc⟩
  · rcases hmore hc with ⟨rfl, hxy⟩ | hcomma
    · exact ⟨(List.append_nil a).symm, hxy⟩
    · exact absurd ((List.prefix_append_right_inj a).2 hcomma) ha
  · rcases hmore hc with ⟨rfl, hxy⟩ | hcomma
    · exact ⟨List.append_nil b, hxy.symm⟩
    · exact absurd ((List.prefix_append_right_inj b).2 hcomma) hb

lemma not_eq_intercalate (h : ¬ (w ++ ", ").toList <+: v.toList) (hws : ws ≠ []) :
    v ≠ String.intercalate ", " (w :: ws) := by
  rintro rfl
  exact h ⟨(String.intercalate ", " ws).toList, by simp [String.intercalate_cons_of_ne_nil hws]⟩

/-- The first of two lists of words written alike is the same, and the rest is written alike. -/
theorem intercalate_cons_inj (hv : ¬ (v ++ ", ").toList <+: w.toList)
    (hw : ¬ (w ++ ", ").toList <+: v.toList)
    (h : String.intercalate ", " (v :: vs) = String.intercalate ", " (w :: ws)) :
    v = w ∧ (vs = [] ↔ ws = []) ∧ String.intercalate ", " vs = String.intercalate ", " ws := by
  by_cases hvs : vs = [] <;> by_cases hws : ws = []
  · subst hvs hws
    simpa using h
  · rw [hvs, String.intercalate_singleton] at h
    exact absurd h (not_eq_intercalate hw hws)
  · rw [hws, String.intercalate_singleton] at h
    exact absurd h.symm (not_eq_intercalate hv hvs)
  · rw [String.intercalate_cons_of_ne_nil hvs, String.intercalate_cons_of_ne_nil hws,
      ← String.toList_inj] at h
    simp only [String.toList_append, List.append_assoc] at h
    rw [String.toList_append] at hv hw
    obtain ⟨hfirst, hrest⟩ := append_comma_inj hv hw h
    exact ⟨String.toList_inj.1 hfirst, iff_of_false hvs hws, String.toList_inj.1 hrest⟩

/-! ## Whole lists -/

lemma intercalate_ne_empty (hws : ws ≠ []) (hempty : "" ∉ ws) :
    String.intercalate ", " ws ≠ "" := by
  obtain ⟨w, rest, rfl⟩ := List.exists_cons_of_ne_nil hws
  by_cases hrest : rest = []
  · rw [hrest, String.intercalate_singleton]
    exact fun h => hempty (h ▸ List.mem_cons_self)
  · rw [String.intercalate_cons_of_ne_nil hrest]
    simp

/-- A text with a comma at most in front is no list of several words that are not empty. -/
lemma eq_singleton_of_intercalate {text : String} (h : String.intercalate ", " ws = text)
    (hne : text ≠ "") (hcomma : ',' ∉ text.toList.tail) (hempty : "" ∉ ws) : ws = [text] := by
  match ws with
  | [] => exact absurd h.symm hne
  | [w] => rw [← h, String.intercalate_singleton]
  | w :: w' :: rest =>
    refine absurd ?_ hcomma
    have hw : w.toList ≠ [] := fun hnil =>
      hempty (String.toList_eq_nil_iff.1 hnil ▸ List.mem_cons_self)
    obtain ⟨c, cs, hcs⟩ := List.exists_cons_of_ne_nil hw
    rw [← h, String.intercalate_cons_cons]
    simp [hcs]

section CommaFree

variable (hfree : CommaFree words) (hempty : "" ∉ words)

include hfree hempty

lemma intercalate_inj (hvs : ∀ v ∈ vs, v ∈ words) (hws : ∀ w ∈ ws, w ∈ words)
    (h : String.intercalate ", " vs = String.intercalate ", " ws) : vs = ws := by
  induction vs generalizing ws with
  | nil =>
    by_contra hne
    exact intercalate_ne_empty (Ne.symm hne) (fun hmem => hempty (hws _ hmem)) h.symm
  | cons v vs ih =>
    cases ws with
    | nil => exact absurd h (intercalate_ne_empty (by simp) fun hmem => hempty (hvs _ hmem))
    | cons w ws =>
      obtain ⟨hv, hvs⟩ := List.forall_mem_cons.1 hvs
      obtain ⟨hw, hws⟩ := List.forall_mem_cons.1 hws
      obtain ⟨hfirst, -, hrest⟩ := intercalate_cons_inj (hfree v hv w hw) (hfree w hw v hv) h
      rw [hfirst, ih hvs hws hrest]

/-- No list is written like another one with an ellipsis behind it. -/
lemma intercalate_append_ellipsis_ne (hellipsis : "..." ∉ words) (hvs : ∀ v ∈ vs, v ∈ words)
    (hws : ∀ w ∈ ws, w ∈ words) :
    String.intercalate ", " (vs ++ ["..."]) ≠ String.intercalate ", " ws := by
  intro h
  induction vs generalizing ws with
  | nil =>
    have hwhole := eq_singleton_of_intercalate h.symm (by decide) (by decide)
      fun hmem => hempty (hws _ hmem)
    exact hellipsis (hws "..." (by simp [hwhole]))
  | cons v vs ih =>
    cases ws with
    | nil =>
      refine absurd h (intercalate_ne_empty (by simp) fun hmem => ?_)
      rcases List.mem_append.1 hmem with hmem | hmem
      · exact hempty (hvs _ hmem)
      · exact absurd (List.mem_singleton.1 hmem) (by decide)
    | cons w ws =>
      obtain ⟨hv, hvs⟩ := List.forall_mem_cons.1 hvs
      obtain ⟨hw, hws⟩ := List.forall_mem_cons.1 hws
      exact ih hvs hws (intercalate_cons_inj (hfree v hv w hw) (hfree w hw v hv) h).2.2

lemma listed_open_ne (hellipsis : "..." ∉ words) (hopen : ", ..." ∉ words)
    (hvs : ∀ v ∈ vs, v ∈ words) (hws : ∀ w ∈ ws, w ∈ words) : listed vs true ≠ listed ws false := by
  intro h
  have htext : String.intercalate ", " vs ++ ", ..." = String.intercalate ", " ws := by
    have hclosed : "(" ++ (String.intercalate ", " vs ++ ", ...") ++ ")" =
        "(" ++ String.intercalate ", " ws ++ ")" := by
      simpa [listed, String.append_assoc] using h
    exact (String.append_right_inj _).1 ((String.append_left_inj _).1 hclosed)
  by_cases hnil : vs = []
  · rw [hnil, String.intercalate_nil] at htext
    have hwhole := eq_singleton_of_intercalate htext.symm (by decide) (by decide)
      fun hmem => hempty (hws _ hmem)
    exact hopen (hws _ (by rw [hwhole]; exact List.mem_singleton_self _))
  · refine intercalate_append_ellipsis_ne hfree hempty hellipsis hvs hws ?_
    rw [String.intercalate_append_of_ne_nil hnil (by simp), ← htext, String.intercalate_singleton,
      String.append_assoc]
    rfl

end CommaFree

/-- Of words that do not begin with others and a comma, lists can be read back exactly if none of
the words is empty, the ellipsis, or a comma and the ellipsis. -/
theorem legible_iff (hfree : CommaFree words) :
    Legible words ↔ "" ∉ words ∧ "..." ∉ words ∧ ", ..." ∉ words := by
  constructor
  · intro h
    have hmem {w : String} (hw : w ∈ words) (n : Nat) : ∀ v ∈ List.replicate n w, v ∈ words :=
      fun v hv => List.eq_of_mem_replicate hv ▸ hw
    refine ⟨fun hw => ?_, fun hw => ?_, fun hw => ?_⟩
    · exact absurd (h [] [""] (by simp) (hmem hw 1) false false rfl).1 (by decide)
    · exact absurd (h ["..."] ["...", "..."] (hmem hw 1) (hmem hw 2) true false rfl).1 (by decide)
    · exact absurd (h [] [", ..."] (by simp) (hmem hw 1) true false rfl).1 (by decide)
  · rintro ⟨hempty, hellipsis, hopen⟩ vs ws hvs hws isOpen isOpen' h
    match isOpen, isOpen' with
    | false, false | true, true =>
      refine ⟨intercalate_inj hfree hempty hvs hws ?_, rfl⟩
      simpa [listed] using h
    | true, false => exact absurd h (listed_open_ne hfree hempty hellipsis hopen hvs hws)
    | false, true => exact absurd h.symm (listed_open_ne hfree hempty hellipsis hopen hws hvs)

end Bindery.Text
