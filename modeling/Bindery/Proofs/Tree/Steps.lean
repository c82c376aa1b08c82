import Mathlib.Logic.Relation
import Bindery.Proofs.Pass.TrailingDefaults
import Bindery.Proofs.Pass.Visibility

/-!
# The steps that a tree can go

Between reading and emitting a tree goes small steps: an edit of one declaration, or a function that
becomes a method.  `Step` lists them, each with what has to hold at that moment.  Access is only
widened, and only for a protected type inside a class; default values are only given to what is not
kept out; and a function is kept out once it has become a method.

What a way of any number of steps leaves alone is `Kept` (`kept_of_steps`).
-/

namespace Bindery.Tree

variable {t u v : Tree} {id : Nat}

/-! ## Steps -/

/-- The edits that a declaration is open to. -/
inductive Permits (t : Tree) (id : Nat) : Edit → Prop where
  | rename (name : String) : t.Permits id (.rename name)
  | ignore : t.Permits id .ignore
  | publish (hnested : t.isTypeInClass id = true)
      (hprotected : (t.decl id).access = .isProtected) : t.Permits id (.setAccess .isPublic)
  | setDefaults {s : Signature} {values : List (Option String)}
      (hs : (t.decl id).signature? = some s) (hlength : values.length = s.arguments.length)
      (hopen : (t.decl id).ignored = false) : t.Permits id (.setDefaults values)
  | setFlags (isFlags : Bool) : t.Permits id (.setFlags isFlags)
  | requireManual : t.Permits id .requireManual

/-- One step from a tree to the next. -/
inductive Step : Tree → Tree → Prop where
  | edit {t : Tree} {id : Nat} {edit : Edit} (hpermits : t.Permits id edit) :
      Step t (t.edit id edit)
  | promote {t grown : Tree} {function target : Nat} {s : Signature} {receiver : Argument}
      {rest : List Argument} {name : String}
      (hkind : (t.decl function).kind = .function) (hscope : t.inNamespaceScope function = true)
      (hs : (t.decl function).signature? = some s) (harguments : s.arguments = receiver :: rest)
      (hgrown : t.insert (some target) (Promotion.declOf (t.decl function) name
        ⟨{ s with arguments := rest }, false, false, some receiver,
          some (t.decl function).usr⟩) = .ok grown) :
      Step t (grown.edit function .ignore)

/-- Any number of steps. -/
abbrev Steps : Tree → Tree → Prop := Relation.ReflTransGen Step

lemma Permits.fits {edit : Edit} (h : t.Permits id edit) : edit.Fits (t.decl id) := by
  cases h with
  | setDefaults hs hlength hopen =>
    intro s' hs'
    rw [hs] at hs'
    cases hs'
    exact hlength
  | _ => trivial

lemma Permits.steps {edit : Edit} (h : t.Permits id edit) : t.Steps (t.edit id edit) :=
  .single (.edit h)

namespace Step

lemma develops (h : Step t u) : t.Develops Field.all u := by
  cases h with
  | edit hpermits => exact (develops_edit hpermits.fits).mono (Field.subset_all _)
  | promote hkind hscope hs harguments hgrown =>
    exact ((develops_insert hgrown rfl).mono (Field.subset_all _)).trans
      ((develops_ignore _ _).mono (Field.subset_all _))

/-- A step may add a last child, and takes none away. -/
lemma children_prefix (h : Step t u) (id : Nat) : t.children id <+: u.children id := by
  cases h with
  | edit hpermits => simp
  | promote hkind hscope hs harguments hgrown =>
    rw [children_edit, children_of_insert hgrown]
    exact List.prefix_append _ _

/-- A field that a promotion has nothing to do with. -/
lemma sameIn_promote {grown : Tree} {parent : Option Nat} {decl : Decl} (function : Nat)
    (hgrown : t.insert parent decl = .ok grown) {field : Field} (hfield : field ≠ .ignored)
    (hid : id < t.size) :
    (t.decl id).SameIn field ((grown.edit function .ignore).decl id) := by
  have hsame : grown.decl id = t.decl id := by rw [decl_of_insert hgrown, if_neg (by omega)]
  rw [← hsame]
  exact sameIn_edit hfield grown function id

/-- Access levels stay as they are, or a protected type inside a class becomes public. -/
lemma access_cases (h : Step t u) (hid : id < t.size) :
    (u.decl id).access = (t.decl id).access ∨ t.isTypeInClass id = true ∧
      (t.decl id).access = .isProtected ∧ (u.decl id).access = .isPublic := by
  cases h with
  | @edit target edit hpermits =>
    by_cases hfield : Field.access = edit.field
    · cases hpermits with
      | publish hnested hprotected =>
        by_cases heq : target = id
        · subst heq
          refine .inr ⟨hnested, hprotected, ?_⟩
          rw [decl_edit, if_pos ⟨rfl, hid⟩]
          rfl
        · rw [decl_edit_of_ne heq]
          exact .inl rfl
      | _ => simp [Edit.field] at hfield
    · exact .inl (Eq.symm (sameIn_edit hfield t target id))
  | @promote grown function target s receiver rest name hkind hscope hs harguments hgrown =>
    have hsame := sameIn_promote function hgrown (show Field.access ≠ .ignored by decide) hid
    exact .inl hsame.symm

/-- What is kept out keeps its default values. -/
lemma defaults_eq (h : Step t u) (hid : id < t.size) (hignored : (t.decl id).ignored = true) :
    (u.decl id).defaults? = (t.decl id).defaults? := by
  cases h with
  | @edit target edit hpermits =>
    by_cases hfield : Field.defaults = edit.field
    · cases hpermits with
      | setDefaults hs hlength hopen =>
        have hne : target ≠ id := by
          rintro rfl
          rw [hignored] at hopen
          exact absurd hopen (by simp)
        rw [decl_edit_of_ne hne]
      | _ => simp [Edit.field] at hfield
    · exact Eq.symm (sameIn_edit hfield t target id)
  | @promote grown function target s receiver rest name hkind hscope hs harguments hgrown =>
    have hsame := sameIn_promote function hgrown (show Field.defaults ≠ .ignored by decide) hid
    exact hsame.symm

end Step

/-! ## Promoted methods -/

/-- A public method with a receiver that was made of a free function, which is kept out. -/
def IsPromoted (t : Tree) (id : Nat) : Prop :=
  ∃ m receiver function, (t.decl id).payload = .method m ∧ (t.decl id).access = .isPublic ∧
    m.receiver = some receiver ∧ m.promotedFrom = some (t.decl function).usr ∧
    (t.decl function).kind = .function ∧ t.inNamespaceScope function = true ∧
    (t.decl function).ignored = true

/-- A promoted method stays what it is. -/
lemma IsPromoted.step (hpromoted : t.IsPromoted id) (h : Step t u) : u.IsPromoted id := by
  obtain ⟨m, receiver, function, hpayload, haccess, hreceiver, hfrom, hkind, hscope, hignored⟩ :=
    hpromoted
  have hdev := h.develops
  have hid : id < t.size := lt_size_of_kind (by simp [Decl.kind, hpayload, Payload.kind])
  have hfunction : function < t.size := lt_size_of_kind (by rw [hkind]; decide)
  have hshape := congrArg Decl.payload (hdev.shape_eq hid)
  obtain ⟨m', hpayload', hreceiver', hfrom'⟩ : ∃ m', (u.decl id).payload = .method m' ∧
      m'.receiver = m.receiver ∧ m'.promotedFrom = m.promotedFrom := by
    revert hshape
    simp only [Decl.shape, hpayload]
    cases (u.decl id).payload with
    | method m' =>
      simp only [Payload.shape, Payload.method.injEq, Method.mk.injEq]
      exact fun h => ⟨m', rfl, h.2.2.2.1, h.2.2.2.2⟩
    | _ => simp [Payload.shape]
  refine ⟨m', receiver, function, hpayload', ?_, hreceiver'.trans hreceiver, ?_, ?_, ?_, ?_⟩
  · rcases h.access_cases hid with hsame | ⟨-, -, hpublic⟩
    · exact hsame.trans haccess
    · exact hpublic
  · rw [hfrom', hfrom, hdev.reads Decl.usr Decl.usr_shape hfunction]
  · rw [hdev.kind_eq hfunction, hkind]
  · rw [hdev.inNamespaceScope_eq hfunction, hscope]
  · exact hdev.ignored_of hfunction hignored

/-- What a step adds is a promoted method. -/
lemma Step.isPromoted (h : Step t u) (hle : t.size ≤ id) (hlt : id < u.size) :
    u.IsPromoted id := by
  cases h with
  | edit hpermits => exact absurd hlt (by simpa using hle)
  | @promote grown function target s receiver rest name hkind hscope hs harguments hgrown =>
    have hfunction : function < t.size := lt_size_of_kind (by rw [hkind]; decide)
    rw [size_edit, size_of_insert hgrown] at hlt
    obtain rfl : id = t.size := by omega
    have hold : grown.decl function = t.decl function := by
      rw [decl_of_insert hgrown, if_neg (by omega)]
    have hhidden : (grown.edit function .ignore).decl function =
        { t.decl function with ignored := true } := by
      rw [decl_edit, if_pos ⟨rfl, by rw [size_of_insert hgrown]; omega⟩, hold]
      rfl
    have hnew := decl_edit_of_ne (t := grown) (show function ≠ t.size by omega) .ignore
    rw [decl_of_insert hgrown, if_pos rfl] at hnew
    have hdev := (Step.promote hkind hscope hs harguments hgrown).develops
    refine ⟨⟨{ s with arguments := rest }, false, false, some receiver,
      some (t.decl function).usr⟩, receiver, function, ?_, ?_, rfl, ?_, ?_, ?_, ?_⟩
    · rw [hnew]
      rfl
    · rw [hnew]
      rfl
    · rw [hhidden]
    · rw [hhidden]
      exact hkind
    · rw [hdev.inNamespaceScope_eq hfunction, hscope]
    · rw [hhidden]

/-! ## Any number of steps -/

lemma kind_of_isTypeInClass (h : t.isTypeInClass id = true) :
    (t.decl id).kind.isType = true ∧ ∃ p, t.parent? id = some p ∧ (t.decl p).kind = .classType := by
  simp only [isTypeInClass, Bool.and_eq_true, Option.any_eq_true, decide_eq_true_eq] at h
  exact ⟨h.1.1, h.2⟩

namespace Steps

lemma develops (h : t.Steps u) : t.Develops Field.all u := by
  induction h with
  | refl => exact .refl _ t
  | tail hsteps hstep ih => exact ih.trans hstep.develops

lemma children_prefix (h : t.Steps u) (id : Nat) : t.children id <+: u.children id := by
  induction h with
  | refl => exact List.prefix_refl _
  | tail hsteps hstep ih => exact ih.trans (hstep.children_prefix id)

lemma access_cases (h : t.Steps u) (hid : id < t.size) :
    (u.decl id).access = (t.decl id).access ∨ (t.decl id).kind.isType = true ∧
      (∃ p, t.parent? id = some p ∧ (t.decl p).kind = .classType) ∧
      (t.decl id).access = .isProtected ∧ (u.decl id).access = .isPublic := by
  induction h with
  | refl => exact .inl rfl
  | tail hsteps hstep ih =>
    have hdev := develops hsteps
    rcases hstep.access_cases (Nat.lt_of_lt_of_le hid hdev.size_le) with
      hsame | ⟨hnested, hprotected, hpublic⟩
    · rwa [hsame]
    · rcases ih with hsame | ⟨-, -, -, hpublic'⟩
      · obtain ⟨htype, hclass⟩ := kind_of_isTypeInClass (isTypeInClass_of_develops hdev hid hnested)
        exact .inr ⟨htype, hclass, hsame ▸ hprotected, hpublic⟩
      · rw [hpublic'] at hprotected
        exact absurd hprotected (by decide)

lemma defaults_eq (h : t.Steps u) (hid : id < t.size) (hignored : (t.decl id).ignored = true) :
    (u.decl id).defaults? = (t.decl id).defaults? := by
  induction h with
  | refl => rfl
  | tail hsteps hstep ih =>
    have hdev := develops hsteps
    rw [hstep.defaults_eq (Nat.lt_of_lt_of_le hid hdev.size_le) (hdev.ignored_of hid hignored), ih]

lemma isPromoted (h : t.Steps u) (hle : t.size ≤ id) (hlt : id < u.size) : u.IsPromoted id := by
  induction h with
  | refl => exact absurd hlt (by omega)
  | @tail v w hsteps hstep ih =>
    by_cases hv : id < v.size
    · exact (ih hv).step hstep
    · exact hstep.isPromoted (by omega) hlt

end Steps

/-! ## What is kept -/

/-- What has come of a declaration of `t` in `u`.  An identifier, a name in the header, a kind and a
payload are for ever, but for default values and marks; there is no way back from being kept out. -/
structure Kept (t u : Tree) : Prop where
  size_le : t.size ≤ u.size
  parent?_eq : ∀ id < t.size, u.parent? id = t.parent? id
  shape_eq : ∀ id < t.size, (u.decl id).shape = (t.decl id).shape
  children_prefix : ∀ id, t.children id <+: u.children id
  ignored_of : ∀ id < t.size, (t.decl id).ignored = true → (u.decl id).ignored = true
  /-- Only a protected type inside a class can have become public. -/
  access_cases : ∀ id < t.size, (u.decl id).access = (t.decl id).access ∨
    (t.decl id).kind.isType = true ∧
      (∃ p, t.parent? id = some p ∧ (t.decl p).kind = .classType) ∧
      (t.decl id).access = .isProtected ∧ (u.decl id).access = .isPublic
  defaults_eq : ∀ id < t.size, (t.decl id).ignored = true →
    (u.decl id).defaults? = (t.decl id).defaults?
  manual_of : ∀ id < t.size, (t.decl id).isManual = true → (u.decl id).isManual = true
  isPromoted : ∀ id, t.size ≤ id → id < u.size → u.IsPromoted id

theorem kept_of_steps (h : t.Steps u) : t.Kept u where
  size_le := h.develops.size_le
  parent?_eq _ hid := h.develops.parent?_eq hid
  shape_eq _ hid := h.develops.shape_eq hid
  children_prefix := h.children_prefix
  ignored_of _ hid := h.develops.ignored_of hid
  access_cases _ hid := h.access_cases hid
  defaults_eq _ hid := h.defaults_eq hid
  manual_of _ hid := h.develops.manual_of hid
  isPromoted _ hle hlt := h.isPromoted hle hlt

end Bindery.Tree
