import Bindery.Pass.InheritedDefaults
import Bindery.Tree.Typedefs
import Bindery.Proofs.Tree.Walking

/-!
# How a tree develops

Whatever is done to a tree after it has been loaded comes down to single changes, edits and
additions (`Tree.changed`), and leaves most of it alone: the declarations stay where they are, an
edit changes one of six fields, and the only declarations added are methods.
`Tree.Develops free t u` says that `u` came of `t` in this way, where only the fields in `free` may
have changed, and hidden or hand-written declarations have stayed so.

What no edit can change is collected in the `shape` of a declaration.  Everything that is looked up
in a tree by identifier, header name, kind or type depends on shapes only, so a look-up has the same
answer after any development (`Develops.typedefTarget?_eq`, `Develops.classBehind_eq`,
`Develops.lineage_eq`), up to what new methods add to it.
-/

namespace Bindery

/-! ## Shapes -/

/-- The signature without default values. -/
def Signature.shape (signature : Signature) : Signature :=
  { signature with arguments := signature.arguments.map (·.withDefault none) }

/-- The payload without what an edit can change. -/
def Payload.shape : Payload → Payload
  | .function signature => .function signature.shape
  | .method m => .method { m with signature := m.signature.shape }
  | .property type _ => .property type false
  | .enumType variants _ => .enumType variants false
  | payload => payload

namespace Signature

@[simp]
lemma parameterTypes_shape (s : Signature) : s.shape.parameterTypes = s.parameterTypes := by
  simp [shape, parameterTypes, Argument.withDefault, Function.comp_def]

/-- The overload key is made of parameter types, so default values do not matter. -/
@[simp]
lemma overloadKey_shape (s : Signature) : s.shape.overloadKey = s.overloadKey := by
  rw [overloadKey, overloadKey, parameterTypes_shape]
  rfl

@[simp]
lemma references_shape (s : Signature) : s.shape.references = s.references := by
  rw [references, references, parameterTypes_shape]
  rfl

@[simp]
lemma length_defaults (s : Signature) : s.defaults.length = s.arguments.length := by
  simp [defaults]

/-- Giving a signature the default values it has changes nothing. -/
@[simp]
lemma withDefaults_defaults (s : Signature) : s.withDefaults s.defaults = s := by
  obtain ⟨result, arguments, isVariadic⟩ := s
  have h : arguments.zipWith Argument.withDefault (arguments.map (·.defaultValue)) = arguments := by
    induction arguments with
    | nil => rfl
    | cons a as ih => simp [ih, Argument.withDefault]
  simp [withDefaults, defaults, h]

lemma defaults_withDefaults {s : Signature} {values : List (Option String)}
    (h : values.length = s.arguments.length) : (s.withDefaults values).defaults = values := by
  obtain ⟨result, arguments, isVariadic⟩ := s
  simp only [withDefaults, defaults] at h ⊢
  induction arguments generalizing values with
  | nil => simpa using h
  | cons a as ih =>
    cases values with
    | nil => simp at h
    | cons v vs => simpa [Argument.withDefault] using ih (by simpa using h)

/-- The shape forgets all default values, whichever they are. -/
lemma shape_withDefaults {s : Signature} {values : List (Option String)}
    (h : values.length = s.arguments.length) : (s.withDefaults values).shape = s.shape := by
  obtain ⟨result, arguments, isVariadic⟩ := s
  simp only [withDefaults, shape, Signature.mk.injEq, and_true, true_and] at h ⊢
  induction arguments generalizing values with
  | nil => simp
  | cons a as ih =>
    cases values with
    | nil => simp at h
    | cons v vs => simpa [Argument.withDefault] using ih (by simpa using h)

end Signature

namespace Decl

/-- What no edit can change about a declaration. -/
def shape (d : Decl) : Decl := ⟨d.usr, "", d.headerName, false, .isPublic, d.payload.shape⟩

/-- The default values of the arguments of a function or method. -/
def defaults? (d : Decl) : Option (List (Option String)) := d.signature?.map (·.defaults)

/-- Whether an enumeration is marked as one of flags. -/
def flags? (d : Decl) : Option Bool :=
  match d.payload with
  | .enumType _ isFlags => some isFlags
  | _ => none

/-- Whether a property is marked to be written by hand. -/
def isManual (d : Decl) : Bool :=
  match d.payload with
  | .property _ needsManual => needsManual
  | _ => false

@[simp] lemma usr_shape (d : Decl) : d.shape.usr = d.usr := rfl

@[simp] lemma headerName_shape (d : Decl) : d.shape.headerName = d.headerName := rfl

@[simp] lemma kind_shape (d : Decl) : d.shape.kind = d.kind := by
  unfold kind shape
  cases d.payload <;> rfl

@[simp] lemma isCompleteClass_shape (d : Decl) : d.shape.isCompleteClass = d.isCompleteClass := by
  unfold isCompleteClass shape
  cases d.payload <;> rfl

@[simp] lemma bases_shape (d : Decl) : d.shape.bases = d.bases := by
  unfold bases shape
  cases d.payload <;> rfl

@[simp] lemma underlying?_shape (d : Decl) : d.shape.underlying? = d.underlying? := by
  unfold underlying? shape
  cases d.payload <;> rfl

@[simp] lemma references_shape (d : Decl) : d.shape.references = d.references := by
  unfold references shape
  cases d.payload <;> simp [Payload.shape, Payload.references]

lemma signature?_shape (d : Decl) : d.shape.signature? = d.signature?.map (·.shape) := by
  unfold signature? shape
  cases d.payload <;> rfl

/-- The shape of a method keeps everything but default values. -/
lemma method?_shape (d : Decl) :
    d.shape.method? = d.method?.map fun m => { m with signature := m.signature.shape } := by
  unfold method? shape
  cases d.payload <;> rfl

/-- Exactly functions and methods have a signature. -/
lemma signature?_isSome_iff {d : Decl} : d.signature?.isSome = d.kind.isCallable := by
  unfold signature? kind
  cases d.payload <;> rfl

lemma signature?_of_method? {d : Decl} {m : Method} (h : d.method? = some m) :
    d.kind = .method ∧ d.signature? = some m.signature := by
  unfold method? at h
  unfold kind signature?
  cases hpayload : d.payload with
  | method m' =>
    rw [hpayload] at h
    cases h
    exact ⟨rfl, rfl⟩
  | _ => simp [hpayload] at h

/-- Where nothing can be called there are no default values to speak of. -/
lemma defaults?_of_not_isCallable {d : Decl} (h : ¬ d.kind.isCallable = true) :
    d.defaults? = none := by
  rw [← signature?_isSome_iff, Option.not_isSome_iff_eq_none] at h
  rw [defaults?, h, Option.map_none]

lemma flags?_of_kind_ne {d : Decl} (h : d.kind ≠ .enumType) : d.flags? = none := by
  revert h
  unfold flags? kind
  cases d.payload <;> simp [Payload.kind]

lemma isManual_of_kind_ne {d : Decl} (h : d.kind ≠ .property) : d.isManual = false := by
  revert h
  unfold isManual kind
  cases d.payload <;> simp [Payload.kind]

end Decl

/-! ## Fields -/

/-- The fields that an edit can change. -/
inductive Field where
  | name
  | ignored
  | access
  | defaults
  | flags
  | manual
  deriving DecidableEq

namespace Field

/-- All fields. -/
def all : List Field := [.name, .ignored, .access, .defaults, .flags, .manual]

lemma subset_all (fields : List Field) : fields ⊆ all := by
  intro field _
  cases field <;> decide

end Field

namespace Decl

/-- Two declarations have the same content in a field. -/
def SameIn : Field → Decl → Decl → Prop
  | .name, a, b => a.name = b.name
  | .ignored, a, b => a.ignored = b.ignored
  | .access, a, b => a.access = b.access
  | .defaults, a, b => a.defaults? = b.defaults?
  | .flags, a, b => a.flags? = b.flags?
  | .manual, a, b => a.isManual = b.isManual

lemma SameIn.refl (field : Field) (d : Decl) : SameIn field d d := by
  cases field <;> rfl

/-- Having the same content in a field is an equality, whichever the field. -/
lemma SameIn.trans {field : Field} {a b c : Decl} (hab : SameIn field a b)
    (hbc : SameIn field b c) : SameIn field a c := by
  cases field <;> exact Eq.trans hab hbc

end Decl

namespace Edit

/-- The field that an edit changes. -/
def field : Edit → Field
  | .rename _ => .name
  | .ignore => .ignored
  | .setAccess _ => .access
  | .setDefaults _ => .defaults
  | .setFlags _ => .flags
  | .requireManual => .manual

/-- An edit that gives default values gives one for each argument. -/
def Fits (edit : Edit) (d : Decl) : Prop :=
  match edit with
  | .setDefaults values => ∀ s, d.signature? = some s → values.length = s.arguments.length
  | _ => True

/-- An edit that fits leaves the shape alone, which is what the shape is for. -/
lemma shape_apply {edit : Edit} {d : Decl} (h : edit.Fits d) :
    (edit.apply d).shape = d.shape := by
  obtain ⟨usr, name, headerName, ignored, access, payload⟩ := d
  cases edit with
  | setDefaults values =>
    cases payload <;> simp_all [Fits, apply, applyPayload, Decl.shape, Payload.shape,
      Decl.signature?, Payload.signature?, Payload.withSignature, Signature.shape_withDefaults]
  | setFlags isFlags => cases payload <;> rfl
  | requireManual => cases payload <;> rfl
  | _ => rfl

/-- An edit has an effect on its own field only. -/
lemma sameIn_apply {edit : Edit} {field : Field} (h : field ≠ edit.field) (d : Decl) :
    Decl.SameIn field d (edit.apply d) := by
  obtain ⟨usr, name, headerName, ignored, access, payload⟩ := d
  cases edit <;> cases field <;>
    first
    | exact absurd rfl h
    | rfl
    | (cases payload <;> rfl)

/-- No edit brings a hidden declaration back. -/
lemma ignored_apply {edit : Edit} {d : Decl} (h : d.ignored = true) :
    (edit.apply d).ignored = true := by
  cases edit <;> first | exact h | rfl

/-- No edit takes the mark of manual work off. -/
lemma isManual_apply {edit : Edit} {d : Decl} (h : d.isManual = true) :
    (edit.apply d).isManual = true := by
  by_cases hfield : Field.manual = edit.field
  · obtain ⟨usr, name, headerName, ignored, access, payload⟩ := d
    cases edit with
    | requireManual => cases payload <;> simp_all [Decl.isManual, apply, applyPayload]
    | _ => simp [Edit.field] at hfield
  · have hsame : d.isManual = (edit.apply d).isManual := sameIn_apply hfield d
    rw [← hsame, h]

end Edit

/-! ## Changes -/

/-- A single change to a tree. -/
inductive Change where
  | insert (parent : Option Nat) (decl : Decl)
  | edit (id : Nat) (edit : Edit)
  deriving DecidableEq

namespace Tree

/-- The tree after a change.  An addition that is refused changes nothing. -/
def change (t : Tree) : Change → Tree
  | .insert parent decl =>
    match t.insert parent decl with
    | .ok u => u
    | .error _ => t
  | .edit id edit => t.edit id edit

/-- The tree after a list of changes. -/
def changed (t : Tree) (changes : List Change) : Tree := changes.foldl change t

/-- Changes can be made in portions. -/
lemma changed_append (t : Tree) (front changes : List Change) :
    t.changed (front ++ changes) = (t.changed front).changed changes := List.foldl_append

lemma change_insert_of_ok {t u : Tree} {parent : Option Nat} {decl : Decl}
    (h : t.insert parent decl = .ok u) : t.change (.insert parent decl) = u := by
  simp [change, h]

end Tree

/-! ## Developments -/

/-- `u` came of `t` by edits of the fields in `free` and by the addition of methods. -/
structure Tree.Develops (free : List Field) (t u : Tree) : Prop where
  by_changes : ∃ changes, t.changed changes = u
  size_le : t.size ≤ u.size
  parent?_eq : ∀ {id}, id < t.size → u.parent? id = t.parent? id
  shape_eq : ∀ {id}, id < t.size → (u.decl id).shape = (t.decl id).shape
  same : ∀ field ∉ free, ∀ id < t.size, (t.decl id).SameIn field (u.decl id)
  ignored_of : ∀ {id}, id < t.size → (t.decl id).ignored = true → (u.decl id).ignored = true
  manual_of : ∀ {id}, id < t.size → (t.decl id).isManual = true → (u.decl id).isManual = true
  method_of_le : ∀ {id}, t.size ≤ id → id < u.size → (u.decl id).kind = .method

namespace Tree.Develops

variable {free : List Field} {t u v : Tree} {id : Nat}

/-- Nothing has to be done for a tree to come of itself. -/
lemma refl (free : List Field) (t : Tree) : t.Develops free t where
  by_changes := ⟨[], rfl⟩
  size_le := Nat.le_refl _
  parent?_eq _ := rfl
  shape_eq _ := rfl
  same _ _ _ _ := .refl _ _
  ignored_of _ h := h
  manual_of _ h := h
  method_of_le h h' := absurd h (by omega)

/-- What is not kept out has never been. -/
lemma open_of (h : t.Develops free u) (hid : id < t.size) (hopen : (u.decl id).ignored = false) :
    (t.decl id).ignored = false := by
  by_contra hign
  rw [h.ignored_of hid (by simpa using hign)] at hopen
  exact absurd hopen (by simp)

/-- What reads the shape only reads the same. -/
lemma reads {α : Type} (h : t.Develops free u) (read : Decl → α)
    (hread : ∀ d, read d.shape = read d) (hid : id < t.size) :
    read (u.decl id) = read (t.decl id) := by
  rw [← hread, h.shape_eq hid, hread]

lemma kind_eq (h : t.Develops free u) (hid : id < t.size) :
    (u.decl id).kind = (t.decl id).kind := h.reads Decl.kind Decl.kind_shape hid

/-- What is kept by two developments is kept by both together.  Methods added by the first are still
there after the second, as kinds do not change. -/
lemma trans (htu : t.Develops free u) (huv : u.Develops free v) : t.Develops free v where
  by_changes := by
    obtain ⟨front, hfront⟩ := htu.by_changes
    obtain ⟨changes, hchanges⟩ := huv.by_changes
    exact ⟨front ++ changes, by rw [changed_append, hfront, hchanges]⟩
  size_le := Nat.le_trans htu.size_le huv.size_le
  parent?_eq hid := by rw [huv.parent?_eq (by have := htu.size_le; omega), htu.parent?_eq hid]
  shape_eq hid := by rw [huv.shape_eq (by have := htu.size_le; omega), htu.shape_eq hid]
  same field hfield id hid :=
    (htu.same field hfield id hid).trans
      (huv.same field hfield id (by have := htu.size_le; omega))
  ignored_of hid h :=
    huv.ignored_of (by have := htu.size_le; omega) (htu.ignored_of hid h)
  manual_of hid h := huv.manual_of (by have := htu.size_le; omega) (htu.manual_of hid h)
  method_of_le {id} hle hlt := by
    by_cases hid : id < u.size
    · rw [huv.kind_eq hid]
      exact htu.method_of_le hle hid
    · exact huv.method_of_le (by omega) hlt

/-- More fields may be said to change than do. -/
lemma mono {free' : List Field} (h : t.Develops free u) (hsub : free ⊆ free') :
    t.Develops free' u :=
  { h with same := fun field hfield => h.same field fun hmem => hfield (hsub hmem) }

end Tree.Develops

namespace Tree

/-- An edit changes one field of one declaration. -/
lemma sameIn_edit {field : Field} {edit : Edit} (h : field ≠ edit.field) (t : Tree)
    (id i : Nat) : (t.decl i).SameIn field ((t.edit id edit).decl i) := by
  rw [decl_edit]
  split
  · exact Edit.sameIn_apply h _
  · exact .refl _ _

/-- An edit is a development of its one field. -/
lemma develops_edit {t : Tree} {id : Nat} {edit : Edit} (hfits : edit.Fits (t.decl id)) :
    t.Develops [edit.field] (t.edit id edit) where
  by_changes := ⟨[.edit id edit], rfl⟩
  size_le := by simp
  parent?_eq _ := by simp
  shape_eq {i} hi := by
    rw [decl_edit]
    split
    · next h => exact Edit.shape_apply (h.1 ▸ hfits)
    · rfl
  same field hfield i _ := sameIn_edit (by simpa using hfield) t id i
  ignored_of _ h := by
    rw [decl_edit]
    split
    · exact Edit.ignored_apply h
    · exact h
  manual_of _ h := by
    rw [decl_edit]
    split
    · exact Edit.isManual_apply h
    · exact h
  method_of_le hle hlt := absurd hlt (by simpa using hle)

lemma develops_ignore (t : Tree) (id : Nat) : t.Develops [.ignored] (t.edit id .ignore) :=
  develops_edit (show Edit.Fits .ignore _ from trivial)

/-- The addition of a method is a development of no field. -/
lemma develops_insert {t u : Tree} {parent : Option Nat} {decl : Decl}
    (h : t.insert parent decl = .ok u) (hkind : decl.kind = .method) : t.Develops [] u where
  by_changes := ⟨[.insert parent decl], change_insert_of_ok h⟩
  size_le := by rw [size_of_insert h]; omega
  parent?_eq {id} hid := by rw [parent?_of_insert h, if_neg (by omega)]
  shape_eq {id} hid := by rw [decl_of_insert h, if_neg (by omega)]
  same _ _ id hid := by rw [decl_of_insert h, if_neg (by omega)]; exact .refl _ _
  ignored_of {id} hid hign := by rw [decl_of_insert h, if_neg (by omega)]; exact hign
  manual_of {id} hid hman := by rw [decl_of_insert h, if_neg (by omega)]; exact hman
  method_of_le {id} hle hlt := by
    rw [size_of_insert h] at hlt
    rw [decl_of_insert h, if_pos (by omega), hkind]

end Tree

/-! ## Look-ups after a development -/

namespace Tree.Develops

variable {free : List Field} {t u : Tree} {id : Nat}

/-- A declaration that is no method has been there from the start. -/
lemma lt_size_of_kind_ne (h : t.Develops free u) (hid : id < u.size)
    (hkind : (u.decl id).kind ≠ .method) : id < t.size := by
  by_contra hlt
  exact hkind (h.method_of_le (by omega) hid)

lemma get?_of_some (h : t.Develops free u) {usr : Usr} (hget : t.get? usr = some id) :
    u.get? usr = some id := by
  obtain ⟨hid, husr⟩ := get?_eq_some hget
  refine get?_eq_some_iff.2 ⟨Nat.lt_of_lt_of_le hid h.size_le, ?_⟩
  rw [h.reads Decl.usr Decl.usr_shape hid, husr]

/-- A look-up by identifier has the same answer, or it finds a new method. -/
lemma get?_cases (h : t.Develops free u) (usr : Usr) :
    u.get? usr = t.get? usr ∨
      t.get? usr = none ∧ ∃ id, u.get? usr = some id ∧ (u.decl id).kind = .method := by
  cases hget : t.get? usr with
  | some id => exact .inl (h.get?_of_some hget)
  | none =>
    cases hget' : u.get? usr with
    | none => exact .inl rfl
    | some id =>
      obtain ⟨hid, husr⟩ := get?_eq_some hget'
      refine .inr ⟨rfl, id, rfl, h.method_of_le ?_ hid⟩
      by_contra hlt
      rw [h.reads Decl.usr Decl.usr_shape (by omega)] at husr
      exact get?_eq_none_iff.1 hget id (by omega) husr

/-- The classes are the same, as only methods are added. -/
lemma class?_eq (h : t.Develops free u) (usr : Usr) : u.class? usr = t.class? usr := by
  unfold class?
  rcases h.get?_cases usr with hget | ⟨hnone, id, hget, hkind⟩
  · rw [hget]
    cases hid : t.get? usr with
    | none => rfl
    | some id => simp [Option.filter, h.kind_eq (get?_eq_some hid).1]
  · simp [hnone, hget, Option.filter, hkind]

theorem typedefTarget?_eq (h : t.Develops free u) (type : QualType) :
    u.typedefTarget? type = t.typedefTarget? type := by
  unfold typedefTarget? declared?
  cases type.declared? with
  | none => rfl
  | some usr =>
    simp only [Option.bind_some]
    rcases h.get?_cases usr with hget | ⟨hnone, id, hget, hkind⟩
    · rw [hget]
      cases hid : t.get? usr with
      | none => rfl
      | some id =>
        have := h.reads Decl.underlying? Decl.underlying?_shape (get?_eq_some hid).1
        simpa using this
    · have hmethod : (u.decl id).underlying? = none := by
        revert hkind
        unfold Decl.kind Decl.underlying?
        cases (u.decl id).payload <;> simp [Payload.kind]
      simp [hnone, hget, hmethod]

/-- A chain of typedefs leads to the same end, since its links are looked up by identifier. -/
lemma follow_eq (h : t.Develops free u) (steps : Nat) (type : QualType) :
    u.follow steps type = t.follow steps type := by
  induction steps generalizing type with
  | zero => rfl
  | succ steps ih =>
    simp only [follow, h.typedefTarget?_eq]
    cases t.typedefTarget? type with
    | none => rfl
    | some next => exact ih next

lemma behindTypedefs_eq (h : t.Develops free u) (type : QualType) :
    u.behindTypedefs type = t.behindTypedefs type := by
  simp only [behindTypedefs, h.follow_eq]

theorem classBehind_eq (h : t.Develops free u) (type : QualType) :
    u.classBehind type = t.classBehind type := by
  have hclass : ∀ target : QualType,
      ((target.declared?.bind u.get?).filter fun id => (u.decl id).kind = .classType) =
        (target.declared?.bind t.get?).filter fun id => (t.decl id).kind = .classType := by
    intro target
    cases target.declared? with
    | none => rfl
    | some usr => exact h.class?_eq usr
  simp only [classBehind, h.behindTypedefs_eq, hclass]

/-- What is opaque after a development has been so before: a new method may come to be what an
identifier names that named nothing. -/
lemma isOpaque_of (h : t.Develops free u) {type : QualType}
    (hunknown : (u.isOpaque type).value = true) : (t.isOpaque type).value = true := by
  simp only [isOpaque, h.behindTypedefs_eq, Logged.value_bind, Logged.value_pure] at hunknown ⊢
  generalize (t.behindTypedefs type).value = resolved at hunknown ⊢
  cases hdeclared : resolved.declared? with
  | none => simpa [hdeclared] using hunknown
  | some usr =>
    rcases h.get?_cases usr with hget | ⟨hnone, id, hget, hkind⟩
    · cases hid : t.get? usr with
      | none => simp [hid]
      | some id =>
        have hlt := (get?_eq_some hid).1
        have hcomplete := h.reads Decl.isCompleteClass Decl.isCompleteClass_shape hlt
        simpa [hdeclared, hget, hid, h.kind_eq hlt, hcomplete] using hunknown
    · simp [hnone]

theorem lineage_eq (h : t.Develops free u) (hid : id < t.size) : u.lineage id = t.lineage id :=
  lineage_congr fun _ he => h.parent?_eq (Nat.lt_of_le_of_lt (le_of_mem_lineage he) hid)

lemma inNamespaceScope_eq (h : t.Develops free u) (hid : id < t.size) :
    u.inNamespaceScope id = t.inNamespaceScope id := by
  unfold inNamespaceScope
  rw [h.parent?_eq hid]
  cases hp : t.parent? id with
  | none => rfl
  | some p => simp [h.kind_eq (Nat.lt_trans (parent?_lt hp) hid)]

/-- Unless access levels change, nothing becomes visible. -/
lemma isVisible_of (h : t.Develops free u) (hfree : .access ∉ free) (hid : id < t.size)
    (hvisible : u.isVisible id = true) : t.isVisible id = true := by
  rw [isVisible, h.lineage_eq hid, List.all_eq_true] at hvisible
  rw [isVisible, List.all_eq_true]
  intro i hi
  have hlt : i < t.size := Nat.lt_of_le_of_lt (le_of_mem_lineage hi) hid
  have hexposed := hvisible i hi
  have haccess : (t.decl i).access = (u.decl i).access := h.same .access hfree i hlt
  simp only [Decl.isExposed, Bool.and_eq_true, Bool.not_eq_true', decide_eq_true_eq] at hexposed ⊢
  exact ⟨h.open_of hlt hexposed.1, haccess.trans hexposed.2⟩

/-- Without new declarations every place is as it was. -/
lemma parent?_eq_of_size_eq (h : t.Develops free u) (hsize : u.size = t.size) (id : Nat) :
    u.parent? id = t.parent? id := by
  by_cases hid : id < t.size
  · exact h.parent?_eq hid
  · rw [parent?_of_size_le (by omega), parent?_of_size_le (by omega)]

/-- Unless names change, everything is called as it was. -/
lemma qualifiedName_eq (h : t.Develops free u) (hsize : u.size = t.size) (hname : .name ∉ free)
    (id : Nat) : u.qualifiedName id = t.qualifiedName id := by
  refine qualifiedName_congr (lineage_congr fun e _ => h.parent?_eq_of_size_eq hsize e)
    fun e _ => ?_
  by_cases he : e < t.size
  · exact ⟨h.kind_eq he, (h.same .name hname e he).symm⟩
  · rw [decl_of_size_le (Nat.le_of_not_lt he), decl_of_size_le (hsize ▸ Nat.le_of_not_lt he)]
    exact ⟨rfl, rfl⟩

/-- Without new declarations a scope has the same children. -/
lemma children_eq (h : t.Develops free u) (hsize : u.size = t.size) (id : Nat) :
    u.children id = t.children id := by
  rw [children, children, hsize]
  refine List.filter_congr fun c hc => ?_
  rw [h.parent?_eq (by have := List.mem_range'_1.1 hc; omega)]

end Tree.Develops

end Bindery
