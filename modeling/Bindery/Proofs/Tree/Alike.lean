import Mathlib.Data.Set.Basic
import Bindery.Proofs.Selection

/-!
# Trees that are alike

Two trees that have come of one tree can have the same declarations and differ in what edits have
made of them.  `origin.Alike region t u` says that they do not differ in the fields of a region.

Everything that is read off shapes and places is then the same in both trees, whatever the region;
and the same edit or addition leaves them alike (`Alike.edit`, `Alike.insert`).  Trees that are alike
everywhere are equal (`Alike.eq`).
-/

namespace Bindery

/-- Fields of declarations, by the kind of the declaration. -/
abbrev Region := Set (Field × Kind)

/-- Some fields, whatever the kind of the declaration. -/
def Region.ofFields (fields : List Field) : Region := {x | x.1 ∈ fields}

@[simp]
lemma Region.mem_ofFields_iff {fields : List Field} {x : Field × Kind} :
    x ∈ ofFields fields ↔ x.1 ∈ fields := Iff.rfl

/-! ## Shape and fields make a declaration -/

lemma Decl.SameIn.symm {field : Field} {a b : Decl} (h : SameIn field a b) : SameIn field b a := by
  cases field <;> exact Eq.symm h

namespace Signature

/-- Giving default values overwrites all that the shape has lost. -/
@[simp]
lemma withDefaults_shape (s : Signature) (values : List (Option String)) :
    s.shape.withDefaults values = s.withDefaults values := by
  simp only [withDefaults, shape, List.zipWith_map_left]
  rfl

/-- A signature is its shape with its default values. -/
lemma eq_of_shape {a b : Signature} (hshape : a.shape = b.shape)
    (hdefaults : a.defaults = b.defaults) : a = b := by
  calc a = a.shape.withDefaults a.defaults := by simp
    _ = b.shape.withDefaults b.defaults := by rw [hshape, hdefaults]
    _ = b := by simp

end Signature

namespace Decl

variable {a b : Decl}

lemma signature?_eq_of_shape (hshape : a.shape = b.shape) (hdefaults : SameIn .defaults a b) :
    a.signature? = b.signature? := by
  have hsignature := congrArg signature? hshape
  have hvalues : a.defaults? = b.defaults? := hdefaults
  rw [signature?_shape, signature?_shape] at hsignature
  unfold defaults? at hvalues
  cases ha : a.signature? with
  | none => simpa [ha, eq_comm] using hvalues
  | some s =>
    cases hb : b.signature? with
    | none => simp [ha, hb] at hvalues
    | some s' =>
      simp only [ha, hb, Option.map_some, Option.some.injEq] at hvalues hsignature
      rw [Signature.eq_of_shape hsignature hvalues]

/-- The payload is its shape with the default values, the mark of flags and that of manual work. -/
lemma payload_eq_of_shape (hshape : a.shape = b.shape) (hdefaults : SameIn .defaults a b)
    (hflags : SameIn .flags a b) (hmanual : SameIn .manual a b) : a.payload = b.payload := by
  have hsignature := signature?_eq_of_shape hshape hdefaults
  have hpayload : a.payload.shape = b.payload.shape := congrArg payload hshape
  revert hpayload hsignature hflags hmanual
  simp only [SameIn, flags?, isManual, signature?]
  cases a.payload <;> cases b.payload <;>
    simp +contextual [Payload.shape, Payload.signature?]
  rename_i m m'
  cases m
  cases m'
  simp +contextual

/-- Two declarations are the same if they have the same shape and the same content in each
field. -/
lemma eq_of_shape (hshape : a.shape = b.shape) (hsame : ∀ field, SameIn field a b) : a = b := by
  have hpayload := payload_eq_of_shape hshape (hsame .defaults) (hsame .flags) (hsame .manual)
  have husr : a.usr = b.usr := by simpa using congrArg usr hshape
  have hheader : a.headerName = b.headerName := by simpa using congrArg headerName hshape
  have hname : a.name = b.name := hsame .name
  have hignored : a.ignored = b.ignored := hsame .ignored
  have haccess : a.access = b.access := hsame .access
  cases a
  cases b
  simp_all

lemma kind_eq_of_shape (hshape : a.shape = b.shape) : a.kind = b.kind := by
  simpa using congrArg kind hshape

/-- Only callables have default values, only enumerations a mark as flags, and only properties a
mark as hand-written. -/
def HasField (kind : Kind) : Field → Prop
  | .defaults => kind.isCallable = true
  | .flags => kind = .enumType
  | .manual => kind = .property
  | _ => True

/-- Declarations of one kind cannot differ in a field that the kind does not have. -/
lemma sameIn_of_not_hasField {field : Field} (hkind : a.kind = b.kind)
    (hfield : ¬ HasField a.kind field) : SameIn field a b := by
  cases field with
  | defaults =>
    exact (defaults?_of_not_isCallable hfield).trans
      (defaults?_of_not_isCallable (hkind ▸ hfield)).symm
  | flags => exact (flags?_of_kind_ne hfield).trans (flags?_of_kind_ne (hkind ▸ hfield)).symm
  | manual => exact (isManual_of_kind_ne hfield).trans (isManual_of_kind_ne (hkind ▸ hfield)).symm
  | _ => exact absurd trivial hfield

end Decl

namespace Edit

variable {edit : Edit} {a b : Decl}

/-- Whether default values fit depends on the number of arguments, which the shape has. -/
lemma Fits.of_shape (h : edit.Fits a) (hshape : a.shape = b.shape) : edit.Fits b := by
  cases edit with
  | setDefaults values =>
    intro s hs
    have hsignature := congrArg Decl.signature? hshape
    rw [Decl.signature?_shape, Decl.signature?_shape, hs] at hsignature
    obtain ⟨s', hs', hsame⟩ := Option.map_eq_some_iff.1 hsignature
    have hlength := congrArg (fun s : Signature => s.arguments.length) hsame
    simp only [Signature.shape, List.length_map] at hlength
    rw [h s' hs', hlength]
  | _ => trivial

/-- Default values can be given to functions and methods only. -/
lemma defaults?_setDefaults {values : List (Option String)}
    (hfits : Fits (.setDefaults values) a) :
    (apply (.setDefaults values) a).defaults? =
      if a.kind.isCallable = true then some values else none := by
  revert hfits
  unfold Fits apply applyPayload Decl.defaults? Decl.signature? Decl.kind
  cases a.payload <;> simp +contextual [Payload.signature?, Payload.withSignature, Payload.kind,
    Kind.isCallable, Signature.defaults_withDefaults]

lemma flags?_setFlags (isFlags : Bool) (a : Decl) :
    (apply (.setFlags isFlags) a).flags? = if a.kind = .enumType then some isFlags else none := by
  unfold apply applyPayload Decl.flags? Decl.kind
  cases a.payload <;> simp [Payload.kind]

lemma isManual_requireManual (a : Decl) :
    (apply .requireManual a).isManual = decide (a.kind = .property) := by
  unfold apply applyPayload Decl.isManual Decl.kind
  cases a.payload <;> simp [Payload.kind]

/-- What an edit puts in its field depends on the kind only. -/
lemma sameIn_field_apply (hfits : edit.Fits a) (hfits' : edit.Fits b) (hkind : a.kind = b.kind) :
    Decl.SameIn edit.field (edit.apply a) (edit.apply b) := by
  cases edit with
  | setDefaults values =>
    exact (defaults?_setDefaults hfits).trans (hkind ▸ (defaults?_setDefaults hfits').symm)
  | setFlags isFlags => exact (flags?_setFlags isFlags a).trans (hkind ▸ (flags?_setFlags _ b).symm)
  | requireManual => exact (isManual_requireManual a).trans (hkind ▸ (isManual_requireManual b).symm)
  | _ => rfl

/-- The same edit leads to the same content of a field if that is the field it sets, or the contents
were the same before. -/
lemma sameIn_apply_apply {field : Field} (hfits : edit.Fits a) (hshape : a.shape = b.shape)
    (hsame : field ≠ edit.field → Decl.SameIn field a b) :
    Decl.SameIn field (edit.apply a) (edit.apply b) := by
  by_cases hfield : field = edit.field
  · rw [hfield]
    exact sameIn_field_apply hfits (hfits.of_shape hshape) (Decl.kind_eq_of_shape hshape)
  · have ha := sameIn_apply hfield a
    have hb := sameIn_apply hfield b
    exact ha.symm.trans ((hsame hfield).trans hb)

end Edit

/-! ## Two developments of one tree -/

/-- Two trees that have come of one tree, with the same declarations in the same places.  Their
fields have the same content wherever the region has them. -/
structure Tree.Alike (origin : Tree) (region : Region) (t u : Tree) : Prop where
  left : origin.Develops Field.all t
  right : origin.Develops Field.all u
  size_eq : u.size = t.size
  parent?_eq : ∀ id, u.parent? id = t.parent? id
  shape_eq : ∀ id, (u.decl id).shape = (t.decl id).shape
  same : ∀ field id, (field, (t.decl id).kind) ∈ region → (t.decl id).SameIn field (u.decl id)

namespace Tree

variable {origin s t u v : Tree} {region region' : Region}

/-- A development without new declarations leaves the tree alike but for the free fields. -/
lemma Develops.alike {free : List Field} (h : t.Develops free u) (hsize : u.size = t.size) :
    t.Alike (Region.ofFields free)ᶜ t u where
  left := .refl _ t
  right := h.mono (Field.subset_all _)
  size_eq := hsize
  parent?_eq := h.parent?_eq_of_size_eq hsize
  shape_eq id := by
    by_cases hid : id < t.size
    · exact h.shape_eq hid
    · rw [decl_of_size_le (by omega), decl_of_size_le (by omega)]
  same field id hfield := by
    by_cases hid : id < t.size
    · exact h.same field hfield id hid
    · rw [decl_of_size_le (t := t) (by omega), decl_of_size_le (t := u) (by omega)]
      exact .refl _ _

namespace Alike

/-- What is read off the shape reads the same in both. -/
lemma reads {α : Type} (h : origin.Alike region t u) (read : Decl → α)
    (hread : ∀ d, read d.shape = read d) (id : Nat) : read (u.decl id) = read (t.decl id) := by
  rw [← hread, h.shape_eq, hread]

lemma kind_eq (h : origin.Alike region t u) (id : Nat) : (u.decl id).kind = (t.decl id).kind :=
  h.reads Decl.kind Decl.kind_shape id

lemma symm (h : origin.Alike region t u) : origin.Alike region u t where
  left := h.right
  right := h.left
  size_eq := h.size_eq.symm
  parent?_eq id := (h.parent?_eq id).symm
  shape_eq id := (h.shape_eq id).symm
  same field id hregion := (h.same field id (by rwa [← h.kind_eq])).symm

lemma trans (htu : origin.Alike region t u) (huv : origin.Alike region u v) :
    origin.Alike region t v where
  left := htu.left
  right := huv.right
  size_eq := huv.size_eq.trans htu.size_eq
  parent?_eq id := (huv.parent?_eq id).trans (htu.parent?_eq id)
  shape_eq id := (huv.shape_eq id).trans (htu.shape_eq id)
  same field id hregion :=
    (htu.same field id hregion).trans (huv.same field id (by rwa [htu.kind_eq]))

lemma mono (h : origin.Alike region t u) (hsub : region' ⊆ region) : origin.Alike region' t u :=
  { h with same := fun field id hregion => h.same field id (hsub hregion) }

/-- What the trees have come of can be taken further back. -/
lemma rebase (h : s.Alike region t u) (horigin : origin.Develops Field.all s) :
    origin.Alike region t u :=
  { h with left := horigin.trans h.left, right := horigin.trans h.right }

/-- Agreement can be put together from regions. -/
lemma union (h : origin.Alike region t u) (h' : origin.Alike region' t u) :
    origin.Alike (region ∪ region') t u :=
  { h with same := fun field id hregion => hregion.elim (h.same field id) (h'.same field id) }

/-- Trees that are alike everywhere are equal. -/
theorem eq (h : origin.Alike Set.univ t u) : t = u :=
  ext_reads h.size_eq.symm (fun id _ => (h.parent?_eq id).symm) fun id _ =>
    Decl.eq_of_shape (h.shape_eq id).symm fun field => h.same field id (Set.mem_univ _)

/-- The content of the fields that a declaration has is all that has to be looked at. -/
lemma sameIn (h : origin.Alike region t u) {field : Field} {id : Nat}
    (hregion : Decl.HasField (t.decl id).kind field → (field, (t.decl id).kind) ∈ region) :
    (t.decl id).SameIn field (u.decl id) := by
  by_cases hfield : Decl.HasField (t.decl id).kind field
  · exact h.same field id (hregion hfield)
  · exact Decl.sameIn_of_not_hasField (h.kind_eq id).symm hfield

/-- Two payloads are equal if the region covers the fields of a payload. -/
lemma payload_eq (h : origin.Alike region t u) {id : Nat}
    (hregion : ∀ field ∈ [.defaults, .flags, .manual], Decl.HasField (t.decl id).kind field →
      (field, (t.decl id).kind) ∈ region) : (u.decl id).payload = (t.decl id).payload :=
  (Decl.payload_eq_of_shape (h.shape_eq id).symm (h.sameIn (hregion .defaults (by simp)))
    (h.sameIn (hregion .flags (by simp))) (h.sameIn (hregion .manual (by simp)))).symm

/-! ## Looking things up -/

lemma get?_eq (h : origin.Alike region t u) (usr : Usr) : u.get? usr = t.get? usr := by
  ext id
  rw [get?_eq_some_iff, get?_eq_some_iff, h.size_eq, h.reads Decl.usr Decl.usr_shape]

lemma children_eq (h : origin.Alike region t u) (id : Nat) : u.children id = t.children id := by
  rw [children, children, h.size_eq]
  exact List.filter_congr fun c _ => by rw [h.parent?_eq]

lemma childrenOfKind_eq (h : origin.Alike region t u) (id : Nat) (kind : Kind) :
    u.childrenOfKind id kind = t.childrenOfKind id kind := by
  rw [childrenOfKind, childrenOfKind, h.children_eq]
  exact List.filter_congr fun c _ => by rw [h.kind_eq]

lemma ids_eq (h : origin.Alike region t u) : u.ids = t.ids := by rw [ids, ids, h.size_eq]

/-- Both trees are walked in the same order, as parents are the same in both. -/
lemma walk_eq (h : origin.Alike region t u) : u.walk = t.walk := by
  have hunits : u.translationUnits = t.translationUnits := by
    rw [translationUnits, translationUnits, h.ids_eq]
    exact List.filter_congr fun id _ => by rw [h.parent?_eq]
  have hsubtree : ∀ id, u.subtree id = t.subtree id := by
    intro id
    induction id using subtree.induct t with
    | case1 id ih =>
      rw [subtree_eq, subtree_eq, descendants, descendants, h.children_eq]
      rw [List.flatMap_def, List.flatMap_def, List.map_congr_left fun c hc => ih c hc]
  rw [walk, walk, hunits, funext hsubtree]

/-- The lineages are the same, since no development moves a declaration. -/
lemma lineage_eq (h : origin.Alike region t u) (id : Nat) : u.lineage id = t.lineage id :=
  lineage_congr fun e _ => h.parent?_eq e

lemma inNamespaceScope_eq (h : origin.Alike region t u) (id : Nat) :
    u.inNamespaceScope id = t.inNamespaceScope id := by
  rw [inNamespaceScope, inNamespaceScope, h.parent?_eq]
  simp only [h.kind_eq]

lemma declaredAs_eq (h : origin.Alike region t u) (name : String) :
    u.declaredAs name = t.declaredAs name := by
  rw [declaredAs, declaredAs, h.ids_eq]
  exact List.filter_congr fun id _ => by rw [h.reads Decl.headerName Decl.headerName_shape]

/-- Typedefs lead to the same types in both, messages included. -/
lemma behindTypedefs_eq (h : origin.Alike region t u) (type : QualType) :
    u.behindTypedefs type = t.behindTypedefs type := by
  rw [h.right.behindTypedefs_eq, h.left.behindTypedefs_eq]

lemma isOpaque_eq (h : origin.Alike region t u) (type : QualType) :
    u.isOpaque type = t.isOpaque type := by
  unfold isOpaque
  simp only [h.behindTypedefs_eq, h.get?_eq, h.kind_eq,
    h.reads Decl.isCompleteClass Decl.isCompleteClass_shape]

/-- The signature of a declaration whose default values are in the region. -/
lemma signature?_eq (h : origin.Alike region t u) {id : Nat}
    (hregion : (.defaults, (t.decl id).kind) ∈ region) :
    (u.decl id).signature? = (t.decl id).signature? :=
  (Decl.signature?_eq_of_shape (h.shape_eq id).symm (h.same .defaults id hregion)).symm

lemma ignored_eq (h : origin.Alike region t u) {id : Nat}
    (hregion : (.ignored, (t.decl id).kind) ∈ region) :
    (u.decl id).ignored = (t.decl id).ignored :=
  Eq.symm (h.same .ignored id hregion)

lemma name_eq (h : origin.Alike region t u) {id : Nat}
    (hregion : (.name, (t.decl id).kind) ∈ region) : (u.decl id).name = (t.decl id).name :=
  Eq.symm (h.same .name id hregion)

lemma access_eq (h : origin.Alike region t u) {id : Nat}
    (hregion : (.access, (t.decl id).kind) ∈ region) : (u.decl id).access = (t.decl id).access :=
  Eq.symm (h.same .access id hregion)

/-! ## Changing both -/

/-- The same edit leaves alike trees alike. -/
theorem edit (h : origin.Alike region t u) {id : Nat} {edit : Edit}
    (hfits : edit.Fits (t.decl id)) : origin.Alike region (t.edit id edit) (u.edit id edit) where
  left := h.left.trans ((develops_edit hfits).mono (Field.subset_all _))
  right := h.right.trans
    ((develops_edit (hfits.of_shape (h.shape_eq id).symm)).mono (Field.subset_all _))
  size_eq := by rw [size_edit, size_edit, h.size_eq]
  parent?_eq i := by rw [parent?_edit, parent?_edit, h.parent?_eq]
  shape_eq i := by
    rw [decl_edit, decl_edit, h.size_eq]
    split
    · next hi =>
      obtain ⟨rfl, -⟩ := hi
      rw [Edit.shape_apply hfits, Edit.shape_apply (hfits.of_shape (h.shape_eq id).symm),
        h.shape_eq]
    · exact h.shape_eq i
  same field i hregion := by
    have hkind : ((t.edit id edit).decl i).kind = (t.decl i).kind := by
      rw [decl_edit]
      split <;> simp
    rw [hkind] at hregion
    rw [decl_edit, decl_edit, h.size_eq]
    split
    · next hi =>
      obtain ⟨rfl, -⟩ := hi
      exact Edit.sameIn_apply_apply hfits (h.shape_eq id).symm fun _ => h.same field id hregion
    · exact h.same field i hregion

/-- The same method can be added to alike trees, and leaves them alike. -/
theorem insert (h : origin.Alike region t u) {parent : Option Nat} {decl : Decl}
    (hkind : decl.kind = .method) {grown : Tree} (hgrown : t.insert parent decl = .ok grown) :
    ∃ grown', u.insert parent decl = .ok grown' ∧ origin.Alike region grown grown' := by
  obtain ⟨hplace, hfresh, -⟩ := insert_eq_ok_iff.1 hgrown
  have hplace' : u.admits parent decl.kind = true := by
    rw [admits_iff] at hplace ⊢
    simpa only [h.size_eq, h.kind_eq] using hplace
  obtain ⟨grown', hgrown'⟩ := exists_insert_eq_ok hplace' ((h.get?_eq _).trans hfresh)
  refine ⟨grown', hgrown', ?_⟩
  exact
    { left := h.left.trans ((develops_insert hgrown hkind).mono (Field.subset_all _))
      right := h.right.trans ((develops_insert hgrown' hkind).mono (Field.subset_all _))
      size_eq := by rw [size_of_insert hgrown, size_of_insert hgrown', h.size_eq]
      parent?_eq := fun id => by
        rw [parent?_of_insert hgrown, parent?_of_insert hgrown', h.size_eq, h.parent?_eq]
      shape_eq := fun id => by
        rw [decl_of_insert hgrown, decl_of_insert hgrown', h.size_eq]
        split
        · rfl
        · exact h.shape_eq id
      same := fun field id hregion => by
        rw [decl_of_insert hgrown] at hregion
        rw [decl_of_insert hgrown, decl_of_insert hgrown', h.size_eq]
        split
        · exact .refl _ _
        · next hne =>
          rw [if_neg hne] at hregion
          exact h.same field id hregion }

end Alike

end Tree

end Bindery
