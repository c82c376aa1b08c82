import Bindery.Proofs.FirstFailing
import Bindery.Proofs.Tree.Reloading

/-!
# Which documents are those of trees

What the nodes of a document say about their places can be said without building a tree: `placements`
lists them in the order in which they are added, each with the kind of the node around it and with
the identifier it gets.  A tree comes about if and only if each placement has the fields that its
kind needs and stands where its kind may stand, and no two have the same identifier (`WellPlaced`).
The nodes of that tree are those of the document, with all identifiers written out and without the
fields that do not belong to their kind (`DeclNode.resolved`).

Otherwise loading fails on the first placement that does not fit behind those before it
(`FirstOffence`).  Adding nodes does one or the other (`addsOrFails_insertNode`), and never both
(`FirstOffence.not_wellPlaced`, `FirstOffence.unique`).
-/

namespace Bindery

/-! ## Records -/

/-- The field that a declaration of a kind cannot do without. -/
def Kind.neededField? : Kind → Option RequiredField
  | .function | .method => some .result
  | .property | .typedef | .globalVariable => some .type
  | _ => none

/-- Whether a declaration of a kind has a type of its own. -/
def Kind.isTyped (kind : Kind) : Bool := kind.neededField? = some .type

namespace DeclRecord

/-- A field that the kind of the record needs is not there. -/
def Lacks (r : DeclRecord) (field : RequiredField) : Prop :=
  r.kind.neededField? = some field ∧
    match field with
    | .result => r.result = none
    | .type => r.type = none

instance (r : DeclRecord) : (field : RequiredField) → Decidable (r.Lacks field)
  | .result => inferInstanceAs (Decidable (_ ∧ r.result = none))
  | .type => inferInstanceAs (Decidable (_ ∧ r.type = none))

instance (r : DeclRecord) : Decidable (∀ field, ¬ r.Lacks field) :=
  decidable_of_iff (¬ r.Lacks .result ∧ ¬ r.Lacks .type)
    ⟨fun h field => by cases field <;> simp_all, fun h => ⟨h _, h _⟩⟩

/-- The identifier of a record below a declaration with the identifier `scope`. -/
def usrBelow (r : DeclRecord) (scope : Option Usr) : Usr :=
  match r.usr, r.kind, scope with
  | some usr, _, _ => usr
  | none, .translationUnit, _ => ⟨"tu:" ++ r.name⟩
  | none, _, some scope => ⟨scope.text ++ "@" ++ r.headerName⟩
  | none, _, none => ⟨r.headerName⟩

/-- The record with its identifier written out, without the name in the header if that is the name,
and without the fields that do not belong to its kind. -/
def resolved (r : DeclRecord) (usr : Usr) : DeclRecord where
  kind := r.kind
  name := r.name
  usr := some usr
  givenHeaderName := if r.headerName = r.name then none else some r.headerName
  ignored := r.ignored
  access := r.access
  isComplete := r.isComplete || r.kind ≠ .classType
  bases := if r.kind = .classType then r.bases else []
  result := if r.kind.isCallable then r.result else none
  arguments := if r.kind.isCallable then r.arguments else []
  isVariadic := r.kind.isCallable && r.isVariadic
  isVirtual := r.kind = .method && r.isVirtual
  isStatic := r.kind = .method && r.isStatic
  receiver := if r.kind = .method then r.receiver else none
  promotedFrom := if r.kind = .method then r.promotedFrom else none
  type := if r.kind.isTyped then r.type else none
  needsManual := r.kind = .property && r.needsManual
  variants := if r.kind = .enumType then r.variants else []
  isFlags := r.kind = .enumType && r.isFlags

/-- A record that lacks no field can be made into a declaration, whose record is the resolved
one. -/
lemma toDecl_cases (r : DeclRecord) (usr : Usr) :
    (∃ d, r.toDecl usr = .ok d ∧ (∀ field, ¬ r.Lacks field) ∧ d.usr = usr ∧ d.kind = r.kind ∧
      d.name = r.name ∧ ofDecl d = r.resolved usr) ∨
      ∃ field, r.Lacks field ∧ r.toDecl usr = .error (.missingField r.kind r.name field) := by
  unfold toDecl payload signature needed Lacks resolved
  cases hkind : r.kind with
  | function | method =>
    cases hresult : r.result with
    | none => exact .inr ⟨.result, ⟨rfl, rfl⟩, rfl⟩
    | some result =>
      refine .inl ⟨_, rfl, ?_, rfl, rfl, rfl, ?_⟩
      · rintro field ⟨⟨⟩, hmissing⟩
        exact absurd hmissing (by simp)
      · simp [ofDecl, bare, Decl.kind, Payload.kind, Kind.isCallable, Kind.isTyped,
          Kind.neededField?]
  | property | typedef | globalVariable =>
    cases htype : r.type with
    | none => exact .inr ⟨.type, ⟨rfl, rfl⟩, rfl⟩
    | some type =>
      refine .inl ⟨_, rfl, ?_, rfl, rfl, rfl, ?_⟩
      · rintro field ⟨⟨⟩, hmissing⟩
        exact absurd hmissing (by simp)
      · simp [ofDecl, bare, Decl.kind, Payload.kind, Kind.isCallable, Kind.isTyped,
          Kind.neededField?]
  | _ =>
    refine .inl ⟨_, rfl, fun field hfield => absurd hfield.1 (by simp [Kind.neededField?]), rfl,
      rfl, rfl, ?_⟩
    simp [ofDecl, bare, Decl.kind, Payload.kind, Kind.isCallable, Kind.isTyped, Kind.neededField?]

end DeclRecord

/-! ## Nodes -/

/-- A record at its place: with the kind of the declaration around it and its own identifier. -/
structure Placement where
  scope : Option Kind
  usr : Usr
  record : DeclRecord

namespace DeclNode

mutual

/-- The placements of a node and of all nodes inside it, in the order in which they are added. -/
def placements (scope : Option (Kind × Usr)) : DeclNode → List Placement
  | .mk r children =>
    ⟨scope.map (·.1), r.usrBelow (scope.map (·.2)), r⟩ ::
      listPlacements (some (r.kind, r.usrBelow (scope.map (·.2)))) children

/-- The placements of the nodes in a list. -/
def listPlacements (scope : Option (Kind × Usr)) : List DeclNode → List Placement
  | [] => []
  | node :: nodes => placements scope node ++ listPlacements scope nodes

end

mutual

/-- The node with all its records resolved. -/
def resolved (scope : Option Usr) : DeclNode → DeclNode
  | .mk r children =>
    .mk (r.resolved (r.usrBelow scope)) (listResolved (some (r.usrBelow scope)) children)

/-- The nodes in a list with all their records resolved. -/
def listResolved (scope : Option Usr) : List DeclNode → List DeclNode
  | [] => []
  | node :: nodes => resolved scope node :: listResolved scope nodes

end

end DeclNode

/-! ## Placements -/

section Placements

variable {taken : List Usr} {front rest placements : List Placement} {p : Placement}
  {e e' : TreeError}

/-- Each placement has what its kind needs and stands where its kind may stand; the identifiers are
different from each other and from those that are taken. -/
structure WellPlaced (taken : List Usr) (placements : List Placement) : Prop where
  complete : ∀ p ∈ placements, ∀ field, ¬ p.record.Lacks field
  stands : ∀ p ∈ placements, Kind.canContain p.scope p.record.kind = true
  nodup : (placements.map (·.usr)).Nodup
  fresh : ∀ p ∈ placements, p.usr ∉ taken

instance : Decidable (WellPlaced taken placements) :=
  decidable_of_iff ((∀ p ∈ placements, ∀ field, ¬ p.record.Lacks field) ∧
      (∀ p ∈ placements, Kind.canContain p.scope p.record.kind = true) ∧
      (placements.map (·.usr)).Nodup ∧ ∀ p ∈ placements, p.usr ∉ taken)
    ⟨fun ⟨hcomplete, hstands, hnodup, hfresh⟩ => ⟨hcomplete, hstands, hnodup, hfresh⟩,
      fun ⟨hcomplete, hstands, hnodup, hfresh⟩ => ⟨hcomplete, hstands, hnodup, hfresh⟩⟩

/-- What is wrong with a placement; what comes first is looked at first. -/
inductive Placement.Offends (taken : List Usr) (p : Placement) : TreeError → Prop where
  | missingField {field : RequiredField} (hlacks : p.record.Lacks field) :
      p.Offends taken (.missingField p.record.kind p.record.name field)
  | invalidParent (hcomplete : ∀ field, ¬ p.record.Lacks field)
      (hstands : Kind.canContain p.scope p.record.kind = false) :
      p.Offends taken (.invalidParent p.scope p.record.kind p.record.name)
  | duplicateUsr (hcomplete : ∀ field, ¬ p.record.Lacks field)
      (hstands : Kind.canContain p.scope p.record.kind = true) (htaken : p.usr ∈ taken) :
      p.Offends taken (.duplicateUsr p.usr)

/-- The first placement that does not fit behind those before it has the fault `e`. -/
def FirstOffence (taken : List Usr) (placements : List Placement) (e : TreeError) : Prop :=
  ∃ front p rest, placements = front ++ p :: rest ∧ WellPlaced taken front ∧
    p.Offends (taken ++ front.map (·.usr)) e

lemma DeclRecord.lacks_unique {r : DeclRecord} {field field' : RequiredField} (h : r.Lacks field)
    (h' : r.Lacks field') : field = field' := Option.some.inj (h.1.symm.trans h'.1)

lemma Placement.Offends.unique (h : p.Offends taken e) (h' : p.Offends taken e') : e = e' := by
  cases h with
  | missingField hlacks =>
    cases h' with
    | missingField hlacks' => rw [DeclRecord.lacks_unique hlacks hlacks']
    | invalidParent hcomplete => exact absurd hlacks (hcomplete _)
    | duplicateUsr hcomplete => exact absurd hlacks (hcomplete _)
  | invalidParent hcomplete hstands =>
    cases h' with
    | missingField hlacks => exact absurd hlacks (hcomplete _)
    | invalidParent => rfl
    | duplicateUsr _ hstands' => simp [hstands] at hstands'
  | duplicateUsr hcomplete hstands =>
    cases h' with
    | missingField hlacks => exact absurd hlacks (hcomplete _)
    | invalidParent _ hstands' => simp [hstands] at hstands'
    | duplicateUsr => rfl

namespace WellPlaced

lemma nil (taken : List Usr) : WellPlaced taken [] := ⟨by simp, by simp, by simp, by simp⟩

lemma append_iff : WellPlaced taken (front ++ rest) ↔
    WellPlaced taken front ∧ WellPlaced (taken ++ front.map (·.usr)) rest := by
  constructor
  · rintro ⟨hcomplete, hstands, hnodup, hfresh⟩
    rw [List.forall_mem_append] at hcomplete hstands hfresh
    rw [List.map_append, List.nodup_append] at hnodup
    obtain ⟨hfront, hrest, hdisjoint⟩ := hnodup
    refine ⟨⟨hcomplete.1, hstands.1, hfront, hfresh.1⟩, hcomplete.2, hstands.2, hrest, ?_⟩
    intro p hp hmem
    rcases List.mem_append.1 hmem with hmem | hmem
    · exact hfresh.2 p hp hmem
    · exact hdisjoint _ hmem _ (List.mem_map_of_mem hp) rfl
  · rintro ⟨⟨hcomplete, hstands, hnodup, hfresh⟩, hcomplete', hstands', hnodup', hfresh'⟩
    refine ⟨List.forall_mem_append.2 ⟨hcomplete, hcomplete'⟩,
      List.forall_mem_append.2 ⟨hstands, hstands'⟩, ?_, List.forall_mem_append.2 ⟨hfresh, ?_⟩⟩
    · rw [List.map_append, List.nodup_append]
      refine ⟨hnodup, hnodup', fun usr hmem usr' hmem' heq => ?_⟩
      obtain ⟨p, hp, rfl⟩ := List.mem_map.1 hmem'
      exact hfresh' p hp (List.mem_append_right _ (heq ▸ hmem))
    · exact fun p hp hmem => hfresh' p hp (List.mem_append_left _ hmem)

lemma not_offends (h : WellPlaced taken (p :: rest)) : ¬ p.Offends taken e := by
  intro hoffends
  cases hoffends with
  | missingField hlacks => exact h.complete p List.mem_cons_self _ hlacks
  | invalidParent _ hstands => simp [h.stands p List.mem_cons_self] at hstands
  | duplicateUsr _ _ htaken => exact h.fresh p List.mem_cons_self htaken

end WellPlaced

namespace FirstOffence

theorem not_wellPlaced (h : FirstOffence taken placements e) : ¬ WellPlaced taken placements := by
  obtain ⟨front, p, rest, rfl, -, hoffends⟩ := h
  exact fun hplaced => (WellPlaced.append_iff.1 hplaced).2.not_offends hoffends

theorem unique (h : FirstOffence taken placements e) (h' : FirstOffence taken placements e') :
    e = e' := by
  obtain ⟨front, p, rest, rfl, hfront, hoffends⟩ := h
  obtain ⟨front', p', rest', hsplit, hfront', hoffends'⟩ := h'
  -- of two parts at the front the longer one would hold the offence of the other
  rcases List.append_eq_append_iff.1 hsplit with ⟨between, hlong, htail⟩ | ⟨between, hlong, htail⟩
  · cases between with
    | nil =>
      simp only [List.append_nil, List.nil_append, List.cons.injEq] at hlong htail
      obtain ⟨rfl, -⟩ := htail
      exact hoffends.unique (hlong ▸ hoffends')
    | cons q between =>
      obtain ⟨rfl, -⟩ := List.cons.inj htail
      rw [hlong, WellPlaced.append_iff] at hfront'
      exact absurd hoffends hfront'.2.not_offends
  · cases between with
    | nil =>
      simp only [List.append_nil, List.nil_append, List.cons.injEq] at hlong htail
      obtain ⟨rfl, -⟩ := htail
      exact hoffends.unique (hlong ▸ hoffends')
    | cons q between =>
      obtain ⟨rfl, -⟩ := List.cons.inj htail
      rw [hlong, WellPlaced.append_iff] at hfront
      exact absurd hoffends' hfront.2.not_offends

lemma append_left (h : FirstOffence taken front e) (rest : List Placement) :
    FirstOffence taken (front ++ rest) e := by
  obtain ⟨front, p, between, rfl, hfront, hoffends⟩ := h
  exact ⟨front, p, between ++ rest, by simp, hfront, hoffends⟩

lemma append_right (hfront : WellPlaced taken front)
    (h : FirstOffence (taken ++ front.map (·.usr)) rest e) :
    FirstOffence taken (front ++ rest) e := by
  obtain ⟨between, p, rest, rfl, hbetween, hoffends⟩ := h
  refine ⟨front ++ between, p, rest, by simp, WellPlaced.append_iff.2 ⟨hfront, hbetween⟩, ?_⟩
  rwa [List.map_append, ← List.append_assoc]

end FirstOffence

end Placements

namespace Tree

variable {t u v w : Tree} {parent : Option Nat}

/-! ## Adding nodes -/

/-- The identifiers of a tree. -/
def usrs (t : Tree) : List Usr := t.decls.map (·.usr)

/-- The kind and the identifier of the declaration around a place. -/
def scopeAt (t : Tree) (parent : Option Nat) : Option (Kind × Usr) :=
  parent.map fun p => ((t.decl p).kind, (t.decl p).usr)

lemma get?_eq_none_iff_usrs {usr : Usr} : t.get? usr = none ↔ usr ∉ t.usrs := by
  rw [get?_eq_none_iff_decls, usrs, List.mem_map]
  simp

lemma effectiveUsr_eq (t : Tree) (parent : Option Nat) (r : DeclRecord) :
    t.effectiveUsr parent r = r.usrBelow ((t.scopeAt parent).map (·.2)) := by
  unfold effectiveUsr DeclRecord.usrBelow scopeAt
  cases r.usr with
  | some usr => rfl
  | none => cases parent <;> cases r.kind <;> rfl

lemma scopeAt_of_grown {added : List Decl} {nodes : List DeclNode}
    (h : Grown u v parent added nodes) (hparent : ∀ p ∈ parent, p < u.size) :
    v.scopeAt parent = u.scopeAt parent := by
  cases parent with
  | none => rfl
  | some p => rw [scopeAt, Option.map_some, h.decl_eq (hparent p rfl), scopeAt, Option.map_some]

/-- The place at which a record is added. -/
def placementAt (t : Tree) (parent : Option Nat) (r : DeclRecord) : Placement :=
  ⟨(t.scopeAt parent).map (·.1), r.usrBelow ((t.scopeAt parent).map (·.2)), r⟩

/-- A declaration is added, or its kind may not stand there, or its identifier is taken. -/
lemma insert_cases {decl : Decl} (hparent : ∀ p ∈ parent, p < t.size) :
    (∃ u, t.insert parent decl = .ok u ∧
      Kind.canContain ((t.scopeAt parent).map (·.1)) decl.kind = true ∧ decl.usr ∉ t.usrs) ∨
    (Kind.canContain ((t.scopeAt parent).map (·.1)) decl.kind = false ∧ t.insert parent decl =
      .error (.invalidParent ((t.scopeAt parent).map (·.1)) decl.kind decl.name)) ∨
    (Kind.canContain ((t.scopeAt parent).map (·.1)) decl.kind = true ∧ decl.usr ∈ t.usrs ∧
      t.insert parent decl = .error (.duplicateUsr decl.usr)) := by
  have hkind : parent.bind t.kind? = (t.scopeAt parent).map (·.1) := by
    cases parent with
    | none => rfl
    | some p => exact kind?_of_lt (hparent p rfl)
  have hplace : t.admits parent decl.kind =
      Kind.canContain ((t.scopeAt parent).map (·.1)) decl.kind := by
    rw [Bool.eq_iff_iff, admits_iff, scopeAt, Option.map_map]
    exact and_iff_right hparent
  by_cases hstands : t.admits parent decl.kind = true
  · by_cases hfresh : t.get? decl.usr = none
    · obtain ⟨u, hu⟩ := exists_insert_eq_ok hstands hfresh
      exact .inl ⟨u, hu, hplace ▸ hstands, get?_eq_none_iff_usrs.1 hfresh⟩
    · refine .inr (.inr ⟨hplace ▸ hstands, ?_, ?_⟩)
      · by_contra hnot
        exact hfresh (get?_eq_none_iff_usrs.2 hnot)
      · rw [insert, dif_pos hstands, dif_neg hfresh]
  · refine .inr (.inl ⟨hplace ▸ Bool.not_eq_true _ ▸ hstands, ?_⟩)
    rw [insert, dif_neg hstands, hkind]

/-- A record is added as the declaration it stands for, or it does not fit. -/
lemma insertRecord_cases (r : DeclRecord) (hparent : ∀ p ∈ parent, p < t.size) :
    (∃ u decl, t.insertRecord parent r = .ok u ∧ t.insert parent decl = .ok u ∧
      WellPlaced t.usrs [t.placementAt parent r] ∧ decl.usr = (t.placementAt parent r).usr ∧
      decl.kind = r.kind ∧
      DeclRecord.ofDecl decl = r.resolved (r.usrBelow ((t.scopeAt parent).map (·.2)))) ∨
    ∃ e, t.insertRecord parent r = .error e ∧ (t.placementAt parent r).Offends t.usrs e := by
  rw [insertRecord, effectiveUsr_eq]
  rcases r.toDecl_cases (r.usrBelow ((t.scopeAt parent).map (·.2))) with
    ⟨decl, hdecl, hcomplete, husr, hkind, hname, hrecord⟩ | ⟨field, hlacks, herror⟩
  · rw [hdecl]
    change (∃ u decl', t.insert parent decl = .ok u ∧ _) ∨ ∃ e, t.insert parent decl = .error e ∧ _
    rcases t.insert_cases hparent with ⟨u, hu, hstands, hfresh⟩ | ⟨hstands, herror⟩ |
      ⟨hstands, htaken, herror⟩
    · refine .inl ⟨u, decl, hu, hu, ⟨?_, ?_, by simp, ?_⟩, husr, hkind, hrecord⟩
      · simpa [placementAt] using hcomplete
      · simpa [placementAt, hkind] using hstands
      · simpa [placementAt, husr] using hfresh
    · refine .inr ⟨_, herror, ?_⟩
      rw [hkind] at hstands ⊢
      rw [hname]
      exact .invalidParent hcomplete hstands
    · refine .inr ⟨_, herror, ?_⟩
      rw [hkind] at hstands
      rw [husr] at htaken ⊢
      exact .duplicateUsr hcomplete hstands htaken
  · rw [herror]
    exact .inr ⟨_, rfl, .missingField hlacks⟩

/-- The result of adding nodes at given placements: either the placements are as they should be and
the tree has grown by the nodes, or the first that does not fit is the reason of the failure. -/
def AddsOrFails (t : Tree) (parent : Option Nat) (placements : List Placement)
    (nodes : List DeclNode) : Except TreeError Tree → Prop
  | .ok u => WellPlaced t.usrs placements ∧ ∃ added, Grown t u parent added nodes ∧
      added.map (·.usr) = placements.map (·.usr)
  | .error e => FirstOffence t.usrs placements e

lemma usrs_of_grown {added : List Decl} {nodes : List DeclNode} {placements : List Placement}
    (h : Grown u v parent added nodes) (husrs : added.map (·.usr) = placements.map (·.usr)) :
    v.usrs = u.usrs ++ placements.map (·.usr) := by
  rw [usrs, h.decls_eq, List.map_append, husrs, usrs]

mutual

/-- Adding a node with all that lies inside it succeeds, or fails on the first that does not fit. -/
theorem addsOrFails_insertNode (t : Tree) {parent : Option Nat}
    (hparent : ∀ p ∈ parent, p < t.size) : (node : DeclNode) →
    t.AddsOrFails parent (node.placements (t.scopeAt parent))
      [node.resolved ((t.scopeAt parent).map (·.2))] (t.insertNode parent node)
  | .mk r children => by
    rw [insertNode, DeclNode.placements, DeclNode.resolved]
    rcases insertRecord_cases r hparent with
      ⟨u, decl, hu, hinsert, hplaced, husr, hkind, hrecord⟩ | ⟨e, herror, hoffends⟩
    · have hsize := size_of_insert hinsert
      have hnew : u.decl t.size = decl := by rw [decl_of_insert hinsert, if_pos rfl]
      have hscope : u.scopeAt (some t.size) =
          some (r.kind, r.usrBelow ((t.scopeAt parent).map (·.2))) := by
        rw [scopeAt, Option.map_some, hnew, hkind, husr]
        rfl
      have husrs : u.usrs = t.usrs ++ [t.placementAt parent r].map (·.usr) := by
        rw [usrs, decls_of_insert hinsert, List.map_append, List.map_singleton, husr]
        rfl
      have hchildren := addsOrFails_insertNodes u
        (show ∀ p ∈ some t.size, p < u.size from fun p hp => by cases hp; omega) children
      rw [hu]
      change t.AddsOrFails parent _ _ (u.insertNodes (some t.size) children)
      rw [hscope] at hchildren
      cases hresult : u.insertNodes (some t.size) children with
      | ok v =>
        rw [hresult] at hchildren
        obtain ⟨hplaced', added, hgrown, hadded⟩ := hchildren
        rw [husrs] at hplaced'
        refine ⟨WellPlaced.append_iff.2 ⟨hplaced, hplaced'⟩, decl :: added, ?_, ?_⟩
        · rw [← hrecord]
          exact .insert hinsert hgrown
        · rw [List.map_cons, List.map_cons, husr, hadded]
          rfl
      | error e =>
        rw [hresult] at hchildren
        have hoffence : FirstOffence u.usrs _ e := hchildren
        rw [husrs] at hoffence
        exact hoffence.append_right hplaced
    · rw [herror]
      exact ⟨[], t.placementAt parent r, _, rfl, .nil _, by simpa using hoffends⟩

/-- The same for a list of nodes. -/
lemma addsOrFails_insertNodes (t : Tree) {parent : Option Nat}
    (hparent : ∀ p ∈ parent, p < t.size) : (nodes : List DeclNode) →
    t.AddsOrFails parent (DeclNode.listPlacements (t.scopeAt parent) nodes)
      (DeclNode.listResolved ((t.scopeAt parent).map (·.2)) nodes) (t.insertNodes parent nodes)
  | [] => ⟨.nil _, [], .refl t parent, rfl⟩
  | node :: nodes => by
    rw [insertNodes, DeclNode.listPlacements, DeclNode.listResolved]
    have hnode := addsOrFails_insertNode t hparent node
    cases hfirst : t.insertNode parent node with
    | error e =>
      rw [hfirst] at hnode
      exact FirstOffence.append_left hnode _
    | ok u =>
      rw [hfirst] at hnode
      obtain ⟨hplaced, added, hgrown, hadded⟩ := hnode
      have hsize := hgrown.size_eq
      have husrs := usrs_of_grown hgrown hadded
      have hnodes := addsOrFails_insertNodes u
        (fun p hp => by have := hparent p hp; omega) nodes
      rw [scopeAt_of_grown hgrown hparent] at hnodes
      change t.AddsOrFails parent _ _ (u.insertNodes parent nodes)
      cases hrest : u.insertNodes parent nodes with
      | error e =>
        rw [hrest] at hnodes
        have hoffence : FirstOffence u.usrs _ e := hnodes
        rw [husrs] at hoffence
        exact hoffence.append_right hplaced
      | ok v =>
        rw [hrest] at hnodes
        obtain ⟨hplaced', added', hgrown', hadded'⟩ := hnodes
        rw [husrs] at hplaced'
        refine ⟨WellPlaced.append_iff.2 ⟨hplaced, hplaced'⟩, added ++ added',
          hgrown.trans hgrown' hparent, ?_⟩
        rw [List.map_append, List.map_append, hadded, hadded']

end

/-! ## Headers -/

section Headers

variable {nodes : List DeclNode} {headers : List String}

/-- One of the nodes is the translation unit of the header. -/
def HasUnit (nodes : List DeclNode) (header : String) : Prop :=
  ∃ node ∈ nodes, isUnitOf node.record.name header = true

/-- The nodes that are kept: those of some header, or all of them if there are no headers. -/
def kept (nodes : List DeclNode) (headers : List String) : List DeclNode :=
  nodes.filter fun node => headers.isEmpty || headers.any (isUnitOf node.record.name)

lemma selectNodes_eq_kept (nodes : List DeclNode) (headers : List String) :
    selectNodes nodes headers = kept nodes headers := by
  cases headers <;> simp [selectNodes, kept]

lemma hasUnit_iff {header : String} : HasUnit nodes header ↔
    (nodes.any fun node => isUnitOf node.record.name header) = true := by
  rw [HasUnit, List.any_eq_true]

lemma missingHeader?_eq_none_iff :
    missingHeader? nodes headers = none ↔ ∀ header ∈ headers, HasUnit nodes header := by
  simp [missingHeader?, hasUnit_iff]

lemma missingHeader?_eq_some_iff {header : String} : missingHeader? nodes headers = some header ↔
    ∃ front, FirstFailing (HasUnit nodes) headers front header := by
  simp only [missingHeader?, List.find?_eq_some_iff_append, FirstFailing, hasUnit_iff]
  constructor
  · rintro ⟨hmissing, front, rest, hsplit, hfront⟩
    exact ⟨front, ⟨rest, hsplit⟩, by simpa using hfront, by simpa using hmissing⟩
  · rintro ⟨front, ⟨rest, hsplit⟩, hfront, hmissing⟩
    exact ⟨by simpa using hmissing, front, rest, hsplit, by simpa using hfront⟩

end Headers

/-! ## Documents -/

/-- Nodes are added to the empty tree if they are as they should be, and the tree has them. -/
lemma insertNodes_empty_cases (nodes : List DeclNode) :
    (∃ t, insertNodes empty none nodes = .ok t ∧
      WellPlaced [] (DeclNode.listPlacements none nodes) ∧
      t.toNodes = DeclNode.listResolved none nodes) ∨
    ∃ e, insertNodes empty none nodes = .error e ∧
      FirstOffence [] (DeclNode.listPlacements none nodes) e := by
  have hadds := addsOrFails_insertNodes empty
    (show ∀ p ∈ (none : Option Nat), p < empty.size by simp) nodes
  cases hresult : insertNodes empty none nodes with
  | error e =>
    rw [hresult] at hadds
    exact .inr ⟨e, rfl, hadds⟩
  | ok t =>
    rw [hresult] at hadds
    obtain ⟨hplaced, added, hgrown, -⟩ := hadds
    obtain ⟨new, hnew, -, hnodes⟩ := hgrown.exists_new
    refine .inl ⟨t, rfl, hplaced, ?_⟩
    have hunits : t.translationUnits = new := hnew
    rw [toNodes, hunits, hnodes]
    rfl

/-- Loading accepts the nodes if and only if each header has its translation unit and the kept nodes
are as they should be.  The tree then has the kept nodes, resolved and in their order; otherwise the
error is about the first header without translation unit, or else about the first of the kept nodes
that does not fit. -/
theorem ofNodes_accepts (nodes : List DeclNode) (headers : List String) :
    ((∃ t, (ofNodes nodes headers).value = .ok t) ↔
      (∀ header ∈ headers, HasUnit nodes header) ∧
        WellPlaced [] (DeclNode.listPlacements none (kept nodes headers))) ∧
    (∀ t, (ofNodes nodes headers).value = .ok t →
      t.toNodes = DeclNode.listResolved none (kept nodes headers)) ∧
    ∀ e, (ofNodes nodes headers).value = .error e ↔
      (∃ front header, FirstFailing (HasUnit nodes) headers front header ∧
        e = .headerNotFound header) ∨
      ((∀ header ∈ headers, HasUnit nodes header) ∧
        FirstOffence [] (DeclNode.listPlacements none (kept nodes headers)) e) := by
  cases hheader : missingHeader? nodes headers with
  | some header =>
    have hvalue : (ofNodes nodes headers).value = .error (.headerNotFound header) := by
      rw [ofNodes, hheader]
      rfl
    obtain ⟨front, hfirst⟩ := missingHeader?_eq_some_iff.1 hheader
    have hnot := hfirst.not_forall
    rw [hvalue]
    refine ⟨⟨fun ⟨_, ht⟩ => (nomatch ht), fun h => absurd h.1 hnot⟩, fun _ ht => (nomatch ht), ?_⟩
    intro e
    constructor
    · rintro ⟨⟩
      exact .inl ⟨front, header, hfirst, rfl⟩
    · rintro (⟨front', header', hfirst', rfl⟩ | ⟨hall, -⟩)
      · rw [Option.some.inj (hheader.symm.trans (missingHeader?_eq_some_iff.2 ⟨front', hfirst'⟩))]
      · exact absurd hall hnot
  | none =>
    have hall := missingHeader?_eq_none_iff.1 hheader
    have hvalue : (ofNodes nodes headers).value = insertNodes empty none (kept nodes headers) := by
      rw [ofNodes, hheader, selectNodes_eq_kept]
      rfl
    have hnone : ¬ ∃ front header, FirstFailing (HasUnit nodes) headers front header :=
      fun ⟨_, _, hfirst⟩ => hfirst.not_forall hall
    rw [hvalue]
    rcases insertNodes_empty_cases (kept nodes headers) with
      ⟨t, ht, hplaced, hnodes⟩ | ⟨e, he, hoffence⟩
    · rw [ht]
      refine ⟨⟨fun _ => ⟨hall, hplaced⟩, fun _ => ⟨t, rfl⟩⟩, ?_, ?_⟩
      · rintro u ⟨⟩
        exact hnodes
      · refine fun e => ⟨fun h => (nomatch h), ?_⟩
        rintro (⟨front, header, hfirst, -⟩ | ⟨-, hoffence⟩)
        · exact absurd ⟨front, header, hfirst⟩ hnone
        · exact absurd hplaced hoffence.not_wellPlaced
    · rw [he]
      refine ⟨⟨fun ⟨_, ht⟩ => (nomatch ht), fun h => absurd h.2 hoffence.not_wellPlaced⟩,
        fun _ ht => (nomatch ht), ?_⟩
      intro e'
      constructor
      · rintro ⟨⟩
        exact .inr ⟨hall, hoffence⟩
      · rintro (⟨front, header, hfirst, -⟩ | ⟨-, hoffence'⟩)
        · exact absurd ⟨front, header, hfirst⟩ hnone
        · rw [hoffence.unique hoffence']

/-- The node of a class with one method, whose record may lack the result. -/
def shapeUnit (path : String) (result : Option QualType) : DeclNode :=
  .mk (.bare .translationUnit path) [.mk (.bare .classType "Shape")
    [.mk { DeclRecord.bare .method "area" with result } []]]

/-- A unit whose header is not asked for may have any faults. -/
theorem ofNodes_accepts_shapeUnit :
    (∃ t, (ofNodes [shapeUnit "include/shape.h" (some .void), shapeUnit "b.h" none]
        ["shape.h"]).value = .ok t ∧
      t.toNodes = DeclNode.listResolved none [shapeUnit "include/shape.h" (some .void)]) ∧
    (ofNodes [shapeUnit "include/shape.h" (some .void), shapeUnit "b.h" none] []).value =
      .error (.missingField .method "area" .result) := by
  constructor
  · have hkept : kept [shapeUnit "include/shape.h" (some .void), shapeUnit "b.h" none]
        ["shape.h"] = [shapeUnit "include/shape.h" (some .void)] := by cbv
    have hunit : ∀ header ∈ ["shape.h"], HasUnit
        [shapeUnit "include/shape.h" (some .void), shapeUnit "b.h" none] header := by
      intro header hheader
      rw [List.mem_singleton.1 hheader]
      exact ⟨_, List.mem_cons_self, by cbv⟩
    obtain ⟨haccepts, hnodes, -⟩ := ofNodes_accepts
      [shapeUnit "include/shape.h" (some .void), shapeUnit "b.h" none] ["shape.h"]
    rw [hkept] at haccepts hnodes
    obtain ⟨t, ht⟩ := haccepts.2 ⟨hunit, by decide +kernel⟩
    exact ⟨t, ht, hnodes t ht⟩
  · refine ((ofNodes_accepts _ _).2.2 _).2 (.inr ⟨by simp, ?_⟩)
    have hkept : kept [shapeUnit "include/shape.h" (some .void), shapeUnit "b.h" none] [] =
        [shapeUnit "include/shape.h" (some .void), shapeUnit "b.h" none] := rfl
    rw [hkept]
    -- the method of the second unit is the last of the placements, the others are as they should be
    exact ⟨_, _, [], (List.dropLast_append_getLast (List.cons_ne_nil _ _)).symm, by decide +kernel,
      .missingField ⟨rfl, rfl⟩⟩

end Tree

end Bindery
