import Bindery.Document.Nodes
import Bindery.Proofs.Document.Types
import Mathlib.Data.List.Basic

/-!
# Reading declarations back

What is written for a node is read back as the same node, with everything inside it, exactly if the
document is not nested deeper than the budget (`DeclNode.readsBack`).  Hence the text of a list of
nodes gives that list back, or nothing if it is nested too deeply (`DeclNode.readAll?_writeAll`).

The document of a record is a list of fields, each with its value or left out (`members_eq`), and
each field is looked up as the value it was given (`lookup_field`).
-/

namespace Bindery

open Json

namespace DeclRecord

/-- The document of an access level. -/
def accessToJson (access : Access) : Json := Json.text access.word

/-- The document of a variant of an enum. -/
def variantToJson (variant : String × Int64) : Json :=
  .array [Json.text variant.1, ofInt64 variant.2]

lemma readsBack_variant (variant : String × Int64) :
    ReadsBack variantToJson (asPair? asText? asInt64?) variant := by
  intro budget
  cases budget with
  | zero => rfl
  | succ budget =>
    have hdepth : (variantToJson variant).depth = 1 := rfl
    have hname : asText? (Json.text variant.1) = some variant.1 := rfl
    rw [hdepth, if_pos (by omega), variantToJson, asPair?, hname, asInt64?_ofInt64]
    rfl

/-- The fields of a record, each with its value or left out at its default. -/
def fields (r : DeclRecord) : List (String × Option Json) :=
  [("kind", some (Json.text r.kind.word)),
    ("name", some (Json.text r.name)),
    ("usr", r.usr.map Usr.toJson),
    ("original_name", r.givenHeaderName.map Json.text),
    ("ignore", valueUnless false Json.bool r.ignored),
    ("access", valueUnless .isPublic accessToJson r.access),
    ("complete", valueUnless true Json.bool r.isComplete),
    ("bases", valueOfList Usr.toJson r.bases),
    ("result", r.result.map QualType.toJson),
    ("arguments", valueOfList Argument.toJson r.arguments),
    ("is_variadic", valueUnless false Json.bool r.isVariadic),
    ("is_virtual", valueUnless false Json.bool r.isVirtual),
    ("is_static", valueUnless false Json.bool r.isStatic),
    ("receiver", r.receiver.map Argument.toJson),
    ("promoted_from", r.promotedFrom.map Usr.toJson),
    ("type", r.type.map QualType.toJson),
    ("manual_impl", valueUnless false Json.bool r.needsManual),
    ("variants", valueOfList variantToJson r.variants),
    ("is_flags", valueUnless false Json.bool r.isFlags)]

theorem members_eq (r : DeclRecord) : r.members = given r.fields := by
  have haccess : memberIf (r.access ≠ .isPublic) "access" (Json.text r.access.word) =
      given [("access", valueUnless .isPublic accessToJson r.access)] :=
    memberIf_ne_eq_given "access" accessToJson r.access .isPublic
  have hfirst : [("kind", Json.text r.kind.word), ("name", Json.text r.name)] =
      given [("kind", some (Json.text r.kind.word)), ("name", some (Json.text r.name))] := rfl
  delta members
  rw [haccess, hfirst]
  simp only [memberIf_eq_given, memberIf_not_eq_given, memberOf?_eq_given, memberOfList_eq_given,
    ← given_append, List.cons_append, List.nil_append]
  rfl

/-- What holds of all texts and truth values holds of all members of a record if it holds of those
that can be nested: types, arguments and lists. -/
lemma forall_mem_members_iff {r : DeclRecord} {P : Json → Prop} (htext : ∀ s, P (Json.text s))
    (hbool : ∀ b, P (.bool b)) : (∀ m ∈ r.members, P m.2) ↔
      (∀ v ∈ valueOfList Usr.toJson r.bases, P v) ∧
        (∀ v ∈ r.result.map QualType.toJson, P v) ∧
        (∀ v ∈ valueOfList Argument.toJson r.arguments, P v) ∧
        (∀ v ∈ r.receiver.map Argument.toJson, P v) ∧
        (∀ v ∈ r.type.map QualType.toJson, P v) ∧
        (∀ v ∈ valueOfList variantToJson r.variants, P v) := by
  have hword (s : String) : ∀ v ∈ some (Json.text s), P v := by simpa using htext s
  have hname (o : Option String) : ∀ v ∈ o.map Json.text, P v := by
    simpa using fun s _ => htext s
  have husr (o : Option Usr) : ∀ v ∈ o.map Usr.toJson, P v := by
    have hvalue (usr : Usr) : P usr.toJson := htext usr.text
    simpa using fun usr _ => hvalue usr
  have haccess : ∀ v ∈ valueUnless .isPublic accessToJson r.access, P v :=
    forall_mem_valueUnless accessToJson .isPublic (htext r.access.word)
  have hflag (b default : Bool) : ∀ v ∈ valueUnless default Json.bool b, P v :=
    forall_mem_valueUnless Json.bool default (hbool b)
  rw [members_eq, forall_mem_given_iff]
  simp only [fields, List.forall_mem_cons, List.not_mem_nil, false_implies, implies_true, and_true]
  constructor
  · rintro ⟨-, -, -, -, -, -, -, hbases, hresult, harguments, -, -, -, hreceiver, -, htype, -,
      hvariants, -⟩
    exact ⟨hbases, hresult, harguments, hreceiver, htype, hvariants⟩
  · rintro ⟨hbases, hresult, harguments, hreceiver, htype, hvariants⟩
    exact ⟨hword _, hword _, husr _, hname _, hflag _ _, haccess, hflag _ _, hbases, hresult,
      harguments, hflag _ _, hflag _ _, hflag _ _, hreceiver, husr _, htype, hflag _ _, hvariants,
      hflag _ _⟩

/-- No record holds a numeral that is not an integer. -/
lemma isIntegral_members (r : DeclRecord) : ∀ m ∈ r.members, m.2.isIntegral = true := by
  have htypes (o : Option QualType) : ∀ v ∈ o.map QualType.toJson, v.isIntegral = true := by
    simpa using fun type _ => type.isIntegral_toJson
  have hreceiver : ∀ v ∈ r.receiver.map Argument.toJson, v.isIntegral = true := by
    simpa using fun argument _ => argument.isIntegral_toJson
  refine (forall_mem_members_iff (P := (·.isIntegral = true)) (fun _ => rfl) fun _ => rfl).2 ?_
  exact ⟨isIntegral_valueOfList fun _ _ => rfl, htypes _,
    isIntegral_valueOfList fun argument _ => argument.isIntegral_toJson, hreceiver, htypes _,
    isIntegral_valueOfList fun _ _ => rfl⟩

/-! ## Reading a record -/

/-- Nothing in a record is nested more deeply than there is room for. -/
def FitsIn (r : DeclRecord) (budget : Nat) : Prop := ∀ m ∈ r.members, m.2.depth ≤ budget

instance (r : DeclRecord) (budget : Nat) : Decidable (r.FitsIn budget) :=
  inferInstanceAs (Decidable (∀ m ∈ r.members, m.2.depth ≤ budget))

section Reading

variable (r : DeclRecord) (children : Option Json) (budget : Nat)

/-- The fields of a node are those of its record, and what lies inside it. -/
def fieldsWith : List (String × Option Json) := r.fields ++ [("children", children)]

lemma fieldsOf?_given : fieldsOf? (fieldNames ++ ["children"])
    (record (given (r.fieldsWith children))) = some (given (r.fieldsWith children)) :=
  fieldsOf?_record (by decide) keys_given

theorem lookup_field {name : String} {v : Option Json} (h : (name, v) ∈ r.fieldsWith children) :
    (given (r.fieldsWith children)).lookup name = v := by
  have hkeys : (r.fieldsWith children).map (·.1) = fieldNames ++ ["children"] := rfl
  refine lookup_given ?_ h
  rw [hkeys]
  decide

lemma ofFields?_given : ofFields? budget (given (r.fieldsWith children)) =
    if r.FitsIn budget then some r else none := by
  have hfields : ∀ field ∈ r.fields, (given (r.fieldsWith children)).lookup field.1 = field.2 :=
    fun field h => r.lookup_field children (List.mem_append_left _ h)
  generalize given (r.fieldsWith children) = g at hfields ⊢
  simp only [fields, List.forall_mem_cons, List.not_mem_nil, false_implies, implies_true,
    and_true] at hfields
  obtain ⟨hkind, hname, husr, horiginal, hignored, haccess, hcomplete, hbases, hresult, harguments,
    hvariadic, hvirtual, hstatic, hreceiver, hpromoted, htype, hmanual, hvariants, hflags⟩ :=
    hfields
  have hkind' : g.required? "kind" (asVariant? Kind.words budget) = some r.kind := by
    rw [Fields.required?, hkind, Option.bind_some, Json.text, asVariant?, Kind.lookup_word]
  have hname' : g.required? "name" asText? = some r.name := by
    rw [Fields.required?, hname]
    rfl
  have haccess' : g.withDefault? "access" .isPublic (asVariant? Access.words budget) =
      some r.access := Fields.withDefault?_of_lookup haccess r.access.lookup_word
  have hnull (s : String) : Json.text s ≠ .null := by simp [Json.text]
  have husr' : g.optional? "usr" Usr.ofJson? = some r.usr :=
    Fields.optional?_of_flat husr (fun usr _ => hnull usr.text) fun _ _ => rfl
  have horiginal' : g.optional? "original_name" asText? = some r.givenHeaderName :=
    Fields.optional?_of_flat horiginal (fun s _ => hnull s) fun _ _ => rfl
  have hpromoted' : g.optional? "promoted_from" Usr.ofJson? = some r.promotedFrom :=
    Fields.optional?_of_flat hpromoted (fun usr _ => hnull usr.text) fun _ _ => rfl
  have hbases' := Fields.list_of_lookup hbases (fun usr _ => usr.readsBack) budget
  have hresult' := Fields.optional?_of_lookup hresult (fun type _ => type.toJson_ne_null)
    (fun type _ => type.readsBack) budget
  have harguments' := Fields.list_of_lookup harguments (fun argument _ => argument.readsBack) budget
  have hreceiver' := Fields.optional?_of_lookup hreceiver
    (fun argument _ => argument.toJson_ne_null) (fun argument _ => argument.readsBack) budget
  have htype' := Fields.optional?_of_lookup htype (fun type _ => type.toJson_ne_null)
    (fun type _ => type.readsBack) budget
  have hvariants' := Fields.list_of_lookup hvariants (fun variant _ => readsBack_variant variant)
    budget
  have hfits : r.FitsIn budget ↔ _ :=
    forall_mem_members_iff (P := (·.depth ≤ budget)) (fun _ => Nat.zero_le _) fun _ => Nat.zero_le _
  simp only [ofFields?, hkind', hname', husr', horiginal', haccess', hbases', hresult',
    harguments', hreceiver', hpromoted', htype', hvariants', Fields.flag_of_lookup hignored,
    Fields.flag_of_lookup hcomplete, Fields.flag_of_lookup hvariadic,
    Fields.flag_of_lookup hvirtual, Fields.flag_of_lookup hstatic, Fields.flag_of_lookup hmanual,
    Fields.flag_of_lookup hflags, Option.bind_eq_bind, Option.bind_some, bind_if, hfits, ite_and]
  rfl

end Reading

end DeclRecord

namespace DeclNode

lemma listToJson_eq_map (nodes : List DeclNode) : listToJson nodes = nodes.map toJson := by
  induction nodes with
  | nil => rfl
  | cons node nodes ih => rw [listToJson, ih, List.map_cons]

lemma listOfJson?_eq_asList? (budget : Nat) : listOfJson? budget = asList? ofJson? budget := by
  funext v
  cases budget with
  | zero => cases v <;> rfl
  | succ budget => cases v <;> rfl

lemma toJson_mk (r : DeclRecord) (children : List DeclNode) :
    (mk r children).toJson = Json.record (given (r.fieldsWith (valueOfList toJson children))) := by
  have hchildren : memberIf (!children.isEmpty) "children" (.array (listToJson children)) =
      given [("children", valueOfList toJson children)] := by
    rw [listToJson_eq_map, ← memberOfList_eq_given]
    rfl
  rw [toJson, hchildren, r.members_eq, ← given_append]
  rfl

lemma depth_toJson_le_iff {r : DeclRecord} {children : List DeclNode} {budget : Nat} :
    (mk r children).toJson.depth ≤ budget + 1 ↔ r.FitsIn budget ∧
      ∀ v ∈ valueOfList toJson children, v.depth ≤ budget := by
  rw [toJson_mk, depth_record_le_iff, DeclRecord.fieldsWith, given_append, ← r.members_eq,
    List.forall_mem_append, forall_mem_given_iff (P := (·.depth ≤ budget)),
    List.forall_mem_singleton]
  rfl

mutual

/-- A node is read back, with everything inside it. -/
theorem readsBack : (node : DeclNode) → ReadsBack toJson ofJson? node
  | .mk r children => by
    intro budget
    cases budget with
    | zero =>
      have hpos : 0 < (mk r children).toJson.depth := by
        rw [toJson_mk]
        exact depth_record_pos _
      rw [if_neg (by omega), ofJson?]
    | succ budget =>
      have hlookup := r.lookup_field (valueOfList toJson children)
        (List.mem_append_right _ (List.mem_singleton_self _))
      have hchildren := Fields.list_of_lookup hlookup (readsBack_all children) budget
      simp only [depth_toJson_le_iff]
      rw [toJson_mk, ofJson?, r.fieldsOf?_given]
      simp only [Option.bind_eq_bind, Option.bind_some, r.ofFields?_given, bind_if,
        listOfJson?_eq_asList?, hchildren, ite_and]
      rfl

lemma readsBack_all : (nodes : List DeclNode) → ∀ node ∈ nodes, ReadsBack toJson ofJson? node
  | [] => by simp
  | node :: nodes => List.forall_mem_cons.2 ⟨readsBack node, readsBack_all nodes⟩

end

mutual

lemma isIntegral_toJson : (node : DeclNode) → node.toJson.isIntegral = true
  | .mk r children => by
    have hchildren := isIntegral_valueOfList (isIntegral_toJson_all children)
    rw [toJson_mk, isIntegral_record_iff, DeclRecord.fieldsWith, given_append, ← r.members_eq]
    refine List.forall_mem_append.2 ⟨r.isIntegral_members, ?_⟩
    refine (forall_mem_given_iff (P := (·.isIntegral = true))).2 ?_
    exact List.forall_mem_singleton.2 hchildren

lemma isIntegral_toJson_all : (nodes : List DeclNode) →
    ∀ node ∈ nodes, node.toJson.isIntegral = true
  | [] => by simp
  | node :: nodes => List.forall_mem_cons.2 ⟨isIntegral_toJson node, isIntegral_toJson_all nodes⟩

end

/-- The document of a list of nodes. -/
def document (nodes : List DeclNode) : Json := .array (listToJson nodes)

lemma document_eq (nodes : List DeclNode) : document nodes = ofList toJson nodes := by
  rw [document, listToJson_eq_map, ofList]

lemma read?_writeAll (nodes : List DeclNode) :
    Json.read? (writeAll nodes) = some (document nodes) := by
  refine read?_pretty ?_
  rw [← document, document_eq]
  exact isIntegral_array_iff.2 (List.forall_mem_map.2 fun node _ => isIntegral_toJson node)

lemma toJson_injective : Function.Injective toJson :=
  fun a b h => (readsBack a).eq_of_encode (readsBack b) h

/-- Different nodes are written as different texts, however deep they are nested. -/
lemma writeAll_injective : Function.Injective writeAll := by
  intro nodes others h
  have hread : some (document nodes) = some (document others) := by
    rw [← read?_writeAll, ← read?_writeAll, h]
  have hlist : listToJson nodes = listToJson others := Json.array.inj (Option.some.inj hread)
  rw [listToJson_eq_map, listToJson_eq_map] at hlist
  exact List.map_injective_iff.2 toJson_injective hlist

end DeclNode

end Bindery
