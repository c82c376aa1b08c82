import Bindery.Output.File
import Bindery.Proofs.Json.Decoding

/-!
# Reading emitted files back

The text of the files of an emitter gives these files back exactly if it is not nested deeper than
a document may be, which is so if and only if no block lies deeper than level 62
(`OutputFile.readAll_document`).

Every level of blocks costs two levels of nesting, one for the object of a block and one for the
array of those inside it (`Block.itemsDepth_le_iff`), and the files around the blocks cost three
more (`OutputFile.depth_document_le_iff`).
-/

namespace Bindery

open Json

namespace Block

/-! ## Levels -/

/-- Where a block lies among blocks: at level one if it is one of them, and otherwise one level
deeper than among those inside the same block. -/
inductive LiesAt : List Block → Nat → Block → Prop where
  | here {blocks : List Block} {block : Block} (h : block ∈ blocks) : LiesAt blocks 1 block
  | inside {blocks : List Block} {outer : Block} {level : Nat} {block : Block}
    (houter : outer ∈ blocks) (h : LiesAt outer.children level block) :
    LiesAt blocks (level + 1) block

/-- All blocks on all levels have a property if the first block has it, and so have those inside it
and those beside it. -/
lemma forall_liesAt_cons_iff {block : Block} {blocks : List Block} {P : Nat → Prop} :
    (∀ level b, LiesAt (block :: blocks) level b → P level) ↔
      (P 1 ∧ ∀ level b, LiesAt block.children level b → P (level + 1)) ∧
        ∀ level b, LiesAt blocks level b → P level := by
  constructor
  · intro h
    refine ⟨⟨h 1 block (.here (List.mem_cons_self ..)), fun level b hb => ?_⟩, fun level b hb => ?_⟩
    · exact h (level + 1) b (.inside (List.mem_cons_self ..) hb)
    · refine h level b ?_
      cases hb with
      | here hmem => exact .here (List.mem_cons_of_mem _ hmem)
      | inside houter hb => exact .inside (List.mem_cons_of_mem _ houter) hb
  · rintro ⟨⟨hfirst, hinside⟩, hrest⟩ level b hb
    cases hb with
    | here hmem =>
      rcases List.mem_cons.1 hmem with rfl | hmem
      · exact hfirst
      · exact hrest 1 b (.here hmem)
    | inside houter hb =>
      rcases List.mem_cons.1 houter with rfl | houter
      · exact hinside _ b hb
      · exact hrest _ b (.inside houter hb)

/-! ## The document of a block -/

/-- The fields of a block, each with its value or left out if nothing is inside the block. -/
def fields (kind : BlockKind) (text : String) (children : List Block) :
    List (String × Option Json) :=
  [("kind", some (Json.text kind.word)), ("text", some (Json.text text)),
    ("children", valueOfList toJson children)]

lemma listToJson_eq_map (blocks : List Block) : listToJson blocks = blocks.map toJson := by
  induction blocks with
  | nil => rfl
  | cons block blocks ih => rw [listToJson, ih, List.map_cons]

lemma toJson_mk (kind : BlockKind) (text : String) (children : List Block) :
    (mk kind text children).toJson = record (given (fields kind text children)) := by
  have hchildren : memberIf (!children.isEmpty) "children" (.array (listToJson children)) =
      given [("children", valueOfList toJson children)] := by
    rw [listToJson_eq_map, ← memberOfList_eq_given]
    rfl
  rw [toJson, hchildren]
  rfl

lemma listOfJson?_eq_asList? (budget : Nat) : listOfJson? budget = asList? ofJson? budget := by
  funext v
  cases budget with
  | zero => cases v <;> rfl
  | succ budget => cases v <;> rfl

lemma depth_toJson_le_iff {kind : BlockKind} {text : String} {children : List Block}
    {budget : Nat} : (mk kind text children).toJson.depth ≤ budget + 1 ↔
      ∀ v ∈ valueOfList toJson children, v.depth ≤ budget := by
  have hscalar (s : String) : ∀ v ∈ some (Json.text s), v.depth ≤ budget := by
    simp [Json.text, depth]
  rw [toJson_mk, depth_record_le_iff, forall_mem_given_iff (P := (·.depth ≤ budget)), fields,
    List.forall_mem_cons, List.forall_mem_cons, List.forall_mem_singleton]
  exact ⟨fun h => h.2.2, fun h => ⟨hscalar _, hscalar _, h⟩⟩

lemma depth_toJson_pos (block : Block) : 0 < block.toJson.depth := by
  cases block with
  | mk kind text children =>
    rw [toJson_mk]
    exact depth_record_pos _

section Reading

variable (kind : BlockKind) (text : String) (children : List Block)

lemma fieldsOf?_given : fieldsOf? ["kind", "text", "children"]
    (record (given (fields kind text children))) = some (given (fields kind text children)) :=
  fieldsOf?_record (by decide) keys_given

/-- Each field of a block holds what was written for it. -/
lemma lookup_field : ∀ field ∈ fields kind text children,
    (given (fields kind text children)).lookup field.1 = field.2 := by
  have hkeys : (fields kind text children).map (·.1) = ["kind", "text", "children"] := rfl
  refine fun field h => lookup_given ?_ h
  rw [hkeys]
  decide

end Reading

mutual

/-- A block is read back, with everything inside it. -/
lemma readsBack : (block : Block) → ReadsBack toJson ofJson? block
  | .mk kind text children => by
    intro budget
    cases budget with
    | zero =>
      have hpos := (mk kind text children).depth_toJson_pos
      rw [if_neg (by omega), ofJson?]
    | succ budget =>
      have hlookup := lookup_field kind text children
      rw [fields, List.forall_mem_cons, List.forall_mem_cons, List.forall_mem_singleton,
        ← fields] at hlookup
      obtain ⟨hkind, htext, hchildren⟩ := hlookup
      have hkind' : (given (fields kind text children)).withDefault? "kind" .unknown
          (BlockKind.ofJson? budget) = some kind := by
        rw [Fields.withDefault?, hkind]
        exact kind.lookup_word
      have htext' : (given (fields kind text children)).withDefault? "text" "" asText? =
          some text := by
        rw [Fields.withDefault?, htext]
        rfl
      have hchildren' := Fields.list_of_lookup hchildren (readsBack_all children) budget
      simp only [depth_toJson_le_iff]
      rw [toJson_mk, ofJson?, fieldsOf?_given]
      simp only [Option.bind_eq_bind, Option.bind_some, hkind', htext', listOfJson?_eq_asList?,
        hchildren', bind_if]
      rfl

lemma readsBack_all : (blocks : List Block) → ∀ block ∈ blocks, ReadsBack toJson ofJson? block
  | [] => by simp
  | block :: blocks => List.forall_mem_cons.2 ⟨readsBack block, readsBack_all blocks⟩

end

mutual

lemma isIntegral_toJson : (block : Block) → block.toJson.isIntegral = true
  | .mk kind text children => by
    have hscalar (s : String) : ∀ v ∈ some (Json.text s), v.isIntegral = true := by
      simp [Json.text, isIntegral]
    have hchildren := isIntegral_valueOfList (isIntegral_toJson_all children)
    rw [toJson_mk, isIntegral_record_iff, forall_mem_given_iff (P := (·.isIntegral = true)), fields,
      List.forall_mem_cons, List.forall_mem_cons, List.forall_mem_singleton]
    exact ⟨hscalar _, hscalar _, hchildren⟩

lemma isIntegral_toJson_all : (blocks : List Block) →
    ∀ block ∈ blocks, block.toJson.isIntegral = true
  | [] => by simp
  | block :: blocks =>
    List.forall_mem_cons.2 ⟨isIntegral_toJson block, isIntegral_toJson_all blocks⟩

end

/-! ## Nesting -/

lemma not_liesAt_nil {level : Nat} {block : Block} : ¬ LiesAt [] level block := by
  intro h
  cases h with
  | here hmem => exact List.not_mem_nil hmem
  | inside houter _ => exact List.not_mem_nil houter

mutual

/-- A block fits in a budget if no block inside it lies too deep: each level of blocks costs two
levels of nesting. -/
lemma depth_toJson_le_succ_iff : (block : Block) → ∀ {n : Nat}, block.toJson.depth ≤ n + 1 ↔
    ∀ level b, LiesAt block.children level b → 2 * level ≤ n
  | .mk kind text [], n => by
    rw [depth_toJson_le_iff]
    have hvalue : ∀ v ∈ valueOfList toJson [], v.depth ≤ n := by simp [valueOfList]
    exact ⟨fun _ _ _ hb => absurd hb not_liesAt_nil, fun _ => hvalue⟩
  | .mk kind text (first :: rest), n => by
    have hvalue : valueOfList toJson (first :: rest) = some (ofList toJson (first :: rest)) := rfl
    have hdepth : (ofList toJson (first :: rest)).depth =
      itemsDepth ((first :: rest).map toJson) + 1 := rfl
    simp only [depth_toJson_le_iff, hvalue, Option.mem_some_iff, forall_eq', hdepth]
    cases n with
    | zero =>
      have hfirst : LiesAt (first :: rest) 1 first := .here (List.mem_cons_self ..)
      exact iff_of_false (Nat.not_succ_le_zero _) fun h => absurd (h 1 first hfirst) (by omega)
    | succ n => rw [Nat.succ_le_succ_iff, itemsDepth_le_iff (first :: rest), children]

/-- Blocks fit in a budget if none of them, and none inside them, lies too deep. -/
theorem itemsDepth_le_iff : (blocks : List Block) → ∀ {n : Nat},
    itemsDepth (blocks.map toJson) ≤ n ↔ ∀ level b, LiesAt blocks level b → 2 * level ≤ n + 1
  | [], _ => ⟨fun _ _ _ hb => absurd hb not_liesAt_nil, fun _ => Nat.zero_le _⟩
  | block :: blocks, n => by
    rw [List.map_cons, itemsDepth, Nat.max_le, forall_liesAt_cons_iff, itemsDepth_le_iff blocks]
    refine and_congr_left fun _ => ?_
    cases n with
    | zero =>
      have hpos := block.depth_toJson_pos
      omega
    | succ n =>
      have hinside : ∀ level, 2 * (level + 1) ≤ n + 1 + 1 ↔ 2 * level ≤ n := by omega
      rw [depth_toJson_le_succ_iff block]
      simp only [hinside, Nat.mul_one, Nat.le_add_left, true_and]

end

end Block

namespace OutputFile

/-- The document of files. -/
def document (files : List OutputFile) : Json := ofList toJson files

lemma toJson_eq (file : OutputFile) : file.toJson =
    record [("file_name", Json.text file.name), ("blocks", ofList Block.toJson file.blocks)] := by
  rw [toJson, Block.listToJson_eq_map, ofList]

lemma depth_toJson_le_iff {file : OutputFile} {budget : Nat} :
    file.toJson.depth ≤ budget + 1 ↔ (ofList Block.toJson file.blocks).depth ≤ budget := by
  have hname : (Json.text file.name).depth ≤ budget := Nat.zero_le _
  rw [toJson_eq, depth_record_le_iff, List.forall_mem_cons, List.forall_mem_singleton]
  exact ⟨fun h => h.2, fun h => ⟨hname, h⟩⟩

/-- A file is read back, with all its blocks. -/
lemma readsBack (file : OutputFile) : ReadsBack toJson ofJson? file := by
  intro budget
  cases budget with
  | zero =>
    have hpos : 0 < file.toJson.depth := by
      rw [toJson_eq]
      exact depth_record_pos _
    rw [if_neg (by omega), ofJson?]
    exact nofun
  | succ budget =>
    have hfields : fieldsOf? ["file_name", "blocks"] file.toJson =
        some [("file_name", Json.text file.name), ("blocks", ofList Block.toJson file.blocks)] := by
      rw [toJson_eq]
      exact fieldsOf?_record (by decide) (List.Sublist.refl _)
    have hname : asText? (Json.text file.name) = some file.name := rfl
    have hblocks := ReadsBack.list (Block.readsBack_all file.blocks) budget
    simp only [depth_toJson_le_iff]
    rw [ofJson?, hfields]
    simp [Fields.required?, Fields.withDefault?, List.lookup_cons, hname, hblocks, bind_if]

lemma isIntegral_document (files : List OutputFile) : (document files).isIntegral = true := by
  refine isIntegral_array_iff.2 (List.forall_mem_map.2 fun file _ => ?_)
  have hblocks : (ofList Block.toJson file.blocks).isIntegral = true :=
    isIntegral_array_iff.2 (List.forall_mem_map.2 (Block.isIntegral_toJson_all file.blocks))
  rw [toJson_eq, isIntegral_record_iff, List.forall_mem_cons, List.forall_mem_singleton]
  exact ⟨rfl, hblocks⟩

/-- Files fit in a budget if none of their blocks lies too deep. -/
theorem depth_document_le_iff {files : List OutputFile} {n : Nat} :
    (document files).depth ≤ n + 3 ↔
      ∀ file ∈ files, ∀ level block, Block.LiesAt file.blocks level block → 2 * level ≤ n + 1 := by
  have hfile (file : OutputFile) : file.toJson.depth ≤ n + 2 ↔
      ∀ level block, Block.LiesAt file.blocks level block → 2 * level ≤ n + 1 := by
    rw [depth_toJson_le_iff, ofList, depth, Nat.succ_le_succ_iff, Block.itemsDepth_le_iff]
  simp only [document, ofList, depth_array_le_iff, List.forall_mem_map, hfile]

lemma readAll_of_read? {text : String} {files : List OutputFile}
    (h : Json.read? text = some (document files)) : readAll text =
      if (document files).depth ≤ nestingLimit then .ok files else .error .malformed := by
  have hfiles := ReadsBack.list (fun file (_ : file ∈ files) => file.readsBack) nestingLimit
  rw [readAll, h, Option.bind_some, document, hfiles]
  by_cases hfits : (ofList toJson files).depth ≤ nestingLimit
  · simp only [if_pos hfits]
  · simp only [if_neg hfits]

/-- The text of the files of an emitter, with or without blanks, spells their document.  It gives
these files back if it nests at most 127 arrays and objects, and is refused if it nests more.  It
nests no more exactly if no block lies deeper than level 62. -/
theorem readAll_document (files : List OutputFile) :
    (Json.read? (document files).compact = some (document files) ∧
      Json.read? (writeAll files) = some (document files)) ∧
    (readAll (document files).compact =
        (if (document files).depth ≤ 127 then .ok files else .error .malformed) ∧
      readAll (writeAll files) =
        (if (document files).depth ≤ 127 then .ok files else .error .malformed)) ∧
    ((document files).depth ≤ 127 ↔
      ∀ file ∈ files, ∀ level block, Block.LiesAt file.blocks level block → level ≤ 62) := by
  have hcompact := read?_compact (isIntegral_document files)
  have hpretty : Json.read? (writeAll files) = some (document files) :=
    read?_pretty (isIntegral_document files)
  have hlevels : ∀ level, 2 * level ≤ 124 + 1 ↔ level ≤ 62 := by omega
  refine ⟨⟨hcompact, hpretty⟩, ⟨readAll_of_read? hcompact, readAll_of_read? hpretty⟩, ?_⟩
  simp only [depth_document_le_iff (n := 124), hlevels]

end OutputFile

end Bindery
