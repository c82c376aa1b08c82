import Bindery.Json.Decoder
import Bindery.Proofs.Json.Reading
import Mathlib.Logic.Basic

/-!
# Decoding what has been encoded

A decoder that is given a budget takes an encoded value back exactly if the document is not nested
deeper than the budget allows (`ReadsBack`).  This is so for lists and records if it is so for their
items and fields:

* `ReadsBack.list`: lists;
* `fieldsOf?_record`: the fields of a record are its members, if they are known and different;
* `lookup_given`: a field holds the value it was given, or nothing if it was left out;
* `Fields.flag_of_lookup`, `Fields.optional?_of_lookup`, `Fields.list_of_lookup` and
  `Fields.optional?_of_flat`: fields that are left out at their default;
* `Fields.withDefault?_of_kept`: fields that are left out for any other reason;
* `ReadsBackFlat.of_record`, `FollowsTag.readsBackFlat`: records of plain values, without a tag or
  with one.
-/

namespace Bindery.Json

variable {α : Type}

/-- Only a value that is there goes on. -/
lemma bind_if {β : Type} {c : Prop} [Decidable c] (a : α) (next : α → Option β) :
    (if c then some a else none).bind next = if c then next a else none := by
  split <;> rfl

/-- A value is read back if it fits in the budget, and refused if it does not. -/
def ReadsBack (encode : α → Json) (decode : Nat → Json → Option α) (a : α) : Prop :=
  ∀ budget, decode budget (encode a) = if (encode a).depth ≤ budget then some a else none

/-- Values that are read back differ in what is written of them. -/
lemma ReadsBack.eq_of_encode {encode : α → Json} {decode : Nat → Json → Option α} {a b : α}
    (ha : ReadsBack encode decode a) (hb : ReadsBack encode decode b) (h : encode a = encode b) :
    a = b := by
  have hread := ha (encode a).depth
  rw [if_pos (Nat.le_refl _), h, hb, if_pos (Nat.le_refl _)] at hread
  exact (Option.some.inj hread).symm

/-! ## Nesting -/

/-- A record is one level deeper than the deepest of its members. -/
lemma depth_record_le_iff {members : List (String × Json)} {n : Nat} :
    (record members).depth ≤ n + 1 ↔ ∀ m ∈ members, m.2.depth ≤ n := by
  rw [record, depth, Nat.succ_le_succ_iff]
  induction members with
  | nil => simp [membersDepth]
  | cons m ms ih =>
    rw [List.map_cons, membersDepth, Nat.max_le, ih, List.forall_mem_cons]

lemma depth_array_le_iff {items : List Json} {n : Nat} :
    (Json.array items).depth ≤ n + 1 ↔ ∀ v ∈ items, v.depth ≤ n := by
  rw [depth, Nat.succ_le_succ_iff]
  induction items with
  | nil => simp [itemsDepth]
  | cons v vs ih => rw [itemsDepth, Nat.max_le, ih, List.forall_mem_cons]

lemma depth_record_pos (members : List (String × Json)) : 0 < (record members).depth := by
  rw [record, depth]
  exact Nat.succ_pos _

/-- A record has whole numbers only if all its members do. -/
lemma isIntegral_record_iff {members : List (String × Json)} :
    (record members).isIntegral = true ↔ ∀ m ∈ members, m.2.isIntegral = true := by
  rw [record, isIntegral]
  induction members with
  | nil => simp [membersIntegral]
  | cons m ms ih =>
    rw [List.map_cons, membersIntegral, Bool.and_eq_true, ih, List.forall_mem_cons]

lemma isIntegral_array_iff {items : List Json} :
    (Json.array items).isIntegral = true ↔ ∀ v ∈ items, v.isIntegral = true := by
  rw [isIntegral]
  induction items with
  | nil => simp [itemsIntegral]
  | cons v vs ih => rw [itemsIntegral, Bool.and_eq_true, ih, List.forall_mem_cons]

/-! ## Lists -/

/-- Reading a list of written items succeeds exactly if the deepest of them fits the budget. -/
lemma mapM_of_readsBack {encode : α → Json} {decode : Nat → Json → Option α} {items : List α}
    (h : ∀ a ∈ items, ReadsBack encode decode a) (budget : Nat) :
    (items.map encode).mapM (decode budget) =
      if itemsDepth (items.map encode) ≤ budget then some items else none := by
  induction items with
  | nil => rfl
  | cons a as ih =>
    obtain ⟨ha, has⟩ := List.forall_mem_cons.1 h
    rw [List.map_cons, List.mapM_cons, ha budget, ih has, itemsDepth]
    simp only [Nat.max_le, ite_and]
    by_cases hfirst : (encode a).depth ≤ budget
    · by_cases hrest : itemsDepth (as.map encode) ≤ budget
      · simp [hfirst, hrest]
      · simp [hfirst, hrest]
    · simp [hfirst]

/-- A list costs one level of the budget, whatever its length. -/
theorem ReadsBack.list {encode : α → Json} {decode : Nat → Json → Option α} {items : List α}
    (h : ∀ a ∈ items, ReadsBack encode decode a) :
    ReadsBack (ofList encode) (asList? decode) items := by
  intro budget
  cases budget with
  | zero => rfl
  | succ budget => simp only [ofList, asList?, depth, Nat.succ_le_succ_iff, mapM_of_readsBack h]

/-! ## Records -/

/-- All names of a written record are texts, so none is refused for being something else. -/
lemma mapM_named (members : List (String × Json)) :
    (members.map fun (key, v) => ((some key, v) : Literal × Json)).mapM
      (fun ((key, v) : Literal × Json) => key.map (·, v)) = some members := by
  induction members with
  | nil => rfl
  | cons m ms ih =>
    rw [List.map_cons, List.mapM_cons, ih]
    rfl

/-- The fields of a record are its members, if they stand in the order of the known fields. -/
theorem fieldsOf?_record {names : List String} (hnames : names.Nodup)
    {members : List (String × Json)} (h : (members.map (·.1)).Sublist names) :
    fieldsOf? names (record members) = some members := by
  have hknown : (members.filter fun (key, _) => names.contains key) = members := by
    refine List.filter_eq_self.2 fun m hm => ?_
    exact List.contains_iff_mem.2 (h.subset (List.mem_map_of_mem hm))
  rw [record, fieldsOf?, membersOf?, mapM_named]
  simp only [Option.bind_eq_bind, Option.bind_some, hknown]
  rw [if_pos (h.nodup hnames)]

/-! ## What is written and what is left out -/

/-- The members that are written for a list of fields, where a field without a value is left out. -/
def given (fields : List (String × Option Json)) : Fields :=
  fields.filterMap fun field => field.2.map (field.1, ·)

/-- The value of a field that is left out at its default. -/
def valueUnless [DecidableEq α] (default : α) (encode : α → Json) (a : α) : Option Json :=
  if a = default then none else some (encode a)

/-- The value of a field that is left out if its list is empty. -/
def valueOfList (encode : α → Json) (items : List α) : Option Json :=
  if items.isEmpty then none else some (ofList encode items)

section Given

variable {fields : List (String × Option Json)} {encode : α → Json}

lemma given_append (fields more : List (String × Option Json)) :
    given (fields ++ more) = given fields ++ given more :=
  List.filterMap_append

/-- A member that is left out at its default value is a member with an optional value. -/
lemma memberIf_ne_eq_given [DecidableEq α] (key : String) (encode : α → Json) (a default : α) :
    memberIf (a ≠ default) key (encode a) = given [(key, valueUnless default encode a)] := by
  by_cases h : a = default <;> simp [h, memberIf, valueUnless, given]

lemma memberIf_eq_given (key : String) (b : Bool) :
    memberIf b key (.bool true) = given [(key, valueUnless false Json.bool b)] := by
  cases b <;> rfl

lemma memberIf_not_eq_given (key : String) (b : Bool) :
    memberIf (!b) key (.bool false) = given [(key, valueUnless true Json.bool b)] := by
  cases b <;> rfl

/-- A member for an optional value is left out if there is none. -/
lemma memberOf?_eq_given (key : String) (o : Option α) :
    memberOf? key encode o = given [(key, o.map encode)] := by
  cases o <;> rfl

/-- A member for a list is left out if the list is empty. -/
lemma memberOfList_eq_given (key : String) (items : List α) :
    memberOfList key encode items = given [(key, valueOfList encode items)] := by
  cases items <;> rfl

/-- The names that are written are some of the fields' names, in order, so none is written twice. -/
lemma keys_given : ((given fields).map (·.1)).Sublist (fields.map (·.1)) := by
  induction fields with
  | nil => exact List.Sublist.slnil
  | cons field fields ih =>
    obtain ⟨key, v⟩ := field
    cases v with
    | none => exact ih.cons key
    | some v => exact ih.cons_cons key

/-- Only what is given can be wrong. -/
lemma forall_mem_given_iff {P : Json → Prop} :
    (∀ m ∈ given fields, P m.2) ↔ ∀ field ∈ fields, ∀ v ∈ field.2, P v := by
  rw [given, List.forall_mem_filterMap]
  refine forall₂_congr fun field _ => ?_
  cases field.2 <;> simp

/-- Among different fields each one holds the value it was given. -/
theorem lookup_given (hkeys : (fields.map (·.1)).Nodup) {key : String} {v : Option Json}
    (h : (key, v) ∈ fields) : (given fields).lookup key = v := by
  induction fields with
  | nil => simp at h
  | cons field fields ih =>
    obtain ⟨first, w⟩ := field
    obtain ⟨hfirst, hrest⟩ := List.nodup_cons.1 hkeys
    rcases List.mem_cons.1 h with heq | hmem
    · obtain ⟨rfl, rfl⟩ := Prod.mk.inj heq
      cases v with
      | none =>
        have habsent : ∀ m ∈ given fields, (key != m.1) = true := by
          intro m hm
          refine bne_iff_ne.2 fun hkey => hfirst ?_
          exact hkey ▸ keys_given.subset (List.mem_map_of_mem hm)
        exact List.lookup_eq_none_iff.2 habsent
      | some v => exact List.lookup_cons_self
    · have hkey : key ∈ fields.map (·.1) := List.mem_map_of_mem hmem
      have hne : (key == first) = false := by
        refine beq_eq_false_iff_ne.2 fun heq => hfirst ?_
        rwa [← heq]
      cases w with
      | none => exact ih hrest hmem
      | some w =>
        have hskip : given ((first, some w) :: fields) = (first, w) :: given fields := rfl
        rw [hskip, List.lookup_cons, hne]
        exact ih hrest hmem

lemma forall_mem_valueUnless [DecidableEq α] {P : Json → Prop} (encode : α → Json)
    (default : α) {a : α} (h : P (encode a)) : ∀ v ∈ valueUnless default encode a, P v := by
  unfold valueUnless
  split
  · simp
  · simpa using h

lemma isIntegral_valueOfList {items : List α} (h : ∀ a ∈ items, (encode a).isIntegral = true) :
    ∀ v ∈ valueOfList encode items, v.isIntegral = true := by
  cases items with
  | nil => simp [valueOfList]
  | cons a as =>
    have hitems := isIntegral_array_iff.2 (List.forall_mem_map.2 h)
    simpa [valueOfList, ofList] using hitems

end Given

/-! ## Fields that may be left out -/

lemma asOptional?_of_ne_null {v : Json} (h : v ≠ .null) (decode : Json → Option α) :
    asOptional? decode v = (decode v).map some := by
  rw [asOptional?]
  exact h

namespace Fields

variable {fields : Fields} {name : String}

variable {encode : α → Json} {decode : Nat → Json → Option α}

/-- A value that was left out for being the default is the default when it is read. -/
lemma withDefault?_of_lookup [DecidableEq α] {default a : α} {decode : Json → Option α}
    (h : fields.lookup name = valueUnless default encode a) (hread : decode (encode a) = some a) :
    fields.withDefault? name default decode = some a := by
  rw [withDefault?, h, valueUnless]
  by_cases hdefault : a = default
  · rw [if_pos hdefault, hdefault]
  · rw [if_neg hdefault]
    exact hread

/-- A flag is read back, whether it was written or left out. -/
theorem flag_of_lookup {b default : Bool}
    (h : fields.lookup name = valueUnless default Json.bool b) :
    fields.withDefault? name default asBool? = some b :=
  withDefault?_of_lookup h rfl

/-- An optional value that is not nested is read back within any budget. -/
theorem optional?_of_flat {decode : Json → Option α} {o : Option α}
    (h : fields.lookup name = o.map encode) (hnull : ∀ a ∈ o, encode a ≠ .null)
    (hread : ∀ a ∈ o, decode (encode a) = some a) : fields.optional? name decode = some o := by
  rw [optional?, withDefault?, h]
  cases o with
  | none => rfl
  | some a =>
    rw [Option.map_some]
    dsimp only
    rw [asOptional?_of_ne_null (hnull a rfl), hread a rfl, Option.map_some]

/-- An optional value is read back exactly if it was not written at all, or fits the budget. -/
theorem optional?_of_lookup {o : Option α} (h : fields.lookup name = o.map encode)
    (hnull : ∀ a ∈ o, encode a ≠ .null) (hread : ∀ a ∈ o, ReadsBack encode decode a)
    (budget : Nat) : fields.optional? name (decode budget) =
      if ∀ v ∈ o.map encode, v.depth ≤ budget then some o else none := by
  rw [optional?, withDefault?, h]
  cases o with
  | none => simp
  | some a =>
    simp only [Option.map_some, asOptional?_of_ne_null (hnull a rfl), hread a rfl budget,
      Option.mem_some_iff, forall_eq']
    split <;> rfl

/-- A field that is left out is read as its default. -/
theorem withDefault?_of_kept {c : Prop} [Decidable c] (default : α) {a : α} {v : Json}
    {decode : Json → Option α} (h : fields.lookup name = if c then none else some v)
    (hread : decode v = some a) :
    fields.withDefault? name default decode = some (if c then default else a) := by
  rw [withDefault?, h]
  by_cases hc : c
  · simp only [if_pos hc]
  · simp only [if_neg hc, hread]

/-- A list is read back exactly if it was not written at all, or fits the budget. -/
theorem list_of_lookup {items : List α} (h : fields.lookup name = valueOfList encode items)
    (hread : ∀ a ∈ items, ReadsBack encode decode a) (budget : Nat) :
    fields.withDefault? name [] (asList? decode budget) =
      if ∀ v ∈ valueOfList encode items, v.depth ≤ budget then some items else none := by
  rw [withDefault?, h]
  cases items with
  | nil => simp [valueOfList]
  | cons a as =>
    have hlist := ReadsBack.list hread budget
    simpa [valueOfList] using hlist

end Fields

/-! ## Plain and flat values -/

/-- Texts and truth values: nothing is nested in them, and each can be taken in. -/
structure IsPlain (v : Json) : Prop where
  depth_eq : v.depth = 0
  isSound : v.isSound = true
  isIntegral : v.isIntegral = true

lemma isPlain_text (s : String) : (Json.text s).IsPlain := ⟨rfl, rfl, rfl⟩

lemma isPlain_bool (b : Bool) : (Json.bool b).IsPlain := ⟨rfl, rfl, rfl⟩

/-- Plain values and records of them: no list and no record lies inside another one. -/
structure IsFlat (v : Json) : Prop where
  depth_le : v.depth ≤ 1
  isIntegral : v.isIntegral = true

/-- A value without members or items is flat. -/
lemma IsPlain.isFlat {v : Json} (h : v.IsPlain) : v.IsFlat :=
  ⟨Nat.le_trans (Nat.le_of_eq h.depth_eq) (Nat.zero_le 1), h.isIntegral⟩

/-- A value is written flat, and read back. -/
structure ReadsBackFlat (encode : α → Json) (decode : Nat → Json → Option α) (a : α) : Prop where
  isFlat : (encode a).IsFlat
  readsBack : ReadsBack encode decode a

section Flat

variable {encode : α → Json} {decode : Nat → Json → Option α}

lemma ReadsBackFlat.isIntegral_list (h : ∀ a, ReadsBackFlat encode decode a) (items : List α) :
    (ofList encode items).isIntegral = true :=
  isIntegral_array_iff.2 (List.forall_mem_map.2 fun a _ => (h a).isFlat.isIntegral)

/-- Two levels are enough for a list of flat values: one for the list, one for the values. -/
lemma ReadsBackFlat.list (h : ∀ a, ReadsBackFlat encode decode a) (items : List α)
    (budget : Nat) : asList? decode (budget + 2) (ofList encode items) = some items := by
  have hdepth : (ofList encode items).depth ≤ budget + 1 + 1 := by
    refine depth_array_le_iff.2 (List.forall_mem_map.2 fun a _ => ?_)
    exact Nat.le_trans (h a).isFlat.depth_le (Nat.le_add_left 1 budget)
  rw [ReadsBack.list (fun a _ => (h a).readsBack) (budget + 2), if_pos hdepth]

lemma ReadsBackFlat.single {a : α} (h : ReadsBackFlat encode decode a) (budget : Nat) :
    decode (budget + 1) (encode a) = some a := by
  rw [h.readsBack, if_pos (Nat.le_trans h.isFlat.depth_le (Nat.le_add_left 1 budget))]

end Flat

section Plain

variable {members : List (String × Json)}

lemma isSound_record_iff :
    (record members).isSound = true ↔ ∀ m ∈ members, m.2.isSound = true := by
  rw [record, isSound]
  induction members with
  | nil => simp [membersSound]
  | cons m ms ih =>
    rw [List.map_cons, membersSound, Option.isSome_some, Bool.true_and, Bool.and_eq_true, ih,
      List.forall_mem_cons]

/-- A record of plain values is one level deep. -/
lemma depth_record_of_plain (h : ∀ m ∈ members, m.2.IsPlain) : (record members).depth = 1 := by
  have hle : (record members).depth ≤ 0 + 1 :=
    depth_record_le_iff.2 fun m hm => Nat.le_of_eq (h m hm).depth_eq
  exact Nat.le_antisymm hle (depth_record_pos members)

lemma isFlat_record (h : ∀ m ∈ members, m.2.IsPlain) : (record members).IsFlat :=
  ⟨Nat.le_of_eq (depth_record_of_plain h),
    isIntegral_record_iff.2 fun m hm => (h m hm).isIntegral⟩

/-- A record of plain values is read back if it is wherever there is room for a record, and refused
where there is none. -/
theorem ReadsBackFlat.of_record {encode : α → Json} {decode : Nat → Json → Option α} {a : α}
    (ha : encode a = record members) (h : ∀ m ∈ members, m.2.IsPlain)
    (hzero : decode 0 (record members) = none)
    (hsucc : ∀ budget, decode (budget + 1) (record members) = some a) :
    ReadsBackFlat encode decode a := by
  refine ⟨ha ▸ isFlat_record h, fun budget => ?_⟩
  rw [ha, depth_record_of_plain h]
  cases budget with
  | zero => rw [hzero, if_neg (Nat.not_succ_le_zero 0)]
  | succ budget => rw [hsucc, if_pos (Nat.succ_le_succ (Nat.zero_le budget))]

end Plain

/-! ## Tagged variants -/

/-- The tag is told from the other members by its key. -/
lemma partition_tagged {tag : String} (v : Json) {rest : List (Literal × Json)}
    (h : ∀ m ∈ rest, m.1 ≠ some tag) :
    ((some tag, v) :: rest).partition (·.1 = some tag) = ([(some tag, v)], rest) := by
  have hnone : rest.filter (·.1 = some tag) = [] :=
    List.filter_eq_nil_iff.2 fun m hm => by simpa using h m hm
  have hall : rest.filter (not ∘ fun m => decide (m.1 = some tag)) = rest :=
    List.filter_eq_self.2 fun m hm => by simpa using h m hm
  rw [List.partition_eq_filter_filter, List.filter_cons_of_pos (by simp),
    List.filter_cons_of_neg (by simp), hnone, hall]

/-- Without a budget nothing is taken in. -/
lemma asTagged?_zero (tag : String) (members : List (String × Json)) :
    asTagged? tag 0 (record members) = none := by
  have hdepth := depth_record_pos members
  rw [record] at hdepth ⊢
  rw [asTagged?, if_neg]
  simp only [Bool.and_eq_true, decide_eq_true_eq]
  exact fun h => absurd h.1 (Nat.not_le.2 hdepth)

/-- What can be written behind a tag: plain members, none of which has the key of the tag. -/
structure FollowsTag (tag : String) (members : List (String × Json)) : Prop where
  isPlain : ∀ m ∈ members, m.2.IsPlain
  not_mem : tag ∉ members.map (·.1)

namespace FollowsTag

variable {tag : String} {members : List (String × Json)} (h : FollowsTag tag members)

include h

lemma isPlain_cons (word : String) : ∀ m ∈ (tag, Json.text word) :: members, m.2.IsPlain :=
  List.forall_mem_cons.2 ⟨isPlain_text word, h.isPlain⟩

/-- The tag comes off the front of the record, and the rest is read as one. -/
lemma asTagged?_succ (word : String) (budget : Nat) :
    asTagged? tag (budget + 1) (record ((tag, Json.text word) :: members)) =
      some (word, record members) := by
  have hdepth := depth_record_of_plain (h.isPlain_cons word)
  have hsound := isSound_record_iff.2 fun m hm => (h.isPlain_cons word m hm).isSound
  have hrest : ∀ m ∈ members.map fun (key, v) => ((some key, v) : Literal × Json),
      m.1 ≠ some tag := by
    refine List.forall_mem_map.2 fun m hm heq => h.not_mem ?_
    exact Option.some.inj heq ▸ List.mem_map_of_mem hm
  rw [record, List.map_cons] at hdepth hsound ⊢
  rw [asTagged?, hdepth, hsound, partition_tagged _ hrest]
  simp [Json.text, record]

/-- A tagged variant is read back if its word leads to it. -/
theorem readsBackFlat {encode : α → Json} {word : String} {decode : String × Json → Option α}
    {a : α} (ha : encode a = record ((tag, Json.text word) :: members))
    (hword : decode (word, record members) = some a) :
    ReadsBackFlat encode (fun budget v => (asTagged? tag budget v).bind decode) a := by
  refine .of_record ha (h.isPlain_cons word) ?_ fun budget => ?_
  · rw [asTagged?_zero, Option.bind_none]
  · rw [h.asTagged?_succ, Option.bind_some, hword]

end FollowsTag

end Bindery.Json
