import Bindery.Document.Types
import Bindery.Proofs.Json.Decoding

/-!
# Reading types and arguments back

What is written for a type or an argument is read back as the same type or argument, if there is
room for it: a pointer or reference takes two levels of nesting and those of what it refers to.
-/

namespace Bindery

open Json

/-! ## Scalars -/

lemma Usr.readsBack (usr : Usr) : ReadsBack Usr.toJson (fun _ => Usr.ofJson?) usr :=
  fun budget => (if_pos (Nat.zero_le budget)).symm

/-- Every machine integer is a whole number in range. -/
lemma asInt64?_ofInt64 (value : Int64) : asInt64? (ofInt64 value) = some value := by
  have hle : Int64.minValue.toInt ≤ value.toInt := value.minValue_le_toInt
  have hge : value.toInt ≤ Int64.maxValue.toInt := value.toInt_le
  rw [ofInt64, asInt64?, if_pos ⟨hle, hge⟩, Int64.ofInt_toInt]

/-! ## Types -/

namespace TypeName

/-- The word of what a type names, and what stands behind it. -/
lemma toJson_eq (name : TypeName) : ∃ word inner, name.toJson = record [(word, inner)] ∧
    inner.depth = 0 ∧ inner.isIntegral = true ∧ Indirection.ofWord? word = none ∧
    ofJson? word inner = some name := by
  cases name with
  | builtin name => exact ⟨"builtin", Json.text name, rfl, rfl, rfl, rfl, rfl⟩
  | declared usr => exact ⟨"ref", usr.toJson, rfl, rfl, rfl, rfl, rfl⟩
  | unknown spelling => exact ⟨"unknown", Json.text spelling, rfl, rfl, rfl, rfl, rfl⟩

end TypeName

namespace QualType

lemma depth_named (spelling : String) (isConst : Bool) (name : TypeName) :
    (named spelling isConst name).toJson.depth = 2 := by
  obtain ⟨word, inner, hname, hdepth, -⟩ := name.toJson_eq
  simp [toJson, hname, record, depth, membersDepth, hdepth, Json.text]

/-- Each pointer or reference costs two levels: one for the record of the type, one for the
reference in it. -/
lemma depth_indirect (spelling : String) (isConst : Bool) (by_ : Indirection)
    (target : QualType) :
    (indirect spelling isConst by_ target).toJson.depth = target.toJson.depth + 2 := by
  simp [toJson, record, depth, membersDepth, Json.text]

/-- Less than two levels are not enough for any type. -/
lemma ofJson?_of_lt {budget : Nat} (h : budget < 2) (v : Json) : ofJson? budget v = none := by
  rw [ofJson?]
  rintro b rfl
  omega

lemma ofJson?_record (spelling : String) (isConst : Bool) (budget : Nat) (word : String)
    (inner : Json) :
    ofJson? (budget + 2) (record [("name", Json.text spelling), ("is_const", .bool isConst),
        ("type_ref", record [(word, inner)])]) =
      match Indirection.ofWord? word with
      | some by_ => (ofJson? budget inner).map (.indirect spelling isConst by_)
      | none => (TypeName.ofJson? word inner).map (.named spelling isConst) := by
  have hfields (type : Json) : fieldsOf? ["name", "is_const", "type_ref"]
      (record [("name", Json.text spelling), ("is_const", .bool isConst), ("type_ref", type)]) =
      some [("name", Json.text spelling), ("is_const", .bool isConst), ("type_ref", type)] :=
    fieldsOf?_record (by decide) (List.Sublist.refl _)
  rw [ofJson?, hfields]
  cases hword : Indirection.ofWord? word with
  | none =>
    simp [Fields.required?, Fields.withDefault?, List.lookup_cons, record, hword, Json.text,
      asText?, asBool?]
    cases TypeName.ofJson? word inner <;> rfl
  | some by_ =>
    simp [Fields.required?, Fields.withDefault?, List.lookup_cons, record, hword, Json.text,
      asText?, asBool?]
    cases ofJson? budget inner <;> rfl

theorem readsBack (type : QualType) : ReadsBack toJson ofJson? type := by
  induction type with
  | named spelling isConst name =>
    intro budget
    rw [depth_named]
    match budget with
    | 0 => exact ofJson?_of_lt (by decide) _
    | 1 => exact ofJson?_of_lt (by decide) _
    | budget + 2 =>
      obtain ⟨word, inner, hname, -, -, hword, hread⟩ := name.toJson_eq
      rw [toJson, hname, ofJson?_record, hword, hread, if_pos (by omega)]
      rfl
  | indirect spelling isConst by_ target ih =>
    intro budget
    rw [depth_indirect]
    match budget with
    | 0 => exact ofJson?_of_lt (by decide) _
    | 1 => exact ofJson?_of_lt (by decide) _
    | budget + 2 =>
      have hword : Indirection.ofWord? by_.word = some by_ := by cases by_ <;> rfl
      rw [toJson, ofJson?_record, hword, ih budget]
      by_cases hfits : target.toJson.depth ≤ budget
      · rw [if_pos hfits, if_pos (by omega)]
        rfl
      · rw [if_neg hfits, if_neg (by omega)]
        rfl

lemma isIntegral_toJson (type : QualType) : type.toJson.isIntegral = true := by
  induction type with
  | named spelling isConst name =>
    obtain ⟨word, inner, hname, -, hinner, -⟩ := name.toJson_eq
    rw [toJson, hname]
    simp [isIntegral_record_iff, isIntegral, Json.text, hinner]
  | indirect spelling isConst by_ target ih =>
    rw [toJson]
    simp [isIntegral_record_iff, isIntegral, Json.text, ih]

lemma toJson_ne_null (type : QualType) : type.toJson ≠ .null := by
  cases type <;> simp [toJson, record]

end QualType

namespace Argument

/-- The fields of an argument. -/
def fields (argument : Argument) : List (String × Option Json) :=
  [("name", some (Json.text argument.name)), ("type", some argument.type.toJson),
    ("default", argument.defaultValue.map Json.text)]

lemma toJson_eq (argument : Argument) : argument.toJson = record (given argument.fields) := by
  rw [toJson, memberOf?_eq_given]
  rfl

lemma fieldsOf?_toJson (argument : Argument) :
    fieldsOf? ["name", "type", "default"] argument.toJson = some (given argument.fields) := by
  rw [toJson_eq]
  exact fieldsOf?_record (by decide) keys_given

lemma depth_toJson_le_iff (argument : Argument) (budget : Nat) :
    argument.toJson.depth ≤ budget + 1 ↔ argument.type.toJson.depth ≤ budget := by
  rw [toJson_eq, depth_record_le_iff, forall_mem_given_iff (P := (·.depth ≤ budget))]
  simp [fields, Json.text, depth]

theorem readsBack (argument : Argument) : ReadsBack toJson ofJson? argument := by
  intro budget
  cases budget with
  | zero =>
    have hpos : 0 < argument.toJson.depth := depth_record_pos _
    rw [if_neg (by omega)]
    rfl
  | succ budget =>
    have hname : (given argument.fields).required? "name" asText? = some argument.name := rfl
    have htype : (given argument.fields).required? "type" (QualType.ofJson? budget) =
        if argument.type.toJson.depth ≤ budget then some argument.type else none :=
      argument.type.readsBack budget
    have hkeys : (argument.fields.map (·.1)).Nodup := by simp [fields]
    have hlookup : (given argument.fields).lookup "default" =
        argument.defaultValue.map Json.text := lookup_given hkeys (by simp [fields])
    have hdefault : (given argument.fields).optional? "default" asText? =
        some argument.defaultValue :=
      Fields.optional?_of_flat hlookup (fun s _ => by simp [Json.text]) fun s _ => rfl
    rw [ofJson?, argument.fieldsOf?_toJson]
    simp only [Option.bind_eq_bind, Option.bind_some, hname, htype, hdefault,
      argument.depth_toJson_le_iff]
    split <;> rfl

lemma isIntegral_toJson (argument : Argument) : argument.toJson.isIntegral = true := by
  rw [toJson_eq, isIntegral_record_iff, forall_mem_given_iff (P := (·.isIntegral = true))]
  simp [fields, Json.text, isIntegral, argument.type.isIntegral_toJson]

lemma toJson_ne_null (argument : Argument) : argument.toJson ≠ .null := by
  simp [toJson, record]

end Argument

end Bindery
