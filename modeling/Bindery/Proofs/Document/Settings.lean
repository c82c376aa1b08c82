import Bindery.Config
import Bindery.Proofs.Json.Decoding

/-!
# Reading settings back

What is written for each of the settings of a binding is read back as the same setting: prefixes,
kinds of names, renamings, selectors, passes and substitutions.

All of them are texts, or records of texts and truth values.  Where a setting has several variants
the word of the variant stands first in its record, under a key that no other member has.
-/

namespace Bindery

open Json

/-! ## Texts -/

lemma readsBackFlat_text (s : String) : ReadsBackFlat Json.text (fun _ => asText?) s :=
  ⟨(isPlain_text s).isFlat, fun budget => (if_pos (Nat.zero_le budget)).symm⟩

/-- Each target has a word of its own. -/
theorem CapitalTarget.readsBackFlat (target : CapitalTarget) :
    ReadsBackFlat toJson ofJson? target := by
  refine ⟨(isPlain_text _).isFlat, fun budget => ?_⟩
  rw [toJson, ofJson?, Json.text, asVariant?, lookup_word]
  exact (if_pos (Nat.zero_le budget)).symm

/-! ## Records -/

theorem Renaming.readsBackFlat (rename : Renaming) : ReadsBackFlat toJson ofJson? rename :=
  .of_record rfl (by simp [isPlain_text]) rfl fun _ => rfl

theorem Substitution.readsBackFlat (s : Substitution) : ReadsBackFlat toJson ofJson? s :=
  .of_record rfl (by simp [isPlain_text]) rfl fun _ => rfl

/-! ## Variants -/

/-- A variant without settings has nothing behind its tag. -/
lemma followsTag_nil (tag : String) : FollowsTag tag [] :=
  ⟨List.forall_mem_nil _, List.not_mem_nil⟩

theorem NamePrefix.readsBackFlat (rule : NamePrefix) : ReadsBackFlat toJson ofJson? rule := by
  cases rule with
  | nothing => exact (followsTag_nil "mode").readsBackFlat rfl rfl
  | literal text =>
    have h : FollowsTag "mode" [("prefix", Json.text text)] := ⟨by simp [isPlain_text], by simp⟩
    exact h.readsBackFlat rfl rfl
  | charSet chars =>
    have h : FollowsTag "mode" [("chars", Json.text chars)] := ⟨by simp [isPlain_text], by simp⟩
    exact h.readsBackFlat rfl rfl

theorem Selector.readsBackFlat (selector : Selector) :
    ReadsBackFlat toJson ofJson? selector := by
  cases selector with
  | global name =>
    have h : FollowsTag "select" [("name", Json.text name)] := ⟨by simp [isPlain_text], by simp⟩
    exact h.readsBackFlat rfl rfl
  | property className propertyName =>
    have h : FollowsTag "select"
        [("class", Json.text className), ("property", Json.text propertyName)] :=
      ⟨by simp [isPlain_text], by simp⟩
    exact h.readsBackFlat rfl rfl

/-- A pass is read back with its setting, whether that was written or has its default value. -/
theorem Pass.readsBackFlat (pass : Pass) : ReadsBackFlat toJson ofJson? pass := by
  cases pass with
  | promoteFunctions stripClassPrefix =>
    have h : FollowsTag "pass" [("strip_class_prefix", .bool stripClassPrefix)] :=
      ⟨by simp [isPlain_bool], by simp⟩
    exact h.readsBackFlat rfl rfl
  | separateNames => exact (followsTag_nil "pass").readsBackFlat rfl rfl
  | classifyEnums => exact (followsTag_nil "pass").readsBackFlat rfl rfl
  | inheritDefaults => exact (followsTag_nil "pass").readsBackFlat rfl rfl
  | dropDefaults => exact (followsTag_nil "pass").readsBackFlat rfl rfl
  | publishNestedTypes => exact (followsTag_nil "pass").readsBackFlat rfl rfl
  | leaveHandlesToHand => exact (followsTag_nil "pass").readsBackFlat rfl rfl

end Bindery
