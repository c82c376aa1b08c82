import Bindery.Pass.TrailingDefaults
import Bindery.Proofs.Pass.Promotion

/-!
# Only default values that can be used are left

Dropping the unusable default values leaves a list of which nothing more has to be dropped
(`trailingDefaults_trailingDefaults`).  So after the pass every function and method that is not kept
out has usable default values only (`trimmed_dropDefaults`), and it stays so while default values
do.  Promotion adds methods, but a method has the default values of a function without the first,
and a part of a list at its end is as usable as the list (`Trimmed.promoteFunctions`).
-/

namespace Bindery

/-! ## Lists of default values -/

@[simp]
lemma length_trailingDefaults (values : List (Option String)) :
    (trailingDefaults values).length = values.length := by
  induction values with
  | nil => rfl
  | cons value rest ih => simp [trailingDefaults, ih]

/-- Where no parameter is without a default value none has to be dropped. -/
lemma trailingDefaults_of_all {values : List (Option String)}
    (h : values.all (·.isSome) = true) : trailingDefaults values = values := by
  induction values with
  | nil => rfl
  | cons value rest ih =>
    rw [List.all_cons, Bool.and_eq_true] at h
    rw [trailingDefaults, if_pos h.2, ih h.2]

/-- What has been kept once has only default values behind it, so it is kept again. -/
theorem trailingDefaults_trailingDefaults (values : List (Option String)) :
    trailingDefaults (trailingDefaults values) = trailingDefaults values := by
  induction values with
  | nil => rfl
  | cons value rest ih =>
    rw [trailingDefaults, trailingDefaults, ih]
    by_cases h : rest.all (·.isSome) = true
    · rw [trailingDefaults_of_all h, if_pos h]
    · rw [if_neg h, ite_self]

/-- The list is in order if its rest is, and a first value has only values behind it. -/
lemma trailingDefaults_cons_eq_iff {value : Option String} {rest : List (Option String)} :
    trailingDefaults (value :: rest) = value :: rest ↔
      (value.isSome = true → rest.all (·.isSome) = true) ∧ trailingDefaults rest = rest := by
  rw [trailingDefaults, List.cons.injEq]
  refine and_congr_left' ?_
  split
  · next h => simp [h]
  · next h => cases value <;> simp [h]

/-- Values are dropped, but never made up. -/
lemma isSome_of_trailingDefaults {values : List (Option String)} {i : Nat}
    (h : (trailingDefaults values)[i]?.join.isSome = true) : values[i]?.join.isSome = true := by
  induction values generalizing i with
  | nil => exact h
  | cons value rest ih =>
    cases i with
    | zero =>
      rw [trailingDefaults] at h
      split at h
      · exact h
      · simp at h
    | succ i => exact ih h

lemma differences_self (values : List (Option String)) : differences values values = 0 := by
  induction values with
  | nil => rfl
  | cons value rest ih => simpa [differences, List.countP_cons] using ih

/-- Lists without a difference are equal, if they are of one length. -/
lemma eq_of_differences {before after : List (Option String)}
    (hlength : before.length = after.length) (h : differences before after = 0) :
    before = after := by
  refine List.ext_getElem hlength fun i hi hi' => ?_
  have hzip : i < (before.zip after).length := by
    rw [List.length_zip]
    omega
  have hsame := List.countP_eq_zero.1 h _ (List.getElem_mem hzip)
  simpa [List.getElem_zip] using hsame

namespace Tree

variable {t u : Tree} {id : Nat}

/-! ## Giving default values -/

/-- Giving default values replaces the signature in the payload and nothing else. -/
lemma decl_setDefaults {values : List (Option String)} {s : Signature} (hid : id < t.size)
    (hs : (t.decl id).signature? = some s) :
    (t.edit id (.setDefaults values)).decl id =
      { t.decl id with payload := (t.decl id).payload.withSignature (s.withDefaults values) } := by
  rw [decl_edit, if_pos ⟨rfl, hid⟩]
  simp only [Edit.apply, Edit.applyPayload, show (t.decl id).payload.signature? = some s from hs]

/-- What is neither function nor method takes no default values. -/
lemma apply_setDefaults_of_none {d : Decl} (h : d.signature? = none)
    (values : List (Option String)) : (Edit.setDefaults values).apply d = d := by
  have hpayload : d.payload.signature? = none := h
  simp only [Edit.apply, Edit.applyPayload, hpayload]

/-- Behind the end of the tree nothing can be called. -/
lemma lt_size_of_signature? {s : Signature} (h : (t.decl id).signature? = some s) :
    id < t.size := by
  refine lt_size_of_kind fun hkind => ?_
  have hcallable := Decl.signature?_isSome_iff (d := t.decl id)
  rw [h, hkind] at hcallable
  simp [Kind.isCallable] at hcallable

lemma signature?_setDefaults {values : List (Option String)} {s : Signature}
    (hs : (t.decl id).signature? = some s) :
    ((t.edit id (.setDefaults values)).decl id).signature? = some (s.withDefaults values) := by
  rw [decl_setDefaults (lt_size_of_signature? hs) hs]
  revert hs
  unfold Decl.signature?
  cases (t.decl id).payload <;> simp [Payload.signature?, Payload.withSignature]

/-- Giving a function or method the default values it has changes nothing. -/
lemma edit_setDefaults_self {s : Signature} (hs : (t.decl id).signature? = some s) :
    t.edit id (.setDefaults s.defaults) = t := by
  refine ext_reads (size_edit t id _) (fun i _ => parent?_edit t id _ i) fun i _ => ?_
  by_cases hi : id = i
  · subst hi
    rw [decl_setDefaults (lt_size_of_signature? hs) hs, Signature.withDefaults_defaults]
    have hself : (t.decl id).payload.withSignature s = (t.decl id).payload := by
      revert hs
      unfold Decl.signature?
      cases (t.decl id).payload <;> simp [Payload.signature?, Payload.withSignature] <;>
        (rintro rfl; rfl)
    rw [hself]
  · exact decl_edit_of_ne hi _

/-- Default values may be given if there is one for each argument. -/
lemma develops_setDefaults {values : List (Option String)} {s : Signature}
    (hs : (t.decl id).signature? = some s) (hlength : values.length = s.arguments.length) :
    t.Develops [.defaults] (t.edit id (.setDefaults values)) := by
  refine develops_edit (show Edit.Fits (.setDefaults values) _ from fun s' hs' => ?_)
  rw [hs] at hs'
  cases hs'
  exact hlength

/-! ## The pass -/

/-- The default values at a position can all be used. -/
def TrimmedAt (t : Tree) (id : Nat) : Prop :=
  ∀ s, (t.decl id).signature? = some s → trailingDefaults s.defaults = s.defaults

/-- What is not kept out has usable default values only. -/
def Trimmed (t : Tree) : Prop := ∀ id, (t.decl id).ignored = false → t.TrimmedAt id

lemma trimmedAt_iff {d : Option (List (Option String))} (h : (t.decl id).defaults? = d) :
    t.TrimmedAt id ↔ ∀ values ∈ d, trailingDefaults values = values := by
  subst h
  simp [TrimmedAt, Decl.defaults?]

/-- Only giving default values can bring one in front of a required parameter. -/
lemma TrimmedAt.of_develops {free : List Field} (h : t.TrimmedAt id) (hdev : t.Develops free u)
    (hid : id < t.size) (hfree : .defaults ∉ free) : u.TrimmedAt id := by
  have hsame : (t.decl id).defaults? = (u.decl id).defaults? := hdev.same .defaults hfree id hid
  exact (trimmedAt_iff hsame.symm).2 ((trimmedAt_iff rfl).1 h)

lemma Trimmed.of_develops {free : List Field} (h : t.Trimmed) (hdev : t.Develops free u)
    (hsize : u.size = t.size) (hfree : .defaults ∉ free) : u.Trimmed := by
  intro id hign
  by_cases hid : id < t.size
  · exact (h id (hdev.open_of hid hign)).of_develops hdev hid hfree
  · intro s hs
    have := lt_size_of_signature? hs
    omega

/-- What has no signature is left alone; anything else gets the values that are kept. -/
lemma dropDefaultsOf_cases (t : Tree) (id : Nat) :
    ((t.decl id).signature? = none ∧ t.dropDefaultsOf id = .unchanged t) ∨
      ∃ s, (t.decl id).signature? = some s ∧
        (t.dropDefaultsOf id).tree = t.edit id (.setDefaults (trailingDefaults s.defaults)) ∧
        (t.dropDefaultsOf id).changes = differences s.defaults (trailingDefaults s.defaults) := by
  unfold dropDefaultsOf
  cases hs : (t.decl id).signature? with
  | none => exact .inl ⟨rfl, by simp⟩
  | some s => exact .inr ⟨s, rfl, by simp, by simp⟩

lemma develops_dropDefaultsOf (t : Tree) (id : Nat) :
    t.Develops [.defaults] (t.dropDefaultsOf id).tree := by
  rcases dropDefaultsOf_cases t id with ⟨-, h⟩ | ⟨s, hs, htree, -⟩
  · rw [h]
    exact .refl _ t
  · rw [htree]
    exact develops_setDefaults hs (by simp)

lemma size_dropDefaultsOf (t : Tree) (id : Nat) : (t.dropDefaultsOf id).tree.size = t.size := by
  rcases dropDefaultsOf_cases t id with ⟨-, h⟩ | ⟨s, hs, htree, -⟩
  · rw [h]
    rfl
  · rw [htree, size_edit]

lemma trimmedAt_dropDefaultsOf (t : Tree) (id : Nat) :
    (t.dropDefaultsOf id).tree.TrimmedAt id := by
  rcases dropDefaultsOf_cases t id with ⟨hnone, h⟩ | ⟨s, hs, htree, -⟩
  · rw [h]
    intro s hs
    rw [show (t.decl id).signature? = some s from hs] at hnone
    exact absurd hnone (by simp)
  · intro s' hs'
    rw [htree, signature?_setDefaults hs] at hs'
    cases hs'
    rw [Signature.defaults_withDefaults (by simp), trailingDefaults_trailingDefaults]

/-- Dropping values for one declaration spoils no other. -/
lemma TrimmedAt.of_dropDefaultsOf {i : Nat} (h : t.TrimmedAt i) (id : Nat) :
    (t.dropDefaultsOf id).tree.TrimmedAt i := by
  by_cases hi : id = i
  · rw [← hi]
    exact trimmedAt_dropDefaultsOf t id
  · rcases dropDefaultsOf_cases t id with ⟨-, hsame⟩ | ⟨s, hs, htree, -⟩
    · rwa [hsame]
    · rw [TrimmedAt, htree, decl_edit_of_ne hi]
      exact h

lemma develops_dropDefaults (t : Tree) : t.Develops [.defaults] t.dropDefaults.tree :=
  Progress.sweep_develops develops_dropDefaultsOf _ t

lemma size_dropDefaults (t : Tree) : t.dropDefaults.tree.size = t.size :=
  Progress.size_sweep size_dropDefaultsOf _ t

theorem trimmed_dropDefaults (t : Tree) : t.dropDefaults.tree.Trimmed := by
  intro id hign s hs
  have hdev := develops_dropDefaults t
  have hid : id < t.size := by
    have := lt_size_of_signature? hs
    rwa [size_dropDefaults] at this
  have hsame : (t.decl id).ignored = (t.dropDefaults.tree.decl id).ignored :=
    hdev.same .ignored (by simp) id hid
  have hcallable : (t.decl id).kind.isCallable = true := by
    rw [← hdev.kind_eq hid, ← Decl.signature?_isSome_iff, hs]
    rfl
  refine Progress.sweep_establishes trimmedAt_dropDefaultsOf
    (fun t id i h => h.of_dropDefaultsOf id) id (List.mem_filter.2 ⟨mem_walk_iff.2 hid, ?_⟩) s hs
  rw [hcallable, hsame, hign]
  rfl

/-- Where nothing is out of order nothing is dropped. -/
lemma Trimmed.idle (h : t.Trimmed) : t.dropDefaults.Idle t := by
  refine Progress.sweep_idle fun id hid => ?_
  have hign : (t.decl id).ignored = false := by
    have htest := (List.mem_filter.1 hid).2
    rw [Bool.and_eq_true, Bool.not_eq_true'] at htest
    exact htest.2
  rcases dropDefaultsOf_cases t id with ⟨-, hsame⟩ | ⟨s, hs, htree, hchanges⟩
  · rw [hsame]
    exact Progress.idle_unchanged t
  · rw [h id hign s hs] at htree hchanges
    exact ⟨htree.trans (edit_setDefaults_self hs), hchanges.trans (differences_self _)⟩

/-! ## Promotion -/

lemma TrimmedAt.of_promoteOne {function : Nat} (hfunction : t.TrimmedAt function)
    (h : id < t.size → t.TrimmedAt id) (strip : Bool) :
    (t.promoteOne strip function).tree.TrimmedAt id := by
  by_cases hid : id < t.size
  · exact (h hid).of_develops (develops_promoteOne strip t function) hid (by simp)
  intro s hs
  have hlt := lt_size_of_signature? hs
  rcases promoteOne_cases strip t function with ⟨-, hidle⟩ | ⟨p, grown, hp, hgrown, htree, -⟩
  · rw [hidle.1] at hlt
    exact absurd hlt hid
  · -- The last declaration is the new method; it lacks the first argument of the function.
    obtain ⟨-, -, -, -, s', first, rest, hs', harguments, hmethod⟩ := of_promotion? hp
    rw [htree, size_edit, size_of_insert hgrown] at hlt
    have hsignature : ((grown.edit function .ignore).decl id).signature? = p.method.signature? := by
      have hdecl : grown.decl id = p.method := by rw [decl_of_insert hgrown, if_pos (by omega)]
      rw [decl_edit, hdecl]
      split <;> rfl
    rw [htree, hsignature, hmethod] at hs
    cases hs
    have htrimmed := hfunction s' hs'
    rw [Signature.defaults, harguments, List.map_cons, trailingDefaults_cons_eq_iff] at htrimmed
    exact htrimmed.2

/-- The method made of a function has default values that can be used if the function has. -/
theorem Trimmed.promoteFunctions (h : t.Trimmed) (strip : Bool) :
    (t.promoteFunctions strip).tree.Trimmed := by
  rw [promoteFunctions_eq]
  -- A promotion hides the function, so the invariant has to mention the functions to be promoted.
  intro id hid
  refine Progress.sweep_invariant
    (I := fun u => ∀ id, (u.decl id).ignored = false ∨ id ∈ t.walk.filter t.isFreeFunction →
      u.TrimmedAt id) ?_ ?_ id (.inl hid)
  · intro function hfunction u hu id hid
    refine (hu function (.inr hfunction)).of_promoteOne (fun hlt => hu id ?_) strip
    exact hid.imp_left fun hopen => (develops_promoteOne strip u function).open_of hlt hopen
  · rintro id (hid | hid)
    · exact h id hid
    · have hfree := (List.mem_filter.1 hid).2
      simp only [isFreeFunction, Bool.and_eq_true, Bool.not_eq_true'] at hfree
      exact h id hfree.1.2

end Tree

end Bindery
