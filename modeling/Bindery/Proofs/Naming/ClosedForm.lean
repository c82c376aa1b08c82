import Bindery.Proofs.Failure

/-!
# The name in the end

Normalising goes through the tree three times, and each time through what the one before it left.
What comes of a name can be told from the first tree all the same, for each declaration by itself
(`normalName`): the prefix comes off, the last renaming that means the declaration decides, and the
first character becomes a capital.

All three times a step gives the declaration it is run for a name that depends on that declaration
alone, and running it once more would not change the name again.  So it does not matter how often,
or in which order, a sweep comes to a declaration, only whether it does
(`Progress.decl_sweep_rename`).  A prefix comes off at the functions of the translation units and at
the classes of all namespaces (`mem_prefixTargets_iff`), the renamings and capitals look at every
declaration.
-/

namespace Bindery

/-! ## Sweeps that rename -/

/-- A sweep whose step gives a name, and the same one when run again, gives it to the declarations
that it comes to and leaves the others as they are. -/
theorem Progress.decl_sweep_rename {step : Tree → Nat → Progress} {f : Decl → String}
    (hstep : ∀ u id, (step u id).tree = u.edit id (.rename (f (u.decl id))))
    (hagain : ∀ d : Decl, f { d with name := f d } = f d) (ids : List Nat) {t : Tree}
    {i : Nat} (hi : i < t.size) :
    (sweep step ids t).tree.decl i =
      if i ∈ ids then { t.decl i with name := f (t.decl i) } else t.decl i := by
  induction ids generalizing t with
  | nil => rfl
  | cons id ids ih =>
    have hfirst : (step t id).tree.decl i =
        if id = i then { t.decl i with name := f (t.decl i) } else t.decl i := by
      rw [hstep, Tree.decl_edit]
      by_cases hid : id = i
      · subst hid
        rw [if_pos ⟨rfl, hi⟩, if_pos rfl]
        rfl
      · rw [if_neg fun h => hid h.1, if_neg hid]
    have hsize : i < (step t id).tree.size := by rwa [hstep, Tree.size_edit]
    rw [sweep_cons, tree_andThen, ih hsize, hfirst]
    by_cases hid : id = i
    · subst hid
      simp [hagain]
    · have hmem : i ∈ id :: ids ↔ i ∈ ids := by
        rw [List.mem_cons, or_iff_right (Ne.symm hid)]
      simp only [if_neg hid, hmem]

/-! ## What becomes of a name -/

/-- The name without the prefix, if it is still the one of the header and something remains. -/
def Decl.strippedName (rule : NamePrefix) (d : Decl) : String :=
  if d.name = d.headerName ∧ rule.takeOff d.name ≠ "" then rule.takeOff d.name else d.name

/-- The name that the last renaming gives to what the header calls `headerName`; without one the
name stays. -/
def Renaming.lastName (renames : List Renaming) (headerName name : String) : String :=
  ((renames.filter (·.headerName = headerName)).getLast?.map (·.name)).getD name

/-- The name with a capital, if the kind is among the targets. -/
def CapitalTarget.capitalName (targets : List CapitalTarget) (kind : Kind) (name : String) :
    String :=
  if targets.any fun target => target.kind = kind then Text.upperFirst name else name

lemma Decl.strippedName_strippedName (rule : NamePrefix) (d : Decl) :
    Decl.strippedName rule { d with name := d.strippedName rule } = d.strippedName rule := by
  by_cases hstrip : d.name = d.headerName ∧ rule.takeOff d.name ≠ ""
  · have hname : d.strippedName rule = rule.takeOff d.name := if_pos hstrip
    rw [hname, strippedName]
    by_cases hsame : rule.takeOff d.name = d.headerName
    · -- nothing was taken off, so nothing is the next time
      have hkept : rule.takeOff d.name = d.name := hsame.trans hstrip.1.symm
      simp only [hkept, ite_self]
    · rw [if_neg fun h => hsame h.1]
  · have hsame : { d with name := d.strippedName rule } = d := by rw [strippedName, if_neg hstrip]
    rw [hsame]

lemma Renaming.lastName_cons (rename : Renaming) (renames : List Renaming)
    (headerName name : String) :
    lastName (rename :: renames) headerName name =
      lastName renames headerName
        (if rename.headerName = headerName then rename.name else name) := by
  unfold lastName
  by_cases hmeant : rename.headerName = headerName
  · rw [if_pos hmeant, List.filter_cons_of_pos (by simpa using hmeant), List.getLast?_cons]
    cases (renames.filter (·.headerName = headerName)).getLast? <;> rfl
  · rw [if_neg hmeant, List.filter_cons_of_neg (by simpa using hmeant)]

namespace Tree

variable {t u : Tree} {rule : NamePrefix} {renames : List Renaming} {targets : List CapitalTarget}
  {id c n p : Nat}

/-! ## Where a prefix comes off -/

/-- Whether a declaration is a function directly in a translation unit, or a class directly in a
translation unit or namespace. -/
def standsFree (t : Tree) (id : Nat) : Bool :=
  match (t.decl id).kind with
  | .function => (t.parent? id).any fun p => (t.decl p).kind = .translationUnit
  | .classType => t.inNamespaceScope id
  | _ => false

lemma standsFree_iff :
    t.standsFree id = true ↔
      ((t.decl id).kind = .function ∧
        ∃ p, t.parent? id = some p ∧ (t.decl p).kind = .translationUnit) ∨
      ((t.decl id).kind = .classType ∧ t.inNamespaceScope id = true) := by
  unfold standsFree
  cases (t.decl id).kind <;> simp [Option.any_eq_true]

/-- What a namespace lies in is a translation unit or a namespace. -/
lemma isNamespaceScope_of_parent? (hn : (t.decl n).kind = .namespaceScope)
    (hp : t.parent? n = some p) : (t.decl p).kind.isNamespaceScope = true := by
  have hstands := t.canContain_parent? (lt_size_of_parent? hp)
  rw [hp, Option.map_some, hn] at hstands
  revert hstands
  cases (t.decl p).kind <;> simp [Kind.canContain, Kind.isNamespaceScope]

lemma parent?_eq_none_iff_of_lt (hid : id < t.size) :
    t.parent? id = none ↔ (t.decl id).kind = .translationUnit := by
  refine ⟨kind_of_parent?_none, fun hkind => ?_⟩
  have hstands := t.canContain_parent? hid
  cases hp : t.parent? id with
  | none => rfl
  | some p =>
    rw [hp, Option.map_some, hkind] at hstands
    revert hstands
    cases (t.decl p).kind <;> simp [Kind.canContain]

lemma mem_classesInNamespaces :
    c ∈ t.classesInNamespaces p ↔
      (∃ n, (t.parent? n = some p ∧ (t.decl n).kind = .namespaceScope) ∧
        c ∈ t.classesInNamespaces n) ∨
      (t.parent? c = some p ∧ (t.decl c).kind = .classType) := by
  rw [classesInNamespaces]
  simp only [List.flatMap_subtype, List.unattach_attach, List.mem_append, List.mem_flatMap,
    mem_childrenOfKind_iff]

lemma standsFree_of_mem_classesInNamespaces (hp : (t.decl p).kind.isNamespaceScope = true)
    (hc : c ∈ t.classesInNamespaces p) :
    (t.decl c).kind = .classType ∧ t.inNamespaceScope c = true := by
  induction p using classesInNamespaces.induct t with
  | case1 p ih =>
    rcases mem_classesInNamespaces.1 hc with ⟨n, hn, hcn⟩ | ⟨hparent, hkind⟩
    · exact ih n (mem_childrenOfKind_iff.2 hn) (by rw [hn.2]; rfl) hcn
    · exact ⟨hkind, by rw [inNamespaceScope, hparent, Option.any_some, hp]⟩

/-- The classes of a namespace are among those of the translation unit around it. -/
lemma exists_translationUnit_of_mem_classesInNamespaces (hlt : p < t.size)
    (hp : (t.decl p).kind.isNamespaceScope = true) (hc : c ∈ t.classesInNamespaces p) :
    ∃ unit ∈ t.translationUnits, c ∈ t.classesInNamespaces unit := by
  -- outwards, since the scope around a namespace comes before it
  induction p using Nat.strong_induction_on with
  | _ p ih =>
    cases houter : t.parent? p with
    | none => exact ⟨p, mem_translationUnits_iff.2 ⟨hlt, houter⟩, hc⟩
    | some q =>
      have hkind : (t.decl p).kind = .namespaceScope := by
        have hunit : (t.decl p).kind ≠ .translationUnit := fun hkind => by
          rw [(parent?_eq_none_iff_of_lt hlt).2 hkind] at houter
          exact absurd houter (by simp)
        revert hp hunit
        cases (t.decl p).kind <;> simp [Kind.isNamespaceScope]
      have hq := parent?_lt houter
      exact ih q hq (Nat.lt_trans hq hlt) (isNamespaceScope_of_parent? hkind houter)
        (mem_classesInNamespaces.2 (.inl ⟨p, ⟨houter, hkind⟩, hc⟩))

/-- A prefix comes off at any depth of namespaces for classes, and for functions at none. -/
theorem mem_prefixTargets_iff : id ∈ t.prefixTargets ↔ t.standsFree id = true := by
  rw [standsFree_iff, prefixTargets, List.mem_flatMap]
  constructor
  · rintro ⟨unit, hunit, hid⟩
    have hkind := kind_of_parent?_none (mem_translationUnits_iff.1 hunit).2
    rcases List.mem_append.1 hid with hid | hid
    · obtain ⟨hparent, hfunction⟩ := mem_childrenOfKind_iff.1 hid
      exact .inl ⟨hfunction, unit, hparent, hkind⟩
    · exact .inr (standsFree_of_mem_classesInNamespaces (by rw [hkind]; rfl) hid)
  · rintro (⟨hfunction, unit, hparent, hkind⟩ | ⟨hclass, hscope⟩)
    · have hlt := Nat.lt_trans (parent?_lt hparent) (lt_size_of_parent? hparent)
      refine ⟨unit, mem_translationUnits_iff.2 ⟨hlt, (parent?_eq_none_iff_of_lt hlt).2 hkind⟩, ?_⟩
      exact List.mem_append_left _ (mem_childrenOfKind_iff.2 ⟨hparent, hfunction⟩)
    · obtain ⟨p, hparent, hp⟩ := (Option.any_eq_true _ _).1 hscope
      have hlt := Nat.lt_trans (parent?_lt hparent) (lt_size_of_parent? hparent)
      obtain ⟨unit, hunit, hid⟩ := exists_translationUnit_of_mem_classesInNamespaces hlt hp
        (mem_classesInNamespaces.2 (.inr ⟨hparent, hclass⟩))
      exact ⟨unit, hunit, List.mem_append_right _ hid⟩

/-! ## Each time by itself -/

lemma tree_takeOffPrefixOf (rule : NamePrefix) (t : Tree) (id : Nat) :
    (takeOffPrefixOf rule t id).tree = t.edit id (.rename ((t.decl id).strippedName rule)) := by
  have hsame (hname : (t.decl id).strippedName rule = (t.decl id).name) :
      t.edit id (.rename ((t.decl id).strippedName rule)) = t := by
    rw [hname]
    exact edit_eq_self rfl
  rcases takeOffPrefixOf_cases rule t id with ⟨hkept, hidle⟩ | ⟨hnot, htree⟩
  · rw [hidle.1, hsame]
    rcases hkept with hkept | hkept | hkept <;> simp [Decl.strippedName, hkept]
  · rw [htree, Decl.strippedName, if_pos]
    simp only [Unprefixed, not_or, not_not] at hnot
    exact ⟨hnot.1, hnot.2.2⟩

lemma tree_giveName (name : String) (t : Tree) (id : Nat) :
    (giveName name t id).tree = t.edit id (.rename name) := by
  unfold giveName
  split
  · next hname =>
    rw [← hname]
    exact (edit_eq_self rfl).symm
  · rfl

lemma tree_capitaliseOne (targets : List CapitalTarget) (t : Tree) (id : Nat) :
    (capitaliseOne targets t id).tree =
      t.edit id (.rename
        (CapitalTarget.capitalName targets (t.decl id).kind (t.decl id).name)) := by
  unfold capitaliseOne CapitalTarget.capitalName
  dsimp only
  split
  · exact tree_giveName _ t id
  · exact (edit_eq_self rfl).symm

lemma decl_takeOffPrefix (rule : NamePrefix) (hid : id < t.size) :
    (t.takeOffPrefix rule).tree.decl id =
      if t.standsFree id then { t.decl id with name := (t.decl id).strippedName rule }
      else t.decl id := by
  rw [takeOffPrefix, Progress.decl_sweep_rename (f := Decl.strippedName rule)
    (tree_takeOffPrefixOf rule) (Decl.strippedName_strippedName rule) _ hid]
  simp only [mem_prefixTargets_iff]

lemma decl_capitalise (targets : List CapitalTarget) (hid : id < t.size) :
    (t.capitalise targets).tree.decl id =
      { t.decl id with
        name := CapitalTarget.capitalName targets (t.decl id).kind (t.decl id).name } := by
  have hagain (d : Decl) : CapitalTarget.capitalName targets d.kind
      (CapitalTarget.capitalName targets d.kind d.name) =
        CapitalTarget.capitalName targets d.kind d.name := by
    unfold CapitalTarget.capitalName
    split
    · exact Text.upperFirst_upperFirst _
    · rfl
  rw [capitalise, Progress.decl_sweep_rename (f := fun d => CapitalTarget.capitalName targets
    d.kind d.name) (tree_capitaliseOne targets) hagain _ hid, if_pos (mem_walk_iff.2 hid)]

lemma decl_giveNames (h : ∀ r ∈ renames, t.Declares r.headerName) (hid : id < t.size) :
    (t.giveNames renames).tree.decl id =
      { t.decl id with
        name := Renaming.lastName renames (t.decl id).headerName (t.decl id).name } := by
  induction renames generalizing t with
  | nil => rfl
  | cons rename renames ih =>
    obtain ⟨hfirst, hrest⟩ := List.forall_mem_cons.1 h
    set v := (Progress.sweep (giveName rename.name) (t.declaredAs rename.headerName) t).tree with hv
    have hsize : v.size = t.size := Progress.size_sweep (size_giveName rename.name) _ t
    have hdev : t.Develops [.name] v := Progress.sweep_develops (develops_giveName rename.name) _ t
    have hgiven : v.decl id = { t.decl id with
        name := if rename.headerName = (t.decl id).headerName then rename.name
          else (t.decl id).name } := by
      rw [hv, Progress.decl_sweep_rename (f := fun _ => rename.name)
        (tree_giveName rename.name) (fun _ => rfl) _ hid]
      by_cases hmeant : rename.headerName = (t.decl id).headerName
      · rw [if_pos (mem_declaredAs_iff.2 ⟨hid, hmeant.symm⟩), if_pos hmeant]
      · rw [if_neg fun hmem => hmeant (mem_declaredAs_iff.1 hmem).2.symm, if_neg hmeant]
    rw [giveNames_cons hfirst, Outcome.tree_andThen_ofProgress, ← hv,
      ih (fun r hr => (hdev.declares_iff hsize).2 (hrest r hr)) (hsize ▸ hid), hgiven,
      Renaming.lastName_cons]

lemma exists_giveNames_eq_ok_iff :
    (∃ n, (t.giveNames renames).result = .ok n) ↔ ∀ r ∈ renames, t.Declares r.headerName := by
  constructor
  · rintro ⟨n, hn⟩
    by_contra hnot
    obtain ⟨front, rename, hfirst⟩ := exists_firstFailing hnot
    have hfails := (giveNames_eq_error_iff.2 ⟨front, rename, hfirst, rfl, rfl⟩).1
    rw [hn] at hfails
    exact absurd hfails (by simp)
  · intro h
    cases hresult : (t.giveNames renames).result with
    | ok n => exact ⟨n, rfl⟩
    | error e =>
      obtain ⟨front, rename, hfirst, -⟩ := giveNames_eq_error_iff.1 ⟨hresult, rfl⟩
      exact absurd h hfirst.not_forall

/-! ## All three -/

/-- The name that a declaration has in the end: without the prefix, if one comes off it, under the
last name given to it, and with a capital. -/
def normalName (t : Tree) (rule : NamePrefix) (renames : List Renaming)
    (targets : List CapitalTarget) (id : Nat) : String :=
  let d := t.decl id
  let stripped := if t.standsFree id then d.strippedName rule else d.name
  CapitalTarget.capitalName targets d.kind (Renaming.lastName renames d.headerName stripped)

lemma exists_normaliseNames_eq_ok_iff :
    (∃ n, (t.normaliseNames rule renames targets).result = .ok n) ↔
      ∀ r ∈ renames, t.Declares r.headerName := by
  have hnames : (∃ n, ((t.takeOffPrefix rule).tree.giveNames renames).result = .ok n) ↔
      ∀ r ∈ renames, t.Declares r.headerName := by
    simp only [exists_giveNames_eq_ok_iff, declares_takeOffPrefix_iff]
  rw [← hnames]
  rcases normaliseNames_cases t rule renames targets with
    ⟨n, k, hn, hk, -⟩ | ⟨e, he, hresult, -⟩
  · exact ⟨fun _ => ⟨n, hn⟩, fun _ => ⟨k, hk⟩⟩
  · rw [he, hresult]

lemma decl_normaliseNames (h : ∀ r ∈ renames, t.Declares r.headerName) (hid : id < t.size) :
    (t.normaliseNames rule renames targets).tree.decl id =
      { t.decl id with name := t.normalName rule renames targets id } := by
  have hstripped : (t.takeOffPrefix rule).tree.size = t.size := size_takeOffPrefix t rule
  have hnames : ((t.takeOffPrefix rule).tree.giveNames renames).tree.size = t.size :=
    (size_giveNames _ renames).trans hstripped
  have hdeclares : ∀ r ∈ renames, (t.takeOffPrefix rule).tree.Declares r.headerName :=
    fun r hr => declares_takeOffPrefix_iff.2 (h r hr)
  rcases normaliseNames_cases t rule renames targets with ⟨n, k, -, -, htree⟩ | ⟨e, he, -⟩
  · rw [htree, decl_capitalise targets (hnames.symm ▸ hid),
      decl_giveNames hdeclares (hstripped.symm ▸ hid), decl_takeOffPrefix rule hid]
    unfold normalName
    split <;> rfl
  · obtain ⟨n, hn⟩ := exists_giveNames_eq_ok_iff.2 hdeclares
    rw [he] at hn
    exact absurd hn (by simp)

/-- What has lost a prefix loses no other. -/
lemma decl_takeOffPrefix_of_name_ne (rule other : NamePrefix)
    (h : ((t.takeOffPrefix rule).tree.decl id).name ≠ (t.decl id).name) :
    ((t.takeOffPrefix rule).tree.takeOffPrefix other).tree.decl id =
      (t.takeOffPrefix rule).tree.decl id := by
  have hsize := size_takeOffPrefix t rule
  by_cases hid : id < t.size
  · have hrenamed : ((t.takeOffPrefix rule).tree.decl id).name ≠
        ((t.takeOffPrefix rule).tree.decl id).headerName := by
      rcases name_takeOffPrefix t rule id with hkept | ⟨hprefixed, -⟩
      · exact absurd hkept h
      · simp only [Unprefixed, not_or, not_not] at hprefixed
        rwa [(develops_takeOffPrefix t rule).reads Decl.headerName Decl.headerName_shape hid,
          ← hprefixed.1]
    have hname : ((t.takeOffPrefix rule).tree.decl id).strippedName other =
        ((t.takeOffPrefix rule).tree.decl id).name := if_neg fun hname => hrenamed hname.1
    rw [decl_takeOffPrefix other (hsize.symm ▸ hid), hname, ite_self]
  · rw [decl_of_size_le (by rw [size_takeOffPrefix, hsize]; omega),
      decl_of_size_le (by rw [hsize]; omega)]

/-- Normalising succeeds exactly if every renaming means a declaration.  Then it changes nothing but
names, and the name of each declaration becomes `normalName`.  A declaration that has lost a prefix
is left alone when another one, or the same, is taken off. -/
theorem normaliseNames_exact (t : Tree) (rule : NamePrefix) (renames : List Renaming)
    (targets : List CapitalTarget) :
    ((∃ n, (t.normaliseNames rule renames targets).result = .ok n) ↔
        ∀ r ∈ renames, t.Declares r.headerName) ∧
      ((∀ r ∈ renames, t.Declares r.headerName) →
        (t.normaliseNames rule renames targets).tree.size = t.size ∧
          (∀ id, (t.normaliseNames rule renames targets).tree.parent? id = t.parent? id) ∧
          ∀ id < t.size, (t.normaliseNames rule renames targets).tree.decl id =
            { t.decl id with name := t.normalName rule renames targets id }) ∧
      ∀ other id, ((t.takeOffPrefix rule).tree.decl id).name ≠ (t.decl id).name →
        ((t.takeOffPrefix rule).tree.takeOffPrefix other).tree.decl id =
          (t.takeOffPrefix rule).tree.decl id := by
  have hsize := size_normaliseNames t rule renames targets
  refine ⟨exists_normaliseNames_eq_ok_iff, fun h => ⟨hsize, fun id => ?_, fun id hid => ?_⟩,
    fun other id h => decl_takeOffPrefix_of_name_ne rule other h⟩
  · exact (develops_normaliseNames t rule renames targets).parent?_eq_of_size_eq hsize id
  · exact decl_normaliseNames h hid

/-- A class two namespaces down, a function whose name is nothing but the prefix, and a function in
a namespace. -/
def menuTree : Tree :=
  Tree.empty.changed [
    .insert none (.new ⟨"tu:a.h"⟩ "a.h" .translationUnit),
    .insert (some 0) (.new ⟨"ui"⟩ "igui" .namespaceScope),
    .insert (some 1) (.new ⟨"menu"⟩ "menu" .namespaceScope),
    .insert (some 2) (.new ⟨"Item"⟩ "igIgItem" (.classType true [])),
    .insert (some 0) (.new ⟨"open"⟩ "ig" (.function ⟨.void, [], false⟩)),
    .insert (some 1) (.new ⟨"draw"⟩ "igDraw" (.function ⟨.void, [], false⟩))]

/-- The class loses the prefix once, the first function goes by the second of its two renamings, and
the other function keeps its prefix. -/
theorem normaliseNames_exact_menuTree :
    ((menuTree.normaliseNames (.literal "ig") [⟨"ig", "show"⟩, ⟨"ig", "open"⟩]
        [.function]).tree.decl 3).name = "IgItem" ∧
      ((menuTree.normaliseNames (.literal "ig") [⟨"ig", "show"⟩, ⟨"ig", "open"⟩]
        [.function]).tree.decl 4).name = "Open" ∧
      ((menuTree.normaliseNames (.literal "ig") [⟨"ig", "show"⟩, ⟨"ig", "open"⟩]
        [.function]).tree.decl 5).name = "IgDraw" ∧
      (((menuTree.takeOffPrefix (.literal "ig")).tree.takeOffPrefix
        (.literal "Ig")).tree.decl 3).name = "IgItem" := by
  obtain ⟨-, hnames, hagain⟩ := normaliseNames_exact menuTree (.literal "ig")
    [⟨"ig", "show"⟩, ⟨"ig", "open"⟩] [.function]
  have hdeclares : ∀ r ∈ [(⟨"ig", "show"⟩ : Renaming), ⟨"ig", "open"⟩],
      menuTree.Declares r.headerName := by
    have hopen : menuTree.Declares "ig" := ⟨4, by decide +kernel⟩
    simpa using hopen
  obtain ⟨-, -, hdecl⟩ := hnames hdeclares
  refine ⟨?_, ?_, ?_, ?_⟩
  · rw [hdecl 3 (by decide +kernel)]
    decide +kernel
  · rw [hdecl 4 (by decide +kernel)]
    decide +kernel
  · rw [hdecl 5 (by decide +kernel)]
    decide +kernel
  · rw [hagain (.literal "Ig") 3 (by decide +kernel)]
    decide +kernel

end Tree

end Bindery
