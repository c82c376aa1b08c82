import Bindery.Pipeline
import Bindery.Proofs.Pass.Run

/-!
# The changes that are made

Whatever is done to a tree comes down to additions and edits.  `Changes` has, for each thing that
can be done, the list of them in the order in which they are made.  The list is told from the tree
that is there before, so it can be followed by anything that understands single changes, such as an
arena.

Making the changes of a list leads to the tree that is left behind, also where there is a failure on
the way (`Changes.changed_suppress`, `Changes.changed_normaliseNames`, `Changes.changed_ofPass`,
`Changes.changed_process`).  Each of these goes back to what one step changes:
`Changes.changed_sweep` carries that through a sweep, and `Changes.changed_andThen` from one thing
to the next.
-/

namespace Bindery.Changes

variable {ε : Type}

/-! ## Several steps -/

/-- The changes of a sweep, each step of which makes its own on the tree it finds. -/
def sweep (changes : Tree → Nat → List Change) : (ids : List Nat) → Tree → List Change
  | [], _ => []
  | id :: ids, t => changes t id ++ sweep changes ids (t.changed (changes t id))

/-- The changes of something and of what is done next, unless there was a failure. -/
def andThen (o : Outcome ε) (changes : List Change) (next : Tree → List Change) : List Change :=
  match o.result with
  | .error _ => changes
  | .ok _ => changes ++ next o.tree

/-- If the changes of a step lead where the step does, those of a sweep lead where that does. -/
lemma changed_sweep {step : Tree → Nat → Progress} {changes : Tree → Nat → List Change}
    (h : ∀ t id, t.changed (changes t id) = (step t id).tree) (ids : List Nat) (t : Tree) :
    t.changed (sweep changes ids t) = (Progress.sweep step ids t).tree := by
  induction ids generalizing t with
  | nil => rfl
  | cons id ids ih =>
    rw [sweep, Tree.changed_append, ih, h]
    rfl

/-- After a failure the changes made so far are all there are. -/
lemma changed_andThen {o : Outcome ε} {next : Tree → Outcome ε} {changes : List Change}
    {nextChanges : Tree → List Change} {t : Tree} (h : t.changed changes = o.tree)
    (hnext : ∀ u : Tree, u.changed (nextChanges u) = (next u).tree) :
    t.changed (andThen o changes nextChanges) = (o.andThen next).tree := by
  unfold andThen
  cases hresult : o.result with
  | error e => rw [Outcome.andThen_of_error hresult, h]
  | ok n => rw [Outcome.andThen_of_ok hresult, Tree.changed_append, h, hnext]

/-! ## Selectors -/

def ignoreOne (t : Tree) (id : Nat) : List Change :=
  if (t.decl id).ignored then [] else [.edit id .ignore]

lemma changed_ignoreOne (t : Tree) (id : Nat) :
    t.changed (ignoreOne t id) = (t.ignoreOne id).tree := by
  unfold ignoreOne Tree.ignoreOne
  split <;> rfl

/-- Selectors that fail change nothing, as all of them are resolved first. -/
def suppress (t : Tree) (selectors : List Selector) : List Change :=
  match (t.selectAll selectors).value with
  | .error _ => []
  | .ok ids => sweep ignoreOne ids t

theorem changed_suppress (t : Tree) (selectors : List Selector) :
    t.changed (suppress t selectors) = (t.suppress selectors).tree := by
  unfold suppress Tree.suppress Tree.ignoreSelected
  cases (t.selectAll selectors).value with
  | error e => rfl
  | ok ids => exact changed_sweep changed_ignoreOne ids t

/-! ## Names -/

def takeOffPrefixOf (rule : NamePrefix) (t : Tree) (id : Nat) : List Change :=
  let d := t.decl id
  let stripped := rule.takeOff d.name
  if d.name ≠ d.headerName || stripped = d.name then []
  else if stripped = "" then []
  else [.edit id (.rename stripped)]

def giveName (name : String) (t : Tree) (id : Nat) : List Change :=
  if (t.decl id).name = name then [] else [.edit id (.rename name)]

/-- The changes up to the first renaming that means no declaration. -/
def giveNames (t : Tree) : List Renaming → List Change
  | [] => []
  | rename :: renames =>
    match t.declaredAs rename.headerName with
    | [] => []
    | ids =>
      let given := sweep (giveName rename.name) ids t
      given ++ giveNames (t.changed given) renames

def capitaliseOne (targets : List CapitalTarget) (t : Tree) (id : Nat) : List Change :=
  if targets.any fun target => target.kind = (t.decl id).kind then
    giveName (Text.upperFirst (t.decl id).name) t id
  else []

/-- Names are made to begin with a capital only if all renamings have meant something. -/
def normaliseNames (t : Tree) (rule : NamePrefix) (renames : List Renaming)
    (targets : List CapitalTarget) : List Change :=
  let stripped := Outcome.ofProgress (t.takeOffPrefix rule)
  andThen (stripped.andThen (·.giveNames renames))
    (andThen stripped (sweep (takeOffPrefixOf rule) t.prefixTargets t) (giveNames · renames))
    fun u => sweep (capitaliseOne targets) u.walk u

lemma changed_takeOffPrefixOf (rule : NamePrefix) (t : Tree) (id : Nat) :
    t.changed (takeOffPrefixOf rule t id) = (Tree.takeOffPrefixOf rule t id).tree := by
  unfold takeOffPrefixOf Tree.takeOffPrefixOf
  dsimp only
  split
  · rfl
  · split <;> rfl

lemma changed_giveName (name : String) (t : Tree) (id : Nat) :
    t.changed (giveName name t id) = (Tree.giveName name t id).tree := by
  unfold giveName Tree.giveName
  split <;> rfl

/-- The renamings in front of the first that means nothing are carried out. -/
lemma changed_giveNames (t : Tree) (renames : List Renaming) :
    t.changed (giveNames t renames) = (t.giveNames renames).tree := by
  induction renames generalizing t with
  | nil => rfl
  | cons rename renames ih =>
    rw [giveNames, Tree.giveNames]
    cases t.declaredAs rename.headerName with
    | nil => rfl
    | cons id ids =>
      simp only [Tree.changed_append, ih, changed_sweep (changed_giveName rename.name)]
      rfl

lemma changed_capitaliseOne (targets : List CapitalTarget) (t : Tree) (id : Nat) :
    t.changed (capitaliseOne targets t id) = (Tree.capitaliseOne targets t id).tree := by
  unfold capitaliseOne Tree.capitaliseOne
  dsimp only
  split
  · exact changed_giveName _ t id
  · rfl

theorem changed_normaliseNames (t : Tree) (rule : NamePrefix) (renames : List Renaming)
    (targets : List CapitalTarget) :
    t.changed (normaliseNames t rule renames targets) =
      (t.normaliseNames rule renames targets).tree := by
  unfold normaliseNames Tree.normaliseNames
  refine changed_andThen (changed_andThen ?_ fun u => ?_) fun u => ?_
  · exact changed_sweep (changed_takeOffPrefixOf rule) t.prefixTargets t
  · exact changed_giveNames u renames
  · exact changed_sweep (changed_capitaliseOne targets) u.walk u

/-! ## Passes -/

/-- A promotion adds the method first, and hides the function then. -/
def promoteOne (strip : Bool) (t : Tree) (id : Nat) : List Change :=
  match (t.promotion? strip id).value with
  | none => []
  | some promotion => [.insert (some promotion.target) promotion.method, .edit id .ignore]

/-- Each renaming takes place before the next declaration is looked at. -/
def separateNames (taken : List String) (uses : List NameUse) : List Nat → Tree → List Change
  | [], _ => []
  | id :: ids, t =>
    let use := NameUse.ofDecl (t.decl id)
    if uses.any (·.clashes use) then
      let fresh := freshName taken use.name
      .edit id (.rename fresh) ::
        separateNames (fresh :: taken) ({ use with name := fresh } :: uses) ids
          (t.edit id (.rename fresh))
    else separateNames taken (use :: uses) ids t

def separateNamesIn (t : Tree) (scope : Nat) : List Change :=
  separateNames ((t.namedChildren scope).map fun id => (t.decl id).name) []
    (t.namedChildren scope) t

def classifyEnum (t : Tree) (id : Nat) : List Change :=
  match (t.decl id).payload with
  | .enumType variants isFlags =>
    if FlagEnum.isFlagSet variants = isFlags then []
    else [.edit id (.setFlags (FlagEnum.isFlagSet variants))]
  | _ => []

/-- Default values are written back also where they are the same. -/
def inheritDefaultsOf (t : Tree) (id : Nat) : List Change :=
  match (t.decl id).signature? with
  | none => []
  | some signature => [.edit id (.setDefaults (t.defaultsWithInherited id signature))]

def dropDefaultsOf (t : Tree) (id : Nat) : List Change :=
  match (t.decl id).signature? with
  | none => []
  | some signature => [.edit id (.setDefaults (trailingDefaults signature.defaults))]

def publish (_ : Tree) (id : Nat) : List Change := [.edit id (.setAccess .isPublic)]

def leaveToHand (_ : Tree) (id : Nat) : List Change :=
  [.edit id .requireManual, .edit id .ignore]

/-- The changes of all rounds that make types public.  They end for the reason the rounds do. -/
def publishRounds (t : Tree) : List Change :=
  match _h : t.mentionedNestedTypes.filter fun id => (t.decl id).access = .isProtected with
  | [] => []
  | id :: ids =>
    sweep publish (id :: ids) t ++ publishRounds (Progress.sweep Tree.publish (id :: ids) t).tree
termination_by t.restricted.length
decreasing_by
  have first : id ∈ t.mentionedNestedTypes.filter fun id => (t.decl id).access = .isProtected :=
    _h ▸ List.mem_cons_self
  exact Tree.restricted_sweep_publish_lt
    (Tree.mem_restricted (of_decide_eq_true (List.mem_filter.1 first).2))

/-- The changes of a pass. -/
def ofPass (pass : Pass) (t : Tree) : List Change :=
  match pass with
  | .promoteFunctions strip => sweep (promoteOne strip) (t.walk.filter t.isFreeFunction) t
  | .separateNames =>
    sweep separateNamesIn (t.walk.filter fun id => !(t.children id).isEmpty) t
  | .classifyEnums => sweep classifyEnum t.walk t
  | .inheritDefaults =>
    sweep inheritDefaultsOf
      (t.walk.filter fun id => (t.decl id).kind = .method && !(t.decl id).ignored) t
  | .dropDefaults =>
    sweep dropDefaultsOf
      (t.walk.filter fun id => (t.decl id).kind.isCallable && !(t.decl id).ignored) t
  | .publishNestedTypes => publishRounds t
  | .leaveHandlesToHand => sweep leaveToHand (Logged.filter t.isUnmarkedHandle t.walk).value t

/-- The changes of passes that are run in order; none of them can fail. -/
def inOrder : List Pass → Tree → List Change
  | [], _ => []
  | pass :: passes, t => ofPass pass t ++ inOrder passes (t.changed (ofPass pass t))

/-- A list of passes that is refused changes nothing. -/
def applyPasses (t : Tree) (passes : List Pass) : List Change :=
  match Pass.checkOrder passes with
  | .error _ => []
  | .ok () => inOrder passes t

/-- A promotion is never refused, so the change that adds the method always takes effect. -/
lemma changed_promoteOne (strip : Bool) (t : Tree) (id : Nat) :
    t.changed (promoteOne strip t id) = (t.promoteOne strip id).tree := by
  rcases Tree.promoteOne_cases strip t id with ⟨hnot, hidle⟩ | ⟨p, grown, hp, hgrown, htree, -⟩
  · rw [promoteOne, Tree.promotion?_eq_none_iff.2 hnot, hidle.1]
    rfl
  · rw [promoteOne, hp, htree, Tree.changed, List.foldl_cons, Tree.change_insert_of_ok hgrown]
    rfl

lemma changed_separateNames (taken : List String) (uses : List NameUse) (ids : List Nat)
    (t : Tree) :
    t.changed (separateNames taken uses ids t) = (Tree.separateNames taken uses ids t).tree := by
  induction ids generalizing taken uses t with
  | nil => rfl
  | cons id ids ih =>
    rw [separateNames, Tree.separateNames]
    split
    · rw [Tree.changed, List.foldl_cons]
      exact ih _ _ _
    · exact ih _ _ _

lemma changed_classifyEnum (t : Tree) (id : Nat) :
    t.changed (classifyEnum t id) = (t.classifyEnum id).tree := by
  unfold classifyEnum Tree.classifyEnum
  cases (t.decl id).payload with
  | enumType variants isFlags =>
    dsimp only
    split <;> rfl
  | _ => rfl

lemma changed_inheritDefaultsOf (t : Tree) (id : Nat) :
    t.changed (inheritDefaultsOf t id) = (t.inheritDefaultsOf id).tree := by
  unfold inheritDefaultsOf Tree.inheritDefaultsOf
  cases (t.decl id).signature? <;> rfl

lemma changed_dropDefaultsOf (t : Tree) (id : Nat) :
    t.changed (dropDefaultsOf t id) = (t.dropDefaultsOf id).tree := by
  unfold dropDefaultsOf Tree.dropDefaultsOf
  cases (t.decl id).signature? <;> rfl

lemma changed_publish (t : Tree) (id : Nat) : t.changed (publish t id) = (t.publish id).tree := rfl

lemma changed_leaveToHand (t : Tree) (id : Nat) :
    t.changed (leaveToHand t id) = (t.leaveToHand id).tree := rfl

/-- Which private types have been reported makes no difference to the changes. -/
lemma changed_publishRounds (t : Tree) (reported : List Nat) :
    t.changed (publishRounds t) = (t.publishRounds reported).tree := by
  induction t, reported using Tree.publishRounds.induct with
  | case1 t reported found hnil =>
    rw [(Tree.publishRounds_of_nil hnil).1, publishRounds]
    split
    · rfl
    · next id ids hcons => exact absurd (hnil.symm.trans hcons) (by simp)
  | case2 t reported found secret id ids hcons published ih =>
    rw [(Tree.publishRounds_of_cons reported hcons).1, publishRounds]
    split
    · next hnil => exact absurd (hnil.symm.trans hcons) (by simp)
    · next i is hcons' =>
      cases hcons'.symm.trans hcons
      rw [Tree.changed_append, changed_sweep changed_publish]
      exact ih

/-- The changes of a pass lead where the pass does. -/
theorem changed_ofPass (pass : Pass) (t : Tree) :
    t.changed (ofPass pass t) = (pass.run t).tree := by
  cases pass with
  | promoteFunctions strip =>
    rw [Pass.run, Tree.promoteFunctions_eq]
    exact changed_sweep (changed_promoteOne strip) _ t
  | separateNames => exact changed_sweep (fun t scope => changed_separateNames _ _ _ t) _ t
  | classifyEnums => exact changed_sweep changed_classifyEnum _ t
  | inheritDefaults => exact changed_sweep changed_inheritDefaultsOf _ t
  | dropDefaults => exact changed_sweep changed_dropDefaultsOf _ t
  | publishNestedTypes => exact changed_publishRounds t []
  | leaveHandlesToHand => exact changed_sweep changed_leaveToHand _ t

lemma changed_inOrder (passes : List Pass) (t : Tree) :
    t.changed (inOrder passes t) = (Pass.runInOrder passes t).tree := by
  induction passes generalizing t with
  | nil => rfl
  | cons pass passes ih =>
    rw [inOrder, Tree.changed_append, ih, changed_ofPass, (Pass.runInOrder_cons pass passes t).1]

lemma changed_applyPasses (t : Tree) (passes : List Pass) :
    t.changed (applyPasses t passes) = (t.applyPasses passes).tree := by
  unfold applyPasses Tree.applyPasses
  cases Pass.checkOrder passes with
  | error e => rfl
  | ok valid => exact changed_inOrder passes t

/-! ## A whole configuration -/

/-- A configuration that is not valid changes nothing. -/
def prepare (config : Config) (t : Tree) : List Change :=
  match config.validate with
  | .error _ => []
  | .ok () =>
    andThen (t.suppress config.suppressed) (suppress t config.suppressed) fun u =>
      normaliseNames u config.namePrefix config.renames config.capitalised

def process (config : Config) (t : Tree) : List Change :=
  andThen (config.prepare t) (prepare config t) (applyPasses · config.passes)

lemma changed_prepare (config : Config) (t : Tree) :
    t.changed (prepare config t) = (config.prepare t).tree := by
  unfold prepare Config.prepare
  cases config.validate with
  | error e => rfl
  | ok valid =>
    exact changed_andThen (changed_suppress t config.suppressed) fun u =>
      changed_normaliseNames u config.namePrefix config.renames config.capitalised

/-- The changes of a configuration lead where processing the tree does, whatever ends it. -/
theorem changed_process (config : Config) (t : Tree) :
    t.changed (process config t) = (config.process t).tree :=
  changed_andThen (changed_prepare config t) fun u => changed_applyPasses u config.passes

end Bindery.Changes
