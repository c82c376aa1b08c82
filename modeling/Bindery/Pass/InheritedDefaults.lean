import Bindery.Progress

/-!
# Default values of overrides

A method that overrides a virtual one takes over the default values it leaves out itself, so that a
call through the derived class may leave out what a call through the base may.  The nearest base
with a default gives it.  A default that a required parameter would follow is not taken over: it
could not be used.
-/

namespace Bindery

namespace Signature

/-- The default values of the arguments. -/
def defaults (signature : Signature) : List (Option String) :=
  signature.arguments.map (·.defaultValue)

end Signature

/-- How many places of two lists differ. -/
def differences (before after : List (Option String)) : Nat :=
  (before.zip after).countP fun (a, b) => a ≠ b

/-- Default values put together from own and inherited ones.  An own default is kept; an inherited
one is taken only if every later parameter has one or the other. -/
def mergedDefaults : List (Option String × Option String) → List (Option String)
  | [] => []
  | (own, inherited) :: rest =>
    let usable := rest.all fun (own, inherited) => own.isSome || inherited.isSome
    own.or (if usable then inherited else none) :: mergedDefaults rest

namespace Tree

/-! ## Base classes -/

/-- The class with an identifier. -/
def class? (t : Tree) (usr : Usr) : Option Nat :=
  (t.get? usr).filter fun id => (t.decl id).kind = .classType

/-- The classes reached from base lists, depth first and from left to right, each once.  `unseen`
are the declarations not reached so far; a base that is no class of the tree leads nowhere. -/
def ancestry (t : Tree) (unseen : List Nat) : (bases : List Usr) → List Nat
  | [] => []
  | usr :: bases =>
    match t.class? usr with
    | none => t.ancestry unseen bases
    | some id =>
      if id ∈ unseen then id :: t.ancestry (unseen.erase id) ((t.decl id).bases ++ bases)
      else t.ancestry unseen bases
termination_by bases => (unseen.length, bases.length)
decreasing_by
  · exact Prod.Lex.right _ (by simp)
  · have := List.length_erase_of_mem ‹_›
    have := List.length_pos_of_mem ‹_›
    exact Prod.Lex.left _ _ (by omega)
  · exact Prod.Lex.right _ (by simp)

/-! ## Overriding -/

/-- Whether a method redefines another one that is found in a base class: that one is virtual, of
the same name in the header, and takes the same parameter types. -/
def overrides (t : Tree) (id base : Nat) : Bool :=
  match (t.decl id).method?, (t.decl base).method? with
  | some own, some other =>
    other.isVirtual && (t.decl base).headerName = (t.decl id).headerName &&
      other.signature.hasSameParameters own.signature
  | _, _ => false

/-- The virtual methods that a method overrides, nearest base first.  A static method overrides
none. -/
def overridden (t : Tree) (id : Nat) : List Nat :=
  match (t.decl id).method?, t.parent? id with
  | some own, some owner =>
    if own.isStatic then []
    else
      (t.ancestry t.ids (t.decl owner).bases).flatMap fun base =>
        (t.childrenOfKind base .method).filter (t.overrides id)
  | _, _ => []

/-- The default value that a parameter has in the first of the methods that gives it one. -/
def inheritedDefault? (t : Tree) (methods : List Nat) (index : Nat) : Option String :=
  methods.findSome? fun m => (t.decl m).signature?.bind (·.defaultAt? index)

/-- The default values of a method with those it inherits. -/
def defaultsWithInherited (t : Tree) (id : Nat) (signature : Signature) : List (Option String) :=
  let methods := t.overridden id
  mergedDefaults (signature.defaults.mapIdx fun i own => (own, t.inheritedDefault? methods i))

/-- Takes over default values for one method. -/
def inheritDefaultsOf (t : Tree) (id : Nat) : Progress :=
  match (t.decl id).signature? with
  | none => .unchanged t
  | some signature =>
    let defaults := t.defaultsWithInherited id signature
    ⟨t.edit id (.setDefaults defaults), differences signature.defaults defaults, []⟩

/-- Takes over default values for all methods that are not kept out, in order, so that a later
method inherits what an earlier one has taken over. -/
def inheritDefaults (t : Tree) : Progress :=
  let methods := t.walk.filter fun id => (t.decl id).kind = .method && !(t.decl id).ignored
  Progress.sweep inheritDefaultsOf methods t

end Tree

end Bindery
