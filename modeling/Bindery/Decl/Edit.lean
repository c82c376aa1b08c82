import Bindery.Decl.Basic

/-!
# Edits

The changes a declaration can undergo once it is in the tree.  An edit never touches the
identifier, the name in the header or the kind (`usr_apply`, `headerName_apply`, `kind_apply`), so
the place of a declaration in the tree and the ways to find it survive every edit.
-/

namespace Bindery

/-- A change to one declaration. -/
inductive Edit where
  | rename (name : String)
  /-- Keeps the declaration out of the output.  There is no way back. -/
  | ignore
  | setAccess (access : Access)
  /-- New default values for the arguments of a function or method. -/
  | setDefaults (defaults : List (Option String))
  /-- Whether the members of an enumeration are flags. -/
  | setFlags (isFlags : Bool)
  /-- Marks a property as one to be written by hand. -/
  | requireManual
  deriving DecidableEq, Repr

namespace Edit

/-- The payload after an edit. -/
def applyPayload : Edit → Payload → Payload
  | .setDefaults defaults, payload =>
    match payload.signature? with
    | some signature => payload.withSignature (signature.withDefaults defaults)
    | none => payload
  | .setFlags isFlags, .enumType variants _ => .enumType variants isFlags
  | .requireManual, .property type _ => .property type true
  | _, payload => payload

/-- The declaration after an edit. -/
def apply (edit : Edit) (decl : Decl) : Decl :=
  match edit with
  | .rename name => { decl with name }
  | .ignore => { decl with ignored := true }
  | .setAccess access => { decl with access }
  | edit => { decl with payload := edit.applyPayload decl.payload }

/-! ## What an edit leaves alone -/

@[simp]
theorem kind_applyPayload (edit : Edit) (payload : Payload) :
    (edit.applyPayload payload).kind = payload.kind := by
  cases edit <;> cases payload <;> rfl

@[simp]
theorem usr_apply (edit : Edit) (decl : Decl) : (edit.apply decl).usr = decl.usr := by
  cases edit <;> rfl

@[simp]
theorem headerName_apply (edit : Edit) (decl : Decl) :
    (edit.apply decl).headerName = decl.headerName := by
  cases edit <;> rfl

@[simp]
theorem kind_apply (edit : Edit) (decl : Decl) : (edit.apply decl).kind = decl.kind := by
  cases edit <;> simp [apply, Decl.kind]

end Edit

end Bindery
