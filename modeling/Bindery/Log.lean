/-!
# The log

Messages written while a tree is loaded, questioned or changed.  A message is data like any other:
a computation that may write some returns them beside its value.

`Logged` is such a computation; running one after another appends their messages in order
(`log_bind`).
-/

namespace Bindery

/-- How serious a message is. -/
inductive Level where
  | error
  | warn
  | info
  deriving DecidableEq, Repr, Inhabited

namespace Level

/-- The level as it is written in front of a message. -/
def label : Level → String
  | .error => "ERROR"
  | .warn => "WARN"
  | .info => "INFO"

/-- How far down the scale of importance a level lies. -/
def rank : Level → Nat
  | .error => 0
  | .warn => 1
  | .info => 2

end Level

/-- A message with its level. -/
structure Message where
  level : Level
  text : String
  deriving DecidableEq, Repr, Inhabited

/-- Messages in the order they were written. -/
abbrev Log := List Message

/-- A value and the messages written on the way to it. -/
structure Logged (α : Type) where
  value : α
  log : Log

namespace Logged

variable {α β : Type}

instance : Monad Logged where
  pure a := ⟨a, []⟩
  bind x f := ⟨(f x.value).value, x.log ++ (f x.value).log⟩

/-- Writes one message. -/
def write (level : Level) (text : String) : Logged Unit := ⟨(), [⟨level, text⟩]⟩

/-- Writes an error message. -/
def error (text : String) : Logged Unit := write .error text

/-- Writes a warning. -/
def warn (text : String) : Logged Unit := write .warn text

/-- Writes a piece of information. -/
def info (text : String) : Logged Unit := write .info text

/-- The items of a list that pass a test which may write messages. -/
def filter (test : α → Logged Bool) : List α → Logged (List α)
  | [] => pure []
  | a :: as => do
    let passed ← test a
    let rest ← filter test as
    return if passed then a :: rest else rest

/-! ## Reading a computation -/

@[simp] theorem value_pure (a : α) : (pure a : Logged α).value = a := rfl

@[simp] theorem log_pure (a : α) : (pure a : Logged α).log = [] := rfl

@[simp] theorem value_bind (x : Logged α) (f : α → Logged β) :
    (x >>= f).value = (f x.value).value := rfl

@[simp] theorem log_bind (x : Logged α) (f : α → Logged β) :
    (x >>= f).log = x.log ++ (f x.value).log := rfl

@[simp] theorem value_filter (test : α → Logged Bool) (items : List α) :
    (filter test items).value = items.filter fun a => (test a).value := by
  induction items with
  | nil => rfl
  | cons a as ih => simp [filter, List.filter_cons, ih]

@[simp] theorem log_filter (test : α → Logged Bool) (items : List α) :
    (filter test items).log = items.flatMap fun a => (test a).log := by
  induction items with
  | nil => rfl
  | cons a as ih => simp [filter, ih]

end Logged

end Bindery
