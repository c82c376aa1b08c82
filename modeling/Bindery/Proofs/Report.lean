import Mathlib.Data.Set.Basic
import Bindery.Proofs.Sweep

/-!
# One message for each

`Reports items report log` says that a log consists of one message for each item of a set, and of
nothing else.  Logs of this kind can be put together where they are about different items
(`Reports.append`, `Reports.flatMap`).

The log of a sweep is that of its steps.  If what a step writes can be told from the first tree, it
does not matter that others have changed the tree before (`Progress.log_sweep`).
-/

namespace Bindery

/-- The warnings among the messages. -/
def Log.warnings (log : Log) : Log := log.filter fun message => message.level = .warn

lemma Log.warnings_append (log log' : Log) :
    Log.warnings (log ++ log') = log.warnings ++ log'.warnings := List.filter_append ..

lemma Log.warnings_map_of_warn {α : Type} {report : α → Message}
    (h : ∀ a, (report a).level = .warn) (items : List α) :
    Log.warnings (items.map report) = items.map report :=
  List.filter_eq_self.2 (List.forall_mem_map.2 fun a _ => decide_eq_true (h a))

/-- There is one message for each item, and no other. -/
def Reports {α : Type} (items : Set α) (report : α → Message) (log : Log) : Prop :=
  ∃ order : List α, order.Nodup ∧ (∀ a, a ∈ order ↔ a ∈ items) ∧ log = order.map report

namespace Reports

variable {α ι : Type} {items items' : Set α} {report report' : α → Message} {log log' : Log}

lemma of_nodup {order : List α} (h : order.Nodup) (report : α → Message) :
    Reports {a | a ∈ order} report (order.map report) :=
  ⟨order, h, fun _ => Iff.rfl, rfl⟩

lemma of_mem_iff (h : Reports items report log) (hmem : ∀ a, a ∈ items' ↔ a ∈ items) :
    Reports items' report log := Set.ext hmem ▸ h

lemma congr (h : Reports items report log) (hreport : ∀ a ∈ items, report' a = report a) :
    Reports items report' log := by
  obtain ⟨order, hnodup, hmem, rfl⟩ := h
  exact ⟨order, hnodup, hmem, List.map_congr_left fun a ha => (hreport a ((hmem a).1 ha)).symm⟩

theorem append (h : Reports items report log) (h' : Reports items' report log')
    (hdisjoint : ∀ a ∈ items, a ∉ items') : Reports (items ∪ items') report (log ++ log') := by
  obtain ⟨order, hnodup, hmem, rfl⟩ := h
  obtain ⟨order', hnodup', hmem', rfl⟩ := h'
  refine ⟨order ++ order', List.nodup_append'.2 ⟨hnodup, hnodup', fun a ha ha' => ?_⟩, fun a => ?_,
    (List.map_append).symm⟩
  · exact hdisjoint a ((hmem a).1 ha) ((hmem' a).1 ha')
  · rw [List.mem_append, hmem, hmem', Set.mem_union]

/-- Logs about different items one after another. -/
theorem flatMap {orders : ι → List α} {ids : List ι} (hids : ids.Nodup)
    (hnodup : ∀ i, (orders i).Nodup) (happart : ∀ i j a, a ∈ orders i → a ∈ orders j → i = j)
    (hmem : ∀ a, a ∈ items ↔ ∃ i ∈ ids, a ∈ orders i) (report : α → Message) :
    Reports items report (ids.flatMap fun i => (orders i).map report) := by
  refine ⟨ids.flatMap orders, List.nodup_flatMap.2 ⟨fun i _ => hnodup i, ?_⟩, fun a => ?_,
    List.map_flatMap.symm⟩
  · exact hids.imp fun {i j} hne a hi hj => hne (happart i j a hi hj)
  · rw [hmem, List.mem_flatMap]

end Reports

namespace Progress

variable {step : Tree → Nat → Progress} {messages : Nat → Log} {ids : List Nat} {t : Tree}

/-- A sweep writes what its steps write.  To tell what that is, something may be kept up about the
tree on the way and the declarations that are still to come. -/
theorem log_sweep {I : List Nat → Tree → Prop}
    (hstep : ∀ id ids u, I (id :: ids) u →
      (step u id).log = messages id ∧ I ids (step u id).tree)
    (h : I ids t) : (sweep step ids t).log = ids.flatMap messages := by
  induction ids generalizing t with
  | nil => rfl
  | cons id ids ih =>
    obtain ⟨hlog, hrest⟩ := hstep id ids t h
    rw [sweep_cons, log_andThen, hlog, ih hrest, List.flatMap_cons]

/-- Steps that change the declaration they are run for only find each as it was in the first
tree. -/
lemma log_sweep_of_own {I : Tree → Prop}
    (hown : ∀ u id, I u → u.decl id = t.decl id → (step u id).log = messages id)
    (hkeep : ∀ u id, I u → u.decl id = t.decl id → I (step u id).tree)
    (hothers : ∀ u {id i}, id ≠ i → (step u id).tree.decl i = u.decl i) (hids : ids.Nodup)
    (ht : I t) : (sweep step ids t).log = ids.flatMap messages := by
  refine log_sweep (I := fun ids u => ids.Nodup ∧ I u ∧ ∀ id ∈ ids, u.decl id = t.decl id) ?_
    ⟨hids, ht, fun _ _ => rfl⟩
  rintro id ids u ⟨hnodup, hu, hsame⟩
  obtain ⟨hid, hnodup⟩ := List.nodup_cons.1 hnodup
  obtain ⟨hhere, hrest⟩ := List.forall_mem_cons.1 hsame
  refine ⟨hown u id hu hhere, hnodup, hkeep u id hu hhere, fun i hi => ?_⟩
  rw [hothers u (ne_of_mem_of_not_mem hi hid).symm, hrest i hi]

end Progress

end Bindery
