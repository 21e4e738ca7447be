import QuakeVm.Fault
import Mathlib.Data.List.Nodup

/-!
# The two views of a traceback

A fault that left a running program is wrapped in the frames of the functions that were active, and a
fault that is wrapped again has its frames in layers. The text of a fault shows the frames of all
layers, the innermost function first; the list of functions names them layer by layer from the
outside. This module says what both views show of nested faults, and when they agree: when frames are
in one layer only. The order of the layers is the only difference, so no function is missing in either
view.
-/

namespace QuakeVm.Fault

/-- The frames of each layer of a fault, the outermost layer first. -/
def layers : Fault → List (List Frame)
  | .plain _ _ => []
  | .traced frames inner _ => frames :: inner.layers

/-- The frames of all layers, the innermost function first. -/
def innermostFirst (f : Fault) : List Frame := f.layers.reverse.flatten

/-- The layers that show something of a traceback. -/
def shownLayers (f : Fault) : List (List Frame) := f.layers.filter (· ≠ [])

theorem innermostFirst_traced (frames : List Frame) (inner : Fault) (k : Context) :
    (traced frames inner k).innermostFirst = inner.innermostFirst ++ frames := by
  simp [innermostFirst, layers]

/-! ## What the views show -/

theorem traceLines_eq_join (f : Fault) :
    f.traceLines = String.join (f.innermostFirst.map Frame.line) := by
  induction f with
  | plain c k => rfl
  | traced frames inner k ih =>
    rw [innermostFirst_traced, traceLines, ih, List.map_append, String.join_append]

theorem functions_eq_flatten (f : Fault) : f.functions = f.layers.flatten.map (·.function) := by
  induction f with
  | plain c k => rfl
  | traced frames inner k ih => rw [functions, ih, layers, List.flatten_cons, List.map_append]

theorem rootMessage_eq_message (f : Fault) : f.rootMessage = f.root.message := by
  induction f with
  | plain c k => rfl
  | traced frames inner k ih => exact ih

/-- The text of a fault: a line for each frame, the innermost function first, and what went wrong. -/
theorem message_eq (f : Fault) :
    f.message = (if f.layers = [] then "" else "Traceback:\n") ++
      String.join (f.innermostFirst.map Frame.line) ++ f.root.message := by
  cases f with
  | plain c k => simp [layers, innermostFirst, root, message]
  | traced frames inner k =>
    have hlayers : (traced frames inner k).layers ≠ [] := List.cons_ne_nil _ _
    rw [← traceLines_eq_join, if_neg hlayers, message, rootMessage_eq_message]
    rfl

/-! ## When the views agree -/

theorem flatten_shownLayers (f : Fault) : f.shownLayers.flatten = f.layers.flatten :=
  List.flatten_filter_ne_nil

theorem flatten_reverse_shownLayers (f : Fault) :
    f.shownLayers.reverse.flatten = f.innermostFirst := by
  rw [shownLayers, ← List.filter_reverse, List.flatten_filter_ne_nil, innermostFirst]

/-- Two layers with frames begin with different functions, if no function occurs twice. So one view
begins with another function than the other one does. -/
theorem length_le_one_of_flatten_eq {ls : List (List String)} (hne : ∀ l ∈ ls, l ≠ [])
    (hnodup : ls.flatten.Nodup) (h : ls.flatten = ls.reverse.flatten) : ls.length ≤ 1 := by
  cases ls with
  | nil => exact Nat.zero_le 1
  | cons first rest =>
    rcases List.eq_nil_or_concat rest with rfl | ⟨middle, last, rfl⟩
    · exact Nat.le_refl 1
    obtain ⟨x, xs, rfl⟩ := List.exists_cons_of_ne_nil (hne first List.mem_cons_self)
    obtain ⟨y, ys, rfl⟩ := List.exists_cons_of_ne_nil (hne last (by simp))
    have hxy : x = y := by simpa using congrArg List.head? h
    simp [hxy] at hnodup

/-- **Both views of a traceback show the same functions**, and they show them in the same order if the
frames are in one layer. For every fault, with tracebacks nested to any depth: its text has one line
for each frame, the innermost function first, and then the text of its root; the list of functions
names the functions of these lines, none missing and none repeated. The list has the order of the lines
if at most one layer has frames, and, where no function is active twice, only then. -/
theorem views_agree (f : Fault) :
    f.message = (if f.layers = [] then "" else "Traceback:\n") ++
        String.join (f.innermostFirst.map Frame.line) ++ f.root.message ∧
      f.functions.Perm (f.innermostFirst.map (·.function)) ∧
      (f.shownLayers.length ≤ 1 → f.functions = f.innermostFirst.map (·.function)) ∧
      (f.functions.Nodup → f.functions = f.innermostFirst.map (·.function) →
        f.shownLayers.length ≤ 1) := by
  refine ⟨f.message_eq, ?_, fun hone => ?_, fun hnodup h => ?_⟩
  · rw [functions_eq_flatten]
    exact ((List.reverse_perm f.layers).flatten.map _).symm
  · have hreverse : f.shownLayers.reverse = f.shownLayers := by
      match hlayers : f.shownLayers with
      | [] | [_] => rfl
      | _ :: _ :: _ => simp [hlayers] at hone
    rw [functions_eq_flatten, ← flatten_reverse_shownLayers, hreverse, flatten_shownLayers]
  · rw [functions_eq_flatten, ← flatten_shownLayers, List.map_flatten] at hnodup h
    rw [← flatten_reverse_shownLayers, List.map_flatten, List.map_reverse] at h
    have hne : ∀ l ∈ f.shownLayers.map (List.map (·.function)), l ≠ [] :=
      List.forall_mem_map.mpr fun l hl => by simpa using (List.mem_filter.mp hl).2
    simpa using length_le_one_of_flatten_eq hne hnodup h

/-- A fault in a function that was called by another one, both of them in one layer, which is wrapped
once more without a frame. -/
def wrappedTwice : Fault :=
  .traced [] (.traced [⟨"think", "misc.qc", 3⟩, ⟨"main", "world.qc", 1⟩] (.plain (.runaway 10) {}) {}) {}

theorem views_agree_wrappedTwice :
    wrappedTwice.layers.length = 2 ∧ wrappedTwice.shownLayers.length ≤ 1 ∧
      wrappedTwice.functions = wrappedTwice.innermostFirst.map (·.function) :=
  have hone : wrappedTwice.shownLayers.length ≤ 1 := by decide
  ⟨rfl, hone, (views_agree wrappedTwice).2.2.1 hone⟩

/-- A fault in `think`, called by `main`, that passed through `outer` as well. -/
def nested : Fault :=
  .traced [⟨"outer", "o.qc", -1⟩]
    (.traced [⟨"think", "misc.qc", 3⟩, ⟨"main", "world.qc", 1⟩] (.plain (.runaway 10) {}) {}) {}

/-- With frames in two layers the views differ: the text has `outer` last and the list has it first. -/
theorem nested_views_differ :
    nested.traceLines = "  - think (misc.qc:3)\n  - main (world.qc:1)\n  - outer (o.qc:-1)\n" ∧
      nested.innermostFirst.map (·.function) = ["think", "main", "outer"] ∧
      nested.functions = ["outer", "think", "main"] ∧
      nested.functions ≠ nested.innermostFirst.map (·.function) :=
  ⟨by decide +kernel, rfl, rfl, by decide⟩

end QuakeVm.Fault
