import AuxCommon.Lib.LinkedMap
import Mathlib.Data.Finset.Insert
import Mathlib.Logic.Relation

/-!
# Search in a finite graph

A graph is a map from vertices to their successors. `walk` visits the vertices of a stack and what
is behind them, each vertex once: a vertex that is taken off the stack and was not visited yet is
visited, and its successors are put on the stack.

- **Termination.** A visit uses up a vertex with successors, or puts nothing on the stack.
- **Result** (`walk_eq_foldl`). From one vertex the walk visits exactly the vertices that can be
  reached from it, the vertex itself among them.
-/

namespace AuxCommon.Search

open List

variable {α β : Type} [DecidableEq α]

def successors (edges : LinkedMap α (List α)) (v : α) : List α := (edges.get? v).getD []

/-- A path of any length, the empty one included. -/
def Reach (edges : LinkedMap α (List α)) : α → α → Prop :=
  Relation.ReflTransGen fun u w => w ∈ successors edges u

/-- The vertices with successors that are not in `visited`. -/
def unvisited (edges : LinkedMap α (List α)) (visited : Finset α) : List (α × List α) :=
  edges.entries.filter fun e => e.1 ∉ visited

theorem unvisited_insert_sublist (edges : LinkedMap α (List α)) (visited : Finset α) (v : α) :
    (unvisited edges (insert v visited)).Sublist (unvisited edges visited) := by
  refine monotone_filter_right _ fun e he => ?_
  simp only [Finset.mem_insert, not_or, decide_eq_true_eq] at he ⊢
  exact he.2

theorem length_unvisited_insert_lt {edges : LinkedMap α (List α)} {visited : Finset α} {v : α}
    {next : List α} (hv : v ∉ visited) (hnext : edges.get? v = some next) :
    (unvisited edges (insert v visited)).length < (unvisited edges visited).length := by
  have hsub := unvisited_insert_sublist edges visited v
  refine lt_of_le_of_ne hsub.length_le fun hlen => ?_
  have hmem : (v, next) ∈ unvisited edges visited :=
    mem_filter.mpr ⟨LinkedMap.mem_entries.mpr hnext, decide_eq_true hv⟩
  rw [← hsub.eq_of_length hlen] at hmem
  simpa using (mem_filter.mp hmem).2

/-- The walk from a stack whose top is the head of the list. -/
def walk (edges : LinkedMap α (List α)) (visit : β → α → β) (visited : Finset α) (stack : List α)
    (out : β) : β :=
  match stack with
  | [] => out
  | v :: stack =>
    if v ∈ visited then walk edges visit visited stack out
    else walk edges visit (insert v visited) ((successors edges v).reverse ++ stack) (visit out v)
termination_by ((unvisited edges visited).length, stack.length)
decreasing_by
  · exact Prod.Lex.right _ (Nat.lt_succ_self _)
  · rename_i hv
    cases hnext : edges.get? v with
    | some next => exact Prod.Lex.left _ _ (length_unvisited_insert_lt hv hnext)
    | none =>
      simp only [successors, hnext, Option.getD_none, List.reverse_nil, List.nil_append]
      have hle := (unvisited_insert_sublist edges visited v).length_le
      rcases hle.eq_or_lt with hle | hle
      · rw [hle]
        exact Prod.Lex.right _ (Nat.lt_succ_self _)
      · exact Prod.Lex.left _ _ hle

/-- What a walk visits from `stack` on, if it has visited `visited` so far. -/
structure Visits (edges : LinkedMap α (List α)) (visited : Finset α) (stack order : List α) :
    Prop where
  reach : ∀ v ∈ order, ∃ r ∈ stack, Reach edges r v
  stack : ∀ r ∈ stack, r ∈ visited ∨ r ∈ order
  closed : ∀ u, u ∈ visited ∨ u ∈ order → ∀ w ∈ successors edges u, w ∈ visited ∨ w ∈ order

variable {edges : LinkedMap α (List α)} {visited : Finset α} {stack order : List α} {v : α}

theorem Visits.skip (h : Visits edges visited stack order) (hv : v ∈ visited) :
    Visits edges visited (v :: stack) order where
  reach w hw := by
    obtain ⟨r, hr, hreach⟩ := h.reach w hw
    exact ⟨r, mem_cons_of_mem v hr, hreach⟩
  stack r hr := by
    rcases mem_cons.mp hr with rfl | hr
    · exact .inl hv
    · exact h.stack r hr
  closed := h.closed

theorem Visits.visit
    (h : Visits edges (insert v visited) ((successors edges v).reverse ++ stack) order) :
    Visits edges visited (v :: stack) (v :: order) := by
  have hmove : ∀ w, w ∈ insert v visited ∨ w ∈ order ↔ w ∈ visited ∨ w ∈ v :: order := by
    intro w
    rw [Finset.mem_insert, mem_cons]
    tauto
  refine ⟨fun w hw => ?_, fun r hr => ?_, fun u hu w hw => ?_⟩
  · rcases mem_cons.mp hw with rfl | hw
    · exact ⟨w, mem_cons_self, .refl⟩
    · obtain ⟨r, hr, hreach⟩ := h.reach w hw
      rcases mem_append.mp hr with hr | hr
      · exact ⟨v, mem_cons_self, .head (mem_reverse.mp hr) hreach⟩
      · exact ⟨r, mem_cons_of_mem v hr, hreach⟩
  · rcases mem_cons.mp hr with rfl | hr
    · exact .inr mem_cons_self
    · exact (hmove r).mp (h.stack r (mem_append_right _ hr))
  · exact (hmove w).mp (h.closed u ((hmove u).mpr hu) w hw)

/-- The successors of what was visited have been visited or are still on the stack. -/
def Pending (edges : LinkedMap α (List α)) (visited : Finset α) (stack : List α) : Prop :=
  ∀ u ∈ visited, ∀ w ∈ successors edges u, w ∈ visited ∨ w ∈ stack

theorem walk_visits (edges : LinkedMap α (List α)) (visit : β → α → β) (visited : Finset α)
    (stack : List α) (out : β) (h : Pending edges visited stack) :
    ∃ order, walk edges visit visited stack out = order.foldl visit out ∧
      Visits edges visited stack order := by
  fun_induction walk edges visit visited stack out with
  | case1 visited out =>
    refine ⟨[], rfl, by simp, by simp, fun u hu w hw => ?_⟩
    exact .inl ((h u (by simpa using hu) w hw).resolve_right not_mem_nil)
  | case2 visited out v stack hv ih =>
    obtain ⟨order, hwalk, hvisits⟩ := ih fun u hu w hw => by
      rcases h u hu w hw with hw | hw
      · exact .inl hw
      · rcases mem_cons.mp hw with rfl | hw
        · exact .inl hv
        · exact .inr hw
    exact ⟨order, hwalk, hvisits.skip hv⟩
  | case3 visited out v stack hv ih =>
    obtain ⟨order, hwalk, hvisits⟩ := ih fun u hu w hw => by
      rcases Finset.mem_insert.mp hu with rfl | hu
      · exact .inr (mem_append_left _ (mem_reverse.mpr hw))
      · rcases h u hu w hw with hw | hw
        · exact .inl (Finset.mem_insert_of_mem hw)
        · rcases mem_cons.mp hw with rfl | hw
          · exact .inl (Finset.mem_insert_self _ _)
          · exact .inr (mem_append_right _ hw)
    exact ⟨v :: order, hwalk, hvisits.visit⟩

/-- A walk from one vertex visits what can be reached from it, in some order. -/
theorem walk_eq_foldl (edges : LinkedMap α (List α)) (visit : β → α → β) (root : α) (out : β) :
    ∃ order : List α, walk edges visit ∅ [root] out = order.foldl visit out ∧
      ∀ v, v ∈ order ↔ Reach edges root v := by
  obtain ⟨order, hwalk, hvisits⟩ := walk_visits edges visit ∅ [root] out (by simp [Pending])
  refine ⟨order, hwalk, fun v => ⟨fun hv => ?_, fun hreach => ?_⟩⟩
  · obtain ⟨r, hr, hreach⟩ := hvisits.reach v hv
    rwa [mem_singleton.mp hr] at hreach
  · induction hreach with
    | refl => simpa using hvisits.stack root mem_cons_self
    | tail _ hedge ih => simpa using hvisits.closed _ (.inr ih) _ hedge

end AuxCommon.Search
