import CrashCourier.Engine
import CrashCourier.Proofs.Reordering
import Mathlib.Data.List.Induction

namespace CrashCourier.Scope

theorem newest_of_length_le {capacity : Nat} {crumbs : List Value} (h : crumbs.length ≤ capacity) :
    newest capacity crumbs = crumbs := by
  have hnone : crumbs.length - capacity = 0 := by omega
  rw [newest, hnone, List.drop_zero]

/-- What gives way to a larger capacity gives way to a smaller one as well. -/
theorem newest_newest_append {small large : Nat} (h : small ≤ large) (crumbs more : List Value) :
    newest small (newest large crumbs ++ more) = newest small (crumbs ++ more) := by
  have hdrop : newest large crumbs ++ more =
      (crumbs ++ more).drop (crumbs.length - large) := by
    rw [List.drop_append_of_le_length (by omega), newest]
  have hlength : (newest large crumbs ++ more).length =
      (crumbs ++ more).length - (crumbs.length - large) := by
    rw [hdrop, List.length_drop]
  have hboth : crumbs.length - large + ((newest large crumbs ++ more).length - small) =
      (crumbs ++ more).length - small := by
    rw [hlength, List.length_append]
    omega
  calc newest small (newest large crumbs ++ more)
      = ((crumbs ++ more).drop (crumbs.length - large)).drop
          ((newest large crumbs ++ more).length - small) := by rw [newest, ← hdrop]
    _ = (crumbs ++ more).drop ((crumbs ++ more).length - small) := by rw [List.drop_drop, hboth]
    _ = newest small (crumbs ++ more) := rfl

/-- Breadcrumbs that come after the newest ones are newer still. -/
theorem newest_append (n : Nat) (crumbs more : List Value) :
    newest n crumbs ++ more = newest (n + more.length) (crumbs ++ more) := by
  have hskip : (crumbs ++ more).length - (n + more.length) = crumbs.length - n := by
    rw [List.length_append]
    omega
  rw [newest, newest, hskip, List.drop_append_of_le_length (by omega)]

theorem newest_newest (m n : Nat) (crumbs : List Value) :
    newest m (newest n crumbs) = newest (min n m) crumbs := by
  simp only [newest, List.drop_drop, List.length_drop]
  congr 1
  omega

namespace Change

/-- The breadcrumbs that a change adds: one or none. -/
def crumbs : Change → List Value
  | addBreadcrumb crumb => [crumb]
  | _ => []

/-- The capacity that a change sets. -/
def capacity? : Change → Option Nat
  | setCapacity capacity => some capacity
  | _ => none

/-- Tags, extra values and users have nothing to do with the history. -/
def concernsHistory : Change → Bool
  | addBreadcrumb _ => true
  | setCapacity _ => true
  | _ => false

end Change

/-- The breadcrumbs that some changes add, oldest first. -/
def added (cs : List Change) : List Value := cs.flatMap Change.crumbs

/-- The capacity after some changes: the last one set, 100 without any. -/
def capacityAfter (cs : List Change) : Nat := (cs.filterMap Change.capacity?).getLast?.getD 100

/-- How many breadcrumbs at the end of a run can be left of those there are after its first `t`
changes: as many as the capacity then allows, and those that are added later. -/
def roomSince (cs : List Change) (t : Nat) : Nat :=
  capacityAfter (cs.take t) + (added (cs.drop t)).length

/-- How many of all breadcrumbs that a run adds are left at its end. -/
def room (cs : List Change) : Nat :=
  ((List.range (cs.length + 1)).map (roomSince cs)).foldl min (added cs).length

variable {s : Scope} {c : Change} {cs : List Change}

theorem changes_concat (s : Scope) (cs : List Change) (c : Change) :
    s.changes (cs ++ [c]) = (s.changes cs).change c := by
  simp only [changes, List.foldl_append, List.foldl_cons, List.foldl_nil]

theorem added_concat (cs : List Change) (c : Change) :
    added (cs ++ [c]) = added cs ++ c.crumbs := by
  simp [added]

theorem capacityAfter_concat (cs : List Change) (c : Change) :
    capacityAfter (cs ++ [c]) = c.capacity?.getD (capacityAfter cs) := by
  rw [capacityAfter, List.filterMap_append]
  cases hc : c.capacity? <;> simp [hc, capacityAfter]

theorem capacity_change (s : Scope) (c : Change) :
    (s.change c).capacity = c.capacity?.getD s.capacity := by
  cases c <;> rfl

theorem capacity_changes (cs : List Change) :
    (fresh.changes cs).capacity = capacityAfter cs := by
  induction cs using List.reverseRecOn with
  | nil => rfl
  | append_singleton cs c ih => rw [changes_concat, capacity_change, ih, capacityAfter_concat]

/-- A change adds what it adds, and then the capacity counts that it leaves. -/
theorem breadcrumbs_change (h : s.breadcrumbs.length ≤ s.capacity) (c : Change) :
    (s.change c).breadcrumbs = newest (s.change c).capacity (s.breadcrumbs ++ c.crumbs) := by
  cases c with
  | addBreadcrumb crumb => rfl
  | setCapacity capacity =>
    rw [Change.crumbs.eq_def, List.append_nil]
    rfl
  | _ =>
    rw [Change.crumbs.eq_def, List.append_nil]
    exact (newest_of_length_le h).symm

theorem foldl_min_map_add (more start : Nat) (rooms : List Nat) :
    (rooms.map (· + more)).foldl min (start + more) = rooms.foldl min start + more := by
  induction rooms generalizing start with
  | nil => rfl
  | cons r rooms ih =>
    rw [List.map_cons, List.foldl_cons, List.foldl_cons, Nat.add_min_add_right]
    exact ih (min start r)

/-- The moments of a longer run are those of the shorter one, each with more added later, and its
end. -/
theorem room_concat (cs : List Change) (c : Change) :
    room (cs ++ [c]) =
      min (room cs + c.crumbs.length) (capacityAfter (cs ++ [c])) := by
  have hend : roomSince (cs ++ [c]) (cs.length + 1) = capacityAfter (cs ++ [c]) := by
    have hlength : cs.length + 1 = (cs ++ [c]).length := by simp
    rw [roomSince, hlength, List.take_length, List.drop_length]
    rfl
  have hbefore : (List.range (cs.length + 1)).map (roomSince (cs ++ [c])) =
      ((List.range (cs.length + 1)).map (roomSince cs)).map (· + c.crumbs.length) := by
    rw [List.map_map]
    refine List.map_congr_left fun t ht => ?_
    have hle : t ≤ cs.length := Nat.le_of_lt_succ (List.mem_range.mp ht)
    simp only [Function.comp_apply, roomSince]
    rw [List.take_append_of_le_length hle, List.drop_append_of_le_length hle, added_concat,
      List.length_append, Nat.add_assoc]
  rw [room, List.length_append, List.length_singleton, List.range_succ, List.map_append,
    List.foldl_append, List.map_singleton, List.foldl_cons, List.foldl_nil, hend, hbefore,
    added_concat, List.length_append, foldl_min_map_add]
  rfl

/-- The end of a run is one of its moments. -/
theorem room_le_capacity (cs : List Change) : room cs ≤ capacityAfter cs := by
  induction cs using List.reverseRecOn with
  | nil => exact Nat.zero_le _
  | append_singleton cs c _ =>
    rw [room_concat]
    exact Nat.min_le_right _ _

theorem breadcrumbs_eq_newest (cs : List Change) :
    (fresh.changes cs).breadcrumbs = newest (room cs) (added cs) := by
  induction cs using List.reverseRecOn with
  | nil => rfl
  | append_singleton cs c ih =>
    have hfits : (fresh.changes cs).breadcrumbs.length ≤ (fresh.changes cs).capacity := by
      rw [ih, capacity_changes]
      exact Nat.le_trans (newest_length_le _ _) (room_le_capacity cs)
    calc (fresh.changes (cs ++ [c])).breadcrumbs
        = newest (capacityAfter (cs ++ [c])) (newest (room cs) (added cs) ++ c.crumbs) := by
          rw [← capacity_changes, changes_concat, breadcrumbs_change hfits, ih]
      _ = newest (capacityAfter (cs ++ [c]))
            (newest (room cs + c.crumbs.length) (added cs ++ c.crumbs)) := by rw [newest_append]
      _ = newest (room (cs ++ [c])) (added (cs ++ [c])) := by
          rw [newest_newest, room_concat, added_concat]

theorem changes_filter (s t : Scope) (cs : List Change) (h : s.breadcrumbs = t.breadcrumbs)
    (hc : s.capacity = t.capacity) :
    (s.changes (cs.filter Change.concernsHistory)).breadcrumbs = (t.changes cs).breadcrumbs := by
  have hstart : s.holding .history = t.holding .history := by rw [holding, holding, h, hc]
  have hconcerns : Change.concernsHistory = fun c => decide (c.subject = .history) := by
    funext c
    cases c <;> rfl
  have hboth : (s.changes (cs.filter Change.concernsHistory)).holding .history =
      (t.changes cs).holding .history := by
    rw [holding_changes, holding_changes, hstart, hconcerns, List.filter_filter]
    simp only [Bool.and_self]
  exact (Holding.history.inj hboth).1

/-- The history is the end of all that was added: no longer than what was added, nor at any moment
of the run than the capacity then and what was added later. Other changes do not matter to it, and
what was there before the scope was cleared does not either. -/
theorem breadcrumbs_changes (cs : List Change) :
    (fresh.changes cs).breadcrumbs = (added cs).drop ((added cs).length - room cs) ∧
      (fresh.changes (cs.filter Change.concernsHistory)).breadcrumbs =
        (fresh.changes cs).breadcrumbs ∧
      ∀ s : Site, s.clearScope.engine.scope = fresh ∧
        (s.clearScope.engine.scope.changes cs).breadcrumbs =
          (added cs).drop ((added cs).length - room cs) :=
  ⟨breadcrumbs_eq_newest cs, changes_filter fresh fresh cs rfl rfl, fun _ =>
    ⟨rfl, breadcrumbs_eq_newest cs⟩⟩

/-- The capacity was tightest in the middle, when one breadcrumb was there and two were to come. -/
example : room [.addBreadcrumb .null, .addBreadcrumb .null, .setCapacity 1, .setTag "k" "v",
    .setCapacity 9, .addBreadcrumb .null, .addBreadcrumb .null] = 3 := by decide

end CrashCourier.Scope
