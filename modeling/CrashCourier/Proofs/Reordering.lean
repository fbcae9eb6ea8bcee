import CrashCourier.Proofs.ValueShape
import CrashCourier.Scope

namespace CrashCourier

namespace Value

def NotNaN (v : Value) : Prop := ∀ d, v = double d → d.isNaN = false

theorem sameItems_self {xs : List Value} (h : ∀ x ∈ xs, same x x = true) :
    sameItems xs xs = true := by
  induction xs with
  | nil => simp [sameItems]
  | cons x xs ih =>
    obtain ⟨hx, hxs⟩ := List.forall_mem_cons.mp h
    rw [sameItems, hx, ih hxs]
    rfl

theorem sameEntries_self {es : Entries} (h : ∀ e ∈ es, same e.2 e.2 = true) :
    sameEntries es es = true := by
  induction es with
  | nil => simp [sameEntries]
  | cons e es ih =>
    obtain ⟨he, hes⟩ := List.forall_mem_cons.mp h
    rw [sameEntries, he, ih hes, beq_self_eq_true]
    rfl

/-- Only what is not a number differs from itself. -/
theorem same_self {v : Value} (h : v.Everywhere NotNaN) : same v v = true := by
  induction v using shapeInduction with
  | null => simp [same]
  | bool b => simp [same]
  | int n => simp [same]
  | string s => simp [same]
  | double d => simp [same, Double.numEq, h.here d rfl]
  | list xs ih =>
    rw [same]
    exact sameItems_self fun x hx => ih x hx ((everywhere_list.mp h).2 x hx)
  | object es ih =>
    rw [same]
    exact sameEntries_self fun e he => ih e he ((everywhere_object.mp h).2 e he)

end Value

namespace Scope

/-- What a change is about: one tag, one extra value, the user, or the breadcrumbs with their
capacity. -/
inductive Subject where
  | tag (key : String)
  | extra (key : String)
  | user
  | history
deriving DecidableEq

/-- What a scope holds about a subject. -/
inductive Holding where
  | text (s : Option String)
  | value (v : Option Value)
  | history (crumbs : List Value) (capacity : Nat)

def holding (s : Scope) : Subject → Holding
  | .tag key => .text (s.tags.get? key)
  | .extra key => .value (s.extra.get? key)
  | .user => .value s.user
  | .history => .history s.breadcrumbs s.capacity

namespace Change

def subject : Change → Subject
  | setTag key _ => .tag key
  | removeTag key => .tag key
  | setExtra key _ => .extra key
  | removeExtra key => .extra key
  | setUser _ => .user
  | removeUser => .user
  | addBreadcrumb _ => .history
  | setCapacity _ => .history

/-- What a change makes of what is held about its subject. -/
def rewrite : Change → Holding → Holding
  | setTag _ value, _ => .text (some value)
  | removeTag _, _ => .text none
  | setExtra _ value, _ => .value (some value)
  | removeExtra _, _ => .value none
  | setUser user, _ => .value (some user)
  | removeUser, _ => .value none
  | addBreadcrumb crumb, .history crumbs capacity =>
    .history (newest capacity (crumbs ++ [crumb])) capacity
  | setCapacity capacity, .history crumbs _ => .history (newest capacity crumbs) capacity
  | _, held => held

end Change

variable {s t : Scope} {cs ds : List Change}

/-- Scopes are told by what they hold about each subject. -/
theorem ext_holding (h : ∀ subject, s.holding subject = t.holding subject) : s = t := by
  have htags : s.tags = t.tags := KeyTable.ext_get fun key => Holding.text.inj (h (.tag key))
  have hextra : s.extra = t.extra := KeyTable.ext_get fun key => Holding.value.inj (h (.extra key))
  have huser : s.user = t.user := Holding.value.inj (h .user)
  obtain ⟨hcrumbs, hcapacity⟩ := Holding.history.inj (h .history)
  cases s
  cases t
  simp_all

/-- A change rewrites what is held about its subject, and nothing else. -/
theorem holding_change (s : Scope) (c : Change) (subject : Subject) :
    (s.change c).holding subject =
      if c.subject = subject then c.rewrite (s.holding subject) else s.holding subject := by
  cases c with
  | setTag key value =>
    cases subject with
    | tag other =>
      simp only [change, setTag, holding, KeyTable.get?_insert, Change.subject, Subject.tag.injEq]
      split <;> rfl
    | _ => rfl
  | removeTag key =>
    cases subject with
    | tag other =>
      simp only [change, removeTag, holding, KeyTable.get?_erase, Change.subject,
        Subject.tag.injEq]
      split <;> rfl
    | _ => rfl
  | setExtra key value =>
    cases subject with
    | extra other =>
      simp only [change, setExtra, holding, KeyTable.get?_insert, Change.subject,
        Subject.extra.injEq]
      split <;> rfl
    | _ => rfl
  | removeExtra key =>
    cases subject with
    | extra other =>
      simp only [change, removeExtra, holding, KeyTable.get?_erase, Change.subject,
        Subject.extra.injEq]
      split <;> rfl
    | _ => rfl
  | _ => cases subject <;> rfl

/-- Only the changes that concern a subject matter to what is held about it. -/
theorem holding_changes (s : Scope) (cs : List Change) (subject : Subject) :
    (s.changes cs).holding subject =
      (cs.filter fun c => c.subject = subject).foldl (fun held c => c.rewrite held)
        (s.holding subject) := by
  induction cs generalizing s with
  | nil => rfl
  | cons c cs ih =>
    have hrest : (s.changes (c :: cs)).holding subject = _ := ih (s.change c)
    rw [hrest, holding_change]
    by_cases hc : c.subject = subject
    · rw [if_pos hc, List.filter_cons_of_pos (by simpa using hc), List.foldl_cons]
    · rw [if_neg hc, List.filter_cons_of_neg (by simpa using hc)]

/-- The same changes in another order, in which those about one subject follow each other as
before. -/
structure Reordered (cs ds : List Change) : Prop where
  perm : cs.Perm ds
  order : ∀ subject, cs.filter (fun c => c.subject = subject) =
    ds.filter fun c => c.subject = subject

theorem changes_eq_of_order (s : Scope) (h : ∀ subject,
    cs.filter (fun c => c.subject = subject) = ds.filter fun c => c.subject = subject) :
    s.changes cs = s.changes ds :=
  ext_holding fun subject => by rw [holding_changes, holding_changes, h subject]

/-- Changes that are about different subjects may come in either order. -/
theorem Reordered.append_comm (h : ∀ c ∈ cs, ∀ d ∈ ds, c.subject ≠ d.subject) :
    Reordered (cs ++ ds) (ds ++ cs) := by
  refine ⟨List.perm_append_comm, fun subject => ?_⟩
  rw [List.filter_append, List.filter_append]
  by_cases hany : ∃ c ∈ cs, c.subject = subject
  · obtain ⟨c, hc, rfl⟩ := hany
    have hnone : ds.filter (fun d => d.subject = c.subject) = [] :=
      List.filter_eq_nil_iff.mpr fun d hd hsubject => h c hc d hd (of_decide_eq_true hsubject).symm
    rw [hnone, List.append_nil, List.nil_append]
  · have hnone : cs.filter (fun c => c.subject = subject) = [] :=
      List.filter_eq_nil_iff.mpr fun c hc hsubject => hany ⟨c, hc, of_decide_eq_true hsubject⟩
    rw [hnone, List.append_nil, List.nil_append]

/-- Changes of clients, each with the number of the client that makes it. -/
abbrev Traffic := List (Nat × Change)

/-- The changes of one client. -/
def Traffic.of (run : Traffic) (client : Nat) : Traffic := run.filter fun x => x.1 = client

/-- No two clients make changes about one subject. -/
def Traffic.Apart (run : Traffic) : Prop :=
  ∀ x ∈ run, ∀ y ∈ run, x.2.subject = y.2.subject → x.1 = y.1

/-- What concerns a subject is made by one client, in its own order. -/
theorem Traffic.order_of_clients {run other : Traffic} (hapart : run.Apart)
    (hclients : ∀ client, run.of client = other.of client) (subject : Subject) :
    run.filter (fun x => x.2.subject = subject) = other.filter fun x => x.2.subject = subject := by
  have hmem : ∀ x, x ∈ run ↔ x ∈ other := by
    intro x
    have hx : x ∈ run.of x.1 ↔ x ∈ other.of x.1 := by rw [hclients]
    simpa [of] using hx
  by_cases hany : ∃ x ∈ run, x.2.subject = subject
  · obtain ⟨x, hx, rfl⟩ := hany
    -- All changes about the subject of `x` are of the client that made `x`.
    have hclient : ∀ traffic : Traffic, (∀ y, y ∈ traffic → y ∈ run) →
        traffic.filter (fun y => y.2.subject = x.2.subject) =
          (traffic.of x.1).filter fun y => y.2.subject = x.2.subject := by
      intro traffic hsub
      rw [of, List.filter_filter]
      refine List.filter_congr fun y hy => ?_
      by_cases hsubject : y.2.subject = x.2.subject
      · simp [hsubject, hapart y (hsub y hy) x hx hsubject]
      · simp [hsubject]
    rw [hclient run fun y hy => hy, hclient other fun y hy => (hmem y).mpr hy, hclients]
  · have hnone : ∀ traffic : Traffic, (∀ y, y ∈ traffic → y ∈ run) →
        traffic.filter (fun y => y.2.subject = subject) = [] := by
      intro traffic hsub
      refine List.filter_eq_nil_iff.mpr fun y hy hsubject => ?_
      exact hany ⟨y, hsub y hy, of_decide_eq_true hsubject⟩
    rw [hnone run fun y hy => hy, hnone other fun y hy => (hmem y).mpr hy]

/-- No value that a scope holds is, or contains, something that is not a number. -/
structure NaNFree (s : Scope) : Prop where
  extra : ∀ r ∈ s.extra.rows, r.2.Everywhere Value.NotNaN
  user : ∀ u ∈ s.user, u.Everywhere Value.NotNaN
  breadcrumbs : ∀ v ∈ s.breadcrumbs, v.Everywhere Value.NotNaN

/-- The values that a change brings. -/
def Change.values : Change → List Value
  | setExtra _ value => [value]
  | setUser user => [user]
  | addBreadcrumb crumb => [crumb]
  | _ => []

theorem mem_of_mem_newest {capacity : Nat} {crumbs : List Value} {v : Value}
    (h : v ∈ newest capacity crumbs) : v ∈ crumbs := List.mem_of_mem_drop h

theorem NaNFree.change (hs : s.NaNFree) {c : Change}
    (hc : ∀ v ∈ c.values, v.Everywhere Value.NotNaN) : (s.change c).NaNFree := by
  cases c with
  | setExtra key value =>
    refine ⟨fun r hr => ?_, hs.user, hs.breadcrumbs⟩
    rcases KeyTable.mem_putRow hr with rfl | hr
    · exact hc value List.mem_cons_self
    · exact hs.extra r hr
  | removeExtra key =>
    exact ⟨fun r hr => hs.extra r (List.mem_filter.mp hr).1, hs.user, hs.breadcrumbs⟩
  | setUser user =>
    refine ⟨hs.extra, fun u hu => ?_, hs.breadcrumbs⟩
    obtain rfl : user = u := Option.some.inj hu
    exact hc user List.mem_cons_self
  | removeUser => exact ⟨hs.extra, fun u hu => (nomatch hu), hs.breadcrumbs⟩
  | addBreadcrumb crumb =>
    refine ⟨hs.extra, hs.user, fun v hv => ?_⟩
    rcases List.mem_append.mp (mem_of_mem_newest hv) with hv | hv
    · exact hs.breadcrumbs v hv
    · exact hc v hv
  | setCapacity capacity =>
    exact ⟨hs.extra, hs.user, fun v hv => hs.breadcrumbs v (mem_of_mem_newest hv)⟩
  | _ => exact ⟨hs.extra, hs.user, hs.breadcrumbs⟩

theorem NaNFree.changes (hs : s.NaNFree)
    (hcs : ∀ c ∈ cs, ∀ v ∈ c.values, v.Everywhere Value.NotNaN) : (s.changes cs).NaNFree := by
  induction cs generalizing s with
  | nil => exact hs
  | cons c cs ih =>
    obtain ⟨hc, hrest⟩ := List.forall_mem_cons.mp hcs
    exact ih (hs.change hc) hrest

theorem NaNFree.same_self (hs : s.NaNFree) : s.same s = true := by
  have hextra : Value.sameEntries s.extra.rows s.extra.rows = true :=
    Value.sameEntries_self fun e he => Value.same_self (hs.extra e he)
  have hcrumbs : Value.sameItems s.breadcrumbs s.breadcrumbs = true :=
    Value.sameItems_self fun v hv => Value.same_self (hs.breadcrumbs v hv)
  have huser : ∀ u ∈ s.user, (u == u) = true := fun u hu => Value.same_self (hs.user u hu)
  unfold same
  rw [hextra, hcrumbs]
  cases hu : s.user with
  | none => simp
  | some u => simp [huser u hu]

/-- Whatever the order in which changes come, if it is the same for each subject, they leave the
same scope, which completes events in the same way. So do clients whose changes alternate in
different ways, if no two of them are concerned with one subject. -/
theorem changes_reordered (s : Scope) :
    (∀ cs ds, Reordered cs ds → s.changes cs = s.changes ds ∧
      (∀ event, (s.changes cs).enrich event = (s.changes ds).enrich event) ∧
      (s.NaNFree → (∀ c ∈ cs, ∀ v ∈ c.values, v.Everywhere Value.NotNaN) →
        (s.changes cs).same (s.changes ds) = true)) ∧
    ∀ run other : Traffic, run.Apart → (∀ client, run.of client = other.of client) →
      s.changes (run.map Prod.snd) = s.changes (other.map Prod.snd) ∧
      ∀ event, (s.changes (run.map Prod.snd)).enrich event =
        (s.changes (other.map Prod.snd)).enrich event := by
  refine ⟨fun cs ds h => ?_, fun run other hapart hclients => ?_⟩
  · have heq : s.changes cs = s.changes ds := changes_eq_of_order s h.order
    refine ⟨heq, fun event => by rw [heq], fun hs hcs => ?_⟩
    rw [← heq]
    exact (hs.changes hcs).same_self
  · have heq : s.changes (run.map Prod.snd) = s.changes (other.map Prod.snd) := by
      refine changes_eq_of_order s fun subject => ?_
      rw [List.filter_map, List.filter_map]
      exact congrArg _ (Traffic.order_of_clients hapart hclients subject)
    exact ⟨heq, fun event => by rw [heq]⟩

/-- A client sets and removes a tag and adds a breadcrumb for which it then leaves no room. -/
def mine : List Change :=
  [.setTag "b" "mine", .addBreadcrumb (.string "mine"), .setCapacity 0, .removeTag "b"]

def theirs : List Change := [.setTag "a" "theirs", .setExtra "b" .null, .setUser (.int 1)]

theorem changes_reordered_clients :
    fresh.changes (mine ++ theirs) = fresh.changes (theirs ++ mine) ∧
      (fresh.changes (mine ++ theirs)).same (fresh.changes (theirs ++ mine)) = true ∧
      fresh.changes [.setTag "b" "old", .setUser .null, .setTag "b" "new"] =
        fresh.changes [.setUser .null, .setTag "b" "old", .setTag "b" "new"] := by
  have hreordered : Reordered (mine ++ theirs) (theirs ++ mine) :=
    .append_comm (by simp [mine, theirs, Change.subject])
  obtain ⟨heq, -, hsame⟩ := (changes_reordered fresh).1 _ _ hreordered
  refine ⟨heq, hsame ⟨?_, ?_, ?_⟩ ?_, ?_⟩
  · exact fun r hr => nomatch hr
  · exact fun u hu => nomatch hu
  · exact fun v hv => nomatch hv
  · simp [mine, theirs, Change.values, Value.Everywhere, Value.NotNaN]
  · refine ((changes_reordered fresh).2 [(0, .setTag "b" "old"), (1, .setUser .null),
      (0, .setTag "b" "new")] [(1, .setUser .null), (0, .setTag "b" "old"),
      (0, .setTag "b" "new")] ?_ fun client => ?_).1
    · simp [Traffic.Apart, Change.subject]
    · by_cases hfirst : client = 0
      · simp [hfirst, Traffic.of]
      · have hother : ¬ 0 = client := fun h => hfirst h.symm
        simp [Traffic.of, List.filter_cons, hother]

end Scope

end CrashCourier
