import CrashCourier.Proofs.Managed.ImageArrays
import CrashCourier.Proofs.StartFrom
import Mathlib.Data.List.DropRight

namespace CrashCourier

open Image Managed

/-- What may happen to the list of images. The managed side is in any state when it asks. -/
inductive ImageEvent (σ : Type) where
  | install (s : Source)
  | reset
  | clear
  | list (h : σ)
  | load (h : σ)
  /-- From now on a shared source gives something else. -/
  | replace (n : Nat) (v : Value)
  /-- Whatever else changes the site, its files among it. -/
  | elsewhere (site : Site)

namespace ImageEvent

variable {σ : Type}

def forgets : ImageEvent σ → Bool
  | install _ => true
  | reset => true
  | clear => true
  | _ => false

def asks : ImageEvent σ → Bool
  | list _ => true
  | load _ => true
  | _ => false

/-- What happened since the list was last forgotten. -/
def period (past : List (ImageEvent σ)) : List (ImageEvent σ) := past.rtakeWhile fun e => !e.forgets

def beforePeriod (past : List (ImageEvent σ)) : List (ImageEvent σ) :=
  past.rdropWhile fun e => !e.forgets

/-- What happened before the list was first wanted. -/
def beforeAsking (es : List (ImageEvent σ)) : List (ImageEvent σ) := es.takeWhile fun e => !e.asks

end ImageEvent

namespace Reporter

open ImageEvent

variable {σ ρ : Type} [Host σ ρ]

def apply (r : Reporter) : ImageEvent σ → Reporter
  | .install s => { r with images := r.images.setSource s }
  | .reset => { r with images := r.images.resetSource }
  | .clear => { r with images := r.images.clear }
  | .list h => after imageList r h
  | .load h => after loadImages r h
  | .replace n v => { r with images := r.images.setShared n v }
  | .elsewhere site => { r with site }

def applyAll (r : Reporter) (es : List (ImageEvent σ)) : Reporter := es.foldl apply r

/-- What the source would give if it were asked now. -/
def answer (r : Reporter) : Except Overflow Value :=
  r.images.source.answer r.site.world.files r.images.values

/-- What someone who wants the list now gets. -/
def given (r : Reporter) : Except Overflow Value :=
  match r.images.cache with
  | some v => .ok v
  | none => r.answer

/-- Whether an event asks the source, and the source gives a list. -/
def fills (r : Reporter) (e : ImageEvent σ) : Bool := e.asks && r.answer.toOption.isSome

/-- What happens before the source first gives a list to someone who asks. -/
def unanswered (r : Reporter) : List (ImageEvent σ) → List (ImageEvent σ)
  | [] => []
  | e :: es => if r.fills e then [] else e :: unanswered (r.apply e) es

/-- How often the source is asked until it first gives a list, that time included. -/
def askings (r : Reporter) : List (ImageEvent σ) → Nat
  | [] => 0
  | e :: es => if r.fills e then 1 else (if e.asks then 1 else 0) + askings (r.apply e) es

/-- What a part of a period leaves: the list that is known then, and who was asked for it. -/
structure Since (start now : Reporter) (known : Option Value) (asked : List Source) : Prop where
  cache : now.images.cache = known
  source : now.images.source = start.images.source
  asked : now.images.asked = start.images.asked ++ asked

variable {r s t : Reporter} {e : ImageEvent σ} {es : List (ImageEvent σ)} {known : Option Value}
  {v : Value} {asked more : List Source}

theorem applyAll_append (r : Reporter) (es fs : List (ImageEvent σ)) :
    r.applyAll (es ++ fs) = (r.applyAll es).applyAll fs := List.foldl_append

theorem Since.trans {known' : Option Value} (hs : Since r s known asked)
    (ht : Since s t known' more) : Since r t known' (asked ++ more) where
  cache := ht.cache
  source := ht.source.trans hs.source
  asked := by rw [ht.asked, hs.asked, List.append_assoc]

theorem apply_list (r : Reporter) (h : σ) :
    r.apply (.list h) = { r with images := (r.images.list r.site.world.files).2 } := rfl

theorem apply_load (r : Reporter) (h : σ) : r.apply (.load h) = r.apply (.list h) := by
  rw [apply_list, apply, after, run_loadImages]
  rcases r.images.list r.site.world.files with ⟨e | v, images⟩ <;> rfl

/-- A list that is known is given out, and else the source is asked. -/
theorem list_fst (r : Reporter) : (r.images.list r.site.world.files).1 = r.given := by
  rw [given, answer]
  cases hcache : r.images.cache with
  | none =>
    simp only [Catalog.list, hcache, Catalog.consult]
    cases r.images.source.answer r.site.world.files r.images.values <;> rfl
  | some v => simp only [Catalog.list, hcache]

theorem run_imageList (r : Reporter) (h : σ) :
    (imageList.run r).run h = ((r.given, r.apply (.list h)), h) := by
  rw [← list_fst, apply_list]
  rfl

/-- Who loads the list wants it first. -/
theorem run_loadImages_given (r : Reporter) (h : σ) :
    (loadImages.run r).run h =
      match r.given with
      | .error e => ((.error e, r.apply (.load h)), h)
      | .ok v => ((.ok ((Image.load v).run h).1, r.apply (.load h)), ((Image.load v).run h).2) := by
  rw [run_loadImages, apply_load, apply_list, ← list_fst]
  rcases r.images.list r.site.world.files with ⟨e | v, images⟩ <;> rfl

theorem since_asking (hnone : r.images.cache = none) (he : e.asks = true) :
    Since r (r.apply e) r.answer.toOption [r.images.source] := by
  have hlist : ∀ h : σ, Since r (r.apply (.list h)) r.answer.toOption [r.images.source] := by
    intro h
    rw [apply_list, answer]
    constructor <;> simp only [Catalog.list, hnone, Catalog.consult] <;>
      cases r.images.source.answer r.site.world.files r.images.values <;> rfl
  cases e with
  | list h => exact hlist h
  | load h => exact r.apply_load h ▸ hlist h
  | _ => simp [asks] at he

/-- Once the list is known nothing changes it but what forgets it. -/
theorem since_known (hsome : r.images.cache = some v) (he : e.forgets = false) :
    Since r (r.apply e) (some v) [] := by
  have hlist : ∀ h : σ, Since r (r.apply (.list h)) (some v) [] := by
    intro h
    rw [apply_list]
    constructor <;> simp only [Catalog.list, hsome, List.append_nil]
  cases e with
  | list h => exact hlist h
  | load h => exact r.apply_load h ▸ hlist h
  | replace n v => exact ⟨hsome, rfl, (List.append_nil _).symm⟩
  | elsewhere site => exact ⟨hsome, rfl, (List.append_nil _).symm⟩
  | _ => simp [forgets] at he

theorem since_quiet (hnone : r.images.cache = none) (he : e.forgets = false)
    (hquiet : e.asks = false) : Since r (r.apply e) none [] := by
  cases e with
  | replace n v => exact ⟨hnone, rfl, (List.append_nil _).symm⟩
  | elsewhere site => exact ⟨hnone, rfl, (List.append_nil _).symm⟩
  | list h => simp [asks] at hquiet
  | load h => simp [asks] at hquiet
  | _ => simp [forgets] at he

theorem apply_forgets (r : Reporter) (he : e.forgets = true) :
    (r.apply e).images.cache = none ∧ (r.apply e).images.asked = r.images.asked := by
  cases e with
  | install s => exact ⟨rfl, rfl⟩
  | reset => exact ⟨rfl, rfl⟩
  | clear => exact ⟨rfl, rfl⟩
  | _ => simp [forgets] at he

theorem since_applyAll_known (hsome : r.images.cache = some v) (hes : ∀ e ∈ es, e.forgets = false) :
    Since r (r.applyAll es) (some v) [] := by
  induction es generalizing r with
  | nil => exact ⟨hsome, rfl, (List.append_nil _).symm⟩
  | cons e es ih =>
    obtain ⟨he, hes⟩ := List.forall_mem_cons.mp hes
    have hstep := since_known hsome he
    exact hstep.trans (ih hstep.cache hes)

/-- What happens without an answer leaves nothing known. -/
theorem since_unanswered (hnone : r.images.cache = none) (he : e.forgets = false)
    (hfills : r.fills e = false) :
    Since r (r.apply e) none (List.replicate (if e.asks then 1 else 0) r.images.source) := by
  cases hasks : e.asks with
  | true =>
    have hstep := since_asking hnone hasks
    have hanswer : r.answer.toOption = none := by simpa [fills, hasks] using hfills
    rwa [hanswer] at hstep
  | false => exact since_quiet hnone he hasks

/-- From the start of a period: nothing is known until someone who asks gets a list, and from then
on that list is. -/
theorem since_applyAll (hnone : r.images.cache = none) (hes : ∀ e ∈ es, e.forgets = false) :
    (∃ known, Since r (r.applyAll es) known (List.replicate (askings r es) r.images.source)) ∧
      (r.applyAll es).given = (r.applyAll (unanswered r es)).answer := by
  induction es generalizing r with
  | nil =>
    refine ⟨⟨none, hnone, rfl, (List.append_nil _).symm⟩, ?_⟩
    change r.given = r.answer
    rw [given, hnone]
  | cons e es ih =>
    obtain ⟨he, hes⟩ := List.forall_mem_cons.mp hes
    cases hfills : r.fills e with
    | true =>
      simp only [fills, Bool.and_eq_true, Option.isSome_iff_exists] at hfills
      obtain ⟨hasks, v, hanswer⟩ := hfills
      have hstep := since_asking hnone hasks
      rw [hanswer] at hstep
      have hall := hstep.trans (since_applyAll_known hstep.cache hes)
      have hfills : r.fills e = true := by simp [fills, hasks, hanswer]
      have hgiven : r.answer = .ok v := by
        cases hr : r.answer with
        | error _ => simp [hr, Except.toOption] at hanswer
        | ok w => simpa [hr, Except.toOption] using hanswer
      rw [unanswered, askings, if_pos hfills, if_pos hfills]
      refine ⟨⟨some v, hall⟩, ?_⟩
      change ((r.apply e).applyAll es).given = r.answer
      rw [given, hall.cache, hgiven]
    | false =>
      have hstep := since_unanswered hnone he hfills
      obtain ⟨⟨known, hrest⟩, hgiven⟩ := ih hstep.cache hes
      have hnot : ¬ r.fills e = true := by simp [hfills]
      rw [unanswered, askings, if_neg hnot, if_neg hnot]
      have hall := hstep.trans hrest
      rw [hstep.source, List.replicate_append_replicate] at hall
      exact ⟨⟨known, hall⟩, hgiven⟩

/-- If the first to ask gets a list, no one else asks. -/
theorem askings_of_answer (hfirst : (r.applyAll (beforeAsking es)).answer.toOption.isSome = true) :
    unanswered r es = beforeAsking es ∧ askings r es = if es.any asks then 1 else 0 := by
  induction es generalizing r with
  | nil => exact ⟨rfl, rfl⟩
  | cons e es ih =>
    cases hasks : e.asks with
    | true =>
      have hbefore : beforeAsking (e :: es) = [] := by
        rw [beforeAsking, List.takeWhile_cons_of_neg (by simp [hasks])]
      have hfills : r.fills e = true := by
        rw [hbefore] at hfirst
        simpa [fills, hasks, applyAll] using hfirst
      rw [unanswered, askings, if_pos hfills, if_pos hfills, hbefore]
      simp [hasks]
    | false =>
      have hbefore : beforeAsking (e :: es) = e :: beforeAsking es := by
        rw [beforeAsking, List.takeWhile_cons_of_pos (by simp [hasks]), beforeAsking]
      have hfills : ¬ r.fills e = true := by simp [fills, hasks]
      rw [hbefore] at hfirst
      obtain ⟨hsame, hcount⟩ := ih (r := r.apply e) hfirst
      rw [unanswered, askings, if_neg hfills, if_neg hfills, hbefore, hsame, hcount]
      simp [hasks]

theorem unanswered_isPrefixOf (r : Reporter) (es : List (ImageEvent σ)) :
    unanswered r es <+: es := by
  induction es generalizing r with
  | nil => exact List.prefix_rfl
  | cons e es ih =>
    rw [unanswered]
    split
    · exact List.nil_prefix
    · exact List.cons_prefix_cons.mpr ⟨rfl, ih _⟩

theorem forgets_of_mem_period {past : List (ImageEvent σ)} :
    ∀ e ∈ period past, e.forgets = false := by
  intro e he
  simpa using List.mem_rtakeWhile_imp he

theorem cache_beforePeriod (hnone : r.images.cache = none) (past : List (ImageEvent σ)) :
    (r.applyAll (beforePeriod past)).images.cache = none := by
  induction past using List.reverseRecOn with
  | nil => exact hnone
  | append_singleton past e ih =>
    rw [beforePeriod, List.rdropWhile_concat]
    split
    · exact ih
    · next hforgets =>
      rw [applyAll_append]
      exact (apply_forgets _ (by simpa using hforgets)).1

/-- Whatever happened, everyone who wants the list gets what the source gave when someone first got
one since it was last forgotten, or gives now if no one did. That source is the one that is
installed. It is asked until it gives a list, which is once in a period if at all where the first
answer is one; and forgetting asks no one. -/
theorem images_of_period (hnone : r.images.cache = none) (past : List (ImageEvent σ)) (h : σ) :
    let start := r.applyAll (beforePeriod past)
    let first := start.applyAll (unanswered start (period past))
    let now := r.applyAll past
    (imageList.run now).run h = ((first.answer, now.apply (.list h)), h) ∧
    ((loadImages.run now).run h =
      match first.answer with
      | .error e => ((.error e, now.apply (.load h)), h)
      | .ok v =>
        ((.ok ((Image.load v).run h).1, now.apply (.load h)), ((Image.load v).run h).2)) ∧
    (∀ v, first.answer = .ok v → v.kind ≠ .list →
      (loadImages.run now).run h = ((.ok none, now.apply (.load h)), h)) ∧
    first.images.source = now.images.source ∧
    now.images.asked = start.images.asked ++
      List.replicate (askings start (period past)) now.images.source ∧
    (∀ v, (start.applyAll (beforeAsking (period past))).answer = .ok v →
      first.answer = .ok v ∧ now.images.asked = start.images.asked ++
        (if (period past).any asks then [now.images.source] else [])) ∧
    ∀ e : ImageEvent σ, e.forgets = true → (now.apply e).images.asked = now.images.asked := by
  intro start first now
  have hstart : start.images.cache = none := cache_beforePeriod hnone past
  have hnow : now = start.applyAll (period past) := by
    rw [← applyAll_append, beforePeriod, period, List.rdropWhile_append_rtakeWhile]
  have hquiet : ∀ e ∈ period past, e.forgets = false := forgets_of_mem_period
  obtain ⟨⟨known, hsince⟩, hgiven⟩ := since_applyAll hstart hquiet
  rw [← hnow] at hsince hgiven
  have hbefore : ∀ e ∈ unanswered start (period past), e.forgets = false := fun e he =>
    hquiet e ((unanswered_isPrefixOf start _).mem he)
  have hfirst : first.images.source = start.images.source :=
    (since_applyAll hstart hbefore).1.choose_spec.source
  have hasked : now.images.asked = start.images.asked ++
      List.replicate (askings start (period past)) now.images.source := by
    rw [hsince.asked, hsince.source]
  have hload := run_loadImages_given (ρ := ρ) now h
  rw [hgiven] at hload
  refine ⟨?_, hload, fun v hv hkind => ?_, hfirst.trans hsince.source.symm, hasked, fun v hv => ?_,
    fun e he => (apply_forgets now he).2⟩
  · rw [run_imageList, hgiven]
  · have hvalue : (start.applyAll (unanswered start (period past))).answer = .ok v := hv
    rw [hload, hvalue]
    dsimp only
    rw [Image.load_of_kind_ne hkind]
  · have hanswered :
        (start.applyAll (beforeAsking (period past))).answer.toOption.isSome = true := by
      rw [hv]
      rfl
    obtain ⟨hsame, hcount⟩ := askings_of_answer hanswered
    refine ⟨(congrArg (fun es => (start.applyAll es).answer) hsame).trans hv, ?_⟩
    rw [hasked, hcount]
    split <;> rfl

def noFiles : Reporter where
  site := { world := { files := { workDir := [], entries := [] }, supply := .numbered "" } }

/-- A list is replaced by a number, before anyone wants it and again afterwards. -/
def replacements : List (ImageEvent Heap) :=
  [.install (.shared 0), .replace 0 (.list []), .list {}, .install (.shared 1), .replace 0 .null,
    .replace 1 (.int 7), .load {}, .replace 1 (.list []), .list {}]

theorem images_of_period_replacements :
    noFiles.images.cache = none ∧
      ((imageList.run (noFiles.applyAll replacements)).run ({} : Heap)).1.1 = .ok (.int 7) ∧
      (loadImages.run (noFiles.applyAll replacements)).run ({} : Heap) =
        ((.ok none, (noFiles.applyAll replacements).apply (.load ({} : Heap))), {}) ∧
      (noFiles.applyAll replacements).images.asked = [.shared 0, .shared 1] := by
  obtain ⟨hlist, -, hload, -, -, honce, -⟩ :=
    images_of_period (r := noFiles) rfl replacements ({} : Heap)
  obtain ⟨hseven, hasked⟩ := honce (.int 7) rfl
  exact ⟨rfl, congrArg (fun out => out.1.1) (hlist.trans (by rw [hseven])),
    hload (.int 7) hseven (by decide), hasked⟩

end Reporter

end CrashCourier
