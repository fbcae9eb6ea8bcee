import CrashCourier.Proofs.Managed.BridgeCalls
import CrashCourier.Proofs.Managed.Texts
import Mathlib.Data.List.Forall2
import Mathlib.Data.List.ReduceOption

namespace CrashCourier.Image

open Managed

/-- The field by whose presence it is decided whether a field is set. The debug identifier goes
with the type. -/
def Field.deciding : Field → Field
  | .debugId => .type
  | f => f

/-- Whether a field of a record is left alone: the image lacks what decides it, or its setter is
among those that raise. -/
def Field.Skipped (raising : List String) (image : Value) (f : Field) : Prop :=
  (image.get f.deciding.key).isNull ∨ f.setter ∈ raising

instance (raising : List String) (image : Value) (f : Field) :
    Decidable (f.Skipped raising image) :=
  inferInstanceAs (Decidable (_ ∨ _))

/-- The text that a field of a record gets. -/
def textOf (raising : List String) (image : Value) (f : Field) : Option String :=
  if f.Skipped raising image then none else some (image.get f.key).asString

def sizeOf (raising : List String) (image : Value) : Option Int64 :=
  if Field.size.Skipped raising image then none
  else some (image.get Field.size.key).asInt.toInt64

namespace ImageRecord

/-- The record of an image. A text or the size of the image is in it if the image has that key and
the setter is not among those that raise; the debug identifier goes with the type. -/
def ofImage (raising : List String) (image : Value) : ImageRecord where
  address :=
    if (image.get "image_addr").isNull ∨ "setImageAddr" ∈ raising then none
    else some (image.get "image_addr").asString
  size :=
    if (image.get "image_size").isNull ∨ "setImageSize" ∈ raising then none
    else some (image.get "image_size").asInt.toInt64
  codeFile :=
    if (image.get "code_file").isNull ∨ "setCodeFile" ∈ raising then none
    else some (image.get "code_file").asString
  type :=
    if (image.get "type").isNull ∨ "setType" ∈ raising then none
    else some (image.get "type").asString
  debugId :=
    if (image.get "type").isNull ∨ "setDebugId" ∈ raising then none
    else some (image.get "debug_id").asString
  codeId :=
    if (image.get "code_id").isNull ∨ "setCodeId" ∈ raising then none
    else some (image.get "code_id").asString
  debugFile :=
    if (image.get "debug_file").isNull ∨ "setDebugFile" ∈ raising then none
    else some (image.get "debug_file").asString

/-- A record in which one field is set as an image says, if it is set at all. -/
def follow (raising : List String) (image : Value) (r : ImageRecord) : Field → ImageRecord
  | .address => { r with address := (textOf raising image .address).or r.address }
  | .size => { r with size := (sizeOf raising image).or r.size }
  | .codeFile => { r with codeFile := (textOf raising image .codeFile).or r.codeFile }
  | .type => { r with type := (textOf raising image .type).or r.type }
  | .debugId => { r with debugId := (textOf raising image .debugId).or r.debugId }
  | .codeId => { r with codeId := (textOf raising image .codeId).or r.codeId }
  | .debugFile => { r with debugFile := (textOf raising image .debugFile).or r.debugFile }

variable {raising : List String} {image : Value} {f : Field}

theorem follow_of_skipped (r : ImageRecord) (h : f.Skipped raising image) :
    r.follow raising image f = r := by
  have htext : textOf raising image f = none := if_pos h
  cases f with
  | size =>
    have hsize : sizeOf raising image = none := if_pos h
    rw [follow, hsize, Option.none_or]
  | _ => rw [follow, htext, Option.none_or]

theorem setText?_of_not_skipped (r : ImageRecord) (hf : f ≠ .size)
    (h : ¬ f.Skipped raising image) :
    r.setText? f (some (image.get f.key).asString) = some (r.follow raising image f) := by
  have htext : textOf raising image f = some (image.get f.key).asString := if_neg h
  cases f with
  | size => exact absurd rfl hf
  | _ => rw [follow, htext, Option.some_or, setText?]

/-- Fields set one after the other make the record of the image. -/
theorem foldl_follow (raising : List String) (image : Value) :
    fillOrder.foldl (follow raising image) {} = ofImage raising image := by
  simp only [fillOrder, List.foldl_cons, List.foldl_nil, follow, Option.or_none]
  rfl

end ImageRecord

variable {h : Heap} {record array : Reference} {r : ImageRecord} {f : Field}

theorem run_callSetter (h : Heap) (record : Reference) (f : Field) (arg : Argument Reference) :
    ((callSetter record f arg).run h).2 =
      match h.assigned record f.setter arg with
      | .ok changed => h.replace record (.image changed)
      | .error _ => h := by
  have hcall : ((callSetter record f arg).run h).2 =
      ((Heap.putBack record ((h.assigned record f.setter arg).map .image)).run h).2 := rfl
  rw [hcall]
  cases h.assigned record f.setter arg <;> rfl

/-- A setter that does not raise gives a record the value of its argument; one that raises leaves it
as it is. -/
theorem puts_callSetter (hrecord : h.object? record = some (.image r)) {arg : Argument Reference}
    {text : Option String} {changed : ImageRecord} (htext : h.argumentText arg = .ok text)
    (hraises : f.setter ∈ h.failingMethods → changed = r)
    (hchanged : f.setter ∉ h.failingMethods → Heap.assign? r f arg text = some changed) :
    h.Puts record (.image changed) 0 ((callSetter record f arg).run h).2 := by
  rw [run_callSetter]
  by_cases hsetter : f.setter ∈ h.failingMethods
  · have hthrown : h.assigned record f.setter arg =
        .error ⟨"RuntimeException in " ++ f.setter⟩ := by
      simp only [Heap.assigned, Heap.refuseFailing, if_pos hsetter, bind, Except.bind]
    rw [hthrown, hraises hsetter]
    exact .refl hrecord
  · have hassigned : h.assigned record f.setter arg = .ok changed := by
      simp only [Heap.assigned, Heap.refuseFailing, if_neg hsetter, htext, hrecord,
        Field.ofSetter?_setter, Option.bind_some, bind, Except.bind, hchanged hsetter]
    rw [hassigned]
    exact (Heap.Puts.refl hrecord).replace _

/-- The text is lent for the time of the call. -/
theorem puts_setText (hrecord : h.object? record = some (.image r)) {text : String}
    {changed : ImageRecord} (hraises : f.setter ∈ h.failingMethods → changed = r)
    (hchanged : f.setter ∉ h.failingMethods → r.setText? f (some text) = some changed) :
    h.Puts record (.image changed) 0 ((setText record f text).run h).2 := by
  have hlent : h.Puts record (.image r) 0 (h.lend (.text text)).2 :=
    (Heap.Puts.refl hrecord).lend _
  have htext : (h.lend (.text text)).2.argumentText (.reference (some (h.lend (.text text)).1)) =
      .ok (some text) := by
    have hfound := Heap.text?_eq_some_iff.mpr (h.object?_lend (.text text))
    simp only [Heap.argumentText, hfound]
  have hcalled := puts_callSetter hlent.put htext (hlent.failingMethods ▸ hraises)
    (hlent.failingMethods ▸ hchanged)
  exact (hlent.trans hcalled).takeBack _

theorem setField_of_null {image : Value} (hnull : (image.get f.deciding.key).isNull = true)
    (record : Reference) : setField (σ := Heap) record image f = pure () := by
  cases f <;> exact if_pos hnull

theorem setField_text {image : Value} (hnull : ¬ (image.get f.deciding.key).isNull = true)
    (hf : f ≠ .size) (record : Reference) :
    setField (σ := Heap) record image f = setText record f (image.get f.key).asString := by
  cases f with
  | size => exact absurd rfl hf
  | _ => exact if_neg hnull

theorem setField_size {image : Value} (hnull : ¬ (image.get Field.size.key).isNull = true)
    (record : Reference) : setField (σ := Heap) record image .size =
      callSetter record .size (.long (image.get Field.size.key).asInt.toInt64) := if_neg hnull

theorem puts_setField (hrecord : h.object? record = some (.image r)) (image : Value) (f : Field) :
    h.Puts record (.image (r.follow h.failingMethods image f)) 0
      ((setField record image f).run h).2 := by
  by_cases hnull : (image.get f.deciding.key).isNull = true
  · rw [ImageRecord.follow_of_skipped r (Or.inl hnull), setField_of_null hnull]
    exact .refl hrecord
  · have hraises : f.setter ∈ h.failingMethods → r.follow h.failingMethods image f = r :=
      fun hsetter => ImageRecord.follow_of_skipped r (Or.inr hsetter)
    have hset : f.setter ∉ h.failingMethods → ¬ f.Skipped h.failingMethods image :=
      fun hsetter => not_or.mpr ⟨hnull, hsetter⟩
    by_cases hf : f = .size
    · subst hf
      rw [setField_size hnull]
      have htext : h.argumentText (.long (image.get Field.size.key).asInt.toInt64) = .ok none := rfl
      refine puts_callSetter hrecord htext hraises fun hsetter => ?_
      rw [ImageRecord.follow, sizeOf, if_neg (hset hsetter)]
      rfl
    · rw [setField_text hnull hf]
      exact puts_setText hrecord hraises fun hsetter =>
        ImageRecord.setText?_of_not_skipped r hf (hset hsetter)

theorem puts_fields (hrecord : h.object? record = some (.image r)) (image : Value)
    (fields : List Field) :
    h.Puts record (.image (fields.foldl (ImageRecord.follow h.failingMethods image) r)) 0
      ((fields.forM (setField record image)).run h).2 := by
  induction fields generalizing h r with
  | nil => exact .refl hrecord
  | cons f rest ih =>
    have hfirst := puts_setField hrecord image f
    have hrest := ih hfirst.put
    rw [hfirst.failingMethods] at hrest
    exact hfirst.trans hrest

/-- An empty record becomes that of the image. -/
theorem puts_fill (hrecord : h.object? record = some (.image {})) (image : Value) :
    h.Puts record (.image (.ofImage h.failingMethods image)) 0 ((fill record image).run h).2 := by
  rw [← ImageRecord.foldl_follow]
  exact puts_fields hrecord image fillOrder

theorem puts_setElement {slots : List (Option Reference)} {index : Nat}
    (harray : h.object? array = some (.array className slots)) (hindex : index < slots.length)
    (element : Reference) :
    h.Puts array (.array className (slots.set index (some element))) 0
      ((Host.setElement array index element).run h).2 := by
  have hcall : ((Host.setElement array index element).run h).2 =
      ((Heap.putBack array (h.stored array index element)).run h).2 := rfl
  have hstored : h.stored array index element =
      .ok (.array className (slots.set index (some element))) := by
    simp only [Heap.stored, harray, if_pos hindex]
  rw [hcall, hstored]
  exact (Heap.Puts.refl harray).replace _

/-- The heap after an empty record was made. -/
def withRecord (h : Heap) : Heap := { (h.lend (.image {})).2 with records := h.records + 1 }

theorem run_newObject (hclass : className ∉ h.failingClasses) :
    (Host.newObject className).run h = (some (h.lend (.image {})).1, withRecord h) := by
  have hmade : ¬ (className ∈ h.failingClasses ∨ className ≠ Image.className) := by
    simp [hclass]
  change StateT.run (if className ∈ h.failingClasses ∨ className ≠ Image.className then pure none
    else _) h = _
  rw [if_neg hmade]
  rfl

theorem puts_withRecord {o : HeapObject} (ho : h.object? array = some o) :
    h.Puts array o 1 (withRecord h) := by
  have hlent := (Heap.Puts.refl ho).lend (.image {})
  exact ⟨hlent.put, hlent.others, hlent.failingMethods, hlent.failingClasses, rfl⟩

/-- The record is filled before it is put into the array. -/
theorem run_storeImage {made : Heap} {image : Value} (himage : image.isNull = false)
    (hmade : (Host.newObject className).run h = (some record, made)) (index : Nat) :
    ((storeImage array index image).run h).2 =
      ((Host.setElement array index record).run ((fill record image).run made).2).2.takeBack
        record := by
  unfold storeImage
  rw [if_neg (by simp [himage]), run_bind_of hmade]
  rfl

/-- An image that is not null gets a record of its own in its slot. -/
theorem puts_storeImage {slots : List (Option Reference)} {index : Nat} {image : Value}
    (harray : h.object? array = some (.array className slots)) (hindex : index < slots.length)
    (hclass : className ∉ h.failingClasses) (himage : image.isNull = false) :
    ∃ record : Reference, h.object? record = none ∧
      h.Puts array (.array className (slots.set index (some record))) 1
        ((storeImage array index image).run h).2 ∧
      ((storeImage array index image).run h).2.object? record =
        some (.image (.ofImage h.failingMethods image)) := by
  have hrun := run_newObject hclass
  have hempty : (withRecord h).object? (h.lend (.image {})).1 = some (.image {}) :=
    h.object?_lend (.image {})
  have hfresh : h.object? (h.lend (.image {})).1 = none :=
    Heap.object?_eq_none (Nat.lt_succ_self _)
  generalize (h.lend (.image {})).1 = record at hrun hempty hfresh
  have hne : record ≠ array := Heap.ne_of_object? hfresh harray
  have hmade := puts_withRecord harray
  have hfilled := puts_fill hempty image
  have hbefore := hmade.aside hfilled hne.symm hfresh
  have hstored := puts_setElement hbefore.put hindex record
  refine ⟨record, hfresh, ?_, ?_⟩
  · rw [run_storeImage himage hrun]
    exact (hbefore.trans hstored).takeBack record
  · rw [run_storeImage himage hrun, Heap.object?_takeBack]
    exact hstored.others record _ hne hfilled.put

/-- What is in the slot of an image after a run: nothing if the image is null, else a record
that was made in the run. -/
def InSlot (before after : Heap) (image : Value) : Option Reference → Prop
  | none => image.isNull = true
  | some record => image.isNull = false ∧ before.object? record = none ∧
      after.object? record = some (.image (.ofImage before.failingMethods image))

/-- Every image is in the slot of its index, and no record is in two slots. -/
structure Stocked (before after : Heap) (images : List Value) (slots : List (Option Reference)) :
    Prop where
  each : List.Forall₂ (InSlot before after) images slots
  apart : slots.reduceOption.Nodup

namespace Stocked

variable {before between after : Heap} {image : Value} {images : List Value}
  {slots : List (Option Reference)}

theorem nil : Stocked before after [] [] := ⟨.nil, List.nodup_nil⟩

theorem cons_null (himage : image.isNull = true) (hrest : Stocked before after images slots) :
    Stocked before after (image :: images) (none :: slots) :=
  ⟨.cons himage hrest.each, hrest.apart⟩

theorem fresh (hs : Stocked before after images slots) {record : Reference}
    (hmem : some record ∈ slots) : before.object? record = none := by
  obtain ⟨i, hi, hslot⟩ := List.mem_iff_getElem.mp hmem
  have hpair := hs.each.get (hs.each.length_eq ▸ hi) hi
  simp only [List.get_eq_getElem, hslot] at hpair
  exact hpair.2.1

theorem earlier (hs : Stocked between after images slots)
    (hnew : ∀ x, between.object? x = none → before.object? x = none)
    (hfailing : between.failingMethods = before.failingMethods) :
    Stocked before after images slots := by
  refine ⟨hs.each.imp fun image slot hslot => ?_, hs.apart⟩
  cases slot with
  | none => exact hslot
  | some record =>
    obtain ⟨himage, hfresh, hheld⟩ := hslot
    exact ⟨himage, hnew record hfresh, hfailing ▸ hheld⟩

/-- The slots of the rest are filled after the record of the first image is in its place. -/
theorem cons_record {o p : HeapObject} {n m : Nat} (himage : image.isNull = false)
    (hfresh : before.object? record = none) (hfirst : before.Puts array o n between)
    (hrecord : between.object? record = some (.image (.ofImage before.failingMethods image)))
    (hafter : between.Puts array p m after) (hne : record ≠ array)
    (hrest : Stocked between after images slots) :
    Stocked before after (image :: images) (some record :: slots) where
  each := by
    have hlater := hrest.earlier (fun _ => hfirst.object?_eq_none) hfirst.failingMethods
    exact .cons ⟨himage, hfresh, hafter.others record _ hne hrecord⟩ hlater.each
  apart := by
    rw [List.reduceOption_cons_of_some]
    refine List.nodup_cons.mpr ⟨fun hmem => ?_, hrest.apart⟩
    have hnone := hrest.fresh (List.reduceOption_mem_iff.mp hmem)
    rw [hrecord] at hnone
    contradiction

end Stocked

/-- How many records a list of images takes. -/
def recordCount (images : List Value) : Nat := images.countP fun image => !image.isNull

theorem puts_storeAll {images : List Value} {done : List (Option Reference)}
    (harray : h.object? array =
      some (.array className (done ++ List.replicate images.length none)))
    (hclass : className ∉ h.failingClasses) :
    ∃ slots, Stocked h ((storeAll array done.length images).run h).2 images slots ∧
      h.Puts array (.array className (done ++ slots)) (recordCount images)
        ((storeAll array done.length images).run h).2 := by
  -- Over the images that are left. Those before have their slots, so the index is that many.
  induction images generalizing h done with
  | nil => exact ⟨[], .nil, .refl harray⟩
  | cons image rest ih =>
    have hrun : ((storeAll array done.length (image :: rest)).run h).2 =
        ((storeAll array (done.length + 1) rest).run
          ((storeImage array done.length image).run h).2).2 := rfl
    rw [hrun]
    cases himage : image.isNull with
    | true =>
      have hskip : ((storeImage array done.length image).run h).2 = h := by
        unfold storeImage
        rw [if_pos himage]
        rfl
      rw [hskip]
      have hskipped : h.object? array = some (.array className
          (done ++ [none] ++ List.replicate rest.length none)) := by
        simpa [List.replicate_succ] using harray
      have hnext := ih hskipped hclass
      rw [List.length_append] at hnext
      obtain ⟨slots, hrest, hput⟩ := hnext
      refine ⟨none :: slots, .cons_null himage hrest, ?_⟩
      simpa [recordCount, himage] using hput
    | false =>
      have hindex : done.length < (done ++ List.replicate (rest.length + 1) none).length := by
        simp
      obtain ⟨record, hfresh, hfirst, hrecord⟩ := puts_storeImage harray hindex hclass himage
      generalize ((storeImage array done.length image).run h).2 = next at *
      have hset : (done ++ List.replicate (rest.length + 1) none).set done.length (some record) =
          (done ++ [some record]) ++ List.replicate rest.length none := by
        simp [List.replicate_succ]
      rw [List.length_cons, hset] at hfirst
      have hnext := ih hfirst.put (hfirst.failingClasses ▸ hclass)
      rw [List.length_append] at hnext
      obtain ⟨slots, hrest, hput⟩ := hnext
      have hne : record ≠ array := Heap.ne_of_object? hfresh harray
      refine ⟨some record :: slots, hrest.cons_record himage hfresh hfirst hrecord hput hne, ?_⟩
      have hboth := hfirst.trans hput
      simpa [recordCount, himage, Nat.add_comm] using hboth

/-- What a load leaves: a new array with a slot for each image, and a record for each image that is
not null. -/
structure Loaded (before after : Heap) (images : List Value) (array : Reference) : Prop where
  fresh : before.object? array = none
  stocked : ∃ slots, after.array? array = some ("io/sentry/protocol/DebugImage", slots) ∧
    Stocked before after images slots
  allocated : after.allocated "io/sentry/protocol/DebugImage" =
    before.allocated "io/sentry/protocol/DebugImage" + recordCount images

/-- An array of records as it is made. -/
def emptyArray (n : Nat) : HeapObject := .array className (List.replicate n none)

theorem run_newArray (h : Heap) (n : Nat) :
    (Host.newArray className n).run h =
      if className ∈ h.failingClasses then (none, h)
      else (some (h.lend (emptyArray n)).1, (h.lend (emptyArray n)).2) := by
  change StateT.run (if className ∈ h.failingClasses then pure none else _) h = _
  split <;> rfl

theorem load_of_kind_ne {σ ρ : Type} [Host σ ρ] {images : Value} (hkind : images.kind ≠ .list)
    (h : σ) : (load images).run h = ((none : Option ρ), h) := by
  cases images with
  | list items => exact absurd rfl hkind
  | _ => rfl

theorem load_of_failing (hclass : className ∈ h.failingClasses) (items : List Value) :
    ((load (.list items)).run h).1 = none := by
  have hmade := run_newArray h items.length
  rw [if_pos hclass] at hmade
  simp only [load]
  rw [run_bind_of hmade]
  rfl

theorem load_of_list (hclass : className ∉ h.failingClasses) (items : List Value) :
    ∃ array, ((load (.list items)).run h).1 = some array ∧
      Loaded h ((load (.list items)).run h).2 items array := by
  have hmade := run_newArray h items.length
  rw [if_neg hclass] at hmade
  have hload : (load (.list items)).run h = (some (h.lend (emptyArray items.length)).1,
      ((storeAll (h.lend (emptyArray items.length)).1 0 items).run
        (h.lend (emptyArray items.length)).2).2) := by
    simp only [load]
    rw [run_bind_of hmade]
    rfl
  have hempty : (h.lend (emptyArray items.length)).2.object? (h.lend (emptyArray items.length)).1 =
      some (.array className ([] ++ List.replicate items.length none)) :=
    h.object?_lend (emptyArray items.length)
  obtain ⟨slots, hstocked, hput⟩ := puts_storeAll hempty hclass
  rw [hload]
  refine ⟨_, rfl, Heap.object?_eq_none (Nat.lt_succ_self _), ?_, ?_⟩
  · refine ⟨slots, ?_, hstocked.earlier (fun _ => Heap.object?_eq_none_of_lend) rfl⟩
    have harray := hput.put
    simp only [List.length_nil, List.nil_append] at harray
    simp only [Heap.array?, harray, className]
  · simp only [Heap.allocated, className, if_true]
    exact hput.records

end CrashCourier.Image

namespace CrashCourier

open Managed

/-- The list is read before anything is made for it. -/
theorem Reporter.run_loadImages {σ ρ : Type} [Host σ ρ] (r : Reporter) (h : σ) :
    (Reporter.loadImages.run r).run h =
      match r.images.list r.site.world.files with
      | (.error e, images) => ((.error e, { r with images }), h)
      | (.ok v, images) =>
        ((.ok ((Image.load v).run h).1, { r with images }), ((Image.load v).run h).2) := by
  have hlist : Reporter.imageList.run r =
      (pure ((r.images.list r.site.world.files).1,
        { r with images := (r.images.list r.site.world.files).2 }) : StateM σ _) := rfl
  rw [Reporter.loadImages, StateT.run_bind, hlist, pure_bind]
  rcases r.images.list r.site.world.files with ⟨e | v, images⟩ <;> rfl

namespace BridgeCall

/-- An array comes back for a list, unless such arrays cannot be made. It is new, every image is in
the slot of its index in a record of its own, and null leaves its slot empty. Where the list
overflows nothing is made. -/
theorem outcome_loadImages (r : Reporter) (h : Heap) :
    match (r.images.list r.site.world.files).1 with
    | .error _ => loadImages.outcome r h = (none, h)
    | .ok images =>
      ((loadImages.outcome r h).1 = none ↔
        images.kind ≠ .list ∨ "io/sentry/protocol/DebugImage" ∈ h.failingClasses) ∧
      ∀ array, (loadImages.outcome r h).1 = some array →
        Image.Loaded h (loadImages.outcome r h).2 images.items array := by
  have houtcome : loadImages.outcome r h = match (r.images.list r.site.world.files).1 with
      | .error _ => (none, h)
      | .ok images => (Image.load images).run h := by
    have hrun := Reporter.run_loadImages (ρ := Reference) r h
    rw [outcome, run, StateT.run_bind]
    rcases hlist : r.images.list r.site.world.files with ⟨e | images, catalog⟩
    · rw [hlist] at hrun
      rw [run_bind_of hrun]
      rfl
    · rw [hlist] at hrun
      rw [run_bind_of hrun]
      rfl
  rw [houtcome]
  cases (r.images.list r.site.world.files).1 with
  | error e => rfl
  | ok images =>
    dsimp only
    by_cases hkind : images.kind = .list
    · obtain ⟨items, rfl⟩ : ∃ items, images = .list items := by
        cases images with
        | list items => exact ⟨items, rfl⟩
        | _ => contradiction
      by_cases hclass : Image.className ∈ h.failingClasses
      · have hnone := Image.load_of_failing hclass items
        exact ⟨by simp [hnone, ← Image.className.eq_def, hclass], by simp [hnone]⟩
      · obtain ⟨array, hsome, hloaded⟩ := Image.load_of_list hclass items
        rw [hsome]
        refine ⟨by simp [hkind, ← Image.className.eq_def, hclass], fun other hother => ?_⟩
        cases hother
        exact hloaded
    · have hnone := Image.load_of_kind_ne hkind h
      simp [hnone, hkind]

/-- A list with null in it, a number, and images that lack fields or hold other kinds of values. -/
def roughImages : List Value :=
  [.null, .int 5,
    .object [("type", .string "elf"), ("image_addr", .int 7), ("image_size", .int (-1)),
      ("code_file", .string "a.so"), ("code_id", .null)],
    .object [("debug_id", .string "d"), ("debug_file", .string "b.so")],
    .object [("code_id", .string "c"), ("debug_id", .string "d"), ("type", .bool true)]]

def roughReporter : Reporter where
  site := { world := { files := { workDir := [], entries := [] }, supply := .numbered "" } }
  images := { source := .fixed (.list roughImages) }

theorem outcome_loadImages_rough :
    let h : Heap := { failingMethods := ["setImageAddr"] }
    (loadImages.outcome roughReporter h).1 = some ⟨1⟩ ∧
      Image.Loaded h (loadImages.outcome roughReporter h).2 roughImages ⟨1⟩ ∧
      (loadImages.outcome roughReporter h).2.records? ⟨1⟩ = .ok [none, some {},
        some { size := some (-1), codeFile := some "a.so", type := some "elf",
               debugId := some "" },
        some { debugFile := some "b.so" },
        some { type := some "", debugId := some "d", codeId := some "c" }] := by
  intro h
  have hanswer : (loadImages.outcome roughReporter h).1 = some ⟨1⟩ := by decide +kernel
  refine ⟨hanswer, (outcome_loadImages roughReporter h).2 ⟨1⟩ hanswer, ?_⟩
  decide +kernel

end BridgeCall

end CrashCourier
