import CrashCourier.Proofs.Managed.References
import CrashCourier.Reporter

namespace CrashCourier

open Managed

variable {start : Heap} {held : List Reference}

theorem ScopeCall.balanced_change? (moment : String) (call : ScopeCall Reference) :
    Balanced start held (call.change? moment) fun _ => held := by
  cases call with
  | setTag key value | setExtra key value =>
    refine (Balanced.resolve key).bind fun key => (Balanced.resolve value).bind fun value => ?_
    split <;> exact .pure _ rfl
  | removeTag key | removeExtra key => exact (Balanced.resolve key).bind fun _ => .pure _ rfl
  | setUser id email ipAddress username =>
    refine (Balanced.resolve id).bind fun _ => (Balanced.resolve email).bind fun _ => ?_
    refine (Balanced.resolve ipAddress).bind fun _ => (Balanced.resolve username).bind fun _ => ?_
    exact .pure _ rfl
  | removeUser => exact .pure _ rfl
  | addBreadcrumb level message category type timestamp data =>
    simp only [ScopeCall.change?]
    split
    · exact .pure _ rfl
    · refine (Balanced.resolve message).bind fun _ => (Balanced.resolve type).bind fun _ => ?_
      refine (Balanced.resolve category).bind fun _ => (Balanced.resolve level).bind fun _ => ?_
      refine (Balanced.resolve timestamp).bind fun _ => (Balanced.resolve data).bind fun _ => ?_
      exact .pure _ rfl

namespace Startup

/-- A step that may fail, and what follows it if it does not. -/
theorem balanced_bind {ε α β : Type} {step : ExceptT ε (StateM Heap) α}
    {next : α → ExceptT ε (StateM Heap) β} (hstep : Balanced start held step.run fun _ => held)
    (hnext : ∀ a, Balanced start held (next a).run fun _ => held) :
    Balanced start held (step >>= next).run fun _ => held := by
  rw [ExceptT.run_bind]
  refine hstep.bind fun result => ?_
  cases result with
  | error e => exact .pure _ rfl
  | ok a => exact hnext a

variable {α : Type}

theorem balanced_asked {call : StateM Heap (Except Thrown α)}
    (hcall : Balanced start held call fun _ => held) :
    Balanced start held (readOptions.asked call).run fun _ => held := by
  refine hcall.bind fun result => ?_
  split <;> exact .pure _ rfl

theorem balanced_needed {call : StateM Heap (Option α)} (field : String)
    (hcall : Balanced start held call fun _ => held) :
    Balanced start held (readOptions.needed field call).run fun _ => held := by
  refine hcall.bind fun result => ?_
  split <;> exact .pure _ rfl

theorem balanced_wellFormed (b : Buffer) :
    Balanced start held (readOptions.wellFormed b : ExceptT CallError (StateM Heap) String).run
      fun _ => held := by
  unfold readOptions.wellFormed
  split <;> exact .pure _ rfl

theorem balanced_optionalText (object : Reference) (o : TextOption) :
    Balanced start held (ExceptT.lift (optionalText object o) :
      ExceptT CallError (StateM Heap) (Option String)).run fun _ => held := by
  have htext : Balanced start held (optionalText object o) fun _ => held :=
    (Balanced.callForText object o.method).bind fun _ => .pure _ rfl
  exact htext.map

theorem balanced_readOptions (object : Reference) :
    Balanced start held (readOptions object).run fun _ => held := by
  refine balanced_bind (balanced_asked (Balanced.callBool object debugMethod)) fun debug => ?_
  refine balanced_bind (balanced_asked (Balanced.callInt object capacityMethod)) fun capacity => ?_
  refine balanced_bind (balanced_needed _ (Balanced.callForText object _)) fun outbox => ?_
  refine balanced_bind (balanced_wellFormed outbox) fun path => ?_
  refine balanced_bind (balanced_needed _ (Balanced.callForText object _)) fun given => ?_
  refine balanced_bind (balanced_wellFormed given) fun dsn => ?_
  refine balanced_bind (balanced_optionalText object .release) fun release => ?_
  refine balanced_bind (balanced_optionalText object .environment) fun environment => ?_
  refine balanced_bind (balanced_optionalText object .dist) fun dist => ?_
  exact .pure _ rfl

end Startup

namespace Image

variable {record array : Reference}

theorem balanced_callSetter (hr : record ∈ held) (f : Field) (arg : Argument Reference) :
    Balanced start held (callSetter record f arg) fun _ => held :=
  (Balanced.callSetter hr f.setter arg).bind fun _ => .pure _ rfl

theorem balanced_setText (hr : record ∈ held) (f : Field) (text : String) :
    Balanced start held (setText record f text) fun _ => held := by
  refine (Balanced.newText text).bind fun made => Balanced.using? made ?_
  exact balanced_callSetter (List.mem_append_right _ hr) f _

theorem balanced_setField (hr : record ∈ held) (image : Value) (f : Field) :
    Balanced start held (setField record image f) fun _ => held := by
  unfold setField
  split
  · dsimp only
    split
    · exact .pure _ rfl
    · exact balanced_callSetter hr _ _
  · split
    · exact .pure _ rfl
    · exact balanced_setText hr _ _
  · dsimp only
    split
    · exact .pure _ rfl
    · exact balanced_setText hr _ _

theorem balanced_fill (hr : record ∈ held) (image : Value) :
    Balanced start held (fill record image) fun _ => held := by
  unfold fill
  induction fillOrder with
  | nil => exact .pure _ rfl
  | cons f rest ih => exact (balanced_setField hr image f).bind fun _ => ih

/-- The record that an image is stored in is given back; the array holds it. -/
theorem balanced_storeImage (ha : array ∈ held) (index : Nat) (image : Value) :
    Balanced start held (storeImage array index image) fun _ => held := by
  unfold storeImage
  split
  · exact .pure _ rfl
  · refine (Balanced.newObject className).bind fun made => ?_
    cases made with
    | none => exact .pure _ rfl
    | some record =>
      refine (balanced_fill (by simp) image).bind fun _ => ?_
      refine (Balanced.setElement (by simp [ha]) index record).bind fun _ => ?_
      exact Balanced.delete

theorem balanced_storeAll (ha : array ∈ held) (images : List Value) (index : Nat) :
    Balanced start held (storeAll array index images) fun _ => held := by
  induction images generalizing index with
  | nil => exact .pure _ rfl
  | cons image rest ih => exact (balanced_storeImage ha index image).bind fun _ => ih (index + 1)

theorem balanced_load (images : Value) :
    Balanced start held (load images) fun made => made.toList ++ held := by
  unfold load
  split
  · next items =>
    refine (Balanced.newArray className items.length).bind fun made => ?_
    cases made with
    | none => exact .pure _ rfl
    | some array =>
      exact (balanced_storeAll (by simp) items 0).bind fun _ => .pure _ rfl
  · exact .pure _ rfl

end Image

namespace Reporter

variable {α β : Type}

/-- A request that is begun with some references held and ends with others, whatever the reporter
holds. -/
def Balanced (start : Heap) (held : List Reference) (request : Request Heap α)
    (left : α → List Reference) : Prop :=
  ∀ r, Managed.Balanced start held (request.run r) fun answer => left answer.1

theorem Balanced.pure (a : α) {left : α → List Reference} (ha : left a = held) :
    Balanced start held (Pure.pure a) left := by
  intro r
  exact .pure _ ha

theorem Balanced.bind {request : Request Heap α} {next : α → Request Heap β}
    {middle : α → List Reference} {left : β → List Reference}
    (hrequest : Balanced start held request middle)
    (hnext : ∀ a, Balanced start (middle a) (next a) left) :
    Balanced start held (request >>= next) left := by
  intro r
  rw [StateT.run_bind]
  exact (hrequest r).bind fun answer => hnext answer.1 answer.2

theorem Balanced.ask {call : StateM Heap α} {left : α → List Reference}
    (hcall : Managed.Balanced start held call left) :
    Balanced start held (Reporter.ask call) left := by
  intro r
  exact hcall.bind fun _ => .pure _ rfl

/-- The reporter's own part of a request does not reach the heap. -/
theorem Balanced.modifyGet (f : Reporter → α × Reporter) :
    Balanced start held (MonadStateOf.modifyGet f) fun _ => held := by
  intro r
  exact .pure _ rfl

theorem balanced_startFrom (thread : Nat) (object : Reference) :
    Balanced start held (startFrom thread object) fun _ => held := by
  refine (Balanced.modifyGet _).bind fun _ => ?_
  refine (Balanced.ask (Startup.balanced_readOptions object)).bind fun options => ?_
  split
  · exact Balanced.modifyGet _
  · refine (Balanced.modifyGet _).bind fun result => ?_
    split
    · exact Balanced.modifyGet _
    · exact .pure _ rfl

theorem balanced_changeScope (call : ScopeCall Reference) :
    Balanced start held (changeScope call) fun _ => held := by
  refine (Balanced.modifyGet fun r => (r, r)).bind fun r => ?_
  refine (Balanced.ask (call.balanced_change? _)).bind fun change => ?_
  split
  · exact Balanced.modifyGet _
  · exact .pure _ rfl

/-- A list that overflows leaves nothing to load. -/
theorem balanced_loadImages :
    Balanced start held loadImages fun made => (made.toOption.bind id).toList ++ held := by
  refine (Balanced.modifyGet _).bind fun images => ?_
  cases images with
  | error e => exact .pure _ rfl
  | ok images => exact (Balanced.ask (Image.balanced_load images)).bind fun made => .pure _ rfl

end Reporter

/-- What the managed side may call the bridge for. -/
inductive BridgeCall where
  | startFrom (thread : Nat) (object : Reference)
  | copyText (source : Reference)
  | resolveText (source : Option Reference)
  | callForText (object : Reference) (method : String)
  | changeScope (call : ScopeCall Reference)
  | loadImages

namespace BridgeCall

/-- What the bridge does. The answer is the reference that the managed side gets. -/
def run : BridgeCall → Reporter.Request Heap (Option Reference)
  | startFrom thread object => do
    Reporter.startFrom thread object
    pure none
  | copyText source => do
    let _ ← Reporter.ask (toBuffer source)
    pure none
  | resolveText source => do
    let _ ← Reporter.ask (resolve source)
    pure none
  | callForText object method => do
    let _ ← Reporter.ask (Managed.callForText object method)
    pure none
  | changeScope call => do
    Reporter.changeScope call
    pure none
  | loadImages => do
    let made ← Reporter.loadImages
    pure (made.toOption.bind id)

theorem balanced_run (call : BridgeCall) :
    Reporter.Balanced start held call.run fun answer => answer.toList ++ held := by
  cases call with
  | startFrom thread object =>
    exact (Reporter.balanced_startFrom thread object).bind fun _ => .pure _ rfl
  | copyText source => exact (Reporter.Balanced.ask (.toBuffer source)).bind fun _ => .pure _ rfl
  | resolveText source => exact (Reporter.Balanced.ask (.resolve source)).bind fun _ => .pure _ rfl
  | callForText object method =>
    exact (Reporter.Balanced.ask (.callForText object method)).bind fun _ => .pure _ rfl
  | changeScope call => exact (Reporter.balanced_changeScope call).bind fun _ => .pure _ rfl
  | loadImages => exact Reporter.balanced_loadImages.bind fun _ => .pure _ rfl

/-- What a call answers, and the heap that it leaves. -/
def outcome (call : BridgeCall) (r : Reporter) (h : Heap) : Option Reference × Heap :=
  let answer := (call.run.run r).run h
  (answer.1.1, answer.2)

/-- Against the heap before, no reference was given back that was not due; due are the same
references and the new one, if any, that the managed side got; and the objects of before are as they
were. -/
theorem outcome_settled (call : BridgeCall) (r : Reporter) (h : Heap) :
    (call.outcome r h).2.misreturned = h.misreturned ∧
    (call.outcome r h).2.live.Perm ((call.outcome r h).1.toList ++ h.live) ∧
    (∀ x ∈ (call.outcome r h).1, h.object? x = none) ∧
    ∀ x o, h.object? x = some o → (call.outcome r h).2.object? x = some o := by
  have hbalance : h.Balance ((call.outcome r h).1.toList ++ []) (call.outcome r h).2 :=
    call.balanced_run r h (.refl h)
  rw [List.append_nil] at hbalance
  refine ⟨hbalance.misreturned, hbalance.live, ?_, fun x o => hbalance.object?⟩
  intro x hx
  exact hbalance.object?_of_mem (Option.mem_toList.mpr hx)

end BridgeCall

end CrashCourier
