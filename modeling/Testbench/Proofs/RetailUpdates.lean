import Testbench.Proofs.Dialogue
import Testbench.Systems.FishRetailer

/-!
# The Updates of the Fish Retailer

There are seven ways in which an update can go, and each of them is a dialogue of a few calls.
The retailer asks for an input first, in both of its locations. If there is one it is accepted
or refused. If there is none, what is owed is served once the clock says so.

This is all that the retailer does, so whatever is said of it elsewhere follows from this list.

## Main definitions

* `FishRetailer.owed?`, `FishRetailer.Due`: What is to be served next, and when.
* `FishRetailer.Serves`: The ways in which an update can go.

## Theorems

* `FishRetailer.ensures_update_serves`: The updates of the retailer.
-/

namespace Testbench

namespace FishRetailer

open Location Procedure

/-- What is to be served next, if anything is. -/
def owed? (r : FishRetailer) : Option String :=
  match r.location with
  | waiting => if r.free then some "garnish" else none
  | coinGranted => some "tuna"

/-- It is served when the clock reads this. -/
def Due (r : FishRetailer) (v : Float) : Prop :=
  match r.location with
  | waiting => v < garnishLimit
  | coinGranted => preparation < v

/-- What has been served is owed no more. -/
def served (r : FishRetailer) : FishRetailer :=
  match r.location with
  | waiting => { r with free := false }
  | coinGranted => { r with location := waiting }

/-- The ways in which an update can go, each with the whole dialogue. -/
inductive Serves (r : FishRetailer) : Procedure.Post FishRetailer Progress
  | unread (cause : ExecutionError) :
      Serves r [⟨.inputReady, true⟩, ⟨.read, .error cause⟩] (.error cause) r
  | refused (line : Line) (hother : r.location = waiting → line ≠ ⟨"coin"⟩) :
      Serves r [⟨.inputReady, true⟩, ⟨.read, .ok line⟩] (.error (.unexpected r.location line)) r
  | paid (x : Anchor) (note : String × List (String × String)) (hlocation : r.location = waiting) :
      Serves r [⟨.inputReady, true⟩, ⟨.read, .ok ⟨"coin"⟩⟩, ⟨.resetTime, x⟩,
        ⟨.note note.1 note.2, ()⟩] (.ok .transitioned) ⟨coinGranted, x, true⟩
  | idle (howed : r.owed? = none) : Serves r [⟨.inputReady, false⟩] (.ok .quiescent) r
  | waits (text : String) (v : Float) (howed : r.owed? = some text) (hdue : ¬ r.Due v) :
      Serves r [⟨.inputReady, false⟩, ⟨.value r.x, v⟩] (.ok .quiescent) r
  | serves (text : String) (v : Float) (note : String × List (String × String))
      (howed : r.owed? = some text) (hdue : r.Due v) :
      Serves r [⟨.inputReady, false⟩, ⟨.value r.x, v⟩, ⟨.write text, .ok ()⟩,
        ⟨.note note.1 note.2, ()⟩] (.ok .transitioned) r.served
  | broke (text : String) (v : Float) (cause : ExecutionError) (howed : r.owed? = some text)
      (hdue : r.Due v) :
      Serves r [⟨.inputReady, false⟩, ⟨.value r.x, v⟩, ⟨.write text, .error cause⟩]
        (.error cause) r

theorem ensures_refuse {r : FishRetailer} {input : Line}
    {post : Procedure.Post FishRetailer Progress} :
    (refuse input).Ensures r post ↔ post [] (.error (.unexpected r.location input)) r := by
  simp only [refuse, ensures_bind, ensures_get, ensures_throw, List.append_nil]

theorem ensures_clock {r : FishRetailer} {post : Procedure.Post FishRetailer Float} :
    clock.Ensures r post ↔ ∀ time, post [⟨.value r.x, time⟩] (.ok time) r := by
  simp only [clock, ensures_bind, ensures_get, ensures_value, List.nil_append]

theorem ensures_update_serves (r : FishRetailer) : update.Ensures r (Serves r) := by
  rcases r with ⟨location, x, free⟩
  unfold update
  rw [ensures_bind, ensures_get]
  cases location with
  | waiting =>
    simp only [updateWaiting, moved, ensures_bind, ensures_get, ensures_nextInput?, ensures_pure,
      ensures_ite, ensures_clock, ensures_write, ensures_modify, ensures_note]
    refine ⟨?_, fun line => ?_, fun cause => .unread cause⟩
    · cases free with
      | false => exact .idle rfl
      | true =>
        intro v
        split
        · next hdue => exact ⟨.serves _ v (_, _) rfl hdue, fun cause => .broke _ v cause rfl hdue⟩
        · next hdue => exact .waits _ v rfl hdue
    · split
      · simp only [ensures_bind, ensures_resetTime, ensures_set, ensures_get, ensures_note,
          ensures_pure]
        next h =>
          cases h
          exact fun x => .paid x (_, _) rfl
      · next input hother h =>
          cases h
          exact .refused line fun _ heq => hother (by rw [heq])
      · next h => cases h
  | coinGranted =>
    simp only [updateGranted, moved, ensures_bind, ensures_get, ensures_nextInput?,
      ensures_refuse, ensures_pure, ensures_ite, ensures_clock, ensures_write, ensures_modify,
      ensures_note]
    refine ⟨fun v => ?_, fun line => .refused line (fun h => by cases h),
      fun cause => .unread cause⟩
    split
    · next hdue => exact ⟨.serves _ v (_, _) rfl hdue, fun cause => .broke _ v cause rfl hdue⟩
    · next hdue => exact .waits _ v rfl hdue

end FishRetailer

end Testbench
