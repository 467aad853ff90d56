import Testbench.Program
import Testbench.Time.Written

/-!
# The Fish Retailer

A coin buys a tuna, which is handed out once more than one time unit has passed. A
garnish is free with it if the tuna comes within three time units of the coin.

While the tuna is being prepared no input is accepted. A garnish is still owed
after the tuna has been served, and is served in a transition of its own, unless
another coin comes first or it is too late.

## Main definitions

* `FishRetailer`: A location, the clock, and whether a garnish is owed.
* `FishRetailer.system`: The retailer as a system under test.
-/

namespace Testbench

inductive FishRetailer.Location
  | waiting
  /-- A coin was inserted and the tuna is being prepared. -/
  | coinGranted
  deriving DecidableEq, Repr, Inhabited

namespace FishRetailer

instance : Inspect Location where
  inspect
    | .waiting => "Waiting"
    | .coinGranted => "CoinGranted"

end FishRetailer

structure FishRetailer where
  location : FishRetailer.Location
  x : Anchor
  /-- A garnish is owed for the last coin. -/
  free : Bool
  deriving DecidableEq

instance : Inspect FishRetailer where
  inspect r := Inspect.record "FishRetailer"
    [("location", inspect r.location), ("x", inspect r.x), ("free", inspect r.free)]

namespace FishRetailer

open Location Procedure

def preparation : Float := 1.0

def garnishLimit : Float := 3.0

def clock : Procedure FishRetailer Float := do value (← get).x

def refuse (input : Line) : Procedure FishRetailer Progress := do
  throw (.unexpected (← get).location input)

/-- A transition was taken; the new state is noted. -/
def moved : Procedure FishRetailer Progress := do
  let r ← get
  note "fish retailer" [("location", inspect r.location), ("free", inspect r.free)]
  return .transitioned

def updateWaiting : Procedure FishRetailer Progress := do
  match ← nextInput? with
  | some ⟨"coin"⟩ =>
    let x ← resetTime
    set { location := coinGranted, x, free := true : FishRetailer }
    moved
  | some input => refuse input
  | none =>
    if !(← get).free then return .quiescent
    if (← clock) < garnishLimit then
      write "garnish"
      modify fun r => { r with free := false }
      moved
    else return .quiescent

def updateGranted : Procedure FishRetailer Progress := do
  match ← nextInput? with
  | some input => refuse input
  | none =>
    if (← clock) > preparation then
      write "tuna"
      modify fun r => { r with location := waiting }
      moved
    else return .quiescent

def update : Procedure FishRetailer Progress := do
  match (← get).location with
  | waiting => updateWaiting
  | coinGranted => updateGranted

def system : System FishRetailer := ⟨fun x => ⟨waiting, x, false⟩, update⟩

end FishRetailer

end Testbench
