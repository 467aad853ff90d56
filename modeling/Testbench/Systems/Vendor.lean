import Testbench.Program

/-!
# The Vendor

A vending machine that hands out a drink two time units after a coin was inserted.
While it prepares the drink it leaves its inputs alone.

## Main definitions

* `Vendor`: The clock of the coin, if one has been paid.
* `Vendor.system`: The machine as a system under test.
-/

namespace Testbench

structure Vendor where
  paidAt : Option Anchor
  deriving DecidableEq, Inhabited

namespace Vendor

open Procedure

def preparation : Float := 2.0

def update : Procedure Vendor Progress := do
  match (← get).paidAt with
  | none =>
    match ← nextInput? with
    | none => return .quiescent
    | some ⟨"coin"⟩ =>
      let x ← resetTime
      set (⟨some x⟩ : Vendor)
      return .transitioned
    | some input => throw (.unexpected "idle" input)
  | some x =>
    if (← value x) ≥ preparation then
      write "drink"
      set (⟨none⟩ : Vendor)
      return .transitioned
    else return .quiescent

def system : System Vendor := ⟨fun _ => ⟨none⟩, update⟩

end Vendor

end Testbench
