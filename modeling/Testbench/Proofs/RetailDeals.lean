import Mathlib.Computability.Language
import Testbench.Proofs.RetailUpdates
import Testbench.Proofs.Steps

/-!
# The Deals of the Fish Retailer

Whoever pays a coin is served a tuna, and a garnish with it if it did not take too long. In
what order this can happen is told by words: a purchase is a coin, a tuna and perhaps a
garnish. What can be seen of a run is its deals, the inputs that are accepted and the lines
that are written, and it is for these that the words are meant.

What a stretch of a run deals follows from the ways in which an update can go: it makes one
deal or none, and it leaves the retailer as it was if it makes none.

## Main definitions

* `FishRetailer.Deal`, `FishRetailer.deals`: Accepted inputs and written lines.
* `FishRetailer.purchase`: The words of one purchase.
* `FishRetailer.LastDeal`: The deal that was made last.
* `FishRetailer.Gives`, `FishRetailer.Trades`: What a stretch of a run deals.

## Theorems

* `FishRetailer.LastDeal.unique`: There is only one last deal.
* `FishRetailer.trades`: The stretches of a run.
* `FishRetailer.deals_eq_of_mem`: No two deals are made at once.
-/

namespace Testbench

/-- What a clock was read to say. -/
def Answered.reading? : Answered → Option Float
  | ⟨.value _, v⟩ => some v
  | _ => none

namespace FishRetailer

open Computability Location Procedure

/-! ### Deals -/

/-- What a test environment sees of a purchase. -/
inductive Deal
  | accepted (input : String)
  | served (text : String)
  deriving DecidableEq

def coin : Deal := .accepted "coin"

def tuna : Deal := .served "tuna"

def garnish : Deal := .served "garnish"

def purchase : Language Deal := {[coin]} * {[tuna]} * ({[garnish]} + 1)

theorem mem_purchase : [coin, tuna] ∈ purchase ∧ [coin, tuna, garnish] ∈ purchase := by
  have hcoin : [coin] ∈ ({[coin]} : Language Deal) := rfl
  have htuna : [tuna] ∈ ({[tuna]} : Language Deal) := rfl
  have hpair := Language.append_mem_mul hcoin htuna
  exact ⟨Language.append_mem_mul hpair (Or.inr rfl), Language.append_mem_mul hpair (Or.inl rfl)⟩

theorem append_mem_purchases {words word : List Deal} (hwords : words ∈ purchase∗)
    (hword : word ∈ purchase) : words ++ word ∈ purchase∗ := by
  rcases Language.mem_kstar.mp hwords with ⟨parts, rfl, hparts⟩
  refine Language.mem_kstar.mpr ⟨parts ++ [word], ?_, fun part hpart => ?_⟩
  · rw [List.flatten_append, List.flatten_singleton]
  · rcases List.mem_append.mp hpart with hold | hnew
    · exact hparts part hold
    · rw [List.mem_singleton.mp hnew]
      exact hword

variable {ε : Type} [Environment ε]

/-- The deals of a stretch. An input that is refused has been read, but not accepted. -/
def deals (t : Stretch ε FishRetailer) : List Deal :=
  (if (t.outcome system).1 = none
    then (consumedIn (t.course system)).map fun line => .accepted line.text else []) ++
    (wroteIn (t.course system)).map .served

/-- What the clock reads in an update. -/
def readings (t : Stretch ε FishRetailer) : List Float :=
  (system.dialogueOn t.bench).filterMap Answered.reading?

/-- The last deal of the stretches is that of `c`, which comes after the `earlier` ones. -/
def LastDeal (past earlier : List (Stretch ε FishRetailer)) (c : Stretch ε FishRetailer)
    (deal : Deal) : Prop :=
  ∃ later, past = earlier ++ c :: later ∧ deals c = [deal] ∧ later.flatMap deals = []

namespace LastDeal

variable {past earlier earlier' : List (Stretch ε FishRetailer)} {c c' t : Stretch ε FishRetailer}
  {deal deal' : Deal}

theorem of_deal (h : deals t = [deal]) : LastDeal (past ++ [t]) past t deal := ⟨[], rfl, h, rfl⟩

theorem quiet (h : LastDeal past earlier c deal) (hnone : deals t = []) :
    LastDeal (past ++ [t]) earlier c deal := by
  rcases h with ⟨later, rfl, hdeal, hlater⟩
  refine ⟨later ++ [t], ?_, hdeal, ?_⟩
  · rw [List.append_assoc, List.cons_append]
  · rw [List.flatMap_append, hlater, List.flatMap_singleton, hnone, List.append_nil]

theorem deals_eq (h : LastDeal past earlier c deal) :
    past.flatMap deals = earlier.flatMap deals ++ [deal] := by
  rcases h with ⟨later, rfl, hdeal, hlater⟩
  rw [List.flatMap_append, List.flatMap_cons, hdeal, hlater, List.append_nil]

/-- There is only one last deal. -/
theorem unique (h : LastDeal past earlier c deal) (h' : LastDeal past earlier' c' deal') :
    earlier = earlier' ∧ c = c' := by
  rcases h with ⟨later, rfl, hdeal, hlater⟩
  rcases h' with ⟨later', hpast, hdeal', hlater'⟩
  have hquiet : ∀ {later : List (Stretch ε FishRetailer)} {t : Stretch ε FishRetailer}
      {deal : Deal}, later.flatMap deals = [] → t ∈ later → deals t ≠ [deal] := by
    intro later t deal hnone ht hsome
    rw [List.flatMap_eq_nil_iff.mp hnone _ ht] at hsome
    exact absurd hsome nofun
  rcases List.append_eq_append_iff.mp hpast with ⟨_ | ⟨t, between⟩, hearlier, hrest⟩ |
    ⟨_ | ⟨t, between⟩, hearlier, hrest⟩
  · rw [List.append_nil] at hearlier
    exact ⟨hearlier.symm, (List.cons.inj hrest).1⟩
  · refine absurd hdeal' (hquiet hlater ?_)
    rw [(List.cons.inj hrest).2]
    exact List.mem_append_right _ List.mem_cons_self
  · rw [List.append_nil] at hearlier
    exact ⟨hearlier, (List.cons.inj hrest).1.symm⟩
  · refine absurd hdeal (hquiet hlater' ?_)
    rw [(List.cons.inj hrest).2]
    exact List.mem_append_right _ List.mem_cons_self

end LastDeal

/-! ### What a stretch does -/

/-- What is owed is served, at a reading of the clock. -/
structure Gives (t : Stretch ε FishRetailer) (text : String) (v : Float) : Prop where
  stage : t.stage = .update
  owed : t.bench.system.owed? = some text
  due : t.bench.system.Due v
  dialogue : ∃ note : String × List (String × String), system.dialogueOn t.bench
    = [⟨.inputReady, false⟩, ⟨.value t.bench.system.x, v⟩, ⟨.write text, .ok ()⟩,
      ⟨.note note.1 note.2, ()⟩]
  next : (t.outcome system).2.system = t.bench.system.served
  goes : (t.outcome system).1 = none
  more : t.nextStage system = .update

/-- What can be told of a stretch. Only an update deals. -/
inductive Trades (t : Stretch ε FishRetailer) : Prop
  | stops (hhalt : (t.outcome system).1 ≠ none) (hdeals : deals t = [])
  | between (hstage : t.stage ≠ .update) (hsame : (t.outcome system).2.system = t.bench.system)
      (hdeals : deals t = [])
  | rests (hstage : t.stage = .update) (hsame : (t.outcome system).2.system = t.bench.system)
      (hdue : ∀ text ∈ t.bench.system.owed?, ∃ v,
        ⟨.value t.bench.system.x, v⟩ ∈ system.dialogueOn t.bench ∧ ¬ t.bench.system.Due v)
      (hdeals : deals t = [])
  | paid (x : Anchor) (hstage : t.stage = .update) (hlocation : t.bench.system.location = waiting)
      (hnext : (t.outcome system).2.system = ⟨coinGranted, x, true⟩)
      (hreset : ⟨.resetTime, x⟩ ∈ system.dialogueOn t.bench)
      (hgoes : (t.outcome system).1 = none) (hmore : t.nextStage system = .update)
      (hdeals : deals t = [coin])
  | serves (text : String) (v : Float) (hgives : Gives t text v)
      (hdeals : deals t = [.served text])

namespace Gives

variable {t : Stretch ε FishRetailer} {text : String} {v : Float}

theorem value (h : Gives t text v) :
    ⟨.value t.bench.system.x, v⟩ ∈ system.dialogueOn t.bench := by
  rcases h.dialogue with ⟨note, hdialogue⟩
  rw [hdialogue]
  exact .tail _ (.head _)

theorem readings_eq (h : Gives t text v) : readings t = [v] := by
  rcases h.dialogue with ⟨note, hdialogue⟩
  unfold readings
  rw [hdialogue]
  rfl

/-- A tuna is served in one location only, and a garnish in the other one. -/
theorem location_eq (h : Gives t text v) :
    t.bench.system.location = if text = "tuna" then coinGranted else waiting := by
  have howed := h.owed
  unfold owed? at howed
  split at howed
  · split at howed
    · rcases Option.some.inj howed
      assumption
    · exact absurd howed nofun
  · rcases Option.some.inj howed
    assumption

end Gives

theorem deals_eq_nil {t : Stretch ε FishRetailer} (h : t.stage ≠ .update) : deals t = [] := by
  have hread : consumedIn (t.course system) = [] :=
    consumedIn_eq_nil fun p hp => t.actor_ne_system h hp
  have hwrote : wroteIn (t.course system) = [] :=
    wroteIn_eq_nil fun p hp => t.actor_ne_system h hp
  unfold deals
  rw [hread, hwrote, List.map_nil, List.map_nil, ite_self]
  rfl

/-- The deals of an update, as told by its dialogue. -/
def dealsIn (d : List Answered) : Except ExecutionError Progress → List Deal
  | .ok _ => (heard d).map (fun line => .accepted line.text) ++ (said d).map .served
  | .error _ => (said d).map .served

theorem deals_update {b : Bench ε FishRetailer} {result : Except ExecutionError Progress}
    (hresult : (system.updateOn b).1 = result.mapError Halt.error) :
    deals ⟨.update, b⟩ = dealsIn (system.dialogueOn b) result := by
  have hread : consumedIn (Bench.updateCourse system b) = heard (system.dialogueOn b) :=
    system.consumedIn_update b
  have hwrote : wroteIn (Bench.updateCourse system b) = said (system.dialogueOn b) :=
    system.wroteIn_update b
  change (if haltOf (system.updateOn b).1 = none then
    (consumedIn (Bench.updateCourse system b)).map _ else []) ++
      (wroteIn (Bench.updateCourse system b)).map _ = _
  rw [hread, hwrote, hresult]
  cases result with
  | ok progress => rfl
  | error cause => rfl

theorem trades (t : Stretch ε FishRetailer) : Trades t := by
  by_cases hstage : t.stage = .update
  · rcases t with ⟨stage, b⟩
    rcases hstage with rfl
    rcases system.ensures_updateOn (ensures_update_serves b.system) with
      ⟨result, hserves, hresult⟩
    have hgoes : haltOf (system.updateOn b).1 = haltOf (result.mapError Halt.error) :=
      congrArg haltOf hresult
    have hdeals := deals_update hresult
    have hmore : result = .ok .transitioned →
        (Stretch.mk .update b).nextStage system = .update := fun h =>
      Stretch.nextStage_of_transitioned (by rw [hresult, h]; rfl)
    generalize hd : system.dialogueOn b = d at hserves hdeals
    generalize hnext : (system.updateOn b).2.system = next at hserves
    cases hserves with
    | unread cause | refused line _ | broke text v cause _ _ =>
      exact .stops (fun h => absurd (hgoes.symm.trans h) nofun) hdeals
    | paid x note hlocation =>
      refine .paid x rfl hlocation hnext ?_ hgoes (hmore rfl) hdeals
      change _ ∈ system.dialogueOn b
      rw [hd]
      simp
    | idle howed =>
      refine .rests rfl hnext (fun text htext => ?_) hdeals
      rw [show b.system.owed? = none from howed] at htext
      exact absurd htext (Option.not_mem_none text)
    | waits text v howed hdue =>
      refine .rests rfl hnext (fun _ _ => ⟨v, ?_, hdue⟩) hdeals
      change _ ∈ system.dialogueOn b
      rw [hd]
      simp
    | serves text v note howed hdue =>
      exact .serves text v ⟨rfl, howed, hdue, ⟨note, hd⟩, hnext, hgoes, hmore rfl⟩ hdeals
  · exact .between hstage (t.system_eq hstage) (deals_eq_nil hstage)

theorem gives_of_deals {t : Stretch ε FishRetailer} {text : String}
    (h : deals t = [.served text]) : ∃ v, Gives t text v := by
  cases trades t with
  | stops _ hdeals | between _ _ hdeals | rests _ _ _ hdeals | paid _ _ _ _ _ _ _ hdeals =>
    rw [hdeals] at h
    exact absurd h nofun
  | serves text v hgives hdeals =>
    rw [hdeals] at h
    cases h
    exact ⟨v, hgives⟩

/-- No two deals are made at once. -/
theorem deals_eq_of_mem {t : Stretch ε FishRetailer} {deal : Deal} (h : deal ∈ deals t) :
    deals t = [deal] := by
  cases trades t with
  | stops _ hdeals | between _ _ hdeals | rests _ _ _ hdeals =>
    rw [hdeals] at h
    exact absurd h List.not_mem_nil
  | paid _ _ _ _ _ _ _ hdeals | serves _ _ _ hdeals =>
    rw [hdeals] at h ⊢
    rw [List.mem_singleton.mp h]

end FishRetailer

end Testbench
