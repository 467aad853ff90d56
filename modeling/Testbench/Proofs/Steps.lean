import Mathlib.Data.List.Chain
import Testbench.Proofs.Stages

/-!
# Steps, Stretch by Stretch

What comes after a stretch of a run is known from the stretch. A start and a settling are
followed by an update; an update is followed by another one of the same step if it took a
transition, and by a settling if it was quiescent. So the end of a step can be seen in the
list of stretches: it is where a settling begins.

This is what an invariant needs that holds in the middle of a step but not at its end, or the
other way round. `Bench.stages_invariant` carries such a statement along a run. It may
depend on the stage that comes next and on the whole history, which is the list of all
stretches so far, each with the bench at which it began.

## Main definitions

* `Stretch.nextStage`: The stage of what comes next.

## Theorems

* `Bench.isChain_stages`: One stage after another.
* `Bench.stages_invariant`: What each successful stretch keeps.
* `Bench.stage_of_stages`, `Bench.next_of_stages`: A stretch and the one after it.
-/

namespace Testbench

variable {ε σ : Type} [Environment ε]

/-- The stage of what comes after the stretch, if anything does. -/
def Stretch.nextStage (system : System σ) (t : Stretch ε σ) : Stage :=
  match t.stage with
  | .start | .settle => .update
  | .update =>
    match (system.updateOn t.bench).1 with
    | .ok .quiescent => .settle
    | _ => .update

namespace Stretch

variable {system : System σ} {t : Stretch ε σ}

theorem nextStage_of_ne (h : t.stage ≠ .update) : t.nextStage system = .update := by
  rcases t with ⟨_ | _ | _, b⟩
  · rfl
  · exact absurd rfl h
  · rfl

theorem nextStage_of_quiescent (hstage : t.stage = .update)
    (h : (system.updateOn t.bench).1 = .ok .quiescent) : t.nextStage system = .settle := by
  simp only [nextStage, hstage, h]

theorem nextStage_of_transitioned
    (h : (system.updateOn t.bench).1 = .ok .transitioned) : t.nextStage system = .update := by
  unfold nextStage
  rw [h]
  split <;> rfl

end Stretch

namespace Bench

/-- The updates of a step, the last of which is quiescent if the step succeeds. -/
theorem isChain_updateStages (system : System σ) (limit : Nat) (b : Bench ε σ) :
    List.IsChain (fun t u => u.stage = t.nextStage system) (updateStages system limit b) ∧
      ∀ count total next, transitions system.updateOn limit count b = (.ok total, next) →
        ∀ t ∈ (updateStages system limit b).getLast?, t.nextStage system = .settle := by
  induction limit generalizing b with
  | zero => exact ⟨.nil, fun _ _ _ h => by cases h⟩
  | succ limit ih =>
    unfold updateStages transitions
    rcases hupdate : system.updateOn b with ⟨halt | _ | _, next⟩
    · exact ⟨.singleton _, fun _ _ _ h => by cases h⟩
    · rcases ih next with ⟨hchain, hlast⟩
      refine ⟨hchain.cons fun u hu => ?_, fun count total last h t ht => ?_⟩
      · rw [stage_of_mem_updateStages (List.mem_of_mem_head? hu)]
        exact (Stretch.nextStage_of_transitioned (congrArg Prod.fst hupdate)).symm
      -- The step has not been given up, so there is an update left to be the last one.
      · have hmore : updateStages system limit next ≠ [] := fun hnone => by
          rcases limit with _ | limit
          · cases h
          · simp only [updateStages, reduceCtorEq] at hnone
        rw [List.getLast?_cons, List.getLast?_eq_some_getLast hmore] at ht
        refine hlast (count + 1) total last h t ?_
        rw [List.getLast?_eq_some_getLast hmore]
        exact ht
    · refine ⟨.singleton _, fun _ _ _ _ t ht => ?_⟩
      rcases Option.some.inj ht with rfl
      exact Stretch.nextStage_of_quiescent rfl (congrArg Prod.fst hupdate)

theorem isChain_driveStages (system : System σ) (limit steps : Nat) (b : Bench ε σ) :
    List.IsChain (fun t u => u.stage = t.nextStage system) (driveStages system limit steps b) ∧
      ∀ t ∈ (driveStages system limit steps b).head?, t.stage = .update := by
  induction steps generalizing b with
  | zero => exact ⟨.nil, fun t ht => absurd ht (Option.not_mem_none t)⟩
  | succ steps ih =>
    rcases isChain_updateStages system limit { b with phase := .running } with ⟨hchain, hlast⟩
    have hfirst : ∀ t ∈ (updateStages system limit { b with phase := .running }).head?,
        t.stage = .update :=
      fun t ht => stage_of_mem_updateStages (List.mem_of_mem_head? ht)
    unfold driveStages
    rcases htransitions : transitions system.updateOn limit 0 { b with phase := .running } with
      ⟨halt | count, next⟩
    · rw [runStep_of_error htransitions, List.append_nil]
      exact ⟨hchain, hfirst⟩
    · rw [runStep_of_ok htransitions]
      have hsome : updateStages system limit { b with phase := .running } ≠ [] := by
        rcases limit with _ | limit
        · cases htransitions
        · simp only [updateStages, ne_eq, reduceCtorEq, not_false_eq_true]
      refine ⟨List.isChain_append.mpr ⟨hchain, ?_, fun t ht u hu => ?_⟩, ?_⟩
      · simp only
        split
        · next halt later _ => exact (ih later).1.cons fun u hu => (ih later).2 u hu
        · exact .singleton _
      · rw [hlast 0 count next htransitions t ht]
        rcases Option.some.inj hu with rfl
        rfl
      · rw [List.head?_append_of_ne_nil _ hsome]
        exact hfirst

/-- One stage comes after another. -/
theorem isChain_stages (system : System σ) (limit steps : Nat) (b : Bench ε σ) :
    List.IsChain (fun t u => u.stage = t.nextStage system) (stages system limit steps b) := by
  unfold stages
  split
  · next later _ =>
    rcases isChain_driveStages system limit steps later with ⟨hchain, hfirst⟩
    exact hchain.cons hfirst
  · exact .singleton _

theorem stage_of_stages {system : System σ} {limit steps : Nat} {b : Bench ε σ}
    {before after : List (Stretch ε σ)} {t u : Stretch ε σ}
    (h : stages system limit steps b = before ++ t :: u :: after) :
    u.stage = t.nextStage system :=
  List.isChain_iff_forall_rel_of_append_cons_cons.mp (isChain_stages system limit steps b) h

end Bench

/-! ### What is carried along a run -/

/-- What every successful stretch keeps holds wherever a stretch begins. -/
theorem Follows.history {system : System σ} {b next : Bench ε σ} {halt : Option Halt}
    {P : List (Stretch ε σ) → Stage → Bench ε σ → Prop} {stage : Stage}
    {before after : List (Stretch ε σ)} {t : Stretch ε σ} (past : List (Stretch ε σ))
    (hlike : ∀ {past stage b next}, P past stage b → b.IsLike next → P past stage next)
    (hkept : ∀ {past} {u : Stretch ε σ}, P past u.stage u.bench → (u.outcome system).1 = none →
      P (past ++ [u]) (u.nextStage system) (u.outcome system).2)
    (h : Follows system b (before ++ t :: after) halt next)
    (hchain : List.IsChain (fun t u => u.stage = t.nextStage system) (before ++ t :: after))
    (hstage : ∀ u ∈ (before ++ t :: after).head?, u.stage = stage) (hb : P past stage b) :
    P (past ++ before) t.stage t.bench := by
  induction before generalizing b past stage with
  | nil =>
    rw [List.append_nil, hstage t rfl]
    cases h with
    | stopped hfirst _ _ | cons hfirst _ _ => exact hlike hb hfirst
  | cons u before ih =>
    rcases h.uncons with ⟨hfirst, hgoes, hrest⟩
    rcases List.isChain_cons.mp hchain with ⟨hnext, hchain⟩
    rw [← List.singleton_append, ← List.append_assoc]
    refine ih _ hrest hchain hnext (hkept ?_ hgoes)
    rw [hstage u rfl]
    exact hlike hb hfirst

/-- A stretch begins where the one before it has ended. -/
theorem Follows.next {system : System σ} {b last : Bench ε σ} {halt : Option Halt}
    {before after : List (Stretch ε σ)} {t u : Stretch ε σ}
    (h : Follows system b (before ++ t :: u :: after) halt last) :
    (t.outcome system).1 = none ∧ (t.outcome system).2.IsLike u.bench := by
  induction before generalizing b with
  | nil =>
    have hsplit : Follows system b (t :: ([] ++ u :: after)) halt last := h
    rcases hsplit.uncons with ⟨-, hgoes, hrest⟩
    cases hrest with
    | stopped hfirst _ _ | cons hfirst _ _ => exact ⟨hgoes, hfirst⟩
  | cons v before ih => exact ih h.uncons.2.2

namespace Bench

variable {system : System σ} {limit steps : Nat} {b : Bench ε σ}
  {before after : List (Stretch ε σ)} {t u : Stretch ε σ}

/-- The same along a run. -/
theorem stages_invariant {P : List (Stretch ε σ) → Stage → Bench ε σ → Prop}
    (hlike : ∀ {past stage b next}, P past stage b → b.IsLike next → P past stage next)
    (hkept : ∀ {past} {u : Stretch ε σ}, P past u.stage u.bench → (u.outcome system).1 = none →
      P (past ++ [u]) (u.nextStage system) (u.outcome system).2)
    (hb : P [] .start b) (h : stages system limit steps b = before ++ t :: after) :
    P before t.stage t.bench := by
  rcases follows_run system limit steps b with ⟨halt, hfollows, -⟩
  have hchain := isChain_stages system limit steps b
  have hfirst : ∀ u ∈ (stages system limit steps b).head?, u.stage = .start := fun u hu => by
    rw [← Option.some.inj hu]
  rw [h] at hfollows hchain hfirst
  exact hfollows.history [] hlike hkept hchain hfirst hb

theorem next_of_stages (h : stages system limit steps b = before ++ t :: u :: after) :
    (t.outcome system).1 = none ∧ (t.outcome system).2.IsLike u.bench := by
  rcases follows_run system limit steps b with ⟨halt, hfollows, -⟩
  rw [h] at hfollows
  exact hfollows.next

end Bench

end Testbench
