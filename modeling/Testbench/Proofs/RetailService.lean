import Testbench.Proofs.Clocks
import Testbench.Proofs.Pacing
import Testbench.Proofs.RetailDeals

/-!
# The Service of the Fish Retailer

The retailer remembers little of a purchase, a location, a clock and a mark for the garnish.
What it owes has a history, though. A tuna is owed for the last coin, whose update has reset
the clock; a garnish is owed for the last tuna, and that one for the last coin before it. This
history is what is carried along a run. It tells how much time has passed when something is
served, since the clock is read just before.

In simulated time a bit more is carried. The clock of a tuna that is owed has not ticked more
than twice, and not more than once at the end of a step, as the tuna is due at the second tick.

The retailer sees only what is there when it looks. A coin that comes after the look for an
input, while the tuna is being served, is not seen before the next update, which then takes it
and forgets the garnish. And time is what the clock reads, in whole milliseconds.

## Main definitions

* `FishRetailer.Elapsed`: The time between two stretches, as a clock reads it.
* `FishRetailer.Started`: The clock was reset in an update that is over.
* `FishRetailer.Ticks`: How often the clock has ticked.
* `FishRetailer.Owes`: What is owed, and what for.
* `FishRetailer.sinceLook`: What happens in an update behind its look for an input.

## Theorems

* `FishRetailer.Owes.stretch`: A stretch keeps the history.
* `FishRetailer.tuna_is_due`, `FishRetailer.garnish_is_timely`: When something is served.
* `FishRetailer.garnish_follows`: When the garnish comes with the tuna.
* `FishRetailer.line_is_refused`: An input at the wrong time.
* `FishRetailer.service_is_lawful`: The service along every run.
* `FishRetailer.garnish_goes_by_looks`: What this law does not promise.
-/

namespace Testbench

namespace FishRetailer

open Computability Location Procedure Rounding

variable {ε : Type} [Environment ε]

/-! ### Time since a coin -/

theorem preparation_lt {k : Nat} : preparation < Float.ofNat k ↔ 1 < k := by
  have hbound : preparation = Float.ofNat 1 := by decide +kernel
  rw [hbound]
  exact lt_ofNat_iff (by decide +kernel)

/-- A moment of a stretch. -/
def During (t : Stretch ε FishRetailer) (m : Bench ε FishRetailer) : Prop :=
  t.bench.Precedes m ∧ m.Precedes (t.outcome system).2

/-- The clock reads `v` in `t` for the time since a moment of `c`. -/
def Elapsed (c t : Stretch ε FishRetailer) (v : Float) : Prop :=
  ∃ m m', During c m ∧ During t m' ∧ m.Precedes m' ∧ v = m'.reading ⟨m.now⟩

/-- The clock was reset to `x` in the update `c`, which is over. -/
structure Started (x : Anchor) (c : Stretch ε FishRetailer) (b : Bench ε FishRetailer) : Prop where
  stage : c.stage = .update
  reset : ∃ m, During c m ∧ x = ⟨m.now⟩
  ended : (c.outcome system).2.Precedes b

/-- In simulated time the clock has ticked twice at most, and not so often at the end of a
    step. -/
def Ticks (x : Anchor) (stage : Stage) (b : Bench ε FishRetailer) : Prop :=
  b.scale = none → ∃ k : Nat, b.now.nanos = x.moment.nanos + k * 1000000 ∧ k ≤ 2 ∧
    (stage = .settle → k ≤ 1)

theorem during_of_told {t : Stretch ε FishRetailer} (hstage : t.stage = .update) {e : Answered}
    (he : e ∈ system.dialogueOn t.bench) : ∃ m, During t m ∧ e.ToldOn m := by
  rcases t with ⟨stage, b⟩
  rcases hstage with rfl
  rcases system.told_dialogueOn b he with ⟨m, -, hfrom, hto, htold⟩
  exact ⟨m, ⟨hfrom, hto⟩, htold⟩

/-- An update takes no virtual time. -/
theorem During.now_eq {t : Stretch ε FishRetailer} {m : Bench ε FishRetailer} (h : During t m)
    (hstage : t.stage = .update) (hscale : t.bench.scale = none) : m.now = t.bench.now := by
  rcases t with ⟨stage, b⟩
  rcases hstage with rfl
  rcases Bench.scale_eq_none.mp hscale with ⟨s, hpolicy⟩
  have hafter : (system.updateOn b).2.now = b.now := by
    rw [Bench.now_simulated hpolicy,
      Bench.now_simulated ((Bench.policy_updateOn system b).trans hpolicy)]
  have hfrom := h.1.le
  have hto := h.2.le
  change m.now ≤ (system.updateOn b).2.now at hto
  rw [hafter] at hto
  exact Timestamp.le_antisymm hto hfrom

namespace Started

variable {x : Anchor} {c t : Stretch ε FishRetailer} {b next : Bench ε FishRetailer}

theorem mono (h : Started x c b) (hlater : b.Precedes next) : Started x c next :=
  ⟨h.stage, h.reset, h.ended.trans hlater⟩

theorem elapsed (h : Started x c t.bench) (hstage : t.stage = .update) {v : Float}
    (hvalue : ⟨.value x, v⟩ ∈ system.dialogueOn t.bench) : Elapsed c t v := by
  rcases h.reset with ⟨m, hm, rfl⟩
  rcases during_of_told hstage hvalue with ⟨m', hm', htold⟩
  exact ⟨m, m', hm, hm', (hm.2.trans h.ended).trans hm'.1, htold⟩

/-- In simulated time the clock tells when the update was. -/
theorem moment_eq (h : Started x c b) (hscale : b.scale = none) : x.moment = c.bench.now := by
  rcases h.reset with ⟨m, hm, rfl⟩
  refine hm.now_eq h.stage ?_
  rw [← hm.1.scale, ← hm.2.scale, ← h.ended.scale]
  exact hscale

end Started

namespace Ticks

variable {x : Anchor} {t : Stretch ε FishRetailer}

/-- When the clock is reset it reads nothing. -/
theorem atFirst (h : Started x t (t.outcome system).2) (hgoes : (t.outcome system).1 = none) :
    Ticks x .update (t.outcome system).2 := by
  intro hscale
  have hprecedes := t.precedes hgoes
  have hend : During t (t.outcome system).2 := ⟨hprecedes, .refl _⟩
  refine ⟨0, ?_, Nat.zero_le 2, nofun⟩
  rw [h.moment_eq hscale, hend.now_eq h.stage (hprecedes.scale.symm.trans hscale)]
  simp

/-- A millisecond passes only after a step, and at the end of a step the tuna is not due. -/
theorem stretch (h : Ticks x t.stage t.bench) (hgoes : (t.outcome system).1 = none)
    (hrests : t.nextStage system = .settle →
      ∃ v, ⟨.value x, v⟩ ∈ system.dialogueOn t.bench ∧ ¬ preparation < v) :
    Ticks x (t.nextStage system) (t.outcome system).2 := by
  intro hscale
  have hfirst : t.bench.scale = none := (t.precedes hgoes).scale.symm.trans hscale
  rcases h hfirst with ⟨k, hk, hbound, hstep⟩
  rcases Bench.scale_eq_none.mp hfirst with ⟨s, hpolicy⟩
  rw [Bench.now_simulated hpolicy] at hk
  rcases t.outcome_simulated hpolicy hgoes with ⟨s', hs', hnow⟩
  rw [Bench.now_simulated hs']
  rcases hnow with hsame | ⟨hstage, hlater⟩
  · refine ⟨k, by rw [hsame]; exact hk, hbound, fun hsettle => ?_⟩
    rcases hrests hsettle with ⟨v, hvalue, hdue⟩
    rw [show v = Float.ofNat (x.elapsed s.now).millis from system.told_simulated hpolicy hvalue,
      Anchor.millis_elapsed hk, preparation_lt] at hdue
    exact Nat.le_of_not_lt hdue
  · refine ⟨k + 1, by omega, Nat.succ_le_succ (hstep hstage), fun hsettle => ?_⟩
    rw [Stretch.nextStage_of_ne (by rw [hstage]; exact nofun)] at hsettle
    exact absurd hsettle nofun

end Ticks

/-! ### What is owed -/

/-- What is owed before a stage, with the history that it is owed for. -/
inductive Owes (past : List (Stretch ε FishRetailer)) (stage : Stage) (b : Bench ε FishRetailer) :
    Prop
  | nothing (howed : b.system.location = waiting ∧ b.system.free = false)
      (hword : past.flatMap deals ∈ purchase∗)
  | tuna {earlier : List (Stretch ε FishRetailer)} {c : Stretch ε FishRetailer}
      (howed : b.system.location = coinGranted ∧ b.system.free = true)
      (hword : earlier.flatMap deals ∈ purchase∗) (hcoin : LastDeal past earlier c coin)
      (hstarted : Started b.system.x c b) (hticks : Ticks b.system.x stage b)
  | garnish {earlier between : List (Stretch ε FishRetailer)} {c t : Stretch ε FishRetailer}
      {v : Float} (howed : b.system.location = waiting ∧ b.system.free = true)
      (hword : earlier.flatMap deals ∈ purchase∗) (hcoin : LastDeal between earlier c coin)
      (htuna : LastDeal past between t tuna) (hstarted : Started b.system.x c t.bench)
      (hstage : t.stage = .update) (hvalue : ⟨.value b.system.x, v⟩ ∈ system.dialogueOn t.bench)
      (hread : readings t = [v]) (hover : preparation < v)
      (hdone : (t.outcome system).2.Precedes b)

namespace Owes

variable {past : List (Stretch ε FishRetailer)} {stage : Stage} {b next : Bench ε FishRetailer}
  {t : Stretch ε FishRetailer}

theorem of_like (h : Owes past stage b) (hlike : b.IsLike next) : Owes past stage next := by
  have hprecedes := Bench.Precedes.of_like hlike
  have hsystem : next.system = b.system := by
    rcases hlike with ⟨phase, journal, rfl⟩
    rfl
  cases h with
  | nothing howed hword => exact .nothing (hsystem ▸ howed) hword
  | tuna howed hword hcoin hstarted hticks =>
    refine .tuna (hsystem ▸ howed) hword hcoin (hsystem ▸ hstarted.mono hprecedes) ?_
    rcases hlike with ⟨phase, journal, rfl⟩
    exact hticks
  | garnish howed hword hcoin htuna hstarted hstage hvalue hread hover hdone =>
    exact .garnish (hsystem ▸ howed) hword hcoin htuna (hsystem ▸ hstarted) hstage
      (hsystem ▸ hvalue) hread hover (hdone.trans hprecedes)

/-- The deals so far are the beginning of a word. -/
theorem isPrefix (h : Owes past stage b) : ∃ word ∈ purchase∗, past.flatMap deals <+: word := by
  cases h with
  | nothing _ hword => exact ⟨_, hword, List.prefix_refl _⟩
  | tuna _ hword hcoin =>
    refine ⟨_, append_mem_purchases hword mem_purchase.1, ?_⟩
    rw [hcoin.deals_eq]
    exact List.prefix_append_right_inj _ |>.mpr (by decide)
  | garnish _ hword hcoin htuna =>
    refine ⟨_, append_mem_purchases hword mem_purchase.1, ?_⟩
    rw [htuna.deals_eq, hcoin.deals_eq, List.append_assoc]
    exact List.prefix_refl _

/-- A stretch without a deal. -/
theorem quiet (h : Owes past t.stage t.bench) (hgoes : (t.outcome system).1 = none)
    (hsame : (t.outcome system).2.system = t.bench.system) (hdeals : deals t = [])
    (hrests : t.bench.system.location = coinGranted → t.nextStage system = .settle →
      ∃ v, ⟨.value t.bench.system.x, v⟩ ∈ system.dialogueOn t.bench ∧ ¬ preparation < v) :
    Owes (past ++ [t]) (t.nextStage system) (t.outcome system).2 := by
  have hprecedes := t.precedes hgoes
  have hpast : (past ++ [t]).flatMap deals = past.flatMap deals := by
    rw [List.flatMap_append, List.flatMap_singleton, hdeals, List.append_nil]
  cases h with
  | nothing howed hword => exact .nothing (hsame ▸ howed) (hpast ▸ hword)
  | tuna howed hword hcoin hstarted hticks =>
    exact .tuna (hsame ▸ howed) hword (hcoin.quiet hdeals) (hsame ▸ hstarted.mono hprecedes)
      (hsame ▸ hticks.stretch hgoes (hrests howed.1))
  | garnish howed hword hcoin htuna hstarted hstage hvalue hread hover hdone =>
    exact .garnish (hsame ▸ howed) hword hcoin (htuna.quiet hdeals) (hsame ▸ hstarted) hstage
      (hsame ▸ hvalue) hread hover (hdone.trans hprecedes)

/-- All deals so far are whole purchases if no tuna is owed. -/
theorem mem_purchases (h : Owes past stage b) (hlocation : b.system.location = waiting) :
    past.flatMap deals ∈ purchase∗ := by
  cases h with
  | nothing _ hword => exact hword
  | tuna howed => exact absurd (hlocation.symm.trans howed.1) nofun
  | garnish _ hword hcoin htuna =>
    rw [htuna.deals_eq, hcoin.deals_eq, List.append_assoc]
    exact append_mem_purchases hword mem_purchase.1

theorem stretch (h : Owes past t.stage t.bench) (hgoes : (t.outcome system).1 = none) :
    Owes (past ++ [t]) (t.nextStage system) (t.outcome system).2 := by
  cases trades t with
  | stops hhalt => exact absurd hgoes hhalt
  | between hstage hsame hdeals =>
    refine h.quiet hgoes hsame hdeals fun _ hsettle => ?_
    rw [Stretch.nextStage_of_ne hstage] at hsettle
    exact absurd hsettle nofun
  | rests hstage hsame hdue hdeals =>
    refine h.quiet hgoes hsame hdeals fun hlocation _ => ?_
    have howed : t.bench.system.owed? = some "tuna" := by rw [owed?, hlocation]
    rcases hdue "tuna" howed with ⟨v, hvalue, hnot⟩
    rw [Due, hlocation] at hnot
    exact ⟨v, hvalue, hnot⟩
  | paid x hstage hlocation hnext hreset _ hmore hdeals =>
    rcases during_of_told hstage hreset with ⟨m, hm, htold⟩
    have hstarted : Started x t (t.outcome system).2 := ⟨hstage, ⟨m, hm, htold⟩, .refl _⟩
    rw [hmore]
    exact .tuna (by rw [hnext]; exact ⟨rfl, rfl⟩) (h.mem_purchases hlocation) (.of_deal hdeals)
      (by rw [hnext]; exact hstarted) (by rw [hnext]; exact .atFirst hstarted hgoes)
  | serves text v hgives hdeals =>
    have howed := hgives.owed
    have hdue := hgives.due
    have hnext := hgives.next
    rw [hgives.more]
    cases h with
    | nothing hnone =>
      rw [owed?, hnone.1, hnone.2] at howed
      exact absurd howed nofun
    -- The tuna is for the last coin, so the garnish that is owed now is for that one too.
    | tuna hlocation hword hcoin hstarted hticks =>
      rw [owed?, hlocation.1] at howed
      rcases Option.some.inj howed with rfl
      rw [Due, hlocation.1] at hdue
      rw [served, hlocation.1] at hnext
      refine .garnish ?_ hword hcoin (.of_deal hdeals) ?_ hgives.stage ?_ hgives.readings_eq hdue
        (.refl _)
      · rw [hnext]
        exact ⟨rfl, hlocation.2⟩
      · rw [hnext]
        exact hstarted
      · rw [hnext]
        exact hgives.value
    -- With the garnish the purchase is complete.
    | garnish hlocation hword hcoin htuna =>
      rw [owed?, hlocation.1, hlocation.2] at howed
      rcases Option.some.inj howed with rfl
      rw [served, hlocation.1] at hnext
      refine .nothing (by rw [hnext]; exact ⟨rfl, rfl⟩) ?_
      rw [List.flatMap_append, List.flatMap_singleton, hdeals, htuna.deals_eq, hcoin.deals_eq,
        List.append_assoc, List.append_assoc]
      exact append_mem_purchases hword mem_purchase.2

end Owes

theorem owes_stretches {limit steps : Nat} {b : Bench ε FishRetailer} {x : Anchor}
    (hinitial : b.system = system.initial x) {before after : List (Stretch ε FishRetailer)}
    {t : Stretch ε FishRetailer} (h : Bench.stages system limit steps b = before ++ t :: after) :
    Owes before t.stage t.bench := by
  refine Bench.stages_invariant (P := Owes) Owes.of_like Owes.stretch (.nothing ?_ ?_) h
  · rw [hinitial]
    exact ⟨rfl, rfl⟩
  · exact Language.nil_mem_kstar _

/-! ### Tunas and garnishes -/

/-- The course of an update from its look for an input on. -/
def sinceLook (t : Stretch ε FishRetailer) : Course ε FishRetailer :=
  (t.course system).drop (t.bench.turnCourse .access).length

section

variable {past : List (Stretch ε FishRetailer)} {t u : Stretch ε FishRetailer} {v : Float}

theorem tuna_is_due (howes : Owes past t.stage t.bench) (htuna : deals t = [tuna]) :
    ∃ earlier c v, LastDeal past earlier c coin ∧ Elapsed c t v ∧ readings t = [v] ∧
      preparation < v ∧
      (t.bench.scale = none → t.bench.now.nanos = c.bench.now.nanos + 2000000) := by
  rcases gives_of_deals htuna with ⟨v, hgives⟩
  have hlocation := hgives.location_eq
  rw [if_pos rfl] at hlocation
  have hover := hgives.due
  rw [Due, hlocation] at hover
  cases howes with
  | nothing howed | garnish howed => exact absurd (hlocation.symm.trans howed.1) nofun
  | @tuna earlier c howed hword hcoin hstarted hticks =>
    refine ⟨earlier, c, v, hcoin, hstarted.elapsed hgives.stage hgives.value, hgives.readings_eq,
      hover, fun hscale => ?_⟩
    -- There are two ticks at most, and more than one since the tuna is due.
    rcases hticks hscale with ⟨k, hk, hbound, -⟩
    rcases Bench.scale_eq_none.mp hscale with ⟨s, hpolicy⟩
    rw [Bench.now_simulated hpolicy] at hk ⊢
    rw [show v = Float.ofNat (t.bench.system.x.elapsed s.now).millis from
      system.told_simulated hpolicy hgives.value, Anchor.millis_elapsed hk, preparation_lt] at hover
    rw [hk, hstarted.moment_eq hscale, Nat.le_antisymm hbound hover]
    rfl

/-- A reading does not go back, once the clock has passed the time of preparation. -/
theorem reading_le_of_told {x : Anchor} {v' : Float} (ht : t.stage = .update)
    (hu : u.stage = .update) (hlater : (t.outcome system).2.Precedes u.bench)
    (hfirst : ⟨.value x, v⟩ ∈ system.dialogueOn t.bench)
    (hsecond : ⟨.value x, v'⟩ ∈ system.dialogueOn u.bench) (hover : preparation < v) : v ≤ v' := by
  rcases during_of_told ht hfirst with ⟨m, hm, rfl⟩
  rcases during_of_told hu hsecond with ⟨m', hm', rfl⟩
  refine ((hm.2.trans hlater).trans hm'.1).reading_le (lt_of_le_of_lt ?_ hover)
  have hbound : preparation = Float.ofNat 1 := by decide +kernel
  rw [hbound]
  exact ofNat_mono (Nat.zero_le 1)

theorem garnish_is_timely (howes : Owes past u.stage u.bench) (hgarnish : deals u = [garnish]) :
    ∃ earlier between c t v v', LastDeal past between t tuna ∧ LastDeal between earlier c coin ∧
      Elapsed c t v ∧ readings t = [v] ∧ v < garnishLimit ∧
      Elapsed c u v' ∧ readings u = [v'] ∧ v' < garnishLimit := by
  rcases gives_of_deals hgarnish with ⟨v', hgives⟩
  have hlocation := hgives.location_eq
  rw [if_neg (by decide)] at hlocation
  have hdue := hgives.due
  rw [Due, hlocation] at hdue
  cases howes with
  | tuna howed => exact absurd (hlocation.symm.trans howed.1) nofun
  | nothing howed =>
    have hnone := hgives.owed
    rw [owed?, howed.1, howed.2] at hnone
    exact absurd hnone nofun
  | @garnish earlier between c t v howed hword hcoin htuna hstarted hstage hvalue hread hover
      hdone =>
    have hlate := reading_le_of_told hstage hgives.stage hdone hvalue hgives.value hover
    rcases during_of_told hstage hvalue with ⟨m, hm, -⟩
    exact ⟨earlier, between, c, t, v, v', htuna, hcoin, hstarted.elapsed hstage hvalue, hread,
      lt_of_le_of_lt hlate hdue,
      (hstarted.mono (hm.1.trans (hm.2.trans hdone))).elapsed hgives.stage hgives.value,
      hgives.readings_eq, hdue⟩

theorem course_eq {text : String} (hgives : Gives t text v) :
    t.course system = t.bench.turnCourse .access ++ sinceLook t := by
  rcases t with ⟨stage, b⟩
  rcases hgives.stage with rfl
  rcases hgives.dialogue with ⟨note, hdialogue⟩
  rcases course_of_dialogue hdialogue with ⟨later, hcourse⟩
  change Bench.updateCourse system b = b.turnCourse .access ++ later at hcourse
  change Bench.updateCourse system b
    = b.turnCourse .access ++ (Bench.updateCourse system b).drop (b.turnCourse .access).length
  rw [hcourse, List.drop_left]

/-- No line is held when the tuna is served, so none is ready when the next update looks. -/
theorem lines_eq_nil (hgives : Gives t "tuna" v) (hlike : (t.outcome system).2.IsLike u.bench)
    (hnone : arrivedIn (sinceLook t ++ u.bench.turnCourse .access) = []) :
    (u.bench.turn .access).inbox.lines = [] := by
  rw [arrivedIn_append] at hnone
  rcases List.append_eq_nil_iff.mp hnone with ⟨hfirst, hsecond⟩
  have hcourse := course_eq hgives
  rcases t with ⟨stage, b⟩
  rcases hgives.stage with rfl
  rcases hgives.dialogue with ⟨note, hdialogue⟩
  change system.dialogueOn b = _ at hdialogue
  have hplayed := system.played_dialogueOn b
  have hheard : heard (system.dialogueOn b) = [] := by
    rw [hdialogue]
    rfl
  rw [hdialogue] at hplayed
  -- The retailer has looked for a line and found none, so none had arrived by then.
  have hempty : b.inbox.lines ++ arrivedIn (b.turnCourse .access) = [] := by
    rw [← b.lines_turn]
    exact hplayed.unready_iff.mp rfl
  have harrived : arrivedIn (Bench.updateCourse system b) = arrivedIn (b.turnCourse .access) := by
    change Bench.updateCourse system b = _ at hcourse
    rw [hcourse, arrivedIn_append, hfirst, List.append_nil]
  have hlast := system.lines_updateOn b
  rw [hheard, harrived, hempty, List.nil_append] at hlast
  rw [u.bench.lines_turn, hlike.inbox_eq, hsecond, List.append_nil]
  exact hlast

/-- With no input to come in between, the garnish comes with the tuna or not at all. -/
theorem garnish_follows
    (hsink : ∀ text (environment : ε), (Environment.accept text environment).1 = .ok ())
    (hgives : Gives t "tuna" v) (hfree : t.bench.system.free = true)
    (hlike : (t.outcome system).2.IsLike u.bench) (hu : u.stage = .update)
    (hnone : arrivedIn (sinceLook t ++ u.bench.turnCourse .access) = [])
    (hsame : ∀ v' ∈ readings u, v' = v) : deals u = [garnish] ↔ v < garnishLimit := by
  have hempty := lines_eq_nil hgives hlike hnone
  have hsystem : u.bench.system = { t.bench.system with location := waiting } := by
    have hnext := hgives.next
    rw [served, hgives.location_eq, if_pos rfl] at hnext
    rcases hlike with ⟨phase, journal, heq⟩
    rw [heq]
    exact hnext
  rcases u with ⟨stage, b⟩
  rcases hu with rfl
  change b.system = _ at hsystem
  change (b.turn .access).inbox.lines = [] at hempty
  have hplayed := system.played_dialogueOn b
  rcases system.ensures_updateOn (ensures_update_serves b.system) with ⟨result, hserves, hresult⟩
  have hdeals := deals_update hresult
  have howes : b.system.owed? = some "garnish" := by
    rw [hsystem, owed?, hfree]
    rfl
  have hready : ∀ {ready : Bool} {rest : List Answered},
      Played b (⟨.inputReady, ready⟩ :: rest) → ready = false := fun h =>
    h.unready_iff.mpr hempty
  have hdue : ∀ v, b.system.Due v ↔ v < garnishLimit := fun v => by
    rw [hsystem, Due]
  unfold readings at hsame
  change ∀ v' ∈ (system.dialogueOn b).filterMap _, _ at hsame
  generalize system.dialogueOn b = d at hserves hdeals hplayed hsame
  generalize (system.updateOn b).2.system = next at hserves
  cases hserves with
  | unread cause | refused line _ | paid x note _ => exact absurd (hready hplayed) nofun
  | idle hidle => exact absurd (hidle.symm.trans howes) nofun
  | waits text v' howed hnot =>
    rcases hsame v' (.head _)
    rw [hdue] at hnot
    rw [hdeals]
    exact iff_of_false nofun hnot
  | serves text v' note howed hgiven =>
    rcases hsame v' (.head _)
    rcases Option.some.inj (howed.symm.trans howes)
    rw [hdeals]
    exact iff_of_true rfl ((hdue v).mp hgiven)
  | broke text v' cause =>
    exact absurd (hplayed.taken hsink (.tail _ (.tail _ (.head _)))) nofun

/-- While the tuna is prepared, a line that is ready is refused. -/
theorem line_is_refused {b : Bench ε FishRetailer} (hlocation : b.system.location = coinGranted)
    {line : Line} {lines : List Line} (hlines : (b.turn .access).inbox.lines = line :: lines) :
    (system.updateOn b).1 = .error (.error (.unexpected coinGranted line)) ∧
      deals ⟨.update, b⟩ = [] := by
  have hplayed := system.played_dialogueOn b
  rcases system.ensures_updateOn (ensures_update_serves b.system) with ⟨result, hserves, hresult⟩
  have hdeals := deals_update hresult
  have hready : ∀ {ready : Bool} {rest : List Answered},
      Played b (⟨.inputReady, ready⟩ :: rest) → ready = true := fun h => by
    rw [← Bool.not_eq_false, h.unready_iff, hlines]
    exact List.cons_ne_nil _ _
  generalize system.dialogueOn b = d at hserves hdeals hplayed
  generalize (system.updateOn b).2.system = next at hserves
  cases hserves with
  | unread cause => exact absurd (hplayed.read_eq hlines) nofun
  | refused other _ =>
    rcases Except.ok.inj (hplayed.read_eq hlines)
    rw [hlocation] at hresult
    exact ⟨hresult, hdeals⟩
  | paid _ _ hwaiting => exact absurd (hlocation.symm.trans hwaiting) nofun
  | idle _ | waits _ _ _ _ | serves _ _ _ _ _ | broke _ _ _ _ _ =>
    exact absurd (hready hplayed) nofun

end

/-! ### Along a run -/

variable {limit steps : Nat} {b : Bench ε FishRetailer} {x : Anchor}
  {before after : List (Stretch ε FishRetailer)} {t u : Stretch ε FishRetailer} {v : Float}

/-- The deals of a run are the beginning of a word, up to its last stretch. -/
theorem deals_form_purchases (hinitial : b.system = system.initial x)
    (h : Bench.stages system limit steps b = before ++ t :: after) :
    ∃ word ∈ purchase∗, (before ++ [t]).flatMap deals <+: word := by
  have howes := owes_stretches hinitial h
  rcases hgoes : (t.outcome system).1 with _ | halt
  · exact (howes.stretch hgoes).isPrefix
  · have hnone : deals t = [] := by
      cases trades t with
      | stops _ hdeals | between _ _ hdeals | rests _ _ _ hdeals => exact hdeals
      | paid _ _ _ _ _ hdone => exact absurd (hgoes.symm.trans hdone) nofun
      | serves text v hgives => exact absurd (hgoes.symm.trans hgives.goes) nofun
    rw [List.flatMap_append, List.flatMap_singleton, hnone, List.append_nil]
    exact howes.isPrefix

/-- A garnish that is missed is never made up for. -/
theorem no_garnish_later (hinitial : b.system = system.initial x)
    (h : Bench.stages system limit steps b = before ++ t :: after) (htuna : deals t = [tuna])
    (hread : readings t = [v]) (hlate : ¬ v < garnishLimit)
    {between rest : List (Stretch ε FishRetailer)} (hafter : after = between ++ u :: rest)
    (hquiet : between.flatMap deals = []) : deals u ≠ [garnish] := by
  intro hgarnish
  have hlast : LastDeal (before ++ t :: between) before t tuna := ⟨between, rfl, htuna, hquiet⟩
  have hlater : Bench.stages system limit steps b = (before ++ t :: between) ++ u :: rest := by
    rw [h, hafter, List.append_assoc]
    rfl
  rcases garnish_is_timely (owes_stretches hinitial hlater) hgarnish with
    ⟨_, _, _, t', v', _, htuna', -, -, hread', hdue, -⟩
  rcases htuna'.unique hlast with ⟨-, rfl⟩
  rw [hread] at hread'
  rw [(List.cons.inj hread').1] at hlate
  exact hlate hdue

/-- After a tuna comes another update, unless the limit on the updates of a step is reached. -/
theorem update_follows (h : Bench.stages system limit steps b = before ++ t :: after)
    (hgives : Gives t "tuna" v) :
    (after = [] → (Bench.run system.updateOn limit steps b).1 = .error .exhausted) ∧
      ∀ u rest, after = u :: rest → u.stage = .update := by
  refine ⟨fun hnone => ?_, fun u rest hmore => ?_⟩
  · rcases Bench.follows_run system limit steps b with ⟨halt, hfollows, hresult⟩
    rw [h, hnone] at hfollows
    by_cases hspent : halt = .exhausted
    · rw [hresult, hspent]
      rfl
    · rcases hfollows.exists_last hspent with ⟨_, t', hlast, hhalt, -⟩
      rcases List.append_inj' hlast rfl with ⟨-, hsame⟩
      rw [← (List.cons.inj hsame).1] at hhalt
      exact absurd (hhalt.symm.trans hgives.goes) nofun
  · rw [hmore] at h
    exact (Bench.stage_of_stages h).trans hgives.more

theorem free_of_tuna (howes : Owes before t.stage t.bench) (hgives : Gives t "tuna" v) :
    t.bench.system.free = true := by
  have hlocation := hgives.location_eq
  rw [if_pos rfl] at hlocation
  cases howes with
  | nothing howed | garnish howed => exact absurd (hlocation.symm.trans howed.1) nofun
  | tuna howed => exact howed.2

theorem eq_take_append_two {α : Type} (l : List α) (n : Nat) (h : n + 1 < l.length) :
    l = l.take n ++ l[n] :: l[n + 1] :: l.drop (n + 2) := by
  rw [List.getElem_cons_drop, List.getElem_cons_drop, List.take_append_drop]

/-- The service along every run, under any policy and however time is divided into windows.
    At every point the deals are the beginning of a sequence of purchases. A tuna is served
    for the last coin, when the clock reads that more than one time unit has passed since then;
    in simulated time this is after two milliseconds. The garnish comes in the next update, which
    belongs to the same step, just if the clock then read less than three time units, provided
    that no line arrives from one update's look for an input to the other's and the clock still
    reads the same. It does not come at all if the tuna was late, and never when the clock reads
    three time units or more. A line that is ready while a tuna is prepared ends the run, and
    that tuna is not served. -/
theorem service_is_lawful (limit steps : Nat) {b : Bench ε FishRetailer} {x : Anchor}
    (hinitial : b.system = system.initial x) {before after : List (Stretch ε FishRetailer)}
    {t : Stretch ε FishRetailer} (h : Bench.stages system limit steps b = before ++ t :: after) :
    (∃ word ∈ purchase∗, (before ++ [t]).flatMap deals <+: word) ∧
    (tuna ∈ deals t → ∃ earlier c v, LastDeal before earlier c coin ∧ Elapsed c t v ∧
      readings t = [v] ∧ 1.0 < v ∧
      (∀ s, b.policy = .simulated s → t.bench.now.nanos = c.bench.now.nanos + 2000000) ∧
      (after = [] → (Bench.run system.updateOn limit steps b).1 = .error .exhausted) ∧
      (∀ u rest, after = u :: rest → u.stage = .update ∧
        ((∀ text (environment : ε), (Environment.accept text environment).1 = .ok ()) →
          arrivedIn (sinceLook t ++ u.bench.turnCourse .access) = [] →
          (∀ v' ∈ readings u, v' = v) → (garnish ∈ deals u ↔ v < 3.0))) ∧
      (¬ v < 3.0 → ∀ between u rest, after = between ++ u :: rest →
        between.flatMap deals = [] → garnish ∉ deals u)) ∧
    (garnish ∈ deals t → ∃ earlier between c u v v', LastDeal before between u tuna ∧
      LastDeal between earlier c coin ∧ Elapsed c u v ∧ readings u = [v] ∧ v < 3.0 ∧
      Elapsed c t v' ∧ readings t = [v'] ∧ v' < 3.0) ∧
    (t.stage = .update → t.bench.system.location = coinGranted →
      ∀ line lines, (t.bench.turn .access).inbox.lines = line :: lines →
        after = [] ∧ deals t = [] ∧ (∃ earlier c, LastDeal before earlier c coin) ∧
        (Bench.run system.updateOn limit steps b).1
          = .error (.error (.unexpected coinGranted line))) := by
  have howes := owes_stretches hinitial h
  refine ⟨deals_form_purchases hinitial h, fun htuna => ?_, fun hgarnish => ?_,
    fun hstage hlocation line lines hlines => ?_⟩
  · rcases gives_of_deals (deals_eq_of_mem htuna) with ⟨v, hgives⟩
    rcases tuna_is_due howes (deals_eq_of_mem htuna) with
      ⟨earlier, c, v', hcoin, helapsed, hread, hover, hexact⟩
    rcases (List.cons.inj (hgives.readings_eq.symm.trans hread)).1
    rcases update_follows h hgives with ⟨hspent, hmore⟩
    refine ⟨earlier, c, v, hcoin, helapsed, hread, hover, fun s hpolicy => hexact ?_, hspent,
      fun u rest hafter => ⟨hmore u rest hafter, fun hsink hnone hsame => ?_⟩,
      fun hlate between u rest hafter hquiet hgarnish => ?_⟩
    · have hmem : t ∈ Bench.stages system limit steps b := by
        rw [h]
        exact List.mem_append_right _ List.mem_cons_self
      rw [(Bench.precedes_stages hmem).scale]
      exact Bench.scale_eq_none.mpr ⟨s, hpolicy⟩
    · rw [hafter] at h
      rw [← show v < garnishLimit ↔ v < 3.0 from Iff.rfl, ← garnish_follows hsink hgives
        (free_of_tuna howes hgives) (Bench.next_of_stages h).2 (hmore u rest hafter) hnone hsame]
      refine ⟨deals_eq_of_mem, fun hdeals => ?_⟩
      rw [hdeals]
      exact List.mem_cons_self
    · exact no_garnish_later hinitial h (deals_eq_of_mem htuna) hread hlate hafter hquiet
        (deals_eq_of_mem hgarnish)
  · exact garnish_is_timely howes (deals_eq_of_mem hgarnish)
  · rcases t with ⟨stage, m⟩
    rcases hstage with rfl
    rcases line_is_refused hlocation hlines with ⟨hfails, hnone⟩
    rcases Bench.follows_run system limit steps b with ⟨halt, hfollows, hresult⟩
    rw [h] at hfollows
    have hstops : ((Stretch.mk .update m).outcome system).1
        = some (.error (.unexpected coinGranted line)) := haltOf_eq_some.mpr hfails
    rcases hfollows.last_of_halt hstops with ⟨hlast, hhalt, -⟩
    rcases Option.some.inj hhalt with rfl
    refine ⟨hlast, hnone, ?_, hresult⟩
    cases howes with
    | nothing howed | garnish howed => exact absurd (hlocation.symm.trans howed.1) nofun
    | tuna _ _ hcoin => exact ⟨_, _, hcoin⟩

/-- A visitor with a coin, in two windows of time. -/
def visit : Bench (Scripted Recorder) FishRetailer :=
  { Bench.echoing with
    system := system.initial ⟨.epoch⟩
    environment := ⟨.empty, some [[⟨"coin"⟩, ⟨"Delay: 1"⟩], [⟨"Delay: 3"⟩]], reportMark, [], []⟩ }

/-- The tuna is served in the second window, and a garnish with it. -/
theorem service_is_lawful_visit :
    ∃ before t u after, Bench.stages system 9 30 visit.fed = before ++ t :: u :: after ∧
      tuna ∈ deals t ∧ garnish ∈ deals u ∧
      ∃ earlier c, LastDeal before earlier c coin ∧
        t.bench.now.nanos = c.bench.now.nanos + 2000000 := by
  have hlength : 9 < (Bench.stages system 9 30 visit.fed).length := by decide +kernel
  have hvisit : tuna ∈ deals (Bench.stages system 9 30 visit.fed)[8] ∧
      readings (Bench.stages system 9 30 visit.fed)[8] = [2.0] ∧
      readings (Bench.stages system 9 30 visit.fed)[9] = [2.0] ∧
      arrivedIn (sinceLook (Bench.stages system 9 30 visit.fed)[8] ++
        (Bench.stages system 9 30 visit.fed)[9].bench.turnCourse .access) = [] := by
    decide +kernel +revert
  rcases hvisit with ⟨htuna, hread, hsame, hnone⟩
  have hsplit := eq_take_append_two (Bench.stages system 9 30 visit.fed) 8 hlength
  rcases (service_is_lawful 9 30 (x := ⟨.epoch⟩) rfl hsplit).2.1 htuna with
    ⟨earlier, c, v, hcoin, -, hreads, -, hexact, -, hnext, -⟩
  rcases (List.cons.inj (hread.symm.trans hreads)).1
  have hgarnish := (hnext _ _ rfl).2 (fun _ _ => rfl) hnone fun v' hv' => by
    rw [hsame] at hv'
    exact List.mem_singleton.mp hv'
  exact ⟨_, _, _, _, hsplit, htuna, hgarnish.mpr (by decide +kernel), earlier, c, hcoin,
    hexact _ rfl⟩

/-- A visitor with a second coin, which arrives when the retailer has found no input and looks at
    its clock, right before it serves the tuna. -/
def hasty : Bench (Paced Recorder) FishRetailer :=
  { visit with
    environment := ⟨.empty, [.push ⟨"coin"⟩, .push ⟨"Delay: 5"⟩, .push ⟨"coin"⟩, .close], [],
      fun turn => if turn = 0 then 2 else if turn = 9 then 1 else 0, 0⟩ }

/-- A visitor who waits for 1.9 milliseconds where a time unit is half a millisecond. -/
def leisurely : Bench (Paced Recorder) FishRetailer :=
  { visit with
    policy := .realTime ⟨0.5⟩
    environment := ⟨.empty, [.push ⟨"coin"⟩, .elapse ⟨1900000⟩], [],
      fun turn => if turn = 0 ∨ turn = 5 then 1 else 0, 0⟩ }

/-- The garnish goes by what the retailer sees when it looks. A coin that it has not seen before
    it serves the tuna is accepted next, although nothing has arrived since the tuna, and the
    garnish is forfeited at a reading of two time units. And as the clock is read in whole
    milliseconds, a garnish may come when more than three time units have passed. -/
theorem garnish_goes_by_looks :
    (∃ before t u after, Bench.stages system 9 6 hasty = before ++ t :: u :: after ∧
      happenings (t.course system) = [.arrived ⟨"coin"⟩, .wrote "tuna"] ∧ readings t = [2.0] ∧
      happenings (u.course system) = [.consumed ⟨"coin"⟩] ∧
      (Bench.stages system 9 6 hasty).flatMap deals = [coin, tuna, coin] ∧
      (Bench.run system.updateOn 9 6 hasty).1 = .ok ()) ∧
    (Bench.stages system 9 6 leisurely).flatMap deals = [coin, tuna, garnish] ∧
    ∃ c ∈ Bench.stages system 9 6 leisurely, ∃ t ∈ Bench.stages system 9 6 leisurely,
      coin ∈ deals c ∧ garnish ∈ deals t ∧
        c.bench.wall.nanos + 3 * 500000 < t.bench.wall.nanos := by
  have hlength : 7 < (Bench.stages system 9 6 hasty).length := by decide +kernel
  refine ⟨?_, by decide +kernel, by decide +kernel⟩
  refine ⟨_, _, _, _, eq_take_append_two (Bench.stages system 9 6 hasty) 6 hlength, ?_⟩
  decide +kernel +revert

end FishRetailer

end Testbench
