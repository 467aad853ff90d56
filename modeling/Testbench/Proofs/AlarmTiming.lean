import Testbench.Proofs.AlarmLanguage
import Testbench.Proofs.Clocks

/-!
# The Timing of the Car Alarm

In simulated time the car alarm is exact. Its outputs are due when the clock has passed a
bound, and no millisecond is ever left out, so each of them is given in the very step in which
the bound is first passed.

Four locations have a bound, and the automaton stays in one of them only as long as nothing
is due there. So at the end of a step the clock is within the bound, at the beginning of the
next one it is a millisecond further at most, and then what is due is done. Four other
locations are left at once, in the step in which they were entered, so they are never seen at
the end of a step, and the clock has not moved since it was reset on the way to them.

The alarm reads and resets its clock at the same time throughout a step. What an update does
is therefore told in whole milliseconds, and the floats by which bounds are compared are not
mentioned again after that.

## Main definitions

* `CarAlarm.DueAt`: Outputs are due at a reading.
* `CarAlarm.Paces`: What an update does by the clock.
* `CarAlarm.Within`: How far the clock may run in a location.
* `CarAlarm.Timely`: The clock has not run further than that.

## Theorems

* `CarAlarm.Rests.not_dueAt`, `CarAlarm.Finds.leaves`: The two sides of a bound.
* `CarAlarm.ensures_update_paces`: An update goes by the clock.
* `CarAlarm.Timely.edge`: An edge keeps the clock within its bounds.
* `CarAlarm.Timely.wait`: So does a millisecond, if nothing is due.
* `CarAlarm.transitions_are_exact`: The timing of every run.
-/

namespace Testbench

namespace CarAlarm

open Location Rounding

/-! ### Bounds in whole milliseconds -/

theorem armingDelay_le {k : Nat} : Float.ofNat k ≥ armingDelay ↔ 20 ≤ k := by
  have hbound : armingDelay = Float.ofNat (19 + 1) := by decide +kernel
  rw [ge_iff_le, hbound]
  exact le_ofNat_iff (by decide +kernel)

theorem soundDuration_lt {k : Nat} : Float.ofNat k > soundDuration ↔ 30 < k := by
  have hbound : soundDuration = Float.ofNat 30 := by decide +kernel
  rw [gt_iff_lt, hbound]
  exact lt_ofNat_iff (by decide +kernel)

theorem flashDuration_lt {k : Nat} : Float.ofNat k > flashDuration ↔ 300 < k := by
  have hbound : flashDuration = Float.ofNat 300 := by decide +kernel
  rw [gt_iff_lt, hbound]
  exact lt_ofNat_iff (by decide +kernel)

theorem rearmingDelay_lt {k : Nat} : Float.ofNat k > rearmingDelay ↔ 400 < k := by
  have hbound : rearmingDelay = Float.ofNat 400 := by decide +kernel
  rw [gt_iff_lt, hbound]
  exact lt_ofNat_iff (by decide +kernel)

/-! ### What an update does by the clock -/

/-- Outputs are due when the clock reads the given number of milliseconds. -/
def DueAt (a : CarAlarm) (k : Nat) : Prop :=
  match a.location with
  | arming => 20 ≤ k
  | armed => a.alarmLocked = true ∧ 400 < k
  | sounding => 30 < k
  | flashing => 300 < k
  | disarming | triggered | stopping | rearming => True
  | openUnlocked | closedUnlocked | openLocked | silent => False

/-- The time and the readings told in a dialogue are those of a single moment. -/
def TellsTime (now : Timestamp) (d : List Answered) : Prop := ∀ e ∈ d, e.ToldAt now

/-- What an edge makes of the clock and of the mark that the alarm was armed again. -/
structure Edge.Leaves (e : Edge) (a : CarAlarm) (now : Timestamp) (next : CarAlarm) : Prop where
  x : next.x = if e.resets a.location then ⟨now⟩ else a.x
  alarmLocked : next.alarmLocked
    = if e.target = armed then decide (a.location = rearming) else a.alarmLocked
  /-- Outputs are given only when they are due. -/
  due : e.input = none → a.DueAt (a.x.elapsed now).millis

/-- What an update does by the clock. -/
def Paces (a : CarAlarm) (now : Timestamp) : Procedure.Post CarAlarm Progress :=
  fun d result next => TellsTime now d → match result with
    | .ok .quiescent => next = a ∧ ¬ a.DueAt (a.x.elapsed now).millis
    | .ok .transitioned =>
      ∃ e ∈ edges a.location, next.location = e.target ∧ e.Leaves a now next
    | .error _ => True

theorem TellsTime.value {now : Timestamp} {d : List Answered} (h : TellsTime now d) (clock : Anchor)
    (time : Float) (hmem : ⟨.value clock, time⟩ ∈ d) :
    time = Float.ofNat (clock.elapsed now).millis := h _ hmem

theorem TellsTime.reset {now : Timestamp} {d : List Answered} (h : TellsTime now d) {x : Anchor}
    (hmem : ⟨.resetTime, x⟩ ∈ d) : x = ⟨now⟩ := h _ hmem

/-- The bounds are those of the floats. -/
theorem over_iff {a : CarAlarm} {k : Nat} (h : a.location ∈ [arming, sounding, flashing]) :
    a.Over (Float.ofNat k) ↔ a.DueAt k := by
  rcases a with ⟨location, x, alarmLocked⟩
  cases location with
  | arming => exact armingDelay_le
  | sounding => exact soundDuration_lt
  | flashing => exact flashDuration_lt
  | _ => simp at h

theorem over_armed_iff {a : CarAlarm} {k : Nat} (h : a.location = armed) :
    a.Over (Float.ofNat k) ↔ 400 < k := by
  rw [Over, h]
  exact rearmingDelay_lt

theorem Asks.not_dueAt {a : CarAlarm} {now : Timestamp} {d : List Answered} (h : a.Asks d)
    (htells : TellsTime now d) (hmark : a.location = armed → a.alarmLocked = false) :
    ¬ a.DueAt (a.x.elapsed now).millis := by
  cases h with
  | nothing hlocation =>
    rcases a with ⟨location, x, alarmLocked⟩
    cases location with
    | armed => exact fun hdue => absurd (hdue.1.symm.trans (hmark rfl)) nofun
    | openUnlocked | closedUnlocked | openLocked | silent => exact id
    | _ => simp at hlocation
  | early time hlocation hearly =>
    rwa [htells.value a.x time (.head _), over_iff hlocation] at hearly

theorem Rests.not_dueAt {a : CarAlarm} {now : Timestamp} {d : List Answered} (h : a.Rests d)
    (htells : TellsTime now d) : ¬ a.DueAt (a.x.elapsed now).millis := by
  cases h with
  | unready hasks hmark =>
    exact hasks.not_dueAt (fun e he => htells e (List.mem_append_left _ he)) hmark
  | early time hlocation hmark hearly =>
    rw [htells.value a.x time (.tail _ (.head _)), over_armed_iff hlocation] at hearly
    rw [DueAt, hlocation]
    exact fun hdue => hearly hdue.2

/-- Only an armed alarm resets its clock before it gives outputs. -/
theorem resets_iff (location : Location) :
    ∀ e ∈ edges location, e.input = none → (e.resets location = true ↔ location = armed) := by
  cases location <;> decide

theorem Finds.leaves {a : CarAlarm} {now : Timestamp} {d : List Answered} {x : Anchor}
    (h : a.Finds d x) (htells : TellsTime now d) {e : Edge} (he : e ∈ edges a.location)
    (hinput : e.input = none) : e.Leaves a now (e.reached a x) := by
  have hresets := resets_iff a.location e he hinput
  cases h with
  | nothing hlocation =>
    have hdue : a.DueAt (a.x.elapsed now).millis := by
      rcases a with ⟨location, x, alarmLocked⟩
      cases location with
      | disarming | triggered | stopping | rearming => trivial
      | _ => simp at hlocation
    refine ⟨(if_neg ?_).symm, rfl, fun _ => hdue⟩
    rw [hresets]
    intro h
    simp [h] at hlocation
  | late time hlocation hover =>
    rw [htells.value a.x time (.head _), over_iff hlocation] at hover
    refine ⟨(if_neg ?_).symm, rfl, fun _ => hover⟩
    rw [hresets]
    intro h
    simp [h] at hlocation
  | overdue time x hlocation hmark hover =>
    rw [htells.value a.x time (.tail _ (.head _)), over_armed_iff hlocation] at hover
    refine ⟨?_, rfl, fun _ => ?_⟩
    · rw [if_pos (hresets.mpr hlocation)]
      exact htells.reset (.tail _ (.tail _ (.head _)))
    · rw [DueAt, hlocation]
      exact ⟨hmark, hover⟩

/-- An input is taken whatever the clock says. -/
theorem Edge.Winds.leaves {a : CarAlarm} {now : Timestamp} {d : List Answered} {x : Anchor}
    {e : Edge} (h : e.Winds a d x) (htells : TellsTime now d) (hinput : e.input ≠ none) :
    e.Leaves a now (e.reached a x) := by
  refine ⟨?_, rfl, fun hnone => absurd hnone hinput⟩
  cases h with
  | keeps hkeeps => rw [hkeeps]; rfl
  | resets x hresets =>
    rw [if_pos hresets]
    exact htells.reset (.head _)

/-- An update goes by the clock. -/
theorem ensures_update_paces (a : CarAlarm) (now : Timestamp) :
    update.Ensures a (a.Paces now) := by
  refine (ensures_update_goes a).mono fun d result next h htells => ?_
  have hpart : ∀ before part after : List Answered, d = before ++ part ++ after →
      TellsTime now part := fun _ _ _ hd e he => htells e (by rw [hd]; simp [he])
  cases h with
  | unread | refused | broke => trivial
  | rests hrests => exact ⟨rfl, hrests.not_dueAt htells⟩
  | takes hasks he hinput hclock =>
    exact ⟨_, he, rfl, hclock.leaves (hpart _ _ _ rfl) (by simp [hinput])⟩
  | @gives d x hfinds e he hinput =>
    exact ⟨e, he, rfl, hfinds.leaves (hpart [] d _ (List.append_assoc _ _ _)) he hinput⟩

/-! ### The clock within its bounds -/

/-- How far the clock may run in a location, in whole milliseconds. -/
def Within (alarmLocked : Bool) (k : Nat) : Location → Prop
  | arming => k ≤ 20
  | armed => alarmLocked = true → k ≤ 401
  | sounding => k ≤ 31
  | flashing => 30 < k ∧ k ≤ 301
  | disarming | triggered | stopping | rearming => k = 0
  | openUnlocked | closedUnlocked | openLocked | silent => True

/-- The locations in which nothing depends on the clock. -/
def untimed : List Location := [openUnlocked, closedUnlocked, openLocked, silent]

/-- The clock has not run further, unless nothing depends on it. -/
def Timely (a : CarAlarm) (now : Timestamp) : Prop :=
  a.location ∈ untimed ∨
  ∃ k : Nat, now.nanos = a.x.moment.nanos + k * 1000000 ∧ Within a.alarmLocked k a.location

theorem within_zero {alarmLocked : Bool} {location : Location} (h : location ≠ flashing) :
    Within alarmLocked 0 location := by
  cases location with
  | flashing => exact absurd rfl h
  | arming | sounding => exact Nat.zero_le _
  | armed => exact fun _ => Nat.zero_le 401
  | disarming | triggered | stopping | rearming => rfl
  | openUnlocked | closedUnlocked | openLocked | silent => trivial

theorem target_of_resets {location : Location} {e : Edge} (h : e.resets location = true) :
    e.target ≠ flashing := by
  intro htarget
  rw [Edge.resets, htarget] at h
  exact Bool.false_ne_true h

/-- The clock runs on along four edges only. -/
theorem edges_running (location : Location) : ∀ e ∈ edges location,
    e.target ∉ untimed → e.resets location = false →
      (location = arming ∧ e.target = armed) ∨
      (location = triggered ∧ e.target = sounding) ∨
      (location = sounding ∧ e = ⟨none, ["soundOff"], flashing⟩) ∨
      (location = rearming ∧ e.target = armed) := by
  cases location <;> decide

namespace Timely

variable {a next : CarAlarm} {now later : Timestamp}

/-- The reading is within its bounds as well. -/
theorem within (h : a.Timely now) :
    Within a.alarmLocked (a.x.elapsed now).millis a.location := by
  rcases h with hfree | ⟨k, hk, hwithin⟩
  · rcases a with ⟨location, x, alarmLocked⟩
    cases location <;> trivial
  · rw [Anchor.millis_elapsed hk]
    exact hwithin

/-- An edge keeps the clock within its bounds. -/
theorem edge (h : a.Timely now) {e : Edge} (he : e ∈ edges a.location)
    (htarget : next.location = e.target) (hleaves : e.Leaves a now next) : next.Timely now := by
  have hx := hleaves.x
  by_cases hfree : e.target ∈ untimed
  · exact .inl (htarget ▸ hfree)
  -- A clock that is not reset has been within its bounds, and these become no narrower.
  rcases hreset : e.resets a.location with _ | _
  · rw [hreset, if_neg Bool.false_ne_true] at hx
    have hrunning := edges_running a.location e he hfree hreset
    rcases h with hnone | ⟨k, hk, hwithin⟩
    · rcases hrunning with ⟨hfrom, -⟩ | ⟨hfrom, -⟩ | ⟨hfrom, -⟩ | ⟨hfrom, -⟩ <;>
        · rw [hfrom] at hnone
          exact absurd hnone (by decide)
    have hdue := hleaves.due
    have hmark := hleaves.alarmLocked
    rw [Anchor.millis_elapsed hk] at hdue
    refine .inr ⟨k, by rw [hx]; exact hk, ?_⟩
    rw [htarget]
    rcases hrunning with ⟨hfrom, hto⟩ | ⟨hfrom, hto⟩ | ⟨hfrom, rfl⟩ | ⟨hfrom, hto⟩
    -- Armed for the first time, the alarm stays so.
    · rw [hto, hfrom, if_pos rfl] at hmark
      rw [hto, hmark]
      exact fun hlocked => absurd hlocked (by decide)
    · rw [hfrom] at hwithin
      rw [hto, show k = 0 from hwithin]
      exact Nat.zero_le 31
    · have hover := hdue rfl
      simp only [hfrom, DueAt, Within] at hover hwithin ⊢
      omega
    · rw [hfrom] at hwithin
      rw [hto, show k = 0 from hwithin]
      exact fun _ => Nat.zero_le 401
  · rw [hreset, if_pos rfl] at hx
    refine .inr ⟨0, by rw [hx]; simp only [Nat.cast_zero]; omega, ?_⟩
    rw [htarget]
    exact within_zero (target_of_resets hreset)

/-- If nothing is due, a millisecond may pass. -/
theorem wait (h : a.Timely now) (hrest : ¬ a.DueAt (a.x.elapsed now).millis)
    (hlater : later.nanos = now.nanos + 1000000) : a.Timely later := by
  rcases h with hfree | ⟨k, hk, hwithin⟩
  · exact .inl hfree
  rw [Anchor.millis_elapsed hk] at hrest
  refine .inr ⟨k + 1, by omega, ?_⟩
  rcases a with ⟨location, x, alarmLocked⟩
  cases location with
  | openUnlocked | closedUnlocked | openLocked | silent => trivial
  | arming | sounding | flashing =>
    simp only [Within, DueAt] at hwithin hrest ⊢
    omega
  | armed =>
    intro hlocked
    have hbound : ¬ 400 < k := fun hover => hrest ⟨hlocked, hover⟩
    omega
  | disarming | triggered | stopping | rearming => exact absurd trivial hrest

end Timely

/-! ### Along a run -/

variable {ε : Type} [Environment ε]

/-- What the clock reads, in whole milliseconds. -/
def millis (b : Bench ε CarAlarm) : Nat := (b.system.x.elapsed b.now).millis

/-- The clock is within its bounds before a stage, and at the end of a step nothing is due. -/
structure OnTime (stage : Stage) (s : SimulatedTime) (b : Bench ε CarAlarm) : Prop where
  policy : b.policy = .simulated s
  timely : b.system.Timely s.now
  rests : stage = .settle → ¬ b.system.DueAt (b.system.x.elapsed s.now).millis

omit [Environment ε] in
theorem OnTime.of_like {stage : Stage} {s : SimulatedTime} {b next : Bench ε CarAlarm}
    (h : OnTime stage s b) (hlike : b.IsLike next) : OnTime stage s next := by
  rcases hlike with ⟨phase, journal, rfl⟩
  exact ⟨h.policy, h.timely, h.rests⟩

/-- What an update on a bench does, by the clock and by the table. -/
theorem paces_updateOn {b : Bench ε CarAlarm} {s : SimulatedTime}
    (hpolicy : b.policy = .simulated s) {progress : Progress}
    (h : (system.updateOn b).1 = .ok progress) :
    match progress with
    | .quiescent => (system.updateOn b).2.system = b.system ∧
        ¬ b.system.DueAt (b.system.x.elapsed s.now).millis
    | .transitioned => ∃ e ∈ edges b.system.location,
        (system.updateOn b).2.system.location = e.target ∧
          e.Leaves b.system s.now (system.updateOn b).2.system := by
  rcases system.ensures_updateOn (ensures_update_paces b.system s.now) with
    ⟨result, hpaces, hresult⟩
  have htells : TellsTime s.now (system.dialogueOn b) := fun _ he =>
    system.told_simulated hpolicy he
  rw [hresult] at h
  rcases result with cause | _ | _
  · exact absurd h nofun
  · rcases Except.ok.inj h
    exact hpaces htells
  · rcases Except.ok.inj h
    exact hpaces htells

/-- A stretch of a run keeps the clock within its bounds. -/
theorem OnTime.stretch {s : SimulatedTime} {t : Stretch ε CarAlarm}
    (h : OnTime t.stage s t.bench) (hgoes : (t.outcome system).1 = none) :
    ∃ s', OnTime (t.nextStage system) s' (t.outcome system).2 := by
  by_cases hstage : t.stage = .update
  · rcases t with ⟨stage, b⟩
    rcases hstage with rfl
    rcases haltOf_eq_none hgoes with ⟨progress, hresult⟩
    have hdone := paces_updateOn h.policy hresult
    have hpolicy := (Bench.policy_updateOn system b).trans h.policy
    rcases progress with _ | _
    · rcases hdone with ⟨e, he, htarget, hleaves⟩
      refine ⟨s, hpolicy, h.timely.edge he htarget hleaves, fun hsettle => ?_⟩
      rw [Stretch.nextStage_of_transitioned hresult] at hsettle
      exact absurd hsettle nofun
    · rcases hdone with ⟨hsame, hrest⟩
      refine ⟨s, hpolicy, ?_, fun _ => ?_⟩
      · exact hsame ▸ h.timely
      · exact hsame ▸ hrest
  · rcases t.outcome_simulated h.policy hgoes with ⟨s', hs', hnow⟩
    refine ⟨s', hs', ?_, fun hsettle => ?_⟩
    · rw [Stretch.system_eq hstage]
      rcases hnow with hsame | ⟨hended, hlater⟩
      · rw [hsame]
        exact h.timely
      · exact h.timely.wait (h.rests hended) hlater
    · rw [Stretch.nextStage_of_ne hstage] at hsettle
      exact absurd hsettle nofun

theorem onTime_stretches {limit steps : Nat} {b : Bench ε CarAlarm} {s : SimulatedTime}
    {x : Anchor} (hpolicy : b.policy = .simulated s) (hinitial : b.system = system.initial x)
    {t : Stretch ε CarAlarm} (h : t ∈ Bench.stages system limit steps b) :
    ∃ s', OnTime t.stage s' t.bench := by
  rcases List.append_of_mem h with ⟨before, after, hsplit⟩
  refine Bench.stages_invariant (P := fun _ stage b => ∃ s', OnTime stage s' b)
    (fun hon hlike => ?_) (fun hon hgoes => ?_) ⟨s, hpolicy, .inl ?_, nofun⟩ hsplit
  · rcases hon with ⟨s', hon⟩
    exact ⟨s', hon.of_like hlike⟩
  · rcases hon with ⟨s', hon⟩
    exact hon.stretch hgoes
  · rw [hinitial]
    exact List.mem_cons_self

/-- The stretch is an update that takes the alarm from one location to another. -/
structure Takes (t : Stretch ε CarAlarm) (source target : Location) : Prop where
  update : t.stage = .update
  goes : (t.outcome system).1 = none
  source : t.bench.system.location = source
  target : (t.outcome system).2.system.location = target

theorem edges_inj (location : Location) : ∀ e ∈ edges location, ∀ e' ∈ edges location,
    e.target = e'.target → e = e' := by
  cases location <;> decide

/-- It does so when the outputs on the way are due, if only outputs lead there. -/
theorem Takes.due {t : Stretch ε CarAlarm} {source target : Location} {s : SimulatedTime}
    (outputs : List String) (h : Takes t source target) (hne : source ≠ target)
    (hon : OnTime t.stage s t.bench)
    (honly : ∀ e ∈ edges source, e.target = target → e.input = none ∧ e.outputs = outputs) :
    t.bench.system.DueAt (millis t.bench) ∧ wroteIn (t.course system) = outputs := by
  rcases t with ⟨stage, b⟩
  rcases h with ⟨rfl, hgoes, hsource, htarget⟩
  change b.system.location = source at hsource
  change (system.updateOn b).2.system.location = target at htarget
  have hwrote : wroteIn (Bench.updateCourse system b) = said (system.dialogueOn b) :=
    system.wroteIn_update b
  have hmillis : millis b = (b.system.x.elapsed s.now).millis := by
    rw [millis, Bench.now_simulated hon.policy]
  rcases haltOf_eq_none hgoes with ⟨progress, hresult⟩
  change (system.updateOn b).1 = .ok progress at hresult
  have hdone := paces_updateOn hon.policy hresult
  rcases system.ensures_updateOn (ensures_update b.system) with ⟨result, hmoves, hsame⟩
  rw [hsame] at hresult
  rcases result with cause | _ | _
  · exact absurd hresult nofun
  -- The table and the clock speak of the same edge, as there is one for each target.
  · rcases Except.ok.inj hresult
    rcases hdone with ⟨e, he, hto, hleaves⟩
    rcases hmoves with ⟨e', he', hto', htaken⟩
    rcases edges_inj _ e he e' he' (hto.symm.trans hto')
    rw [hsource] at he
    rcases honly e he (hto.symm.trans htarget) with ⟨hinput, houtputs⟩
    rw [hmillis]
    exact ⟨hleaves.due hinput, (hwrote.trans htaken.said).trans houtputs⟩
  · rcases hmoves with ⟨hstays, -, -⟩
    exact absurd (hsource.symm.trans (hstays.symm.trans htarget)) hne

/-- The timing of every run of a car alarm in simulated time, whatever the environment does
    and however time is divided into windows. Each transition that depends on a bound is
    taken at the first millisecond beyond it. At the end of every step, which is where a
    settling begins, the clock is within its bounds, and the alarm is in none of the
    locations that are left at once. -/
theorem transitions_are_exact (limit steps : Nat) {b : Bench ε CarAlarm} {s : SimulatedTime}
    {x : Anchor} (hpolicy : b.policy = .simulated s) (hinitial : b.system = system.initial x)
    {t : Stretch ε CarAlarm} (h : t ∈ Bench.stages system limit steps b) :
    (Takes t arming armed →
      millis t.bench = 20 ∧ wroteIn (t.course system) = ["armedOn"]) ∧
    (Takes t sounding flashing →
      millis t.bench = 31 ∧ wroteIn (t.course system) = ["soundOff"]) ∧
    (Takes t flashing silent →
      millis t.bench = 301 ∧ wroteIn (t.course system) = ["soundOff", "flashOff"]) ∧
    (Takes t armed closedUnlocked →
      millis t.bench = 401 ∧ t.bench.system.alarmLocked = true ∧
        wroteIn (t.course system) = ["armedOff"]) ∧
    (t.stage = .settle →
      (t.bench.system.location = arming → millis t.bench < 20) ∧
      (t.bench.system.location = sounding → millis t.bench ≤ 30) ∧
      (t.bench.system.location = flashing → 30 < millis t.bench ∧ millis t.bench ≤ 300) ∧
      (t.bench.system.location = armed → t.bench.system.alarmLocked = true →
        millis t.bench ≤ 400) ∧
      t.bench.system.location ∉ [disarming, triggered, stopping, rearming]) := by
  rcases onTime_stretches hpolicy hinitial h with ⟨s', hon⟩
  have hmillis : millis t.bench = (t.bench.system.x.elapsed s'.now).millis := by
    rw [millis, Bench.now_simulated hon.policy]
  have hwithin := hon.timely.within
  rw [← hmillis] at hwithin
  refine ⟨fun htakes => ?_, fun htakes => ?_, fun htakes => ?_, fun htakes => ?_,
    fun hsettle => ?_⟩
  · rcases htakes.due ["armedOn"] nofun hon (by decide) with ⟨hdue, hwrote⟩
    simp only [DueAt, Within, htakes.source] at hdue hwithin
    exact ⟨Nat.le_antisymm hwithin hdue, hwrote⟩
  · rcases htakes.due ["soundOff"] nofun hon (by decide) with ⟨hdue, hwrote⟩
    simp only [DueAt, Within, htakes.source] at hdue hwithin
    exact ⟨Nat.le_antisymm hwithin hdue, hwrote⟩
  · rcases htakes.due ["soundOff", "flashOff"] nofun hon (by decide) with ⟨hdue, hwrote⟩
    simp only [DueAt, Within, htakes.source] at hdue hwithin
    exact ⟨Nat.le_antisymm hwithin.2 hdue, hwrote⟩
  · rcases htakes.due ["armedOff"] nofun hon (by decide) with ⟨hdue, hwrote⟩
    simp only [DueAt, Within, htakes.source] at hdue hwithin
    exact ⟨Nat.le_antisymm (hwithin hdue.1) hdue.2, hdue.1, hwrote⟩
  · have hrest := hon.rests hsettle
    rw [← hmillis] at hrest
    refine ⟨fun hlocation => ?_, fun hlocation => ?_, fun hlocation => ?_,
      fun hlocation hlocked => ?_, fun hpassing => ?_⟩
    · simp only [DueAt, hlocation] at hrest
      exact Nat.lt_of_not_le hrest
    · simp only [DueAt, hlocation] at hrest
      exact Nat.le_of_not_lt hrest
    · simp only [DueAt, Within, hlocation] at hrest hwithin
      exact ⟨hwithin.1, Nat.le_of_not_lt hrest⟩
    · simp only [DueAt, hlocation] at hrest
      exact Nat.le_of_not_lt fun hover => hrest ⟨hlocked, hover⟩
    · have hdue : ∀ a : CarAlarm, a.location ∈ [disarming, triggered, stopping, rearming] →
          a.DueAt (millis t.bench) := by
        rintro ⟨location, x, alarmLocked⟩ hmem
        cases location <;> trivial
      exact hrest (hdue _ hpassing)

/-- At the twenty-first step the alarm is armed. -/
theorem transitions_are_exact_intrusion :
    ∃ t ∈ Bench.stages system 9 30 intrusion.fed,
      Takes t arming armed ∧ millis t.bench = 20 := by
  have htaken : ∃ t ∈ Bench.stages system 9 30 intrusion.fed, t.stage = .update ∧
      (t.outcome system).1 = none ∧ t.bench.system.location = arming ∧
      (t.outcome system).2.system.location = armed := by decide +kernel
  rcases htaken with ⟨t, ht, hupdate, hgoes, hsource, htarget⟩
  have htakes : Takes t arming armed := ⟨hupdate, hgoes, hsource, htarget⟩
  exact ⟨t, ht, htakes, ((transitions_are_exact 9 30 rfl rfl ht).1 htakes).1⟩

end CarAlarm

end Testbench
