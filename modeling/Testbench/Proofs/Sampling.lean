import Testbench.Proofs.Rest
import Testbench.Proofs.Units
import Testbench.Proofs.WallClock

/-!
# Sampling in Real Time

A bench in real time looks at its clocks only now and then: between two steps it sleeps for a
quarter of a time unit. What the fish retailer owes for a coin is served in the first step
that finds the clock beyond the time unit, and that step is late by a quarter at most. As a
garnish is owed for three units, the clock cannot pass over the time for it, and the garnish
is served in the same step.

The quarter is in whole milliseconds, so it may be less than a quarter of the unit, and the
clock reads whole milliseconds as well. Both are roundings down, and the unit itself need not
be a whole number, so the argument is not about the readings but about the milliseconds slept.

## Main definitions

* `FishRetailer.Attends`: A bench in real time with nothing to read.
* `FishRetailer.Serving`: What is served at one reading of the clock.
* `FishRetailer.JustPaid`: A bench right after a coin.
* `FishRetailer.Sampled`: A bench some sleeps after the coin.
* `FishRetailer.LastCoin`: A coin with no input after it.
* `FishRetailer.SampledPurchase`: What the steps after it come to.

## Theorems

* `FishRetailer.transitions_unattended`: Updates without input.
* `FishRetailer.transitions_paid`: The step that takes a coin.
* `FishRetailer.serving_next`: The sample that is the first beyond the unit.
* `FishRetailer.Sampled.cycle`, `FishRetailer.Sampled.driveStarts`: One sample after another.
* `FishRetailer.purchase_is_sampled`: The purchase along every run.
-/

namespace Testbench

/-- A sleep that ends no later than a moment the clock can show does not overflow it. -/
theorem Timestamp.add?_ofMillis_ne_none {s t last : Timestamp} {m k : Nat}
    (hlast : t.add? (.ofMillis k) = some last)
    (h : s.nanos + m * 1000000 ≤ t.nanos + k * 1000000) : s.add? (.ofMillis m) ≠ none := by
  have hmoment := Timestamp.add?_eq_some.mp hlast
  have hfirst := s.first_le
  have hend := last.lt_end
  simp only [Duration.ofMillis] at hmoment
  have hnext : s.add? (.ofMillis m) = some ⟨s.nanos + m * 1000000, by omega, by omega⟩ :=
    Timestamp.add?_eq_some.mpr (by simp [Duration.ofMillis])
  rw [hnext]
  exact Option.some_ne_none _

namespace Bench

variable {ε σ : Type} [Environment ε] {update : BenchM ε σ Progress} {limit n : Nat}
  {b s : Bench ε σ}

/-- The steps from one of them on are those of a drive that begins there. -/
theorem getElem?_driveStarts_add {i : Nat} (h : (driveStarts update limit n b)[i]? = some s)
    (k : Nat) :
    (driveStarts update limit n b)[i + k]? = (driveStarts update limit (n - i) s)[k]? := by
  induction i generalizing n b with
  | zero =>
    rcases n with _ | n
    · exact absurd h nofun
    · rcases Option.some.inj h with rfl
      rw [Nat.zero_add, Nat.sub_zero]
  | succ i ih =>
    rcases n with _ | n
    · exact absurd h nofun
    rcases hcycle : cycle update limit b with ⟨halt | count, next⟩
    · rw [(drive_of_error n hcycle).2] at h
      exact absurd h nofun
    · rw [(drive_of_ok n hcycle).2] at h ⊢
      rw [Nat.succ_add, Nat.succ_sub_succ]
      exact ih h

theorem getElem?_starts_add {i : Nat} (h : (starts update limit n b)[i]? = some s) (k : Nat) :
    (starts update limit n b)[i + k]? = (driveStarts update limit (n - i) s)[k]? := by
  unfold starts at h ⊢
  split at h
  · exact getElem?_driveStarts_add h k
  · exact absurd h nofun

end Bench

namespace FishRetailer

open Location Rounding

variable {ε : Type} [Environment ε]

/-! ### Updates without input -/

/-- The bench is in real time, the retailer is in the given state, and no line is held. -/
structure Attends (r : RealTime) (state : FishRetailer) (b : Bench ε FishRetailer) : Prop where
  policy : b.policy = .realTime r
  system : b.system = state
  lines : b.inbox.lines = []

section

variable {r : RealTime} {state : FishRetailer} {b : Bench ε FishRetailer}

/-- What is served at one reading of the clock, up to the state in which nothing is due. -/
inductive Serving (v : Float) : FishRetailer → List String → FishRetailer → Prop
  | rests {state : FishRetailer} (hdue : ∀ text ∈ state.owed?, ¬ state.Due v) :
      Serving v state [] state
  | serves {state last : FishRetailer} {text : String} {rest : List String}
      (howed : text ∈ state.owed?) (hdue : state.Due v) (hrest : Serving v state.served rest last) :
      Serving v state (text :: rest) last

omit [Environment ε] in
theorem Attends.reading_eq {next : Bench ε FishRetailer} {state' : FishRetailer}
    (h : Attends r state b) (h' : Attends r state' next) (hwall : next.wall = b.wall)
    (x : Anchor) : next.reading x = b.reading x := by
  rw [Bench.reading_realTime h.policy, Bench.reading_realTime h'.policy, hwall]

theorem served_x (state : FishRetailer) : state.served.x = state.x := by
  unfold served
  split <;> rfl

section

variable (hsink : ∀ text (environment : ε), (Environment.accept text environment).1 = .ok ())

include hsink

/-- Without an input an update serves what is due, or rests. -/
theorem update_unattended (h : Attends r state b)
    (hquiet : Unattended (Bench.updateCourse system b)) :
    (system.updateOn b).2.wall = b.wall ∧
    ((∀ text ∈ state.owed?, ¬ state.Due (b.reading state.x)) ∧
        (system.updateOn b).1 = .ok .quiescent ∧ Attends r state (system.updateOn b).2 ∧
        (system.updateOn b).2.written = b.written ∨
      ∃ text ∈ state.owed?, state.Due (b.reading state.x) ∧
        (system.updateOn b).1 = .ok .transitioned ∧ Attends r state.served (system.updateOn b).2 ∧
        (system.updateOn b).2.written = text :: b.written) := by
  have hwall := Bench.wall_updateOn_eq hquiet.passages
  have hpolicy : (system.updateOn b).2.policy = .realTime r :=
    (Bench.policy_updateOn system b).trans h.policy
  have hlines := system.lines_updateOn b
  rw [h.lines, hquiet.arrivals, List.nil_append, List.append_eq_nil_iff] at hlines
  have hwritten : (system.updateOn b).2.written
      = (said (system.dialogueOn b)).reverse ++ b.written :=
    congrArg Own.written (system.own_updateOn_eq b)
  have htold : ∀ v, ⟨.value b.system.x, v⟩ ∈ system.dialogueOn b → v = b.reading b.system.x :=
    fun v hv => System.told_realTime h.policy hquiet.passages hv
  have hplayed := system.played_dialogueOn b
  rcases system.ensures_updateOn (ensures_update_serves b.system) with ⟨result, hserves, hresult⟩
  refine ⟨hwall, ?_⟩
  rcases h.system with rfl
  generalize hnext : (system.updateOn b).2.system = next at hserves
  generalize system.dialogueOn b = d at *
  cases hserves with
  | unread cause =>
    have hunread : Played b ([] ++ [⟨.inputReady, true⟩, ⟨.read, .error cause⟩]) := hplayed
    exact hunread.not_unread.elim
  | refused | paid => exact absurd hlines.1 nofun
  | idle howed =>
    refine .inl ⟨fun text htext => ?_, hresult, ⟨hpolicy, hnext, hlines.2⟩, hwritten⟩
    rw [howed] at htext
    exact absurd htext (Option.not_mem_none text)
  | waits text v howed hdue =>
    rw [htold v (.tail _ (.head _))] at hdue
    exact .inl ⟨fun _ _ => hdue, hresult, ⟨hpolicy, hnext, hlines.2⟩, hwritten⟩
  | serves text v note howed hdue =>
    rw [htold v (.tail _ (.head _))] at hdue
    exact .inr ⟨text, howed, hdue, hresult, ⟨hpolicy, hnext, hlines.2⟩, hwritten⟩
  | broke text v cause howed hdue =>
    exact absurd (hplayed.taken hsink (.tail _ (.tail _ (.head _)))) nofun

/-- Updates without input serve what is due, one line after another. -/
theorem transitions_unattended {v : Float} {output : List String} {last : FishRetailer}
    (hserving : Serving v state output last) {limit : Nat} (count : Nat)
    (hlimit : output.length < limit) (h : Attends r state b) (hv : b.reading state.x = v)
    (hquiet : Unattended (Bench.transitionsCourse system limit b)) :
    ∃ next, Bench.transitions system.updateOn limit count b = (.ok (count + output.length), next) ∧
      next.wall = b.wall ∧ Attends r last next ∧ next.written = output.reverse ++ b.written := by
  induction hserving generalizing b limit count with
  | rests hdue =>
    obtain ⟨limit, rfl⟩ : ∃ n, limit = n + 1 := ⟨limit - 1, by omega⟩
    rcases update_unattended hsink h (unattended_append.mp hquiet).1 with
      ⟨hwall, ⟨-, hresult, hnext, hwritten⟩ | ⟨text, howed, hgiven, -⟩⟩
    · refine ⟨_, ?_, hwall, hnext, hwritten⟩
      rw [Bench.transitions, ← Prod.eta (system.updateOn b), hresult]
      rfl
    · exact absurd (hv ▸ hgiven) (hdue text howed)
  | @serves state last text rest howed hdue hrest ih =>
    obtain ⟨limit, rfl⟩ : ∃ n, limit = n + 1 := ⟨limit - 1, by omega⟩
    rcases unattended_append.mp hquiet with ⟨hfirst, hlater⟩
    rcases update_unattended hsink h hfirst with
      ⟨hwall, ⟨hnone, -⟩ | ⟨text', howed', -, hresult, hnext, hwritten⟩⟩
    · exact absurd (hv ▸ hdue) (hnone text howed)
    · rcases Option.mem_unique howed howed'
      rcases hupdate : system.updateOn b with ⟨result, b₁⟩
      rw [hupdate] at hwall hresult hnext hwritten
      rcases hresult with rfl
      simp only [Bench.onward, hupdate] at hlater
      have hv' : b₁.reading state.served.x = v := by
        rw [served_x, h.reading_eq hnext hwall, hv]
      rcases ih (count + 1) (Nat.lt_of_succ_lt_succ hlimit) hnext hv' hlater with
        ⟨next, hmoves, hwall', hlast, hwritten'⟩
      refine ⟨next, ?_, hwall'.trans hwall, hlast, ?_⟩
      · simp only [Bench.transitions, hupdate, hmoves, List.length_cons]
        congr 2
        omega
      · rw [hwritten', hwritten, List.reverse_cons, List.append_assoc]
        rfl

theorem runStep_unattended {output : List String} {last : FishRetailer}
    (hserving : Serving (b.reading state.x) state output last) {limit : Nat}
    (hlimit : output.length < limit) (h : Attends r state b)
    (hquiet : Unattended (Bench.stepCourse system limit b)) :
    ∃ count next, Bench.runStep system.updateOn limit b = (.ok count, next) ∧
      next.wall = b.wall ∧ Attends r last next ∧
      Bench.stepOutput system.updateOn limit b = output := by
  have hrunning : Attends r state { b with phase := .running } := ⟨h.policy, h.system, h.lines⟩
  rcases transitions_unattended hsink hserving 0 hlimit hrunning rfl hquiet with
    ⟨rested, hmoves, hwall, hlast, hwritten⟩
  have hstep := Bench.runStep_of_ok hmoves
  have hnew : (Bench.runStep system.updateOn limit b).2.written = output.reverse ++ b.written := by
    rw [hstep]
    exact hwritten
  refine ⟨_, _, hstep, hwall, ⟨hlast.policy, hlast.system, hlast.lines⟩, ?_⟩
  rw [Bench.stepOutput_eq hnew, List.reverse_reverse]

end

end

/-! ### The coin -/

/-- A tuna is owed for a coin. -/
def granted (x : Anchor) : FishRetailer := ⟨coinGranted, x, true⟩

/-- Nothing is owed for it any more. -/
def settled (x : Anchor) : FishRetailer := ⟨waiting, x, false⟩

section

variable {r : RealTime} {u : ℚ} {b : Bench ε FishRetailer}

theorem preparation_lt_div_iff {n : Nat} (hr : r.HasUnit u) :
    preparation < Float.ofNat n / r.unit ↔ u < n := by
  have hbound : preparation = Float.ofNat 1 := by decide +kernel
  rw [hbound]
  exact hr.one_lt_div_iff

theorem div_lt_garnishLimit {n : Nat} (hr : r.HasUnit u) (hn : (n : ℚ) ≤ 2 * u) :
    Float.ofNat n / r.unit < garnishLimit := by
  have hbound : garnishLimit = Float.ofNat 3 := by decide +kernel
  rw [hbound]
  exact hr.div_lt_three hn

/-- A coin that was paid at this time has no effect yet, so an update can only rest. -/
theorem update_granted (hr : r.HasUnit u) (hpolicy : b.policy = .realTime r)
    (hsystem : b.system = granted ⟨b.wall⟩)
    (hpassages : elapsedIn (Bench.updateCourse system b) = []) (progress : Progress)
    (hgoes : (system.updateOn b).1 = .ok progress) :
    progress = .quiescent ∧ (system.updateOn b).2.system = b.system := by
  have htold : ∀ v, ⟨.value b.system.x, v⟩ ∈ system.dialogueOn b → ¬ b.system.Due v := by
    intro v hv hdue
    rw [show v = b.reading b.system.x from System.told_realTime hpolicy hpassages hv,
      Bench.reading_realTime hpolicy, hsystem] at hdue
    have hlt := (preparation_lt_div_iff hr).mp hdue
    simp only [granted, Anchor.elapsed, Timestamp.since, sub_self, Duration.millis] at hlt
    exact absurd hlt (not_lt.mpr (by simpa using hr.pos.le))
  rcases system.ensures_updateOn (ensures_update_serves b.system) with ⟨result, hserves, hresult⟩
  rw [hgoes] at hresult
  generalize hnext : (system.updateOn b).2.system = next at hserves
  generalize system.dialogueOn b = d at *
  cases hserves with
  | unread | refused | broke => cases hresult
  | paid _ _ hlocation =>
    rw [hsystem] at hlocation
    cases hlocation
  | idle howed =>
    rw [hsystem] at howed
    cases howed
  | waits => exact ⟨Except.ok.inj hresult, rfl⟩
  | serves text v note howed hdue => exact absurd hdue (htold v (.tail _ (.head _)))

/-- The coin was paid just now, and is all that the retailer remembers. -/
structure JustPaid (r : RealTime) (t : Timestamp) (b : Bench ε FishRetailer) : Prop where
  policy : b.policy = .realTime r
  wall : b.wall = t
  system : b.system = granted ⟨t⟩

theorem transitions_granted (hr : r.HasUnit u)
    {t : Timestamp} (h : JustPaid r t b) {limit count n : Nat} {next : Bench ε FishRetailer}
    (hpassages : elapsedIn (Bench.transitionsCourse system limit b) = [])
    (hmoves : Bench.transitions system.updateOn limit count b = (.ok n, next)) :
    JustPaid r t next := by
  rcases limit with _ | limit
  · exact absurd (Prod.mk.inj hmoves).1 nofun
  rcases elapsedIn_append.mp hpassages with ⟨hfirst, -⟩
  have hrests := update_granted hr h.policy (h.wall ▸ h.system) hfirst
  have hpolicy := (Bench.policy_updateOn system b).trans h.policy
  have hwall := (Bench.wall_updateOn_eq hfirst).trans h.wall
  rcases hupdate : system.updateOn b with ⟨halt | progress, b₁⟩
  · simp only [Bench.transitions, hupdate, Prod.mk.injEq, reduceCtorEq, false_and] at hmoves
  · rw [hupdate] at hrests hpolicy hwall
    rcases hrests progress rfl with ⟨rfl, hsame⟩
    simp only [Bench.transitions, hupdate] at hmoves
    rcases Prod.mk.inj hmoves with ⟨-, rfl⟩
    exact ⟨hpolicy, hwall, hsame.trans h.system⟩

/-- An update that takes a coin resets the clock. -/
theorem update_paid (hpolicy : b.policy = .realTime r)
    (hpassages : elapsedIn (Bench.updateCourse system b) = [])
    (hcoin : ⟨"coin"⟩ ∈ consumedIn (Bench.updateCourse system b)) {progress : Progress}
    (hgoes : (system.updateOn b).1 = .ok progress) :
    JustPaid r b.wall (system.updateOn b).2 := by
  have hlater := (Bench.policy_updateOn system b).trans hpolicy
  have hwall := Bench.wall_updateOn_eq hpassages
  have hreset : ∀ x, ⟨.resetTime, x⟩ ∈ system.dialogueOn b → x = ⟨b.now⟩ :=
    fun x hx => System.told_realTime hpolicy hpassages hx
  rw [Bench.now_realTime hpolicy] at hreset
  rcases system.ensures_updateOn (ensures_update_serves b.system) with ⟨result, hserves, hresult⟩
  rw [hgoes] at hresult
  rw [system.consumedIn_update] at hcoin
  generalize hnext : (system.updateOn b).2.system = next at hserves
  generalize system.dialogueOn b = d at *
  cases hserves with
  | unread | refused | broke => exact absurd hresult nofun
  | idle | waits | serves => exact absurd hcoin List.not_mem_nil
  | paid x note hlocation =>
    refine ⟨hlater, hwall, hnext.trans ?_⟩
    rw [hreset x (.tail _ (.tail _ (.head _))), granted]

/-- Whatever a step did before it took the coin, it ends with the coin just paid. -/
theorem transitions_paid (hr : r.HasUnit u)
    (hpolicy : b.policy = .realTime r) {limit count n : Nat} {next : Bench ε FishRetailer}
    (hpassages : elapsedIn (Bench.transitionsCourse system limit b) = [])
    (hcoin : ⟨"coin"⟩ ∈ consumedIn (Bench.transitionsCourse system limit b))
    (hmoves : Bench.transitions system.updateOn limit count b = (.ok n, next)) :
    JustPaid r b.wall next := by
  induction limit generalizing b count with
  | zero => exact absurd (Prod.mk.inj hmoves).1 nofun
  | succ limit ih =>
    rcases elapsedIn_append.mp hpassages with
      ⟨hfirst, hrest⟩
    have hnow := List.mem_append.mp ((consumedIn_append _ _) ▸ hcoin)
    have hpaid := update_paid hpolicy hfirst
    have hlater := (Bench.policy_updateOn system b).trans hpolicy
    have hwall := Bench.wall_updateOn_eq hfirst
    rcases hupdate : system.updateOn b with ⟨halt | _ | _, b₁⟩
    · simp only [Bench.transitions, hupdate, Prod.mk.injEq, reduceCtorEq, false_and] at hmoves
    · simp only [Bench.transitions, hupdate] at hmoves
      simp only [Bench.onward, hupdate] at hrest hnow
      rw [hupdate] at hpaid hlater hwall
      rcases hnow with hcoin | hcoin
      · exact transitions_granted hr (hpaid hcoin rfl) hrest hmoves
      · exact hwall ▸ ih hlater hrest hcoin hmoves
    · have hnone := (honours.rests (congrArg Prod.fst hupdate)).consumes.1
      simp only [Bench.onward, hupdate] at hnow
      rw [hnone] at hnow
      rcases hnow with hcoin | hcoin <;> exact absurd hcoin List.not_mem_nil

end

/-! ### Samples -/

section

variable {r : RealTime} {u : ℚ} {t : Timestamp} {b : Bench ε FishRetailer}

omit [Environment ε] in
theorem serving_settled (v : Float) (x : Anchor) : Serving v (settled x) [] (settled x) :=
  .rests fun _ howed => absurd howed (Option.not_mem_none _)

omit [Environment ε] in
theorem serving_granted {n : Nat} (hr : r.HasUnit u) (hn : ¬ u < n) (x : Anchor) :
    Serving (Float.ofNat n / r.unit) (granted x) [] (granted x) :=
  .rests fun _ _ hdue => hn ((preparation_lt_div_iff hr).mp hdue)

omit [Environment ε] in
theorem serving_both {n : Nat} (hr : r.HasUnit u) (hn : u < n) (hlimit : (n : ℚ) ≤ 2 * u)
    (x : Anchor) :
    Serving (Float.ofNat n / r.unit) (granted x) ["tuna", "garnish"] (settled x) := by
  refine .serves rfl ((preparation_lt_div_iff hr).mpr hn) ?_
  refine .serves rfl (div_lt_garnishLimit hr hlimit) ?_
  exact serving_settled _ x

/-- Between two steps nothing changes but the wall clock. -/
theorem Attends.settle {state : FishRetailer} (h : Attends r state b) (hr : r.HasUnit u)
    (hquiet : Unattended b.settleCourse) :
    (Bench.settle b).1 = .error (.fault .timeOverflow) ∧
        b.wall.add? (.ofMillis ⌊u / 4⌋₊) = none ∨
      ∃ next, Bench.settle b = (.ok (), next) ∧ Attends r state next ∧
        next.wall.nanos = b.wall.nanos + ⌊u / 4⌋₊ * 1000000 := by
  rw [← hr.pollPeriod_eq]
  rcases hadd : b.wall.add? r.pollPeriod with _ | wall
  · exact .inl ⟨Bench.settle_realTime_of_none h.policy hadd, rfl⟩
  · rcases Bench.settle_realTime_of_some h.policy hadd hquiet.passages with
      ⟨next, hnext, hlast, hown, hlines⟩
    rw [h.lines, hquiet.arrivals] at hlines
    refine .inr ⟨next, hnext, ⟨?_, ?_, hlines⟩, ?_⟩
    · exact (congrArg Own.policy hown).trans h.policy
    · exact (congrArg Own.system hown).trans h.system
    · have hmoved := Timestamp.add?_eq_some.mp hadd
      rw [hr.pollPeriod_eq, Duration.ofMillis] at hmoved
      rw [hlast, hmoved]
      push_cast
      rfl

/-- Milliseconds after `k` sleeps. -/
def slept (u : ℚ) (k : Nat) : Nat := k * ⌊u / 4⌋₊

theorem slept_succ (u : ℚ) (k : Nat) : slept u (k + 1) = slept u k + ⌊u / 4⌋₊ := Nat.succ_mul k _

omit [Environment ε] in
theorem slept_le (hpos : 0 < u) (k : Nat) : (slept u (k + 1) : ℚ) ≤ slept u k + u / 4 := by
  rw [slept_succ, Nat.cast_add]
  exact add_le_add_right (Nat.floor_le (by positivity)) _

/-- What the retailer remembers after `k` sleeps if its clock was then read. -/
def afterSleeps (u : ℚ) (x : Anchor) (k : Nat) : FishRetailer :=
  if u < slept u k then settled x else granted x

/-- What it serves after one sleep more. -/
def servedNext (u : ℚ) (k : Nat) : List String :=
  if u < slept u (k + 1) ∧ ¬ u < slept u k then ["tuna", "garnish"] else []

theorem afterSleeps_x (u : ℚ) (x : Anchor) (k : Nat) : (afterSleeps u x k).x = x := by
  unfold afterSleeps
  split <;> rfl

theorem length_servedNext (u : ℚ) (k : Nat) : (servedNext u k).length ≤ 2 := by
  unfold servedNext
  split
  · exact Nat.le_refl 2
  · exact Nat.zero_le 2

/-- The sample that exceeds the unit first does not exceed it by more than a quarter. -/
theorem serving_next (hr : r.HasUnit u) (x : Anchor) (k : Nat) :
    Serving (Float.ofNat (slept u (k + 1)) / r.unit) (afterSleeps u x k) (servedNext u k)
      (afterSleeps u x (k + 1)) := by
  have hpos := hr.pos
  have hnext := slept_le hpos k
  unfold afterSleeps servedNext
  by_cases hover : u < slept u k
  · have hstill : u < slept u (k + 1) := by
      rw [slept_succ, Nat.cast_add]
      exact lt_add_of_lt_of_nonneg hover (Nat.cast_nonneg _)
    simp only [hover, hstill, if_true, not_true_eq_false, and_false, if_false]
    exact serving_settled _ _
  · by_cases hdue : u < slept u (k + 1)
    · simp only [hover, hdue, if_true, if_false, not_false_eq_true, and_self]
      exact serving_both hr hdue (by linarith) _
    · simp only [hover, hdue, if_false, false_and]
      exact serving_granted hr hdue _

/-- Before the step that comes one sleep after the first `k`. -/
structure Sampled (r : RealTime) (u : ℚ) (t : Timestamp) (k : Nat) (b : Bench ε FishRetailer) :
    Prop where
  attends : Attends r (afterSleeps u ⟨t⟩ k) b
  wall : b.wall.nanos = t.nanos + slept u (k + 1) * 1000000

namespace Sampled

variable {k limit : Nat} (hr : r.HasUnit u) (hlimit : 3 ≤ limit)
  (hsink : ∀ text (environment : ε), (Environment.accept text environment).1 = .ok ())

include hr hlimit hsink

theorem runStep (h : Sampled r u t k b)
    (hquiet : Unattended (Bench.stepCourse system limit b)) :
    ∃ count next, Bench.runStep system.updateOn limit b = (.ok count, next) ∧
      next.wall = b.wall ∧ Attends r (afterSleeps u ⟨t⟩ (k + 1)) next ∧
      Bench.stepOutput system.updateOn limit b = servedNext u k := by
  have hserving := serving_next hr ⟨t⟩ k
  have hv : b.reading (afterSleeps u ⟨t⟩ k).x = Float.ofNat (slept u (k + 1)) / r.unit := by
    rw [afterSleeps_x, Bench.reading_realTime h.attends.policy, Anchor.millis_elapsed h.wall]
  rw [← hv] at hserving
  have hlength := length_servedNext u k
  exact runStep_unattended hsink hserving (by omega) h.attends hquiet

/-- After a step and a sleep there is one sample more. -/
theorem cycle (h : Sampled r u t k b) {n : Nat}
    (hquiet : Unattended (Bench.driveCourse system limit (n + 1) b)) :
    Bench.stepOutput system.updateOn limit b = servedNext u k ∧
      ((∃ halt next, Bench.cycle system.updateOn limit b = (.error halt, next) ∧
          b.wall.add? (.ofMillis ⌊u / 4⌋₊) = none) ∨
        ∃ count next, Bench.cycle system.updateOn limit b = (.ok count, next) ∧
          Sampled r u t (k + 1) next ∧ Unattended (Bench.driveCourse system limit n next)) := by
  rcases unattended_append.mp hquiet with ⟨hfirst, hrest⟩
  rcases h.runStep hr hlimit hsink hfirst with
    ⟨count, rested, hstep, hwall, hattends, houtput⟩
  simp only [Bench.onward, hstep] at hrest
  rcases unattended_append.mp hrest with ⟨hsettle, hlater⟩
  refine ⟨houtput, ?_⟩
  rw [← hwall]
  rcases hattends.settle hr hsettle with
    ⟨hstop, hover⟩ | ⟨next, hnext, hafter, hpassed⟩
  · exact .inl ⟨_, _, Bench.cycle_of_unsettled hstep (Prod.ext hstop rfl), hover⟩
  · simp only [hnext] at hlater
    refine .inr ⟨count, next, Bench.cycle_of_settled hstep hnext, ⟨hafter, ?_⟩, hlater⟩
    rw [hpassed, hwall, h.wall, slept_succ u (k + 1)]
    push_cast
    ring

/-- Each further step is one sample more. -/
theorem driveStarts (h : Sampled r u t k b) {n j : Nat}
    (hquiet : Unattended (Bench.driveCourse system limit n b))
    {next : Bench ε FishRetailer}
    (hnext : (Bench.driveStarts system.updateOn limit n b)[j]? = some next) :
    Sampled r u t (k + j) next ∧
      Bench.stepOutput system.updateOn limit next = servedNext u (k + j) := by
  induction j generalizing k n b with
  | zero =>
    rcases n with _ | n
    · exact absurd hnext nofun
    · rcases Option.some.inj hnext with rfl
      exact ⟨h, (h.cycle hr hlimit hsink hquiet).1⟩
  | succ j ih =>
    rcases n with _ | n
    · exact absurd hnext nofun
    rcases (h.cycle hr hlimit hsink hquiet).2 with
      ⟨halt, b₁, hcycle, -⟩ | ⟨count, b₁, hcycle, hlater, hquiet'⟩
    · rw [(Bench.drive_of_error n hcycle).2] at hnext
      exact absurd hnext nofun
    · rw [(Bench.drive_of_ok n hcycle).2] at hnext
      rw [← Nat.succ_add_eq_add_succ]
      exact ih hlater hquiet' hnext

/-- The steps go on as long as the wall clock can. -/
theorem exists_driveStarts (h : Sampled r u t k b) {n j : Nat}
    (hquiet : Unattended (Bench.driveCourse system limit n b)) (hj : j < n)
    {last : Timestamp} (hlast : t.add? (.ofMillis (slept u (k + j + 1))) = some last) :
    ∃ next, (Bench.driveStarts system.updateOn limit n b)[j]? = some next := by
  induction j generalizing k n b with
  | zero =>
    obtain ⟨n, rfl⟩ : ∃ m, n = m + 1 := ⟨n - 1, by omega⟩
    exact ⟨b, rfl⟩
  | succ j ih =>
    obtain ⟨n, rfl⟩ : ∃ m, n = m + 1 := ⟨n - 1, by omega⟩
    rcases (h.cycle hr hlimit hsink hquiet).2 with
      ⟨halt, b₁, hcycle, hover⟩ | ⟨count, b₁, hcycle, hlater, hquiet'⟩
    · -- The clock does not overflow before it gets to the last moment.
      have hmono : slept u (k + 2) ≤ slept u (k + (j + 1) + 1) :=
        Nat.mul_le_mul_right _ (by omega)
      have hwall := h.wall
      rw [slept_succ u (k + 1)] at hmono
      exact absurd hover (Timestamp.add?_ofMillis_ne_none hlast (by omega))
    · rw [(Bench.drive_of_ok n hcycle).2]
      refine ih hlater hquiet' (by omega) ?_
      rw [← hlast]
      congr 3
      omega

end Sampled

end

/-! ### A purchase -/

/-- Whole milliseconds from one bench to another. -/
def millisFrom (s next : Bench ε FishRetailer) : Nat :=
  ((Anchor.mk s.wall).elapsed next.wall).millis

/-- The step that begins at `s`, the `i`th one of a run, takes a coin. There is no input after
    it, and wall-clock time passes only by sleeping. -/
structure LastCoin (r : RealTime) (limit steps i : Nat) (b s : Bench ε FishRetailer) : Prop where
  begins : (Bench.starts system.updateOn limit steps b)[i]? = some s
  policy : s.policy = .realTime r
  coin : ⟨"coin"⟩ ∈ consumedIn (Bench.stepCourse system limit s)
  /-- The coin is accepted, and the step leaves no line. -/
  goes : ∃ count sold, Bench.runStep system.updateOn limit s = (.ok count, sold) ∧
    sold.inbox.lines = []
  /-- No line arrives after the step. -/
  arrivals : arrivedIn (Bench.driveCourse system limit (steps - i) s)
    = arrivedIn (Bench.stepCourse system limit s)
  passages : elapsedIn (Bench.driveCourse system limit (steps - i) s) = []
  sink : ∀ text (environment : ε), (Environment.accept text environment).1 = .ok ()

/-- The `k`th step after that of the coin is the first at which more than `u` milliseconds
    have passed. -/
structure IsFirstBeyond (u : ℚ) (limit steps i : Nat) (b s : Bench ε FishRetailer) (k : Nat)
    (next : Bench ε FishRetailer) : Prop where
  begins : (Bench.starts system.updateOn limit steps b)[i + k]? = some next
  beyond : u < millisFrom s next
  first : ∀ j < k, ∀ earlier, (Bench.starts system.updateOn limit steps b)[i + j]? = some earlier →
    (millisFrom s earlier : ℚ) ≤ u

/-- What the steps after a coin come to. -/
structure SampledPurchase (u : ℚ) (limit steps i : Nat) (b s : Bench ε FishRetailer) : Prop where
  /-- Every sleep takes the same time, in whole milliseconds. -/
  paced : ∀ k next, (Bench.starts system.updateOn limit steps b)[i + k]? = some next →
    next.wall.nanos = s.wall.nanos + k * ⌊u / 4⌋₊ * 1000000
  served : ∀ k next, IsFirstBeyond u limit steps i b s k next →
    Bench.stepOutput system.updateOn limit next = ["tuna", "garnish"] ∧
      u < millisFrom s next ∧ (millisFrom s next : ℚ) ≤ u + ⌊u / 4⌋₊
  silent : ∀ k next, 0 < k → (Bench.starts system.updateOn limit steps b)[i + k]? = some next →
    ¬ IsFirstBeyond u limit steps i b s k next →
      Bench.stepOutput system.updateOn limit next = []
  /-- There is such a step if the run is long enough and the wall clock can show its time. -/
  reached : ∃ k, 0 < k ∧ ∀ last, i + k < steps →
    s.wall.add? (.ofMillis (k * ⌊u / 4⌋₊)) = some last →
      ∃ next, IsFirstBeyond u limit steps i b s k next

section

variable {r : RealTime} {u : ℚ} {limit steps i : Nat} {b s : Bench ε FishRetailer}

omit [Environment ε] in
theorem millisFrom_eq {k : Nat} {next : Bench ε FishRetailer}
    (h : next.wall.nanos = s.wall.nanos + slept u k * 1000000) : millisFrom s next = slept u k :=
  Anchor.millis_elapsed h

namespace LastCoin

/-- Where the steps after the coin begin, if there are any. -/
theorem sampled (h : LastCoin r limit steps i b s) (hr : r.HasUnit u) :
    (Bench.driveStarts system.updateOn limit (steps - i) s = [s] ∧
        s.wall.add? (.ofMillis ⌊u / 4⌋₊) = none) ∨
      ∃ n first, steps - i = n + 1 ∧ Sampled r u s.wall 0 first ∧
        Unattended (Bench.driveCourse system limit n first) ∧
        Bench.driveStarts system.updateOn limit (steps - i) s
          = s :: Bench.driveStarts system.updateOn limit n first := by
  have hbegins := Bench.getElem?_starts_add h.begins 0
  rw [Nat.add_zero, h.begins] at hbegins
  have harrivals := h.arrivals
  have hpassages := h.passages
  rcases hsteps : steps - i with _ | n
  · rw [hsteps] at hbegins
    exact absurd hbegins nofun
  rcases h.goes with ⟨count, sold, hstep, hlines⟩
  rw [hsteps, Bench.driveCourse] at harrivals hpassages
  rw [arrivedIn_append] at harrivals
  rw [elapsedIn_append] at hpassages
  have hrest : Unattended _ :=
    ⟨List.append_cancel_left (harrivals.trans (List.append_nil _).symm), hpassages.2⟩
  simp only [Bench.onward, hstep] at hrest
  rcases unattended_append.mp hrest with ⟨hsettle, hlater⟩
  rcases Bench.runStep_ok hstep with ⟨rested, hmoves, rfl⟩
  have hpaid := transitions_paid hr (b := { s with phase := .running }) h.policy
    hpassages.1 h.coin hmoves
  have hattends : Attends r (granted ⟨s.wall⟩)
      ({ rested with phase := .quiescent }.note (.stepDone count)) :=
    ⟨hpaid.policy, hpaid.system, hlines⟩
  rcases hattends.settle hr hsettle with
    ⟨hstop, hover⟩ | ⟨first, hfirst, hafter, hpassed⟩
  · have hcycle := Bench.cycle_of_unsettled hstep (Prod.ext hstop rfl)
    exact .inl ⟨(Bench.drive_of_error n hcycle).2, hpaid.wall ▸ hover⟩
  · simp only [hfirst] at hlater
    have hcycle := Bench.cycle_of_settled hstep hfirst
    refine .inr ⟨n, first, rfl, ⟨?_, ?_⟩, hlater, (Bench.drive_of_ok n hcycle).2⟩
    · rw [afterSleeps, slept, Nat.zero_mul, if_neg (by simpa using hr.pos.le)]
      exact hafter
    · rw [hpassed, slept, Nat.zero_add, Nat.one_mul]
      exact congrArg (·.nanos + _) hpaid.wall

section

variable (h : LastCoin r limit steps i b s) (hr : r.HasUnit u) (hlimit : 3 ≤ limit)

include h hr hlimit

theorem step {j : Nat} {next : Bench ε FishRetailer}
    (hnext : (Bench.starts system.updateOn limit steps b)[i + (j + 1)]? = some next) :
    Sampled r u s.wall j next ∧ Bench.stepOutput system.updateOn limit next = servedNext u j := by
  rw [Bench.getElem?_starts_add h.begins] at hnext
  rcases h.sampled hr with
    ⟨honly, -⟩ | ⟨n, first, -, hfirst, hquiet, hmore⟩
  · rw [honly] at hnext
    exact absurd hnext nofun
  · rw [hmore] at hnext
    have hlast := hfirst.driveStarts hr hlimit h.sink hquiet hnext
    rwa [Nat.zero_add] at hlast

theorem wall_eq {k : Nat} {next : Bench ε FishRetailer}
    (hnext : (Bench.starts system.updateOn limit steps b)[i + k]? = some next) :
    next.wall.nanos = s.wall.nanos + slept u k * 1000000 := by
  rcases k with _ | j
  · rw [Nat.add_zero, h.begins] at hnext
    rw [← Option.some.inj hnext, slept, Nat.zero_mul]
    simp
  · exact (h.step hr hlimit hnext).1.wall

/-- The first step beyond a time unit is the one that serves. -/
theorem isFirstBeyond_iff {j : Nat} {next : Bench ε FishRetailer}
    (hnext : (Bench.starts system.updateOn limit steps b)[i + (j + 1)]? = some next) :
    IsFirstBeyond u limit steps i b s (j + 1) next ↔
      u < slept u (j + 1) ∧ ¬ u < slept u j := by
  have hwall : ∀ {k next}, (Bench.starts system.updateOn limit steps b)[i + k]? = some next →
      millisFrom s next = slept u k :=
    fun hk => millisFrom_eq (h.wall_eq hr hlimit hk)
  constructor
  · intro hfirst
    have hbeyond := hfirst.beyond
    rw [hwall hnext] at hbeyond
    rcases List.getElem?_eq_some_iff.mp hnext with ⟨hbound, -⟩
    have hearlier := List.getElem?_eq_getElem
      (l := Bench.starts system.updateOn limit steps b) (i := i + j) (by omega)
    have hle := hfirst.first j (Nat.lt_succ_self j) _ hearlier
    rw [hwall hearlier] at hle
    exact ⟨hbeyond, hle.not_gt⟩
  · rintro ⟨hbeyond, hnot⟩
    refine ⟨hnext, by rwa [hwall hnext], fun k hk earlier hearlier => ?_⟩
    rw [hwall hearlier]
    refine le_trans ?_ (not_lt.mp hnot)
    exact_mod_cast Nat.mul_le_mul_right _ (Nat.le_of_lt_succ hk)

theorem exists_step {j : Nat} (hj : i + (j + 1) < steps) {last : Timestamp}
    (hlast : s.wall.add? (.ofMillis (slept u (j + 1))) = some last) :
    ∃ next, (Bench.starts system.updateOn limit steps b)[i + (j + 1)]? = some next := by
  rw [Bench.getElem?_starts_add h.begins]
  rcases h.sampled hr with
    ⟨-, hover⟩ | ⟨n, first, hn, hfirst, hquiet, hmore⟩
  · have hleast : slept u 1 ≤ slept u (j + 1) := Nat.mul_le_mul_right _ (by omega)
    rw [slept, Nat.one_mul] at hleast
    exact absurd hover (Timestamp.add?_ofMillis_ne_none hlast (by omega))
  · rw [hmore]
    have hlast' : s.wall.add? (.ofMillis (slept u (0 + j + 1))) = some last := by
      rwa [Nat.zero_add]
    exact hfirst.exists_driveStarts hr hlimit h.sink hquiet (by omega) hlast'

end

end LastCoin

omit [Environment ε] in
theorem exists_slept (hfour : 4 ≤ u) : ∃ j, u < slept u (j + 1) ∧ ¬ u < slept u j := by
  have hperiod : 1 ≤ ⌊u / 4⌋₊ := Nat.le_floor (by
    rw [Nat.cast_one]
    linarith)
  have hsome : ∃ k, u < slept u k := by
    refine ⟨⌊u⌋₊ + 1, (Nat.lt_floor_add_one u).trans_le ?_⟩
    exact_mod_cast Nat.le_mul_of_pos_right _ hperiod
  rcases hleast : Nat.find hsome with _ | j
  · have hzero := Nat.find_spec hsome
    rw [hleast, slept, Nat.zero_mul, Nat.cast_zero] at hzero
    linarith
  · refine ⟨j, hleast ▸ Nat.find_spec hsome, Nat.find_min hsome (by omega)⟩

/-- A purchase in real time, for every finite time unit. Between two steps exactly a quarter of
    the unit is slept, in whole milliseconds. So the first step after the coin that is beyond
    the unit is so by no more than a quarter, and it serves the tuna and the garnish. -/
theorem purchase_is_sampled (hunit : number? r.unit = some u) (hfour : 4 ≤ u)
    (hsmall : u < 2 ^ 53) :
    (∀ {σ : Type} (b : Bench ε σ) (wall : Timestamp), b.policy = .realTime r →
      elapsedIn b.settleCourse = [] → b.wall.add? (.ofMillis ⌊u / 4⌋₊) = some wall →
        ∃ next, Bench.settle b = (.ok (), next) ∧ next.wall = wall) ∧
    ∀ {limit steps i : Nat} {b s : Bench ε FishRetailer}, 3 ≤ limit →
      LastCoin r limit steps i b s → SampledPurchase u limit steps i b s := by
  have hr : r.HasUnit u := ⟨hunit, by linarith, hsmall⟩
  refine ⟨fun b wall hpolicy hquiet hwall => ?_, fun hlimit h => ⟨?_, ?_, ?_, ?_⟩⟩
  · rw [← hr.pollPeriod_eq] at hwall
    rcases Bench.settle_realTime_of_some hpolicy hwall hquiet with ⟨next, hnext, hlast, -⟩
    exact ⟨next, hnext, hlast⟩
  · intro k next hnext
    rw [h.wall_eq hr hlimit hnext, slept]
    push_cast
    rfl
  · intro k next hfirst
    have hmillis := millisFrom_eq (h.wall_eq hr hlimit hfirst.begins)
    have hbeyond := hfirst.beyond
    rcases k with _ | j
    · rw [hmillis, slept, Nat.zero_mul, Nat.cast_zero] at hbeyond
      exact absurd hbeyond hr.pos.not_gt
    · have hserves := (h.isFirstBeyond_iff hr hlimit hfirst.begins).mp hfirst
      refine ⟨?_, hbeyond, ?_⟩
      · rw [(h.step hr hlimit hfirst.begins).2, servedNext, if_pos hserves]
      · rw [hmillis, slept_succ, Nat.cast_add]
        exact add_le_add_left (not_lt.mp hserves.2) _
  · intro k next hk hnext hnot
    obtain ⟨j, rfl⟩ : ∃ j, k = j + 1 := ⟨k - 1, by omega⟩
    rw [h.isFirstBeyond_iff hr hlimit hnext] at hnot
    rw [(h.step hr hlimit hnext).2, servedNext, if_neg hnot]
  · rcases exists_slept hfour with ⟨j, hserves⟩
    refine ⟨j + 1, Nat.succ_pos j, fun last hsteps hlast => ?_⟩
    rcases h.exists_step hr hlimit hsteps hlast with ⟨next, hnext⟩
    exact ⟨next, (h.isFirstBeyond_iff hr hlimit hnext).mpr hserves⟩

end

/-- A coin at the counter, where a time unit lasts four and a half milliseconds. -/
def atCounter : Bench Passive FishRetailer where
  inbox := { Inbox.empty with lines := [⟨"coin"⟩] }
  hasOutput := false
  policy := .realTime ⟨4.5⟩
  phase := .running
  virtualTime := .epoch
  wall := .epoch
  wake := .asleep
  environment := {}
  system := system.initial ⟨.epoch⟩
  written := []
  journal := .empty none

theorem number_halves : number? 4.5 = some (9 / 2) := by
  have hunpack : (4.5 : Float).toModel.unpack
      = .finite .positive (9 * 2 ^ 49) (-50) (by decide) := by
    rfl
  simp only [number?, hunpack, Float.Model.UnpackedFloat.Sign.apply]
  norm_num

/-- The clock is looked at every millisecond, and the fifth look is the first beyond the unit. -/
theorem purchase_is_sampled_atCounter :
    number? 4.5 = some (9 / 2) ∧ LastCoin ⟨4.5⟩ 3 6 0 atCounter atCounter ∧
      SampledPurchase (9 / 2) 3 6 0 atCounter atCounter := by
  have hcoin : LastCoin ⟨4.5⟩ 3 6 0 atCounter atCounter :=
    ⟨rfl, rfl, by decide +kernel, ⟨_, _, rfl, by decide +kernel⟩, by decide +kernel,
      by decide +kernel, fun _ _ => rfl⟩
  exact ⟨number_halves, hcoin,
    (purchase_is_sampled number_halves (by norm_num) (by norm_num)).2 (le_refl 3) hcoin⟩

end FishRetailer

end Testbench
