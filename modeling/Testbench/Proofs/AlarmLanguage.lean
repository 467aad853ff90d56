import Mathlib.Computability.Language
import Testbench.Proofs.AlarmEdges

/-!
# The Output Language of the Car Alarm

What can be heard and seen of a car alarm is its outputs. They come in cycles: the alarm is
armed, and then it is either disarmed, or it goes off and runs through sound and flash. The
sound is switched off once or twice, since the alarm may be unlocked after the sound has
gone off by itself and switches it off again then.

Each location remembers what of the present cycle has been written. Only where the alarm is
about to stop two ways lead to it. An edge writes on at this phrase, or completes the cycle
with it, and the table of edges is all that has to be checked. A failing channel breaks off
somewhere in the outputs of an edge, so what has been written is a prefix at any time.

## Main definitions

* `CarAlarm.cycle`: The words of one cycle.
* `CarAlarm.pending`: What may have been written of the present cycle.
* `CarAlarm.Tells`: What has been written, with the location.
* `CarAlarm.lastAmong`: The symbol of some kind written last.

## Theorems

* `CarAlarm.Tells.edge`: An edge writes on.
* `CarAlarm.Tells.isPrefix`: What has been written is a prefix of a word.
* `CarAlarm.Tells.armed_iff`, `CarAlarm.Tells.flash_iff`: What was switched on.
* `CarAlarm.outputs_form_cycles`: The outputs along every run.
-/

namespace Testbench

namespace CarAlarm

open Computability Location

/-! ### Words -/

def cycle : Language String :=
  {["armedOn"]} * ({["armedOff"]} +
    {["armedOff", "flashOn", "soundOn", "soundOff", "flashOff"]} +
    {["armedOff", "flashOn", "soundOn", "soundOff", "soundOff", "flashOff"]})

/-- The words of one cycle, one by one. -/
def cycles : List (List String) :=
  [["armedOn", "armedOff"],
    ["armedOn", "armedOff", "flashOn", "soundOn", "soundOff", "flashOff"],
    ["armedOn", "armedOff", "flashOn", "soundOn", "soundOff", "soundOff", "flashOff"]]

def pending : Location → List (List String)
  | openUnlocked | closedUnlocked | openLocked | arming | silent | rearming => [[]]
  | armed | disarming | triggered => [["armedOn"]]
  | sounding => [["armedOn", "armedOff", "flashOn", "soundOn"]]
  | flashing => [["armedOn", "armedOff", "flashOn", "soundOn", "soundOff"]]
  | stopping => [["armedOn", "armedOff", "flashOn", "soundOn"],
      ["armedOn", "armedOff", "flashOn", "soundOn", "soundOff"]]

/-- The one of the given symbols that was written last. -/
def lastAmong (symbols out : List String) : Option String :=
  (out.filter symbols.contains).getLast?

def armedSymbols : List String := ["armedOn", "armedOff"]

def flashSymbols : List String := ["flashOn", "flashOff"]

/-- Whole cycles have been written, and what the location remembers of another one. -/
def Tells (out : List String) (location : Location) : Prop :=
  ∃ (words : List (List String)) (phrase : List String), (∀ word ∈ words, word ∈ cycles) ∧
    phrase ∈ pending location ∧ out = words.flatten ++ phrase

theorem mem_cycle {word : List String} (h : word ∈ cycles) : word ∈ cycle := by
  have hfirst : ["armedOn"] ∈ ({["armedOn"]} : Language String) := rfl
  rcases List.mem_cons.mp h with rfl | h
  · exact Language.append_mem_mul hfirst (Or.inl (Or.inl rfl))
  rcases List.mem_cons.mp h with rfl | h
  · exact Language.append_mem_mul hfirst (Or.inl (Or.inr rfl))
  rw [List.mem_singleton.mp h]
  exact Language.append_mem_mul hfirst (Or.inr rfl)

theorem flatten_mem_kstar {words : List (List String)} (h : ∀ word ∈ words, word ∈ cycles) :
    words.flatten ∈ cycle∗ :=
  Language.mem_kstar.mpr ⟨words, rfl, fun word hword => mem_cycle (h word hword)⟩

/-! ### The table against the words -/

theorem pending_edge (location : Location) : ∀ e ∈ edges location, ∀ phrase ∈ pending location,
    phrase ++ e.outputs ∈ pending e.target ∨
      phrase ++ e.outputs ∈ cycles ∧ [] ∈ pending e.target := by
  cases location <;> decide

theorem pending_cycle (location : Location) : ∀ phrase ∈ pending location,
    ∃ word ∈ cycles, phrase <+: word := by
  cases location <;> decide

theorem lastAmong_cycles : ∀ word ∈ cycles, lastAmong armedSymbols word ≠ some "armedOn" ∧
    lastAmong flashSymbols word ≠ some "flashOn" := by
  decide

/-- What the location remembers tells what is switched on. -/
theorem lastAmong_pending (location : Location) : ∀ phrase ∈ pending location,
    (lastAmong armedSymbols phrase = some "armedOn"
      ↔ location ∈ [armed, disarming, triggered]) ∧
    (lastAmong flashSymbols phrase = some "flashOn"
      ↔ location ∈ [sounding, stopping, flashing]) := by
  cases location <;> decide

/-! ### Symbols written last -/

theorem lastAmong_append (symbols out more : List String) :
    lastAmong symbols (out ++ more) = (lastAmong symbols more).or (lastAmong symbols out) := by
  rw [lastAmong, List.filter_append, List.getLast?_append]
  rfl

theorem lastAmong_flatten {symbols : List String} {symbol : String} {words : List (List String)}
    (h : ∀ word ∈ words, lastAmong symbols word ≠ some symbol) :
    lastAmong symbols words.flatten ≠ some symbol := by
  induction words with
  | nil => exact nofun
  | cons word rest ih =>
    rw [List.flatten_cons, lastAmong_append]
    intro hor
    rcases Option.or_eq_some_iff.mp hor with hlater | ⟨-, hfirst⟩
    · exact ih (fun other hother => h other (List.mem_cons_of_mem word hother)) hlater
    · exact h word List.mem_cons_self hfirst

/-- What whole cycles leave switched off is told by what follows them. -/
theorem lastAmong_after {symbols phrase : List String} {symbol : String}
    {words : List (List String)} (h : ∀ word ∈ words, lastAmong symbols word ≠ some symbol) :
    lastAmong symbols (words.flatten ++ phrase) = some symbol
      ↔ lastAmong symbols phrase = some symbol := by
  rw [lastAmong_append, Option.or_eq_some_iff]
  constructor
  · rintro (hphrase | ⟨-, hwords⟩)
    · exact hphrase
    · exact absurd hwords (lastAmong_flatten h)
  · exact .inl

/-! ### What the alarm tells -/

namespace Tells

variable {out : List String} {location : Location}

theorem atFirst : Tells [] openUnlocked := ⟨[], [], nofun, List.mem_cons_self, rfl⟩

/-- An edge writes on. -/
theorem edge (h : Tells out location) {e : Edge} (he : e ∈ edges location) :
    Tells (out ++ e.outputs) e.target := by
  rcases h with ⟨words, phrase, hwords, hphrase, rfl⟩
  rw [List.append_assoc]
  rcases pending_edge location e he phrase hphrase with hgoes | ⟨hdone, hnext⟩
  · exact ⟨words, _, hwords, hgoes, rfl⟩
  · refine ⟨words ++ [phrase ++ e.outputs], [], ?_, hnext, ?_⟩
    · intro word hword
      rcases List.mem_append.mp hword with hold | hnew
      · exact hwords word hold
      · rw [List.mem_singleton.mp hnew]
        exact hdone
    · rw [List.flatten_append, List.flatten_singleton, List.append_nil]

/-- What has been written is a prefix of a word. -/
theorem isPrefix (h : Tells out location) : ∃ word ∈ cycle∗, out <+: word := by
  rcases h with ⟨words, phrase, hwords, hphrase, rfl⟩
  rcases pending_cycle location phrase hphrase with ⟨word, hword, hpart⟩
  refine ⟨(words ++ [word]).flatten, flatten_mem_kstar ?_, ?_⟩
  · intro other hother
    rcases List.mem_append.mp hother with hold | hnew
    · exact hwords other hold
    · rw [List.mem_singleton.mp hnew]
      exact hword
  · rw [List.flatten_append, List.flatten_singleton]
    exact List.prefix_append_right_inj _ |>.mpr hpart

/-- So it is also if the last outputs are incomplete. -/
theorem breaksOff {a : CarAlarm} {d : List Answered} (h : Tells out a.location)
    (hbreaks : a.BreaksOff d) : ∃ word ∈ cycle∗, out ++ said d <+: word := by
  rcases hbreaks with hnone | ⟨e, he, hpart⟩
  · rw [hnone, List.append_nil]
    exact h.isPrefix
  · rcases (h.edge he).isPrefix with ⟨word, hword, hprefix⟩
    exact ⟨word, hword, (List.prefix_append_right_inj _ |>.mpr hpart).trans hprefix⟩

theorem armed_iff (h : Tells out location) :
    lastAmong armedSymbols out = some "armedOn" ↔ location ∈ [armed, disarming, triggered] := by
  rcases h with ⟨words, phrase, hwords, hphrase, rfl⟩
  rw [lastAmong_after fun word hword => (lastAmong_cycles word (hwords word hword)).1]
  exact (lastAmong_pending location phrase hphrase).1

theorem flash_iff (h : Tells out location) :
    lastAmong flashSymbols out = some "flashOn" ↔ location ∈ [sounding, stopping, flashing] := by
  rcases h with ⟨words, phrase, hwords, hphrase, rfl⟩
  rw [lastAmong_after fun word hword => (lastAmong_cycles word (hwords word hword)).2]
  exact (lastAmong_pending location phrase hphrase).2

end Tells

/-! ### Along a run -/

variable {ε : Type} [Environment ε]

/-- What has been written before a stretch of a run goes on through it. -/
theorem Tells.stretch {out : List String} {t : Stretch ε CarAlarm}
    (h : Tells out t.bench.system.location) :
    (∃ word ∈ cycle∗, out ++ wroteIn (t.course system) <+: word) ∧
      ((t.outcome system).1 = none →
        Tells (out ++ wroteIn (t.course system)) (t.outcome system).2.system.location) := by
  by_cases hstage : t.stage = .update
  · rcases t with ⟨stage, b⟩
    rcases hstage with rfl
    rcases system.ensures_updateOn (ensures_update b.system) with ⟨result, hmoves, hresult⟩
    have hwrote : wroteIn (Bench.updateCourse system b) = said (system.dialogueOn b) :=
      system.wroteIn_update b
    change (∃ word ∈ cycle∗, out ++ wroteIn (Bench.updateCourse system b) <+: word) ∧
      (haltOf (system.updateOn b).1 = none →
        Tells (out ++ wroteIn (Bench.updateCourse system b))
          (system.updateOn b).2.system.location)
    rw [hwrote]
    rcases result with cause | _ | _
    -- No stretch follows, so only what was written until the failure counts.
    · rcases hmoves with ⟨-, hbreaks⟩
      refine ⟨h.breaksOff hbreaks, fun hgoes => ?_⟩
      rw [hresult] at hgoes
      exact absurd hgoes nofun
    · rcases hmoves with ⟨e, he, htarget, htaken⟩
      have hnext := h.edge he
      rw [← htaken.said, ← htarget] at hnext
      exact ⟨hnext.isPrefix, fun _ => hnext⟩
    · rcases hmoves with ⟨hlocation, -, hsaid⟩
      rw [hsaid, List.append_nil, hlocation]
      exact ⟨h.isPrefix, fun _ => h⟩
  · have hnone : wroteIn (t.course system) = [] :=
      wroteIn_eq_nil fun p hp => t.actor_ne_system hstage hp
    rw [hnone, List.append_nil, t.system_eq hstage]
    exact ⟨h.isPrefix, fun _ => h⟩

theorem tells_stretches {limit steps : Nat} {b : Bench ε CarAlarm} {x : Anchor}
    (hinitial : b.system = system.initial x) {before after : List (Stretch ε CarAlarm)}
    {t : Stretch ε CarAlarm} (h : Bench.stages system limit steps b = before ++ t :: after) :
    Tells (wroteIn (before.flatMap (Stretch.course system))) t.bench.system.location := by
  rcases Bench.follows_run system limit steps b with ⟨halt, hfollows, -⟩
  rw [h] at hfollows
  refine hfollows.invariant (P := fun past b => Tells (wroteIn past) b.system.location) []
    (fun htells hlike => ?_) (fun _ htells hgoes => ?_) ?_
  · rcases hlike with ⟨phase, journal, rfl⟩
    exact htells
  · rw [wroteIn_append]
    exact htells.stretch.2 hgoes
  · rw [hinitial]
    exact .atFirst

/-- The outputs of a car alarm along every run, whatever the policy, the environment and the
    channel do. At every point they are a prefix of a word of cycles. After every update
    that succeeds, the alarm was last switched to armed just where it is armed or about to
    leave that, and the flash was last switched on just where it is on. -/
theorem outputs_form_cycles (limit steps : Nat) {b : Bench ε CarAlarm} {x : Anchor}
    (hinitial : b.system = system.initial x) :
    (∀ past, past <+: Bench.runCourse system limit steps b →
      ∃ word ∈ cycle∗, wroteIn past <+: word) ∧
    ∀ before t after, Bench.stages system limit steps b = before ++ t :: after →
      t.stage = .update → (t.outcome system).1 = none →
      (lastAmong armedSymbols (wroteIn ((before ++ [t]).flatMap (Stretch.course system)))
          = some "armedOn"
        ↔ (t.outcome system).2.system.location ∈ [armed, disarming, triggered]) ∧
      (lastAmong flashSymbols (wroteIn ((before ++ [t]).flatMap (Stretch.course system)))
          = some "flashOn"
        ↔ (t.outcome system).2.system.location ∈ [sounding, stopping, flashing]) := by
  refine ⟨fun past hpast => ?_, fun before t after h _ hgoes => ?_⟩
  -- It is enough to look at the end of the run, even if its last stretch has failed.
  · have hsome : Bench.stages system limit steps b ≠ [] := List.cons_ne_nil _ _
    have hlast := (List.dropLast_append_getLast hsome).symm
    rcases (tells_stretches hinitial hlast).stretch.1 with ⟨word, hword, hprefix⟩
    rw [← wroteIn_append, ← List.flatMap_singleton (Stretch.course system),
      ← List.flatMap_append, ← hlast, ← Bench.runCourse_eq] at hprefix
    rcases hpast with ⟨rest, hrest⟩
    rw [← hrest, wroteIn_append] at hprefix
    exact ⟨word, hword, (List.prefix_append _ _).trans hprefix⟩
  · have htells := (tells_stretches hinitial h).stretch.2 hgoes
    rw [← wroteIn_append, ← List.flatMap_singleton (Stretch.course system),
      ← List.flatMap_append] at htells
    exact ⟨htells.armed_iff, htells.flash_iff⟩

/-- A car that is closed, locked and opened again after the alarm was armed. -/
def intrusion : Bench (Scripted Recorder) CarAlarm :=
  { Bench.echoing with
    system := system.initial ⟨.epoch⟩
    environment := ⟨.empty, some [[⟨"close"⟩, ⟨"lock"⟩, ⟨"Delay: 25"⟩],
      [⟨"open"⟩, ⟨"Delay: 1"⟩]], reportMark, [], []⟩ }

theorem outputs_form_cycles_intrusion :
    wroteIn (Bench.runCourse system 9 30 intrusion.fed)
        = ["armedOn", "armedOff", "flashOn", "soundOn"] ∧
      ∃ word ∈ cycle∗, wroteIn (Bench.runCourse system 9 30 intrusion.fed) <+: word := by
  have hwrote : wroteIn (Bench.runCourse system 9 30 intrusion.fed)
      = ["armedOn", "armedOff", "flashOn", "soundOn"] := by decide +kernel
  exact ⟨hwrote, (outputs_form_cycles 9 30 (b := intrusion.fed) (x := ⟨.epoch⟩) rfl).1 _
    (List.prefix_refl _)⟩

end CarAlarm

end Testbench
