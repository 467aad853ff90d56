import Testbench.Proofs.Course
import Testbench.Proofs.Scripts

/-!
# Inputs Keep Their Order

What a system under test gets to read in simulated time. Directives and inputs come in
over the same channel, in whatever order, and the system reads from the front of what is
held. A single directive left there would be read as an input.

It never is, because a search for a directive takes out all of them, and not only the one
that it uses. So no directive is held when a window opens. None is held before the next
report either, provided that the environment waits for that report before it asks for
more time, and the system reads only while a window is open. All other lines are left
where they are by every search, so what has been read and what is still held are the
inputs in order of arrival.

## Main definitions

* `arrivedIn`, `consumedIn`: The lines accepted and the lines consumed along a course.
* `IsPatient`: No directive arrives while a window is open.

## Theorems

* `Leads.inOrder`: What was read and is held along a course.
* `Bench.inputs_keep_their_order`: The same at every point of a run.
-/

namespace Testbench

namespace Happening

def arrival? : Happening → Option Line
  | .arrived line => some line
  | _ => none

def consumption? : Happening → Option Line
  | .consumed line => some line
  | _ => none

/-- A directive arrives while a window is open. -/
def isUntimely (isOpen : Bool) : Happening → Bool
  | .arrived line => isOpen && line.isDirective
  | _ => false

end Happening

/-- The lines that are no directives. -/
def plain (lines : List Line) : List Line := lines.filter fun line => !line.isDirective

/-- No directive is held. -/
def Scene.IsClean (v : Scene) : Prop := ∀ line ∈ v.lines, line.isDirective = false

variable {ε σ : Type}

def arrivedIn (c : Course ε σ) : List Line := c.filterMap fun p => p.happening.arrival?

def consumedIn (c : Course ε σ) : List Line := c.filterMap fun p => p.happening.consumption?

/-- The environment asks for more time only after the report of the last window. -/
def IsPatient : Bool → Course ε σ → Prop
  | _, [] => True
  | isOpen, p :: rest =>
    p.happening.isUntimely isOpen = false ∧ IsPatient (p.happening.window isOpen) rest

instance decidableIsPatient : (isOpen : Bool) → (c : Course ε σ) → Decidable (IsPatient isOpen c)
  | _, [] => isTrue trivial
  | isOpen, p :: rest =>
    have := decidableIsPatient (p.happening.window isOpen) rest
    inferInstanceAs (Decidable (_ ∧ _))

/-! ### What a happening does to the order -/

theorem plain_append (lines more : List Line) : plain (lines ++ more) = plain lines ++ plain more :=
  List.filter_append _ _

theorem plain_plain (lines : List Line) : plain (plain lines) = plain lines := by
  unfold plain
  rw [List.filter_filter]
  exact List.filter_congr fun line _ => Bool.and_self _

theorem filterMap_cons_toList {α β : Type} (f : α → Option β) (a : α) (rest : List α) :
    (a :: rest).filterMap f = (f a).toList ++ rest.filterMap f := by
  rw [List.filterMap_cons]
  cases f a with
  | none => rfl
  | some b => rfl

namespace Happening

variable {happening : Happening} {isOpen : Bool} {v next : Scene}

/-- No directive is held while a window is open. -/
theorem Fits.isClean (h : happening.Fits isOpen v next)
    (htimely : happening.isUntimely isOpen = false) (hclean : isOpen = true → v.IsClean)
    (hopen : happening.window isOpen = true) : next.IsClean := by
  cases happening with
  | arrived line =>
    rcases h with rfl
    have hplain : line.isDirective = false := by
      rw [isUntimely, show isOpen = true from hopen, Bool.true_and] at htimely
      exact htimely
    intro other hother
    rcases List.mem_append.mp hother with hold | hnew
    · exact hclean hopen other hold
    · rw [List.mem_singleton.mp hnew]
      exact hplain
  | turnedAway line | closed | elapsed duration | wrote text =>
    rcases h with rfl
    exact hclean hopen
  | consumed line =>
    rcases h with ⟨-, rfl⟩
    exact fun other hother => hclean hopen other (List.mem_cons_of_mem line hother)
  | swept directives =>
    rcases h with ⟨hshut, -⟩
    exact absurd (hshut.symm.trans hopen) Bool.false_ne_true
  | opened delay =>
    rcases h with ⟨-, hnone, s, limit, -, -, rfl⟩
    exact hnone
  | refused delay =>
    rcases h with ⟨hshut, -⟩
    exact absurd (hshut.symm.trans hopen) Bool.false_ne_true
  | ticked =>
    rcases h with ⟨-, s, later, -, -, rfl⟩
    exact hclean hopen
  | reported delayed => exact absurd hopen Bool.false_ne_true

/-- What is consumed was held first, and is no directive. -/
theorem Fits.inOrder (h : happening.Fits isOpen v next) (hclean : isOpen = true → v.IsClean) :
    (∀ line ∈ happening.consumption?, line.isDirective = false) ∧
      happening.consumption?.toList ++ plain next.lines
        = plain (v.lines ++ happening.arrival?.toList) := by
  have hnothing : ∀ line ∈ (none : Option Line), line.isDirective = false :=
    fun _ hline => absurd hline (Option.not_mem_none _)
  cases happening with
  | arrived line =>
    rcases h with rfl
    exact ⟨hnothing, rfl⟩
  | turnedAway line | closed | elapsed duration | wrote text =>
    rcases h with rfl
    exact ⟨hnothing, congrArg plain (List.append_nil _).symm⟩
  | consumed line =>
    rcases h with ⟨hopen, rfl⟩
    have hplain : line.isDirective = false := hclean hopen line List.mem_cons_self
    refine ⟨fun other hother => ?_, ?_⟩
    · rw [← Option.mem_some.mp hother]
      exact hplain
    · have hkept : plain (line :: next.lines) = line :: plain next.lines :=
        List.filter_cons_of_pos (by rw [hplain, Bool.not_false])
      simp only [arrival?, consumption?, Option.toList, List.append_nil, hkept,
        List.singleton_append]
  | swept directives =>
    rcases h with ⟨-, -, rfl⟩
    exact ⟨hnothing, (plain_plain v.lines).trans (congrArg plain (List.append_nil _).symm)⟩
  | opened delay =>
    rcases h with ⟨-, -, s, limit, -, -, rfl⟩
    exact ⟨hnothing, congrArg plain (List.append_nil _).symm⟩
  | refused delay =>
    rcases h with ⟨-, s, -, -, rfl⟩
    exact ⟨hnothing, congrArg plain (List.append_nil _).symm⟩
  | ticked =>
    rcases h with ⟨-, s, later, -, -, rfl⟩
    exact ⟨hnothing, congrArg plain (List.append_nil _).symm⟩
  | reported delayed =>
    rcases h with ⟨-, rfl, -⟩
    exact ⟨hnothing, congrArg plain (List.append_nil _).symm⟩

end Happening

/-! ### The order along a course -/

theorem Leads.inOrder {isOpen isOpen' : Bool} {v next : Scene} {c : Course ε σ}
    (h : Leads isOpen v c isOpen' next) (hpatient : IsPatient isOpen c)
    (hclean : isOpen = true → v.IsClean) :
    (∀ line ∈ consumedIn c, line.isDirective = false) ∧
      consumedIn c ++ plain next.lines = plain (v.lines ++ arrivedIn c) := by
  induction h with
  | @nil _ v =>
    exact ⟨fun _ hline => absurd hline List.not_mem_nil, congrArg plain (List.append_nil _).symm⟩
  | @cons isOpen _ v last p rest hfits _ ih =>
    rcases hpatient with ⟨htimely, hpatient⟩
    rcases hfits.inOrder hclean with ⟨hfirst, horder⟩
    rcases ih hpatient (hfits.isClean htimely hclean) with ⟨hlater, hrest⟩
    have hconsumed : consumedIn (p :: rest) = p.happening.consumption?.toList ++ consumedIn rest :=
      filterMap_cons_toList _ _ _
    have harrived : arrivedIn (p :: rest) = p.happening.arrival?.toList ++ arrivedIn rest :=
      filterMap_cons_toList _ _ _
    refine ⟨?_, ?_⟩
    · intro line hline
      rw [hconsumed] at hline
      rcases List.mem_append.mp hline with hnow | hthen
      · exact hfirst line (Option.mem_toList.mp hnow)
      · exact hlater line hthen
    · calc consumedIn (p :: rest) ++ plain last.lines
          = p.happening.consumption?.toList ++ (consumedIn rest ++ plain last.lines) := by
            rw [hconsumed, List.append_assoc]
        _ = (p.happening.consumption?.toList ++ plain p.bench.scene.lines) ++
              plain (arrivedIn rest) := by
            rw [hrest, plain_append, List.append_assoc]
        _ = plain (v.lines ++ arrivedIn (p :: rest)) := by
            rw [horder, ← plain_append, harrived, List.append_assoc]

namespace Bench

variable [Environment ε]

/-- At every point of every run in simulated time, as long as the environment is patient:
    no line that the system under test has read is a directive, and what it has read,
    followed by the lines held that are no directives, is what was held at first and has
    arrived since then, without the directives, in order of arrival. The last point of the
    course has the lines that the run leaves. -/
theorem inputs_keep_their_order (system : System σ) (limit steps : Nat) {b : Bench ε σ}
    {s : SimulatedTime} (hpolicy : b.policy = .simulated s) {past : Course ε σ}
    (hpast : past <+: runCourse system limit steps b) (hpatient : IsPatient false past) :
    (∀ line ∈ consumedIn past, line.isDirective = false) ∧
    consumedIn past ++ plain (lastOf b past).inbox.lines
      = plain (b.inbox.lines ++ arrivedIn past) ∧
    (lastOf b (runCourse system limit steps b)).inbox.lines
      = (run system.updateOn limit steps b).2.inbox.lines := by
  rcases leads_runCourse system limit steps hpolicy with ⟨final, hrun⟩
  have hend := congrArg Scene.lines (hrun.last rfl)
  rcases hpast with ⟨rest, hrest⟩
  rw [← hrest] at hrun
  rcases hrun.upTo with ⟨between, hleads⟩
  rcases hleads.inOrder hpatient (fun hopen => absurd hopen Bool.false_ne_true) with
    ⟨hplain, horder⟩
  exact ⟨hplain, horder, hend.symm⟩

/-- Two directives at once, and later one before an input. -/
def crowded : Bench (Scripted Recorder) Echo :=
  { echoing with environment := ⟨.empty, some [[⟨"coin"⟩, ⟨"Delay: 0"⟩, ⟨"Delay: x"⟩, ⟨"open"⟩],
      [⟨"Delay: 1"⟩, ⟨"close"⟩]], reportMark, [], []⟩ }

theorem inputs_keep_their_order_crowded :
    consumedIn (runCourse Echo.system 9 9 crowded.fed) = [⟨"coin"⟩, ⟨"open"⟩, ⟨"close"⟩] := by
  have hpatient : IsPatient false (runCourse Echo.system 9 9 crowded.fed) := by decide +kernel
  have hleft : (run Echo.system.updateOn 9 9 crowded.fed).2.inbox.lines = [] := by decide +kernel
  have harrived : plain (crowded.fed.inbox.lines ++
      arrivedIn (runCourse Echo.system 9 9 crowded.fed)) = [⟨"coin"⟩, ⟨"open"⟩, ⟨"close"⟩] := by
    decide +kernel
  rcases inputs_keep_their_order Echo.system 9 9 (b := crowded.fed) rfl (List.prefix_refl _)
    hpatient with ⟨-, horder, hend⟩
  rw [hend, hleft, harrived] at horder
  exact (List.append_nil _).symm.trans horder

end Bench

end Testbench
