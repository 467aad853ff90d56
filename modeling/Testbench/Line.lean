import Testbench.Text.Quoted
import Testbench.Time

/-!
# Lines

A line of text exchanged with the test environment, without its terminator. Most
lines are event symbols. When time is simulated, a line may instead grant a span
of virtual time.

Any line that starts with the directive's mark is meant as a directive. Whether
it is a well-formed one is a second question: a malformed directive has to be
reported as such, and must not be handed to the system under test as though it
were a symbol.

A well-formed directive is the mark, one space, and a decimal number of
milliseconds that fits in 64 bits. Leading zeros are allowed; digits other than
the ten ASCII ones are not.

## Main definitions

* `Line`: A line of text.
* `Line.isDirective`: The line is meant as a delay directive.
* `Line.delay?`: The delay that a well-formed directive grants.
* `Line.grant`: The directive granting a number of milliseconds.

## Theorems

* `Line.delay?_eq_some_iff`: Which lines grant which delays.
* `Line.isDirective_of_delay?`: Only directives grant a delay.
* `Line.delay?_grant`: Every delay in range can be granted.
-/

namespace Testbench

structure Line where
  text : String
  deriving DecidableEq, Hashable, Inhabited

namespace Line

def directiveMark : List Char := "Delay:".toList

def grantMark : List Char := "Delay: ".toList

def isDirective (line : Line) : Bool := directiveMark.isPrefixOf line.text.toList

/-- Delays are counted in milliseconds by a 64-bit number. -/
def delayBound : Nat := 18446744073709551616

def delay? (line : Line) : Option Duration :=
  match grantMark.isPrefixOf? line.text.toList with
  | none => none
  | some digits =>
    if digits ≠ [] ∧ digits.all Char.isDigit ∧ Nat.ofDigitChars 10 digits 0 < delayBound then
      some (Duration.ofMillis (Nat.ofDigitChars 10 digits 0))
    else none

def grant (millis : Nat) : Line := ⟨String.ofList (grantMark ++ Nat.toDigits 10 millis)⟩

instance : Inspect Line := ⟨fun line => Inspect.wrapped "Line" (inspect line.text)⟩

theorem isPrefixOf?_eq_some {α : Type} [BEq α] [LawfulBEq α] {front whole rest : List α} :
    front.isPrefixOf? whole = some rest ↔ whole = front ++ rest := by
  induction front generalizing whole with
  | nil => exact Option.some_inj
  | cons a front ih =>
    cases whole with
    | nil =>
      change (none : Option (List α)) = some rest ↔ _
      simp only [reduceCtorEq, List.cons_append]
    | cons b whole =>
      change (if a == b then front.isPrefixOf? whole else none) = some rest ↔ _
      by_cases hab : a = b
      · subst hab
        simp only [beq_self_eq_true, if_true, ih, List.cons_append, List.cons.injEq, true_and]
      · simp only [beq_iff_eq, hab, if_false, List.cons_append, reduceCtorEq, List.cons.injEq,
          Ne.symm hab, false_and]

theorem delay?_eq_some_iff {line : Line} {d : Duration} :
    line.delay? = some d ↔
      ∃ digits, line.text.toList = grantMark ++ digits ∧ digits ≠ [] ∧
        digits.all Char.isDigit = true ∧ Nat.ofDigitChars 10 digits 0 < delayBound ∧
        d = Duration.ofMillis (Nat.ofDigitChars 10 digits 0) := by
  rw [delay?]
  constructor
  · intro h
    split at h
    · exact absurd h (by simp only [reduceCtorEq, not_false_eq_true])
    · next digits hdigits =>
      split at h
      · next hform =>
        exact ⟨digits, isPrefixOf?_eq_some.mp hdigits, hform.1, hform.2.1, hform.2.2,
          (Option.some.inj h).symm⟩
      · exact absurd h (by simp only [reduceCtorEq, not_false_eq_true])
  · rintro ⟨digits, htext, hne, hall, hlt, rfl⟩
    rw [isPrefixOf?_eq_some.mpr htext]
    simp only []
    rw [if_pos ⟨hne, hall, hlt⟩]

theorem isDirective_of_delay? {line : Line} {d : Duration} (h : line.delay? = some d) :
    line.isDirective = true := by
  rcases delay?_eq_some_iff.mp h with ⟨digits, htext, -⟩
  rw [isDirective, htext, List.isPrefixOf_iff_prefix]
  exact ⟨' ' :: digits, rfl⟩

theorem delay?_grant {millis : Nat} (h : millis < delayBound) :
    (grant millis).delay? = some (Duration.ofMillis millis) := by
  have hvalue : Nat.ofDigitChars 10 (Nat.toDigits 10 millis) 0 = millis :=
    Nat.ofDigitChars_toDigits (by decide) (by decide)
  rw [delay?_eq_some_iff]
  refine ⟨Nat.toDigits 10 millis, String.toList_ofList, Nat.toDigits_ne_nil, ?_, ?_, ?_⟩
  · rw [List.all_eq_true]
    exact fun c hc => Nat.isDigit_of_mem_toDigits (by decide) (by decide) hc
  · rw [hvalue]
    exact h
  · rw [hvalue]

end Line

end Testbench
