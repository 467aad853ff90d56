import Mathlib.Algebra.Ring.Nat
import Testbench.Bench.Waiting

/-!
# Reading a Directive

A directive is read in two stages that know nothing of each other. A pattern asks for the
mark, one space, and then decimal digits up to the end of the text; its notion of a decimal
digit is that of some character table, which has more than the ten ASCII digits. A number
reader takes what the pattern has captured: it allows a sign, knows ASCII digits only, and
checks each multiplication and each addition against the bound.

What the two accept together is told by arithmetic. The value never decreases while digits
are read, so an intermediate result that does not fit means that the number does not fit,
and however many zeros lead the number, only its value counts. Of the table, two things are
used: the ASCII digits are decimal digits, and the sign is none.

## Main definitions

* `Line.captured?`: The pattern.
* `Line.readNumber?`: The number reader.
* `Line.delay`: The delay a directive grants, or the error it is reported as.

## Theorems

* `Line.readDigits_eq`: The checks on the way amount to one check at the end.
* `Line.delay_eq`: The two stages read the same delays as one look at the text.
* `Line.delay_is_exact`: Which lines grant which delays.
* `Bench.openWindow_eq`: How a bench reads the directive that decides.
-/

namespace Testbench

namespace Line

/-! ### The two stages -/

/-- What follows the mark and the space, if it consists of decimal digits. -/
def captured? (isDecimal : Char → Bool) (line : Line) : Option (List Char) :=
  (grantMark.isPrefixOf? line.text.toList).filter fun rest => !rest.isEmpty && rest.all isDecimal

def checked (n : Nat) : Option Nat := if n < delayBound then some n else none

def digit? (c : Char) : Option Nat := if c.isDigit then some (c.toNat - '0'.toNat) else none

/-- Reads on after digits of the given value. -/
def readDigits (value : Nat) : List Char → Option Nat
  | [] => some value
  | c :: rest => do
    let shifted ← checked (10 * value)
    let digit ← digit? c
    let next ← checked (shifted + digit)
    readDigits next rest

/-- A sign alone is no number. -/
def readNumber? : List Char → Option Nat
  | [] | ['+'] => none
  | '+' :: digits | digits => readDigits 0 digits

def delay (isDecimal : Char → Bool) (line : Line) : Except ExecutionError Duration :=
  match (line.captured? isDecimal).bind readNumber? with
  | some millis => .ok (.ofMillis millis)
  | none => .error (.malformedDelay line)

/-! ### What they accept together -/

theorem le_ofDigitChars (digits : List Char) (value : Nat) :
    value ≤ Nat.ofDigitChars 10 digits value := by
  induction digits generalizing value with
  | nil => exact Nat.le_refl value
  | cons c rest ih =>
    rw [Nat.ofDigitChars_cons]
    exact Nat.le_trans (by omega) (ih _)

/-- What has outgrown the bound does not come back under it. -/
theorem checked_ofDigitChars {value : Nat} (h : ¬value < delayBound) (digits : List Char) :
    checked (Nat.ofDigitChars 10 digits value) = none :=
  if_neg fun hlt => h (Nat.lt_of_le_of_lt (le_ofDigitChars digits value) hlt)

theorem readDigits_eq (digits : List Char) {value : Nat} (hvalue : value < delayBound) :
    readDigits value digits =
      if digits.all Char.isDigit then checked (Nat.ofDigitChars 10 digits value) else none := by
  induction digits generalizing value with
  | nil => exact (if_pos hvalue).symm
  | cons c rest ih =>
    rw [readDigits, List.all_cons, digit?, Nat.ofDigitChars_cons]
    cases hc : c.isDigit with
    | false => simp only [Bool.false_eq_true, if_false, Bool.false_and, Option.bind_eq_bind,
        Option.bind_none, Option.bind_fun_none]
    | true =>
      by_cases hshifted : 10 * value < delayBound
      · by_cases hnext : 10 * value + (c.toNat - '0'.toNat) < delayBound
        · simp only [checked, hshifted, hnext, if_true, Option.bind_eq_bind, Option.bind_some,
            ih hnext, Bool.true_and]
        · simp only [checked_ofDigitChars hnext, ite_self]
          simp only [checked, hshifted, hnext, if_true, if_false, Option.bind_eq_bind,
            Option.bind_some, Option.bind_none]
      · have hnext : ¬10 * value + (c.toNat - '0'.toNat) < delayBound := by omega
        simp only [checked_ofDigitChars hnext, ite_self]
        simp only [checked, hshifted, if_false, Option.bind_eq_bind, Option.bind_none]

theorem readNumber?_eq {digits : List Char} (hne : digits ≠ []) (hsign : '+' ∉ digits) :
    readNumber? digits =
      if digits.all Char.isDigit then checked (Nat.ofDigitChars 10 digits 0) else none := by
  have hread : readNumber? digits = readDigits 0 digits := by
    unfold readNumber?
    split
    · exact absurd rfl hne
    · exact absurd (List.mem_singleton_self _) hsign
    · exact absurd List.mem_cons_self hsign
    · rfl
  rw [hread, readDigits_eq digits (by decide)]

section Pattern

variable {isDecimal : Char → Bool}

/-- The pattern excludes signs, and the reader excludes the other decimal digits. -/
theorem delay_eq (hascii : ∀ c : Char, c.isDigit = true → isDecimal c = true)
    (hsign : isDecimal '+' = false) (line : Line) :
    line.delay isDecimal = line.delay?.elim (.error (.malformedDelay line)) .ok := by
  rw [delay, captured?, delay?]
  cases hrest : grantMark.isPrefixOf? line.text.toList with
  | none => rfl
  | some digits =>
    by_cases hne : digits = []
    · subst hne
      rfl
    have hempty : digits.isEmpty = false := List.isEmpty_eq_false_iff.mpr hne
    cases hall : digits.all isDecimal with
    | false =>
      have hdigits : ¬digits.all Char.isDigit = true := fun hdigits => by
        rw [List.all_eq_true] at hdigits
        rw [← Bool.not_eq_true, List.all_eq_true] at hall
        exact hall fun c hc => hascii c (hdigits c hc)
      simp only [Option.filter_some, hempty, hall, Bool.and_false, Bool.false_eq_true, if_false,
        Option.bind_none, hdigits, false_and, and_false, Option.elim_none]
    | true =>
      have hplus : '+' ∉ digits := fun hmem => by
        rw [List.all_eq_true] at hall
        exact absurd (hall _ hmem) (hsign ▸ Bool.false_ne_true)
      simp only [Option.filter_some, hempty, hall, Bool.not_false, Bool.and_true, if_true,
        Option.bind_some, readNumber?_eq hne hplus, hne, ne_eq, not_false_eq_true, true_and]
      by_cases hdigits : digits.all Char.isDigit = true
      · by_cases hlt : Nat.ofDigitChars 10 digits 0 < delayBound
        · simp only [hdigits, hlt, checked, if_true, and_self, Option.elim_some]
        · simp only [hdigits, hlt, checked, if_true, if_false, and_false, Option.elim_none]
      · simp only [hdigits, Bool.false_eq_true, if_false, false_and, Option.elim_none]

theorem delay_eq_ok_iff (hascii : ∀ c : Char, c.isDigit = true → isDecimal c = true)
    (hsign : isDecimal '+' = false) {line : Line} {d : Duration} :
    line.delay isDecimal = .ok d ↔ line.delay? = some d := by
  rw [delay_eq hascii hsign]
  cases line.delay? with
  | none => simp only [Option.elim_none, reduceCtorEq]
  | some delay => simp only [Option.elim_some, Except.ok.injEq, Option.some.injEq]

theorem text_eq_iff {line : Line} {digits : List Char} :
    line.text = "Delay: " ++ String.ofList digits ↔ line.text.toList = grantMark ++ digits := by
  have hdigits : (String.ofList digits).toList = digits := String.toList_ofList
  rw [← String.toList_inj, String.toList_append, hdigits]
  rfl

/-- A line grants a delay just if it consists of the mark, one space and ASCII digits, at least
    one of them, whose value fits in 64 bits. The delay is that many milliseconds. Any other line
    is reported as it is. So only directives grant a delay, every number in range can be granted
    by its decimal digits, and a bench reads directives no differently. -/
theorem delay_is_exact (hascii : ∀ c : Char, c.isDigit = true → isDecimal c = true)
    (hsign : isDecimal '+' = false) (line : Line) :
    (∀ d, line.delay isDecimal = .ok d ↔
      ∃ digits : String, line.text = "Delay: " ++ digits ∧ digits ≠ "" ∧
        (∀ c ∈ digits.toList, c.isDigit = true) ∧
        Nat.ofDigitChars 10 digits.toList 0 ≤ 2 ^ 64 - 1 ∧
        d = .ofMillis (Nat.ofDigitChars 10 digits.toList 0)) ∧
    ((∀ d, line.delay isDecimal ≠ .ok d) → line.delay isDecimal = .error (.malformedDelay line)) ∧
    (∀ d, line.delay isDecimal = .ok d → line.isDirective = true) ∧
    (∀ n < 2 ^ 64, (Line.mk ("Delay: " ++ n.repr)).delay isDecimal = .ok (.ofMillis n)) ∧
    line.delay isDecimal = line.delay?.elim (.error (.malformedDelay line)) .ok := by
  refine ⟨fun d => ?_, fun hnone => ?_, fun d hok => ?_, fun n hn => ?_,
    delay_eq hascii hsign line⟩
  · rw [delay_eq_ok_iff hascii hsign, delay?_eq_some_iff]
    constructor
    · rintro ⟨digits, htext, hne, hall, hlt, rfl⟩
      refine ⟨String.ofList digits, text_eq_iff.mpr htext, fun hempty => ?_, ?_⟩
      · exact hne (String.ofList_eq_empty_iff.mp hempty)
      · rw [String.toList_ofList]
        exact ⟨List.all_eq_true.mp hall, Nat.le_sub_one_of_lt hlt, rfl⟩
    · rintro ⟨digits, htext, hne, hall, hle, rfl⟩
      rw [← String.ofList_toList (s := digits)] at htext
      refine ⟨digits.toList, text_eq_iff.mp htext, fun hempty => ?_, List.all_eq_true.mpr hall,
        Nat.lt_of_le_sub_one (by decide) hle, rfl⟩
      exact hne (String.toList_eq_nil_iff.mp hempty)
  · rw [delay_eq hascii hsign] at hnone ⊢
    cases hdelay : line.delay? with
    | none => rfl
    | some d => exact absurd (by rw [hdelay]; rfl) (hnone d)
  · exact isDirective_of_delay? ((delay_eq_ok_iff hascii hsign).mp hok)
  · rw [delay_eq_ok_iff hascii hsign]
    have hgrant : Line.mk ("Delay: " ++ n.repr) = grant n := by
      rw [grant, Nat.repr_eq_ofList_toDigits, String.ofList_append]
      rfl
    rw [hgrant]
    exact delay?_grant hn

end Pattern

/-- The decimal digits of ASCII and two more of the many ranges. -/
def isSomeDecimal (c : Char) : Bool :=
  c.isDigit || ('\u0660' ≤ c && c ≤ '\u0669') || ('\uFF10' ≤ c && c ≤ '\uFF19')

/-- Malformed directives: the value is out of range, a digit is a foreign one, there is a sign, or
    there is a newline. -/
def misread : List String :=
  ["Delay: 18446744073709551616", "Delay: 1\u0663", "Delay: +7", "Delay: 7\n"]

theorem delay_is_exact_with_foreign_digits :
    Line.delay isSomeDecimal ⟨"Delay: 00018446744073709551615"⟩
        = .ok (.ofMillis 18446744073709551615) ∧
      Line.captured? isSomeDecimal ⟨"Delay: 1\u0663"⟩ = some ['1', '\u0663'] ∧
      ∀ text ∈ misread, Line.delay isSomeDecimal ⟨text⟩ = .error (.malformedDelay ⟨text⟩) := by
  have hascii : ∀ c : Char, c.isDigit = true → isSomeDecimal c = true := fun c hc => by
    rw [isSomeDecimal, hc]
    rfl
  have hexact := fun line => delay_is_exact hascii (by decide) line
  have hmisread : ∀ text ∈ misread, Line.delay? ⟨text⟩ = none := by decide
  have hdigits : "00018446744073709551615".toList.all Char.isDigit = true := by decide
  have hvalue : Nat.ofDigitChars 10 "00018446744073709551615".toList 0
      = 18446744073709551615 := by decide
  refine ⟨((hexact _).1 _).mpr ⟨"00018446744073709551615", rfl, by decide,
    List.all_eq_true.mp hdigits, ?_, ?_⟩, by decide, fun text htext => ?_⟩
  · rw [hvalue]
    decide
  · rw [hvalue]
  · rw [(hexact _).2.2.2.2, hmisread text htext]
    rfl

end Line

namespace Bench

variable {ε σ : Type} [Environment ε] {isDecimal : Char → Bool}

/-- A bench reads the directive that decides in the two stages. -/
theorem openWindow_eq (hascii : ∀ c : Char, c.isDigit = true → isDecimal c = true)
    (hsign : isDecimal '+' = false) (s : SimulatedTime) :
    (openWindow s : BenchM ε σ Bool) = do
      match ← extract wantsDirective with
      | [] => return false
      | directive :: superseded =>
        if superseded ≠ [] then
          modify (note (.directivesDiscarded superseded.length))
        match directive.delay isDecimal with
        | .error cause => throw (.error cause)
        | .ok delay =>
          grant s delay
          return true := by
  rw [openWindow]
  congr 1
  funext directives
  cases directives with
  | nil => rfl
  | cons directive superseded =>
    simp only [Line.delay_eq hascii hsign]
    cases directive.delay? with
    | none => rfl
    | some delay => rfl

end Bench

end Testbench
