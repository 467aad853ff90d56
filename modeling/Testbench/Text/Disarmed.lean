/-!
# Disarmed Texts

A text from outside, fit to be shown in a log. Logs are read in terminals, and a
terminal obeys some characters instead of showing them: the escape character and
the second block of control characters open whole command sequences, and bell,
backspace, form feed and delete are commands of their own. A disarmed text shows
each of these by number, in two lower-case hexadecimal digits, so that whoever
chose the text cannot recolour or erase what stands in the log already.

The numbers above ASCII stand in braces, those of ASCII do not. Every other
character stays as it is. In particular line breaks and tabs remain, which only
lay a text out, and so does the backslash: a disarmed text is for reading, and
does not tell which numbers were written out in the text itself.

## Main definitions

* `commandsTerminal`: Whether a terminal obeys a character.
* `disarm`: How one character is shown.
* `disarmed`: The disarmed form of a text.

## Theorems

* `disarm_of_harmless`: Any other character is shown as itself.
* `harmless_of_mem_disarm`: What is shown commands nothing.
-/

namespace Testbench.Text

def commandsTerminal (c : Char) : Bool :=
  ['\x07', '\x08', '\x0c', '\x1b', '\x7f'].contains c || (0x80 ≤ c.toNat && c.toNat ≤ 0x9F)

/-- Two digits are enough for every character that commands a terminal. -/
def twoDigits (c : Char) : List Char :=
  [Nat.digitChar (c.toNat / 16), Nat.digitChar (c.toNat % 16)]

def disarm (c : Char) : List Char :=
  if !commandsTerminal c then [c]
  else if c.toNat < 0x80 then ['\\', 'x'] ++ twoDigits c
  else ['\\', 'u', '\x7b'] ++ twoDigits c ++ ['\x7d']

def disarmed (s : String) : String := String.ofList (s.toList.flatMap disarm)

theorem disarm_of_harmless {c : Char} (h : commandsTerminal c = false) : disarm c = [c] := by
  unfold disarm
  rw [h]
  rfl

theorem harmless_digitChar (n : Nat) (h : n < 16) : commandsTerminal (Nat.digitChar n) = false := by
  have hall : ∀ k : Fin 16, commandsTerminal (Nat.digitChar k.val) = false := by decide
  exact hall ⟨n, h⟩

/-- No command is numbered above the digits that are written. -/
theorem toNat_lt_of_commandsTerminal {c : Char} (h : commandsTerminal c = true) :
    c.toNat < 256 := by
  simp only [commandsTerminal, List.contains_cons, List.contains_nil, Bool.or_eq_true,
    Bool.and_eq_true, decide_eq_true_eq, beq_iff_eq, Bool.or_false] at h
  rcases h with (rfl | rfl | rfl | rfl | rfl) | ⟨-, h⟩
  · decide
  · decide
  · decide
  · decide
  · decide
  · omega

theorem harmless_of_mem_twoDigits {c d : Char} (hc : commandsTerminal c = true)
    (hd : d ∈ twoDigits c) : commandsTerminal d = false := by
  have hlt := toNat_lt_of_commandsTerminal hc
  simp only [twoDigits, List.mem_cons, List.not_mem_nil, or_false] at hd
  rcases hd with rfl | rfl
  · exact harmless_digitChar _ (by omega)
  · exact harmless_digitChar _ (by omega)

theorem harmless_of_mem_disarm {c d : Char} (h : d ∈ disarm c) : commandsTerminal d = false := by
  cases hc : commandsTerminal c with
  | false =>
    rw [disarm_of_harmless hc, List.mem_singleton] at h
    rw [h]
    exact hc
  | true =>
    unfold disarm at h
    rw [hc, Bool.not_true, if_neg Bool.false_ne_true] at h
    split at h
    · rcases List.mem_append.mp h with h | h
      · simp only [List.mem_cons, List.not_mem_nil, or_false] at h
        rcases h with rfl | rfl
        · decide
        · decide
      · exact harmless_of_mem_twoDigits hc h
    · rcases List.mem_append.mp h with h | h
      · rcases List.mem_append.mp h with h | h
        · simp only [List.mem_cons, List.not_mem_nil, or_false] at h
          rcases h with rfl | rfl | rfl
          · decide
          · decide
          · decide
        · exact harmless_of_mem_twoDigits hc h
      · rw [List.mem_singleton] at h
        subst h
        decide

end Testbench.Text
