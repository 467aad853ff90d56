import Testbench.Text.Inspect
import Testbench.Text.Unprintable

/-!
# Quoted Texts

A text between double quotes, with everything escaped that could be mistaken for
something else: the quote and the backslash, which would end or open an escape,
and every character that would not show as itself. The usual short escapes stand
for tab, newline, carriage return and NUL; all other unprintable characters are
written by number in lower-case hexadecimal without padding. A single quote needs
no escape inside double quotes.

## Main definitions

* `escape`: How one character is written.
* `quoted`: The quoted form of a text.
* `isPlain`: Whether a character is written as itself.

## Theorems

* `escape_of_isPlain`: A plain character is its own written form.
-/

namespace Testbench.Text

def isPlain (c : Char) : Bool := c != '"' && c != '\\' && !isUnprintable c

def escape (c : Char) : List Char :=
  if isPlain c then [c]
  else match c with
    | '"' => ['\\', '"']
    | '\\' => ['\\', '\\']
    | '\t' => ['\\', 't']
    | '\n' => ['\\', 'n']
    | '\r' => ['\\', 'r']
    | '\x00' => ['\\', '0']
    | c => '\\' :: 'u' :: '\x7b' :: (Nat.toDigits 16 c.toNat ++ ['\x7d'])

def quoted (s : String) : String :=
  String.ofList ('"' :: (s.toList.flatMap escape ++ ['"']))

theorem escape_of_isPlain {c : Char} (h : isPlain c = true) : escape c = [c] := by
  unfold escape
  exact if_pos h

end Testbench.Text

namespace Testbench

instance : Inspect String := ⟨Text.quoted⟩

end Testbench
