/-!
# Texts and Bytes

The passage between bytes and text. `decode?` is strict: one bad byte makes the
whole piece no text at all, which is what a line of input must be judged by.
`decodeLossy` always answers and is for showing bytes that may have been cut in
the middle of a character: each longest run of bytes that begins a character
without completing it becomes one replacement character.

## Main definitions

* `encode`: The bytes of a text.
* `decode?`: The text of bytes that are valid UTF-8.
* `decodeLossy`: The text of any bytes, with replacement characters.

## Theorems

* `decode?_encode`: A text is read back from its bytes.
* `encode_of_decode?`: Only the bytes of a text are read as that text.
-/

namespace Testbench.Text

def encode (s : String) : List UInt8 := s.toByteArray.data.toList

def decode? (bytes : List UInt8) : Option String :=
  String.fromUTF8? ⟨bytes.toArray⟩

theorem decode?_encode (s : String) : decode? (encode s) = some s := by
  have hbytes : (⟨(encode s).toArray⟩ : ByteArray) = s.toByteArray := by
    simp only [encode, Array.toArray_toList]
  rw [decode?, hbytes, String.fromUTF8?, dif_pos s.isValidUTF8]
  rfl

theorem encode_of_decode? {bytes : List UInt8} {s : String} (h : decode? bytes = some s) :
    encode s = bytes := by
  rw [decode?, String.fromUTF8?] at h
  split at h
  · rw [← Option.some.inj h]
    rfl
  · exact absurd h (by simp only [reduceCtorEq, not_false_eq_true])

/-- The bytes that may follow a leading byte: how many, and the range of the
    first of them. All later ones range over `0x80` to `0xBF`. -/
def trail (lead : UInt8) : Option (Nat × UInt8 × UInt8) :=
  if 0xC2 ≤ lead ∧ lead ≤ 0xDF then some (1, 0x80, 0xBF)
  else if lead = 0xE0 then some (2, 0xA0, 0xBF)
  else if lead = 0xED then some (2, 0x80, 0x9F)
  else if 0xE1 ≤ lead ∧ lead ≤ 0xEF then some (2, 0x80, 0xBF)
  else if lead = 0xF0 then some (3, 0x90, 0xBF)
  else if 0xF1 ≤ lead ∧ lead ≤ 0xF3 then some (3, 0x80, 0xBF)
  else if lead = 0xF4 then some (3, 0x80, 0x8F)
  else none

/-- The number of bytes, at most `count`, that continue a character. -/
def continued (count : Nat) (first last : UInt8) : List UInt8 → Nat
  | [] => 0
  | b :: rest =>
    match count with
    | 0 => 0
    | count + 1 =>
      if first ≤ b ∧ b ≤ last then continued count 0x80 0xBF rest + 1 else 0

def decodeLossy : List UInt8 → List Char
  | [] => []
  | b :: rest =>
    if b < 0x80 then Char.ofNat b.toNat :: decodeLossy rest
    else match trail b with
      | none => '\uFFFD' :: decodeLossy rest
      | some (count, first, last) =>
        let taken := continued count first last rest
        let piece :=
          if taken = count then (decode? (b :: rest.take taken)).elim ['\uFFFD'] String.toList
          else ['\uFFFD']
        piece ++ decodeLossy (rest.drop taken)
  termination_by bytes => bytes.length
  decreasing_by
    · simp only [List.length_cons, Nat.lt_add_one]
    · simp only [List.length_cons, Nat.lt_add_one]
    · simp only [List.length_cons, List.length_drop]
      omega

end Testbench.Text
