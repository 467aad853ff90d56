/-!
# Inspection Texts

A text that shows how a value is built, for error messages and diagnostics. All
of them follow one grammar, gathered here: a record is its name and its fields
in braces, two dots stand for what it does not show, and a wrapped value stands
in parentheses after its name.

## Main definitions

* `Inspect`: Types whose values have an inspection text.
* `Inspect.record`: A record that shows all its fields.
* `Inspect.excerpt`: A record that shows only some of them.
* `Inspect.wrapped`: A name around one value.
-/

namespace Testbench

class Inspect (α : Type) where
  inspect : α → String

export Inspect (inspect)

namespace Inspect

private def labelled (fields : List (String × String)) : List String :=
  fields.map fun f => f.1 ++ ": " ++ f.2

private def braced (name : String) (parts : List String) : String :=
  name ++ " \x7b " ++ String.intercalate ", " parts ++ " \x7d"

def record (name : String) (fields : List (String × String)) : String :=
  braced name (labelled fields)

def excerpt (name : String) (fields : List (String × String)) : String :=
  braced name (labelled fields ++ [".."])

def wrapped (name inner : String) : String := name ++ "(" ++ inner ++ ")"

def listed (parts : List String) : String := "[" ++ String.intercalate ", " parts ++ "]"

end Inspect

instance : Inspect Bool := ⟨fun b => if b then "true" else "false"⟩

instance : Inspect Nat := ⟨Nat.repr⟩

instance {α : Type} [Inspect α] : Inspect (List α) := ⟨fun xs => Inspect.listed (xs.map inspect)⟩

instance {α : Type} [Inspect α] : Inspect (Option α) where
  inspect
    | none => "None"
    | some a => Inspect.wrapped "Some" (inspect a)

instance {α β : Type} [Inspect α] [Inspect β] : Inspect (α × β) :=
  ⟨fun p => Inspect.wrapped "" (inspect p.1 ++ ", " ++ inspect p.2)⟩

end Testbench
