import FlowChart.Classifier.Basic

/-!
# The instruction sets known from the start

The mnemonics of the two families of instruction sets do not collide, so their union serves
listings of either.
-/

namespace FlowChart.Classifier

/-- The conditions that a conditional branch of the 64-bit ARM set is suffixed with. -/
def armConditions : List String :=
  ["eq", "ne", "cs", "cc", "mi", "pl", "vs", "vc", "hi", "ls", "ge", "lt", "gt", "le"]

/-- The 64-bit ARM set. A branch on the condition `al` is always taken. -/
def arm64 : Classifier where
  name := "arm64"
  unconditional := ["b", "br", "b.al"]
  conditional := armConditions.map ("b." ++ ·) ++ ["cbz", "cbnz", "tbz", "tbnz"]
  returns := ["ret"]
  calls := ["bl", "blr"]

/-- The x86 set. -/
def x86 : Classifier where
  name := "x86"
  unconditional := ["jmp"]
  conditional :=
    ["je", "jne", "jz", "jnz", "jc", "jnc", "js", "jns", "jo", "jno",
      "jp", "jnp", "ja", "jae", "jb", "jbe", "jg", "jge", "jl", "jle"]
  returns := ["ret", "retn"]
  calls := ["call"]

/-- Both sets together. -/
def auto : Classifier := arm64.merge x86 "auto"

end FlowChart.Classifier
