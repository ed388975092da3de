/-!
# Handles in texts

The number of a context handle differs from run to run, so a text for others has a
line in its place. The digits after the mark of a handle are left out, wherever the
mark stands and whatever follows it.
-/

namespace FiberScheduler

def handleMark : List Char :=
  "ContextHandle(".toList

def hideHandles (text : List Char) : List Char :=
  if handleMark.isPrefixOf text then
    handleMark ++ '_' :: hideHandles ((text.drop handleMark.length).dropWhile Char.isDigit)
  else
    match text with
    | [] => []
    | c :: rest => c :: hideHandles rest
  termination_by text.length
  decreasing_by
    · rename_i h
      have shorter := (List.dropWhile_sublist Char.isDigit (l := text.drop handleMark.length)).length_le
      have marked := (List.isPrefixOf_iff_prefix.mp h).length_le
      have positive : 0 < handleMark.length := by decide
      simp only [List.length_drop] at shorter
      omega
    · simp

end FiberScheduler
