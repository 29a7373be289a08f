import NovelScript.Packing.Strings
import NovelScript.Proofs.Outcome

/-!
Packing strings into a container in place. A packing that fails has changed nothing
(`runOn_strings`).
-/

namespace NovelScript

open Outcome

/-- A step that may change a container and fail. -/
abbrev Repacking := ExceptT PackingError (StateM Container)

namespace Repacking

/-- The code is patched outside of the container, which changes only at the end. -/
def strings (refs : List (UInt32 × UInt32)) (texts : Std.TreeMap UInt32 String) : Repacking Unit := do
  let strings := PackedString.order (← ofExcept (collectStrings refs texts))
  let moves := Std.TreeMap.ofList (← ofExcept (PackedString.movesFrom 0 strings))
  let c ← get
  let patches ← ofExcept (refs.mapM fun (address, old) ↦
    match moves[old]? with
    | some new => .ok ⟨address, old, new⟩
    | none => .error (.missingString old))
  let code ← ofExcept (patchFrom 0 c.code.toList patches)
  modify fun c ↦ { c with strings := (strings.flatMap (·.terminated)).toArray }
  modify fun c ↦ { c with code := code.toArray }

/-- In place and by value packing does the same, and where it fails nothing. -/
theorem runOn_strings (refs : List (UInt32 × UInt32)) (texts : Std.TreeMap UInt32 String)
    (c : Container) : runOn (strings refs texts) c = settled c (c.repackStrings refs texts) := by
  refine runOn_ofExcept_bind fun found ↦ runOn_ofExcept_bind fun moves ↦ ?_
  exact runOn_ofExcept_bind fun patches ↦ runOn_ofExcept_bind fun code ↦ rfl

end Repacking

end NovelScript
