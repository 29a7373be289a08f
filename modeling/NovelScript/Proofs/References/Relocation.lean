import NovelScript.Proofs.Packing.Relocation
import NovelScript.Proofs.References.Calls

/-!
References of code whose strings have moved: the same calls, which load from the new places.
-/

namespace NovelScript

def NativeCall.relocate (move : UInt32 → UInt32) (call : NativeCall) : NativeCall :=
  { call with load? := call.load?.map move }

namespace Instruction

variable {functions : Array Function} {move : UInt32 → UInt32} {before is : List Instruction}

theorem lastPush_relocate : lastPush (before.map (·.relocate move)) = lastPush before := by
  rw [lastPush, ← List.map_reverse, List.findSome?_map]
  exact congrArg (fun f ↦ (before.reverse.findSome? f).getD 0) (funext fun _ ↦ relocate_pushed?)

theorem lastLoad?_relocate :
    lastLoad? (before.map (·.relocate move)) = (lastLoad? before).map move := by
  rw [lastLoad?, ← List.map_reverse, List.findSome?_map, lastLoad?, List.map_findSome?]
  exact congrArg before.reverse.findSome? (funext fun _ ↦ relocate_loaded?)

theorem callsAfter_relocate (before is : List Instruction) :
    callsAfter functions (before.map (·.relocate move)) (is.map (·.relocate move)) =
      (callsAfter functions before is).map (·.relocate move) := by
  induction is generalizing before with
  | nil => rfl
  | cons i later ih =>
    have hcall : (i.relocate move).call? functions (before.map (·.relocate move)) =
        (i.call? functions before).map (·.relocate move) := by
      rw [call?, call?, relocate_native?, lastPush_relocate, lastLoad?_relocate, Option.map_map]
      rfl
    have hlater := ih (before ++ [i])
    rw [List.map_append, List.map_singleton] at hlater
    rw [List.map_cons, callsAfter, callsAfter, hcall, hlater, List.map_append, Option.toList_map]

theorem calls_relocate :
    calls functions (is.map (·.relocate move)) = (calls functions is).map (·.relocate move) :=
  callsAfter_relocate [] is

theorem loads_relocate :
    loads (is.map (·.relocate move)) = (loads is).map fun load ↦ (load.1, move load.2) := by
  rw [loads, loads, List.filterMap_map, List.map_filterMap]
  refine congrArg (is.filterMap ·) (funext fun i ↦ ?_)
  rw [Function.comp_apply, relocate_loaded?, Option.map_map, Option.map_map]
  rfl

end Instruction

namespace Container

variable {c : Container} {call : NativeCall}

theorem messageRef_congr {f g : UInt32 → String}
    (h : ∀ offset, call.load? = some offset → f offset = g offset) :
    c.messageRef f call = c.messageRef g call := by
  unfold messageRef
  cases call.native with
  | message => rfl
  | name =>
    cases hl : call.load? with
    | none => rfl
    | some offset => simp [h offset hl]

theorem messageRef_relocate {f : UInt32 → String} {move : UInt32 → UInt32} :
    c.messageRef f (call.relocate move) = c.messageRef (fun offset ↦ f (move offset)) call := by
  obtain ⟨address, native, push, load?⟩ := call
  cases native with
  | message => rfl
  | name => cases load? <;> rfl

end Container

end NovelScript
