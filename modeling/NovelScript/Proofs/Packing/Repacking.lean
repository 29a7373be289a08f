import NovelScript.Proofs.Packing.Layout
import NovelScript.Proofs.Packing.Relocation
import NovelScript.Proofs.References.Calls

/-!
Rebuilding the string segment as a whole: the new segment is a layout of the new texts, and the new
code that of the same instructions with their strings moved (`relocated_of_repackStrings`).
-/

namespace NovelScript

open Instruction Outcome

/-- A container whose strings have moved, from one whose code has these instructions. The texts are
those of the old offsets, in the order in which they now stand. -/
structure Relocated (c c' : Container) (is : List Instruction) (textOf : UInt32 → String)
    (move : UInt32 → UInt32) (order : List UInt32) : Prop where
  nodup : order.Nodup
  mem_iff : ∀ old, old ∈ order ↔ ∃ i ∈ is, i.loaded? = some old
  layout : Layout textOf move order c'.strings.toList
  fits : ∀ i ∈ is, i.MoveFits move
  code : c'.code.toList = (is.map (·.relocate move)).flatMap (·.bytes)
  rest : c' = { c with strings := c'.strings, code := c'.code }

variable {c c' : Container} {names : NameIndex} {is : List Instruction}

theorem Container.walk_eq_none_iff :
    c.walk names = ⟨is, none⟩ ↔
      Placed 0 is ∧ (∀ i ∈ is, (c.scope names).Valid i) ∧ c.code.toList = is.flatMap (·.bytes) :=
  Scope.walk_eq_none_iff

theorem mem_ascending_loads_iff {old : UInt32} :
    old ∈ ascending ((loads is).map Prod.snd) ↔ ∃ i ∈ is, i.loaded? = some old := by
  rw [mem_ascending, List.mem_map]
  constructor
  · intro h
    obtain ⟨_, hmem, rfl⟩ := h
    obtain ⟨i, hi, hl⟩ := List.mem_filterMap.1 hmem
    obtain ⟨offset, hload, rfl⟩ := Option.map_eq_some_iff.1 hl
    exact ⟨i, hi, hload⟩
  · intro h
    obtain ⟨i, hi, hl⟩ := h
    exact ⟨(i.address, old), List.mem_filterMap.2 ⟨i, hi, by simp [hl]⟩, rfl⟩

namespace Relocated

variable {textOf : UInt32 → String} {move : UInt32 → UInt32} {order : List UInt32}

theorem code_size (h : Relocated c c' is textOf move order) (hw : c.walk names = ⟨is, none⟩) :
    c'.code.size = c.code.size := by
  obtain ⟨-, hv, hcode⟩ := Container.walk_eq_none_iff.1 hw
  rw [← Array.length_toList, h.code, Scope.length_relocate hv, ← hcode, Array.length_toList]

theorem addressable (h : Relocated c c' is textOf move order) (hw : c.walk names = ⟨is, none⟩)
    (hsize : c.Addressable) : c'.Addressable := by
  rw [Container.Addressable, h.code_size hw]
  exact hsize

theorem code_getElem? (h : Relocated c c' is textOf move order) (hsize : c.Addressable)
    (hw : c.walk names = ⟨is, none⟩) {n : Nat}
    (hn : ∀ i ∈ is, i.loaded?.isSome → ¬i.InOperand n) : c'.code[n]? = c.code[n]? := by
  obtain ⟨hp, hv, hcode⟩ := Container.walk_eq_none_iff.1 hw
  rw [Container.Addressable, ← Array.length_toList, hcode, ← Nat.zero_add (List.length _)] at hsize
  rw [← Array.getElem?_toList, ← Array.getElem?_toList, h.code, hcode]
  apply Scope.getElem?_relocate hp hv hsize
  intro i hi hl
  rw [Nat.zero_add]
  exact hn i hi hl

/-- The new code is decoded as the same instructions with their strings moved. -/
theorem walk (h : Relocated c c' is textOf move order) (hw : c.walk names = ⟨is, none⟩) :
    c'.walk names = ⟨is.map (·.relocate move), none⟩ := by
  obtain ⟨hp, hv, -⟩ := Container.walk_eq_none_iff.1 hw
  have hscope : c'.scope names = { c.scope names with stringSize := c'.strings.size } := by
    have hsize := h.code_size hw
    have hrest := h.rest
    generalize c'.strings = strings, c'.code = code at hsize hrest ⊢
    subst hrest
    unfold Container.scope
    rw [hsize]
  rw [Container.walk, hscope, h.code]
  apply Scope.walk_relocate hp hv h.fits
  intro i hi old hl
  rw [← Array.length_toList]
  exact h.layout.lt_length ((h.mem_iff old).2 ⟨i, hi, hl⟩)

end Relocated

/-- Packing strings changes nothing but the string segment and the code, whatever the references. -/
theorem Container.rest_of_repackStrings {refs : List (UInt32 × UInt32)}
    {texts : Std.TreeMap UInt32 String} (h : c.repackStrings refs texts = .ok c') :
    c' = { c with strings := c'.strings, code := c'.code } := by
  unfold repackStrings at h
  simp only [bind_eq_ok_iff, pure_eq_ok_iff] at h
  obtain ⟨_, -, _, -, _, -, _, -, rfl⟩ := h
  rfl

theorem nodup_ascending (numbers : List UInt32) : (ascending numbers).Nodup :=
  (pairwise_ascending numbers).imp fun hlt he ↦ absurd (he ▸ hlt) (UInt32.lt_irrefl _)

/-- The new texts of the strings that are loaded, in the order of the new segment. -/
def packed (textOf : UInt32 → String) (is : List Instruction) : List PackedString :=
  PackedString.order ((ascending ((loads is).map Prod.snd)).map (PackedString.ofText textOf))

def moveBy (moves : List (UInt32 × UInt32)) (old : UInt32) : UInt32 :=
  (Std.TreeMap.ofList moves)[old]?.getD 0

/-- The packed strings lie in an order of the offsets that are loaded. -/
theorem layout_packed {textOf : UInt32 → String} {moves : List (UInt32 × UInt32)}
    (h : PackedString.movesFrom 0 (packed textOf is) = .ok moves) :
    ∃ order : List UInt32, order.Perm (ascending ((loads is).map Prod.snd)) ∧
      packed textOf is = order.map (PackedString.ofText textOf) ∧
      (∀ old ∈ order, (Std.TreeMap.ofList moves)[old]?.isSome) ∧
      Layout textOf (moveBy moves) order ((packed textOf is).flatMap (·.terminated)) := by
  obtain ⟨order, hperm, horder⟩ :=
    PackedString.order_map_ofText textOf (ascending ((loads is).map Prod.snd))
  have horder' : packed textOf is = order.map (PackedString.ofText textOf) := horder
  rw [horder'] at h ⊢
  obtain ⟨hsome, hlayout⟩ :=
    PackedString.layout_of_movesFrom (hperm.nodup_iff.2 (nodup_ascending _)) h
  exact ⟨order, hperm, rfl, hsome, hlayout⟩

theorem mapM_patches {moves : Std.TreeMap UInt32 UInt32}
    (h : ∀ load ∈ loads is, moves[load.2]?.isSome) :
    ((loads is).mapM fun load ↦ match moves[load.2]? with
      | some new => .ok (⟨load.1, load.2, new⟩ : Patch)
      | none => .error (.missingString load.2)) =
        (.ok (patches (fun old ↦ moves[old]?.getD 0) is) : Except PackingError _) := by
  refine (mapM_eq_ok_iff (P := fun load ↦ moves[load.2]?.isSome)
    (g := fun load ↦ ⟨load.1, load.2, moves[load.2]?.getD 0⟩) (fun load _ patch ↦ ?_) _).2 ⟨h, ?_⟩
  · cases moves[load.2]? with
    | none => simp
    | some new => simp [eq_comm]
  · symm
    rw [loads, patches, List.map_filterMap]
    exact congrArg (is.filterMap ·) (funext fun i ↦ Option.map_map ..)

theorem collectStrings_eq_ok {texts : Std.TreeMap UInt32 String} {textOf : UInt32 → String}
    (ht : ∀ i ∈ is, ∀ old, i.loaded? = some old → texts[old]? = some (textOf old)) :
    collectStrings (loads is) texts =
      .ok ((ascending ((loads is).map Prod.snd)).map (PackedString.ofText textOf)) := by
  have htext : ∀ old ∈ ascending ((loads is).map Prod.snd), texts[old]? = some (textOf old) := by
    intro old ho
    obtain ⟨i, hi, hl⟩ := mem_ascending_loads_iff.1 ho
    exact ht i hi old hl
  refine PackedString.collectStrings_eq_ok_iff.2 ⟨fun old ho ↦ ?_, ?_⟩
  · rw [htext old ho]
    rfl
  · refine List.map_congr_left fun old ho ↦ ?_
    rw [PackedString.ofText, PackedString.ofText, htext old ho]
    rfl

/-- Packing strings that all have a text is to lay them out and then to patch the loads. -/
theorem repackStrings_eq {texts : Std.TreeMap UInt32 String} {textOf : UInt32 → String}
    (hsize : c.Addressable) (hw : c.walk names = ⟨is, none⟩)
    (ht : ∀ i ∈ is, ∀ old, i.loaded? = some old → texts[old]? = some (textOf old)) :
    c.repackStrings (loads is) texts =
      (PackedString.movesFrom 0 (packed textOf is) >>= fun moves ↦
        (is.mapM (patched (moveBy moves))).map fun js ↦ { c with
          strings := ((packed textOf is).flatMap (·.terminated)).toArray
          code := (js.flatMap (·.bytes)).toArray }) := by
  obtain ⟨hp, hv, hcode⟩ := Container.walk_eq_none_iff.1 hw
  rw [Container.Addressable, ← Array.length_toList, hcode, ← Nat.zero_add (List.length _)] at hsize
  rw [Container.repackStrings, collectStrings_eq_ok ht]
  change (PackedString.movesFrom 0 (packed textOf is) >>= _) = _
  cases hmoves : PackedString.movesFrom 0 (packed textOf is) with
  | error e => rfl
  | ok moves =>
    obtain ⟨order, hperm, -, hsome, -⟩ := layout_packed hmoves
    have hload : ∀ load ∈ loads is, (Std.TreeMap.ofList moves)[load.2]?.isSome := fun load hl ↦
      hsome load.2 (hperm.mem_iff.2 (mem_ascending.2 (List.mem_map_of_mem hl)))
    have hpatch : patchFrom 0 ([] ++ is.flatMap (·.bytes)) (patches (moveBy moves) is) =
        (is.mapM (patched (moveBy moves))).map fun js ↦ [] ++ js.flatMap (·.bytes) :=
      Scope.patchFrom_eq hp hv hsize
    rw [List.nil_append, ← hcode] at hpatch
    have hpatches := mapM_patches hload
    change ((loads is).mapM (fun load ↦ match (Std.TreeMap.ofList moves)[load.2]? with
      | some new => .ok (⟨load.1, load.2, new⟩ : Patch)
      | none => .error (.missingString load.2)) >>= fun patches ↦
        patchFrom 0 c.code.toList patches >>= fun code ↦ pure _) = Except.map _ _
    rw [hpatches]
    change (patchFrom 0 c.code.toList (patches (moveBy moves) is) >>= fun code ↦ pure _) = _
    rw [hpatch]
    cases is.mapM (patched (moveBy moves)) <;> rfl

/-- Packing succeeds just when the strings can be laid out and every load can be patched to the
place of its new text. -/
theorem repackStrings_eq_ok_iff {texts : Std.TreeMap UInt32 String} {textOf : UInt32 → String}
    (hsize : c.Addressable) (hw : c.walk names = ⟨is, none⟩)
    (ht : ∀ i ∈ is, ∀ old, i.loaded? = some old → texts[old]? = some (textOf old)) :
    c.repackStrings (loads is) texts = .ok c' ↔
      ∃ moves, PackedString.movesFrom 0 (packed textOf is) = .ok moves ∧
        (∀ i ∈ is, i.MoveFits (moveBy moves)) ∧
        c' = { c with
          strings := ((packed textOf is).flatMap (·.terminated)).toArray
          code := ((is.map (·.relocate (moveBy moves))).flatMap (·.bytes)).toArray } := by
  have hall : ∀ moves js, is.mapM (patched (moveBy moves)) = .ok js ↔
      (∀ i ∈ is, i.MoveFits (moveBy moves)) ∧ js = is.map (·.relocate (moveBy moves)) :=
    fun moves ↦ mapM_eq_ok_iff fun i _ ↦ i.patched_eq_ok_iff
  rw [repackStrings_eq hsize hw ht, bind_eq_ok_iff]
  refine exists_congr fun moves ↦ and_congr_right fun _ ↦ ?_
  simp only [map_eq_ok_iff, hall]
  refine ⟨fun h ↦ ?_, fun h ↦ ?_⟩
  · obtain ⟨_, ⟨hfits, rfl⟩, rfl⟩ := h
    exact ⟨hfits, rfl⟩
  · obtain ⟨hfits, rfl⟩ := h
    exact ⟨_, ⟨hfits, rfl⟩, rfl⟩

/-- The strings are moved to the order in which they are packed. -/
theorem relocated_packed_of_repackStrings {texts : Std.TreeMap UInt32 String}
    {textOf : UInt32 → String} (hsize : c.Addressable) (hw : c.walk names = ⟨is, none⟩)
    (ht : ∀ i ∈ is, ∀ old, i.loaded? = some old → texts[old]? = some (textOf old))
    (h : c.repackStrings (loads is) texts = .ok c') :
    ∃ move order, Relocated c c' is textOf move order ∧
      packed textOf is = order.map (PackedString.ofText textOf) := by
  obtain ⟨moves, hmoves, hfits, rfl⟩ := (repackStrings_eq_ok_iff hsize hw ht).1 h
  obtain ⟨order, hperm, horder, -, hlayout⟩ := layout_packed hmoves
  refine ⟨moveBy moves, order, ⟨hperm.nodup_iff.2 (nodup_ascending _), fun old ↦ ?_, hlayout,
    hfits, rfl, rfl⟩, horder⟩
  rw [hperm.mem_iff, mem_ascending_loads_iff]

theorem relocated_of_repackStrings {texts : Std.TreeMap UInt32 String} {textOf : UInt32 → String}
    (hsize : c.Addressable) (hw : c.walk names = ⟨is, none⟩)
    (ht : ∀ i ∈ is, ∀ old, i.loaded? = some old → texts[old]? = some (textOf old))
    (h : c.repackStrings (loads is) texts = .ok c') :
    ∃ move order, Relocated c c' is textOf move order := by
  obtain ⟨move, order, hmoved, -⟩ := relocated_packed_of_repackStrings hsize hw ht h
  exact ⟨move, order, hmoved⟩

end NovelScript
