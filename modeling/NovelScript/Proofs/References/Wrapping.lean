import NovelScript.Proofs.References.Calls

/-!
Code of more than 4 GiB. Behind 2 ^ 32 bytes the addresses start from 0 again, so that instructions
there are taken for those at the front (`references_wrapping`).
-/

namespace NovelScript

namespace Instruction

variable {position n : Nat} {is before before' : List Instruction} {functions : Array Function}

/-- A row of one-byte instructions that neither show, push nor load anything. -/
def stops (position : Nat) : Nat → List Instruction
  | 0 => []
  | n + 1 => ⟨.ofNat position, 0x05, .none⟩ :: stops (position + 1) n

theorem mem_stops {i : Instruction} (h : i ∈ stops position n) :
    i.loaded? = none ∧ i.pushed? = none ∧ ∀ functions, i.native? functions = none := by
  induction n generalizing position with
  | zero => cases h
  | succ n ih =>
    obtain rfl | hlater := List.mem_cons.1 h
    · exact ⟨rfl, rfl, fun functions ↦ rfl⟩
    · exact ih hlater

theorem callsAfter_congr (hpush : lastPush before = lastPush before')
    (hload : lastLoad? before = lastLoad? before') :
    callsAfter functions before is = callsAfter functions before' is := by
  induction is generalizing before before' with
  | nil => rfl
  | cons i later ih =>
    rw [callsAfter, callsAfter, call?, call?, hpush, hload]
    congr 1
    apply ih
    · rw [lastPush_append, lastPush_append, hpush]
    · rw [lastLoad?_append, lastLoad?_append, hload]

theorem callsAfter_eq_nil (h : ∀ i ∈ is, i.native? functions = none) :
    callsAfter functions before is = [] := by
  induction is generalizing before with
  | nil => rfl
  | cons i later ih =>
    obtain ⟨hi, hlater⟩ := List.forall_mem_cons.1 h
    rw [callsAfter, call?, hi, ih hlater]
    rfl

variable (position n) (front back : List Instruction)

theorem loads_stops : loads (front ++ (stops position n ++ back)) = loads (front ++ back) := by
  have hnone : (stops position n).filterMap (fun i ↦ i.loaded?.map (i.address, ·)) = [] :=
    List.filterMap_eq_nil_iff.2 fun i hi ↦ by rw [(mem_stops hi).1, Option.map_none]
  rw [loads, loads, List.filterMap_append, List.filterMap_append, List.filterMap_append, hnone,
    List.nil_append]

theorem calls_stops :
    calls functions (front ++ (stops position n ++ back)) = calls functions (front ++ back) := by
  have hpush : lastPush (front ++ stops position n) = lastPush front := by
    rw [lastPush, lastPush, List.reverse_append, List.findSome?_append,
      List.findSome?_eq_none_iff.2 fun i hi ↦ (mem_stops (List.mem_reverse.1 hi)).2.1,
      Option.none_or]
  have hload : lastLoad? (front ++ stops position n) = lastLoad? front := by
    rw [lastLoad?, lastLoad?, List.reverse_append, List.findSome?_append,
      List.findSome?_eq_none_iff.2 fun i hi ↦ (mem_stops (List.mem_reverse.1 hi)).1, Option.none_or]
  rw [calls, calls, callsAfter_append, callsAfter_append, callsAfter_append,
    callsAfter_eq_nil fun i hi ↦ (mem_stops hi).2.2 functions, List.nil_append, List.nil_append,
    callsAfter_congr hpush hload]

end Instruction

open Instruction

namespace Scope

variable {s : Scope} {position : Nat}

theorem walkAfter_replicate (n : Nat) (rest : List UInt8) :
    s.walkAfter 0 position (List.replicate n 0x05 ++ rest) =
      ⟨stops position n ++ (s.walkAfter 0 (position + n) rest).instructions,
        (s.walkAfter 0 (position + n) rest).failure?⟩ := by
  induction n generalizing position with
  | zero => rfl
  | succ n ih =>
    have hstop : s.walkAfter 0 position (0x05 :: (List.replicate n 0x05 ++ rest)) =
        ⟨⟨.ofNat position, 0x05, .none⟩ ::
            (s.walkAfter 0 (position + 1) (List.replicate n 0x05 ++ rest)).instructions,
          (s.walkAfter 0 (position + 1) (List.replicate n 0x05 ++ rest)).failure?⟩ := rfl
    rw [List.replicate_succ, List.cons_append, hstop, ih, Nat.add_assoc, Nat.add_comm 1]
    rfl

/-- At 4 GiB the addresses start from 0 again. -/
theorem walkAfter_add_size (skip : Nat) (bytes : List UInt8) :
    s.walkAfter skip (UInt32.size + position) bytes = s.walkAfter skip position bytes := by
  induction bytes generalizing skip position with
  | nil => rfl
  | cons code rest ih =>
    have haddress : UInt32.ofNat (UInt32.size + position) = UInt32.ofNat position := by
      rw [← UInt32.toNat_inj, UInt32.toNat_ofNat', UInt32.toNat_ofNat']
      exact Nat.add_mod_left ..
    cases skip with
    | zero =>
      rw [walkAfter, walkAfter, haddress]
      simp only [Nat.add_assoc, ih]
    | succ skip => rw [walkAfter, walkAfter, Nat.add_assoc, ih]

end Scope

/-- The code that is `front` at its front and `back` at 4 GiB, with stops between them. -/
def wrappingCode (front back : List UInt8) : Array UInt8 :=
  (front ++ (List.replicate (UInt32.size - front.length) 0x05 ++ back)).toArray

theorem toList_wrappingCode_nil (back : List UInt8) :
    (wrappingCode [] back).toList = 0x05 :: (List.replicate (UInt32.size - 1) 0x05 ++ back) := by
  have hsize : UInt32.size - ([] : List UInt8).length = UInt32.size - 1 + 1 := rfl
  rw [wrappingCode, List.nil_append, hsize, List.replicate_succ, List.cons_append]

namespace Container

variable {c : Container} {names : NameIndex} {front back : List UInt8} {is : List Instruction}
  (hcode : c.code = wrappingCode front back) (hsize : front.length ≤ UInt32.size)
  (hfront : (c.scope names).walk front = ⟨is, none⟩)
include hcode hsize hfront

/-- The code at 4 GiB is read as if it stood at the front. -/
theorem walk_wrapping :
    c.walk names = ⟨is ++ (stops front.length (UInt32.size - front.length) ++
      ((c.scope names).walk back).instructions), ((c.scope names).walk back).failure?⟩ := by
  obtain ⟨hp, hv, rfl⟩ := Scope.walk_eq_none_iff.1 hfront
  rw [walk, hcode, wrappingCode, Scope.walk, Scope.walkAfter_append hp hv, Nat.zero_add,
    Scope.walkAfter_replicate, Nat.add_sub_cancel' hsize, ← Nat.add_zero UInt32.size,
    Scope.walkAfter_add_size]
  rfl

theorem loads_walk_wrapping : loads (c.walk names).instructions =
    loads (is ++ ((c.scope names).walk back).instructions) := by
  rw [walk_wrapping hcode hsize hfront, loads_stops]

theorem collect_wrapping : c.collect 0 none (c.walk names).instructions =
    c.collect 0 none (is ++ ((c.scope names).walk back).instructions) := by
  have hcollect : ∀ later, c.collect 0 none later = ((calls c.functions later).mapM fun call ↦
      c.shown call.address call.push call.load? call.native).map (.mk (loads later)) :=
    collect_eq []
  rw [walk_wrapping hcode hsize hfront, hcollect, hcollect, calls_stops, loads_stops]

/-- The references are those of the instructions at the front and at 4 GiB, the second with the
addresses that they would have at the front. -/
theorem references_wrapping : c.references names = (do
    let found ← c.collect 0 none (is ++ ((c.scope names).walk back).instructions)
    match ((c.scope names).walk back).failure? with
    | some e => throw e
    | none => return { found with strings := latest found.strings }) := by
  have hfailure := congrArg Walk.failure? (walk_wrapping hcode hsize hfront)
  rw [← hfailure, ← collect_wrapping hcode hsize hfront]
  rfl

end Container

end NovelScript
