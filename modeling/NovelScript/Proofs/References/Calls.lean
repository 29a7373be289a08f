import NovelScript.Proofs.Instruction.Failing
import NovelScript.Proofs.Outcome
import NovelScript.References

/-!
The references of a container, read off its instructions: the loads, and the calls that show text,
each with the last push and the last load before it (`references_eq_ok_iff`).
-/

namespace NovelScript

open Outcome

/-- A call that shows text, and what was pushed and loaded last before it. -/
structure NativeCall where
  address : UInt32
  native : Native
  push : UInt32
  load? : Option UInt32
  deriving DecidableEq, Repr

namespace Instruction

def lastPush (before : List Instruction) : UInt32 :=
  (before.reverse.findSome? (·.pushed?)).getD 0

def lastLoad? (before : List Instruction) : Option UInt32 :=
  before.reverse.findSome? (·.loaded?)

/-- The call of a native that an instruction makes after the given ones. -/
def call? (functions : Array Function) (before : List Instruction) (i : Instruction) :
    Option NativeCall :=
  (i.native? functions).map fun native ↦ ⟨i.address, native, lastPush before, lastLoad? before⟩

def callsAfter (functions : Array Function) (before : List Instruction) :
    List Instruction → List NativeCall
  | [] => []
  | i :: later =>
    (i.call? functions before).toList ++ callsAfter functions (before ++ [i]) later

def calls (functions : Array Function) (is : List Instruction) : List NativeCall :=
  callsAfter functions [] is

def loads (is : List Instruction) : List (UInt32 × UInt32) :=
  is.filterMap fun i ↦ i.loaded?.map (i.address, ·)

variable {functions : Array Function} {before later : List Instruction} {i : Instruction}

theorem lastPush_append : lastPush (before ++ [i]) = i.pushed?.getD (lastPush before) := by
  rw [lastPush, List.reverse_append, List.reverse_singleton, List.singleton_append,
    List.findSome?_cons]
  cases i.pushed? <;> rfl

theorem lastLoad?_append : lastLoad? (before ++ [i]) = (i.loaded? <|> lastLoad? before) := by
  rw [lastLoad?, List.reverse_append, List.reverse_singleton, List.singleton_append,
    List.findSome?_cons]
  cases i.loaded? <;> rfl

theorem pairwise_loads (h : later.Pairwise (·.address < ·.address)) :
    (loads later).Pairwise fun a b ↦ compare a.1 b.1 = .lt := by
  refine h.filterMap _ fun i j hlt load hload load' hload' ↦ ?_
  obtain ⟨_, -, rfl⟩ := Option.map_eq_some_iff.1 hload
  obtain ⟨_, -, rfl⟩ := Option.map_eq_some_iff.1 hload'
  exact Std.compare_eq_lt.2 hlt

theorem callsAfter_append (front back : List Instruction) :
    callsAfter functions before (front ++ back) =
      callsAfter functions before front ++ callsAfter functions (before ++ front) back := by
  induction front generalizing before with
  | nil => rw [List.nil_append, callsAfter, List.nil_append, List.append_nil]
  | cons i front ih =>
    rw [List.cons_append, callsAfter, callsAfter, ih, List.append_assoc, List.append_assoc,
      List.singleton_append]

theorem mem_loads_of_callsAfter {call : NativeCall} (h : call ∈ callsAfter functions before later)
    {offset : UInt32} (hl : call.load? = some offset) :
    offset ∈ (loads (before ++ later)).map Prod.snd := by
  induction later generalizing before with
  | nil => cases h
  | cons i later ih =>
    rw [callsAfter, List.mem_append] at h
    rcases h with h | h
    · obtain ⟨native, -, rfl⟩ := Option.map_eq_some_iff.1 (Option.mem_toList.1 h)
      obtain ⟨j, hj, hload⟩ := List.exists_of_findSome?_eq_some hl
      refine List.mem_map.2 ⟨(j.address, offset), ?_, rfl⟩
      refine List.mem_filterMap.2 ⟨j, ?_, by simp [hload]⟩
      exact List.mem_append_left _ (List.mem_reverse.1 hj)
    · have hmem := ih h
      rwa [List.append_assoc, List.singleton_append] at hmem

end Instruction

namespace Container

open Instruction

variable (c : Container)

/-- What a call shows, if the names of characters are these. -/
def messageRef (nameAt : UInt32 → String) (call : NativeCall) : MessageRef :=
  match call.native with
  | .message => ⟨call.address, call.push, (c.messageText? call.push).getD ""⟩
  | .name => ⟨call.address, nameIndex, call.load?.elim "" nameAt⟩

/-- A message that is shown is in the message table and segment. -/
def Shows (call : NativeCall) : Prop :=
  call.native = .message → (c.messageText? call.push).isSome

variable {c}

theorem shown_eq_ok_iff (call : NativeCall) (m : MessageRef) :
    c.shown call.address call.push call.load? call.native = .ok m ↔
      c.Shows call ∧ m = c.messageRef c.stringAt call := by
  unfold shown Shows messageRef
  cases call.native with
  | name =>
    exact ⟨fun h ↦ ⟨fun hn ↦ (by cases hn), (Except.ok.inj h).symm⟩,
      fun h ↦ congrArg _ h.2.symm⟩
  | message =>
    cases c.messageText? call.push with
    | none => simp
    | some text => simp [eq_comm]

/-- Looking for references in instructions is to show their calls one after the other. -/
theorem collect_eq (before later : List Instruction) :
    c.collect (lastPush before) (lastLoad? before) later =
      ((callsAfter c.functions before later).mapM fun call ↦
        c.shown call.address call.push call.load? call.native).map (.mk (loads later)) := by
  induction later generalizing before with
  | nil => rfl
  | cons i later ih =>
    have hshown : (i.native? c.functions).toList.mapM
          (c.shown i.address (lastPush before) (lastLoad? before)) =
        (i.call? c.functions before).toList.mapM fun call ↦
          c.shown call.address call.push call.load? call.native := by
      unfold call?
      cases i.native? c.functions <;> rfl
    have hloads : i.loaded?.toList.map (i.address, ·) ++ loads later = loads (i :: later) := by
      unfold loads
      rw [List.filterMap_cons]
      cases i.loaded? <;> rfl
    rw [collect, ← lastPush_append, ← lastLoad?_append, ih, hshown, callsAfter, List.mapM_append,
      ← hloads]
    cases (i.call? c.functions before).toList.mapM fun call ↦
      c.shown call.address call.push call.load? call.native with
    | error e => rfl
    | ok shown =>
      cases (callsAfter c.functions (before ++ [i]) later).mapM fun call ↦
        c.shown call.address call.push call.load? call.native <;> rfl

theorem collect_eq_ok_iff {is : List Instruction} {refs : References} :
    c.collect 0 none is = .ok refs ↔ (∀ call ∈ calls c.functions is, c.Shows call) ∧
      refs = ⟨loads is, (calls c.functions is).map (c.messageRef c.stringAt)⟩ := by
  have hcollect := collect_eq (c := c) [] is
  change c.collect 0 none is = _ at hcollect
  rw [hcollect, map_eq_ok_iff]
  simp only [mapM_eq_ok_iff fun call _ ↦ shown_eq_ok_iff call]
  refine ⟨fun h ↦ ?_, fun h ↦ ?_⟩
  · obtain ⟨_, ⟨hs, rfl⟩, rfl⟩ := h
    exact ⟨hs, rfl⟩
  · obtain ⟨hs, rfl⟩ := h
    exact ⟨_, ⟨hs, rfl⟩, rfl⟩

/-- A container has references if its walk has no error and every message that is shown exists. -/
theorem references_eq_ok_iff {names : NameIndex} {refs : References} :
    c.references names = .ok refs ↔
      ∃ is, c.walk names = ⟨is, none⟩ ∧ (∀ call ∈ calls c.functions is, c.Shows call) ∧
        refs = ⟨latest (loads is), (calls c.functions is).map (c.messageRef c.stringAt)⟩ := by
  unfold references
  dsimp only
  obtain ⟨is, failure?⟩ := c.walk names
  simp only [bind_eq_ok_iff, collect_eq_ok_iff, Walk.mk.injEq]
  cases failure? with
  | some e => simp only [reduceCtorEq, and_false, false_and, exists_false]
  | none =>
    simp only [pure_eq_ok_iff, and_true, exists_eq_left']
    constructor
    · intro h
      obtain ⟨_, ⟨hs, rfl⟩, rfl⟩ := h
      exact ⟨hs, rfl⟩
    · intro h
      obtain ⟨hs, rfl⟩ := h
      exact ⟨_, ⟨hs, rfl⟩, rfl⟩

/-- In code of at most 4 GiB every load has an address of its own. -/
theorem latest_loads {names : NameIndex} {is : List Instruction} (hsize : c.Addressable)
    (hw : c.walk names = ⟨is, none⟩) : latest (loads is) = loads is :=
  latest_eq_self (pairwise_loads (Scope.ascending_of_walk hw hsize))

end Container

end NovelScript
