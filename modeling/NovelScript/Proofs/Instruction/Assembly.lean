import NovelScript.Proofs.Instruction.Failing
import NovelScript.Proofs.Instruction.Spelling

/-!
Decoded code is assembled again. Every instruction of a walk, written as a line of assembler
source, spells itself (`onLine_source`), and so the lines of a whole walk are assembled to the code
that was walked.
-/

namespace NovelScript

open Numeral Outcome Text

theorem mem_range_of_isDigit {c : Char} (h : c.isDigit = true) : '0' ≤ c ∧ c ≤ '_' := by
  simp only [Char.isDigit, Bool.and_eq_true, decide_eq_true_eq] at h
  exact ⟨h.1, Char.le_trans h.2 (by decide)⟩

namespace Numeral

theorem spells_toDigits (n : Nat) : Spells (Nat.toDigits 10 n) n := by
  have h := Spells.decimal (denotes_toDigits n) (List.forall_mem_nil (· = ','))
  rwa [List.append_nil] at h

theorem spellsAll_toDigits (ns : List Nat) : SpellsAll (ns.map (Nat.toDigits 10)) ns := by
  induction ns with
  | nil => exact .nil
  | cons n later ih => exact .cons (spells_toDigits n) ih

end Numeral

namespace Instruction

variable {s : Scope} {i : Instruction}

/-- The words of an instruction's line of source. -/
def tokens (i : Instruction) : List (List Char) :=
  match i.opcode? with
  | some op => op.mnemonic.toList :: i.operand.arguments.map (Nat.toDigits 10)
  | none => ["BYTE".toList, Nat.toDigits 10 i.code.toNat]

theorem tokens_eq (i : Instruction) :
    i.tokens = i.mnemonic.toList :: i.arguments.map (Nat.toDigits 10) := by
  unfold tokens mnemonic arguments
  cases i.opcode? <;> rfl

theorem spelledBy_tokens (i : Instruction) : i.SpelledBy i.tokens := by
  have hrange := i.mem_range_of_mem_mnemonic
  have hupper : i.mnemonic.toList.map Char.toUpper = i.mnemonic.toList :=
    (List.map_congr_left fun c hc ↦ (plain_of_range (hrange c hc)).2.1).trans (List.map_id _)
  exact ⟨_, _, i.tokens_eq, hupper, spellsAll_toDigits i.arguments⟩

theorem source_toList (i : Instruction) : i.source.toList = [' '].intercalate i.tokens := by
  unfold source tokens
  cases i.opcode? with
  | none =>
    have hdigits : (decimal i.code.toNat).toList = Nat.toDigits 10 i.code.toNat :=
      String.toList_ofList
    rw [String.toList_append, hdigits, List.intercalate_cons_cons, List.intercalate_singleton]
    rfl
  | some op =>
    dsimp only
    rw [String.toList_intercalate, List.map_cons, List.map_map]
    congr 2
    refine List.map_congr_left fun n hn ↦ ?_
    simp [decimal]

theorem isWord_of_mem_tokens {token : List Char} (h : token ∈ i.tokens) : IsWord token := by
  rw [tokens_eq] at h
  obtain rfl | hmem := List.mem_cons.1 h
  · refine isWord_of_range ?_ i.mem_range_of_mem_mnemonic
    unfold mnemonic
    cases i.opcode? with
    | none => decide
    | some op => exact op.mnemonic_ne_nil
  · obtain ⟨n, -, rfl⟩ := List.mem_map.1 hmem
    exact isWord_of_range Nat.toDigits_ne_nil fun c hc ↦
      mem_range_of_isDigit (isDigit_of_mem_toDigits hc)

/-- An instruction spells itself. -/
theorem onLine_source (i : Instruction) : OnLine i.source.toList [i] := by
  rw [source_toList]
  exact .instruction (spaced_intercalate fun _ ↦ isWord_of_mem_tokens) i.spelledBy_tokens

theorem spelled_sources (is : List Instruction) :
    Spelled (String.join (is.map fun i ↦ i.source ++ "\n")).toList is := by
  induction is with
  | nil => exact .last (.blank (by simp [IsGap]))
  | cons i later ih =>
    have htext : (String.join ((i :: later).map fun i ↦ i.source ++ "\n")).toList =
        i.source.toList ++ '\n' :: (String.join (later.map fun i ↦ i.source ++ "\n")).toList := by
      simp
    rw [htext]
    exact .cons i.onLine_source ih

/-- Instructions as lines of source are assembled to their bytes. -/
theorem assemble_sources {is : List Instruction} (h : ∀ i ∈ is, s.Valid i) :
    assemble (String.join (is.map fun i ↦ i.source ++ "\n")) = .ok (is.flatMap (·.bytes)) :=
  assemble_spelled (spelled_sources is) h

end Instruction

namespace Container

open Instruction

/-- Decoding loses nothing: the instructions of a walk without an error, written as source, are
assembled to the code, and in code of at most 4 GiB they stand one after the other from its front to
its end. -/
theorem assemble_walk {c : Container} {names : NameIndex} {is : List Instruction}
    (h : c.walk names = ⟨is, none⟩) :
    (c.Addressable → (∀ i ∈ is.head?, i.address = 0) ∧
      (∀ before i j after, is = before ++ i :: j :: after →
        j.address.toNat = i.address.toNat + i.size) ∧
      ∀ i ∈ is.getLast?, i.address.toNat + i.size = c.code.size) ∧
      assemble (String.join (is.map fun i ↦ i.source ++ "\n")) = .ok c.code.toList := by
  obtain ⟨hplaced, hvalid, hcode⟩ := Scope.walk_eq_none_iff.1 h
  refine ⟨fun hsize ↦ ?_, by rw [assemble_sources hvalid, hcode]⟩
  rw [Addressable, ← Array.length_toList, hcode, length_flatMap_bytes hvalid] at hsize
  rw [← Array.length_toList, hcode, length_flatMap_bytes hvalid]
  refine ⟨?_, ?_, ?_⟩
  · intro i hi
    obtain ⟨later, rfl⟩ := List.head?_eq_some_iff.1 hi
    exact hplaced.1
  · intro before i j after his
    subst his
    have hi := hplaced.toNat_address hsize
    rw [List.append_cons] at hplaced hsize
    rw [hplaced.toNat_address hsize, hi]
    simp
  · intro i hi
    obtain ⟨before, rfl⟩ := List.getLast?_eq_some_iff.1 hi
    rw [hplaced.toNat_address hsize]
    simp

/-- A raw byte, a call with a stack size, a string in a byte and a jump to a label past the end. -/
def codeSample : Container where
  symbols := #[⟨"f", [], 0, 0, 0, 1⟩]
  functions := #[⟨"f", 0, 0, 0⟩]
  labels := #[⟨"out", 300⟩]
  strings := #[0, 0]
  code := #[0x0B, 0x2D, 0, 0, 0, 0, 8, 0x09, 0, 0x01, 0x2C, 1, 0, 0]

theorem assemble_walk_codeSample :
    ∃ is, codeSample.walk (.ofContainer codeSample) = ⟨is, none⟩ ∧
      is.map (·.source) = ["BYTE 11", "CALL 0 8", "LOADSTRING1 0", "TJUMP 300"] ∧
      is.map (·.address) = [0, 1, 7, 9] ∧
      (∀ i ∈ is.getLast?, i.address.toNat + i.size = 14) ∧
      assemble (String.join (is.map fun i ↦ i.source ++ "\n")) = .ok codeSample.code.toList := by
  have hrun : ((codeSample.walk (.ofContainer codeSample)).failure?,
      (codeSample.walk (.ofContainer codeSample)).instructions.map fun i ↦ (i.source, i.address)) =
        (none, [("BYTE 11", 0), ("CALL 0 8", 1), ("LOADSTRING1 0", 7), ("TJUMP 300", 9)]) := by
    decide +kernel
  generalize hw : codeSample.walk (.ofContainer codeSample) = w at hrun
  obtain ⟨is, failure?⟩ := w
  obtain ⟨rfl, his⟩ := Prod.mk.inj hrun
  obtain ⟨haddresses, hassembled⟩ := assemble_walk hw
  obtain ⟨-, -, hlast⟩ := haddresses (by decide)
  have hsources := congrArg (List.map Prod.fst) his
  have haddresses := congrArg (List.map Prod.snd) his
  rw [List.map_map] at hsources haddresses
  exact ⟨is, rfl, hsources, haddresses, hlast, hassembled⟩

end Container

end NovelScript
