import NovelScript.Proofs.Instruction.Failing
import NovelScript.Proofs.Instruction.Spelling

/-!
Programs for a container. Whatever its spelling, a program that is valid for the container is
assembled, and the container with that code is decoded to the program (`walk_assemble`). Its
instructions stand at the running sum of their sizes, as a word.
-/

namespace NovelScript

namespace Container

/-- The first label at an offset, by its place in the table. -/
def labelAt? (c : Container) (offset : UInt32) : Option Nat :=
  c.labels.toList.findIdx? (·.offset == offset)

/-- The operands that a shape may have in the container with `size` bytes of code. A call has a stack
size if the first symbol with the function's name has the convention 1. -/
inductive Admits (c : Container) (size : Nat) (op : Opcode) : Shape → Operand → Prop
  | bare : c.Admits size op .bare .none
  | jump {target : UInt32}
      (h : op = .jump ∨ target.toNat < size ∨ ∃ l ∈ c.labels, l.offset = target) :
      c.Admits size op .jump (.target target (c.labelAt? target))
  | value {width : Width} {word : UInt32} (hw : word.toNat < width.bound) :
      c.Admits size op (.value width) (.value word)
  | string {width : Width} {offset : UInt32} (hw : offset.toNat < width.bound)
      (hs : offset.toNat < c.strings.size) : c.Admits size op (.string width) (.string offset)
  | frame {width : Width} {word : UInt32} (hw : word.toNat < width.bound) :
      c.Admits size op (.frame width) (.frame word)
  | call {index : Nat} {f : Function} {symbol : Symbol} {count : Option UInt8}
      (hf : c.functions[index]? = some f)
      (hs : c.symbols.find? (·.name == f.name) = some symbol)
      (hc : count.isSome ↔ symbol.convention = 1) : c.Admits size op .call (.call index count)
  | countedCall {width : Width} {index : Nat} {count : UInt8} (hw : index < width.bound)
      (hi : index < c.functions.size) :
      c.Admits size op (.countedCall width) (.call index (some count))

/-- Only a byte outside the instruction set stands alone. -/
def Valid (c : Container) (size : Nat) (i : Instruction) : Prop :=
  match i.opcode? with
  | some op => c.Admits size op op.shape i.operand
  | none => i.operand = .none

/-- What the code of a container means once it is `size` bytes long. -/
def scopeOfSize (c : Container) (size : Nat) : Scope :=
  { c.scope (.ofContainer c) with codeSize := size }

variable {c : Container} {size : Nat}

theorem label?_ofContainer (offset : UInt32) :
    (NameIndex.ofContainer c).label? offset = c.labelAt? offset := by
  rw [NameIndex.label?_ofContainer, List.idxOf?, List.findIdx?_map]
  rfl

theorem labelAt?_isSome_iff {offset : UInt32} :
    (c.labelAt? offset).isSome ↔ ∃ l ∈ c.labels, l.offset = offset := by
  simp only [labelAt?, List.findIdx?_isSome, List.any_eq_true, Array.mem_def, beq_iff_eq]

theorem symbol?_eq_some_iff {name : String} {place : Nat} :
    (NameIndex.ofContainer c).symbol? name = some place ↔
      place < c.symbols.toList.length ∧ c.symbols.toList.findIdx (·.name == name) = place := by
  rw [NameIndex.symbol?_ofContainer, List.idxOf?, List.findIdx?_map]
  exact List.findIdx?_eq_some_iff_findIdx_eq

/-- Looking up a name in the index leads to the first symbol of that name. -/
theorem find?_symbols_eq_some_iff {name : String} {symbol : Symbol} :
    c.symbols.find? (·.name == name) = some symbol ↔
      ∃ place, (NameIndex.ofContainer c).symbol? name = some place ∧
        c.symbols[place]? = some symbol := by
  simp only [symbol?_eq_some_iff]
  rw [← Array.find?_toList, List.find?_eq_getElem?_findIdx]
  constructor
  · intro h
    obtain ⟨hlt, -⟩ := List.getElem?_eq_some_iff.1 h
    exact ⟨_, ⟨hlt, rfl⟩, Array.getElem?_toList.symm.trans h⟩
  · rintro ⟨_, ⟨-, rfl⟩, h⟩
    exact Array.getElem?_toList.trans h

theorem callConvention_eq_cdecl_iff {symbol : Symbol} :
    symbol.callConvention = .cdecl ↔ symbol.convention = 1 := by
  unfold Symbol.callConvention
  split
  · simp_all
  · split <;> simp_all

theorem beq_callConvention_iff {place : Nat} {symbol : Symbol}
    (h : c.symbols[place]? = some symbol) :
    (c.symbols.map (·.callConvention))[place]? == some .cdecl ↔ symbol.convention = 1 := by
  rw [Array.getElem?_map, h, Option.map_some, beq_iff_eq, Option.some.injEq,
    callConvention_eq_cdecl_iff]

theorem jumpsTo_iff {op : Opcode} {target : UInt32} :
    ((NameIndex.ofContainer c).label? target).isSome ∨ target.toNat < size ∨ op = .jump ↔
      op = .jump ∨ target.toNat < size ∨ ∃ l ∈ c.labels, l.offset = target := by
  rw [label?_ofContainer, labelAt?_isSome_iff, or_comm, or_assoc, or_left_comm]

theorem Admits.scope {op : Opcode} {shape : Shape} {o : Operand} (h : c.Admits size op shape o)
    (hfunctions : c.functions.size < 0x80000000) : (c.scopeOfSize size).Admits op shape o := by
  have hlt : ∀ {index : Nat} {f : Function}, c.functions[index]? = some f → index < 0x80000000 := by
    intro index f hf
    obtain ⟨hindex, -⟩ := Array.getElem?_eq_some_iff.1 hf
    omega
  cases h with
  | bare => exact .bare
  | jump hto =>
    rw [← label?_ofContainer]
    exact .jump (jumpsTo_iff.2 hto)
  | value hw => exact .value hw
  | string hw hs => exact .string hw hs
  | frame hw => exact .frame hw
  | call hf hs hc =>
    obtain ⟨place, hplace, hsymbol⟩ := find?_symbols_eq_some_iff.1 hs
    have hcdecl := hc.trans (beq_callConvention_iff hsymbol).symm
    exact .call (hlt hf) hf hplace (Bool.eq_iff_iff.2 hcdecl)
  | countedCall hw hi =>
    have hf := Array.getElem?_eq_getElem hi
    exact .countedCall (hlt hf) hw hf

/-- What a walk takes as valid is valid for the container, however many functions it has. -/
theorem admits_of_scope {op : Opcode} {shape : Shape} {o : Operand}
    (h : (c.scopeOfSize size).Admits op shape o) : c.Admits size op shape o := by
  cases h with
  | bare => exact .bare
  | jump hto =>
    rename_i target
    have hadmits : c.Admits size op .jump (.target target (c.labelAt? target)) :=
      .jump (jumpsTo_iff.1 hto)
    rwa [← label?_ofContainer] at hadmits
  | value hw => exact .value hw
  | string hw hs => exact .string hw hs
  | frame hw => exact .frame hw
  | call hi hf hs hc =>
    have hsymbol := Array.getElem?_eq_getElem (symbol?_eq_some_iff.1 hs).1
    have hone := (Bool.eq_iff_iff.1 hc).trans (beq_callConvention_iff hsymbol)
    exact .call hf (find?_symbols_eq_some_iff.2 ⟨_, hs, hsymbol⟩) hone
  | countedCall hi hw hf => exact .countedCall hw (Array.getElem?_eq_some_iff.1 hf).1

theorem Valid.scope {i : Instruction} (h : c.Valid size i)
    (hfunctions : c.functions.size < 0x80000000) : (c.scopeOfSize size).Valid i := by
  unfold Valid at h
  unfold Scope.Valid
  cases hop : i.opcode? with
  | none =>
    rw [hop] at h
    exact h
  | some op =>
    rw [hop] at h
    exact Admits.scope h hfunctions

theorem valid_of_scope {i : Instruction} (h : (c.scopeOfSize size).Valid i) : c.Valid size i := by
  unfold Scope.Valid at h
  unfold Valid
  cases hop : i.opcode? with
  | none =>
    rw [hop] at h
    exact h
  | some op =>
    rw [hop] at h
    exact admits_of_scope h

end Container

namespace Container

open Instruction Numeral Text

/-- A valid program is assembled from any of its spellings, and comes back when the container with the
new code is decoded, each instruction where those before it end. Their sum is the address as a
word, and in code of at most 4 GiB it is the address itself. -/
theorem walk_assemble {c : Container} (hfunctions : c.functions.size < 0x80000000)
    {is : List Instruction} (hv : ∀ i ∈ is, c.Valid (totalSize is) i) {source : String}
    (hsource : Spelled source.toList is) :
    (∃ code, assemble source = .ok code ∧
      { c with code := code.toArray }.walk (.ofContainer c) = ⟨place 0 is, none⟩) ∧
    ∀ before i after, place 0 is = before ++ i :: after →
      i.address = .ofNat (totalSize before) ∧
        (totalSize is ≤ UInt32.size → i.address.toNat = totalSize before) := by
  have hvalid := fun i hi ↦ (hv i hi).scope hfunctions
  have hplaced := placed_place 0 is
  have hvalidPlaced := valid_of_mem_place hvalid 0
  have hbytes := flatMap_bytes_place 0 is
  constructor
  · have hscope : { c with code := (is.flatMap Instruction.bytes).toArray }.scope (.ofContainer c) =
        c.scopeOfSize (totalSize is) := by
      rw [← length_flatMap_bytes hvalid]
      rfl
    refine ⟨_, assemble_spelled hsource hvalid, ?_⟩
    rw [walk, hscope, Scope.walk_eq_none_iff]
    exact ⟨hplaced, hvalidPlaced, hbytes.symm⟩
  · intro before i after hsplit
    have htotal : totalSize (place 0 is) = totalSize is := by
      rw [← length_flatMap_bytes hvalidPlaced, hbytes, length_flatMap_bytes hvalid]
    rw [hsplit] at hplaced htotal
    refine ⟨?_, fun hsize ↦ hplaced.toNat_address (htotal.symm ▸ hsize)⟩
    rw [hplaced.address_eq, Nat.zero_add]

/-- Two functions, the first of which has a caller that clears the stack, and a label past the code. -/
def programSample : Container where
  symbols := #[⟨"f", [], 0, 0, 0, 1⟩, ⟨"g", [], 0, 0, 0, 2⟩, ⟨"g", [], 0, 0, 0, 1⟩]
  functions := #[⟨"f", 0, 0, 0⟩, ⟨"g", 1, 0, 0⟩]
  labels := #[⟨"out", 300⟩]
  strings := #[0, 0]

def program : List Instruction :=
  [⟨0, 0x0B, .none⟩, ⟨0, 0x2D, .call 0 (some 8)⟩, ⟨0, 0x2D, .call 1 none⟩, ⟨0, 0x09, .string 1⟩,
    ⟨0, 0x01, .target 300 (some 0)⟩]

/-- The program in mixed spelling. Some lines end in a carriage return as well. -/
def programSource : String :=
  "# raw\r\n\tbyte 0x0b,\r\nCall 0,, 008 \n\r\ncall 1\n  //\nLoadString1 0X1\nTJUMP 300"

theorem spelled_programSource : Spelled programSource.toList program := by
  have hdenotes : ∀ {radix : Radix} {digits : List Char} {n : Nat}, digits ≠ [] →
      readDigits radix 0 digits = .ok n → Denotes radix digits n :=
    fun hne h ↦ ((readDigits_eq_ok_iff hne).1 h).1
  have hdecimal : ∀ {digits : List Char} {n : Nat}, digits ≠ [] →
      readDigits .ten 0 digits = .ok n → Spells digits n := by
    intro digits n hne h
    have hspells := Spells.decimal (hdenotes hne h) (List.forall_mem_nil (· = ','))
    rwa [List.append_nil] at hspells
  have hcomment : OnLine "# raw\r".toList [] :=
    @OnLine.comment [] ['#'] " raw\r".toList (by simp [IsGap]) (.inl rfl) (by decide)
  have hbyte : OnLine "\tbyte 0x0b,\r".toList [⟨0, 0x0B, .none⟩] := by
    refine .instruction (spaced_iff.2 ⟨rfl, by decide⟩) ⟨_, _, rfl, by decide, .cons ?_ .nil⟩
    exact @Spells.hexadecimal 'x' ['0', 'b'] [','] 11 (.inl rfl) (hdenotes (by decide) rfl)
      (by simp)
  have hcall : OnLine "Call 0,, 008 ".toList [⟨0, 0x2D, .call 0 (some 8)⟩] := by
    refine .instruction (spaced_iff.2 ⟨rfl, by decide⟩) ⟨_, _, rfl, by decide, .cons ?_ (.cons ?_ .nil)⟩
    · exact @Spells.decimal ['0'] [',', ','] 0 (hdenotes (by decide) rfl) (by simp)
    · exact hdecimal (by decide) rfl
  have hblank : OnLine "\r".toList [] := .blank (by simp [IsGap, isBlank])
  have hshort : OnLine "call 1".toList [⟨0, 0x2D, .call 1 none⟩] := by
    refine .instruction (spaced_iff.2 ⟨rfl, by decide⟩) ⟨_, _, rfl, by decide, .cons ?_ .nil⟩
    exact hdecimal (by decide) rfl
  have hslashes : OnLine "  //".toList [] :=
    @OnLine.comment [' ', ' '] ['/', '/'] [] (by simp [IsGap, isBlank]) (.inr rfl) (by simp)
  have hstring : OnLine "LoadString1 0X1".toList [⟨0, 0x09, .string 1⟩] := by
    refine .instruction (spaced_iff.2 ⟨rfl, by decide⟩) ⟨_, _, rfl, by decide, .cons ?_ .nil⟩
    exact @Spells.hexadecimal 'X' ['1'] [] 1 (.inr rfl) (hdenotes (by decide) rfl) (by simp)
  have hjump : OnLine "TJUMP 300".toList [⟨0, 0x01, .target 300 (some 0)⟩] := by
    refine .instruction (spaced_iff.2 ⟨rfl, by decide⟩) ⟨_, _, rfl, by decide, .cons ?_ .nil⟩
    exact hdecimal (by decide) rfl
  have hlines : programSource.toList = "# raw\r".toList ++ '\n' :: ("\tbyte 0x0b,\r".toList ++
      '\n' :: ("Call 0,, 008 ".toList ++ '\n' :: ("\r".toList ++ '\n' :: ("call 1".toList ++
        '\n' :: ("  //".toList ++ '\n' :: ("LoadString1 0X1".toList ++ '\n' ::
          "TJUMP 300".toList)))))) := by
    decide +kernel
  rw [hlines]
  exact .cons hcomment (.cons hbyte (.cons hcall (.cons hblank (.cons hshort (.cons hslashes
    (.cons hstring (.last hjump)))))))

theorem valid_program : ∀ i ∈ program, programSample.Valid (totalSize program) i := by
  simp only [program, List.forall_mem_cons]
  refine ⟨rfl, ?_, ?_, ?_, ?_, List.forall_mem_nil _⟩
  · exact .call rfl rfl (by decide)
  · exact .call rfl rfl (by decide)
  · exact .string (by decide) (by decide)
  · exact .jump (.inr (.inr ⟨⟨"out", 300⟩, by simp [programSample], rfl⟩))

theorem walk_assemble_program :
    programSample.functions.size < 0x80000000 ∧
      (∀ i ∈ program, programSample.Valid (totalSize program) i) ∧
      Spelled programSource.toList program ∧
      ∃ code, assemble programSource = .ok code ∧
        { programSample with code := code.toArray }.walk (.ofContainer programSample) =
          ⟨[⟨0, 0x0B, .none⟩, ⟨1, 0x2D, .call 0 (some 8)⟩, ⟨7, 0x2D, .call 1 none⟩,
            ⟨12, 0x09, .string 1⟩, ⟨14, 0x01, .target 300 (some 0)⟩], none⟩ := by
  have hfunctions : programSample.functions.size < 0x80000000 := by decide
  obtain ⟨hwalk, -⟩ := walk_assemble hfunctions valid_program spelled_programSource
  exact ⟨hfunctions, valid_program, spelled_programSource, hwalk⟩

end Container

end NovelScript
