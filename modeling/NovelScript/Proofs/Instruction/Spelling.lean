import NovelScript.Assembler
import NovelScript.Proofs.Instruction.Encoding
import NovelScript.Proofs.Text.Lines
import NovelScript.Proofs.Text.Numeral

/-!
Assembler source. Instructions may be spelled in several ways, one on each line, with blank lines and
comments in between. Whatever the spelling, they are assembled to their bytes (`assemble_spelled`).
-/

namespace NovelScript

open Outcome Text

namespace Numeral

/-- A number as an operand: in decimal, or in hexadecimal behind its sign, with commas behind it or
not. -/
inductive Spells : List Char → Nat → Prop
  | decimal {digits commas : List Char} {n : Nat} (h : Denotes .ten digits n)
      (hcommas : ∀ c ∈ commas, c = ',') : Spells (digits ++ commas) n
  | hexadecimal {x : Char} {digits commas : List Char} {n : Nat} (hx : x = 'x' ∨ x = 'X')
      (h : Denotes .sixteen digits n) (hcommas : ∀ c ∈ commas, c = ',') :
      Spells ('0' :: x :: digits ++ commas) n

/-- Numbers as operands, a word for each. -/
inductive SpellsAll : List (List Char) → List Nat → Prop
  | nil : SpellsAll [] []
  | cons {token : List Char} {n : Nat} {tokens : List (List Char)} {ns : List Nat}
      (h : Spells token n) (hlater : SpellsAll tokens ns) : SpellsAll (token :: tokens) (n :: ns)

theorem SpellsAll.length_eq {tokens : List (List Char)} {ns : List Nat} (h : SpellsAll tokens ns) :
    tokens.length = ns.length := by
  induction h with
  | nil => rfl
  | cons h hlater ih => rw [List.length_cons, List.length_cons, ih]

end Numeral

open Numeral

/-- Capital letters, digits and the underscore lie in this range, and nothing that assembler
source treats in a special way does. -/
theorem plain_of_range {c : Char} (h : '0' ≤ c ∧ c ≤ '_') :
    isBlank c = false ∧ c.toUpper = c ∧ c ≠ '#' ∧ c ≠ '/' := by
  have hlow : 48 ≤ c.toNat := h.1
  have hhigh : c.toNat ≤ 95 := h.2
  have hne : ∀ d : Char, d.toNat < 48 → c ≠ d := by
    intro d hd he
    rw [he] at hlow
    omega
  refine ⟨?_, ?_, hne _ (by decide), hne _ (by decide)⟩
  · simp only [isBlank, Bool.or_eq_false_iff, Bool.and_eq_false_iff, decide_eq_false_iff_not,
      beq_eq_false_iff_ne]
    omega
  · have hlower : ¬('a'.val ≤ c.val ∧ c.val ≤ 'z'.val) := fun hl ↦ by
      have : 97 ≤ c.toNat := hl.1
      omega
    exact dif_neg hlower

theorem mem_range_of_all {text : List Char} (h : text.all fun c ↦ '0' ≤ c ∧ c ≤ '_') :
    ∀ c ∈ text, '0' ≤ c ∧ c ≤ '_' :=
  fun c hc ↦ of_decide_eq_true (List.all_eq_true.1 h c hc)

theorem isWord_of_range {word : List Char} (hne : word ≠ [])
    (h : ∀ c ∈ word, '0' ≤ c ∧ c ≤ '_') : IsWord word :=
  ⟨hne, fun c hc ↦ (plain_of_range (h c hc)).1⟩

namespace Opcode

theorem mnemonic_ne_nil (op : Opcode) : op.mnemonic.toList ≠ [] := by
  cases op <;> decide

theorem mem_range_of_mem_mnemonic (op : Opcode) :
    ∀ c ∈ op.mnemonic.toList, '0' ≤ c ∧ c ≤ '_' := by
  apply mem_range_of_all
  cases op <;> decide

/-- A raw byte is written with a word of its own. -/
theorem mnemonic_ne_byte (op : Opcode) : op.mnemonic ≠ "BYTE" := by
  intro he
  have hop := ofMnemonic?_mnemonic op
  have hnone : ofMnemonic? "BYTE" = none := by decide
  rw [he, hnone] at hop
  cases hop

end Opcode

theorem Field.plain_width (width : Width) : (Field.plain width).width = width := by
  cases width <;> rfl

namespace Assembler

variable {line : Nat}

theorem dropCommas_append {digits commas : List Char} (h : ',' ∉ digits)
    (hcommas : ∀ c ∈ commas, c = ',') :
    ((digits ++ commas).reverse.dropWhile (· == ',')).reverse = digits := by
  have hall : ∀ c ∈ commas.reverse, (c == ',') = true := by
    intro c hc
    exact beq_iff_eq.2 (hcommas c (List.mem_reverse.1 hc))
  rw [List.reverse_append, List.dropWhile_append_of_pos hall]
  cases hr : digits.reverse with
  | nil => exact (List.reverse_eq_nil_iff.1 hr).symm
  | cons c later =>
    have hc : c ∈ digits := List.mem_reverse.1 (hr ▸ List.mem_cons_self)
    have hne : (c == ',') = false := beq_eq_false_iff_ne.2 fun he ↦ h (he ▸ hc)
    rw [List.dropWhile_cons, hne, if_neg Bool.false_ne_true, ← hr, List.reverse_reverse]

theorem integer_of_spells {token : List Char} {n : Nat} (h : Spells token n)
    (hn : n < UInt32.size) : integer line token = .ok (UInt32.ofNat n) := by
  have hword : (UInt32.ofNat n).toNat = n := UInt32.toNat_ofNat_of_lt' hn
  unfold integer
  cases h with
  | decimal h hcommas =>
    have hsign : ∀ x, hexValue? x = none → x ∉ _ := fun x hx ↦ h.not_mem hx
    rw [dropCommas_append (hsign ',' (by decide)) hcommas]
    rw [← hword] at h
    dsimp only
    split
    · exact absurd (by simp) (hsign 'x' (by decide))
    · exact absurd (by simp) (hsign 'X' (by decide))
    · rw [h.readWord]
      rfl
  | @hexadecimal x digits _ _ hx h hcommas =>
    have hcomma : ',' ∉ '0' :: x :: digits := by
      rw [List.mem_cons, List.mem_cons, not_or, not_or]
      refine ⟨by decide, ?_, h.not_mem (by decide)⟩
      obtain rfl | rfl := hx <;> decide
    rw [dropCommas_append hcomma hcommas]
    rw [← hword] at h
    obtain rfl | rfl := hx
    · exact congrArg (Except.mapError _) h.readWord
    · exact congrArg (Except.mapError _) h.readWord

theorem field_of_spells {f : Field} {token : List Char} {n : Nat} (h : Spells token n)
    (hn : n < f.width.bound) : field line f token = .ok (Bytes.littleEndian f.width.size n) := by
  have hlt : n < UInt32.size := Nat.lt_of_lt_of_le hn f.width.bound_le
  have hword : (UInt32.ofNat n).toNat = n := UInt32.toNat_ofNat_of_lt' hlt
  rw [field, integer_of_spells h hlt]
  change (if (UInt32.ofNat n).toNat < f.width.bound then _ else _) = _
  rw [hword, if_pos hn]
  rfl

theorem fields_of_spellsAll {used : List (Field × Nat)} {left : List Field}
    {tokens : List (List Char)} (h : SpellsAll tokens (used.map Prod.snd))
    (hfit : ∀ u ∈ used, u.2 < u.1.width.bound) :
    ((used.map Prod.fst ++ left).zip tokens).mapM (fun p ↦ field line p.1 p.2) =
      .ok (used.map fun u ↦ Bytes.littleEndian u.1.width.size u.2) := by
  induction used generalizing tokens with
  | nil =>
    cases h
    rw [List.zip_nil_right]
    rfl
  | cons u later ih =>
    obtain ⟨hu, hlater⟩ := List.forall_mem_cons.1 hfit
    cases h with
    | cons htoken htokens =>
      rw [List.map_cons, List.cons_append, List.zip_cons_cons, List.mapM_cons,
        field_of_spells htoken hu, ih htokens hlater]
      rfl

/-- Spelled operands give the bytes of their fields. Only an optional field may be left over. -/
theorem operand_of_spellsAll {mnemonic : String} {required : List Field} {optional? : Option Field}
    {used : List (Field × Nat)} {left : List Field} {tokens : List (List Char)}
    (h : SpellsAll tokens (used.map Prod.snd)) (hfit : ∀ u ∈ used, u.2 < u.1.width.bound)
    (hused : used.map Prod.fst ++ left = required ++ optional?.toList)
    (hrequired : required.length ≤ used.length) :
    operand line mnemonic required optional? tokens =
      .ok (used.flatMap fun u ↦ Bytes.littleEndian u.1.width.size u.2) := by
  have hlength : tokens.length = used.length := by rw [h.length_eq, List.length_map]
  have hcount : ¬(tokens.length < required.length ∨
      (used.map Prod.fst ++ left).length < tokens.length) := by
    rw [List.length_append, List.length_map]
    omega
  rw [operand, ← hused]
  dsimp only
  rw [if_neg hcount, fields_of_spellsAll h hfit]
  rfl

theorem operand_of_spells {mnemonic : String} {f : Field} {token : List Char} {n : Nat}
    (h : Spells token n) (hn : n < f.width.bound) :
    operand line mnemonic [f] none [token] = .ok (Bytes.littleEndian f.width.size n) := by
  have hall : SpellsAll [token] ([(f, n)].map Prod.snd) := .cons h .nil
  have ho := @operand_of_spellsAll line mnemonic [f] none _ [] _ hall
    (List.forall_mem_singleton.2 hn) rfl (Nat.le_refl 1)
  rwa [List.flatMap_singleton] at ho

theorem operand_of_spells_pair {mnemonic : String} {required : List Field}
    {optional? : Option Field} {f g : Field} {s t : List Char} {m n : Nat} (hs : Spells s m)
    (ht : Spells t n) (hm : m < f.width.bound) (hn : n < g.width.bound)
    (hfields : [f, g] = required ++ optional?.toList) (hrequired : required.length ≤ 2) :
    operand line mnemonic required optional? [s, t] =
      .ok (Bytes.littleEndian f.width.size m ++ Bytes.littleEndian g.width.size n) := by
  have hall : SpellsAll [s, t] ([(f, m), (g, n)].map Prod.snd) := .cons hs (.cons ht .nil)
  have ho := @operand_of_spellsAll line mnemonic required optional? _ [] _ hall
    (List.forall_mem_cons.2 ⟨hm, List.forall_mem_singleton.2 hn⟩) hfields hrequired
  rwa [List.flatMap_cons, List.flatMap_singleton] at ho

/-- The numbers of a valid operand fit the fields of its shape and stand for its bytes. -/
theorem operand_of_admits {s : Scope} {op : Opcode} {shape : Shape} {o : Operand}
    {tokens : List (List Char)} (h : s.Admits op shape o) (htokens : SpellsAll tokens o.arguments)
    (mnemonic : String) :
    operand line mnemonic shape.fields shape.optionalField? tokens =
      .ok (shape.operandBytes o) := by
  have hplain : ∀ {width : Width} {n : Nat}, SpellsAll tokens [n] → n < width.bound →
      operand line mnemonic [.plain width] none tokens = .ok (Bytes.littleEndian width.size n) := by
    intro width n hall hn
    obtain _ | ⟨htoken, _ | _⟩ := hall
    have ho := @operand_of_spells line mnemonic (.plain width) _ _ htoken
    rw [Field.plain_width] at ho
    exact ho hn
  cases h with
  | bare =>
    cases htokens
    rfl
  | jump hto => exact hplain htokens (UInt32.toNat_lt _)
  | value hw => exact hplain htokens hw
  | string hw hs => exact hplain htokens hw
  | frame hw => exact hplain htokens hw
  | call hi hf hs hc =>
    rename_i index f symbol count
    have hindex : index < (Field.plain .four).width.bound := Nat.lt_trans hi (by decide)
    cases count with
    | none =>
      exact @operand_of_spellsAll line mnemonic [.plain .four] (some ⟨.one, "stack size"⟩)
        [(.plain .four, index)] _ _ htokens (List.forall_mem_singleton.2 hindex) rfl (Nat.le_refl 1)
    | some count =>
      obtain _ | ⟨htoken, _ | ⟨hlast, _ | _⟩⟩ := htokens
      have hcount : count.toNat < (Field.mk .one "stack size").width.bound := count.toNat_lt
      have ho := @operand_of_spells_pair line mnemonic [.plain .four] (some ⟨.one, "stack size"⟩) _ _
        _ _ _ _ htoken hlast hindex hcount rfl (by decide)
      rwa [Width.littleEndian_one] at ho
  | countedCall hi hw hf =>
    rename_i width index f count
    obtain _ | ⟨htoken, _ | ⟨hlast, _ | _⟩⟩ := htokens
    have hindex : index < (Field.mk width "a byte function index").width.bound := hw
    have hcount : count.toNat < (Field.mk .one "argc").width.bound := count.toNat_lt
    have ho := @operand_of_spells_pair line mnemonic
      [⟨width, "a byte function index"⟩, ⟨.one, "argc"⟩] none _ _ _ _ _ _ htoken hlast hindex hcount
      rfl (Nat.le_refl 2)
    rwa [Width.littleEndian_one] at ho

end Assembler

namespace Instruction

variable {s : Scope} {i : Instruction} {line : Nat}

/-- What a line of source starts with. -/
def mnemonic (i : Instruction) : String := i.opcode?.elim "BYTE" Opcode.mnemonic

/-- The numbers behind the mnemonic. -/
def arguments (i : Instruction) : List Nat :=
  i.opcode?.elim [i.code.toNat] fun _ ↦ i.operand.arguments

/-- The words that an instruction is spelled with. The mnemonic may have letters of either case. -/
def SpelledBy (i : Instruction) (ws : List (List Char)) : Prop :=
  ∃ head tokens, ws = head :: tokens ∧ head.map Char.toUpper = i.mnemonic.toList ∧
    SpellsAll tokens i.arguments

theorem mem_range_of_mem_mnemonic (i : Instruction) : ∀ c ∈ i.mnemonic.toList, '0' ≤ c ∧ c ≤ '_' := by
  unfold mnemonic
  cases i.opcode? with
  | none => exact mem_range_of_all (by decide)
  | some op => exact op.mem_range_of_mem_mnemonic

/-- An instruction looks like no comment. -/
theorem isComment_eq_false {head : List Char}
    (h : head.map Char.toUpper = i.mnemonic.toList) : Assembler.isComment head = false := by
  have hrange := i.mem_range_of_mem_mnemonic
  rw [← h] at hrange
  unfold Assembler.isComment
  split
  · have hhash := plain_of_range (hrange '#' List.mem_cons_self)
    exact absurd rfl hhash.2.2.1
  · have hslash := plain_of_range (hrange '/' List.mem_cons_self)
    exact absurd rfl hslash.2.2.2
  · rfl

theorem statement_of_spelledBy (hv : s.Valid i) {ws : List (List Char)} (h : i.SpelledBy ws) :
    Assembler.statement line ws = .ok i.bytes := by
  obtain ⟨head, tokens, rfl, hhead, htokens⟩ := h
  rw [Assembler.statement, isComment_eq_false hhead, if_neg Bool.false_ne_true, hhead,
    String.ofList_toList]
  dsimp only
  cases hop : i.opcode? with
  | none =>
    have hmnemonic : i.mnemonic = "BYTE" := by rw [mnemonic, hop, Option.elim_none]
    rw [arguments, hop] at htokens
    obtain _ | ⟨htoken, _ | _⟩ := htokens
    have hoperand := @Assembler.operand_of_spells line i.mnemonic ⟨.one, "BYTE"⟩ _ _ htoken
      i.code.toNat_lt
    rw [Width.littleEndian_one] at hoperand
    rw [if_pos hmnemonic, hoperand, bytes, operandBytes, hop]
    rfl
  | some op =>
    have hmnemonic : i.mnemonic = op.mnemonic := by rw [mnemonic, hop, Option.elim_some]
    rw [arguments, hop] at htokens
    have hoperand := @Assembler.operand_of_admits line s op _ _ _ ((Scope.valid_iff_admits hop).1 hv)
      htokens op.mnemonic
    rw [hmnemonic, if_neg op.mnemonic_ne_byte, Opcode.ofMnemonic?_mnemonic]
    dsimp only
    rw [hoperand, bytes, operandBytes, hop, Opcode.byte_of_ofByte? hop]
    rfl

/-- A line of source and the instruction on it, if there is one. A carriage return at the end of the
line is one of its blanks. -/
inductive OnLine : List Char → List Instruction → Prop
  | blank {line : List Char} (h : IsGap line) : OnLine line []
  | comment {gap sign text : List Char} (hgap : IsGap gap) (hsign : sign = ['#'] ∨ sign = ['/', '/'])
      (htext : '\n' ∉ text) : OnLine (gap ++ (sign ++ text)) []
  | instruction {line : List Char} {ws : List (List Char)} {i : Instruction} (hline : Spaced line ws)
      (h : i.SpelledBy ws) : OnLine line [i]

/-- A source text and its instructions. The last line may go without a line feed. -/
inductive Spelled : List Char → List Instruction → Prop
  | last {line : List Char} {is : List Instruction} (h : OnLine line is) : Spelled line is
  | cons {line rest : List Char} {is later : List Instruction} (h : OnLine line is)
      (hlater : Spelled rest later) : Spelled (line ++ '\n' :: rest) (is ++ later)

theorem OnLine.not_mem {text : List Char} {is : List Instruction} (h : OnLine text is) :
    '\n' ∉ text := by
  cases h with
  | blank h => exact fun hm ↦ (h _ hm).2 rfl
  | comment hgap hsign htext =>
    rw [List.mem_append, List.mem_append, not_or, not_or]
    refine ⟨fun hm ↦ (hgap _ hm).2 rfl, ?_, htext⟩
    obtain rfl | rfl := hsign <;> decide
  | instruction hline => exact hline.not_mem

theorem OnLine.statement {text : List Char} {is : List Instruction} (h : OnLine text is)
    (hv : ∀ i ∈ is, s.Valid i) :
    Assembler.statement line (words text) = .ok (is.flatMap (·.bytes)) := by
  cases h with
  | blank h =>
    rw [(Spaced.nil h).words]
    rfl
  | @comment gap sign text hgap hsign htext =>
    have hplain : sign.reverse ≠ [] ∧ ∀ c ∈ sign, isBlank c = false := by
      obtain rfl | rfl := hsign <;> simp [isBlank]
    obtain ⟨tail, later, hwords⟩ := exists_wordsFrom_eq_cons hplain.1 text
    rw [words_gap hgap, words, wordsFrom_append hplain.2, List.append_nil, hwords,
      List.reverse_reverse, Assembler.statement]
    obtain rfl | rfl := hsign <;> rfl
  | instruction hline h =>
    rw [hline.words, statement_of_spelledBy (hv _ List.mem_cons_self) h, List.flatMap_singleton]

theorem Spelled.mapM_statement {text : List Char} {is : List Instruction} (h : Spelled text is)
    (hv : ∀ i ∈ is, s.Valid i) (first : Nat) :
    ∃ parts, ((lines text).zipIdx first).mapM (fun p ↦ Assembler.statement p.2 (words p.1)) =
      .ok parts ∧ parts.flatten = is.flatMap (·.bytes) := by
  induction h generalizing first with
  | @last text is h =>
    have hline := @OnLine.statement s first _ _ h hv
    rw [lines_of_not_mem h.not_mem]
    split
    · rename_i hempty
      subst hempty
      exact ⟨[], rfl, Except.ok.inj hline⟩
    · refine ⟨[is.flatMap (·.bytes)], ?_, List.append_nil _⟩
      rw [List.zipIdx_singleton, List.mapM_cons, hline]
      rfl
  | @cons text rest is later h hlater ih =>
    obtain ⟨hv, hvlater⟩ := List.forall_mem_append.1 hv
    obtain ⟨parts, hparts, hflatten⟩ := ih hvlater (first + 1)
    refine ⟨is.flatMap (·.bytes) :: parts, ?_, ?_⟩
    · rw [lines_append h.not_mem, List.zipIdx_cons, List.mapM_cons, words_dropReturn,
        h.statement hv, hparts]
      rfl
    · rw [List.flatten_cons, hflatten, List.flatMap_append]

/-- Valid instructions are assembled to their bytes, however they are spelled. -/
theorem assemble_spelled {source : String} {is : List Instruction}
    (h : Spelled source.toList is) (hv : ∀ i ∈ is, s.Valid i) :
    assemble source = .ok (is.flatMap (·.bytes)) := by
  obtain ⟨parts, hparts, hflatten⟩ := h.mapM_statement hv 1
  rw [assemble]
  dsimp only
  rw [hparts, ← hflatten]
  rfl

end Instruction

end NovelScript
