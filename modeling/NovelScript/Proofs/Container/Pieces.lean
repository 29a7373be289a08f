import NovelScript.Proofs.Container.Form

/-!
The pieces of a form. A container is read and written piece by piece, and an input or a space that
is too short ends inside one of them (`exists_holds`).
-/

namespace NovelScript

/-- A word, or bytes of which a word before them gives the number. -/
inductive Piece where
  | word (w : UInt32)
  | payload (bytes : List UInt8)
  deriving DecidableEq, Repr

namespace Piece

def int (n : Int32) : Piece := .word n.toUInt32

def bytes : Piece → List UInt8
  | word w => Bytes.ofWord w
  | payload bytes => bytes

/-- Where a piece that starts at `start` is said to be missing from an input that ends at `cut`. -/
def reported (start cut : Nat) : Piece → Nat
  | word _ => cut
  | payload _ => start

end Piece

/-- Pieces one after the other, each with its section. -/
abbrev Pieces := List (Section × Piece)

namespace Pieces

def bytes (ps : Pieces) : List UInt8 := ps.flatMap (·.2.bytes)

/-- The piece in which a position is, and where it starts. -/
structure Holds (ps : Pieces) (position : Nat) (within : Section) (piece : Piece)
    (start : Nat) : Prop where
  split : ∃ before after, ps = before ++ (within, piece) :: after ∧ (bytes before).length = start
  le : start ≤ position
  lt : position < start + piece.bytes.length

variable {ps qs : Pieces} {position start : Nat} {within : Section} {piece : Piece}

theorem bytes_cons : bytes ((within, piece) :: ps) = piece.bytes ++ bytes ps :=
  List.flatMap_cons

theorem bytes_append : bytes (ps ++ qs) = bytes ps ++ bytes qs := List.flatMap_append

theorem exists_holds {ps : Pieces} {position : Nat} (h : position < ps.bytes.length) :
    ∃ within piece start, ps.Holds position within piece start := by
  induction ps generalizing position with
  | nil => exact absurd h (Nat.not_lt_zero _)
  | cons p ps ih =>
    obtain ⟨within, piece⟩ := p
    rw [bytes_cons, List.length_append] at h
    by_cases hp : position < piece.bytes.length
    · exact ⟨within, piece, 0, ⟨[], ps, rfl, rfl⟩, Nat.zero_le _, by omega⟩
    · have hrest : position - piece.bytes.length < (bytes ps).length := by omega
      obtain ⟨within', piece', _, ⟨before, after, rfl, rfl⟩, hle, hlt⟩ := ih hrest
      refine ⟨within', piece', _, ⟨(within, piece) :: before, after, rfl, rfl⟩, ?_, ?_⟩ <;>
        rw [bytes_cons, List.length_append] <;> omega

theorem Holds.lt_length (h : ps.Holds position within piece start) :
    position < ps.bytes.length := by
  obtain ⟨⟨before, after, rfl, rfl⟩, -, hlt⟩ := h
  rw [bytes_append, bytes_cons, List.length_append, List.length_append]
  omega

theorem Holds.of_singleton {p : Section × Piece} (h : Holds [p] position within piece start) :
    p = (within, piece) ∧ start = 0 ∧ position < piece.bytes.length := by
  obtain ⟨⟨before, after, hsplit, rfl⟩, -, hlt⟩ := h
  cases before with
  | nil =>
    obtain ⟨rfl, -⟩ := List.cons.inj hsplit
    exact ⟨rfl, rfl, by simpa [bytes] using hlt⟩
  | cons q before =>
    have hnil := (List.cons.inj hsplit).2
    simp at hnil

/-- A position in two rows of pieces is in the first one, or behind it in the second. -/
theorem Holds.of_append (h : Holds (ps ++ qs) position within piece start) :
    ps.Holds position within piece start ∨
      ∃ position' start', position = ps.bytes.length + position' ∧
        start = ps.bytes.length + start' ∧ qs.Holds position' within piece start' := by
  obtain ⟨⟨before, after, hsplit, rfl⟩, hle, hlt⟩ := h
  rcases List.append_eq_append_iff.1 hsplit with ⟨middle, rfl, hq⟩ | ⟨middle, rfl, hq⟩
  · rw [bytes_append, List.length_append] at hle hlt ⊢
    exact .inr ⟨position - ps.bytes.length, (bytes middle).length, by omega, rfl,
      ⟨middle, after, hq, rfl⟩, by omega, by omega⟩
  · cases middle with
    | nil =>
      obtain rfl : (within, piece) :: after = qs := hq
      rw [List.append_nil]
      exact .inr ⟨position - before.bytes.length, 0, by omega, rfl, ⟨[], after, rfl, rfl⟩,
        Nat.zero_le _, by omega⟩
    | cons p middle =>
      obtain ⟨rfl, -⟩ := List.cons.inj hq
      exact .inl ⟨⟨before, middle, rfl, rfl⟩, hle, hlt⟩

end Pieces

/-- Pieces that are all in one section. -/
def Section.tagged (within : Section) (ps : List Piece) : Pieces := ps.map (within, ·)

theorem Section.tagged_append (within : Section) (ps qs : List Piece) :
    within.tagged (ps ++ qs) = within.tagged ps ++ within.tagged qs := List.map_append

theorem Section.bytes_tagged (within : Section) (ps : List Piece) :
    (within.tagged ps).bytes = ps.flatMap Piece.bytes := List.flatMap_map ..

theorem Pieces.Holds.of_tagged {within within' : Section} {ps : List Piece} {position start : Nat}
    {piece : Piece} (h : (within.tagged ps).Holds position within' piece start) :
    within' = within ∧ position < (ps.flatMap Piece.bytes).length := by
  refine ⟨?_, within.bytes_tagged ps ▸ h.lt_length⟩
  obtain ⟨before, after, hsplit, -⟩ := h.split
  have hmem : (within', piece) ∈ within.tagged ps := hsplit ▸ List.mem_append_cons_self
  obtain ⟨_, -, he⟩ := List.mem_map.1 hmem
  exact (congrArg Prod.fst he).symm

namespace Form

def fieldPieces (f : StringField) : List Piece := [.word f.lengthWord, .payload f.body]

def dependencyPieces : List (Int32 × Int32) → List Piece
  | [] => [.int 0]
  | (a, b) :: rest => .int a :: .int b :: dependencyPieces rest

def symbolPieces (p : Named Symbol) : List Piece :=
  fieldPieces p.1 ++ (dependencyPieces p.2.dependencies ++
    [.int p.2.kind, .int p.2.unknown8, .int p.2.unknown14, .int p.2.convention])

def functionPieces (p : Named Function) : List Piece :=
  fieldPieces p.1 ++ [.int p.2.index, .int p.2.unknown4, .int p.2.offset]

def labelPieces (p : Named Label) : List Piece := fieldPieces p.1 ++ [.word p.2.offset]

def messagePieces (m : MessageEntry) : List Piece := [.word m.offset, .word m.length]

def tablePieces {α : Type} (itemPieces : α → List Piece) (items : List α) : List Piece :=
  .word (UInt32.ofNat items.length) :: items.flatMap itemPieces

def segmentPieces (bytes : List UInt8) : List Piece :=
  [.word (UInt32.ofNat bytes.length), .payload bytes]

variable (F : Form)

def sectionPieces : Section → List Piece
  | .symbolTable => tablePieces symbolPieces F.symbols ++ [.int F.symbolTrailer]
  | .functionTable => tablePieces functionPieces F.functions
  | .labelTable => tablePieces labelPieces F.labels
  | .stringSegment => segmentPieces F.strings
  | .codeSegment => segmentPieces F.code
  | .messageTable => tablePieces messagePieces F.messages
  | .messageSegment => segmentPieces F.messageData

def pieces : Pieces := Section.all.flatMap fun within ↦ within.tagged (F.sectionPieces within)

theorem pieces_eq :
    F.pieces = Section.symbolTable.tagged (tablePieces symbolPieces F.symbols) ++
      (Section.symbolTable.tagged [.int F.symbolTrailer] ++
      (Section.functionTable.tagged (tablePieces functionPieces F.functions) ++
      (Section.labelTable.tagged (tablePieces labelPieces F.labels) ++
      (Section.stringSegment.tagged (segmentPieces F.strings) ++
      (Section.codeSegment.tagged (segmentPieces F.code) ++
      (Section.messageTable.tagged (tablePieces messagePieces F.messages) ++
      Section.messageSegment.tagged (segmentPieces F.messageData))))))) := by
  simp only [pieces, Section.all, List.flatMap_cons, List.flatMap_nil, sectionPieces,
    Section.tagged_append, List.append_assoc, List.append_nil]

theorem bytes_dependencyPieces (pairs : List (Int32 × Int32)) :
    (dependencyPieces pairs).flatMap Piece.bytes =
      pairs.flatMap (fun (a, b) ↦ Section.int a ++ Section.int b) ++ Section.int 0 := by
  induction pairs with
  | nil => rfl
  | cons d rest ih =>
    obtain ⟨a, b⟩ := d
    simp only [dependencyPieces, List.flatMap_cons, ih, Piece.int, Piece.bytes, Section.int,
      List.append_assoc]

theorem bytes_tablePieces {α : Type} {itemPieces : α → List Piece} {itemBytes : α → List UInt8}
    (h : ∀ a, (itemPieces a).flatMap Piece.bytes = itemBytes a) (items : List α) :
    (tablePieces itemPieces items).flatMap Piece.bytes = tableBytes itemBytes items := by
  simp only [tablePieces, tableBytes, List.flatMap_cons, List.flatMap_assoc, h, Piece.bytes]

theorem bytes_sectionPieces (within : Section) :
    (F.sectionPieces within).flatMap Piece.bytes = F.sectionBytes within := by
  have hsymbol : ∀ p, (symbolPieces p).flatMap Piece.bytes = symbolBytes p := by
    intro p
    simp [symbolPieces, symbolBytes, fieldPieces, bytes_dependencyPieces, StringField.bytes,
      Piece.bytes, Piece.int, Section.int]
  have hfunction : ∀ p, (functionPieces p).flatMap Piece.bytes = functionBytes p := by
    intro p
    simp [functionPieces, functionBytes, fieldPieces, StringField.bytes, Piece.bytes, Piece.int,
      Section.int]
  have hlabel : ∀ p, (labelPieces p).flatMap Piece.bytes = labelBytes p := by
    intro p
    simp [labelPieces, labelBytes, fieldPieces, StringField.bytes, Piece.bytes]
  have hmessage : ∀ m, (messagePieces m).flatMap Piece.bytes = messageBytes m := by
    intro m
    simp [messagePieces, messageBytes, Piece.bytes]
  have hsegment : ∀ bytes, (segmentPieces bytes).flatMap Piece.bytes = segmentBytes bytes := by
    intro bytes
    simp [segmentPieces, segmentBytes, Piece.bytes]
  cases within with
  | symbolTable =>
    rw [sectionPieces, List.flatMap_append, bytes_tablePieces hsymbol, List.flatMap_singleton]
    rfl
  | functionTable => exact bytes_tablePieces hfunction F.functions
  | labelTable => exact bytes_tablePieces hlabel F.labels
  | messageTable => exact bytes_tablePieces hmessage F.messages
  | stringSegment => exact hsegment F.strings
  | codeSegment => exact hsegment F.code
  | messageSegment => exact hsegment F.messageData

theorem bytes_pieces : F.pieces.bytes = F.bytes := by
  simp only [pieces, Pieces.bytes, List.flatMap_assoc, bytes]
  congr 1
  funext within
  exact (within.bytes_tagged _).trans (F.bytes_sectionPieces within)

end Form

end NovelScript
