import NovelScript.Proofs.Container.Pieces
import NovelScript.Proofs.Container.Reading

/-!
Reading what is cut off. A reader of some pieces that meets the end of the input inside one of them
misses that piece, and so a container is not a prefix of another one (`parse_self_delimiting`).
-/

namespace NovelScript

variable {α β : Type}

/-- A reader takes just these pieces, and misses the piece in which the input ends. -/
structure Reader.Takes (total : Nat) (r : Reader α) (ps : Pieces) (a : α) : Prop where
  whole : ∀ rest, r.run (ps.bytes ++ rest) = .ok (a, rest)
  cut : ∀ length within piece start, ps.Holds length within piece start →
    r.run (ps.bytes.take length) =
      .error (.truncated within (piece.reported (total - (length - start)) total))

namespace Reader.Takes

variable {total : Nat} {r : Reader α} {k : α → Reader β} {ps qs : Pieces} {a : α} {b : β}

theorem pure (a : α) : Takes total (pure a) [] a where
  whole _ := rfl
  cut _ _ _ _ h := absurd h.lt_length (Nat.not_lt_zero _)

theorem bind (hr : Takes total r ps a) (hk : Takes total (k a) qs b) :
    Takes total (r >>= k) (ps ++ qs) b where
  whole rest := by
    rw [Pieces.bytes_append, List.append_assoc, StateT.run_bind, hr.whole]
    exact hk.whole rest
  cut length within piece start h := by
    rw [Pieces.bytes_append, StateT.run_bind]
    obtain hp | ⟨length, start, rfl, rfl, hq⟩ := h.of_append
    · rw [List.take_append_of_le_length (Nat.le_of_lt hp.lt_length), hr.cut _ _ _ _ hp]
      rfl
    · rw [List.take_length_add_append, hr.whole, Nat.add_sub_add_left]
      exact hk.cut _ _ _ _ hq

theorem map {f : α → β} (hr : Takes total r ps a) :
    Takes total (r >>= fun a ↦ Pure.pure (f a)) ps (f a) := by
  have h := hr.bind (k := fun a ↦ Pure.pure (f a)) (.pure (f a))
  rwa [List.append_nil] at h

theorem get_bind {k : List UInt8 → Reader β} (h : ∀ bytes, Takes total (k bytes) ps b) :
    Takes total (get >>= k) ps b where
  whole rest := (h _).whole rest
  cut length within piece start hp := (h _).cut length within piece start hp

/-- A reader of one section, and then another one. -/
theorem bind_tagged {within : Section} {ps qs : List Piece}
    (hr : Takes total r (within.tagged ps) a) (hk : Takes total (k a) (within.tagged qs) b) :
    Takes total (r >>= k) (within.tagged (ps ++ qs)) b := by
  rw [Section.tagged_append]
  exact hr.bind hk

end Reader.Takes

open Reader (Takes)

namespace Source

variable (src : Source)

theorem word_takes (w : UInt32) : Takes src.total src.word (src.within.tagged [.word w]) w where
  whole rest := by
    rw [Section.bytes_tagged, List.flatMap_singleton]
    exact (src.word_decodes _ w rest).2 ⟨trivial, rfl⟩
  cut length within piece start h := by
    obtain ⟨hp, rfl, hlt⟩ := h.of_singleton
    cases hp
    have hshort : ((src.within.tagged [.word w]).bytes.take length).length < 4 := by
      rw [Piece.bytes, Bytes.length_ofWord] at hlt
      rw [List.length_take]
      omega
    rw [word_run, Bytes.split?_eq_none_iff.2 hshort]
    rfl

theorem int_takes (n : Int32) : Takes src.total src.int (src.within.tagged [.int n]) n :=
  (src.word_takes n.toUInt32).map

theorem payload_takes (bytes : List UInt8) :
    Takes src.total (src.payload bytes.length) (src.within.tagged [.payload bytes]) bytes where
  whole rest := by
    rw [Section.bytes_tagged, List.flatMap_singleton]
    exact src.payload_run_eq_ok_iff.2 ⟨rfl, rfl⟩
  cut length within piece start h := by
    obtain ⟨hp, rfl, hlt⟩ := h.of_singleton
    cases hp
    rw [Piece.bytes] at hlt
    have hbytes : (src.within.tagged [.payload bytes]).bytes = bytes := by
      rw [Section.bytes_tagged, List.flatMap_singleton]
      rfl
    have hlength : (bytes.take length).length = length := by
      rw [List.length_take]
      omega
    have hshort : (bytes.take length).length < bytes.length := by omega
    rw [hbytes, payload_run, Bytes.split?_eq_none_iff.2 hshort, position, hlength]
    rfl

theorem many_takes {item : Reader α} {itemPieces : α → List Piece} {items : List α}
    (h : ∀ a ∈ items, Takes src.total item (src.within.tagged (itemPieces a)) a) :
    Takes src.total (many item items.length) (src.within.tagged (items.flatMap itemPieces))
      items := by
  induction items with
  | nil => exact .pure []
  | cons a items ih =>
    rw [List.forall_mem_cons] at h
    rw [List.flatMap_cons]
    exact h.1.bind_tagged ((ih h.2).map)

theorem table_takes {item : Reader α} {itemPieces : α → List Piece} {items : List α}
    (hl : items.length < UInt32.size)
    (h : ∀ a ∈ items, Takes src.total item (src.within.tagged (itemPieces a)) a) :
    Takes src.total (src.table item) (src.within.tagged (Form.tablePieces itemPieces items))
      items := by
  have hw : (UInt32.ofNat items.length).toNat = items.length := UInt32.toNat_ofNat_of_lt' hl
  refine (src.word_takes (UInt32.ofNat items.length)).bind_tagged ?_
  rw [hw]
  exact src.many_takes h

theorem segment_takes {bytes : List UInt8} (hl : bytes.length < UInt32.size) :
    Takes src.total src.segment (src.within.tagged (Form.segmentPieces bytes)) bytes := by
  have hw : (UInt32.ofNat bytes.length).toNat = bytes.length := UInt32.toNat_ofNat_of_lt' hl
  refine (src.word_takes (UInt32.ofNat bytes.length)).bind_tagged ?_
  rw [hw]
  exact src.payload_takes bytes

theorem field_takes {f : StringField} (hf : f.Valid) :
    Takes src.total src.field (src.within.tagged (Form.fieldPieces f)) f := by
  refine .get_bind fun bytes ↦ (src.word_takes f.lengthWord).bind_tagged ?_
  have ht : ¬f.body.length < StringField.terminator ⟨f.wide, []⟩ := Nat.not_lt.2 hf.1
  dsimp only
  rw [StringField.lengthWord_mod hf.2, StringField.wide_lengthWord hf.2, if_neg ht]
  exact (src.payload_takes f.body).map

theorem dependencies_takes {pairs : List (Int32 × Int32)} (h : ∀ d ∈ pairs, d.1 ≠ 0) :
    Takes src.total src.dependencies (src.within.tagged (Form.dependencyPieces pairs)) pairs := by
  induction pairs with
  | nil =>
    rw [dependencies_eq]
    exact (src.int_takes 0).bind_tagged (.pure [])
  | cons d pairs ih =>
    obtain ⟨a, b⟩ := d
    rw [List.forall_mem_cons] at h
    rw [dependencies_eq]
    refine (src.int_takes a).bind_tagged ?_
    rw [if_neg h.1]
    exact (src.int_takes b).bind_tagged ((ih h.2).map)

theorem namedSymbol_takes {p : Named Symbol} (hf : p.1.Valid) (hn : p.2.name = p.1.text)
    (hd : p.2.Delimited) :
    Takes src.total src.namedSymbol (src.within.tagged (Form.symbolPieces p)) p := by
  obtain ⟨f, name, deps, kind, unknown8, unknown14, convention⟩ := p
  obtain rfl : name = f.text := hn
  refine (src.field_takes hf).bind_tagged ((src.dependencies_takes hd).bind_tagged ?_)
  refine (src.int_takes kind).bind_tagged ((src.int_takes unknown8).bind_tagged ?_)
  exact (src.int_takes unknown14).bind_tagged ((src.int_takes convention).map)

theorem namedFunction_takes {p : Named Function} (hf : p.1.Valid) (hn : p.2.name = p.1.text) :
    Takes src.total src.namedFunction (src.within.tagged (Form.functionPieces p)) p := by
  obtain ⟨f, name, index, unknown4, offset⟩ := p
  obtain rfl : name = f.text := hn
  refine (src.field_takes hf).bind_tagged ((src.int_takes index).bind_tagged ?_)
  exact (src.int_takes unknown4).bind_tagged ((src.int_takes offset).map)

theorem namedLabel_takes {p : Named Label} (hf : p.1.Valid) (hn : p.2.name = p.1.text) :
    Takes src.total src.namedLabel (src.within.tagged (Form.labelPieces p)) p := by
  obtain ⟨f, name, offset⟩ := p
  obtain rfl : name = f.text := hn
  exact (src.field_takes hf).bind_tagged ((src.word_takes offset).map)

theorem messageEntry_takes (m : MessageEntry) :
    Takes src.total src.messageEntry (src.within.tagged (Form.messagePieces m)) m :=
  (src.word_takes m.offset).bind_tagged ((src.word_takes m.length).map)

end Source

namespace Form

variable {F : Form}

theorem reader_takes (hF : F.Valid) (total : Nat) : Takes total (reader total) F.pieces F := by
  let src (within : Section) : Source := ⟨within, total⟩
  have hs := (src .symbolTable).table_takes hF.symbols.1 fun p hp ↦
    let ⟨hf, hn, hd⟩ := hF.symbols.2 p hp
    (src .symbolTable).namedSymbol_takes hf hn hd
  have ht := (src .symbolTable).int_takes F.symbolTrailer
  have hf := (src .functionTable).table_takes hF.functions.1 fun p hp ↦
    let ⟨hf, hn⟩ := hF.functions.2 p hp
    (src .functionTable).namedFunction_takes hf hn
  have hl := (src .labelTable).table_takes hF.labels.1 fun p hp ↦
    let ⟨hf, hn⟩ := hF.labels.2 p hp
    (src .labelTable).namedLabel_takes hf hn
  have hstrings := (src .stringSegment).segment_takes hF.strings
  have hcode := (src .codeSegment).segment_takes hF.code
  have hm := (src .messageTable).table_takes hF.messages fun m _ ↦
    (src .messageTable).messageEntry_takes m
  have hdata := (src .messageSegment).segment_takes hF.messageData
  rw [pieces_eq]
  exact hs.bind (ht.bind (hf.bind (hl.bind (hstrings.bind (hcode.bind (hm.bind hdata.map))))))

theorem read_append (hF : F.Valid) {more : List UInt8} (h : more ≠ []) :
    read (F.bytes ++ more) = .error (.trailingBytes more.length) := by
  have hrun := (F.reader_takes hF (F.bytes ++ more).length).whole more
  rw [F.bytes_pieces] at hrun
  have hrest : ¬more.isEmpty = true := fun hn ↦ h (List.isEmpty_iff.1 hn)
  simp only [read, hrun, bind, Except.bind, if_neg hrest]
  rfl

theorem read_take (hF : F.Valid) {length start : Nat} {within : Section} {piece : Piece}
    (h : F.pieces.Holds length within piece start) :
    read (F.bytes.take length) = .error (.truncated within (piece.reported start length)) := by
  have hlength : (F.bytes.take length).length = length := by
    have hlt := h.lt_length
    rw [F.bytes_pieces] at hlt
    rw [List.length_take]
    omega
  have hrun := (F.reader_takes hF length).cut length within piece start h
  rw [F.bytes_pieces, Nat.sub_sub_self h.le] at hrun
  rw [read, hlength, hrun]
  rfl

end Form

namespace Container

variable {c : Container} {data : List UInt8}

/-- A container says itself where it ends. More bytes behind it are found to be too many, and fewer
bytes to be cut off in the piece that has the first one missing. -/
theorem parse_self_delimiting (h : parse data = .ok c) :
    (∀ more, more ≠ [] → parse (data ++ more) = .error (.trailingBytes more.length)) ∧
    ∃ F, Form.read data = .ok F ∧ F.pieces.bytes = data ∧
      ∀ front missing, front ++ missing = data → missing ≠ [] →
        (∃ within piece start, F.pieces.Holds front.length within piece start) ∧
        ∀ within piece start, F.pieces.Holds front.length within piece start →
          parse front = .error (.truncated within (piece.reported start front.length)) := by
  obtain ⟨F, hF, rfl, rfl⟩ := Form.parse_eq_ok_iff.1 h
  refine ⟨fun more hmore ↦ ?_, F, Form.read_eq_ok_iff.2 ⟨hF, rfl⟩, F.bytes_pieces, ?_⟩
  · rw [Form.parse_eq_map_read, Form.read_append hF hmore]
    rfl
  · intro front missing hsplit hmissing
    refine ⟨Pieces.exists_holds ?_, fun within piece start hholds ↦ ?_⟩
    · rw [F.bytes_pieces, ← hsplit, List.length_append]
      exact Nat.lt_add_of_pos_right (List.length_pos_iff.2 hmissing)
    · have hread := Form.read_take hF hholds
      rw [← hsplit, List.take_left] at hread
      rw [Form.parse_eq_map_read, hread]
      rfl

/-- One label. Its name is at byte 20, and its offset at byte 22. -/
def narrowLabel : List UInt8 :=
  [0, 0, 0, 0, 0, 0, 0, 0, 0, 0, 0, 0, 1, 0, 0, 0, 2, 0, 0, 0, 0x61, 0, 7, 0, 0, 0,
    0, 0, 0, 0, 0, 0, 0, 0, 0, 0, 0, 0, 0, 0, 0, 0]

theorem parse_self_delimiting_label :
    (∃ c, parse narrowLabel = .ok c) ∧
      parse (narrowLabel ++ [0]) = .error (.trailingBytes 1) ∧
      parse (narrowLabel.take 21) = .error (.truncated .labelTable 20) ∧
      parse (narrowLabel.take 23) = .error (.truncated .labelTable 23) ∧
      parse (narrowLabel.take 26) = .error (.truncated .stringSegment 26) := by
  have h : parse narrowLabel = .ok { labels := #[⟨"a", 7⟩] } := rfl
  obtain ⟨hmore, F', hread, -, hcut⟩ := parse_self_delimiting h
  let F : Form := ⟨[], 0, [], [(⟨false, [0x61, 0]⟩, ⟨"a", 7⟩)], [], [], [], []⟩
  obtain rfl : F = F' := Except.ok.inj hread
  have hpiece : ∀ length, narrowLabel.drop length ≠ [] → ∀ within piece start,
      F.pieces.Holds (narrowLabel.take length).length within piece start → _ :=
    fun length hlength ↦ (hcut _ _ (List.take_append_drop length narrowLabel) hlength).2
  refine ⟨⟨_, h⟩, hmore [0] (by decide), ?_, ?_, ?_⟩
  · exact hpiece 21 (by decide) _ (.payload [0x61, 0]) 20
      ⟨⟨F.pieces.take 5, F.pieces.drop 6, rfl, rfl⟩, by decide, by decide⟩
  · exact hpiece 23 (by decide) _ (.word 7) 22
      ⟨⟨F.pieces.take 6, F.pieces.drop 7, rfl, rfl⟩, by decide, by decide⟩
  · exact hpiece 26 (by decide) _ (.word 0) 26
      ⟨⟨F.pieces.take 7, F.pieces.drop 8, rfl, rfl⟩, by decide, by decide⟩

end Container

end NovelScript
