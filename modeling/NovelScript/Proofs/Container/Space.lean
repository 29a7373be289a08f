import NovelScript.Proofs.Container.RoundTrip
import NovelScript.Proofs.Container.Truncation

/-!
Writing into a limited space. A section that can be written is written as if it were one piece
(`putSection_writes`). So a space that is too short for a container fails in the section in which the
container's bytes are cut off there (`writeWithin_agrees`).
-/

namespace NovelScript

open Outcome

namespace Section

variable (within : Section)

theorem put_run (bytes : List UInt8) (left : Nat) :
    (within.put bytes).run left =
      if bytes.length ≤ left then .ok ((), left - bytes.length) else .error (.write within) := rfl

theorem put_append (front back : List UInt8) :
    (do within.put front; within.put back) = within.put (front ++ back) := by
  funext left
  change StateT.run (do within.put front; within.put back) left =
    (within.put (front ++ back)).run left
  rw [StateT.run_bind, put_run, put_run, List.length_append]
  by_cases hfront : front.length ≤ left
  · rw [if_pos hfront]
    change (within.put back).run (left - front.length) = _
    simp only [put_run, Nat.sub_sub, Nat.le_sub_iff_add_le' hfront]
  · rw [if_neg hfront, if_neg (by omega)]
    rfl

/-- A writer of values writes the bytes that they have, if they can be written. -/
def Writes {α : Type} (item : α → SpaceWriter) (written : α → Encoding) : Prop :=
  ∀ a bytes, written a = .ok bytes → item a = within.put bytes

theorem forM_writes {α : Type} {item : α → SpaceWriter} {written : α → Encoding}
    (h : within.Writes item written) {items : List α} {rows : List (List UInt8)}
    (hrows : items.mapM written = .ok rows) : items.forM item = within.put rows.flatten := by
  induction items generalizing rows with
  | nil =>
    cases hrows
    rfl
  | cons a items ih =>
    simp only [List.mapM_cons, bind_eq_ok_iff, pure_eq_ok_iff] at hrows
    obtain ⟨row, hrow, rows, hrows, rfl⟩ := hrows
    rw [List.forM, h a row hrow, ih hrows, put_append, List.flatten_cons]

theorem count_writes (what : String) :
    within.Writes (within.putCount what) (within.count what) := by
  intro n bytes h
  rw [putCount, h]
  rfl

theorem string_writes : within.Writes within.putString within.string := by
  intro text bytes h
  obtain ⟨-, rfl⟩ := (within.string_encodes _ _).1 h
  rw [putString, h]
  change (do
    within.put _
    within.put (Utf16.toBytes text)
    within.put [0, 0]) = _
  rw [put_append, put_append]
  simp [StringField.bytes, StringField.lengthWord, StringField.ofText]

theorem segment_writes : within.Writes within.putSegment within.segment := by
  intro data bytes h
  obtain ⟨size, hsize, h⟩ := bind_eq_ok_iff.1 h
  cases h
  rw [putSegment, within.count_writes _ _ _ hsize, put_append]

theorem table_writes {α : Type} {item : α → SpaceWriter} {written : α → Encoding}
    (h : within.Writes item written) (what : String) :
    within.Writes (within.putTable what item) (within.table what written) := by
  intro items bytes ht
  obtain ⟨size, hsize, ht⟩ := bind_eq_ok_iff.1 ht
  obtain ⟨rows, hrows, ht⟩ := bind_eq_ok_iff.1 ht
  cases ht
  rw [putTable, within.count_writes _ _ _ hsize, within.forM_writes h hrows, put_append]

theorem putDependencies_eq (pairs : List (Int32 × Int32)) :
    within.putDependencies pairs =
      within.put (pairs.flatMap (fun (a, b) ↦ int a ++ int b) ++ int 0) := by
  have hpair : within.Writes (fun (a, b) ↦ do within.putInt a; within.putInt b)
      fun (a, b) ↦ pure (int a ++ int b) := by
    intro d bytes h
    cases h
    exact within.put_append ..
  rw [putDependencies, within.forM_writes hpair List.mapM_pure, ← List.flatMap_def]
  exact within.put_append ..

theorem symbol_writes : within.Writes within.putSymbol within.symbol := by
  intro s bytes h
  obtain ⟨name, hname, h⟩ := bind_eq_ok_iff.1 h
  cases h
  simp only [putSymbol, within.string_writes _ _ hname, putDependencies_eq, putInt, put_append,
    List.append_assoc]

theorem function_writes : within.Writes within.putFunction within.function := by
  intro f bytes h
  obtain ⟨name, hname, h⟩ := bind_eq_ok_iff.1 h
  cases h
  simp only [putFunction, within.string_writes _ _ hname, putInt, put_append, List.append_assoc]

theorem label_writes : within.Writes within.putLabel within.label := by
  intro l bytes h
  obtain ⟨name, hname, h⟩ := bind_eq_ok_iff.1 h
  cases h
  simp only [putLabel, within.string_writes _ _ hname, put_append]

theorem messageEntry_writes : within.Writes within.putMessageEntry messageEntry := by
  intro m bytes h
  cases h
  rw [putMessageEntry, put_append]

end Section

namespace Form

variable {F : Form} {sections : List Section}

theorem run_put (left : Nat) :
    (sections.forM fun within ↦ within.put (F.sectionBytes within)).run
      ((sections.flatMap F.sectionBytes).length + left) = .ok ((), left) := by
  induction sections with
  | nil => exact congrArg (fun left ↦ Except.ok ((), left)) (Nat.zero_add left)
  | cons within later ih =>
    rw [List.forM, StateT.run_bind, Section.put_run, List.flatMap_cons, List.length_append,
      Nat.add_assoc, if_pos (Nat.le_add_right ..), Nat.add_sub_cancel_left]
    exact ih

/-- A space that ends in some piece fails in the section of that piece. -/
theorem run_put_of_holds {limit start : Nat} {within : Section} {piece : Piece}
    (h : Pieces.Holds (sections.flatMap fun within ↦ within.tagged (F.sectionPieces within)) limit
      within piece start) :
    (sections.forM fun within ↦ within.put (F.sectionBytes within)).run limit =
      .error (.write within) := by
  induction sections generalizing limit start with
  | nil => exact absurd h.lt_length (Nat.not_lt_zero _)
  | cons first later ih =>
    rw [List.forM, StateT.run_bind, Section.put_run]
    rw [List.flatMap_cons] at h
    obtain hfirst | ⟨limit, start, rfl, rfl, hlater⟩ := h.of_append
    · obtain ⟨rfl, hlt⟩ := hfirst.of_tagged
      rw [F.bytes_sectionPieces] at hlt
      rw [if_neg (Nat.not_le.2 hlt)]
      rfl
    · rw [Section.bytes_tagged, F.bytes_sectionPieces, if_pos (Nat.le_add_right ..),
        Nat.add_sub_cancel_left]
      exact ih hlater

end Form

namespace Container

variable {c : Container}

/-- What may be written of a section is written in it as if it were one piece. -/
theorem putSection_writes (within : Section) {bytes : List UInt8}
    (h : c.sectionBytes within = .ok bytes) : c.putSection within = within.put bytes := by
  cases within with
  | symbolTable =>
    obtain ⟨table, htable, h⟩ := bind_eq_ok_iff.1 h
    cases h
    rw [putSection, Section.table_writes _ (Section.symbol_writes _) _ _ _ htable]
    exact Section.put_append ..
  | functionTable => exact Section.table_writes _ (Section.function_writes _) _ _ _ h
  | labelTable => exact Section.table_writes _ (Section.label_writes _) _ _ _ h
  | messageTable => exact Section.table_writes _ (Section.messageEntry_writes _) _ _ _ h
  | stringSegment | codeSegment | messageSegment => exact Section.segment_writes _ _ _ h

theorem writeWithin_eq (hf : c.Fits) (limit : Nat) :
    c.writeWithin limit = Prod.snd <$> StateT.run (Section.all.forM fun within ↦
      within.put ((Form.ofContainer c).sectionBytes within)) limit := by
  have hsections : c.putSection = fun within ↦
      within.put ((Form.ofContainer c).sectionBytes within) :=
    funext fun within ↦ putSection_writes within
      ((c.sectionBytes_encodes within _).2 ⟨hf within, rfl⟩)
  rw [writeWithin, hsections]
  rfl

/-- A container is written into every space that is long enough for its bytes. A space that is too
short for them fails in the section in which the bytes are cut off that fit into it. -/
theorem writeWithin_agrees {bytes : List UInt8} (hd : c.Delimited) (hb : c.toBytes = .ok bytes)
    (limit : Nat) :
    (∀ left, c.writeWithin limit = .ok left ↔
      bytes.length ≤ limit ∧ left = limit - bytes.length) ∧
    (limit < bytes.length → ∃ within offset,
      c.writeWithin limit = .error (.write within) ∧
        parse (bytes.take limit) = .error (.truncated within offset)) := by
  obtain ⟨hf, rfl⟩ := c.toBytes_eq_ok_iff.1 hb
  have hshort : limit < (Form.ofContainer c).bytes.length → ∃ within offset,
      c.writeWithin limit = .error (.write within) ∧
        parse ((Form.ofContainer c).bytes.take limit) = .error (.truncated within offset) := by
    intro hlt
    rw [← Form.bytes_pieces] at hlt
    obtain ⟨within, piece, start, hholds⟩ := Pieces.exists_holds hlt
    refine ⟨within, piece.reported start limit, ?_, ?_⟩
    · rw [writeWithin_eq hf, Form.run_put_of_holds hholds]
      rfl
    · rw [Form.parse_eq_map_read, Form.read_take (c.valid_ofContainer hf hd) hholds]
      rfl
  refine ⟨fun left ↦ ?_, hshort⟩
  by_cases hlt : limit < (Form.ofContainer c).bytes.length
  · obtain ⟨within, offset, hwrite, -⟩ := hshort hlt
    rw [hwrite]
    constructor
    · intro h
      cases h
    · intro h
      omega
  · obtain ⟨rest, rfl⟩ := Nat.exists_eq_add_of_le (Nat.not_lt.1 hlt)
    have hwrite : c.writeWithin ((Form.ofContainer c).bytes.length + rest) = .ok rest := by
      rw [writeWithin_eq hf]
      exact congrArg (Prod.snd <$> ·) (Form.run_put rest)
    rw [hwrite, Except.ok.injEq, Nat.add_sub_cancel_left, eq_comm]
    exact (and_iff_right (Nat.le_add_right ..)).symm

/-- One symbol, with a dependency. The symbol table ends at byte 44. -/
def dependentSample : Container where
  symbols := #[⟨"a", [(3, -1)], 4, 0, 0, 1⟩]

def dependentBytes : List UInt8 :=
  [1, 0, 0, 0, 4, 0, 0, 0x80, 0x61, 0, 0, 0, 3, 0, 0, 0, 0xFF, 0xFF, 0xFF, 0xFF, 0, 0, 0, 0,
    4, 0, 0, 0, 0, 0, 0, 0, 0, 0, 0, 0, 1, 0, 0, 0, 0, 0, 0, 0, 0, 0, 0, 0, 0, 0, 0, 0, 0, 0, 0, 0,
    0, 0, 0, 0, 0, 0, 0, 0, 0, 0, 0, 0]

theorem writeWithin_agrees_dependent :
    dependentSample.Delimited ∧ dependentSample.toBytes = .ok dependentBytes ∧
      dependentSample.writeWithin 70 = .ok 2 ∧
      dependentSample.writeWithin 43 = .error (.write .symbolTable) ∧
      parse (dependentBytes.take 43) = .error (.truncated .symbolTable 43) ∧
      dependentSample.writeWithin 44 = .error (.write .functionTable) ∧
      parse (dependentBytes.take 44) = .error (.truncated .functionTable 44) := by
  have hd : dependentSample.Delimited := by simp [Delimited, Symbol.Delimited, dependentSample]
  have hb : dependentSample.toBytes = .ok dependentBytes := rfl
  have hwrites := writeWithin_agrees hd hb
  have hcut : ∀ limit within offset, limit < dependentBytes.length →
      parse (dependentBytes.take limit) = .error (.truncated within offset) →
      dependentSample.writeWithin limit = .error (.write within) := by
    intro limit within offset hlt hparse
    obtain ⟨within', _, hwrite, hparse'⟩ := (hwrites limit).2 hlt
    rw [hparse] at hparse'
    cases hparse'
    exact hwrite
  have hsymbols : parse (dependentBytes.take 43) = .error (.truncated .symbolTable 43) := rfl
  have hfunctions : parse (dependentBytes.take 44) = .error (.truncated .functionTable 44) := rfl
  exact ⟨hd, hb, ((hwrites 70).1 2).2 (by decide), hcut 43 _ _ (by decide) hsymbols, hsymbols,
    hcut 44 _ _ (by decide) hfunctions, hfunctions⟩

end Container

end NovelScript
