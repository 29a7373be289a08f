import NovelScript.Proofs.Container.Form

/-!
Reading a container takes exactly the bytes of a form. `read_eq_ok_iff` says which bytes are read
and as what, and `parse_eq_map_read` that a container is the container of the form that is read.
-/

namespace NovelScript

theorem Reader.run_bind_eq_ok_iff {α β : Type} {r : Reader α} {k : α → Reader β}
    {bytes rest : List UInt8} {b : β} :
    (r >>= k).run bytes = .ok (b, rest) ↔
      ∃ a middle, r.run bytes = .ok (a, middle) ∧ (k a).run middle = .ok (b, rest) := by
  rw [StateT.run_bind]
  cases h : r.run bytes with
  | error e => simp [bind, Except.bind]
  | ok p =>
    obtain ⟨a, middle⟩ := p
    constructor
    · exact fun hk ↦ ⟨a, middle, rfl, hk⟩
    · intro h
      obtain ⟨_, _, hp, hk⟩ := h
      cases hp
      exact hk

theorem Reader.run_pure_eq_ok_iff {α : Type} {a b : α} {bytes rest : List UInt8} :
    (pure a : Reader α).run bytes = .ok (b, rest) ↔ b = a ∧ bytes = rest := by
  rw [StateT.run_pure]
  constructor
  · intro h
    cases h
    exact ⟨rfl, rfl⟩
  · intro h
    obtain ⟨rfl, rfl⟩ := h
    rfl

namespace StringField

theorem toNat_lengthWord {f : StringField} (h : f.body.length < Source.wideFlag) :
    f.lengthWord.toNat = f.body.length + if f.wide then Source.wideFlag else 0 := by
  have hsize : UInt32.size = 2 * Source.wideFlag := rfl
  apply UInt32.toNat_ofNat_of_lt'
  split <;> omega

theorem lengthWord_mod {f : StringField} (h : f.body.length < Source.wideFlag) :
    f.lengthWord.toNat % Source.wideFlag = f.body.length := by
  rw [toNat_lengthWord h]
  split
  · rw [Nat.add_mod_right, Nat.mod_eq_of_lt h]
  · exact Nat.mod_eq_of_lt h

theorem wide_lengthWord {f : StringField} (h : f.body.length < Source.wideFlag) :
    decide (Source.wideFlag ≤ f.lengthWord.toNat) = f.wide := by
  rw [toNat_lengthWord h]
  cases f.wide with
  | false => exact decide_eq_false (Nat.not_le.2 h)
  | true => exact decide_eq_true (Nat.le_add_left ..)

/-- The length word that a field was read with is the one it is written with. -/
theorem lengthWord_eq {w : UInt32} {body : List UInt8}
    (h : body.length = w.toNat % Source.wideFlag) :
    lengthWord ⟨decide (Source.wideFlag ≤ w.toNat), body⟩ = w := by
  have hbody : body.length < Source.wideFlag := h ▸ Nat.mod_lt _ (by decide)
  have hflag : Source.wideFlag = 0x80000000 := rfl
  have hw := w.toNat_lt
  refine UInt32.toNat_inj.1 ((toNat_lengthWord hbody).trans ?_)
  simp only [decide_eq_true_eq, h, hflag]
  split <;> omega

end StringField

/-- A reader takes exactly the bytes of each valid value, whatever follows them. -/
def Decodes {α : Type} (r : Reader α) (written : α → List UInt8) (valid : α → Prop) : Prop :=
  ∀ bytes a rest, r.run bytes = .ok (a, rest) ↔ valid a ∧ bytes = written a ++ rest

namespace Source

variable (src : Source)

theorem word_run (bytes : List UInt8) :
    src.word.run bytes = match Bytes.split? 4 bytes with
      | some (front, rest) => .ok (Bytes.toWord front, rest)
      | none => .error (.truncated src.within src.total) := rfl

theorem payload_run (length : Nat) (bytes : List UInt8) :
    (src.payload length).run bytes = match Bytes.split? length bytes with
      | some (front, rest) => .ok (front, rest)
      | none => .error (.truncated src.within (src.position bytes)) := rfl

theorem word_decodes : Decodes src.word Bytes.ofWord (fun _ ↦ True) := by
  intro bytes w rest
  have h : ∀ front, front.length = 4 → (Bytes.toWord front = w ↔ front = Bytes.ofWord w) := by
    intro front hf
    rw [Bytes.toWord_eq_iff (Nat.le_of_eq hf), hf]
    exact and_iff_right w.toNat_lt
  rw [word_run]
  cases hs : Bytes.split? 4 bytes with
  | none =>
    have hl := Bytes.split?_eq_none_iff.1 hs
    simp only [reduceCtorEq, true_and, false_iff]
    intro h
    subst h
    rw [List.length_append, Bytes.length_ofWord] at hl
    omega
  | some p =>
    obtain ⟨front, after⟩ := p
    obtain ⟨rfl, hf⟩ := Bytes.split?_eq_some_iff.1 hs
    simp only [Except.ok.injEq, Prod.mk.injEq, true_and, h front hf]
    constructor
    · intro h
      obtain ⟨rfl, rfl⟩ := h
      rfl
    · intro he
      exact List.append_inj he (by simp [hf])

theorem int_decodes : Decodes src.int Section.int (fun _ ↦ True) := by
  intro bytes n rest
  simp only [int, Reader.run_bind_eq_ok_iff, Reader.run_pure_eq_ok_iff, src.word_decodes _ _ _,
    true_and, Section.int]
  constructor
  · intro h
    obtain ⟨w, _, rfl, rfl, rfl⟩ := h
    rfl
  · intro h
    subst h
    exact ⟨n.toUInt32, rest, rfl, rfl, rfl⟩

theorem payload_run_eq_ok_iff {length : Nat} {bytes front rest : List UInt8} :
    (src.payload length).run bytes = .ok (front, rest) ↔
      front.length = length ∧ bytes = front ++ rest := by
  rw [and_comm, ← Bytes.split?_eq_some_iff, payload_run]
  cases Bytes.split? length bytes with
  | none => simp
  | some p => simp [Prod.ext_iff]

theorem many_decodes {α : Type} {item : Reader α} {written : α → List UInt8} {valid : α → Prop}
    (h : Decodes item written valid) (count : Nat) :
    Decodes (many item count) (List.flatMap written)
      (fun items ↦ items.length = count ∧ ∀ a ∈ items, valid a) := by
  intro bytes items rest
  induction count generalizing bytes items with
  | zero =>
    rw [many, Reader.run_pure_eq_ok_iff]
    constructor
    · intro h
      obtain ⟨rfl, rfl⟩ := h
      exact ⟨⟨rfl, by simp⟩, rfl⟩
    · intro h
      obtain ⟨⟨hl, -⟩, rfl⟩ := h
      obtain rfl := List.length_eq_zero_iff.1 hl
      exact ⟨rfl, rfl⟩
  | succ count ih =>
    simp only [many, Reader.run_bind_eq_ok_iff, Reader.run_pure_eq_ok_iff, h _ _ _]
    constructor
    · intro h
      obtain ⟨a, middle, ⟨ha, rfl⟩, later, _, hm, rfl, rfl⟩ := h
      obtain ⟨⟨rfl, hl⟩, rfl⟩ := (ih middle later).1 hm
      exact ⟨⟨rfl, by simpa using ⟨ha, hl⟩⟩, by simp⟩
    · intro h
      obtain ⟨⟨hc, hv⟩, rfl⟩ := h
      cases items with
      | nil => simp at hc
      | cons a later =>
        have hl := (ih (later.flatMap written ++ rest) later).2
          ⟨⟨by simpa using hc, fun b hb ↦ hv b (by simp [hb])⟩, rfl⟩
        exact ⟨a, _, ⟨hv a (by simp), by simp⟩, later, rest, hl, rfl, rfl⟩

theorem table_decodes {α : Type} {item : Reader α} {written : α → List UInt8} {valid : α → Prop}
    (h : Decodes item written valid) :
    Decodes (src.table item) (Form.tableBytes written)
      (fun items ↦ items.length < UInt32.size ∧ ∀ a ∈ items, valid a) := by
  intro bytes items rest
  simp only [table, Reader.run_bind_eq_ok_iff, src.word_decodes _ _ _, true_and,
    many_decodes h _ _ _ _, Form.tableBytes]
  constructor
  · intro h
    obtain ⟨w, _, rfl, ⟨hl, hv⟩, rfl⟩ := h
    refine ⟨⟨hl ▸ w.toNat_lt, hv⟩, ?_⟩
    rw [hl, UInt32.ofNat_toNat, List.append_assoc]
  · intro h
    obtain ⟨⟨hl, hv⟩, rfl⟩ := h
    refine ⟨_, _, List.append_assoc .., ⟨?_, hv⟩, rfl⟩
    exact (UInt32.toNat_ofNat_of_lt' hl).symm

theorem segment_decodes :
    Decodes src.segment Form.segmentBytes (fun bytes ↦ bytes.length < UInt32.size) := by
  intro bytes front rest
  simp only [segment, Reader.run_bind_eq_ok_iff, src.word_decodes _ _ _, true_and,
    payload_run_eq_ok_iff, Form.segmentBytes]
  constructor
  · intro h
    obtain ⟨w, _, rfl, hl, rfl⟩ := h
    refine ⟨hl ▸ w.toNat_lt, ?_⟩
    rw [hl, UInt32.ofNat_toNat, List.append_assoc]
  · intro h
    obtain ⟨hl, rfl⟩ := h
    refine ⟨_, _, List.append_assoc .., ?_, rfl⟩
    exact (UInt32.toNat_ofNat_of_lt' hl).symm

theorem field_decodes : Decodes src.field StringField.bytes StringField.Valid := by
  intro bytes f rest
  have hget : ∀ {β} (k : List UInt8 → Reader β), (get >>= k).run bytes = (k bytes).run bytes :=
    fun _ ↦ rfl
  simp only [field, hget, Reader.run_bind_eq_ok_iff, src.word_decodes _ _ _, true_and]
  constructor
  · intro h
    obtain ⟨w, middle, rfl, h⟩ := h
    split at h
    · cases h
    · rename_i ht
      simp only [Reader.run_bind_eq_ok_iff, payload_run_eq_ok_iff,
        Reader.run_pure_eq_ok_iff] at h
      obtain ⟨body, _, ⟨hl, rfl⟩, rfl, rfl⟩ := h
      refine ⟨⟨?_, ?_⟩, ?_⟩
      · rw [hl]
        exact Nat.le_of_not_lt ht
      · rw [hl]
        exact Nat.mod_lt _ (by decide)
      · rw [StringField.bytes, StringField.lengthWord_eq hl, List.append_assoc]
  · intro h
    obtain ⟨⟨ht, hl⟩, rfl⟩ := h
    have ht' : ¬f.body.length < StringField.terminator ⟨f.wide, []⟩ := Nat.not_lt.2 ht
    refine ⟨f.lengthWord, f.body ++ rest, by rw [StringField.bytes, List.append_assoc], ?_⟩
    rw [StringField.lengthWord_mod hl, StringField.wide_lengthWord hl, if_neg ht']
    simp only [Reader.run_bind_eq_ok_iff, payload_run_eq_ok_iff, Reader.run_pure_eq_ok_iff]
    exact ⟨f.body, rest, ⟨rfl, rfl⟩, rfl, rfl⟩

theorem dependencies_eq :
    src.dependencies = do
      let first ← src.int
      if first = 0 then return []
      let second ← src.int
      return (first, second) :: (← src.dependencies) := by
  have hi : ∀ a b c d rest, src.int (a :: b :: c :: d :: rest) =
      .ok ((Bytes.toWord [a, b, c, d]).toInt32, rest) := fun _ _ _ _ _ ↦ rfl
  funext bytes
  -- the reader looks at four bytes at a time, so every shorter rest is a case of its own
  match bytes with
  | a :: b :: c :: d :: rest =>
    rw [dependencies.eq_def]
    simp only [bind, StateT.bind, Except.bind, hi]
    split
    · rfl
    · match rest with
      | e :: f :: g :: h :: rest =>
        simp only [StateT.bind, bind, Except.bind, hi]
        cases src.dependencies rest <;> rfl
      | [] | [_] | [_, _] | [_, _, _] => rfl
  | [] | [_] | [_, _] | [_, _, _] => rfl

theorem dependencies_run_eq_ok_iff {bytes rest : List UInt8} {pairs : List (Int32 × Int32)} :
    src.dependencies.run bytes = .ok (pairs, rest) ↔
      (pairs = [] ∧ bytes = Section.int 0 ++ rest) ∨
        ∃ first second later after, first ≠ 0 ∧ pairs = (first, second) :: later ∧
          bytes = Section.int first ++ (Section.int second ++ after) ∧
            src.dependencies.run after = .ok (later, rest) := by
  conv =>
    lhs
    rw [dependencies_eq]
  simp only [Reader.run_bind_eq_ok_iff, src.int_decodes _ _ _, true_and]
  constructor
  · intro h
    obtain ⟨first, middle, rfl, h⟩ := h
    split at h
    · rename_i hz
      obtain ⟨rfl, rfl⟩ := Reader.run_pure_eq_ok_iff.1 h
      exact .inl ⟨rfl, by rw [hz]⟩
    · rename_i hz
      simp only [Reader.run_bind_eq_ok_iff, Reader.run_pure_eq_ok_iff, src.int_decodes _ _ _,
        true_and] at h
      obtain ⟨second, after, rfl, later, _, hl, rfl, rfl⟩ := h
      exact .inr ⟨first, second, later, after, hz, rfl, rfl, hl⟩
  · intro h
    rcases h with ⟨rfl, rfl⟩ | ⟨first, second, later, after, hz, rfl, rfl, hl⟩
    · exact ⟨0, rest, rfl, rfl⟩
    · refine ⟨first, _, rfl, ?_⟩
      rw [if_neg hz]
      simp only [Reader.run_bind_eq_ok_iff, Reader.run_pure_eq_ok_iff, src.int_decodes _ _ _,
        true_and]
      exact ⟨second, after, rfl, later, rest, hl, rfl, rfl⟩

theorem dependencies_decodes :
    Decodes src.dependencies
      (fun pairs ↦ pairs.flatMap (fun (a, b) ↦ Section.int a ++ Section.int b) ++ Section.int 0)
      (fun pairs ↦ ∀ d ∈ pairs, d.1 ≠ 0) := by
  intro bytes pairs rest
  induction pairs generalizing bytes with
  | nil =>
    rw [dependencies_run_eq_ok_iff]
    simp
  | cons d later ih =>
    obtain ⟨a, b⟩ := d
    rw [dependencies_run_eq_ok_iff]
    dsimp only
    rw [List.forall_mem_cons, List.flatMap_cons]
    constructor
    · intro h
      rcases h with ⟨hn, -⟩ | ⟨_, _, _, after, hz, he, rfl, hl⟩
      · cases hn
      · cases he
        obtain ⟨hd, rfl⟩ := (ih after).1 hl
        exact ⟨⟨hz, hd⟩, by simp⟩
    · intro h
      obtain ⟨⟨hz, hd⟩, rfl⟩ := h
      exact .inr ⟨a, b, later, _, hz, rfl, by simp, (ih _).2 ⟨hd, rfl⟩⟩

theorem namedSymbol_decodes :
    Decodes src.namedSymbol Form.symbolBytes
      (fun p ↦ p.1.Valid ∧ p.2.name = p.1.text ∧ p.2.Delimited) := by
  intro bytes p rest
  simp only [namedSymbol, Reader.run_bind_eq_ok_iff, Reader.run_pure_eq_ok_iff,
    src.field_decodes _ _ _, src.dependencies_decodes _ _ _, src.int_decodes _ _ _, true_and]
  constructor
  · intro h
    obtain ⟨f, _, ⟨hf, rfl⟩, deps, _, ⟨hd, rfl⟩, _, _, rfl, _, _, rfl, _, _, rfl, _, _, rfl, rfl,
      rfl⟩ := h
    exact ⟨⟨hf, rfl, hd⟩, by simp [Form.symbolBytes]⟩
  · intro h
    obtain ⟨⟨hf, hn, hd⟩, rfl⟩ := h
    obtain ⟨f, name, deps, kind, unknown8, unknown14, convention⟩ := p
    obtain rfl : name = f.text := hn
    refine ⟨f, _, ⟨hf, ?_⟩, deps, _, ⟨hd, rfl⟩, kind, _, rfl, unknown8, _, rfl, unknown14, _, rfl,
      convention, rest, rfl, rfl, rfl⟩
    simp [Form.symbolBytes]

theorem namedFunction_decodes :
    Decodes src.namedFunction Form.functionBytes
      (fun p ↦ p.1.Valid ∧ p.2.name = p.1.text) := by
  intro bytes p rest
  simp only [namedFunction, Reader.run_bind_eq_ok_iff, Reader.run_pure_eq_ok_iff,
    src.field_decodes _ _ _, src.int_decodes _ _ _, true_and]
  constructor
  · intro h
    obtain ⟨f, _, ⟨hf, rfl⟩, _, _, rfl, _, _, rfl, _, _, rfl, rfl, rfl⟩ := h
    exact ⟨⟨hf, rfl⟩, by simp [Form.functionBytes]⟩
  · intro h
    obtain ⟨⟨hf, hn⟩, rfl⟩ := h
    obtain ⟨f, name, index, unknown4, offset⟩ := p
    obtain rfl : name = f.text := hn
    refine ⟨f, _, ⟨hf, ?_⟩, index, _, rfl, unknown4, _, rfl, offset, rest, rfl, rfl, rfl⟩
    simp [Form.functionBytes]

theorem namedLabel_decodes :
    Decodes src.namedLabel Form.labelBytes (fun p ↦ p.1.Valid ∧ p.2.name = p.1.text) := by
  intro bytes p rest
  simp only [namedLabel, Reader.run_bind_eq_ok_iff, Reader.run_pure_eq_ok_iff,
    src.field_decodes _ _ _, src.word_decodes _ _ _, true_and]
  constructor
  · intro h
    obtain ⟨f, _, ⟨hf, rfl⟩, _, _, rfl, rfl, rfl⟩ := h
    exact ⟨⟨hf, rfl⟩, by simp [Form.labelBytes]⟩
  · intro h
    obtain ⟨⟨hf, hn⟩, rfl⟩ := h
    obtain ⟨f, name, offset⟩ := p
    obtain rfl : name = f.text := hn
    exact ⟨f, _, ⟨hf, by simp [Form.labelBytes]⟩, offset, rest, rfl, rfl, rfl⟩

theorem messageEntry_decodes :
    Decodes src.messageEntry Form.messageBytes (fun _ ↦ True) := by
  intro bytes m rest
  simp only [messageEntry, Reader.run_bind_eq_ok_iff, Reader.run_pure_eq_ok_iff,
    src.word_decodes _ _ _, true_and]
  constructor
  · intro h
    obtain ⟨_, _, rfl, _, _, rfl, rfl, rfl⟩ := h
    simp [Form.messageBytes]
  · intro h
    subst h
    exact ⟨m.offset, _, by simp [Form.messageBytes], m.length, rest, rfl, rfl, rfl⟩

/-! The readers of a container drop the fields of its names. -/

theorem payload_bind_congr {α : Type} {length : Nat} {k k' : List UInt8 → Reader α}
    (h : ∀ front, front.length = length → k front = k' front) :
    src.payload length >>= k = src.payload length >>= k' := by
  funext bytes
  change (src.payload length >>= k).run bytes = (src.payload length >>= k').run bytes
  rw [StateT.run_bind, StateT.run_bind]
  cases hp : (src.payload length).run bytes with
  | error e => rfl
  | ok p => exact congrArg (·.run p.2) (h p.1 (src.payload_run_eq_ok_iff.1 hp).1)

theorem string_eq_map_field : src.string = StringField.text <$> src.field := by
  rw [string, field, map_bind]
  congr 1
  funext bytes
  rw [map_bind]
  congr 1
  funext raw
  simp only [StringField.terminator, decide_eq_true_eq]
  by_cases ht : raw.toNat % wideFlag < if wideFlag ≤ raw.toNat then 2 else 1
  · rw [if_pos ht, if_pos ht]
    rfl
  · rw [if_neg ht, if_neg ht, map_bind]
    apply src.payload_bind_congr
    intro front hf
    rw [map_pure, ← hf]
    by_cases hw : wideFlag ≤ raw.toNat <;> simp [hw, StringField.text, StringField.terminator]

theorem symbol_eq_map_named : src.symbol = Prod.snd <$> src.namedSymbol := by
  simp only [symbol, namedSymbol, string_eq_map_field, bind_map_left, map_bind, map_pure]

theorem function_eq_map_named : src.function = Prod.snd <$> src.namedFunction := by
  simp only [function, namedFunction, string_eq_map_field, bind_map_left, map_bind, map_pure]

theorem label_eq_map_named : src.label = Prod.snd <$> src.namedLabel := by
  simp only [label, namedLabel, string_eq_map_field, bind_map_left, map_bind, map_pure]

theorem many_map {α β : Type} (f : α → β) (item : Reader α) (count : Nat) :
    many (f <$> item) count = List.map f <$> many item count := by
  induction count with
  | zero => simp only [many, map_pure, List.map_nil]
  | succ count ih => simp only [many, ih, bind_map_left, map_bind, map_pure, List.map_cons]

theorem table_map {α β : Type} (f : α → β) (item : Reader α) :
    src.table (f <$> item) = List.map f <$> src.table item := by
  simp only [table, many_map, map_bind]

end Source

namespace Form

theorem reader_decodes (total : Nat) : Decodes (reader total) bytes Valid := by
  intro data F rest
  simp only [reader, Reader.run_bind_eq_ok_iff, Reader.run_pure_eq_ok_iff,
    Source.table_decodes _ (Source.namedSymbol_decodes _) _ _ _,
    Source.table_decodes _ (Source.namedFunction_decodes _) _ _ _,
    Source.table_decodes _ (Source.namedLabel_decodes _) _ _ _,
    Source.table_decodes _ (Source.messageEntry_decodes _) _ _ _,
    Source.segment_decodes _ _ _ _, Source.int_decodes _ _ _ _, true_and]
  constructor
  · intro h
    obtain ⟨_, _, ⟨hs, rfl⟩, _, _, rfl, _, _, ⟨hf, rfl⟩, _, _, ⟨hl, rfl⟩, _, _, ⟨ht, rfl⟩, _, _,
      ⟨hc, rfl⟩, _, _, ⟨hm, rfl⟩, _, _, ⟨hd, rfl⟩, rfl, rfl⟩ := h
    exact ⟨⟨hs, hf, hl, ht, hc, hm.1, hd⟩, by simp [bytes, Section.all, sectionBytes]⟩
  · intro h
    obtain ⟨hF, rfl⟩ := h
    refine ⟨F.symbols, _, ⟨hF.symbols, ?_⟩, F.symbolTrailer, _, rfl, F.functions, _,
      ⟨hF.functions, rfl⟩, F.labels, _, ⟨hF.labels, rfl⟩, F.strings, _, ⟨hF.strings, rfl⟩, F.code,
      _, ⟨hF.code, rfl⟩, F.messages, _, ⟨⟨hF.messages, by simp⟩, rfl⟩, F.messageData, rest,
      ⟨hF.messageData, rfl⟩, rfl, rfl⟩
    simp [bytes, Section.all, sectionBytes]

theorem read_eq_ok_iff {data : List UInt8} {F : Form} :
    read data = .ok F ↔ F.Valid ∧ data = F.bytes := by
  have h := reader_decodes data.length data
  constructor
  · intro hr
    cases hd : (reader data.length).run data with
    | error e => simp [read, hd, bind, Except.bind] at hr
    | ok p =>
      obtain ⟨G, rest⟩ := p
      simp only [read, hd, bind, Except.bind] at hr
      split at hr
      · rename_i hn
        cases hr
        obtain rfl := List.isEmpty_iff.1 hn
        simpa using (h F []).1 hd
      · cases hr
  · intro hF
    have hd := (h F []).2 (by simpa using hF)
    simp [read, hd, bind, Except.bind, pure, Except.pure]

theorem sections_eq_map_reader (total : Nat) :
    Section.all.foldlM (Container.readSection total) {} = container <$> reader total := by
  simp only [Section.all, List.foldlM_cons, List.foldlM_nil, Container.readSection, reader,
    Source.symbol_eq_map_named, Source.function_eq_map_named, Source.label_eq_map_named,
    Source.table_map, bind_map_left, map_bind, map_pure, bind_assoc, pure_bind, container]

theorem parse_eq_map_read (data : List UInt8) :
    Container.parse data = container <$> read data := by
  rw [Container.parse, sections_eq_map_reader, read, StateT.run_map, map_bind]
  cases (reader data.length).run data with
  | error e => rfl
  | ok p =>
    obtain ⟨F, rest⟩ := p
    simp only [bind, Except.bind, Functor.map, Except.map]
    cases rest <;> rfl

/-- What is read as a container is a form of it. -/
theorem parse_eq_ok_iff {data : List UInt8} {c : Container} :
    Container.parse data = .ok c ↔ ∃ F : Form, F.Valid ∧ F.container = c ∧ data = F.bytes := by
  rw [parse_eq_map_read]
  cases h : read data with
  | error e =>
    constructor
    · intro hc
      cases hc
    · intro h
      obtain ⟨F, hF, -, hd⟩ := h
      rw [read_eq_ok_iff.2 ⟨hF, hd⟩] at h
      cases h
  | ok G =>
    obtain ⟨hG, hd⟩ := read_eq_ok_iff.1 h
    constructor
    · intro hc
      cases hc
      exact ⟨G, hG, rfl, hd⟩
    · intro h
      obtain ⟨F, hF, rfl, hd'⟩ := h
      rw [read_eq_ok_iff.2 ⟨hF, hd'⟩] at h
      cases h
      rfl

end Form

end NovelScript
