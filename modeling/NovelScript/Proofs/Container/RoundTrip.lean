import NovelScript.Proofs.Container.NameLength
import NovelScript.Proofs.Container.Reading
import NovelScript.Proofs.Outcome

/-!
Writing a container gives the bytes of the form with wide names, if all lengths fit into their
words (`toBytes_eq_ok_iff`). So what is written reads back as the same container.
-/

namespace NovelScript

open Outcome

namespace Container

variable (c : Container)

def names : List String :=
  c.symbols.toList.map (·.name) ++ c.functions.toList.map (·.name) ++ c.labels.toList.map (·.name)

/-- A name is short enough for its field. The high bit of the length word is not free. -/
def NameFits (name : String) : Prop := (Utf16.toBytes name).length + 2 < Source.wideFlag

/-- The counts and lengths of a section fit into their words. -/
def SectionFits : Section → Prop
  | .symbolTable => c.symbols.size < UInt32.size ∧ ∀ s ∈ c.symbols, NameFits s.name
  | .functionTable => c.functions.size < UInt32.size ∧ ∀ f ∈ c.functions, NameFits f.name
  | .labelTable => c.labels.size < UInt32.size ∧ ∀ l ∈ c.labels, NameFits l.name
  | .stringSegment => c.strings.size < UInt32.size
  | .codeSegment => c.code.size < UInt32.size
  | .messageTable => c.messages.size < UInt32.size
  | .messageSegment => c.messageData.size < UInt32.size

def Fits : Prop := ∀ within, c.SectionFits within

/-- What `Fits` says of the parts that are neither names nor strings. -/
structure CountsFit (c : Container) : Prop where
  symbols : c.symbols.size < UInt32.size
  functions : c.functions.size < UInt32.size
  labels : c.labels.size < UInt32.size
  code : c.code.size < UInt32.size
  messages : c.messages.size < UInt32.size
  messageData : c.messageData.size < UInt32.size

end Container

theorem StringField.text_ofText (text : String) : (ofText text).text = text := by
  simp [StringField.text, ofText, terminator, Utf16.ofBytes_toBytes]

theorem StringField.valid_ofText_iff {text : String} :
    (ofText text).Valid ↔ Container.NameFits text := by
  simp [Valid, ofText, terminator, Container.NameFits]

theorem Form.body_sublist (F : Form) {f : StringField} (hf : f ∈ F.fields) :
    f.body.Sublist F.bytes := by
  have hsection : ∀ within, (F.sectionBytes within).Sublist F.bytes := by
    intro within
    rw [bytes, List.flatMap_def]
    exact List.sublist_flatten_of_mem (List.mem_map_of_mem (by cases within <;> decide))
  have htable : ∀ {α : Type} (written : α → List UInt8) {items : List α} {a : α}, a ∈ items →
      (written a).Sublist (tableBytes written items) := by
    intro α written items a ha
    rw [tableBytes, List.flatMap_def]
    exact (List.sublist_flatten_of_mem (List.mem_map_of_mem ha)).trans
      (List.sublist_append_right ..)
  have hfield : ∀ (f : StringField), f.body.Sublist f.bytes :=
    fun f ↦ List.sublist_append_right ..
  simp only [fields, List.mem_append, List.mem_map] at hf
  rcases hf with (⟨p, hp, rfl⟩ | ⟨p, hp, rfl⟩) | ⟨p, hp, rfl⟩
  · refine (hfield p.1).trans (.trans ?_ (hsection .symbolTable))
    refine .trans ?_ ((htable symbolBytes hp).trans (List.sublist_append_left ..))
    simp only [symbolBytes, List.append_assoc]
    exact List.sublist_append_left ..
  · refine (hfield p.1).trans (.trans ?_ (hsection .functionTable))
    refine .trans ?_ (htable functionBytes hp)
    simp only [functionBytes, List.append_assoc]
    exact List.sublist_append_left ..
  · refine (hfield p.1).trans (.trans ?_ (hsection .labelTable))
    exact .trans (List.sublist_append_left ..) (htable labelBytes hp)

/-- A writer gives the bytes of each value that fits, and fails on all others. -/
def Encodes {α : Type} (item : α → Encoding) (written : α → List UInt8) (fits : α → Prop) : Prop :=
  ∀ a bytes, item a = .ok bytes ↔ fits a ∧ bytes = written a

namespace Section

variable (within : Section)

theorem count_encodes (what : String) :
    Encodes (within.count what) (fun n ↦ Bytes.ofWord (UInt32.ofNat n)) (· < UInt32.size) := by
  intro n bytes
  unfold count
  split <;> rename_i h
  · simp [h, eq_comm]
  · simp [h]

theorem string_encodes :
    Encodes within.string (fun text ↦ (StringField.ofText text).bytes) Container.NameFits := by
  intro text bytes
  have hb : (StringField.ofText text).bytes =
      Bytes.ofWord (UInt32.ofNat ((Utf16.toBytes text).length + 2 + Source.wideFlag)) ++
        Utf16.toBytes text ++ [0, 0] := by
    simp [StringField.bytes, StringField.lengthWord, StringField.ofText]
  unfold string Container.NameFits
  dsimp only
  split <;> rename_i h
  · simp only [h, true_and, hb, Except.ok.injEq, eq_comm]
  · split <;> simp [h]

theorem segment_encodes :
    Encodes within.segment Form.segmentBytes (·.length < UInt32.size) := by
  intro bytes written
  exact bind_pure_eq_ok_iff (within.count_encodes _ bytes.length)

theorem table_encodes {α : Type} {item : α → Encoding} {written : α → List UInt8}
    {fits : α → Prop} (h : Encodes item written fits) (what : String) :
    Encodes (within.table what item) (Form.tableBytes written)
      (fun items ↦ items.length < UInt32.size ∧ ∀ a ∈ items, fits a) := by
  intro items bytes
  simp only [table, bind_eq_ok_iff, pure_eq_ok_iff, within.count_encodes _ _ _,
    mapM_eq_ok_iff fun a _ ↦ h a, Form.tableBytes, List.flatMap_def]
  constructor
  · intro h
    obtain ⟨_, ⟨hl, rfl⟩, _, ⟨hv, rfl⟩, rfl⟩ := h
    exact ⟨⟨hl, hv⟩, rfl⟩
  · intro h
    obtain ⟨⟨hl, hv⟩, rfl⟩ := h
    exact ⟨_, ⟨hl, rfl⟩, _, ⟨hv, rfl⟩, rfl⟩

/-- An item whose name is its only part that may be too long. -/
theorem named_encodes {α : Type} (nameOf : α → String) (whole : α → List UInt8 → List UInt8) :
    Encodes (fun a ↦ return whole a (← within.string (nameOf a)))
      (fun a ↦ whole a (StringField.ofText (nameOf a)).bytes)
      (fun a ↦ Container.NameFits (nameOf a)) := by
  intro a bytes
  exact bind_pure_eq_ok_iff (within.string_encodes (nameOf a))

theorem symbol_encodes :
    Encodes within.symbol (fun s ↦ Form.symbolBytes (.ofText s.name, s))
      (Container.NameFits ·.name) :=
  within.named_encodes Symbol.name _

theorem function_encodes :
    Encodes within.function (fun f ↦ Form.functionBytes (.ofText f.name, f))
      (Container.NameFits ·.name) :=
  within.named_encodes Function.name _

theorem label_encodes :
    Encodes within.label (fun l ↦ Form.labelBytes (.ofText l.name, l))
      (Container.NameFits ·.name) :=
  within.named_encodes Label.name _

theorem messageEntry_encodes : Encodes messageEntry Form.messageBytes (fun _ ↦ True) := by
  intro m bytes
  simp only [messageEntry, pure_eq_ok_iff, true_and, Form.messageBytes]

end Section

namespace Container

variable (c : Container)

theorem sectionBytes_encodes :
    Encodes c.sectionBytes (Form.ofContainer c).sectionBytes c.SectionFits := by
  have hmap : ∀ {α β : Type} (mk : α → β) (written : β → List UInt8) (items : List α),
      Form.tableBytes written (items.map mk) = Form.tableBytes (fun a ↦ written (mk a)) items := by
    intro α β mk written items
    rw [Form.tableBytes, Form.tableBytes, List.length_map, List.flatMap_map]
  intro within bytes
  cases within with
  | symbolTable =>
    rw [sectionBytes,
      bind_pure_eq_ok_iff (Section.table_encodes _ (Section.symbol_encodes _) _ c.symbols.toList)]
    simp only [SectionFits, Form.sectionBytes, Form.ofContainer, hmap, Array.length_toList,
      Array.mem_toList_iff]
  | functionTable =>
    simp only [sectionBytes, SectionFits, Form.sectionBytes, Form.ofContainer, hmap,
      Section.table_encodes _ (Section.function_encodes _) _ _ _, Array.length_toList,
      Array.mem_toList_iff]
  | labelTable =>
    simp only [sectionBytes, SectionFits, Form.sectionBytes, Form.ofContainer, hmap,
      Section.table_encodes _ (Section.label_encodes _) _ _ _, Array.length_toList,
      Array.mem_toList_iff]
  | messageTable =>
    simp only [sectionBytes, SectionFits, Form.sectionBytes, Form.ofContainer,
      Section.table_encodes _ Section.messageEntry_encodes _ _ _, Array.length_toList,
      implies_true, and_true]
  | stringSegment | codeSegment | messageSegment =>
    simp only [sectionBytes, SectionFits, Form.sectionBytes, Form.ofContainer,
      Section.segment_encodes _ _ _, Array.length_toList]

theorem toBytes_eq_ok_iff {bytes : List UInt8} :
    c.toBytes = .ok bytes ↔ c.Fits ∧ bytes = (Form.ofContainer c).bytes := by
  have hall : (∀ within ∈ Section.all, c.SectionFits within) ↔ c.Fits :=
    ⟨fun h within ↦ h within (by cases within <;> decide), fun h within _ ↦ h within⟩
  rw [toBytes, bind_pure_eq_ok_iff (mapM_eq_ok_iff fun within _ ↦ c.sectionBytes_encodes within),
    hall, Form.bytes, List.flatMap_def]

theorem valid_named {α : Type} (nameOf : α → String) {items : Array α}
    (h : ∀ a ∈ items, NameFits (nameOf a)) :
    ∀ p ∈ items.toList.map fun a ↦ (StringField.ofText (nameOf a), a),
      p.1.Valid ∧ nameOf p.2 = p.1.text := by
  intro p hp
  obtain ⟨a, ha, rfl⟩ := List.mem_map.1 hp
  exact ⟨StringField.valid_ofText_iff.2 (h a (Array.mem_toList_iff.1 ha)),
    (StringField.text_ofText _).symm⟩

theorem valid_ofContainer (hf : c.Fits) (hd : c.Delimited) : (Form.ofContainer c).Valid where
  symbols := by
    obtain ⟨hl, hn⟩ := hf .symbolTable
    refine ⟨by simpa [Form.ofContainer] using hl, fun p hp ↦ ?_⟩
    obtain ⟨hv, ht⟩ := valid_named Symbol.name hn p hp
    obtain ⟨s, hs, rfl⟩ := List.mem_map.1 hp
    exact ⟨hv, ht, hd s (Array.mem_toList_iff.1 hs)⟩
  functions := by
    obtain ⟨hl, hn⟩ := hf .functionTable
    exact ⟨by simpa [Form.ofContainer] using hl, valid_named Function.name hn⟩
  labels := by
    obtain ⟨hl, hn⟩ := hf .labelTable
    exact ⟨by simpa [Form.ofContainer] using hl, valid_named Label.name hn⟩
  strings := hf .stringSegment
  code := hf .codeSegment
  messages := hf .messageTable
  messageData := hf .messageSegment

variable {c}

theorem read_of_toBytes {bytes : List UInt8} (hd : c.Delimited) (h : c.toBytes = .ok bytes) :
    Form.read bytes = .ok (Form.ofContainer c) := by
  obtain ⟨hf, hb⟩ := c.toBytes_eq_ok_iff.1 h
  exact Form.read_eq_ok_iff.2 ⟨c.valid_ofContainer hf hd, hb⟩

theorem parse_of_toBytes {bytes : List UInt8} (hd : c.Delimited) (h : c.toBytes = .ok bytes) :
    parse bytes = .ok c := by
  rw [Form.parse_eq_map_read, read_of_toBytes hd h]
  exact congrArg Except.ok (Form.container_ofContainer c)

theorem delimited_of_parse {data : List UInt8} (h : parse data = .ok c) : c.Delimited := by
  obtain ⟨F, hF, rfl, -⟩ := Form.parse_eq_ok_iff.1 h
  intro s hs
  obtain ⟨p, hp, rfl⟩ := List.mem_map.1 (Array.mem_toList_iff.2 hs)
  exact (hF.symbols.2 p hp).2.2

theorem forall_names_iff {P : String → Prop} :
    (∀ name ∈ c.names, P name) ↔
      (∀ s ∈ c.symbols, P s.name) ∧ (∀ f ∈ c.functions, P f.name) ∧ ∀ l ∈ c.labels, P l.name := by
  simp [names, or_imp, forall_and]

theorem fits_iff :
    c.Fits ↔ c.CountsFit ∧ c.strings.size < UInt32.size ∧ ∀ name ∈ c.names, NameFits name := by
  rw [forall_names_iff]
  constructor
  · intro h
    obtain ⟨hs, hsn⟩ := h .symbolTable
    obtain ⟨hf, hfn⟩ := h .functionTable
    obtain ⟨hl, hln⟩ := h .labelTable
    exact ⟨⟨hs, hf, hl, h .codeSegment, h .messageTable, h .messageSegment⟩, h .stringSegment,
      hsn, hfn, hln⟩
  · intro h within
    obtain ⟨hc, hstrings, hs, hf, hl⟩ := h
    cases within with
    | symbolTable => exact ⟨hc.symbols, hs⟩
    | functionTable => exact ⟨hc.functions, hf⟩
    | labelTable => exact ⟨hc.labels, hl⟩
    | stringSegment => exact hstrings
    | codeSegment => exact hc.code
    | messageTable => exact hc.messages
    | messageSegment => exact hc.messageData

theorem countsFit_of_parse {data : List UInt8} (h : parse data = .ok c) :
    c.CountsFit ∧ c.strings.size < UInt32.size := by
  obtain ⟨F, hF, rfl, -⟩ := Form.parse_eq_ok_iff.1 h
  refine ⟨⟨?_, ?_, ?_, hF.code, hF.messages, hF.messageData⟩, hF.strings⟩
  · simpa [Form.container] using hF.symbols.1
  · simpa [Form.container] using hF.functions.1
  · simpa [Form.container] using hF.labels.1

theorem exists_toBytes_iff : (∃ bytes, c.toBytes = .ok bytes) ↔ c.Fits := by
  constructor
  · intro h
    obtain ⟨bytes, hb⟩ := h
    exact (c.toBytes_eq_ok_iff.1 hb).1
  · intro hf
    exact ⟨_, c.toBytes_eq_ok_iff.2 ⟨hf, rfl⟩⟩

theorem wide_ofContainer (c : Container) : ∀ f ∈ (Form.ofContainer c).fields, f.wide = true := by
  intro f hf
  simp only [Form.fields, Form.ofContainer, List.map_map, List.mem_append, List.mem_map,
    Function.comp_apply] at hf
  rcases hf with (⟨_, _, rfl⟩ | ⟨_, _, rfl⟩) | ⟨_, _, rfl⟩ <;> rfl

theorem valid_fields {F : Form} (hF : F.Valid) : ∀ f ∈ F.fields, f.Valid := by
  simp only [Form.fields, List.forall_mem_append, List.forall_mem_map]
  exact ⟨⟨fun p hp ↦ (hF.symbols.2 p hp).1, fun p hp ↦ (hF.functions.2 p hp).1⟩,
    fun p hp ↦ (hF.labels.2 p hp).1⟩

theorem names_container {F : Form} (hF : F.Valid) :
    F.container.names = F.fields.map StringField.text := by
  simp only [names, Form.container, Form.fields, List.map_append, List.map_map]
  congr 1
  · congr 1
    · exact List.map_congr_left fun p hp ↦ (hF.symbols.2 p hp).2.1
    · exact List.map_congr_left fun p hp ↦ (hF.functions.2 p hp).2
  · exact List.map_congr_left fun p hp ↦ (hF.labels.2 p hp).2

theorem names_fit_of_length_le {data : List UInt8} (h : parse data = .ok c)
    (hl : data.length ≤ 0x20000000) : ∀ name ∈ c.names, NameFits name := by
  obtain ⟨F, hF, rfl, rfl⟩ := Form.parse_eq_ok_iff.1 h
  rw [names_container hF, List.forall_mem_map]
  intro f hf
  have hb := (F.body_sublist hf).length_le
  have ht := f.length_toBytes_text (valid_fields hF f hf)
  have hw : Source.wideFlag = 0x80000000 := rfl
  rw [NameFits, hw]
  omega

theorem exists_toBytes_of_parse_iff {data : List UInt8} (h : parse data = .ok c) :
    (∃ bytes, c.toBytes = .ok bytes) ↔ ∀ name ∈ c.names, NameFits name := by
  obtain ⟨hcounts, hstrings⟩ := countsFit_of_parse h
  rw [exists_toBytes_iff, fits_iff]
  exact ⟨fun hf ↦ hf.2.2, fun hn ↦ ⟨hcounts, hstrings, hn⟩⟩

/-- What is written reads back as the same container, and every container read from bytes is
written again in the same way, with all names wide. Only a name too long for its field keeps a
container that was read from being written, and no input of at most half a gibibyte has one. -/
theorem parse_toBytes_roundtrip :
    (∀ (c : Container) (bytes : List UInt8), c.Delimited → c.toBytes = .ok bytes →
      parse bytes = .ok c) ∧
    ∀ (data : List UInt8) (c : Container), parse data = .ok c →
      c.Delimited ∧
      ((∃ bytes, c.toBytes = .ok bytes) ↔ ∀ name ∈ c.names, NameFits name) ∧
      (data.length ≤ 0x20000000 → ∃ bytes, c.toBytes = .ok bytes) ∧
      ∀ bytes, c.toBytes = .ok bytes →
        parse bytes = .ok c ∧
        (∀ c', parse bytes = .ok c' → c'.toBytes = .ok bytes) ∧
        ∃ F, Form.read bytes = .ok F ∧ F.container = c ∧ ∀ f ∈ F.fields, f.wide = true := by
  refine ⟨fun c bytes hd hb ↦ parse_of_toBytes hd hb, fun data c h ↦ ?_⟩
  have hd := delimited_of_parse h
  have hsave := exists_toBytes_of_parse_iff h
  refine ⟨hd, hsave, fun hl ↦ hsave.2 (names_fit_of_length_le h hl), fun bytes hb ↦ ?_⟩
  have hp := parse_of_toBytes hd hb
  refine ⟨hp, fun c' hc' ↦ ?_, _, read_of_toBytes hd hb, Form.container_ofContainer c,
    wide_ofContainer c⟩
  rw [hp] at hc'
  cases hc'
  exact hb

/-- One symbol with a narrow name and a dependency, and a message entry outside its segment. -/
def narrowSample : List UInt8 :=
  [1, 0, 0, 0, 2, 0, 0, 0, 0x61, 0, 3, 0, 0, 0, 0xFF, 0xFF, 0xFF, 0xFF, 0, 0, 0, 0, 4, 0, 0, 0,
    0, 0, 0, 0, 0, 0, 0, 0, 1, 0, 0, 0, 0, 0, 0, 0, 0, 0, 0, 0, 0, 0, 0, 0, 0, 0, 0, 0, 0, 0, 0, 0,
    1, 0, 0, 0, 8, 0, 0, 0, 4, 0, 0, 0, 0, 0, 0, 0]

theorem parse_toBytes_roundtrip_narrow :
    ∃ c bytes, parse narrowSample = .ok c ∧ c.symbols = #[⟨"a", [(3, -1)], 4, 0, 0, 1⟩] ∧
      c.messages = #[⟨8, 4⟩] ∧ c.Delimited ∧ c.toBytes = .ok bytes ∧ parse bytes = .ok c := by
  have h : parse narrowSample = .ok
      { symbols := #[⟨"a", [(3, -1)], 4, 0, 0, 1⟩], messages := #[⟨8, 4⟩] } := rfl
  obtain ⟨hd, -, hsave, -⟩ := parse_toBytes_roundtrip.2 _ _ h
  obtain ⟨bytes, hb⟩ := hsave (by decide)
  exact ⟨_, bytes, h, rfl, rfl, hd, hb, parse_toBytes_roundtrip.1 _ _ hd hb⟩

end Container

end NovelScript
