import NovelScript.Proofs.Markup.Plain
import NovelScript.Proofs.Packing.MessageTable
import NovelScript.Proofs.Packing.Repacking
import NovelScript.Proofs.References.Relocation
import NovelScript.Proofs.References.Wrapping
import NovelScript.Proofs.Script.Current
import NovelScript.Proofs.Sheet.Entries

/-!
What an import of strings does. It moves the strings that the code loads and gives them the texts
of the sheet, and leaves everything else of the script alone.
-/

namespace NovelScript

open Instruction Outcome

theorem lookup_map_self {β : Type} {f : UInt32 → β} {keys : List UInt32} {key : UInt32}
    (h : key ∈ keys) : (keys.map fun k ↦ (k, f k)).lookup key = some (f key) := by
  induction keys with
  | nil => cases h
  | cons k later ih =>
    rw [List.map_cons, List.lookup_cons]
    by_cases hk : key = k
    · simp [hk]
    · have hne : (key == k) = false := beq_eq_false_iff_ne.2 hk
      rw [hne]
      exact ih ((List.mem_cons.1 h).resolve_left hk)

namespace Script

/-- The string at an offset after an import: the last text that the sheet has for it, or else the
old one. -/
def importedText (s : Script) (text : String) (old : UInt32) : String :=
  ((TextSheet.lastText? TextSheet.referenceMark text old).map fun t ↦
    Markup.unescapeString (String.ofList t)).getD (s.container.stringAt old)

theorem nullFree_importedText (s : Script) {text : String} (h : NullFree text.toList)
    (old : UInt32) : NullFree (s.importedText text old).toList := by
  unfold importedText TextSheet.lastText?
  cases he : (TextSheet.entries TextSheet.referenceMark text).reverse.find? (·.key == old) with
  | none => exact s.container.nullFree_stringAt old
  | some e =>
    have hmem := List.mem_reverse.1 (List.mem_of_find?_eq_some he)
    exact Markup.nullFree_unescapeString fun h0 ↦ h (TextSheet.mem_of_mem_entries hmem h0)

theorem editedStrings_getElem? {s : Script} {text : String} {known : Std.TreeSet UInt32}
    {edits : List (UInt32 × String)} (he : TextSheet.readStrings text known = .ok edits)
    {old : UInt32} (ho : old ∈ ascending (s.references.strings.map Prod.snd)) :
    (s.editedStrings edits)[old]? = some (s.importedText text old) := by
  obtain ⟨-, rfl⟩ := TextSheet.readStrings_eq_ok_iff.1 he
  have hown : s.strings.reverse.lookup old = some (s.container.stringAt old) := by
    rw [strings, Container.referencedStrings, ← List.map_reverse]
    exact lookup_map_self (List.mem_reverse.2 ho)
  rw [editedStrings, getElem?_ofList, List.reverse_append, List.lookup_append,
    TextSheet.lookup_reverse_edits, hown, importedText]
  cases TextSheet.lastText? TextSheet.referenceMark text old <;> rfl

theorem editedStrings_of_loaded {s : Script} {is : List Instruction}
    (hstrings : s.references.strings = loads is) {text : String} {known : Std.TreeSet UInt32}
    {edits : List (UInt32 × String)} (he : TextSheet.readStrings text known = .ok edits) :
    ∀ i ∈ is, ∀ old, i.loaded? = some old →
      (s.editedStrings edits)[old]? = some (s.importedText text old) := by
  intro i hi old hl
  apply editedStrings_getElem? he
  rw [hstrings]
  exact mem_ascending_loads_iff.2 ⟨i, hi, hl⟩

/-- What an import of strings makes of a script with these instructions: the strings that the code
loads are moved, and laid out in this order. -/
structure StringsImported (s s' : Script) (text : String) (is : List Instruction)
    (move : UInt32 → UInt32) (order : List UInt32) : Prop where
  walk : s.container.walk s.names = ⟨is, none⟩
  loads_iff : ∀ i ∈ is, i.loaded?.isSome ↔ (i.opcode?.bind (·.stringWidth?)).isSome
  walk_after : s'.container.walk s'.names = ⟨is.map (·.relocate move), none⟩
  stringAt_after : ∀ i ∈ is, ∀ old, i.loaded? = some old →
    s'.container.stringAt (move old) = s.importedText text old
  move_eq_iff : ∀ i ∈ is, ∀ j ∈ is, ∀ old old', i.loaded? = some old → j.loaded? = some old' →
    (move old = move old' ↔ old = old')
  order_nodup : order.Nodup
  mem_order_iff : ∀ old, old ∈ order ↔ ∃ i ∈ is, i.loaded? = some old
  strings_after : s'.container.strings.toList =
    order.flatMap fun old ↦ Utf16.toBytes (s.importedText text old) ++ [0, 0]
  start_after : ∀ before old after, order = before ++ old :: after → (move old).toNat =
    (before.flatMap fun old ↦ Utf16.toBytes (s.importedText text old) ++ [0, 0]).length
  loads_after : s.references.strings = loads is ∧
    s'.references.strings = (loads is).map fun load ↦ (load.1, move load.2)
  messages_after :
    s.references.messages =
      (calls s.container.functions is).map (s.container.messageRef s.container.stringAt) ∧
    s'.references.messages =
      (calls s.container.functions is).map (s.container.messageRef (s.importedText text))
  rest : s'.container =
    { s.container with strings := s'.container.strings, code := s'.container.code }
  code_size : s'.container.code.size = s.container.code.size
  code_getElem? : ∀ n, (∀ i ∈ is, i.loaded?.isSome → ¬i.InOperand n) →
    s'.container.code[n]? = s.container.code[n]?

/-- An import moves the strings that the code loads to the order in which they are packed. -/
theorem relocated_packed_of_importStrings {s s' : Script} {text : String} (hs : s.Current)
    (hsize : s.container.Addressable) (h : s.importStrings text = .ok s') :
    ∃ is move order, s.container.walk s.names = ⟨is, none⟩ ∧
      Relocated s.container s'.container is (s.importedText text) move order ∧
        packed (s.importedText text) is = order.map (PackedString.ofText (s.importedText text)) ∧
          s'.names = s.names ∧ s'.Current := by
  obtain ⟨edits, c, hedits, hrepack, hcommit⟩ := importStrings_eq_ok_iff.1 h
  obtain ⟨is, hw, hstrings⟩ := hs.exists_walk_loads hsize
  rw [hstrings] at hrepack
  obtain ⟨move, order, hmoved, hpacked⟩ :=
    relocated_packed_of_repackStrings hsize hw (editedStrings_of_loaded hstrings hedits) hrepack
  have hrest := hmoved.rest
  have hcurrent := hs.commit (by rw [hrest]) (by rw [hrest]) hcommit
  obtain ⟨rfl, hnames, -⟩ := commit_eq_ok_iff.1 hcommit
  exact ⟨is, move, order, hw, hmoved, hpacked, hnames, hcurrent⟩

theorem relocated_of_importStrings {s s' : Script} {text : String} (hs : s.Current)
    (hsize : s.container.Addressable) (h : s.importStrings text = .ok s') :
    ∃ is move order, s.container.walk s.names = ⟨is, none⟩ ∧
      Relocated s.container s'.container is (s.importedText text) move order ∧
        s'.names = s.names ∧ s'.Current := by
  obtain ⟨is, move, order, hw, hmoved, -, hnames, hcurrent⟩ :=
    relocated_packed_of_importStrings hs hsize h
  exact ⟨is, move, order, hw, hmoved, hnames, hcurrent⟩

theorem Reachable.current {s : Script} (h : s.Reachable) : s.Current := by
  induction h with
  | load h =>
    obtain ⟨c, -, hc⟩ := bind_eq_ok_iff.1 h
    exact (ofContainer_eq_ok_iff.1 hc).2
  | ofContainer h => exact (ofContainer_eq_ok_iff.1 h).2
  | importMessages hs h ih =>
    obtain ⟨edits, texts, c, -, -, hrepack, hcommit⟩ := importMessages_eq_ok_iff.1 h
    have hrest := (Container.repackMessages_eq_ok hrepack).1
    exact ih.commit (by rw [hrest]) (by rw [hrest]) hcommit
  | importStrings hs h ih =>
    obtain ⟨edits, c, -, hrepack, hcommit⟩ := importStrings_eq_ok_iff.1 h
    have hrest := Container.rest_of_repackStrings hrepack
    exact ih.commit (by rw [hrest]) (by rw [hrest]) hcommit

theorem references_of_relocated {s s' : Script} {is : List Instruction}
    {textOf : UInt32 → String} {move : UInt32 → UInt32} {order : List UInt32}
    (hs' : s'.Current) (hnames : s'.names = s.names) (hsize : s.container.Addressable)
    (hw : s.container.walk s.names = ⟨is, none⟩)
    (hr : Relocated s.container s'.container is textOf move order)
    (hn : ∀ old ∈ order, NullFree (textOf old).toList) :
    s'.references = ⟨(loads is).map fun load ↦ (load.1, move load.2),
      (calls s.container.functions is).map (s.container.messageRef textOf)⟩ := by
  have hw' := hnames ▸ hr.walk hw
  obtain ⟨-, hrefs⟩ := hs'.references_of_walk hw'
  rw [Container.latest_loads (hr.addressable hw hsize) hw'] at hrefs
  have hfunctions : s'.container.functions = s.container.functions := by rw [hr.rest]
  have hsame : ∀ f, s'.container.messageRef f = s.container.messageRef f := by
    intro f
    rw [hr.rest]
    rfl
  rw [hrefs, hfunctions, loads_relocate, calls_relocate, List.map_map]
  refine congrArg (References.mk _) (List.map_congr_left fun call hcall ↦ ?_)
  rw [Function.comp_apply, hsame, Container.messageRef_relocate]
  apply Container.messageRef_congr
  intro old hl
  have hold : old ∈ order := by
    refine (hr.mem_iff old).2 (mem_ascending_loads_iff.1 (mem_ascending.2 ?_))
    exact mem_loads_of_callsAfter hcall hl
  exact hr.layout.stringAt_move hold (hn old hold)

/-- In code of at most 4 GiB an import of strings gives each string that the code loads the text of
the sheet, and changes nothing but the string segment and the offsets of loads. -/
theorem importStrings_confined {s s' : Script} {text : String} (hs : s.Reachable)
    (hsize : s.container.Addressable) (hn : NullFree text.toList)
    (h : s.importStrings text = .ok s') :
    ∃ is move order, StringsImported s s' text is move order := by
  obtain ⟨is, move, order, hw, hr, hnames, hcurrent⟩ :=
    relocated_of_importStrings hs.current hsize h
  obtain ⟨-, hrefs⟩ := hs.current.references_of_walk hw
  rw [Container.latest_loads hsize hw] at hrefs
  have hmem : ∀ i ∈ is, ∀ old, i.loaded? = some old → old ∈ order :=
    fun i hi old hl ↦ (hr.mem_iff old).2 ⟨i, hi, hl⟩
  have hrefs' := references_of_relocated hcurrent hnames hsize hw hr
    fun old _ ↦ s.nullFree_importedText hn old
  refine ⟨is, move, order, {
    walk := hw
    loads_iff := fun i hi ↦ ((Container.walk_eq_none_iff.1 hw).2.1 i hi).loaded?_isSome_iff
    walk_after := hnames ▸ hr.walk hw
    stringAt_after := fun i hi old hl ↦
      hr.layout.stringAt_move (hmem i hi old hl) (s.nullFree_importedText hn old)
    move_eq_iff := fun i hi j hj old old' hl hl' ↦
      ⟨hr.layout.move_inj (hmem i hi old hl) (hmem j hj old' hl'), congrArg move⟩
    order_nodup := hr.nodup
    mem_order_iff := hr.mem_iff
    strings_after := hr.layout.segment_eq
    start_after := hr.layout.start
    loads_after := ⟨by rw [hrefs], by rw [hrefs']⟩
    messages_after := ⟨by rw [hrefs], by rw [hrefs']⟩
    rest := hr.rest
    code_size := hr.code_size hw
    code_getElem? := fun n hn ↦ hr.code_getElem? hsize hw hn }⟩

/-- Two loads of one string, the second of them for a character's name. -/
def nameSample : Container where
  symbols := #[⟨"MALIE_NAME", [], 0, 0, 0, 2⟩]
  functions := #[⟨"MALIE_NAME", 0, 0, 0⟩]
  strings := #[0x61, 0, 0, 0]
  code := #[0x09, 0, 0x0A, 0, 0, 0x2D, 0, 0, 0, 0]

theorem importStrings_confined_name :
    ∃ s s', s.Reachable ∧ s.container.Addressable ∧ NullFree "◇0◇hi\n".toList ∧
      s.importStrings "◇0◇hi\n" = .ok s' ∧
      s'.references = ⟨[(0, 0), (2, 0)], [⟨5, nameIndex, "hi"⟩]⟩ ∧
      ∃ is move order, StringsImported s s' "◇0◇hi\n" is move order := by
  have hrun : ((ofContainer nameSample).toOption.bind fun s ↦
      (s.importStrings "◇0◇hi\n").toOption).map (·.references) =
        some ⟨[(0, 0), (2, 0)], [⟨5, nameIndex, "hi"⟩]⟩ := by decide +kernel
  have hn : NullFree "◇0◇hi\n".toList := by decide
  cases hs : ofContainer nameSample with
  | error e => simp [hs, Except.toOption] at hrun
  | ok s =>
    cases hi : s.importStrings "◇0◇hi\n" with
    | error e => simp [hs, hi, Except.toOption] at hrun
    | ok s' =>
      rw [hs] at hrun
      simp only [Except.toOption, Option.bind_some, hi, Option.map_some] at hrun
      have hreach : s.Reachable := .ofContainer hs
      have hsize : s.container.Addressable := by
        rw [(ofContainer_eq_ok_iff.1 hs).1]
        decide
      exact ⟨s, s', hreach, hsize, hn, hi, Option.some.inj hrun,
        importStrings_confined hreach hsize hn hi⟩

/-- Two loads with the same address, one of them at the front of the code and one at 4 GiB. Only
the second, of offset 4, is referred to. -/
def wrappedLoads (strings : Array UInt8) : Container where
  strings := strings
  code := wrappingCode [0x09, 0] [0x09, 4]

section WrappedLoads

variable {strings : Array UInt8} {names : NameIndex}

theorem walk_wrappedLoads {offset : UInt8} (h : offset.toNat < strings.size) :
    ((wrappedLoads strings).scope names).walk [0x09, offset] =
      ⟨[⟨0, 0x09, .string offset.toUInt32⟩], none⟩ :=
  Scope.walk_load h

theorem references_wrappedLoads (h : 4 < strings.size) :
    (wrappedLoads strings).references names = .ok ⟨[(0, 4)], []⟩ := by
  rw [Container.references_wrapping rfl (by decide)
    (@walk_wrappedLoads _ _ 0 (Nat.zero_lt_of_lt h)), @walk_wrappedLoads _ _ 4 h]
  rfl

theorem loads_wrappedLoads (h : 4 < strings.size) :
    loads ((wrappedLoads strings).walk names).instructions = [(0, 0), (0, 4)] := by
  rw [Container.loads_walk_wrapping rfl (by decide)
    (@walk_wrappedLoads _ _ 0 (Nat.zero_lt_of_lt h)), @walk_wrappedLoads _ _ 4 h]
  rfl

theorem references_wrappedLoads_eq_error (h₀ : 0 < strings.size) (h : strings.size ≤ 4) :
    (wrappedLoads strings).references names = .error (.stringOffset 0 .loadString1 4) := by
  have hoperand : ((wrappedLoads strings).scope names).operand 0 .loadString1 [4] =
    .error (.stringOffset 0 .loadString1 4) := if_neg (Nat.not_lt.2 h)
  have hback : ((wrappedLoads strings).scope names).walk [0x09, 4] =
      ⟨[], some (.stringOffset 0 .loadString1 4)⟩ :=
    Scope.walkAfter_eq_nil_iff.2 ⟨_, bind_eq_error_iff.2 (.inl hoperand), rfl⟩
  rw [Container.references_wrapping rfl (by decide) (@walk_wrappedLoads _ _ 0 h₀), hback]
  rfl

/-- Only the string of the second load is packed, and the first load is patched for it. -/
theorem repackStrings_wrappedLoads {texts : Std.TreeMap UInt32 String} {text : String}
    (ht : texts[(4 : UInt32)]? = some text) :
    (wrappedLoads strings).repackStrings [(0, 4)] texts =
      .ok (wrappedLoads (terminatedBytes text).toArray) := by
  rw [Container.repackStrings_singleton _ ht]
  rfl

end WrappedLoads

/-- An import of strings that the load at 4 GiB does not follow. -/
theorem importStrings_confined_wrappedLoads :
    ∃ s s', ofContainer (wrappedLoads #[0x61, 0, 0, 0, 0x62, 0, 0, 0]) = .ok s ∧
      NullFree "◇4◇bcd\n".toList ∧ s.importStrings "◇4◇bcd\n" = .ok s' ∧
      ¬∃ is move order, StringsImported s s' "◇4◇bcd\n" is move order := by
  let s : Script := ⟨wrappedLoads #[0x61, 0, 0, 0, 0x62, 0, 0, 0], .ofContainer (wrappedLoads #[]),
    ⟨[(0, 4)], []⟩⟩
  let s' : Script := { s with container := wrappedLoads (terminatedBytes "bcd").toArray }
  have hsmall : 4 < (#[0x61, 0, 0, 0, 0x62, 0, 0, 0] : Array UInt8).size := by decide
  have hs : ofContainer (wrappedLoads #[0x61, 0, 0, 0, 0x62, 0, 0, 0]) = .ok s :=
    ofContainer_eq_ok_iff.2 ⟨rfl, rfl, references_wrappedLoads hsmall⟩
  have hedits : TextSheet.readStrings "◇4◇bcd\n" (.ofList (s.strings.map Prod.fst)) =
    .ok [(4, "bcd")] := toOption_eq_some_iff.1 (by decide)
  have hlarge : 4 < (terminatedBytes "bcd").toArray.size := by decide
  have himport : s.importStrings "◇4◇bcd\n" = .ok s' :=
    importStrings_eq_ok_iff.2 ⟨_, _, hedits, repackStrings_wrappedLoads (by decide),
      commit_eq_ok_iff.2 ⟨rfl, rfl, references_wrappedLoads hlarge⟩⟩
  refine ⟨s, s', hs, by decide, himport, fun h ↦ ?_⟩
  obtain ⟨is, move, order, h⟩ := h
  have hloads : loads (s.container.walk s.names).instructions = [(0, 0), (0, 4)] :=
    loads_wrappedLoads hsmall
  have hloads' : loads (s'.container.walk s'.names).instructions = [(0, 0), (0, 4)] :=
    loads_wrappedLoads hlarge
  rw [h.walk] at hloads
  -- The second load keeps its operand, where the text of the sheet does not stand.
  rw [h.walk_after, loads_relocate, hloads] at hloads'
  have hmove : move 4 = 4 := congrArg Prod.snd (List.cons.inj (List.cons.inj hloads').2).1
  obtain ⟨i, hi, hl⟩ := mem_ascending_loads_iff.1
    (show (4 : UInt32) ∈ ascending ((loads is).map Prod.snd) by rw [hloads]; decide)
  have htext := h.stringAt_after i hi 4 hl
  rw [hmove] at htext
  exact absurd htext (by decide)

end Script

end NovelScript
