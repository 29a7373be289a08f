import NovelScript.Proofs.Container.RoundTrip
import NovelScript.Proofs.Packing.Failing
import NovelScript.Proofs.Script.InPlace
import NovelScript.Proofs.Script.StringImport
import NovelScript.Proofs.Sheet.Writing

/-!
Runs of imports. Whatever is imported and whatever fails, the tables and the instructions of the
loaded script stay as they were, except for where strings are, and what is saved loads again.
-/

namespace NovelScript

open Instruction Outcome

namespace Instruction

variable {is : List Instruction} {move move' : UInt32 → UInt32}

theorem relocate_id (i : Instruction) : i.relocate id = i := by
  obtain ⟨address, code, o⟩ := i
  cases o <;> rfl

theorem relocate_relocate (i : Instruction) :
    (i.relocate move).relocate move' = i.relocate fun old ↦ move' (move old) := by
  obtain ⟨address, code, o⟩ := i
  cases o <;> rfl

/-- A byte of the code that is no operand byte of a load. -/
def Outside (is : List Instruction) (n : Nat) : Prop :=
  ∀ i ∈ is, i.loaded?.isSome → ¬i.InOperand n

theorem Outside.relocate {n : Nat} (h : Outside is n) :
    Outside (is.map (·.relocate move)) n := by
  intro j hj hl
  obtain ⟨i, hi, rfl⟩ := List.mem_map.1 hj
  rw [relocate_loaded?, Option.isSome_map] at hl
  have hout := h i hi hl
  rwa [InOperand, relocate_address, relocate_size, ← InOperand]

end Instruction

/-- What imports leave of a container whose code has these instructions. -/
structure Kept (c₀ c : Container) (names : NameIndex) (is : List Instruction) : Prop where
  symbols : c.symbols = c₀.symbols
  symbolTrailer : c.symbolTrailer = c₀.symbolTrailer
  functions : c.functions = c₀.functions
  labels : c.labels = c₀.labels
  messages_size : c.messages.size = c₀.messages.size
  code_size : c.code.size = c₀.code.size
  code_getElem? : ∀ n, Outside is n → c.code[n]? = c₀.code[n]?
  walk : ∃ move, c.walk names = ⟨is.map (·.relocate move), none⟩

namespace Kept

variable {c₀ c c' : Container} {names : NameIndex} {is : List Instruction}

theorem refl (h : c.walk names = ⟨is, none⟩) : Kept c c names is where
  symbols := rfl
  symbolTrailer := rfl
  functions := rfl
  labels := rfl
  messages_size := rfl
  code_size := rfl
  code_getElem? _ _ := rfl
  walk := by
    refine ⟨id, h.trans ?_⟩
    rw [(funext relocate_id : relocate id = id), List.map_id]

theorem repackMessages (h : Kept c₀ c names is) {texts : List String}
    (hc : c.repackMessages texts = .ok c') : Kept c₀ c' names is := by
  obtain ⟨hrest, hsize, -⟩ := Container.repackMessages_eq_ok hc
  have hwalk : c'.walk names = c.walk names := by
    rw [hrest]
    rfl
  exact {
    symbols := by rw [hrest, ← h.symbols]
    symbolTrailer := by rw [hrest, ← h.symbolTrailer]
    functions := by rw [hrest, ← h.functions]
    labels := by rw [hrest, ← h.labels]
    messages_size := hsize.trans h.messages_size
    code_size := by rw [hrest, ← h.code_size]
    code_getElem? := fun n hn ↦ by rw [hrest, ← h.code_getElem? n hn]
    walk := by rw [hwalk]; exact h.walk }

theorem relocated (h : Kept c₀ c names is) {js : List Instruction} {textOf : UInt32 → String}
    {move : UInt32 → UInt32} {order : List UInt32} (hsize : c.Addressable)
    (hw : c.walk names = ⟨js, none⟩) (hc : Relocated c c' js textOf move order) :
    Kept c₀ c' names is := by
  have hrest := hc.rest
  obtain ⟨moved, hmoved⟩ := h.walk
  cases hw.symm.trans hmoved
  exact {
    symbols := by rw [hrest, ← h.symbols]
    symbolTrailer := by rw [hrest, ← h.symbolTrailer]
    functions := by rw [hrest, ← h.functions]
    labels := by rw [hrest, ← h.labels]
    messages_size := by rw [hrest, ← h.messages_size]
    code_size := (hc.code_size hw).trans h.code_size
    code_getElem? := fun n hn ↦
      (hc.code_getElem? hsize hw hn.relocate).trans (h.code_getElem? n hn)
    walk := by
      refine ⟨fun old ↦ move (moved old), (hc.walk hw).trans ?_⟩
      rw [List.map_map]
      exact congrArg (Walk.mk · none) (List.map_congr_left fun i _ ↦ i.relocate_relocate) }

theorem names_eq (h : Kept c₀ c names is) : c.names = c₀.names := by
  rw [Container.names, h.symbols, h.functions, h.labels]
  rfl

theorem delimited (h : Kept c₀ c names is) (hd : c₀.Delimited) : c.Delimited := by
  rw [Container.Delimited, h.symbols]
  exact hd

theorem countsFit (h : Kept c₀ c names is) (hc : c₀.CountsFit)
    (hm : c.messageData.size < UInt32.size) : c.CountsFit where
  symbols := by rw [h.symbols]; exact hc.symbols
  functions := by rw [h.functions]; exact hc.functions
  labels := by rw [h.labels]; exact hc.labels
  code := by rw [h.code_size]; exact hc.code
  messages := by rw [h.messages_size]; exact hc.messages
  messageData := hm

end Kept

namespace Script

/-- What holds in a script that imports have led to, from one whose code has these instructions. -/
structure Held (s₀ s : Script) (is : List Instruction) : Prop where
  current : s.Current
  kept : Kept s₀.container s.container s.names is
  addressable : s.container.Addressable
  messageData : s.container.messageData.size < UInt32.size

namespace Held

variable {s₀ s s' : Script} {is : List Instruction}

theorem importMessages (h : Held s₀ s is) {text : String} (hi : s.importMessages text = .ok s') :
    Held s₀ s' is := by
  obtain ⟨edits, texts, c, -, -, hrepack, hcommit⟩ := importMessages_eq_ok_iff.1 hi
  obtain ⟨hrest, -, hlt⟩ := Container.repackMessages_eq_ok hrepack
  have hcurrent := h.current.commit (by rw [hrest]) (by rw [hrest]) hcommit
  obtain ⟨rfl, hnames, -⟩ := commit_eq_ok_iff.1 hcommit
  refine ⟨hcurrent, hnames ▸ h.kept.repackMessages hrepack, ?_, hlt⟩
  rw [hrest]
  exact h.addressable

theorem importStrings (h : Held s₀ s is) {text : String} (hi : s.importStrings text = .ok s') :
    Held s₀ s' is := by
  obtain ⟨js, move, order, hw, hmoved, hnames, hcurrent⟩ :=
    relocated_of_importStrings h.current h.addressable hi
  refine ⟨hcurrent, hnames ▸ h.kept.relocated h.addressable hw hmoved,
    hmoved.addressable hw h.addressable, ?_⟩
  rw [hmoved.rest]
  exact h.messageData

theorem settled (h : Held s₀ s is) (call : ImportCall) :
    Held s₀ (InPlace.settled s (call.apply s)).2 is := by
  cases hr : call.apply s with
  | error e => exact h
  | ok s' =>
    cases call with
    | messages text => exact h.importMessages hr
    | strings text => exact h.importStrings hr

theorem after (h : Held s₀ s is) (calls : List ImportCall) :
    Held s₀ (InPlace.after s calls) is := by
  induction calls generalizing s with
  | nil => exact h
  | cons call later ih =>
    rw [InPlace.after_cons]
    exact ih (h.settled call)

end Held

theorem load_eq_ok_iff {bytes : List UInt8} {s : Script} :
    load bytes = .ok s ↔ Container.parse bytes = .ok s.container ∧ s.Current := by
  unfold load
  simp only [bind_eq_ok_iff, mapError_eq_ok_iff, ofContainer_eq_ok_iff]
  constructor
  · intro h
    obtain ⟨_, hp, rfl, hs⟩ := h
    exact ⟨hp, hs⟩
  · intro h
    obtain ⟨hp, hs⟩ := h
    exact ⟨_, hp, rfl, hs⟩

/-- A length word of 32 bits keeps code that is loaded below 4 GiB. -/
theorem addressable_of_load {bytes : List UInt8} {s : Script} (h : load bytes = .ok s) :
    s.container.Addressable :=
  Nat.le_of_lt (Container.countsFit_of_parse (load_eq_ok_iff.1 h).1).1.code

/-- A current script is loaded from bytes, if its container fits into a file and comes back from
there. -/
theorem exists_load {s : Script} (hs : s.Current) (hfits : s.container.Fits)
    (hd : s.container.Delimited) : ∃ data, load data = .ok s := by
  obtain ⟨data, hdata⟩ := Container.exists_toBytes_iff.2 hfits
  exact ⟨data, load_eq_ok_iff.2 ⟨Container.parse_of_toBytes hd hdata, hs⟩⟩

theorem Held.of_load {bytes : List UInt8} {s : Script} (h : load bytes = .ok s) :
    ∃ is, s.container.walk s.names = ⟨is, none⟩ ∧ Held s s is := by
  obtain ⟨hp, hcurrent⟩ := load_eq_ok_iff.1 h
  obtain ⟨is, hw, -⟩ := hcurrent.exists_walk
  obtain ⟨hcounts, -⟩ := Container.countsFit_of_parse hp
  exact ⟨is, hw, hcurrent, .refl hw, addressable_of_load h, hcounts.messageData⟩

/-- What a script that imports have led to has in common with the loaded one, whose code has these
instructions, and with the script that its own saved bytes load as. A name that is too long for its
field keeps it from being saved. -/
structure RunInvariant (data : List UInt8) (s₀ s : Script) (is : List Instruction) : Prop where
  walk : s₀.container.walk s₀.names = ⟨is, none⟩
  names : s.names = NameIndex.ofContainer s.container
  references : s.container.references s.names = .ok s.references
  kept : Kept s₀.container s.container s.names is
  load_save : ∀ bytes, s.save = .ok bytes → load bytes = .ok s
  names_fit_of_save : ∀ bytes, s.save = .ok bytes →
    ∀ name ∈ s₀.container.names, Container.NameFits name
  save_of_fits : (∀ name ∈ s₀.container.names, Container.NameFits name) →
    s.container.strings.size < UInt32.size → ∃ bytes, s.save = .ok bytes
  save_of_length_le : data.length ≤ 0x20000000 → s.container.strings.size < UInt32.size →
    ∃ bytes, s.save = .ok bytes
  unchanged : ∀ call error, ((InPlace.perform call).runOn s).1 = .error error →
    ((InPlace.perform call).runOn s).2 = s

/-- In any run of imports from a loaded script, whatever succeeds and whatever fails, the script
stays current, keeps the tables and the instructions, and is what its saved bytes load as. -/
theorem run_invariant {data : List UInt8} {s₀ : Script} (h : load data = .ok s₀)
    (calls : List ImportCall) : ∃ is, RunInvariant data s₀ (InPlace.after s₀ calls) is := by
  obtain ⟨hp, -⟩ := load_eq_ok_iff.1 h
  obtain ⟨hcounts, -⟩ := Container.countsFit_of_parse hp
  obtain ⟨is, hw, hstart⟩ := Held.of_load h
  have hheld := hstart.after calls
  generalize InPlace.after s₀ calls = s at hheld ⊢
  have hkept := hheld.kept
  have hsave : ∀ bytes, s.save = .ok bytes ↔ s.container.toBytes = .ok bytes :=
    fun bytes ↦ mapError_eq_ok_iff
  have hfits : (∃ bytes, s.save = .ok bytes) ↔
      (∀ name ∈ s₀.container.names, Container.NameFits name) ∧
        s.container.strings.size < UInt32.size := by
    simp only [hsave, Container.exists_toBytes_iff, Container.fits_iff, hkept.names_eq]
    exact ⟨fun hf ↦ ⟨hf.2.2, hf.2.1⟩,
      fun hn ↦ ⟨hkept.countsFit hcounts hheld.messageData, hn.2, hn.1⟩⟩
  refine ⟨is, hw, hheld.current.names, hheld.current.references, hkept, ?_,
    fun bytes hb ↦ (hfits.1 ⟨bytes, hb⟩).1, fun hn hlt ↦ hfits.2 ⟨hn, hlt⟩, ?_, ?_⟩
  · intro bytes hb
    have hd := hkept.delimited (Container.delimited_of_parse hp)
    exact load_eq_ok_iff.2 ⟨Container.parse_of_toBytes hd ((hsave bytes).1 hb), hheld.current⟩
  · exact fun hl hlt ↦ hfits.2 ⟨Container.names_fit_of_length_le hp hl, hlt⟩
  · intro call error he
    rw [InPlace.runOn_perform] at he ⊢
    cases hr : call.apply s with
    | error e => rfl
    | ok s' =>
      rw [hr] at he
      cases he

/-- An import that succeeds, and two that fail after it. -/
theorem run_invariant_name :
    ∃ data s₀ s is bytes error, load data = .ok s₀ ∧
      InPlace.after s₀ [.strings "◇0◇hi\n", .strings "◇1◇x\n", .messages "◆\n"] = s ∧
      RunInvariant data s₀ s is ∧ s.references.messages = [⟨5, nameIndex, "hi"⟩] ∧
      s.save = .ok bytes ∧ load bytes = .ok s ∧
      ((InPlace.perform (.strings "◇1◇x\n")).runOn s).1 = .error error ∧
      ((InPlace.perform (.strings "◇1◇x\n")).runOn s).2 = s := by
  let calls : List ImportCall := [.strings "◇0◇hi\n", .strings "◇1◇x\n", .messages "◆\n"]
  have hrun : (nameSample.toBytes.toOption.bind fun data ↦ (load data).toOption.map fun s₀ ↦
      (data.length, (InPlace.after s₀ calls).container.strings.size,
        (InPlace.after s₀ calls).references.messages,
        ((ImportCall.strings "◇1◇x\n").apply (InPlace.after s₀ calls)).toOption.isSome)) =
        some (130, 6, [⟨5, nameIndex, "hi"⟩], false) := by decide +kernel
  cases hd : nameSample.toBytes with
  | error e => simp [hd, Except.toOption] at hrun
  | ok data =>
    cases hl : load data with
    | error e => simp [hd, hl, Except.toOption] at hrun
    | ok s₀ =>
      obtain ⟨is, hinv⟩ := run_invariant hl calls
      rw [hd] at hrun
      simp only [Except.toOption, Option.bind_some, hl, Option.map_some] at hrun
      generalize hs : InPlace.after s₀ calls = s at hinv hrun
      simp only [Option.some.injEq, Prod.mk.injEq] at hrun
      obtain ⟨hlength, hsize, hmessages, herror⟩ := hrun
      have hsmall : 6 < UInt32.size := by decide
      obtain ⟨bytes, hb⟩ := hinv.save_of_length_le (by omega) (by omega)
      cases hr : (ImportCall.strings "◇1◇x\n").apply s with
      | ok s' => simp [hr] at herror
      | error error =>
        have hout : ((InPlace.perform (.strings "◇1◇x\n")).runOn s).1 = .error error := by
          rw [InPlace.runOn_perform, hr]
          rfl
        exact ⟨data, s₀, s, is, bytes, error, hl, hs, hinv, hmessages, hb, hinv.load_save bytes hb,
          hout, hinv.unchanged _ error hout⟩

/-- A file with a label whose name is narrow and has this many letters. -/
def longName (n : Nat) : Form where
  symbols := []
  symbolTrailer := 0
  functions := []
  labels := [(⟨false, List.replicate n 0x61 ++ [0]⟩, ⟨letters n, 0⟩)]
  strings := []
  code := []
  messages := []
  messageData := []

theorem narrow_decode_letters (n : Nat) :
    Narrow.decode (List.replicate n 0x61) = List.replicate n 'a' := by
  have hshift : ∀ n, ShiftJis.decode (List.replicate n 0x61) = List.replicate n 'a' := by
    intro n
    induction n with
    | zero => rfl
    | succ n ih =>
      rw [List.replicate_succ, List.replicate_succ, ← ih]
      rfl
  rw [← hshift]
  cases n with
  | zero => rfl
  | succ n => rfl

theorem load_longName {n : Nat} (hn : n + 1 < Source.wideFlag) :
    load (longName n).bytes = .ok
      ⟨(longName n).container, .ofContainer (longName n).container, ⟨[], []⟩⟩ := by
  have hlength : (List.replicate n 0x61 ++ [0] : List UInt8).length = n + 1 := by
    rw [List.length_append, List.length_replicate, List.length_singleton]
  have hcontent : (List.replicate n 0x61 ++ [0] : List UInt8).take (n + 1 - 1) =
      List.replicate n 0x61 := List.take_left' List.length_replicate
  have htext : (⟨false, List.replicate n 0x61 ++ [0]⟩ : StringField).text = letters n := by
    rw [StringField.text, hlength]
    exact congrArg (fun content ↦ String.ofList (Narrow.decode content)) hcontent |>.trans
      (congrArg String.ofList (narrow_decode_letters n))
  have hzero : 0 < UInt32.size := by decide
  have hvalid : (longName n).Valid := by
    refine ⟨⟨hzero, List.forall_mem_nil _⟩, ⟨hzero, List.forall_mem_nil _⟩,
      ⟨(by decide : 1 < UInt32.size), List.forall_mem_singleton.2 ⟨⟨?_, ?_⟩, htext.symm⟩⟩,
      hzero, hzero, hzero, hzero⟩
    · rw [hlength]
      exact Nat.le_add_left 1 n
    · rwa [hlength]
  exact load_eq_ok_iff.2 ⟨Form.parse_eq_ok_iff.2 ⟨_, hvalid, rfl, rfl⟩, rfl, rfl⟩

/-- The name is written wide, with two bytes for each letter. -/
theorem save_longName_ne {s : Script} {n : Nat} (hs : s.container = (longName n).container)
    (h : Source.wideFlag ≤ 2 * n + 2) (bytes : List UInt8) : s.save ≠ .ok bytes := by
  intro hb
  obtain ⟨-, -, hnames⟩ := Container.fits_iff.1
    (Container.exists_toBytes_iff.1 ⟨bytes, mapError_eq_ok_iff.1 hb⟩)
  have hname : letters n ∈ s.container.names := by
    rw [hs]
    exact List.mem_singleton.2 rfl
  have hfits := hnames _ hname
  rw [Container.NameFits, length_toBytes_letters] at hfits
  exact absurd hfits (Nat.not_lt.2 h)

/-- One string and a load of it. -/
def oneString (text : String) : Container where
  strings := (terminatedBytes text).toArray
  code := #[0x09, 0]

theorem references_oneString (text : String) (names : NameIndex) :
    (oneString text).references names = .ok ⟨[(0, 0)], []⟩ := by
  have hpos : 0 < (oneString text).strings.size := by
    rw [oneString, List.size_toArray, terminatedBytes, List.length_append]
    exact Nat.lt_add_left _ (by decide)
  have hw : (oneString text).walk names = ⟨[⟨0, 0x09, .string 0⟩], none⟩ := Scope.walk_load hpos
  exact Container.references_eq_ok_iff.2 ⟨_, hw, List.forall_mem_nil _, rfl⟩

/-- An imported text may be of any length. -/
theorem importStrings_oneString {s : Script} (hs : s.container = oneString "")
    (hrefs : s.references = ⟨[(0, 0)], []⟩) (n : Nat) :
    ∃ s', s.importStrings (TextSheet.writeStrings [(0, letters n)]) = .ok s' ∧
      s'.container = oneString (letters n) := by
  have hplain : Markup.unescapeString (Markup.escapeString (letters n)) = letters n := by
    refine Markup.unescapeString_escapeString fun l _ hi ↦ ?_
    rw [toList_letters] at hi
    have hmem := hi.subset (List.mem_cons_self : '\\' ∈ ['\\', l])
    exact absurd (List.eq_of_mem_replicate hmem) (by decide)
  have hedits : TextSheet.readStrings (TextSheet.writeStrings [(0, letters n)])
      (.ofList (s.strings.map Prod.fst)) = .ok [(0, letters n)] := by
    have hknown : (0 : UInt32) ∈ Std.TreeSet.ofList (s.strings.map Prod.fst) := by
      rw [strings, hs, hrefs, Std.TreeSet.mem_ofList]
      rfl
    rw [TextSheet.readStrings_writeStrings (List.forall_mem_singleton.2 hknown),
      List.map_singleton, hplain]
  have htext : (s.editedStrings [(0, letters n)])[(0 : UInt32)]? = some (letters n) := by
    rw [editedStrings, getElem?_ofList, List.reverse_append]
    rfl
  have hrepack : s.container.repackStrings s.references.strings
      (s.editedStrings [(0, letters n)]) = .ok (oneString (letters n)) := by
    rw [hs, hrefs, Container.repackStrings_singleton _ htext]
    rfl
  obtain ⟨s', hcommit⟩ := exists_commit_of_references (references_oneString (letters n) s.names)
  exact ⟨s', importStrings_eq_ok_iff.2 ⟨_, _, hedits, hrepack, hcommit⟩,
    (commit_eq_ok_iff.1 hcommit).1⟩

/-- A narrow name of 2 ^ 30 letters cannot be saved, since it is written wide, and neither can a
string of 2 ^ 31 letters that has been imported. -/
theorem run_invariant_letters :
    (∃ s, load (longName 0x40000000).bytes = .ok s ∧ ∀ bytes, s.save ≠ .ok bytes) ∧
    ∃ s₀ s, load [0, 0, 0, 0, 0, 0, 0, 0, 0, 0, 0, 0, 0, 0, 0, 0, 2, 0, 0, 0, 0, 0,
        2, 0, 0, 0, 0x09, 0, 0, 0, 0, 0, 0, 0, 0, 0] = .ok s₀ ∧
      InPlace.after s₀ [.strings (TextSheet.writeStrings [(0, letters 0x80000000)])] = s ∧
      ∀ bytes, s.save ≠ .ok bytes := by
  constructor
  · exact ⟨_, load_longName (by decide), save_longName_ne rfl (by decide)⟩
  · let s₀ : Script := ⟨oneString "", .ofContainer (oneString ""), ⟨[(0, 0)], []⟩⟩
    obtain ⟨s, himport, hcontainer⟩ := @importStrings_oneString s₀ rfl rfl 0x80000000
    refine ⟨s₀, s, load_eq_ok_iff.2 ⟨rfl, rfl, references_oneString "" _⟩, ?_, fun bytes hb ↦ ?_⟩
    · rw [InPlace.after_cons, ImportCall.apply, himport]
      rfl
    · obtain ⟨-, hsize, -⟩ := Container.fits_iff.1
        (Container.exists_toBytes_iff.1 ⟨bytes, mapError_eq_ok_iff.1 hb⟩)
      rw [hcontainer, oneString, List.size_toArray, terminatedBytes, List.length_append,
        length_toBytes_letters] at hsize
      exact absurd hsize (by decide)

end Script

end NovelScript
