import NovelScript.Proofs.Packing.Fitting
import NovelScript.Proofs.Script.Runs
import NovelScript.Proofs.Sheet.Writing

/-!
Importing the strings that a script has exported. Every offset gets a string of its own, so what
was shared before may no longer fit; where it fits, every load reads what it read before.
-/

namespace NovelScript

open Instruction Outcome

namespace Script

/-- References of moved strings are found again, whatever the texts are. -/
theorem exists_commit_of_relocated {s : Script} {c : Container} {is : List Instruction}
    {textOf : UInt32 → String} {move : UInt32 → UInt32} {order : List UInt32} (hs : s.Current)
    (hw : s.container.walk s.names = ⟨is, none⟩)
    (hr : Relocated s.container c is textOf move order) : ∃ s', s.commit c = .ok s' := by
  obtain ⟨hshows, -⟩ := hs.references_of_walk hw
  have hfunctions : c.functions = s.container.functions := by rw [hr.rest]
  have hsame : ∀ call, s.container.Shows call → c.Shows (call.relocate move) := by
    intro call hcall hn
    have htext : c.messageText? = s.container.messageText? := by
      rw [hr.rest]
      rfl
    rw [htext]
    exact hcall hn
  have hcalls : ∀ call ∈ calls c.functions (is.map (·.relocate move)), c.Shows call := by
    rw [hfunctions, calls_relocate]
    intro call hcall
    obtain ⟨before, hbefore, rfl⟩ := List.mem_map.1 hcall
    exact hsame before (hshows before hbefore)
  exact exists_commit_of_references
    (Container.references_eq_ok_iff.2 ⟨_, hr.walk hw, hcalls, rfl⟩)

/-- An import of strings succeeds just when its sheet can be read and the new texts fit. -/
theorem importStrings_isOk_iff {s : Script} (hs : s.Current) (hsize : s.container.Addressable)
    {text : String} :
    (∃ s', s.importStrings text = .ok s') ↔
      (∃ edits, TextSheet.readStrings text (.ofList (s.strings.map Prod.fst)) = .ok edits) ∧
        StringsFit (fun old ↦ (terminatedBytes (s.importedText text old)).length)
          (ascending (s.references.strings.map Prod.snd)) := by
  obtain ⟨is, hw, hstrings⟩ := hs.exists_walk_loads hsize
  constructor
  · intro h
    obtain ⟨s', h⟩ := h
    obtain ⟨edits, c, hedits, hrepack, -⟩ := importStrings_eq_ok_iff.1 h
    have htexts := editedStrings_of_loaded hstrings hedits
    rw [hstrings] at hrepack ⊢
    exact ⟨⟨edits, hedits⟩, (repackStrings_isOk_iff hsize hw htexts).1 ⟨c, hrepack⟩⟩
  · intro h
    obtain ⟨⟨edits, hedits⟩, hfits⟩ := h
    have htexts := editedStrings_of_loaded hstrings hedits
    rw [hstrings] at hfits
    obtain ⟨c, hrepack⟩ := (repackStrings_isOk_iff hsize hw htexts).2 hfits
    obtain ⟨move, order, hmoved⟩ := relocated_of_repackStrings hsize hw htexts hrepack
    obtain ⟨s', hcommit⟩ := exists_commit_of_relocated hs hw hmoved
    rw [← hstrings] at hrepack
    exact ⟨s', importStrings_eq_ok_iff.2 ⟨edits, c, hedits, hrepack, hcommit⟩⟩

theorem readStrings_exportStrings (s : Script) :
    TextSheet.readStrings s.exportStrings (.ofList (s.strings.map Prod.fst)) =
      .ok (s.strings.map fun p ↦ (p.1, Markup.unescapeString (Markup.escapeString p.2))) := by
  apply TextSheet.readStrings_writeStrings
  intro p hp
  rw [Std.TreeSet.mem_ofList, List.contains_iff_mem]
  exact List.mem_map_of_mem hp

/-- An exported string comes back as its notation is read. -/
theorem importedText_exportStrings (s : Script) {old : UInt32}
    (ho : old ∈ ascending (s.references.strings.map Prod.snd)) :
    s.importedText s.exportStrings old =
      Markup.unescapeString (Markup.escapeString (s.container.stringAt old)) := by
  obtain ⟨-, hedits⟩ := TextSheet.readStrings_eq_ok_iff.1 s.readStrings_exportStrings
  let textOf : UInt32 → String := fun k ↦
    Markup.unescapeString (Markup.escapeString (s.container.stringAt k))
  have hmap : s.strings.map (fun p ↦ (p.1, Markup.unescapeString (Markup.escapeString p.2))) =
      (ascending (s.references.strings.map Prod.snd)).map fun k ↦ (k, textOf k) := by
    rw [strings, Container.referencedStrings, List.map_map]
    rfl
  have hlast := @TextSheet.lookup_reverse_edits s.exportStrings old
  rw [← hedits, hmap, ← List.map_reverse, lookup_map_self (List.mem_reverse.2 ho)] at hlast
  rw [importedText, ← hlast, Option.getD_some]

/-- The address of each instruction, and the text that it loads. -/
def loadedTexts (s : Script) : List (UInt32 × Option String) :=
  (s.container.walk s.names).instructions.map fun i ↦
    (i.address, i.loaded?.map s.container.stringAt)

/-- An exported string that notation does not change comes back. -/
theorem importedText_exportStrings_eq {s : Script}
    (hslash : ∀ load ∈ s.references.strings, ∀ l ∈ ['t', 'r', 'n'],
      ¬['\\', l] <:+: (s.container.stringAt load.2).toList) {old : UInt32}
    (ho : old ∈ ascending (s.references.strings.map Prod.snd)) :
    s.importedText s.exportStrings old = s.container.stringAt old := by
  obtain ⟨load, hload, rfl⟩ := List.mem_map.1 (mem_ascending.1 ho)
  rw [importedText_exportStrings s ho, Markup.unescapeString_escapeString (hslash load hload)]

/-- Importing the strings that a loaded script has exported succeeds just when they fit with a copy
for each offset, and then every load reads what it read before. -/
theorem importStrings_exportStrings {data : List UInt8} {s : Script} (h : load data = .ok s)
    (hslash : ∀ load ∈ s.references.strings, ∀ l ∈ ['t', 'r', 'n'],
      ¬['\\', l] <:+: (s.container.stringAt load.2).toList) :
    ((∃ s', s.importStrings s.exportStrings = .ok s') ↔
        StringsFit (fun old ↦ (terminatedBytes (s.container.stringAt old)).length)
          (ascending (s.references.strings.map Prod.snd))) ∧
      ∀ s', s.importStrings s.exportStrings = .ok s' → s'.loadedTexts = s.loadedTexts := by
  obtain ⟨-, hs⟩ := load_eq_ok_iff.1 h
  have hsize := addressable_of_load h
  have htext : ∀ old ∈ ascending (s.references.strings.map Prod.snd),
      s.importedText s.exportStrings old = s.container.stringAt old :=
    fun old ho ↦ importedText_exportStrings_eq hslash ho
  constructor
  · rw [importStrings_isOk_iff hs hsize, stringsFit_congr fun old ho ↦ by rw [htext old ho]]
    exact and_iff_right ⟨_, s.readStrings_exportStrings⟩
  · intro s' h
    obtain ⟨is, move, order, hw, hr, hnames, -⟩ := relocated_of_importStrings hs hsize h
    obtain ⟨-, hrefs⟩ := hs.references_of_walk hw
    rw [Container.latest_loads hsize hw] at hrefs
    rw [loadedTexts, loadedTexts, hnames, hr.walk hw, hw, List.map_map]
    refine List.map_congr_left fun i hi ↦ ?_
    rw [Function.comp_apply, relocate_address, relocate_loaded?]
    cases hl : i.loaded? with
    | none => rfl
    | some old =>
      have ho : old ∈ ascending (s.references.strings.map Prod.snd) := by
        rw [hrefs]
        exact mem_ascending_loads_iff.2 ⟨i, hi, hl⟩
      have hstring : s'.container.stringAt (move old) = s.container.stringAt old := by
        rw [hr.layout.stringAt_move ((hr.mem_iff old).2 ⟨i, hi, hl⟩), htext old ho]
        rw [htext old ho]
        exact s.container.nullFree_stringAt old
      rw [Option.map_some, Option.map_some, hstring, Option.map_some]

/-- Two strings of which one is the end of the other. -/
def sharedSample : Container where
  strings := #[0x61, 0, 0x62, 0, 0, 0]
  code := #[0x09, 0, 0x09, 2]

theorem importStrings_exportStrings_shared :
    ∃ data, ∃ s s' : Script, load data = .ok s ∧ s.references.strings = [(0, 0), (2, 2)] ∧
      (∀ load ∈ s.references.strings, ∀ l ∈ ['t', 'r', 'n'],
        ¬['\\', l] <:+: (s.container.stringAt load.2).toList) ∧
      s.importStrings s.exportStrings = .ok s' ∧ s'.loadedTexts = s.loadedTexts := by
  have hrefs : sharedSample.references (.ofContainer sharedSample) =
      .ok ⟨[(0, 0), (2, 2)], []⟩ := by rfl
  let s : Script := ⟨sharedSample, .ofContainer sharedSample, ⟨[(0, 0), (2, 2)], []⟩⟩
  have hfits : s.container.Fits := Container.fits_iff.2
    ⟨by constructor <;> decide, by decide, by simp [Container.names, s, sharedSample]⟩
  obtain ⟨data, hload⟩ := exists_load ⟨rfl, hrefs⟩ hfits
    (by simp [Container.Delimited, s, sharedSample])
  have hfree : [(0 : UInt32), 2].all fun o ↦ !(sharedSample.stringAt o).toList.contains '\\' := by
    decide
  have hslash : ∀ load ∈ s.references.strings, ∀ l ∈ ['t', 'r', 'n'],
      ¬['\\', l] <:+: (s.container.stringAt load.2).toList := by
    intro load hload l _ hpart
    have hnone := List.all_eq_true.1 hfree load.2 (List.mem_map_of_mem (f := Prod.snd) hload)
    have hmem := List.contains_iff_mem.2 (hpart.subset List.mem_cons_self)
    rw [Bool.not_eq_true'] at hnone
    exact Bool.false_ne_true (hnone.symm.trans hmem)
  obtain ⟨hiff, hsame⟩ := importStrings_exportStrings hload hslash
  have hfit : StringsFit (fun old ↦ (terminatedBytes (s.container.stringAt old)).length)
      (ascending (s.references.strings.map Prod.snd)) := by decide
  obtain ⟨s', hs'⟩ := hiff.2 hfit
  exact ⟨data, s, s', hload, rfl, hslash, hs', hsame s' hs'⟩

/-- A text of 128 letters. -/
def longText : List UInt8 := (List.replicate 128 [0x61, 0]).flatten ++ [0, 0]

/-- The text is loaded as a whole and without its first letter. -/
def overlapSample : Container where
  strings := longText.toArray
  code := #[0x09, 0, 0x09, 2]

theorem stringAt_overlapSample {o : UInt32} (h : o ∈ [0, 2]) :
    overlapSample.stringAt o = letters (128 - o.toNat / 2) := by
  have hall : [(0 : UInt32), 2].all fun o ↦
      Utf16.decode ((Utf16.units (longText.drop o.toNat)).takeWhile (· ≠ 0)) =
        List.replicate (128 - o.toNat / 2) 'a' := by decide
  rw [Container.stringAt, stringUnits_eq_takeWhile]
  exact congrArg String.ofList (of_decide_eq_true (List.all_eq_true.1 hall o h))

theorem length_overlapSample {o : UInt32} (h : o ∈ [0, 2]) :
    (terminatedBytes (overlapSample.stringAt o)).length = 258 - o.toNat := by
  have hall : ∀ o ∈ [(0 : UInt32), 2], 2 * (128 - o.toNat / 2) + 2 = 258 - o.toNat :=
    List.forall_mem_cons.2 ⟨rfl, List.forall_mem_singleton.2 rfl⟩
  rw [terminatedBytes, List.length_append, stringAt_overlapSample h, length_toBytes_letters]
  exact hall o h

/-- Without their sharing these strings are too long for their bucket. -/
theorem importStrings_exportStrings_overlap :
    ¬∀ data s, load data = .ok s →
      (∀ load ∈ s.references.strings, ∀ l ∈ ['t', 'r', 'n'],
        ¬['\\', l] <:+: (s.container.stringAt load.2).toList) →
      ∃ s', s.importStrings s.exportStrings = .ok s' ∧ s'.loadedTexts = s.loadedTexts := by
  intro h
  have hrefs : overlapSample.references (.ofContainer overlapSample) =
      .ok ⟨[(0, 0), (2, 2)], []⟩ := toOption_eq_some_iff.1 (by decide +kernel)
  have hfits : overlapSample.Fits := Container.fits_iff.2
    ⟨by constructor <;> decide +kernel, by decide +kernel, by simp [Container.names, overlapSample]⟩
  let s : Script := ⟨overlapSample, .ofContainer overlapSample, ⟨[(0, 0), (2, 2)], []⟩⟩
  have hs : s.Current := ⟨rfl, hrefs⟩
  obtain ⟨data, hload⟩ := exists_load hs hfits
    (by simp [Container.Delimited, s, overlapSample])
  have hmem : ∀ load ∈ s.references.strings, load.2 ∈ [(0 : UInt32), 2] := by
    intro load hload
    exact List.mem_map_of_mem (f := Prod.snd) hload
  have hslash : ∀ load ∈ s.references.strings, ∀ l ∈ ['t', 'r', 'n'],
      ¬['\\', l] <:+: (s.container.stringAt load.2).toList := by
    intro load hload l _ hpart
    change ['\\', l] <:+: (overlapSample.stringAt load.2).toList at hpart
    rw [stringAt_overlapSample (hmem load hload), toList_letters] at hpart
    have hletter := List.eq_of_mem_replicate (hpart.subset List.mem_cons_self)
    revert hletter
    decide
  obtain ⟨s', hs', -⟩ := h data s hload hslash
  obtain ⟨-, hstrings⟩ := (importStrings_isOk_iff hs (addressable_of_load hload)).1 ⟨s', hs'⟩
  have hoffsets : ascending (s.references.strings.map Prod.snd) = [0, 2] := by decide
  rw [hoffsets] at hstrings
  have hsizes : ∀ o ∈ [(0 : UInt32), 2],
      (terminatedBytes (s.importedText s.exportStrings o)).length = 258 - o.toNat := by
    intro o ho
    rw [importedText_exportStrings_eq hslash (hoffsets ▸ ho)]
    exact length_overlapSample ho
  rw [stringsFit_congr hsizes] at hstrings
  revert hstrings
  decide

end Script

end NovelScript
