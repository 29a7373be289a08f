import NovelScript.Proofs.Packing.Settling
import NovelScript.Proofs.Script.StringExport

/-!
Importing again and again the strings that a script has exported. The first import closes the gaps
and gives every string its final text, the second orders the strings by their new buckets, and the
third changes nothing (`importStrings_exportStrings_settles`).
-/

namespace NovelScript

open Instruction Outcome

theorem Instruction.map_relocate_eq_self {is : List Instruction} {move : UInt32 → UInt32}
    (h : ∀ i ∈ is, ∀ old, i.loaded? = some old → move old = old) :
    is.map (·.relocate move) = is := by
  refine (List.map_congr_left fun i hi ↦ ?_).trans (List.map_id is)
  cases hl : i.loaded? with
  | none => exact relocate_of_loaded?_eq_none hl
  | some old =>
    have hsame := h i hi old hl
    obtain ⟨address, code, operand⟩ := i
    cases loaded?_eq_some_iff.1 hl
    exact congrArg (fun o ↦ Instruction.mk address code (.string o)) hsame

namespace Script

/-- The offsets of the strings that the code loads. -/
def offsets (s : Script) : List UInt32 := ascending (s.references.strings.map Prod.snd)

/-- The strings that the code loads lie in the segment without a gap, and their notation gives
them back. -/
structure Compact (s : Script) : Prop where
  current : s.Current
  layout : Layout s.container.stringAt id s.offsets s.container.strings.toList
  text : ∀ old ∈ s.offsets, s.importedText s.exportStrings old = s.container.stringAt old

/-- Besides, the strings lie in the order in which they would be packed. -/
structure Settled (s : Script) : Prop extends Compact s where
  sorted : (s.offsets.map (PackedString.ofText s.container.stringAt)).Pairwise
    PackedString.Precedes

variable {s s' : Script}

theorem nullFree_importedText_exportStrings (s : Script) {old : UInt32} (ho : old ∈ s.offsets) :
    NullFree (s.importedText s.exportStrings old).toList := by
  rw [importedText_exportStrings s ho, ← String.ofList_toList (s := Markup.escapeString _)]
  exact Markup.nullFree_unescapeString
    (Markup.nullFree_escapeString (s.container.nullFree_stringAt old))

/-- Where an import of a script's own strings moves them to. -/
structure Moved (s s' : Script) (is : List Instruction) (move : UInt32 → UInt32)
    (order : List UInt32) : Prop where
  walk : s.container.walk s.names = ⟨is, none⟩
  names : s'.names = s.names
  relocated :
    Relocated s.container s'.container is (s.importedText s.exportStrings) move order
  perm : order.Perm s.offsets
  sorted : (order.map (PackedString.ofText (s.importedText s.exportStrings))).Pairwise
    PackedString.Precedes
  packed : PackedString.order
    (s.offsets.map (PackedString.ofText (s.importedText s.exportStrings))) =
      order.map (PackedString.ofText (s.importedText s.exportStrings))
  offsets : s'.offsets = order.map move
  stringAt : ∀ old ∈ order,
    s'.container.stringAt (move old) = s.importedText s.exportStrings old

theorem moved_of_importStrings (hs : s.Current) (hsize : s.container.Addressable)
    (h : s.importStrings s.exportStrings = .ok s') :
    ∃ is move order, Moved s s' is move order ∧ s'.Current ∧ s'.container.Addressable := by
  obtain ⟨is, move, order, hw, hr, hpacked, hnames, hcurrent⟩ :=
    relocated_packed_of_importStrings hs hsize h
  obtain ⟨-, hrefs⟩ := hs.references_of_walk hw
  rw [Container.latest_loads hsize hw] at hrefs
  have hoffsets : s.offsets = ascending ((loads is).map Prod.snd) := by rw [offsets, hrefs]
  have hmem : ∀ old, old ∈ order ↔ old ∈ s.offsets := by
    intro old
    rw [hr.mem_iff, hoffsets, mem_ascending_loads_iff]
  have hnull : ∀ old ∈ order, NullFree (s.importedText s.exportStrings old).toList :=
    fun old ho ↦ s.nullFree_importedText_exportStrings ((hmem old).1 ho)
  have hrefs' := references_of_relocated hcurrent hnames hsize hw hr hnull
  refine ⟨is, move, order, ⟨hw, hnames, hr, ?_, ?_, ?_, ?_, fun old ho ↦ ?_⟩, hcurrent,
    hr.addressable hw hsize⟩
  · exact (List.perm_ext_iff_of_nodup hr.nodup (nodup_ascending _)).2 hmem
  · rw [← hpacked]
    exact PackedString.pairwise_order _
  · rw [hoffsets]
    exact hpacked
  · apply ascending_eq_of_pairwise hr.layout.pairwise_lt
    intro n
    have hloads : s'.references.strings.map Prod.snd = ((loads is).map Prod.snd).map move := by
      rw [hrefs', List.map_map, List.map_map]
      rfl
    rw [hloads, List.mem_map, List.mem_map]
    refine exists_congr fun old ↦ and_congr_left fun _ ↦ ?_
    rw [hmem, hoffsets, mem_ascending]
  · exact hr.layout.stringAt_move ho (hnull old ho)

namespace Moved

variable {is : List Instruction} {move : UInt32 → UInt32} {order : List UInt32}

/-- After one import no string overlaps another, and the texts are final. -/
theorem compact (h : Moved s s' is move order) (hs' : s'.Current) : s'.Compact := by
  refine ⟨hs', ?_, fun new hn ↦ ?_⟩
  · rw [h.offsets]
    exact h.relocated.layout.moved h.stringAt
  · have hmoved := hn
    rw [h.offsets] at hmoved
    obtain ⟨old, ho, rfl⟩ := List.mem_map.1 hmoved
    rw [importedText_exportStrings s' hn, h.stringAt old ho,
      importedText_exportStrings s (h.perm.mem_iff.1 ho),
      Markup.unescapeString_escapeString_unescapeString]

theorem fits (h : Moved s s' is move order) {old : UInt32} (ho : old ∈ order) :
    (bucketOf (move old)).size ≤ (bucketOf old).size := by
  obtain ⟨i, hi, hl⟩ := (h.relocated.mem_iff old).1 ho
  exact h.relocated.fits i hi old hl

/-- After an import of strings that lay without a gap, they lie in the order of packing. -/
theorem settled (h : Moved s s' is move order) (hs : s.Compact) (hs' : s'.Current) :
    s'.Settled := by
  have hlaid : Layout (s.importedText s.exportStrings) id s.offsets
      s.container.strings.toList := by
    have hown := hs.layout.moved fun old ho ↦ hs.text old ho
    rwa [List.map_id] at hown
  refine ⟨h.compact hs', ?_⟩
  rw [h.offsets]
  refine Layout.pairwise_precedes_moved h.sorted h.stringAt fun old ho ↦ ?_
  exact hlaid.bucketOf_move h.relocated.layout h.perm h.sorted ho (h.fits ho)

/-- Strings in the order of packing stay where they are. -/
theorem eq_of_settled (h : Moved s s' is move order) (hs : s.Settled) (hs' : s'.Current) :
    s' = s := by
  have htext : s.offsets.map (PackedString.ofText (s.importedText s.exportStrings)) =
      s.offsets.map (PackedString.ofText s.container.stringAt) := by
    refine List.map_congr_left fun old ho ↦ ?_
    rw [PackedString.ofText, PackedString.ofText, hs.text old ho]
  have horder : order = s.offsets := by
    have hpacked := h.packed
    rw [htext, PackedString.order_eq_self hs.sorted, ← htext] at hpacked
    have hold : ∀ part : List UInt32, (part.map (PackedString.ofText
        (s.importedText s.exportStrings))).map (·.old) = part := by
      intro part
      rw [List.map_map]
      exact List.map_id'' (fun _ ↦ rfl) part
    rw [← hold order, ← hpacked, hold]
  subst horder
  obtain ⟨hstrings, hmove⟩ := h.relocated.layout.unique hs.layout hs.text
  have hcode : s'.container.code = s.container.code := by
    rw [← Array.toList_inj, h.relocated.code, (Container.walk_eq_none_iff.1 h.walk).2.2]
    rw [map_relocate_eq_self fun i hi old hl ↦ hmove old ((h.relocated.mem_iff old).2 ⟨i, hi, hl⟩)]
  have hcontainer : s'.container = s.container := by
    rw [h.relocated.rest, hcode, Array.toList_inj.1 hstrings]
  obtain ⟨c, names, refs⟩ := s
  obtain ⟨c', names', refs'⟩ := s'
  obtain rfl : c' = c := hcontainer
  obtain rfl : names' = names := h.names
  exact congrArg (Script.mk c' names')
    (Except.ok.inj (hs'.references.symm.trans hs.current.references))

end Moved

/-- Strings that lie without a gap can always be packed again. -/
theorem Compact.importStrings_isOk (hs : s.Compact) (hsize : s.container.Addressable) :
    ∃ s', s.importStrings s.exportStrings = .ok s' := by
  rw [importStrings_isOk_iff hs.current hsize,
    stringsFit_congr fun old ho ↦ by rw [hs.text old ho]]
  exact ⟨⟨_, s.readStrings_exportStrings⟩, stringsFit_of_disjoint hs.layout.pairwise⟩

/-- If the own strings of a script with at most 4 GiB of code can be imported, they can be imported
again, and from the second time on nothing changes any more. -/
theorem importStrings_exportStrings_settles {s₀ s₁ : Script} (hs : s₀.Reachable)
    (hsize : s₀.container.Addressable) (h : s₀.importStrings s₀.exportStrings = .ok s₁) :
    ∃ s₂, s₁.importStrings s₁.exportStrings = .ok s₂ ∧
      s₂.importStrings s₂.exportStrings = .ok s₂ := by
  obtain ⟨_, _, _, hfirst, hcurrent₁, hsize₁⟩ := moved_of_importStrings hs.current hsize h
  have hcompact := hfirst.compact hcurrent₁
  obtain ⟨s₂, h₂⟩ := hcompact.importStrings_isOk hsize₁
  obtain ⟨_, _, _, hsecond, hcurrent₂, hsize₂⟩ := moved_of_importStrings hcurrent₁ hsize₁ h₂
  have hsettled := hsecond.settled hcompact hcurrent₂
  obtain ⟨s₃, h₃⟩ := hsettled.importStrings_isOk hsize₂
  obtain ⟨_, _, _, hthird, hcurrent₃, -⟩ := moved_of_importStrings hcurrent₂ hsize₂ h₃
  obtain rfl := hthird.eq_of_settled hsettled hcurrent₃
  exact ⟨_, h₂, h₃⟩

/-- A short string behind a gap. It moves to the narrowest bucket, and then before a longer one. -/
def gapSample : Container where
  strings := #[0x61, 0, 0x61, 0] ++ Array.replicate 252 0 ++ #[0x62, 0, 0, 0]
  code := #[0x09, 0, 0x0A, 0, 1]

theorem importStrings_exportStrings_settles_gap :
    ∃ s₀ s₁ s₂ : Script, s₀.Reachable ∧ s₀.container.Addressable ∧
      s₀.references.strings = [(0, 0), (2, 256)] ∧
      s₀.importStrings s₀.exportStrings = .ok s₁ ∧
      s₁.references.strings = [(0, 0), (2, 6)] ∧ s₁.importStrings s₁.exportStrings = .ok s₂ ∧
      s₂.importStrings s₂.exportStrings = .ok s₂ := by
  have hrun : (ofContainer gapSample).toOption.bind (fun s₀ ↦
      (s₀.importStrings s₀.exportStrings).toOption.map fun s₁ ↦
        (s₀.references.strings, s₁.references.strings)) =
      some ([(0, 0), (2, 256)], [(0, 0), (2, 6)]) := by decide +kernel
  obtain ⟨s₀, h₀, hrun⟩ := Option.bind_eq_some_iff.1 hrun
  obtain ⟨s₁, h₁, hrun⟩ := Option.map_eq_some_iff.1 hrun
  obtain ⟨hrefs₀, hrefs₁⟩ := Prod.mk.inj hrun
  have hload := toOption_eq_some_iff.1 h₀
  have hs : s₀.Reachable := .ofContainer hload
  have hsize : s₀.container.Addressable := by
    rw [(ofContainer_eq_ok_iff.1 hload).1]
    decide
  have h := toOption_eq_some_iff.1 h₁
  obtain ⟨s₂, h₂, hsame⟩ := importStrings_exportStrings_settles hs hsize h
  exact ⟨s₀, s₁, s₂, hs, hsize, hrefs₀, h, hrefs₁, h₂, hsame⟩

/-- The second import drops the string that the load at 4 GiB still has. -/
theorem importStrings_exportStrings_settles_wrappedLoads :
    ∃ s₀ s₁ : Script,
      ofContainer (wrappedLoads #[0x61, 0, 0, 0, 0x62, 0, 0x63, 0, 0x64, 0, 0, 0]) = .ok s₀ ∧
      s₀.importStrings s₀.exportStrings = .ok s₁ ∧
      s₁.importStrings s₁.exportStrings = .error (.decode (.stringOffset 0 .loadString1 4)) := by
  let c := wrappedLoads #[0x61, 0, 0, 0, 0x62, 0, 0x63, 0, 0x64, 0, 0, 0]
  let s₀ : Script := ⟨c, .ofContainer c, ⟨[(0, 4)], []⟩⟩
  let s₁ : Script := { s₀ with container := wrappedLoads (terminatedBytes "bcd").toArray }
  have hs₀ : ofContainer c = .ok s₀ :=
    ofContainer_eq_ok_iff.2 ⟨rfl, rfl, references_wrappedLoads (by decide)⟩
  have himport : s₀.importStrings s₀.exportStrings = .ok s₁ :=
    importStrings_eq_ok_iff.2 ⟨_, _, s₀.readStrings_exportStrings,
      repackStrings_wrappedLoads (by decide),
      commit_eq_ok_iff.2 ⟨rfl, rfl, references_wrappedLoads (by decide)⟩⟩
  have hrefs : (wrappedLoads (terminatedBytes "d").toArray).references s₁.names =
      .error (.stringOffset 0 .loadString1 4) :=
    references_wrappedLoads_eq_error (by decide) (by decide)
  refine ⟨s₀, s₁, hs₀, himport, importStrings_eq_error_of_references s₁.readStrings_exportStrings
    (repackStrings_wrappedLoads ?_) hrefs⟩
  decide

end Script

end NovelScript
