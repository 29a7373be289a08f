import NovelScript.Proofs.References.Calls
import NovelScript.Script

/-!
Scripts that can be reached by loading and importing. In each of them the index of names and the
references are those of its container, though the index is made only once.
-/

namespace NovelScript

open Instruction Outcome

namespace Script

/-- What a script stores beside its container belongs to that container. -/
structure Current (s : Script) : Prop where
  names : s.names = NameIndex.ofContainer s.container
  references : s.container.references s.names = .ok s.references

/-- Scripts that come from bytes or from a container, by any number of imports. -/
inductive Reachable : Script → Prop
  | load {bytes : List UInt8} {s : Script} (h : Script.load bytes = .ok s) : Reachable s
  | ofContainer {c : Container} {s : Script} (h : Script.ofContainer c = .ok s) : Reachable s
  | importMessages {s s' : Script} {text : String} (hs : Reachable s)
      (h : s.importMessages text = .ok s') : Reachable s'
  | importStrings {s s' : Script} {text : String} (hs : Reachable s)
      (h : s.importStrings text = .ok s') : Reachable s'

theorem ofContainer_eq_ok_iff {c : Container} {s : Script} :
    ofContainer c = .ok s ↔ s.container = c ∧ s.Current := by
  unfold ofContainer
  simp only [bind_eq_ok_iff, pure_eq_ok_iff, mapError_eq_ok_iff]
  constructor
  · intro h
    obtain ⟨refs, hrefs, rfl⟩ := h
    exact ⟨rfl, rfl, hrefs⟩
  · intro h
    obtain ⟨rfl, hn, hr⟩ := h
    obtain ⟨c, names, refs⟩ := s
    dsimp only at hn hr
    subst hn
    exact ⟨refs, hr, rfl⟩

theorem commit_eq_ok_iff {s s' : Script} {c : Container} :
    s.commit c = .ok s' ↔
      s'.container = c ∧ s'.names = s.names ∧ c.references s.names = .ok s'.references := by
  unfold commit
  simp only [bind_eq_ok_iff, pure_eq_ok_iff, mapError_eq_ok_iff]
  constructor
  · intro h
    obtain ⟨refs, hrefs, rfl⟩ := h
    exact ⟨rfl, rfl, hrefs⟩
  · intro h
    obtain ⟨rfl, hn, hr⟩ := h
    obtain ⟨c, names, refs⟩ := s'
    dsimp only at hn hr
    subst hn
    exact ⟨refs, hr, rfl⟩

theorem exists_commit_of_references {s : Script} {c : Container} {refs : References}
    (h : c.references s.names = .ok refs) : ∃ s', s.commit c = .ok s' :=
  ⟨⟨c, s.names, refs⟩, commit_eq_ok_iff.2 ⟨rfl, rfl, h⟩⟩

theorem Current.exists_walk {s : Script} (hs : s.Current) :
    ∃ is, s.container.walk s.names = ⟨is, none⟩ ∧ s.references.strings = latest (loads is) := by
  obtain ⟨is, hw, -, hrefs⟩ := Container.references_eq_ok_iff.1 hs.references
  exact ⟨is, hw, by rw [hrefs]⟩

/-- In code of at most 4 GiB every load is referred to. -/
theorem Current.exists_walk_loads {s : Script} (hs : s.Current) (hsize : s.container.Addressable) :
    ∃ is, s.container.walk s.names = ⟨is, none⟩ ∧ s.references.strings = loads is := by
  obtain ⟨is, hw, hstrings⟩ := hs.exists_walk
  exact ⟨is, hw, hstrings.trans (Container.latest_loads hsize hw)⟩

/-- What the instructions of a current script say of its references. -/
theorem Current.references_of_walk {s : Script} (hs : s.Current) {is : List Instruction}
    (hw : s.container.walk s.names = ⟨is, none⟩) :
    (∀ call ∈ calls s.container.functions is, s.container.Shows call) ∧
      s.references = ⟨latest (loads is), (calls s.container.functions is).map
        (s.container.messageRef s.container.stringAt)⟩ := by
  obtain ⟨_, hw', hshows, hrefs⟩ := Container.references_eq_ok_iff.1 hs.references
  cases hw.symm.trans hw'
  exact ⟨hshows, hrefs⟩

/-- A container with the same symbols and labels leaves the index of names valid. -/
theorem Current.commit {s s' : Script} (hs : s.Current) {c : Container}
    (hsymbols : c.symbols = s.container.symbols) (hlabels : c.labels = s.container.labels)
    (h : s.commit c = .ok s') : s'.Current := by
  obtain ⟨rfl, hnames, hrefs⟩ := commit_eq_ok_iff.1 h
  refine ⟨?_, by rwa [hnames]⟩
  rw [hnames, hs.names, NameIndex.ofContainer, NameIndex.ofContainer, hsymbols, hlabels]

/-- A message that is shown reads as it is shown. -/
theorem messageText?_of_mem_references {s : Script} (hs : s.Current) {m : MessageRef}
    (hm : m ∈ s.references.messages) (hn : m.index ≠ nameIndex) :
    s.container.messageText? m.index = some m.text := by
  obtain ⟨is, -, hshows, hrefs⟩ := Container.references_eq_ok_iff.1 hs.references
  rw [hrefs] at hm
  obtain ⟨call, hcall, rfl⟩ := List.mem_map.1 hm
  have hshown := hshows call hcall
  unfold Container.messageRef at hn ⊢
  cases hnative : call.native with
  | name =>
    rw [hnative] at hn
    exact absurd rfl hn
  | message =>
    obtain ⟨text, htext⟩ := Option.isSome_iff_exists.1 (hshown hnative)
    dsimp only
    rw [htext]
    rfl

/-- The text of a message after edits: that of the last edit of its place, or its own. -/
def editedMessage? (s : Script) (edits : List (UInt32 × String)) (p : Nat) : Option String :=
  (edits.map fun edit ↦ (edit.1.toNat, edit.2)).reverse.lookup p <|>
    s.container.messageText? (.ofNat p)

theorem editedMessages_eq (s : Script) (edits : List (UInt32 × String)) :
    s.editedMessages edits = s.container.messages.toList.zipIdx.mapM fun entry ↦
      match s.editedMessage? edits entry.2 with
      | some t => .ok t
      | none => .error (.decode (.messageRange entry.2 entry.1.offset entry.1.length)) := by
  unfold editedMessages
  refine congrArg (List.mapM · _) (funext fun entry ↦ ?_)
  have htext : ((Std.TreeMap.ofList (edits.map fun edit ↦ (edit.1.toNat, edit.2)))[entry.2]? <|>
      s.container.messageText? (.ofNat entry.2)) = s.editedMessage? edits entry.2 := by
    rw [getElem?_ofList, editedMessage?]
  exact congrArg (fun found : Option String ↦ match found with
    | some t => Except.ok t
    | none => Except.error
        (ScriptError.decode (.messageRange entry.2 entry.1.offset entry.1.length))) htext

/-- Messages can be edited if each of them has an edit or is inside the message segment. -/
theorem editedMessages_eq_ok_iff {s : Script} {edits : List (UInt32 × String)}
    {texts : List String} : s.editedMessages edits = .ok texts ↔
      (∀ p < s.container.messages.size, (s.editedMessage? edits p).isSome) ∧
        texts = (List.range s.container.messages.size).map fun p ↦
          (s.editedMessage? edits p).getD "" := by
  have hrange : List.range s.container.messages.size =
      s.container.messages.toList.zipIdx.map Prod.snd := by
    rw [List.zipIdx_map_snd, Array.length_toList, List.range_eq_range']
  rw [editedMessages_eq, hrange, List.map_map]
  simp only [← List.mem_range, hrange, List.forall_mem_map]
  refine mapM_eq_ok_iff (fun entry _ t ↦ ?_) texts
  cases hedited : s.editedMessage? edits entry.2 with
  | none => simp
  | some own => simp [hedited, eq_comm]

theorem importMessages_eq_ok_iff {s s' : Script} {text : String} :
    s.importMessages text = .ok s' ↔ ∃ edits texts c,
      TextSheet.readMessages text s.container.messages.size = .ok edits ∧
        s.editedMessages edits = .ok texts ∧ s.container.repackMessages texts = .ok c ∧
          s.commit c = .ok s' := by
  unfold importMessages
  simp only [bind_eq_ok_iff, mapError_eq_ok_iff]
  constructor
  · intro h
    obtain ⟨edits, he, texts, ht, c, hc, h⟩ := h
    exact ⟨edits, texts, c, he, ht, hc, h⟩
  · intro h
    obtain ⟨edits, texts, c, he, ht, hc, h⟩ := h
    exact ⟨edits, he, texts, ht, c, hc, h⟩

theorem importStrings_eq_ok_iff {s s' : Script} {text : String} :
    s.importStrings text = .ok s' ↔ ∃ edits c,
      TextSheet.readStrings text (.ofList (s.strings.map Prod.fst)) = .ok edits ∧
        s.container.repackStrings s.references.strings (s.editedStrings edits) = .ok c ∧
          s.commit c = .ok s' := by
  unfold importStrings
  simp only [bind_eq_ok_iff, mapError_eq_ok_iff]
  constructor
  · intro h
    obtain ⟨edits, he, c, hc, h⟩ := h
    exact ⟨edits, c, he, hc, h⟩
  · intro h
    obtain ⟨edits, c, he, hc, h⟩ := h
    exact ⟨edits, he, c, hc, h⟩

theorem importStrings_eq_error_of_references {s : Script} {text : String}
    {edits : List (UInt32 × String)} {c : Container} {e : DecodeError}
    (he : TextSheet.readStrings text (.ofList (s.strings.map Prod.fst)) = .ok edits)
    (hc : s.container.repackStrings s.references.strings (s.editedStrings edits) = .ok c)
    (h : c.references s.names = .error e) : s.importStrings text = .error (.decode e) :=
  bind_eq_error_iff.2 (.inr ⟨_, mapError_eq_ok_iff.2 he, bind_eq_error_iff.2 (.inr ⟨_,
    mapError_eq_ok_iff.2 hc, bind_eq_error_iff.2 (.inl (mapError_eq_error_iff.2 ⟨_, h, rfl⟩))⟩)⟩)

end Script

end NovelScript
