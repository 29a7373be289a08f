import NovelScript.Proofs.Script.InPlace
import NovelScript.Proofs.Script.MessageImport
import NovelScript.Proofs.Script.StringExport

/-!
Imports of messages and of strings in either order. Each of them reads and rebuilds a part of the
container that the other one leaves alone, so that their outcomes and the script they lead to do
not depend on the order (`imports_commute`).
-/

namespace NovelScript

open Instruction Outcome

namespace Container

/-- A container with the messages of another one. -/
def withMessages (c other : Container) : Container :=
  { c with messages := other.messages, messageData := other.messageData }

/-- A container with the strings of another one, and with the code that loads them. -/
def withStrings (c other : Container) : Container :=
  { c with strings := other.strings, code := other.code }

variable {c c' other : Container}

theorem repackMessages_withStrings (texts : List String) :
    (c.withStrings other).repackMessages texts =
      (·.withStrings other) <$> c.repackMessages texts := by
  have hcount : (c.withStrings other).messages.size = c.messages.size := rfl
  unfold repackMessages
  rw [hcount]
  split
  · rfl
  · rw [map_bind]
    rfl

theorem repackStrings_withMessages (refs : List (UInt32 × UInt32))
    (texts : Std.TreeMap UInt32 String) :
    (c.withMessages other).repackStrings refs texts =
      (·.withMessages other) <$> c.repackStrings refs texts := by
  unfold repackStrings
  simp only [map_bind, map_pure]
  rfl

theorem eq_withMessages_of_repackMessages {texts : List String}
    (h : c.repackMessages texts = .ok c') : c' = c.withMessages c' :=
  (repackMessages_eq_ok h).1

theorem eq_withStrings_of_repackStrings {refs : List (UInt32 × UInt32)}
    {texts : Std.TreeMap UInt32 String} (h : c.repackStrings refs texts = .ok c') :
    c' = c.withStrings c' :=
  rest_of_repackStrings h

end Container

namespace Script

/-- The container that an import builds, before its references are looked for. -/
def rebuilt (s : Script) : ImportCall → Except ScriptError Container
  | .messages text => do
    let edits ← (TextSheet.readMessages text s.container.messages.size).mapError .sheet
    let texts ← s.editedMessages edits
    (s.container.repackMessages texts).mapError .packing
  | .strings text => do
    let known := Std.TreeSet.ofList (s.strings.map Prod.fst)
    let edits ← (TextSheet.readStrings text known).mapError .sheet
    let texts := s.editedStrings edits
    (s.container.repackStrings s.references.strings texts).mapError .packing

/-- The container after an import, which is the old one if the import fails. -/
def containerAfter (s : Script) (call : ImportCall) : Container :=
  (s.rebuilt call).toOption.getD s.container

variable {s t : Script}

theorem apply_eq_bind (call : ImportCall) : call.apply s = s.rebuilt call >>= s.commit := by
  cases call with
  | messages text => simp only [ImportCall.apply, importMessages, rebuilt, bind_assoc]
  | strings text => simp only [ImportCall.apply, importStrings, rebuilt, bind_assoc]

/-- A script is determined by its container. -/
theorem Current.eq (hs : s.Current) (ht : t.Current) (h : s.container = t.container) : s = t := by
  obtain ⟨c, names, refs⟩ := s
  obtain ⟨c', names', refs'⟩ := t
  obtain rfl : c = c' := h
  obtain rfl : names = names' := hs.names.trans ht.names.symm
  exact congrArg (Script.mk c names) (Except.ok.inj (hs.references.symm.trans ht.references))

/-- What an import of a script builds can take the place of its container. -/
def Commits (s : Script) (call : ImportCall) : Prop :=
  ∀ c, s.rebuilt call = .ok c → ∃ s', s.commit c = .ok s' ∧ s'.Current

theorem Current.commits_messages (hs : s.Current) (text : String) :
    s.Commits (.messages text) := by
  intro c h
  simp only [rebuilt, bind_eq_ok_iff, mapError_eq_ok_iff] at h
  obtain ⟨edits, hedits, texts, htexts, hc⟩ := h
  have hreworded := reworded_of_repackMessages hedits htexts hc
  obtain ⟨s', hcommit⟩ := hreworded.exists_commit hs
  have hrest := hreworded.rest
  exact ⟨s', hcommit, hs.commit (by rw [hrest]) (by rw [hrest]) hcommit⟩

theorem Current.commits_strings (hs : s.Current) (hsize : s.container.Addressable)
    (text : String) : s.Commits (.strings text) := by
  intro c h
  simp only [rebuilt, bind_eq_ok_iff, mapError_eq_ok_iff] at h
  obtain ⟨edits, hedits, hc⟩ := h
  obtain ⟨is, hw, hstrings⟩ := hs.exists_walk_loads hsize
  rw [hstrings] at hc
  obtain ⟨move, order, hmoved⟩ :=
    relocated_of_repackStrings hsize hw (editedStrings_of_loaded hstrings hedits) hc
  obtain ⟨s', hcommit⟩ := exists_commit_of_relocated hs hw hmoved
  have hrest := hmoved.rest
  exact ⟨s', hcommit, hs.commit (by rw [hrest]) (by rw [hrest]) hcommit⟩

theorem containerAfter_messages (s : Script) (text : String) :
    s.containerAfter (.messages text) =
      s.container.withMessages (s.containerAfter (.messages text)) := by
  unfold containerAfter
  cases h : s.rebuilt (.messages text) with
  | error e => rfl
  | ok c =>
    simp only [rebuilt, bind_eq_ok_iff, mapError_eq_ok_iff] at h
    obtain ⟨_, -, _, -, hc⟩ := h
    exact Container.eq_withMessages_of_repackMessages hc

theorem containerAfter_strings (s : Script) (text : String) :
    s.containerAfter (.strings text) =
      s.container.withStrings (s.containerAfter (.strings text)) := by
  unfold containerAfter
  cases h : s.rebuilt (.strings text) with
  | error e => rfl
  | ok c =>
    simp only [rebuilt, bind_eq_ok_iff, mapError_eq_ok_iff] at h
    obtain ⟨_, -, hc⟩ := h
    exact Container.eq_withStrings_of_repackStrings hc

/-- A change of the container that an import carries along is still there after it. -/
theorem containerAfter_of_map (change : Container → Container) {call : ImportCall}
    (h : t.container = change s.container) (hrebuilt : t.rebuilt call = change <$> s.rebuilt call) :
    t.containerAfter call = change (s.containerAfter call) := by
  rw [containerAfter, containerAfter, hrebuilt, h]
  cases s.rebuilt call <;> rfl

/-- Other strings change nothing in how messages are rebuilt. -/
theorem rebuilt_messages_of_withStrings {other : Container}
    (h : t.container = s.container.withStrings other) (text : String) :
    t.rebuilt (.messages text) = (·.withStrings other) <$> s.rebuilt (.messages text) := by
  have hedited : t.editedMessages = s.editedMessages := by
    unfold editedMessages
    rw [h]
    rfl
  have hsize : t.container.messages.size = s.container.messages.size := by rw [h]; rfl
  simp only [rebuilt, map_bind, hedited, hsize]
  simp only [h, Container.repackMessages_withStrings, mapError_map]

/-- Other messages change nothing in how strings are rebuilt. -/
theorem rebuilt_strings_of_withMessages {other : Container}
    (h : t.container = s.container.withMessages other)
    (hrefs : t.references.strings = s.references.strings) (text : String) :
    t.rebuilt (.strings text) = (·.withMessages other) <$> s.rebuilt (.strings text) := by
  have hstrings : t.strings = s.strings := by
    rw [strings, strings, Container.referencedStrings, Container.referencedStrings, hrefs, h]
    rfl
  have hedited : t.editedStrings = s.editedStrings := by
    unfold editedStrings
    rw [hstrings]
  simp only [rebuilt, map_bind, hstrings, hedited, hrefs]
  simp only [h, Container.repackStrings_withMessages, mapError_map]

/-- Other messages change nothing in what the code loads. -/
theorem Current.references_strings_eq (hs : s.Current) (ht : t.Current) {other : Container}
    (h : t.container = s.container.withMessages other) :
    t.references.strings = s.references.strings := by
  have hnames : t.names = s.names := by
    rw [ht.names, hs.names, h]
    rfl
  obtain ⟨is, hw, hstrings⟩ := hs.exists_walk
  obtain ⟨is', hw', hstrings'⟩ := ht.exists_walk
  have hsame : t.container.walk t.names = s.container.walk s.names := by
    rw [hnames, h]
    rfl
  cases (hw'.symm.trans hsame).trans hw
  rw [hstrings, hstrings']

end Script

namespace InPlace

/-- An import that is tried: an error becomes an outcome, and one goes on with the script. -/
def attempt (call : ImportCall) : StateM Script (Except ScriptError Unit) := (perform call).run

variable {s : Script}

/-- Trying an import of a current script tells whether its container can be rebuilt. -/
theorem exists_attempt (hs : s.Current) {call : ImportCall} (hcommits : s.Commits call) :
    ∃ s', (attempt call).run s = ((fun _ ↦ ()) <$> s.rebuilt call, s') ∧ s'.Current ∧
      s'.container = s.containerAfter call := by
  have hrun : (attempt call).run s = settled s (call.apply s) := runOn_perform call s
  rw [hrun, Script.apply_eq_bind, Script.containerAfter]
  cases h : s.rebuilt call with
  | error e => exact ⟨s, rfl, hs, rfl⟩
  | ok c =>
    obtain ⟨s', hcommit, hcurrent⟩ := hcommits c h
    obtain ⟨hc, -, -⟩ := Script.commit_eq_ok_iff.1 hcommit
    refine ⟨s', ?_, hcurrent, hc⟩
    change settled s (s.commit c) = _
    rw [hcommit]
    rfl

/-- Two imports that are tried one after the other. -/
def attemptBoth (first second : ImportCall) :
    StateM Script (Except ScriptError Unit × Except ScriptError Unit) := do
  let outcome ← attempt first
  let outcome' ← attempt second
  return (outcome, outcome')

theorem run_attemptBoth {first second : ImportCall} {outcome outcome' : Except ScriptError Unit}
    {s₁ s₂ : Script} (h : (attempt first).run s = (outcome, s₁))
    (h' : (attempt second).run s₁ = (outcome', s₂)) :
    (attemptBoth first second).run s = ((outcome, outcome'), s₂) := by
  rw [attemptBoth, StateT.run_bind, h]
  change (attempt second >>= fun outcome' ↦ pure (outcome, outcome')).run s₁ = _
  rw [StateT.run_bind, h']
  rfl

/-- Whether they succeed or not, an import of messages and one of strings have the same outcomes
and lead to the same script in either order, in code of at most 4 GiB. -/
theorem imports_commute (hs : s.Reachable) (hsize : s.container.Addressable)
    (messages strings : String) :
    (attemptBoth (.messages messages) (.strings strings)).run s =
      (Prod.swap <$> attemptBoth (.strings strings) (.messages messages)).run s := by
  obtain ⟨s₁, hm, hs₁, hc₁⟩ := exists_attempt hs.current (hs.current.commits_messages messages)
  -- The second import meets the first script, but for the part that it does not touch.
  have hmessages : s₁.container = s.container.withMessages s₁.container := by
    rw [hc₁]
    exact Script.containerAfter_messages s messages
  have hsize₁ : s₁.container.Addressable := by
    rw [hmessages]
    exact hsize
  obtain ⟨s₂, ht', hs₂, hc₂⟩ := exists_attempt hs₁ (hs₁.commits_strings hsize₁ strings)
  obtain ⟨t₁, ht, ht₁, hd₁⟩ := exists_attempt hs.current (hs.current.commits_strings hsize strings)
  obtain ⟨t₂, hm', ht₂, hd₂⟩ := exists_attempt ht₁ (ht₁.commits_messages messages)
  have hstrings : t₁.container = s.container.withStrings t₁.container := by
    rw [hd₁]
    exact Script.containerAfter_strings s strings
  have hrebuilt := Script.rebuilt_strings_of_withMessages hmessages
    (hs.current.references_strings_eq hs₁ hmessages) strings
  have hrebuilt' := Script.rebuilt_messages_of_withStrings hstrings messages
  have hcontainer : s₂.container = t₂.container :=
    calc s₂.container = t₁.container.withMessages s₁.container := by
          rw [hc₂, hd₁]
          exact Script.containerAfter_of_map (·.withMessages s₁.container) hmessages hrebuilt
      _ = (s.container.withStrings t₁.container).withMessages s₁.container :=
          congrArg (·.withMessages s₁.container) hstrings
      _ = (s.container.withMessages s₁.container).withStrings t₁.container := rfl
      _ = s₁.container.withStrings t₁.container :=
          congrArg (·.withStrings t₁.container) hmessages.symm
      _ = t₂.container := by
          rw [hd₂, hc₁]
          exact (Script.containerAfter_of_map (·.withStrings t₁.container) hstrings
            hrebuilt').symm
  rw [run_attemptBoth hm ht', StateT.run_map, run_attemptBoth ht hm', hrebuilt, hrebuilt',
    Functor.map_map, Functor.map_map, hs₂.eq ht₂ hcontainer]
  rfl

/-- A message is shown under a name. -/
def sceneSample : Container where
  symbols := #[⟨"_ms_message", [], 0, 0, 0, 2⟩, ⟨"MALIE_NAME", [], 0, 0, 0, 2⟩]
  functions := #[⟨"_ms_message", 0, 0, 0⟩, ⟨"MALIE_NAME", 1, 0, 0⟩]
  strings := #[0x61, 0, 0, 0]
  code := #[0x09, 0, 0x2D, 1, 0, 0, 0, 0x0F, 0x2D, 0, 0, 0, 0]
  messages := #[⟨0, 2⟩]
  messageData := #[0x62, 0]

/-- The second sheet of strings fails, since nothing is loaded from its offset. -/
theorem imports_commute_scene :
    ∃ s : Script, s.Reachable ∧ s.container.Addressable ∧
      (∀ strings, (attemptBoth (.messages "◆0◆x\n") (.strings strings)).run s =
        (Prod.swap <$> attemptBoth (.strings strings) (.messages "◆0◆x\n")).run s) ∧
      ((attemptBoth (.messages "◆0◆x\n") (.strings "◇0◇hi\n")).run s).2.references =
        ⟨[(0, 0)], [⟨2, nameIndex, "hi"⟩, ⟨8, 0, "x"⟩]⟩ ∧
      ((attemptBoth (.messages "◆0◆x\n") (.strings "◇1◇hi\n")).run s).2.references =
        ⟨[(0, 0)], [⟨2, nameIndex, "a"⟩, ⟨8, 0, "x"⟩]⟩ := by
  let refs : References := ⟨[(0, 0)], [⟨2, nameIndex, "a"⟩, ⟨8, 0, "b"⟩]⟩
  have hrefs : sceneSample.references (.ofContainer sceneSample) = .ok refs :=
    toOption_eq_some_iff.1 (by decide +kernel)
  let s : Script := ⟨sceneSample, .ofContainer sceneSample, refs⟩
  have hs : s.Reachable := .ofContainer (Script.ofContainer_eq_ok_iff.2 ⟨rfl, rfl, hrefs⟩)
  have hsize : s.container.Addressable := by decide
  exact ⟨s, hs, hsize, fun strings ↦ imports_commute hs hsize _ strings, by decide +kernel,
    by decide +kernel⟩

/-- A message is shown, and a load at 4 GiB has the address of the number 9, which is pushed first.
What this load would have as its operand is the opcode of the instruction after that push. -/
def wrappedPush (opcode : UInt8) (strings : Array UInt8) (messages : Array MessageEntry)
    (messageData : Array UInt8) : Container where
  symbols := #[⟨"_ms_message", [], 0, 0, 0, 2⟩]
  functions := #[⟨"_ms_message", 0, 0, 0⟩]
  strings := strings
  code := wrappingCode [0x11, 9, opcode, 0, 0, 0, 0, 0x2D, 0, 0, 0, 0] [0x05, 0x09, 2]
  messages := messages
  messageData := messageData

section WrappedPush

variable {opcode : UInt8} {strings : Array UInt8} {messages : Array MessageEntry}
  {messageData : Array UInt8}

section References

variable {names : NameIndex} (hnames : names.symbol? "_ms_message" = some 0)
  (h : 2 < strings.size) {i : Instruction}
  (hi : i = ⟨2, 0x0D, .value 0⟩ ∨ i = ⟨2, 0x00, .target 0 (names.label? 0)⟩)
include hnames h hi

/-- If the instruction after the push of 9 does not push, it is message 9 that is shown. -/
theorem references_wrappedPush : let c := wrappedPush i.code strings messages messageData
    c.references names = (c.shown 7 (i.pushed?.getD 9) none .message).map fun m ↦
      ⟨[(1, 2)], [m]⟩ := by
  intro c
  let front : List Instruction := [⟨0, 0x11, .value 9⟩, i, ⟨7, 0x2D, .call 0 none⟩]
  let back : List Instruction := [⟨0, 0x05, .none⟩, ⟨1, 0x09, .string 2⟩]
  have hfunction : c.functions[0]? = some ⟨"_ms_message", 0, 0, 0⟩ := rfl
  have hconvention : (c.scope names).conventions[0]? = some .stdcall :=
    Array.getElem?_map.trans rfl
  have hpush : (c.scope names).Admits .pushByte (.value .one) (.value 9) := .value (by decide)
  have hcall : (c.scope names).Admits .call .call (.call 0 none) :=
    .call (by decide) hfunction hnames (by rw [hconvention]; decide)
  have hload : (c.scope names).Admits .loadString1 (.string .one) (.string 2) :=
    .string (by decide) h
  have hvalid : (c.scope names).Valid i := by
    obtain rfl | rfl := hi
    · exact .value (by decide)
    · exact .jump (.inr (.inr rfl))
  have hfront : (c.scope names).walk [0x11, 9, i.code, 0, 0, 0, 0, 0x2D, 0, 0, 0, 0] =
      ⟨front, none⟩ := by
    refine Scope.walk_eq_none_iff.2 ⟨?_, List.forall_mem_cons.2 ⟨hpush,
      List.forall_mem_cons.2 ⟨hvalid, List.forall_mem_singleton.2 hcall⟩⟩, ?_⟩
    · obtain rfl | rfl := hi <;> exact ⟨rfl, rfl, rfl, trivial⟩
    · obtain rfl | rfl := hi <;> rfl
  have hback : (c.scope names).walk [0x05, 0x09, 2] = ⟨back, none⟩ :=
    Scope.walk_eq_none_iff.2 ⟨⟨rfl, rfl, trivial⟩,
      List.forall_mem_cons.2 ⟨.bare, List.forall_mem_singleton.2 hload⟩, rfl⟩
  have hcollect : c.collect 0 none (front ++ back) =
      ([⟨7, .message, i.pushed?.getD 9, none⟩].mapM fun call : NativeCall ↦
        c.shown call.address call.push call.load? call.native).map (.mk [(1, 2)]) := by
    obtain rfl | rfl := hi <;> exact Container.collect_eq [] _
  have hlength : ([0x11, 9, i.code, 0, 0, 0, 0, 0x2D, 0, 0, 0, 0] : List UInt8).length ≤
    UInt32.size := Nat.le_of_ble_eq_true rfl
  rw [Container.references_wrapping rfl hlength hfront, hback, hcollect, List.mapM_cons]
  cases c.shown 7 (i.pushed?.getD 9) none .message <;> rfl

theorem references_wrappedPush_eq_ok {text : String}
    (ht : (wrappedPush i.code strings messages messageData).messageText? (i.pushed?.getD 9) =
      some text) :
    (wrappedPush i.code strings messages messageData).references names =
      .ok ⟨[(1, 2)], [⟨7, i.pushed?.getD 9, text⟩]⟩ := by
  rw [references_wrappedPush hnames h hi, Container.shown, ht]
  rfl

theorem references_wrappedPush_eq_error
    (ht : (wrappedPush i.code strings messages messageData).messageText? (i.pushed?.getD 9) =
      none) :
    (wrappedPush i.code strings messages messageData).references names =
      .error (.messageIndex 7 (i.pushed?.getD 9)) := by
  rw [references_wrappedPush hnames h hi, Container.shown, ht]
  rfl

end References

theorem repackStrings_wrappedPush {texts : Std.TreeMap UInt32 String} {text : String}
    (ht : texts[(2 : UInt32)]? = some text) :
    (wrappedPush opcode strings messages messageData).repackStrings [(1, 2)] texts =
      .ok (wrappedPush 0 (terminatedBytes text).toArray messages messageData) := by
  rw [Container.repackStrings_singleton _ ht]
  rfl

end WrappedPush

/-- The entries of ten empty messages, the last of which is outside of the message segment. -/
def outsideEntries : Array MessageEntry := #[⟨0, 0⟩, ⟨0, 0⟩, ⟨0, 0⟩, ⟨0, 0⟩, ⟨0, 0⟩, ⟨0, 0⟩, ⟨0, 0⟩,
  ⟨0, 0⟩, ⟨0, 0⟩, ⟨1, 0⟩]

noncomputable def outsidePush : Container :=
  wrappedPush 0x0D #[0, 0, 0x61, 0, 0, 0] outsideEntries #[]

noncomputable def outsideScript : Script :=
  ⟨outsidePush, .ofContainer outsidePush, ⟨[(1, 2)], [⟨7, 0, ""⟩]⟩⟩

/-- The script when the last message has been given a letter, and with it a place in the segment. -/
noncomputable def editedScript : Script :=
  { outsideScript with
    container := wrappedPush 0x0D #[0, 0, 0x61, 0, 0, 0] (outsideEntries.set 9 ⟨0, 2⟩) #[0x78, 0] }

theorem symbol?_outsideScript : outsideScript.names.symbol? "_ms_message" = some 0 := by
  rw [outsideScript, NameIndex.symbol?_ofContainer]
  decide

theorem ofContainer_outsidePush : Script.ofContainer outsidePush = .ok outsideScript := by
  have htext : outsidePush.messageText? 0 = some "" := by decide
  exact Script.ofContainer_eq_ok_iff.2 ⟨rfl, rfl,
    references_wrappedPush_eq_ok symbol?_outsideScript (by decide) (.inl rfl) htext⟩

theorem importMessages_outsideScript :
    outsideScript.importMessages "◆9◆x\n" = .ok editedScript := by
  let texts := List.replicate 9 "" ++ ["x"]
  have hfacts : (TextSheet.readMessages "◆9◆x\n" 10).toOption = some [(9, "x")] ∧
      (outsideScript.editedMessages [(9, "x")]).toOption = some texts ∧
      (layOutFrom 0 (outsideScript.container.messagePieces texts)).toOption =
        some editedScript.container.messages.toList ∧
      (outsideScript.container.messagePieces texts).flatten = [0x78, 0] ∧
      editedScript.container.messageText? 0 = some "" := by decide
  obtain ⟨hedits, htexts, hentries, hdata, htext⟩ := hfacts
  have hrefs := references_wrappedPush_eq_ok symbol?_outsideScript (by decide) (.inl rfl) htext
  refine Script.importMessages_eq_ok_iff.2 ⟨_, texts, editedScript.container,
    toOption_eq_some_iff.1 hedits, toOption_eq_some_iff.1 htexts,
    Container.repackMessages_eq_ok_iff.2 ⟨rfl, _, toOption_eq_some_iff.1 hentries, ?_⟩,
    Script.commit_eq_ok_iff.2 ⟨rfl, rfl, hrefs⟩⟩
  rw [hdata]
  rfl

theorem edits_outsideScript :
    TextSheet.readStrings "" (.ofList (outsideScript.strings.map Prod.fst)) = .ok [] ∧
      (outsideScript.editedStrings [])[(2 : UInt32)]? = some "a" ∧
      2 < (terminatedBytes "a").toArray.size := by
  rw [← toOption_eq_some_iff]
  decide

theorem importStrings_outsideScript :
    outsideScript.importStrings "" = .error (.decode (.messageIndex 7 9)) := by
  obtain ⟨hsheet, htext, hlarge⟩ := edits_outsideScript
  have hnone : (wrappedPush 0 (terminatedBytes "a").toArray outsideEntries #[]).messageText? 9 =
    none := by decide
  have hrefs := references_wrappedPush_eq_error symbol?_outsideScript hlarge (.inr rfl) hnone
  exact Script.importStrings_eq_error_of_references hsheet (repackStrings_wrappedPush htext) hrefs

theorem exists_importStrings_editedScript : ∃ s, editedScript.importStrings "" = .ok s := by
  obtain ⟨hsheet, htext, hlarge⟩ := edits_outsideScript
  let moved := wrappedPush 0 (terminatedBytes "a").toArray (outsideEntries.set 9 ⟨0, 2⟩) #[0x78, 0]
  have hmessage : moved.messageText? 9 = some "x" := by decide
  have hrefs := references_wrappedPush_eq_ok symbol?_outsideScript hlarge (.inr rfl) hmessage
  obtain ⟨s, hcommit⟩ : ∃ s, editedScript.commit moved = .ok s :=
    Script.exists_commit_of_references hrefs
  exact ⟨s, Script.importStrings_eq_ok_iff.2
    ⟨_, moved, hsheet, repackStrings_wrappedPush htext, hcommit⟩⟩

/-- In code of more than 4 GiB an import of strings may change which message is shown, and then it
fails unless a message has been imported before. -/
theorem imports_commute_outsidePush :
    ∃ s, Script.ofContainer outsidePush = .ok s ∧
      ((attemptBoth (.messages "◆9◆x\n") (.strings "")).run s).1 = (.ok (), .ok ()) ∧
      ((attemptBoth (.strings "") (.messages "◆9◆x\n")).run s).1 =
        (.error (.decode (.messageIndex 7 9)), .ok ()) := by
  obtain ⟨s, hmoved⟩ := exists_importStrings_editedScript
  have hrun : ∀ (s : Script) (call : ImportCall), (attempt call).run s = settled s (call.apply s) :=
    fun s call ↦ runOn_perform call s
  refine ⟨outsideScript, ofContainer_outsidePush, ?_, ?_⟩
  · rw [run_attemptBoth
      ((hrun _ (.messages _)).trans (congrArg (settled _) importMessages_outsideScript))
      ((hrun _ (.strings _)).trans (congrArg (settled _) hmoved))]
  · rw [run_attemptBoth
      ((hrun _ (.strings _)).trans (congrArg (settled _) importStrings_outsideScript))
      ((hrun _ (.messages _)).trans (congrArg (settled _) importMessages_outsideScript))]

end InPlace

end NovelScript
