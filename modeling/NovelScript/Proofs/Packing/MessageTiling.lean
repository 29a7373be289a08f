import NovelScript.Proofs.Packing.MessageTable
import NovelScript.Proofs.Text.Spans

/-!
The bytes of entries in a rebuilt message segment: each entry has its own piece
(`exists_entry_of_repackMessages`). Rebuilding from own texts gives back the segment and the table
where the entries follow each other without a gap and their texts are read without loss.
-/

namespace NovelScript

open Outcome

/-- A text without its terminator, and the terminator again. -/
theorem toBytes_ofBytes_terminator {bytes : List UInt8} (h : bytes.length % 2 = 0)
    (hp : Utf16.isPaired (Utf16.units bytes) = true) :
    textBytes (endsInTerminator bytes) (bareText bytes) = bytes := by
  cases hends : endsInTerminator bytes with
  | false =>
    rw [bareText, hends, if_neg Bool.false_ne_true, textBytes, if_neg Bool.false_ne_true,
      List.append_nil, Utf16.toBytes_ofBytes h hp]
  | true =>
    obtain ⟨us, rfl, -⟩ := endsInTerminator_iff.1 hends
    have hunits : Utf16.units (Utf16.unitBytes us ++ [0, 0]) = us ++ [0] :=
      Utf16.units_unitBytes_append us [0, 0]
    have hpaired : Utf16.isPaired (Utf16.units (Utf16.unitBytes us)) = true := by
      rw [Utf16.units_unitBytes]
      exact Utf16.isPaired_of_concat_zero (hunits ▸ hp)
    rw [bareText_of_terminated hends, textBytes, if_pos rfl,
      Utf16.toBytes_ofBytes (even_unitBytes us) hpaired]

namespace Container

variable {c : Container}

/-- The bytes of an entry that lies inside the message segment. -/
def entryBytes (c : Container) (e : MessageEntry) : List UInt8 :=
  (c.messageData.toList.drop e.offset.toNat).take e.length.toNat

theorem entryBytes?_eq_some {e : MessageEntry}
    (h : e.offset.toNat + e.length.toNat ≤ c.messageData.size) :
    c.entryBytes? e = some (c.entryBytes e) := by
  rw [entryBytes?, if_pos h, Array.toList_extract, List.extract_eq_take_drop,
    Nat.add_sub_cancel_left, entryBytes]

theorem length_entryBytes {e : MessageEntry}
    (h : e.offset.toNat + e.length.toNat ≤ c.messageData.size) :
    (c.entryBytes e).length = e.length.toNat := by
  rw [entryBytes, List.length_take, List.length_drop, Array.length_toList]
  omega

theorem entryText?_eq_map (e : MessageEntry) : c.entryText? e = (c.entryBytes? e).map bareText :=
  rfl

/-- What an entry inside the message segment holds. -/
theorem exists_entryBytes {e : MessageEntry} {text : String} (h : c.entryText? e = some text) :
    ∃ bytes, c.entryBytes? e = some bytes ∧ text = bareText bytes ∧
      c.entryTerminated e = endsInTerminator bytes ∧ bytes.length = e.length.toNat := by
  obtain ⟨bytes, hbytes, rfl⟩ := Option.map_eq_some_iff.1 h
  refine ⟨bytes, hbytes, rfl, by rw [entryTerminated, hbytes, Option.any_some], ?_⟩
  have hbytes' := hbytes
  unfold entryBytes? at hbytes
  dsimp only at hbytes
  split at hbytes
  · rename_i hle
    rw [entryBytes?_eq_some hle] at hbytes'
    rw [← Option.some.inj hbytes', length_entryBytes hle]
  · cases hbytes

theorem messageText?_of_getElem? {index : UInt32} {e : MessageEntry} {bytes : List UInt8}
    (he : c.messages[index.toNat]? = some e) (hbytes : c.entryBytes? e = some bytes) :
    c.messageText? index = some (bareText bytes) ∧
      c.messageTerminated index = endsInTerminator bytes := by
  rw [messageText?, messageTerminated, he, Option.bind_some, Option.any_some, entryText?_eq_map,
    entryTerminated, hbytes]
  exact ⟨rfl, rfl⟩

/-- Without an entry there is neither a text nor a terminator. -/
theorem messageText?_of_le {index : UInt32} (h : c.messages.size ≤ index.toNat) :
    c.messageText? index = none ∧ c.messageTerminated index = false := by
  rw [messageText?, messageTerminated, Array.getElem?_eq_none h]
  exact ⟨rfl, rfl⟩

/-- The word of a place does not wrap in a table of at most 2 ^ 32 entries. -/
theorem message_ofNat (hsize : c.messages.size ≤ UInt32.size) {p : Nat} {e : MessageEntry}
    (he : c.messages[p]? = some e) :
    c.messageText? (.ofNat p) = c.entryText? e ∧
      c.messageTerminated (.ofNat p) = c.entryTerminated e := by
  obtain ⟨hlt, -⟩ := Array.getElem?_eq_some_iff.1 he
  rw [messageText?, messageTerminated, UInt32.toNat_ofNat_of_lt' (Nat.lt_of_lt_of_le hlt hsize), he]
  exact ⟨rfl, rfl⟩

/-- The texts of the messages, where a message outside of the segment has an empty one. -/
def ownTexts (c : Container) : List String :=
  c.messages.toList.map fun e ↦ (c.entryText? e).getD ""

/-- The bytes of an entry that is written again with its own text. -/
def rewrittenBytes (c : Container) (e : MessageEntry) : List UInt8 :=
  textBytes (c.entryTerminated e) ((c.entryText? e).getD "")

theorem messagePieces_ownTexts (hsize : c.messages.size ≤ UInt32.size) :
    c.messagePieces c.ownTexts = c.messages.toList.map c.rewrittenBytes := by
  apply List.ext_getElem?
  intro p
  rw [messagePieces, ownTexts, List.getElem?_mapIdx, List.getElem?_map, List.getElem?_map,
    Array.getElem?_toList]
  cases he : c.messages[p]? with
  | none => rfl
  | some e =>
    obtain ⟨-, hterminated⟩ := message_ofNat hsize he
    rw [Option.map_some, Option.map_some, Option.map_some, messagePiece, hterminated]
    rfl

/-- The message table and segment of a container that are laid out like rebuilt ones. -/
structure MessagesTidy (c : Container) : Prop where
  tiled : Tiled 0 c.messages.toList c.messageData.size
  even : ∀ e ∈ c.messages, e.length.toNat % 2 = 0
  paired : ∀ e ∈ c.messages, ∀ bytes, c.entryBytes? e = some bytes →
    Utf16.isPaired (Utf16.units bytes) = true

/-- Entries that follow each other cover the segment. -/
theorem flatten_entryBytes {start : Nat} {es : List MessageEntry}
    (h : Tiled start es c.messageData.size) :
    (es.map c.entryBytes).flatten = c.messageData.toList.drop start := by
  induction es generalizing start with
  | nil =>
    rw [Tiled] at h
    rw [h, ← Array.length_toList, List.drop_length]
    rfl
  | cons e later ih =>
    obtain ⟨rfl, hlater⟩ := h
    rw [List.map_cons, List.flatten_cons, ih hlater, entryBytes, ← List.drop_drop,
      List.take_append_drop]

theorem MessagesTidy.entryText? (h : c.MessagesTidy) {e : MessageEntry} (he : e ∈ c.messages) :
    (c.entryText? e).isSome ∧ c.rewrittenBytes e = c.entryBytes e := by
  have hle := (Tiled.le h.tiled).2 e (Array.mem_toList_iff.2 he)
  have hbytes := entryBytes?_eq_some hle
  have heven : (c.entryBytes e).length % 2 = 0 := by
    rw [length_entryBytes hle]
    exact h.even e he
  have hback := toBytes_ofBytes_terminator heven (h.paired e he _ hbytes)
  rw [rewrittenBytes, entryTerminated, Container.entryText?, hbytes]
  exact ⟨rfl, hback⟩

/-- The bytes of entries that follow each other are the pieces of which the segment is made. -/
theorem map_entryBytes {start : Nat} {es : List MessageEntry} {pieces : List (List UInt8)}
    (h : Tiled start es c.messageData.size)
    (hlengths : es.map (·.length.toNat) = pieces.map List.length)
    (hdata : c.messageData.toList.drop start = pieces.flatten) : es.map c.entryBytes = pieces := by
  induction es generalizing start pieces with
  | nil =>
    cases pieces with
    | nil => rfl
    | cons piece pieces => cases hlengths
  | cons e later ih =>
    cases pieces with
    | nil => cases hlengths
    | cons piece pieces =>
      obtain ⟨rfl, hlater⟩ := h
      rw [List.map_cons, List.map_cons, List.cons.injEq] at hlengths
      obtain ⟨hlength, hlengths⟩ := hlengths
      rw [List.flatten_cons] at hdata
      have hrest : c.messageData.toList.drop (e.offset.toNat + e.length.toNat) =
          pieces.flatten := by
        rw [← List.drop_drop, hdata, hlength, List.drop_left]
      rw [List.map_cons, ih hlater hlengths hrest, entryBytes, hdata, hlength, List.take_left]

/-- An entry of a rebuilt segment has the bytes of its new text. -/
theorem exists_entry_of_repackMessages {c' : Container} {texts : List String}
    (h : c.repackMessages texts = .ok c') {p : Nat} {text : String} (ht : texts[p]? = some text) :
    ∃ e', c'.messages[p]? = some e' ∧ c'.entryBytes? e' = some (c.messagePiece p text) := by
  obtain ⟨-, es, hes, rfl⟩ := repackMessages_eq_ok_iff.1 h
  obtain ⟨-, htiled, hlengths⟩ := layOutFrom_eq_ok_iff.1 hes
  let c' : Container := { c with
    messages := es.toArray
    messageData := (c.messagePieces texts).flatten.toArray }
  have hsize : c'.messageData.size = 0 + (c.messagePieces texts).flatten.length :=
    (Nat.zero_add _).symm
  rw [← hsize] at htiled
  have hbytes : es.map c'.entryBytes = c.messagePieces texts := map_entryBytes htiled hlengths rfl
  have hpiece : (c.messagePieces texts)[p]? = some (c.messagePiece p text) := by
    rw [messagePieces, List.getElem?_mapIdx, ht, Option.map_some]
  rw [← hbytes, List.getElem?_map] at hpiece
  obtain ⟨e', he', hown⟩ := Option.map_eq_some_iff.1 hpiece
  refine ⟨e', by rw [List.getElem?_toArray, he'], ?_⟩
  rw [← hown]
  exact entryBytes?_eq_some (htiled.le.2 e' (List.mem_of_getElem? he'))

theorem tiled_of_repackMessages {c' : Container} {texts : List String}
    (h : c.repackMessages texts = .ok c') :
    Tiled 0 c'.messages.toList c'.messageData.size := by
  obtain ⟨-, es, hes, rfl⟩ := repackMessages_eq_ok_iff.1 h
  obtain ⟨-, htiled, -⟩ := layOutFrom_eq_ok_iff.1 hes
  rwa [Nat.zero_add] at htiled

/-- A tidy message segment is rebuilt from its own texts as it is. -/
theorem MessagesTidy.repackMessages (h : c.MessagesTidy)
    (hsize : c.messages.size ≤ UInt32.size) (hlt : c.messageData.size < UInt32.size) :
    c.repackMessages c.ownTexts = .ok c := by
  have hpieces : c.messagePieces c.ownTexts = c.messages.toList.map c.entryBytes := by
    rw [messagePieces_ownTexts hsize]
    exact List.map_congr_left fun e he ↦ (h.entryText? (Array.mem_toList_iff.1 he)).2
  have hlengths : c.messages.toList.map (·.length.toNat) =
      (c.messages.toList.map c.entryBytes).map List.length := by
    rw [List.map_map]
    exact List.map_congr_left fun e he ↦ (length_entryBytes ((Tiled.le h.tiled).2 e he)).symm
  have hbytes := flatten_entryBytes h.tiled
  rw [List.drop_zero] at hbytes
  have hentries : layOutFrom 0 (c.messages.toList.map c.entryBytes) = .ok c.messages.toList := by
    rw [layOutFrom_eq_ok_iff, hbytes, Array.length_toList, Nat.zero_add]
    exact ⟨hlt, h.tiled, hlengths⟩
  rw [repackMessages_eq_ok_iff, hpieces, hbytes]
  exact ⟨by rw [ownTexts, List.length_map, Array.length_toList], _, hentries, rfl⟩

end Container

end NovelScript
