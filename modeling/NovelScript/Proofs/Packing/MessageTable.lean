import NovelScript.Packing.Messages
import NovelScript.Proofs.Outcome

/-!
Rebuilding the message segment. The entries follow each other without a gap, one for each piece
(`layOutFrom_eq_ok_iff`), and nothing outside the message table and the message segment changes.
-/

namespace NovelScript

open Outcome

/-- Entries that follow each other from one place to another. -/
def Tiled : Nat → List MessageEntry → Nat → Prop
  | start, [], stop => start = stop
  | start, e :: later, stop => e.offset.toNat = start ∧ Tiled (start + e.length.toNat) later stop

theorem Tiled.le {start stop : Nat} {es : List MessageEntry} (h : Tiled start es stop) :
    start ≤ stop ∧ ∀ e ∈ es, e.offset.toNat + e.length.toNat ≤ stop := by
  induction es generalizing start with
  | nil => exact ⟨Nat.le_of_eq h, fun e he ↦ by cases he⟩
  | cons e later ih =>
    obtain ⟨rfl, hlater⟩ := h
    obtain ⟨hle, hall⟩ := ih hlater
    exact ⟨by omega, List.forall_mem_cons.2 ⟨hle, hall⟩⟩

/-- Pieces can be laid out if 32-bit offsets can address them, and then the entries are those of
their lengths. -/
theorem layOutFrom_eq_ok_iff {start : Nat} {pieces : List (List UInt8)} {es : List MessageEntry} :
    layOutFrom start pieces = .ok es ↔
      start + pieces.flatten.length < UInt32.size ∧
        Tiled start es (start + pieces.flatten.length) ∧
        es.map (·.length.toNat) = pieces.map List.length := by
  induction pieces generalizing start es with
  | nil =>
    rw [layOutFrom]
    split
    · rename_i hlt
      cases es with
      | nil => simp [Tiled, hlt]
      | cons e later => simp
    · rename_i hlt
      simp [hlt]
  | cons piece later ih =>
    have htotal : start + (piece :: later).flatten.length =
        start + piece.length + later.flatten.length := by
      rw [List.flatten_cons, List.length_append, Nat.add_assoc]
    rw [layOutFrom, htotal]
    split
    · rename_i hlarge
      constructor
      · intro h
        cases h
      · intro h
        omega
    · rename_i hsmall
      rw [not_or, Nat.not_le, Nat.not_le] at hsmall
      simp only [bind_eq_ok_iff, pure_eq_ok_iff, ih]
      constructor
      · intro h
        obtain ⟨found, ⟨hlt, htiled, hlengths⟩, rfl⟩ := h
        have hlength := UInt32.toNat_ofNat_of_lt' hsmall.2
        refine ⟨hlt, ⟨UInt32.toNat_ofNat_of_lt' hsmall.1, ?_⟩, ?_⟩
        · rw [hlength]
          exact htiled
        · rw [List.map_cons, List.map_cons, hlength, hlengths]
      · intro h
        obtain ⟨hlt, htiled, hlengths⟩ := h
        cases es with
        | nil => cases hlengths
        | cons e found =>
          rw [List.map_cons, List.map_cons, List.cons.injEq] at hlengths
          obtain ⟨hlength, hlengths⟩ := hlengths
          obtain ⟨hoffset, htiled⟩ := htiled
          rw [hlength] at htiled
          refine ⟨found, ⟨hlt, htiled, hlengths⟩, ?_⟩
          rw [← hoffset, ← hlength, UInt32.ofNat_toNat, UInt32.ofNat_toNat]

namespace Container

variable {c c' : Container} {texts : List String}

/-- The bytes of each entry of a rebuilt message segment. -/
def messagePieces (c : Container) (texts : List String) : List (List UInt8) :=
  texts.mapIdx c.messagePiece

theorem repackMessages_eq_ok_iff :
    c.repackMessages texts = .ok c' ↔ texts.length = c.messages.size ∧
      ∃ es, layOutFrom 0 (c.messagePieces texts) = .ok es ∧
        c' = { c with
          messages := es.toArray
          messageData := (c.messagePieces texts).flatten.toArray } := by
  unfold repackMessages
  split
  · rename_i hcount
    constructor
    · intro h
      cases h
    · intro h
      exact absurd h.1 hcount
  · rename_i hcount
    rw [bind_eq_ok_iff]
    simp only [pure_eq_ok_iff]
    exact (and_iff_right (Decidable.not_not.1 hcount)).symm

theorem repackMessages_eq_ok (h : c.repackMessages texts = .ok c') :
    c' = { c with messages := c'.messages, messageData := c'.messageData } ∧
      c'.messages.size = c.messages.size ∧ c'.messageData.size < UInt32.size := by
  obtain ⟨hcount, es, hes, rfl⟩ := repackMessages_eq_ok_iff.1 h
  obtain ⟨hlt, -, hlengths⟩ := layOutFrom_eq_ok_iff.1 hes
  have hpieces : (c.messagePieces texts).length = c.messages.size := by
    rw [messagePieces, List.length_mapIdx, hcount]
  have hsize := congrArg List.length hlengths
  rw [List.length_map, List.length_map, hpieces] at hsize
  rw [Nat.zero_add] at hlt
  exact ⟨rfl, hsize, hlt⟩

end Container

end NovelScript
