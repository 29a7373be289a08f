import NovelScript.FileSystem
import NovelScript.Proofs.Outcome

/-!
Writing a file replaces the file at one place, under every path that leads there. All other files
stay as they are (`replaced_of_write`).
-/

namespace NovelScript.FileSystem

open Outcome

/-- The bytes of each file by its paths. -/
def contents (fs : FileSystem) (path : String) : Option (List UInt8) := (fs.read path).toOption

/-- One file has been replaced or made. -/
structure Replaced (before after : FileSystem) (path : String) (bytes : List UInt8) : Prop where
  node : ∃ place, before.place path = .ok place ∧ after.node? place = some (.file bytes) ∧
    ∀ other ≠ place, after.node? other = before.node? other
  same : ∀ p, before.place p = before.place path → after.contents p = some bytes
  other : ∀ p, before.place p ≠ before.place path → after.contents p = before.contents p

variable {fs fs' : FileSystem}

theorem node?_set_self {place : Place} (node : Node) (h : place.isAbove = false) :
    (fs.set place node).node? place = some node := by
  rw [node?, if_neg (by rw [h]; exact Bool.false_ne_true), set, List.lookup_cons_self]

theorem lookup_filter_ne {place other : Place} (nodes : List (Place × Node)) (h : other ≠ place) :
    (nodes.filter (·.1 ≠ place)).lookup other = nodes.lookup other := by
  induction nodes with
  | nil => rfl
  | cons entry later ih =>
    obtain ⟨p, n⟩ := entry
    rw [List.filter_cons, List.lookup_cons]
    by_cases hp : p = place
    · rw [if_neg (by simp [hp]), ih, beq_false_of_ne (by rwa [hp])]
    · rw [if_pos (by simp [hp]), List.lookup_cons, ih]

theorem node?_set_of_ne {place other : Place} (node : Node) (h : other ≠ place) :
    (fs.set place node).node? other = fs.node? other := by
  rw [node?, node?, set, List.lookup_cons, beq_false_of_ne h, lookup_filter_ne _ h]

/-- A path is followed through directories only. -/
theorem follow_of_directories
    (h : ∀ place, fs.node? place = some .directory → fs'.node? place = some .directory)
    {start place : Place} {names : List String} (hf : fs.follow start names = .ok place) :
    fs'.follow start names = .ok place := by
  induction names generalizing start with
  | nil => exact hf
  | cons name rest ih =>
    rw [follow] at hf ⊢
    split at hf
    · cases hf
    · cases hf
    · rename_i hdirectory
      rw [h start hdirectory]
      dsimp only
      split at hf
      · rw [if_pos ‹_›]
        exact ih hf
      · rw [if_neg ‹_›]
        split at hf
        · rw [if_pos ‹_›]
          exact ih hf
        · rw [if_neg ‹_›]
          split at hf
          · cases hf
          · rw [if_neg ‹_›]
            exact ih hf

theorem place_of_directories
    (h : ∀ place, fs.node? place = some .directory → fs'.node? place = some .directory)
    {path : String} {place : Place} (hp : fs.place path = .ok place) :
    fs'.place path = .ok place := by
  obtain ⟨start, hstart, hf⟩ := bind_eq_ok_iff.1 hp
  exact bind_eq_ok_iff.2 ⟨start, hstart, follow_of_directories h hf⟩

theorem get_eq_ok_iff {path : String} {node : Node} :
    fs.get path = .ok node ↔
      ∃ place, fs.place path = .ok place ∧ fs.node? place = some node := by
  rw [get, bind_eq_ok_iff]
  refine exists_congr fun place ↦ and_congr_right fun _ ↦ ?_
  cases fs.node? place with
  | none => simp [throw, throwThe, MonadExceptOf.throw]
  | some found => simp [pure, Except.pure]

theorem read_eq_ok_iff {path : String} {bytes : List UInt8} :
    fs.read path = .ok bytes ↔
      ∃ place, fs.place path = .ok place ∧ fs.node? place = some (.file bytes) := by
  rw [← get_eq_ok_iff, read, bind_eq_ok_iff]
  refine ⟨fun h ↦ ?_, fun h ↦ ⟨_, h, rfl⟩⟩
  obtain ⟨node, hnode, h⟩ := h
  cases node with
  | file found =>
    cases h
    exact hnode
  | directory => cases h

theorem contents_of_not_isFile {path : String} (h : fs.isFile path = false) :
    fs.contents path = none := by
  rw [isFile] at h
  rw [contents, toOption_eq_none_iff, read]
  cases hget : fs.get path with
  | error e => exact ⟨e, rfl⟩
  | ok node =>
    rw [hget] at h
    cases node with
    | file bytes => cases h
    | directory => exact ⟨.isADirectory, rfl⟩

theorem openPlace_eq_ok {path : String} {place : Place} {before : List UInt8}
    (h : fs.openPlace path = .ok (place, before)) :
    fs.place path = .ok place ∧ fs.node? place ≠ some .directory := by
  obtain ⟨found, hnew, h⟩ := bind_eq_ok_iff.1 h
  have hplace : fs.place path = .ok found := by
    rw [newPlace] at hnew
    dsimp only at hnew
    split at hnew
    · exact hnew
    · obtain ⟨_, -, hnew⟩ := bind_eq_ok_iff.1 hnew
      obtain ⟨_, -, hnew⟩ := bind_eq_ok_iff.1 hnew
      cases hnew
  split at h
  · cases h
  · rename_i hnode
    cases h
    exact ⟨hplace, by rw [hnode]; nofun⟩
  · rename_i hnode
    cases h
    exact ⟨hplace, by rw [hnode]; nofun⟩

/-- A write that succeeds has replaced or made a file. -/
theorem replaced_of_write {path : String} {bytes : List UInt8}
    (h : fs.write path bytes = .ok fs') : fs.Replaced fs' path bytes := by
  obtain ⟨⟨place, before⟩, hopen, h⟩ := bind_eq_ok_iff.1 h
  obtain ⟨hplace, hfile⟩ := openPlace_eq_ok hopen
  cases h
  have habove : place.isAbove = false := Bool.eq_false_iff.2 fun habove ↦ hfile (if_pos habove)
  have hself : (fs.set place (.file bytes)).node? place = some (.file bytes) :=
    node?_set_self _ habove
  have hother : ∀ other ≠ place, (fs.set place (.file bytes)).node? other = fs.node? other :=
    fun other hne ↦ node?_set_of_ne _ hne
  -- the directories stay, so every path leads where it led
  have hdirectory : ∀ p, (fs.set place (.file bytes)).node? p = some .directory ↔
      fs.node? p = some .directory := by
    intro p
    by_cases hp : p = place
    · rw [hp, hself]
      exact ⟨nofun, fun h ↦ absurd h hfile⟩
    · rw [hother p hp]
  have hpath : ∀ p q, (fs.set place (.file bytes)).place p = .ok q ↔ fs.place p = .ok q :=
    fun p q ↦ ⟨place_of_directories fun q ↦ (hdirectory q).1,
      place_of_directories fun q ↦ (hdirectory q).2⟩
  refine ⟨⟨place, hplace, hself, hother⟩, fun p hp ↦ ?_, fun p hp ↦ ?_⟩
  · rw [contents, toOption_eq_some_iff, read_eq_ok_iff]
    exact ⟨place, (hpath p place).2 (hp.trans hplace), hself⟩
  · refine Option.ext fun b ↦ ?_
    rw [contents, contents, toOption_eq_some_iff, toOption_eq_some_iff, read_eq_ok_iff,
      read_eq_ok_iff]
    refine exists_congr fun q ↦ ?_
    rw [hpath]
    refine and_congr_right fun hq ↦ ?_
    rw [hother q fun he ↦ hp (by rw [hq, hplace, he])]

end NovelScript.FileSystem
