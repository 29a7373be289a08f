import NovelScript.Packing.Strings
import NovelScript.Proofs.Outcome
import NovelScript.Proofs.Text.NullFree

/-!
Where strings lie after packing. They follow each other without a gap, in an order that has each
of them once, and each is found again at its new offset.
-/

namespace NovelScript

open Outcome

/-- A text as it stands in the string segment. -/
def terminatedBytes (text : String) : List UInt8 := Utf16.toBytes text ++ [0, 0]

/-- The strings of these offsets follow each other from the start of the segment. -/
structure Layout (textOf : UInt32 → String) (move : UInt32 → UInt32) (order : List UInt32)
    (segment : List UInt8) : Prop where
  segment_eq : segment = order.flatMap fun old ↦ terminatedBytes (textOf old)
  start : ∀ before old after, order = before ++ old :: after →
    (move old).toNat = (before.flatMap fun old ↦ terminatedBytes (textOf old)).length

namespace Layout

variable {textOf : UInt32 → String} {move : UInt32 → UInt32} {order : List UInt32}
  {segment : List UInt8}

theorem drop_eq (h : Layout textOf move order segment) {old : UInt32} (ho : old ∈ order) :
    ∃ rest, segment.drop (move old).toNat = terminatedBytes (textOf old) ++ rest := by
  obtain ⟨before, after, rfl⟩ := List.append_of_mem ho
  refine ⟨after.flatMap fun old ↦ terminatedBytes (textOf old), ?_⟩
  rw [h.segment_eq, h.start before old after rfl, List.flatMap_append, List.drop_left,
    List.flatMap_cons]

theorem lt_length (h : Layout textOf move order segment) {old : UInt32} (ho : old ∈ order) :
    (move old).toNat < segment.length := by
  obtain ⟨rest, hd⟩ := h.drop_eq ho
  have hl := congrArg List.length hd
  simp only [List.length_drop, List.length_append, terminatedBytes, List.length_cons] at hl
  omega

theorem move_lt (h : Layout textOf move order segment) {before between after : List UInt32}
    {a b : UInt32} (ho : order = before ++ a :: (between ++ b :: after)) :
    (move a).toNat < (move b).toNat := by
  have ha := h.start before a _ ho
  have hb := h.start (before ++ a :: between) b after (by rw [ho]; simp)
  simp only [List.flatMap_append, List.flatMap_cons, List.length_append, terminatedBytes,
    List.length_cons] at ha hb
  omega

theorem move_inj (h : Layout textOf move order segment) {a b : UInt32} (ha : a ∈ order)
    (hb : b ∈ order) (he : move a = move b) : a = b := by
  obtain ⟨before, after, ho⟩ := List.append_of_mem ha
  rw [ho, List.mem_append, List.mem_cons] at hb
  rcases hb with hb | rfl | hb
  · obtain ⟨first, between, rfl⟩ := List.append_of_mem hb
    have hlt : (move b).toNat < (move a).toNat := h.move_lt (ho.trans (List.append_assoc ..))
    rw [he] at hlt
    omega
  · rfl
  · obtain ⟨between, last, rfl⟩ := List.append_of_mem hb
    have hlt : (move a).toNat < (move b).toNat := h.move_lt ho
    rw [he] at hlt
    omega

theorem stringAt_move {c : Container} (h : Layout textOf move order c.strings.toList)
    {old : UInt32} (ho : old ∈ order) (hn : NullFree (textOf old).toList) :
    c.stringAt (move old) = textOf old := by
  obtain ⟨rest, hd⟩ := h.drop_eq ho
  rw [terminatedBytes, List.append_assoc] at hd
  exact c.stringAt_of_drop hn hd

end Layout

namespace PackedString

/-- The text of an offset, to be laid out. -/
def ofText (textOf : UInt32 → String) (old : UInt32) : PackedString :=
  ⟨old, Utf16.toBytes (textOf old)⟩

theorem bucket_perm (w : Width) (strings : List PackedString) :
    (bucket w strings).Perm (strings.filter (Width.ofOffset ·.old.toNat = w)) := by
  have hsort := (List.mergeSort_perm ((strings.filter (Width.ofOffset ·.old.toNat = w)).map
    fun s ↦ (s.bytes.length, s)) fun a b ↦ a.1 ≤ b.1).map Prod.snd
  rwa [List.map_map, List.map_id''] at hsort
  exact fun _ ↦ rfl

/-- The buckets have each string once. -/
theorem order_perm (strings : List PackedString) : (order strings).Perm strings := by
  have hbuckets := ((bucket_perm .one strings).append (bucket_perm .two strings)).append
    (bucket_perm .four strings)
  apply hbuckets.trans
  clear hbuckets
  induction strings with
  | nil => exact .nil
  | cons s later ih =>
    simp only [List.filter_cons]
    cases Width.ofOffset s.old.toNat with
    | one => exact ih.cons s
    | two =>
      simp only [reduceCtorEq, decide_false, decide_true, Bool.false_eq_true, if_false, if_true,
        List.append_assoc, List.cons_append] at ih ⊢
      exact List.perm_middle.trans (ih.cons s)
    | four =>
      simp only [reduceCtorEq, decide_false, decide_true, Bool.false_eq_true, if_false, if_true]
      exact List.perm_middle.trans (ih.cons s)

theorem movesFrom_eq_ok {offset : Nat} {strings : List PackedString}
    {moves : List (UInt32 × UInt32)} (h : movesFrom offset strings = .ok moves) :
    moves.map Prod.fst = strings.map (·.old) ∧
      ∀ before s after, strings = before ++ s :: after → ∃ new, (s.old, new) ∈ moves ∧
        new.toNat = offset + (before.flatMap (·.terminated)).length := by
  induction strings generalizing offset moves with
  | nil =>
    cases h
    exact ⟨rfl, fun before s after he ↦ by cases before <;> simp at he⟩
  | cons t later ih =>
    rw [movesFrom] at h
    split at h
    · cases h
    · rename_i hlt
      obtain ⟨found, hfound, hpure⟩ := bind_eq_ok_iff.1 h
      obtain rfl := pure_eq_ok_iff.1 hpure
      obtain ⟨hkeys, hstart⟩ := ih hfound
      refine ⟨by rw [List.map_cons, List.map_cons, hkeys], fun before s after he ↦ ?_⟩
      cases before with
      | nil =>
        obtain ⟨rfl, -⟩ := List.cons.inj he
        refine ⟨_, List.mem_cons_self, ?_⟩
        exact UInt32.toNat_ofNat_of_lt' (Nat.not_le.1 hlt)
      | cons u before =>
        obtain ⟨rfl, htail⟩ := List.cons.inj he
        obtain ⟨new, hmem, hnew⟩ := hstart before s after htail
        refine ⟨new, List.mem_cons_of_mem _ hmem, ?_⟩
        rw [hnew, List.flatMap_cons, List.length_append, Nat.add_assoc]

/-- Packing succeeds on the strings that have a text. -/
theorem collectStrings_eq_ok_iff {refs : List (UInt32 × UInt32)} {texts : Std.TreeMap UInt32 String}
    {strings : List PackedString} :
    collectStrings refs texts = .ok strings ↔
      (∀ old ∈ ascending (refs.map Prod.snd), texts[old]?.isSome) ∧
        strings = (ascending (refs.map Prod.snd)).map (ofText fun old ↦ texts[old]?.getD "") := by
  refine mapM_eq_ok_iff (fun old _ s ↦ ?_) strings
  cases h : texts[old]? with
  | none => simp
  | some text => simp [ofText, h, eq_comm]

/-- Strings to be laid out are told apart by their offsets. -/
theorem order_map_ofText (textOf : UInt32 → String) (offsets : List UInt32) :
    ∃ order' : List UInt32, order'.Perm offsets ∧
      order (offsets.map (ofText textOf)) = order'.map (ofText textOf) := by
  have hperm := order_perm (offsets.map (ofText textOf))
  refine ⟨(order (offsets.map (ofText textOf))).map (·.old), ?_, ?_⟩
  · have hmap := hperm.map (·.old)
    rwa [List.map_map, List.map_id''] at hmap
    exact fun _ ↦ rfl
  · rw [List.map_map]
    refine (List.map_id _).symm.trans (List.map_congr_left fun s hs ↦ ?_)
    obtain ⟨old, -, rfl⟩ := List.mem_map.1 (hperm.mem_iff.1 hs)
    rfl

theorem layout_of_movesFrom {textOf : UInt32 → String} {order' : List UInt32}
    (hd : order'.Nodup) {moves : List (UInt32 × UInt32)}
    (hm : movesFrom 0 (order'.map (ofText textOf)) = .ok moves) :
    (∀ old ∈ order', (Std.TreeMap.ofList moves)[old]?.isSome) ∧
      Layout textOf (fun old ↦ (Std.TreeMap.ofList moves)[old]?.getD 0) order'
        ((order'.map (ofText textOf)).flatMap (·.terminated)) := by
  obtain ⟨hmap, hstart⟩ := movesFrom_eq_ok hm
  rw [List.map_map] at hmap
  have hkeys : moves.map Prod.fst = order' := hmap.trans (List.map_id'' (fun _ ↦ rfl) _)
  have hfound : ∀ before old after, order' = before ++ old :: after →
      ∃ new, (Std.TreeMap.ofList moves)[old]? = some new ∧
        new.toNat = (before.flatMap fun old ↦ terminatedBytes (textOf old)).length := by
    intro before old after he
    obtain ⟨new, hmem, hnew⟩ := hstart (before.map (ofText textOf)) (ofText textOf old)
      (after.map (ofText textOf)) (by rw [he]; simp)
    rw [List.flatMap_map, Nat.zero_add] at hnew
    refine ⟨new, Std.TreeMap.getElem?_ofList_of_mem Std.ReflCmp.compare_self ?_ hmem, hnew⟩
    rw [← hkeys] at hd
    exact (List.pairwise_map.1 hd).imp fun hne he ↦ hne (Std.LawfulEqOrd.eq_of_compare he)
  refine ⟨fun old ho ↦ ?_, List.flatMap_map .., fun before old after he ↦ ?_⟩
  · obtain ⟨before, after, he⟩ := List.append_of_mem ho
    obtain ⟨new, hnew, -⟩ := hfound before old after he
    rw [hnew]
    rfl
  · obtain ⟨new, hnew, hstart⟩ := hfound before old after he
    rw [hnew, ← hstart]
    rfl

theorem order_singleton (s : PackedString) : order [s] = [s] := by
  unfold order bucket
  simp only [List.filter_cons, List.filter_nil]
  cases Width.ofOffset s.old.toNat <;> simp

end PackedString

/-- A string that alone is loaded, by a single load, is put at the front of the segment. -/
theorem Container.repackStrings_singleton (c : Container) {address old : UInt32} {text : String}
    {texts : Std.TreeMap UInt32 String} (ht : texts[old]? = some text) :
    c.repackStrings [(address, old)] texts =
      (patchFrom 0 c.code.toList [⟨address, old, 0⟩]).map fun code ↦ { c with
        strings := (terminatedBytes text).toArray, code := code.toArray } := by
  have hcollect : collectStrings [(address, old)] texts = .ok [⟨old, Utf16.toBytes text⟩] := by
    rw [collectStrings, List.map_singleton, ascending_singleton, List.mapM_cons, ht]
    rfl
  have hmoves : PackedString.movesFrom 0 [⟨old, Utf16.toBytes text⟩] = .ok [(old, 0)] := rfl
  have hold : (Std.TreeMap.ofList [(old, (0 : UInt32))])[old]? = some 0 := by simp
  have hbind : ∀ {α β : Type} (a : α) (k : α → Except PackingError β), (.ok a >>= k) = k a :=
    fun _ _ ↦ rfl
  simp only [repackStrings, hcollect, hbind, PackedString.order_singleton, hmoves, List.mapM_cons,
    List.mapM_nil, hold, pure, Except.pure]
  cases patchFrom 0 c.code.toList [⟨address, old, 0⟩] <;>
    simp [terminatedBytes, PackedString.terminated, Except.map, bind, Except.bind]

end NovelScript
