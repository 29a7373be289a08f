import Std.Data.TreeMap.Lemmas

/-!
A map made of a list of entries holds the last entry of each key.
-/

namespace NovelScript

/-- Where all keys are different, looking a key up finds its only entry. -/
theorem lookup_reverse_eq_some_iff {α β : Type} [BEq α] [LawfulBEq α]
    {entries : List (α × β)} (h : entries.Pairwise fun a b ↦ a.1 ≠ b.1) {key : α}
    {value : β} : entries.reverse.lookup key = some value ↔ (key, value) ∈ entries := by
  rw [List.lookup_eq_some_iff, ← List.mem_reverse]
  constructor
  · intro hsplit
    obtain ⟨before, after, he, -⟩ := hsplit
    rw [he]
    simp
  · intro hmem
    obtain ⟨before, after, he⟩ := List.append_of_mem hmem
    refine ⟨before, after, he, fun p hp ↦ bne_iff_ne.2 ?_⟩
    have hreverse := List.pairwise_reverse.1 (entries.reverse_reverse.symm ▸ h)
    rw [he, List.pairwise_append] at hreverse
    exact hreverse.2.2 p hp (key, value) List.mem_cons_self

variable {α β : Type} [Ord α]

/-- The last entry of each key, by ascending keys. -/
def latest (entries : List (α × β)) : List (α × β) := (Std.TreeMap.ofList entries).toList

variable [Std.TransOrd α]

theorem pairwise_latest (entries : List (α × β)) :
    (latest entries).Pairwise fun a b ↦ compare a.1 b.1 = .lt :=
  Std.TreeMap.ordered_keys_toList

variable [Std.LawfulEqOrd α] [BEq α] [LawfulBEq α]

theorem getElem?_insertMany (map : Std.TreeMap α β) (entries : List (α × β)) (key : α) :
    (map.insertMany entries)[key]? = (entries.reverse.lookup key).or map[key]? := by
  induction entries generalizing map with
  | nil => simp
  | cons entry rest ih =>
    obtain ⟨k, value⟩ := entry
    rw [Std.TreeMap.insertMany_cons, ih, Std.TreeMap.getElem?_insert, List.reverse_cons,
      List.lookup_append, Option.or_assoc]
    apply congrArg _
    by_cases h : k = key
    · simp [h]
    · have hc : ¬compare k key = .eq := fun hc ↦ h (Std.LawfulEqOrd.eq_of_compare hc)
      have hb : (key == k) = false := beq_eq_false_iff_ne.2 (Ne.symm h)
      rw [if_neg hc, List.lookup_cons, hb]
      rfl

theorem getElem?_ofList (entries : List (α × β)) (key : α) :
    (Std.TreeMap.ofList entries)[key]? = entries.reverse.lookup key := by
  rw [Std.TreeMap.ofList_eq_insertMany_empty, getElem?_insertMany]
  simp

theorem mem_latest_iff {entries : List (α × β)} {key : α} {value : β} :
    (key, value) ∈ latest entries ↔ entries.reverse.lookup key = some value := by
  rw [latest, Std.TreeMap.mem_toList_iff_getElem?_eq_some, getElem?_ofList]

/-- Entries with ascending keys are all of them the last ones. -/
theorem latest_eq_self {entries : List (α × β)}
    (h : entries.Pairwise fun a b ↦ compare a.1 b.1 = .lt) : latest entries = entries := by
  have hne : ∀ {part : List (α × β)}, part.Pairwise (fun a b ↦ compare a.1 b.1 = .lt) →
      part.Pairwise fun a b ↦ a.1 ≠ b.1 := by
    refine fun hpart ↦ hpart.imp fun {a b} (hab : compare a.1 b.1 = .lt) he ↦ ?_
    rw [he, Std.ReflOrd.compare_self] at hab
    cases hab
  have hnodup : ∀ {part : List (α × β)}, part.Pairwise (fun a b ↦ compare a.1 b.1 = .lt) →
      part.Nodup :=
    fun hpart ↦ (hne hpart).imp fun hab he ↦ hab (congrArg Prod.fst he)
  have hordered := pairwise_latest entries
  have hperm : (latest entries).Perm entries := by
    refine (List.perm_ext_iff_of_nodup (hnodup hordered) (hnodup h)).2 fun p ↦ ?_
    rw [mem_latest_iff, lookup_reverse_eq_some_iff (hne h)]
  refine hperm.eq_of_pairwise (fun a b _ _ hab hba ↦ ?_) hordered h
  exact absurd hba (Std.OrientedCmp.not_lt_of_lt hab)

end NovelScript
