import NovelScript.Proofs.Packing.Fitting

/-!
Packing again what has been packed. Strings that already lie without a gap stay in their buckets
(`Layout.bucketOf_move`), and strings in the order of buckets and sizes stay where they are
(`order_eq_self`).
-/

namespace NovelScript

/-- The distinct numbers of a list are found by any list of them that ascends. -/
theorem ascending_eq_of_pairwise {numbers sorted : List UInt32} (h : sorted.Pairwise (· < ·))
    (hmem : ∀ n, n ∈ sorted ↔ n ∈ numbers) : ascending numbers = sorted := by
  have hperm : (ascending numbers).Perm sorted := by
    refine (List.perm_ext_iff_of_nodup (nodup_ascending _) ?_).2 fun n ↦ ?_
    · exact h.imp fun hlt he ↦ absurd (he ▸ hlt) (UInt32.lt_irrefl _)
    · rw [mem_ascending, hmem]
  refine hperm.eq_of_pairwise (fun a b _ _ hab hba ↦ ?_) (pairwise_ascending numbers) h
  exact absurd (UInt32.lt_trans hab hba) (UInt32.lt_irrefl _)

namespace PackedString

/-- The order in which strings are packed, by buckets and then by sizes. -/
def Precedes (a b : PackedString) : Prop :=
  (bucketOf a.old).size < (bucketOf b.old).size ∨
    bucketOf a.old = bucketOf b.old ∧ a.terminated.length ≤ b.terminated.length

theorem Precedes.size_le {a b : PackedString} (h : Precedes a b) :
    (bucketOf a.old).size ≤ (bucketOf b.old).size := by
  obtain h | ⟨h, -⟩ := h
  · exact Nat.le_of_lt h
  · exact Nat.le_of_eq (congrArg _ h)

variable {strings : List PackedString}

theorem pairwise_order (strings : List PackedString) : (order strings).Pairwise Precedes := by
  have hbucket : ∀ w, (bucket w strings).Pairwise Precedes := by
    intro w
    refine (pairwise_bucket w strings).imp_of_mem fun {a b} ha hb hle ↦ .inr ⟨?_, hle⟩
    exact (mem_bucket_iff.1 ha).2.trans (mem_bucket_iff.1 hb).2.symm
  have hbetween : ∀ v w : Width, v.size < w.size → ∀ a ∈ bucket v strings,
      ∀ b ∈ bucket w strings, Precedes a b := by
    intro v w hlt a ha b hb
    rw [Precedes, (mem_bucket_iff.1 ha).2, (mem_bucket_iff.1 hb).2]
    exact .inl hlt
  refine List.pairwise_append.2 ⟨List.pairwise_append.2 ⟨hbucket .one, hbucket .two, ?_⟩,
    hbucket .four, fun a ha b hb ↦ ?_⟩
  · exact hbetween .one .two (by decide)
  · obtain ha | ha := List.mem_append.1 ha
    · exact hbetween .one .four (by decide) a ha b hb
    · exact hbetween .two .four (by decide) a ha b hb

theorem bucket_eq_filter (h : strings.Pairwise Precedes) (w : Width) :
    bucket w strings = strings.filter (bucketOf ·.old = w) := by
  have hsorted : ((strings.filter (Width.ofOffset ·.old.toNat = w)).map
      fun s ↦ (s.bytes.length, s)).Pairwise fun a b ↦ decide (a.1 ≤ b.1) = true := by
    rw [List.pairwise_map]
    refine (h.filter _).imp_of_mem fun {a b} ha hb hab ↦ decide_eq_true ?_
    have hwa : bucketOf a.old = w := of_decide_eq_true (List.mem_filter.1 ha).2
    have hwb : bucketOf b.old = w := of_decide_eq_true (List.mem_filter.1 hb).2
    obtain hlt | ⟨-, hle⟩ := hab
    · rw [hwa, hwb] at hlt
      exact absurd hlt (Nat.lt_irrefl _)
    · simpa [terminated] using hle
  rw [bucket, List.mergeSort_of_pairwise hsorted, List.map_map]
  exact List.map_id'' (fun _ ↦ rfl) _

/-- Strings in the order in which they would be packed are packed in that order. -/
theorem order_eq_self (h : strings.Pairwise Precedes) : order strings = strings := by
  rw [order, bucket_eq_filter h, bucket_eq_filter h, bucket_eq_filter h]
  induction strings with
  | nil => rfl
  | cons s later ih =>
    obtain ⟨hs, hlater⟩ := List.pairwise_cons.1 h
    have hnone : ∀ w : Width, w.size < (bucketOf s.old).size →
        later.filter (bucketOf ·.old = w) = [] := by
      intro w hlt
      rw [List.filter_eq_nil_iff]
      intro t ht hw
      have hle := (hs t ht).size_le
      rw [of_decide_eq_true hw] at hle
      omega
    have hrest := ih hlater
    simp only [List.filter_cons]
    cases hw : bucketOf s.old with
    | one => simpa using hrest
    | two =>
      rw [hnone .one (by rw [hw]; decide)] at hrest ⊢
      simpa using hrest
    | four =>
      rw [hnone .one (by rw [hw]; decide), hnone .two (by rw [hw]; decide)] at hrest ⊢
      simpa using hrest

end PackedString

theorem sumSizes_perm {size : UInt32 → Nat} {offsets offsets' : List UInt32}
    (h : offsets.Perm offsets') : sumSizes size offsets = sumSizes size offsets' := by
  induction h with
  | nil => rfl
  | cons old _ ih => rw [sumSizes, sumSizes, ih]
  | swap a b later => simp only [sumSizes]; omega
  | trans _ _ ih ih' => exact ih.trans ih'

theorem sumSizes_filter_le (size : UInt32 → Nat) (p : UInt32 → Bool) (offsets : List UInt32) :
    sumSizes size (offsets.filter p) ≤ sumSizes size offsets := by
  induction offsets with
  | nil => exact Nat.le_refl _
  | cons old later ih =>
    rw [List.filter_cons, sumSizes]
    split
    · rw [sumSizes]
      omega
    · omega

namespace Layout

open PackedString

variable {textOf textOf' : UInt32 → String} {move : UInt32 → UInt32}
  {order offsets : List UInt32} {segment segment' : List UInt8}

/-- The size that a text takes up in the segment. -/
def textSize (textOf : UInt32 → String) (old : UInt32) : Nat := (terminatedBytes (textOf old)).length

theorem start_eq_sumSizes (h : Layout textOf move order segment) {before after : List UInt32}
    {old : UInt32} (ho : order = before ++ old :: after) :
    (move old).toNat = sumSizes (textSize textOf) before := by
  rw [h.start before old after ho]
  clear ho
  induction before with
  | nil => rfl
  | cons o before ih => rw [List.flatMap_cons, List.length_append, ih, sumSizes, textSize]

/-- Every string ends before those after it start. -/
theorem pairwise (h : Layout textOf move order segment) :
    order.Pairwise fun a b ↦ (move a).toNat + textSize textOf a ≤ (move b).toNat := by
  have hpart : ∀ before later, order = before ++ later →
      later.Pairwise fun a b ↦ (move a).toNat + textSize textOf a ≤ (move b).toNat := by
    intro before later ho
    induction later generalizing before with
    | nil => exact .nil
    | cons a later ih =>
      refine List.pairwise_cons.2 ⟨fun b hb ↦ ?_, ih (before ++ [a]) (by rw [ho]; simp)⟩
      obtain ⟨between, after, rfl⟩ := List.append_of_mem hb
      have ha := h.start_eq_sumSizes ho
      have hsplit : order = (before ++ a :: between) ++ b :: after := by rw [ho]; simp
      have hb := h.start_eq_sumSizes hsplit
      rw [sumSizes_append, sumSizes] at hb
      omega
  exact hpart [] order rfl

theorem pairwise_lt (h : Layout textOf move order segment) :
    (order.map move).Pairwise (· < ·) := by
  refine List.pairwise_map.2 (h.pairwise.imp fun {a b} hle ↦ UInt32.lt_iff_toNat_lt.2 ?_)
  have hpos : 0 < textSize textOf a := by
    rw [textSize, terminatedBytes, List.length_append]
    exact Nat.lt_add_left _ Nat.zero_lt_two
  omega

theorem flatMap_terminatedBytes_congr {f g : UInt32 → String} {part : List UInt32}
    (h : ∀ old ∈ part, f old = g old) : (part.flatMap fun old ↦ terminatedBytes (f old)) =
      part.flatMap fun old ↦ terminatedBytes (g old) := by
  rw [List.flatMap_def, List.flatMap_def]
  exact congrArg _ (List.map_congr_left fun old ho ↦ congrArg _ (h old ho))

/-- Moved strings lie where they have been moved to. -/
theorem moved (h : Layout textOf move order segment)
    (htext : ∀ old ∈ order, textOf' (move old) = textOf old) :
    Layout textOf' id (order.map move) segment := by
  have hbytes : ∀ part : List UInt32, (∀ old ∈ part, old ∈ order) →
      ((part.map move).flatMap fun old ↦ terminatedBytes (textOf' old)) =
        part.flatMap fun old ↦ terminatedBytes (textOf old) := by
    intro part hpart
    rw [List.flatMap_map]
    exact flatMap_terminatedBytes_congr fun old ho ↦ htext old (hpart old ho)
  refine ⟨h.segment_eq.trans (hbytes order fun _ ho ↦ ho).symm, fun before new after he ↦ ?_⟩
  obtain ⟨front, later, rfl, rfl, hlater⟩ := List.map_eq_append_iff.1 he
  obtain ⟨old, rest, rfl, rfl, rfl⟩ := List.map_eq_cons_iff.1 hlater
  rw [hbytes front fun o ho ↦ List.mem_append_left _ ho]
  exact h.start front old rest rfl

/-- Two layouts of the same texts in the same order are one. -/
theorem unique {move' : UInt32 → UInt32} (h : Layout textOf move order segment)
    (h' : Layout textOf' move' order segment') (htext : ∀ old ∈ order, textOf old = textOf' old) :
    segment = segment' ∧ ∀ old ∈ order, move old = move' old := by
  have hbytes : ∀ part : List UInt32, (∀ old ∈ part, old ∈ order) →
      (part.flatMap fun old ↦ terminatedBytes (textOf old)) =
        part.flatMap fun old ↦ terminatedBytes (textOf' old) :=
    fun part hpart ↦ flatMap_terminatedBytes_congr fun old ho ↦ htext old (hpart old ho)
  refine ⟨?_, fun old ho ↦ ?_⟩
  · rw [h.segment_eq, h'.segment_eq, hbytes order fun _ ho ↦ ho]
  · obtain ⟨before, after, he⟩ := List.append_of_mem ho
    have hbefore := hbytes before fun o ho ↦ he ▸ List.mem_append_left _ ho
    rw [← UInt32.toNat_inj, h.start before old after he, h'.start before old after he, hbefore]

/-- Strings in packing order start behind all strings of narrower buckets. -/
theorem sumSizes_narrower_le (h : Layout textOf move order segment)
    (hsorted : (order.map (ofText textOf)).Pairwise Precedes) {old : UInt32} (ho : old ∈ order) :
    sumSizes (textSize textOf) (order.filter fun o ↦ (bucketOf o).size < (bucketOf old).size) ≤
      (move old).toNat := by
  obtain ⟨before, after, he⟩ := List.append_of_mem ho
  have hnone : (old :: after).filter (fun o ↦ (bucketOf o).size < (bucketOf old).size) = [] := by
    rw [List.filter_eq_nil_iff]
    intro o hmem hlt
    have hlt := of_decide_eq_true hlt
    obtain rfl | hafter := List.mem_cons.1 hmem
    · exact Nat.lt_irrefl _ hlt
    · rw [List.pairwise_map, he] at hsorted
      have hle := ((List.pairwise_cons.1 (List.pairwise_append.1 hsorted).2.1).1 o hafter).size_le
      exact absurd hlt (Nat.not_lt.2 hle)
  rw [h.start_eq_sumSizes he]
  generalize hp : (fun o ↦ decide ((bucketOf o).size < (bucketOf old).size)) = p at hnone ⊢
  rw [he, List.filter_append, hnone, List.append_nil]
  exact sumSizes_filter_le _ _ _

/-- Where strings already lie without a gap, they stay in their buckets. -/
theorem bucketOf_move (hlaid : Layout textOf id offsets segment)
    (h : Layout textOf move order segment') (hperm : order.Perm offsets)
    (hsorted : (order.map (ofText textOf)).Pairwise Precedes) {old : UInt32} (ho : old ∈ order)
    (hfits : (bucketOf (move old)).size ≤ (bucketOf old).size) :
    bucketOf (move old) = bucketOf old := by
  -- the first string of this bucket starts where the narrower ones end
  obtain ⟨first, hfirst⟩ : ∃ first, offsets.find? (bucketOf · = bucketOf old) = some first := by
    rw [← Option.isSome_iff_exists, List.find?_isSome]
    exact ⟨old, hperm.mem_iff.1 ho, decide_eq_true rfl⟩
  obtain ⟨hbucket, before, after, he, hbefore⟩ := List.find?_eq_some_iff_append.1 hfirst
  have hbucket := of_decide_eq_true hbucket
  have hnarrower : ∀ o ∈ before, (bucketOf o).size < (bucketOf old).size := by
    intro o hmem
    have hascending := hlaid.pairwise
    rw [he, List.pairwise_append] at hascending
    have hle : (bucketOf o).size ≤ (bucketOf first).size := by
      refine size_bucketOf_le (Nat.le_trans ?_ (hascending.2.2 o hmem first List.mem_cons_self))
      exact Nat.le_add_right ..
    have hne : bucketOf o ≠ bucketOf old := by simpa using hbefore o hmem
    rw [hbucket] at hle
    exact Nat.lt_of_le_of_ne hle fun hsize ↦ hne (Width.size_inj hsize)
  have hstart : first.toNat ≤ (move old).toNat := by
    calc first.toNat = sumSizes (textSize textOf) before := hlaid.start_eq_sumSizes he
      _ = sumSizes (textSize textOf)
          (before.filter fun o ↦ (bucketOf o).size < (bucketOf old).size) := by
        rw [List.filter_eq_self.2 fun o hmem ↦ decide_eq_true (hnarrower o hmem)]
      _ ≤ sumSizes (textSize textOf)
          (offsets.filter fun o ↦ (bucketOf o).size < (bucketOf old).size) := by
        rw [he, List.filter_append, sumSizes_append]
        exact Nat.le_add_right ..
      _ = sumSizes (textSize textOf)
          (order.filter fun o ↦ (bucketOf o).size < (bucketOf old).size) :=
        sumSizes_perm (hperm.symm.filter _)
      _ ≤ (move old).toNat := h.sumSizes_narrower_le hsorted ho
  have hge := size_bucketOf_le hstart
  rw [hbucket] at hge
  exact Width.size_inj (Nat.le_antisymm hfits hge)

/-- Moved strings keep the packing order if they keep their buckets. -/
theorem pairwise_precedes_moved
    (hsorted : (order.map (ofText textOf)).Pairwise Precedes)
    (htext : ∀ old ∈ order, textOf' (move old) = textOf old)
    (hbucket : ∀ old ∈ order, bucketOf (move old) = bucketOf old) :
    ((order.map move).map (ofText textOf')).Pairwise Precedes := by
  rw [List.pairwise_map] at hsorted
  rw [List.pairwise_map, List.pairwise_map]
  refine hsorted.imp_of_mem fun {a b} ha hb hab ↦ ?_
  simp only [Precedes, ofText, terminated] at hab ⊢
  rwa [hbucket a ha, hbucket b hb, htext a ha, htext b hb]

end Layout

end NovelScript
