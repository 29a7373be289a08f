import NovelScript.Proofs.Packing.Repacking
import NovelScript.Proofs.References.Wrapping

/-!
When strings can be packed. A string stays in its bucket if it starts below the bound of the
bucket's operands. Since a bucket ends with its longest string, this holds of all its strings just
when it holds of one of them put last (`reaches_order_iff`). Strings that were laid out before
and have not grown always fit.
-/

namespace NovelScript

open Instruction Outcome

/-- The width of the bucket that an offset lies in. -/
def bucketOf (old : UInt32) : Width := Width.ofOffset old.toNat

def sumSizes (size : UInt32 → Nat) : List UInt32 → Nat
  | [] => 0
  | old :: later => size old + sumSizes size later

/-- Strings of these sizes can be laid out. In every bucket that is used there is a string which,
put last, starts below the bound of the bucket. -/
def StringsFit (size : UInt32 → Nat) (offsets : List UInt32) : Prop :=
  ∀ old ∈ offsets, ∃ last ∈ offsets, bucketOf last = bucketOf old ∧
    sumSizes size (offsets.filter fun o ↦ (bucketOf o).size ≤ (bucketOf old).size) <
      (bucketOf old).bound + size last

theorem sumSizes_congr {size size' : UInt32 → Nat} {offsets : List UInt32}
    (h : ∀ old ∈ offsets, size old = size' old) :
    sumSizes size offsets = sumSizes size' offsets := by
  induction offsets with
  | nil => rfl
  | cons old later ih =>
    obtain ⟨hold, hlater⟩ := List.forall_mem_cons.1 h
    rw [sumSizes, sumSizes, hold, ih hlater]

theorem sumSizes_append (size : UInt32 → Nat) (before after : List UInt32) :
    sumSizes size (before ++ after) = sumSizes size before + sumSizes size after := by
  induction before with
  | nil => exact (Nat.zero_add _).symm
  | cons old before ih => rw [List.cons_append, sumSizes, ih, sumSizes, Nat.add_assoc]

theorem stringsFit_congr {size size' : UInt32 → Nat} {offsets : List UInt32}
    (h : ∀ old ∈ offsets, size old = size' old) :
    StringsFit size offsets ↔ StringsFit size' offsets := by
  refine forall_congr' fun old ↦ imp_congr_right fun ho ↦ exists_congr fun last ↦
    and_congr_right fun hl ↦ and_congr_right fun hb ↦ ?_
  rw [h last hl, sumSizes_congr fun o ho ↦ h o (List.mem_filter.1 ho).1]

/-- In a list from the shortest item on, none is longer than one item and what stands behind that
one together. -/
theorem le_add_of_sorted {α : Type} {f : α → Nat} {before after : List α} {a last : α} {n : Nat}
    (hsorted : (before ++ a :: after).Pairwise fun b c ↦ f b ≤ f c)
    (hmem : last ∈ before ++ a :: after) (hafter : ∀ b ∈ after, f b ≤ n) : f last ≤ f a + n := by
  rw [List.mem_append, List.mem_cons] at hmem
  obtain hbefore | rfl | hbehind := hmem
  · have := (List.pairwise_append.1 hsorted).2.2 last hbefore a List.mem_cons_self
    omega
  · omega
  · have := hafter last hbehind
    omega

instance (size : UInt32 → Nat) (offsets : List UInt32) : Decidable (StringsFit size offsets) :=
  @List.decidableBAll _ _ (fun _ ↦ List.decidableBEx _ offsets) offsets

namespace PackedString

def total (strings : List PackedString) : Nat := (strings.flatMap (·.terminated)).length

/-- Laid out from an offset on, every string starts below the bound of its bucket. -/
def Reaches (start : Nat) : List PackedString → Prop
  | [] => True
  | s :: later => start < (bucketOf s.old).bound ∧ Reaches (start + s.terminated.length) later

variable {start : Nat} {strings : List PackedString}

@[simp] theorem total_nil : total [] = 0 := rfl

@[simp] theorem total_cons (s : PackedString) (later : List PackedString) :
    total (s :: later) = s.terminated.length + total later := by
  rw [total, List.flatMap_cons, List.length_append, total]

@[simp] theorem total_append (front later : List PackedString) :
    total (front ++ later) = total front + total later := by
  rw [total, List.flatMap_append, List.length_append, total, total]

theorem total_map_ofText (textOf : UInt32 → String) (offsets : List UInt32) :
    total (offsets.map (ofText textOf)) =
      sumSizes (fun old ↦ (terminatedBytes (textOf old)).length) offsets := by
  induction offsets with
  | nil => rfl
  | cons old later ih =>
    rw [List.map_cons, total_cons, ih]
    rfl

theorem length_le_total {s : PackedString} (h : s ∈ strings) :
    s.terminated.length ≤ total strings := by
  obtain ⟨before, after, rfl⟩ := List.append_of_mem h
  rw [total_append, total_cons]
  omega

theorem total_perm {strings' : List PackedString} (h : strings.Perm strings') :
    total strings = total strings' :=
  (h.flatMap_right _).length_eq

theorem reaches_append {front later : List PackedString} :
    Reaches start (front ++ later) ↔ Reaches start front ∧ Reaches (start + total front) later := by
  induction front generalizing start with
  | nil => simp [Reaches]
  | cons s front ih =>
    rw [List.cons_append, Reaches, Reaches, ih, total_cons, Nat.add_assoc, and_assoc]

theorem reaches_iff :
    Reaches start strings ↔ ∀ before s after, strings = before ++ s :: after →
      start + total before < (bucketOf s.old).bound := by
  constructor
  · intro h before s after he
    rw [he, reaches_append] at h
    exact h.2.1
  · intro h
    induction strings generalizing start with
    | nil => trivial
    | cons s later ih =>
      refine ⟨h [] s later rfl, ih fun before t after he ↦ ?_⟩
      have ht := h (s :: before) t after (congrArg _ he)
      rwa [total_cons, ← Nat.add_assoc] at ht

/-- Strings within reach have 32-bit offsets. -/
theorem Reaches.movesFrom (h : Reaches start strings) :
    ∃ moves, PackedString.movesFrom start strings = .ok moves := by
  induction strings generalizing start with
  | nil => exact ⟨[], rfl⟩
  | cons s later ih =>
    obtain ⟨hs, hlater⟩ := h
    obtain ⟨moves, hmoves⟩ := ih hlater
    have hlt : start < UInt32.size := Nat.lt_of_lt_of_le hs (bucketOf s.old).bound_le
    refine ⟨(s.old, UInt32.ofNat start) :: moves, ?_⟩
    rw [PackedString.movesFrom, if_neg (Nat.not_le.2 hlt), hmoves]
    rfl

/-- A bucket ends with its longest string. -/
theorem pairwise_bucket (w : Width) (strings : List PackedString) :
    (bucket w strings).Pairwise fun a b ↦ a.terminated.length ≤ b.terminated.length := by
  let sized := (strings.filter (Width.ofOffset ·.old.toNat = w)).map fun s ↦ (s.bytes.length, s)
  have hsorted := @List.pairwise_mergeSort (Nat × PackedString) (fun a b ↦ decide (a.1 ≤ b.1))
    (fun a b c hab hbc ↦
      decide_eq_true (Nat.le_trans (of_decide_eq_true hab) (of_decide_eq_true hbc)))
    (fun a b ↦ by simpa using Nat.le_total a.1 b.1) sized
  refine List.pairwise_map.2 (hsorted.imp_of_mem fun {a b} ha hb hab ↦ ?_)
  have hsize : ∀ p ∈ sized.mergeSort fun a b ↦ decide (a.1 ≤ b.1), p.1 = p.2.bytes.length := by
    intro p hp
    obtain ⟨s, -, rfl⟩ := List.mem_map.1 (List.mem_mergeSort.1 hp)
    rfl
  have hle := of_decide_eq_true hab
  rw [hsize a ha, hsize b hb] at hle
  simpa [terminated] using hle

theorem mem_bucket_iff {w : Width} {s : PackedString} :
    s ∈ bucket w strings ↔ s ∈ strings ∧ bucketOf s.old = w := by
  rw [(bucket_perm w strings).mem_iff, List.mem_filter, decide_eq_true_eq]
  rfl

/-- In a bucket all strings are within reach if one of them, put last, is. -/
theorem reaches_bucket_iff {w : Width} :
    Reaches start (bucket w strings) ↔ ∀ old ∈ bucket w strings, ∃ last ∈ bucket w strings,
      start + total (bucket w strings) < w.bound + last.terminated.length := by
  have hsorted := pairwise_bucket w strings
  have hw : ∀ s ∈ bucket w strings, bucketOf s.old = w := fun s hs ↦ (mem_bucket_iff.1 hs).2
  generalize bucket w strings = found at hsorted hw ⊢
  rw [reaches_iff]
  constructor
  · intro h old ho
    obtain rfl | ⟨before, last, rfl⟩ := List.eq_nil_or_concat found
    · cases ho
    · rw [List.concat_eq_append] at h hw ⊢
      have hlast : last ∈ before ++ [last] := by simp
      have hstart := h before last [] rfl
      rw [hw last hlast] at hstart
      refine ⟨last, hlast, ?_⟩
      rw [total_append, total_cons, total_nil]
      omega
  · intro h before s after he
    subst he
    have hs : s ∈ before ++ s :: after := by simp
    obtain ⟨last, hmem, hlast⟩ := h s hs
    rw [hw s hs]
    rw [total_append, total_cons] at hlast
    -- the string put last is no longer than what stands from this one on
    have hle : last.terminated.length ≤ s.terminated.length + total after :=
      le_add_of_sorted (f := (·.terminated.length)) hsorted hmem fun t ht ↦ length_le_total ht
    omega

/-- The strings of a bucket and of all narrower ones. -/
def upTo (w : Width) (strings : List PackedString) : List PackedString :=
  strings.filter fun s ↦ (bucketOf s.old).size ≤ w.size

theorem total_upTo (strings : List PackedString) :
    total (upTo .one strings) = total (bucket .one strings) ∧
      total (upTo .two strings) = total (bucket .one strings) + total (bucket .two strings) ∧
      total (upTo .four strings) = total (bucket .one strings) +
        total (bucket .two strings) + total (bucket .four strings) := by
  simp only [total_perm (bucket_perm _ strings)]
  induction strings with
  | nil => exact ⟨rfl, rfl, rfl⟩
  | cons s later ih =>
    obtain ⟨hone, htwo, hfour⟩ := ih
    have hcases : ∀ w : Width, w = .one ∨ w = .two ∨ w = .four := fun w ↦ by cases w <;> simp
    simp only [upTo, bucketOf, List.filter_cons] at hone htwo hfour ⊢
    obtain hw | hw | hw := hcases (Width.ofOffset s.old.toNat) <;>
      simp [hw, Width.size] at hone htwo hfour ⊢ <;> omega

theorem reaches_order_iff :
    Reaches 0 (order strings) ↔ ∀ s ∈ strings, ∃ last ∈ strings,
      bucketOf last.old = bucketOf s.old ∧ total (upTo (bucketOf s.old) strings) <
        (bucketOf s.old).bound + last.terminated.length := by
  have hbuckets : Reaches 0 (order strings) ↔ ∀ w, ∀ s ∈ bucket w strings,
      ∃ last ∈ bucket w strings,
        total (upTo w strings) < w.bound + last.terminated.length := by
    obtain ⟨hone, htwo, hfour⟩ := total_upTo strings
    rw [order, reaches_append, reaches_append, total_append, reaches_bucket_iff,
      reaches_bucket_iff, reaches_bucket_iff, Nat.zero_add, Nat.zero_add, ← hfour, ← htwo, ← hone]
    constructor
    · intro h w
      obtain ⟨⟨h1, h2⟩, h4⟩ := h
      cases w with
      | one => exact h1
      | two => exact h2
      | four => exact h4
    · intro h
      exact ⟨⟨h .one, h .two⟩, h .four⟩
  rw [hbuckets]
  simp only [mem_bucket_iff]
  constructor
  · intro h s hs
    obtain ⟨last, ⟨hl, hb⟩, hlt⟩ := h _ s ⟨hs, rfl⟩
    exact ⟨last, hl, hb, hlt⟩
  · intro h w s hs
    obtain ⟨hs, rfl⟩ := hs
    obtain ⟨last, hl, hb, hlt⟩ := h s hs
    exact ⟨last, ⟨hl, hb⟩, hlt⟩

/-- Texts at these offsets are within reach just when their sizes fit. -/
theorem reaches_order_map_iff (textOf : UInt32 → String) (offsets : List UInt32) :
    Reaches 0 (order (offsets.map (ofText textOf))) ↔
      StringsFit (fun old ↦ (terminatedBytes (textOf old)).length) offsets := by
  rw [reaches_order_iff, List.forall_mem_map]
  refine forall_congr' fun old ↦ imp_congr_right fun ho ↦ ?_
  have htotal : total (upTo (bucketOf old) (offsets.map (ofText textOf))) =
      sumSizes (fun old ↦ (terminatedBytes (textOf old)).length)
        (offsets.filter fun o ↦ (bucketOf o).size ≤ (bucketOf old).size) := by
    rw [upTo, List.filter_map, total_map_ofText]
    rfl
  rw [← htotal]
  constructor
  · intro h
    obtain ⟨_, hl, hfits⟩ := h
    obtain ⟨last, hlast, rfl⟩ := List.mem_map.1 hl
    exact ⟨last, hlast, hfits⟩
  · intro h
    obtain ⟨last, hlast, hfits⟩ := h
    exact ⟨_, List.mem_map_of_mem hlast, hfits⟩

end PackedString

/-- Texts are within reach if they lie below the bounds of their buckets. -/
theorem Layout.reaches_iff {textOf : UInt32 → String} {move : UInt32 → UInt32} {order : List UInt32}
    {segment : List UInt8} (h : Layout textOf move order segment) :
    PackedString.Reaches 0 (order.map (PackedString.ofText textOf)) ↔
      ∀ old ∈ order, (move old).toNat < (bucketOf old).bound := by
  rw [PackedString.reaches_iff]
  constructor
  · intro hreach old ho
    obtain ⟨before, after, he⟩ := List.append_of_mem ho
    have hstart := hreach (before.map (PackedString.ofText textOf)) (.ofText textOf old)
      (after.map (PackedString.ofText textOf)) (by rw [he, List.map_append, List.map_cons])
    rw [Nat.zero_add, PackedString.total, List.flatMap_map] at hstart
    rw [h.start before old after he]
    exact hstart
  · intro hmove before s after he
    obtain ⟨front, later, rfl, rfl, hlater⟩ := List.map_eq_append_iff.1 he
    obtain ⟨old, tail, rfl, rfl, rfl⟩ := List.map_eq_cons_iff.1 hlater
    have hlt := hmove old (by simp)
    rw [h.start front old tail rfl] at hlt
    rw [Nat.zero_add, PackedString.total, List.flatMap_map]
    exact hlt

variable {c : Container} {names : NameIndex} {is : List Instruction}

/-- Packing succeeds just when the sizes of the new strings fit. -/
theorem repackStrings_isOk_iff {texts : Std.TreeMap UInt32 String}
    {textOf : UInt32 → String} (hsize : c.Addressable) (hw : c.walk names = ⟨is, none⟩)
    (ht : ∀ i ∈ is, ∀ old, i.loaded? = some old → texts[old]? = some (textOf old)) :
    (∃ c', c.repackStrings (loads is) texts = .ok c') ↔
      StringsFit (fun old ↦ (terminatedBytes (textOf old)).length)
        (ascending ((loads is).map Prod.snd)) := by
  rw [← PackedString.reaches_order_map_iff]
  change _ ↔ PackedString.Reaches 0 (packed textOf is)
  -- a load is patched if its new offset is below the bound of its bucket
  have hmove : ∀ {moves}, PackedString.movesFrom 0 (packed textOf is) = .ok moves →
      (PackedString.Reaches 0 (packed textOf is) ↔ ∀ i ∈ is, i.MoveFits (moveBy moves)) := by
    intro moves hmoves
    obtain ⟨order, hperm, horder, -, hlayout⟩ := layout_packed hmoves
    rw [horder, hlayout.reaches_iff]
    constructor
    · intro h i hi old hl
      have ho := hperm.mem_iff.2 (mem_ascending_loads_iff.2 ⟨i, hi, hl⟩)
      exact (Width.size_ofOffset_le_iff (UInt32.toNat_lt _) _).2 (h old ho)
    · intro h old ho
      obtain ⟨i, hi, hl⟩ := mem_ascending_loads_iff.1 (hperm.mem_iff.1 ho)
      exact (Width.size_ofOffset_le_iff (UInt32.toNat_lt _) _).1 (h i hi old hl)
  constructor
  · intro h
    obtain ⟨c', hc'⟩ := h
    obtain ⟨moves, hmoves, hfits, -⟩ := (repackStrings_eq_ok_iff hsize hw ht).1 hc'
    exact (hmove hmoves).2 hfits
  · intro h
    obtain ⟨moves, hmoves⟩ := h.movesFrom
    exact ⟨_, (repackStrings_eq_ok_iff hsize hw ht).2 ⟨moves, hmoves, (hmove hmoves).1 h, rfl⟩⟩

/-- Strings that lie one behind the other end before the start of the next. -/
theorem add_sumSizes_le {size : UInt32 → Nat} {before : List UInt32} {last : UInt32} (start : Nat)
    (h : (before ++ [last]).Pairwise fun o p ↦ o.toNat + size o ≤ p.toNat)
    (hstart : ∀ o ∈ before ++ [last], start ≤ o.toNat) :
    start + sumSizes size before ≤ last.toNat := by
  induction before generalizing start with
  | nil => exact hstart last (by simp)
  | cons o before ih =>
    obtain ⟨ho, hlater⟩ := List.pairwise_cons.1 h
    have hnext := ih (o.toNat + size o) hlater ho
    have hfirst := hstart o List.mem_cons_self
    rw [sumSizes]
    omega

theorem size_bucketOf_le {o p : UInt32} (h : o.toNat ≤ p.toNat) :
    (bucketOf o).size ≤ (bucketOf p).size := by
  have hp := (Width.size_ofOffset_le_iff p.toNat_lt (bucketOf p)).1 (Nat.le_refl _)
  exact (Width.size_ofOffset_le_iff o.toNat_lt _).2 (Nat.lt_of_le_of_lt h hp)

/-- Strings fit where they lay before. -/
theorem stringsFit_of_disjoint {size : UInt32 → Nat} {offsets : List UInt32}
    (h : offsets.Pairwise fun o p ↦ o.toNat + size o ≤ p.toNat) : StringsFit size offsets := by
  intro old ho
  generalize hfound : offsets.filter (fun o ↦ (bucketOf o).size ≤ (bucketOf old).size) = found
  have hmem : old ∈ found := by
    rw [← hfound, List.mem_filter]
    exact ⟨ho, decide_eq_true (Nat.le_refl _)⟩
  obtain rfl | ⟨before, last, rfl⟩ := List.eq_nil_or_concat found
  · cases hmem
  rw [List.concat_eq_append] at hfound hmem ⊢
  have hpairwise : (before ++ [last]).Pairwise fun o p ↦ o.toNat + size o ≤ p.toNat := by
    rw [← hfound]
    exact h.filter _
  have hmemLast : last ∈ offsets.filter fun o ↦ (bucketOf o).size ≤ (bucketOf old).size := by
    rw [hfound]
    simp
  obtain ⟨hlast, hdecide⟩ := List.mem_filter.1 hmemLast
  have hsize := of_decide_eq_true hdecide
  -- the last of the strings up to this bucket lies in it
  have hle : old.toNat ≤ last.toNat := by
    rw [List.mem_append, List.mem_singleton] at hmem
    obtain hbefore | rfl := hmem
    · have := (List.pairwise_append.1 hpairwise).2.2 old hbefore last List.mem_cons_self
      omega
    · exact Nat.le_refl _
  have hbucket : bucketOf last = bucketOf old :=
    Width.size_inj (Nat.le_antisymm hsize (size_bucketOf_le hle))
  refine ⟨last, hlast, hbucket, ?_⟩
  have hsum := add_sumSizes_le 0 hpairwise fun o _ ↦ Nat.zero_le _
  have hbound := (Width.size_ofOffset_le_iff last.toNat_lt (bucketOf old)).1 hsize
  rw [sumSizes_append, sumSizes, sumSizes]
  omega

namespace Container

/-- Edits that lengthen no string always fit, if the strings that are loaded do not overlap and the
code is of at most 4 GiB. -/
theorem repackStrings_of_not_longer {refs : References} {texts : Std.TreeMap UInt32 String}
    (hsize : c.Addressable) (h : c.references names = .ok refs)
    (hdisjoint : ∀ o ∈ refs.strings.map Prod.snd, ∀ p ∈ refs.strings.map Prod.snd, o < p →
      o.toNat + (Utf16.toBytes (c.stringAt o)).length + 2 ≤ p.toNat)
    (hshort : ∀ o ∈ refs.strings.map Prod.snd, ∃ text, texts[o]? = some text ∧
      (Utf16.toBytes text).length ≤ (Utf16.toBytes (c.stringAt o)).length) :
    ∃ c', c.repackStrings refs.strings texts = .ok c' := by
  obtain ⟨is, hw, -, rfl⟩ := references_eq_ok_iff.1 h
  rw [latest_loads hsize hw] at hdisjoint hshort ⊢
  let textOf : UInt32 → String := fun old ↦ texts[old]?.getD ""
  have hload : ∀ i ∈ is, ∀ old, i.loaded? = some old → texts[old]? = some (textOf old) := by
    intro i hi old hl
    obtain ⟨text, ht, -⟩ := hshort old (mem_ascending.1 (mem_ascending_loads_iff.2 ⟨i, hi, hl⟩))
    change texts[old]? = some (texts[old]?.getD "")
    rw [ht, Option.getD_some]
  rw [repackStrings_isOk_iff hsize hw hload]
  apply stringsFit_of_disjoint
  refine (pairwise_ascending _).imp_of_mem fun {o p} ho hp hlt ↦ ?_
  have hdistance := hdisjoint o (mem_ascending.1 ho) p (mem_ascending.1 hp) hlt
  obtain ⟨text, ht, hle⟩ := hshort o (mem_ascending.1 ho)
  have htext : textOf o = text := by
    change texts[o]?.getD "" = text
    rw [ht, Option.getD_some]
  rw [htext, terminatedBytes, List.length_append, List.length_cons, List.length_singleton]
  omega

/-- A string at an odd offset, and a shorter one behind it. -/
def packingSample : Container where
  strings := #[9, 0x61, 0, 0x62, 0, 0, 0, 0x63, 0, 0, 0]
  code := #[0x09, 1, 0x0A, 7, 0]

def shorterTexts : Std.TreeMap UInt32 String := .ofList [((1 : UInt32), "b"), (7, "")]

theorem repackStrings_of_not_longer_packingSample :
    ∃ refs c', packingSample.references (.ofContainer packingSample) = .ok refs ∧
      refs.strings = [(0, 1), (2, 7)] ∧
      packingSample.repackStrings refs.strings shorterTexts = .ok c' := by
  have hrefs : packingSample.references (.ofContainer packingSample) =
      .ok ⟨[(0, 1), (2, 7)], []⟩ := by rfl
  have hdisjoint : ([1, 7] : List UInt32).all fun o ↦ ([1, 7] : List UInt32).all fun p ↦ o < p →
      o.toNat + (Utf16.toBytes (packingSample.stringAt o)).length + 2 ≤ p.toNat := by
    decide
  have hshort : ∀ o ∈ ([1, 7] : List UInt32), ∃ text, shorterTexts[o]? = some text ∧
      (Utf16.toBytes text).length ≤ (Utf16.toBytes (packingSample.stringAt o)).length :=
    List.forall_mem_cons.2 ⟨⟨"b", by decide, by decide⟩,
      List.forall_mem_singleton.2 ⟨"", by decide, by decide⟩⟩
  obtain ⟨c', hc'⟩ := repackStrings_of_not_longer (by decide) hrefs (fun o ho p hp ↦
    of_decide_eq_true (List.all_eq_true.1 (List.all_eq_true.1 hdisjoint o ho) p hp)) hshort
  exact ⟨_, c', hrefs, rfl, hc'⟩

/-- A load at 4 GiB, whose address is that of the stop at the front. -/
noncomputable def wrappedLoad : Container where
  strings := #[0, 0]
  code := wrappingCode [] [0x09, 0]

theorem references_wrappedLoad :
    wrappedLoad.references (.ofContainer wrappedLoad) = .ok ⟨[(0, 0)], []⟩ := by
  have hback : (wrappedLoad.scope (.ofContainer wrappedLoad)).walk [0x09, 0] =
      ⟨[⟨0, 0x09, .string 0⟩], none⟩ := Scope.walk_load (by decide)
  rw [references_wrapping rfl (Nat.zero_le _) rfl, hback]
  rfl

theorem repackStrings_wrappedLoad {texts : Std.TreeMap UInt32 String} {text : String}
    (ht : texts[(0 : UInt32)]? = some text) :
    wrappedLoad.repackStrings [(0, 0)] texts = .error (.notAStringLoad 0) := by
  have hcode : wrappedLoad.code.toList = _ := toList_wrappingCode_nil [0x09, 0]
  rw [repackStrings_singleton _ ht, hcode]
  rfl

/-- Behind 4 GiB of code an edit that changes nothing does not fit. -/
theorem repackStrings_of_not_longer_wrappedLoad :
    ∃ refs texts, wrappedLoad.references (.ofContainer wrappedLoad) = .ok refs ∧
      (∀ o ∈ refs.strings.map Prod.snd, ∀ p ∈ refs.strings.map Prod.snd, o < p →
        o.toNat + (Utf16.toBytes (wrappedLoad.stringAt o)).length + 2 ≤ p.toNat) ∧
      (∀ o ∈ refs.strings.map Prod.snd, texts[o]? = some (wrappedLoad.stringAt o)) ∧
      wrappedLoad.repackStrings refs.strings texts = .error (.notAStringLoad 0) := by
  have htext : wrappedLoad.stringAt 0 = "" := by decide
  refine ⟨_, .ofList [((0 : UInt32), "")], references_wrappedLoad, fun o ho p hp hlt ↦ ?_, ?_,
    repackStrings_wrappedLoad rfl⟩
  · obtain rfl := List.mem_singleton.1 ho
    obtain rfl := List.mem_singleton.1 hp
    exact absurd hlt (by decide)
  · rw [List.map_singleton, List.forall_mem_singleton, htext]
    rfl

end Container

end NovelScript
