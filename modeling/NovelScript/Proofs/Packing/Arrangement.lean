import NovelScript.Proofs.Packing.Failing
import NovelScript.Proofs.Packing.InPlace
import NovelScript.Proofs.Packing.Settling

/-!
The order of the strings inside their buckets. Shortest first is the best of all orders: whatever
bounds the starts of strings can be kept to by another order, they are kept to by this one
(`startsFrom_shortestFirst`). So packing fails only where every order would.
-/

namespace NovelScript

open Instruction Outcome PackedString

/-- An order of the strings inside each bucket. -/
structure Arrangement (offsets : List UInt32) where
  orderOf : Width → List UInt32
  nodup : ∀ w, (orderOf w).Nodup
  mem_iff : ∀ w old, old ∈ orderOf w ↔ old ∈ offsets ∧ bucketOf old = w

/-- The buckets one behind the other, from the narrowest. -/
def Arrangement.order {offsets : List UInt32} (a : Arrangement offsets) : List UInt32 :=
  a.orderOf .one ++ a.orderOf .two ++ a.orderOf .four

/-- Strings that follow each other without a gap from a place on have 32-bit offsets, and each of
them one that its bucket may have. -/
def StartsFrom (size : UInt32 → Nat) (may : Width → UInt32 → Prop) (start : Nat) :
    List UInt32 → Prop
  | [] => True
  | old :: later =>
    (∃ new : UInt32, new.toNat = start ∧ may (bucketOf old) new) ∧
      StartsFrom size may (start + size old) later

/-- An offset that is no wider than the operands of a bucket. -/
def Narrow (w : Width) (new : UInt32) : Prop := (bucketOf new).size ≤ w.size

/-- What a bucket may have, it may also have earlier. -/
def Lowers (may : Width → UInt32 → Prop) : Prop :=
  ∀ w new new', new' ≤ new → may w new → may w new'

theorem lowers_narrow : Lowers Narrow :=
  fun _ _ _ hle hnew ↦ Nat.le_trans (size_bucketOf_le (UInt32.le_iff_toNat_le.1 hle)) hnew

section Starts

variable {size : UInt32 → Nat} {may : Width → UInt32 → Prop} {start : Nat}

theorem startsFrom_append {front later : List UInt32} :
    StartsFrom size may start (front ++ later) ↔ StartsFrom size may start front ∧
      StartsFrom size may (start + sumSizes size front) later := by
  induction front generalizing start with
  | nil => simp [StartsFrom, sumSizes]
  | cons old front ih =>
    rw [List.cons_append, StartsFrom, StartsFrom, ih, sumSizes, Nat.add_assoc, and_assoc]

theorem size_le_sumSizes {old : UInt32} {offsets : List UInt32} (h : old ∈ offsets) :
    size old ≤ sumSizes size offsets := by
  obtain ⟨before, after, rfl⟩ := List.append_of_mem h
  rw [sumSizes_append, sumSizes]
  omega

/-- From the first string on the starts are those that the last one bounds. -/
theorem startsFrom_of_le (hmay : Lowers may) {w : Width} {offsets : List UInt32} {new : UInt32}
    (hw : ∀ old ∈ offsets, bucketOf old = w) (hnew : may w new)
    (hle : ∀ before old after, offsets = before ++ old :: after →
      start + sumSizes size before ≤ new.toNat) : StartsFrom size may start offsets := by
  induction offsets generalizing start with
  | nil => trivial
  | cons old later ih =>
    obtain ⟨hold, hlater⟩ := List.forall_mem_cons.1 hw
    have hstart : start ≤ new.toNat := hle [] old later rfl
    have hn : (UInt32.ofNat start).toNat = start :=
      UInt32.toNat_ofNat_of_lt' (Nat.lt_of_le_of_lt hstart new.toNat_lt)
    refine ⟨⟨UInt32.ofNat start, hn, ?_⟩, ih hlater fun before o after he ↦ ?_⟩
    · rw [hold]
      refine hmay w new _ ?_ hnew
      rwa [UInt32.le_iff_toNat_le, hn]
    · have hnext := hle (old :: before) o after (congrArg _ he)
      rwa [sumSizes, ← Nat.add_assoc] at hnext

/-- In one bucket, if some order keeps the starts to what they may be, then so does the order from
the shortest string on: put last, any string starts before the longest. -/
theorem startsFrom_of_sorted (hmay : Lowers may) {w : Width} {sorted offsets : List UInt32}
    (hperm : sorted.Perm offsets) (hw : ∀ old ∈ offsets, bucketOf old = w)
    (hsorted : sorted.Pairwise fun a b ↦ size a ≤ size b)
    (h : StartsFrom size may start offsets) : StartsFrom size may start sorted := by
  obtain rfl | ⟨front, last, rfl⟩ := List.eq_nil_or_concat offsets
  · rw [List.perm_nil.1 hperm]
    trivial
  rw [List.concat_eq_append] at hperm hw h
  obtain ⟨-, ⟨new, hn, hnew⟩, -⟩ := startsFrom_append.1 h
  rw [hw last (by simp)] at hnew
  refine startsFrom_of_le hmay (fun old ho ↦ hw old (hperm.mem_iff.1 ho)) hnew ?_
  intro before old after he
  have htotal : sumSizes size sorted = sumSizes size (front ++ [last]) := sumSizes_perm hperm
  rw [he, sumSizes_append, sumSizes_append, sumSizes, sumSizes, sumSizes] at htotal
  -- the string put last is no longer than what stands from this one on
  have hlast : size last ≤ size old + sumSizes size after := by
    have hmem : last ∈ before ++ old :: after := he ▸ hperm.mem_iff.2 (by simp)
    rw [he] at hsorted
    exact le_add_of_sorted hsorted hmem fun o ho ↦ size_le_sumSizes ho
  omega

end Starts

namespace Arrangement

variable {offsets : List UInt32} {may : Width → UInt32 → Prop}

theorem perm (a b : Arrangement offsets) (w : Width) : (a.orderOf w).Perm (b.orderOf w) :=
  (List.perm_ext_iff_of_nodup (a.nodup w) (b.nodup w)).2 fun old ↦ by
    rw [a.mem_iff, b.mem_iff]

/-- An arrangement is at least as good as any other if it has the shortest strings of each bucket
first. -/
theorem startsFrom_of_sorted (hmay : Lowers may) {size : UInt32 → Nat}
    (a b : Arrangement offsets)
    (hsorted : ∀ w, (b.orderOf w).Pairwise fun o p ↦ size o ≤ size p)
    (h : StartsFrom size may 0 a.order) : StartsFrom size may 0 b.order := by
  have hbucket : ∀ w start, StartsFrom size may start (a.orderOf w) →
      StartsFrom size may start (b.orderOf w) := fun w start hw ↦
    NovelScript.startsFrom_of_sorted hmay (b.perm a w) (fun old ho ↦ ((a.mem_iff w old).1 ho).2)
      (hsorted w) hw
  have hsum : ∀ w, sumSizes size (b.orderOf w) = sumSizes size (a.orderOf w) :=
    fun w ↦ sumSizes_perm (b.perm a w)
  -- where a bucket starts does not depend on the orders inside the narrower ones
  rw [order, startsFrom_append, startsFrom_append, sumSizes_append] at h ⊢
  rw [hsum, hsum]
  obtain ⟨⟨hone, htwo⟩, hfour⟩ := h
  exact ⟨⟨hbucket .one _ hone, hbucket .two _ htwo⟩, hbucket .four _ hfour⟩

/-- The order in which strings are packed. -/
def shortestFirst (textOf : UInt32 → String) (offsets : List UInt32) : Arrangement offsets where
  orderOf w := (bucket w ((ascending offsets).map (ofText textOf))).map (·.old)
  nodup w := by
    have hold : ((ascending offsets).map (ofText textOf)).map (·.old) = ascending offsets := by
      rw [List.map_map]
      exact List.map_id'' (fun _ ↦ rfl) _
    have hnodup := nodup_ascending offsets
    rw [← hold] at hnodup
    exact ((bucket_perm w _).map _).nodup_iff.2 (hnodup.sublist (List.filter_sublist.map _))
  mem_iff w old := by
    rw [List.mem_map]
    refine ⟨fun h ↦ ?_, fun h ↦ ?_⟩
    · obtain ⟨s, hs, rfl⟩ := h
      obtain ⟨hmem, hw⟩ := mem_bucket_iff.1 hs
      obtain ⟨old, ho, rfl⟩ := List.mem_map.1 hmem
      exact ⟨mem_ascending.1 ho, hw⟩
    · obtain ⟨ho, hw⟩ := h
      exact ⟨ofText textOf old,
        mem_bucket_iff.2 ⟨List.mem_map_of_mem (mem_ascending.2 ho), hw⟩, rfl⟩

theorem orderOf_shortestFirst (textOf : UInt32 → String) (offsets : List UInt32) (w : Width) :
    ((shortestFirst textOf offsets).orderOf w).map (ofText textOf) =
      bucket w ((ascending offsets).map (ofText textOf)) := by
  refine (List.map_map ..).trans ((List.map_congr_left fun s hs ↦ ?_).trans (List.map_id _))
  obtain ⟨old, -, rfl⟩ := List.mem_map.1 (mem_bucket_iff.1 hs).1
  rfl

theorem order_shortestFirst (textOf : UInt32 → String) (offsets : List UInt32) :
    (shortestFirst textOf offsets).order.map (ofText textOf) =
      PackedString.order ((ascending offsets).map (ofText textOf)) := by
  rw [order, List.map_append, List.map_append, orderOf_shortestFirst, orderOf_shortestFirst,
    orderOf_shortestFirst, PackedString.order]

/-- Shortest first is the best of all orders. -/
theorem startsFrom_shortestFirst (hmay : Lowers may) {textOf : UInt32 → String}
    (a : Arrangement offsets) (h : StartsFrom (Layout.textSize textOf) may 0 a.order) :
    StartsFrom (Layout.textSize textOf) may 0 (shortestFirst textOf offsets).order := by
  refine a.startsFrom_of_sorted hmay (shortestFirst textOf offsets) (fun w ↦ ?_) h
  have hsorted := pairwise_bucket w ((ascending offsets).map (ofText textOf))
  rw [← orderOf_shortestFirst, List.pairwise_map] at hsorted
  exact hsorted

end Arrangement

/-- Some order inside the buckets gives every text a start as its bucket may have it. -/
def Arrangeable (textOf : UInt32 → String) (may : Width → UInt32 → Prop)
    (offsets : List UInt32) : Prop :=
  ∃ a : Arrangement offsets, StartsFrom (Layout.textSize textOf) may 0 a.order

theorem arrangeable_iff {textOf : UInt32 → String} {may : Width → UInt32 → Prop}
    {offsets : List UInt32} (hmay : Lowers may) : Arrangeable textOf may offsets ↔
      StartsFrom (Layout.textSize textOf) may 0
        (Arrangement.shortestFirst textOf offsets).order :=
  ⟨fun ⟨a, ha⟩ ↦ a.startsFrom_shortestFirst hmay ha, fun h ↦ ⟨_, h⟩⟩

/-- Any 32-bit offset. -/
def Anywhere : Width → UInt32 → Prop := fun _ _ ↦ True

theorem lowers_anywhere : Lowers Anywhere := fun _ _ _ _ _ ↦ trivial

namespace PackedString

variable {textOf : UInt32 → String} {start : Nat} {order : List UInt32}

theorem exists_narrow_iff {w : Width} :
    (∃ new : UInt32, new.toNat = start ∧ Narrow w new) ↔ start < w.bound := by
  refine ⟨fun h ↦ ?_, fun h ↦ ?_⟩
  · obtain ⟨new, rfl, hnew⟩ := h
    exact (Width.size_ofOffset_le_iff new.toNat_lt w).1 hnew
  · have hn : (UInt32.ofNat start).toNat = start :=
      UInt32.toNat_ofNat_of_lt' (Nat.lt_of_lt_of_le h w.bound_le)
    refine ⟨UInt32.ofNat start, hn, (Width.size_ofOffset_le_iff (UInt32.toNat_lt _) w).2 ?_⟩
    rwa [hn]

theorem startsFrom_narrow_iff :
    StartsFrom (Layout.textSize textOf) Narrow start order ↔
      Reaches start (order.map (ofText textOf)) := by
  induction order generalizing start with
  | nil => exact Iff.rfl
  | cons old later ih =>
    rw [StartsFrom, List.map_cons, Reaches, exists_narrow_iff, ih]
    rfl

theorem startsFrom_anywhere_iff :
    StartsFrom (Layout.textSize textOf) Anywhere start order ↔
      ∃ moves, movesFrom start (order.map (ofText textOf)) = .ok moves := by
  induction order generalizing start with
  | nil => exact ⟨fun _ ↦ ⟨[], rfl⟩, fun _ ↦ trivial⟩
  | cons old later ih =>
    rw [StartsFrom, ih, List.map_cons, movesFrom]
    refine ⟨fun h ↦ ?_, fun h ↦ ?_⟩
    · obtain ⟨⟨new, rfl, -⟩, moves, hmoves⟩ := h
      refine ⟨(old, UInt32.ofNat new.toNat) :: moves, ?_⟩
      rw [if_neg (Nat.not_le.2 new.toNat_lt)]
      exact bind_eq_ok_iff.2 ⟨moves, hmoves, rfl⟩
    · obtain ⟨_, h⟩ := h
      split at h
      · cases h
      · rename_i hlt
        obtain ⟨moves, hmoves, -⟩ := bind_eq_ok_iff.1 h
        exact ⟨⟨UInt32.ofNat start, UInt32.toNat_ofNat_of_lt' (Nat.not_le.1 hlt), trivial⟩,
          moves, hmoves⟩

end PackedString

theorem arrangeable_narrow_iff {textOf : UInt32 → String} {offsets : List UInt32} :
    Arrangeable textOf Narrow offsets ↔
      StringsFit (Layout.textSize textOf) (ascending offsets) := by
  rw [arrangeable_iff lowers_narrow, startsFrom_narrow_iff, Arrangement.order_shortestFirst]
  exact reaches_order_map_iff textOf _

theorem arrangeable_anywhere_iff {textOf : UInt32 → String} {is : List Instruction} :
    Arrangeable textOf Anywhere ((loads is).map Prod.snd) ↔
      ∃ moves, movesFrom 0 (packed textOf is) = .ok moves := by
  rw [arrangeable_iff lowers_anywhere, startsFrom_anywhere_iff, Arrangement.order_shortestFirst,
    packed]

/-- Below 4 GiB every string has a 32-bit offset. -/
theorem arrangeable_anywhere_of_lt {textOf : UInt32 → String} {offsets : List UInt32}
    (h : sumSizes (Layout.textSize textOf) (ascending offsets) < UInt32.size) :
    Arrangeable textOf Anywhere offsets := by
  rw [arrangeable_iff lowers_anywhere, startsFrom_anywhere_iff, Arrangement.order_shortestFirst]
  cases hmoves : movesFrom 0 (PackedString.order ((ascending offsets).map (ofText textOf))) with
  | ok moves => exact ⟨moves, rfl⟩
  | error e =>
    have hlarge := (movesFrom_eq_error hmoves).2
    rw [Nat.zero_add, total_perm (order_perm _), total_map_ofText] at hlarge
    exact absurd h (Nat.not_lt.2 hlarge)

namespace Container

variable {c : Container} {names : NameIndex}

/-- In code of at most 4 GiB strings are packed if there is any order inside the buckets that keeps
each of them there. If there is none, nothing changes. Then a load overflows, unless every order has
a string that starts at 4 GiB or behind. -/
theorem repackStrings_best {refs : References} {texts : Std.TreeMap UInt32 String}
    {textOf : UInt32 → String} (hsize : c.Addressable) (h : c.references names = .ok refs)
    (ht : ∀ old ∈ refs.strings.map Prod.snd, texts[old]? = some (textOf old)) :
    (Arrangeable textOf Narrow (refs.strings.map Prod.snd) →
      ∃ c', runOn (Repacking.strings refs.strings texts) c = (.ok (), c')) ∧
    (¬Arrangeable textOf Narrow (refs.strings.map Prod.snd) →
      Arrangeable textOf Anywhere (refs.strings.map Prod.snd) →
      ∃ address old new, (address, old) ∈ refs.strings ∧
        (bucketOf old).size < (bucketOf new).size ∧
        runOn (Repacking.strings refs.strings texts) c =
          (.error (.offsetOverflow address old new (bucketOf old)), c)) ∧
    (¬Arrangeable textOf Anywhere (refs.strings.map Prod.snd) →
      runOn (Repacking.strings refs.strings texts) c =
        (.error (.segmentTooLarge "string"), c)) := by
  obtain ⟨is, hw, -, rfl⟩ := references_eq_ok_iff.1 h
  rw [latest_loads hsize hw] at ht ⊢
  have hload : ∀ i ∈ is, ∀ old, i.loaded? = some old → texts[old]? = some (textOf old) :=
    fun i hi old hl ↦ ht old (mem_ascending.1 (mem_ascending_loads_iff.2 ⟨i, hi, hl⟩))
  have hfits := repackStrings_isOk_iff hsize hw hload
  change _ ↔ StringsFit (Layout.textSize textOf) _ at hfits
  rw [Repacking.runOn_strings, arrangeable_narrow_iff, ← hfits, arrangeable_anywhere_iff]
  cases hpacked : c.repackStrings (loads is) texts with
  | ok c' =>
    obtain ⟨moves, hmoves, -⟩ := (repackStrings_eq_ok_iff hsize hw hload).1 hpacked
    exact ⟨fun _ ↦ ⟨c', rfl⟩, fun hnone _ ↦ absurd ⟨c', rfl⟩ hnone,
      fun hnone ↦ absurd ⟨moves, hmoves⟩ hnone⟩
  | error e =>
    refine ⟨fun hsome ↦ ?_, fun _ hsome ↦ ?_, fun hnone ↦ ?_⟩
    · obtain ⟨c', hc'⟩ := hsome
      cases hc'
    · obtain ⟨_, -, i, hi, old, hl, hover, rfl⟩ | hlarge :=
        repackStrings_error_cases hsize hw hload hpacked
      · exact ⟨i.address, old, _, List.mem_filterMap.2 ⟨i, hi, by rw [hl]; rfl⟩, hover, rfl⟩
      · obtain ⟨moves, hmoves⟩ := hsome
        rw [hmoves] at hlarge
        cases hlarge
    · obtain ⟨moves, hmoves, -⟩ | hlarge := repackStrings_error_cases hsize hw hload hpacked
      · exact absurd ⟨moves, hmoves⟩ hnone
      · rw [(movesFrom_eq_error hlarge).1]
        rfl

def longText : String := String.ofList (List.replicate 130 'a')

/-- A long text and a short one, which fit into the first bucket only with the short one first. -/
def growingText (old : UInt32) : String := if old = 7 then "b" else longText

theorem length_longText : (Utf16.toBytes longText).length = 260 := by
  unfold longText
  rw [Utf16.toBytes, String.toList_ofList]
  decide +kernel

theorem textSize_longText : Layout.textSize (fun _ ↦ longText) = fun _ ↦ 262 := by
  funext old
  rw [Layout.textSize, terminatedBytes, List.length_append, length_longText]
  rfl

theorem textSize_growingText :
    Layout.textSize growingText = fun old ↦ if old = 7 then 4 else 262 := by
  funext old
  by_cases hold : old = 7
  · rw [Layout.textSize, growingText, if_pos hold, if_pos hold]
    decide
  · rw [Layout.textSize, growingText, if_neg hold, if_neg hold]
    exact congrFun textSize_longText old

def longAndShort : Std.TreeMap UInt32 String := .ofList [((1 : UInt32), longText), (7, "b")]

def longTwice : Std.TreeMap UInt32 String := .ofList [((1 : UInt32), longText), (7, longText)]

/-- The long text and the short one are packed, two long ones are not. -/
theorem repackStrings_best_longText :
    ∃ refs, packingSample.references (.ofContainer packingSample) = .ok refs ∧
      refs.strings = [(0, 1), (2, 7)] ∧
      (∃ c', runOn (Repacking.strings refs.strings longAndShort) packingSample = (.ok (), c')) ∧
      ∃ address old new, (address, old) ∈ refs.strings ∧
        (bucketOf old).size < (bucketOf new).size ∧
        runOn (Repacking.strings refs.strings longTwice) packingSample =
          (.error (.offsetOverflow address old new (bucketOf old)), packingSample) := by
  have hrefs : packingSample.references (.ofContainer packingSample) =
      .ok ⟨[(0, 1), (2, 7)], []⟩ := by rfl
  have hgrowing : ∀ old ∈ ([1, 7] : List UInt32), longAndShort[old]? = some (growingText old) :=
    List.forall_mem_cons.2 ⟨rfl, List.forall_mem_singleton.2 rfl⟩
  have htwice : ∀ old ∈ ([1, 7] : List UInt32), longTwice[old]? = some longText :=
    List.forall_mem_cons.2 ⟨rfl, List.forall_mem_singleton.2 rfl⟩
  obtain ⟨hfits, -⟩ := repackStrings_best (by decide) hrefs hgrowing
  obtain ⟨-, hover, -⟩ := repackStrings_best (by decide) hrefs htwice
  refine ⟨_, hrefs, rfl, hfits ?_, hover ?_ ?_⟩
  · rw [arrangeable_narrow_iff, textSize_growingText]
    decide
  · rw [arrangeable_narrow_iff, textSize_longText]
    decide
  · apply arrangeable_anywhere_of_lt
    rw [textSize_longText]
    decide

/-- Two strings, both of them empty. -/
def emptyStrings : Container where
  strings := #[0, 0, 0, 0, 0, 0]
  code := #[0x09, 0, 0x09, 4]

def lettersTwice : Std.TreeMap UInt32 String :=
  .ofList [((0 : UInt32), letters 0x80000000), (4, letters 0x80000000)]

theorem movesFrom_pair {first second : PackedString}
    (h : UInt32.size ≤ first.terminated.length) :
    movesFrom 0 [first, second] = .error (.segmentTooLarge "string") := by
  rw [movesFrom, if_neg (by decide), movesFrom, if_pos (by rwa [Nat.zero_add])]
  rfl

/-- Texts of 4 GiB are refused before any load overflows, and behind 4 GiB of code even a text that
has its place may be. -/
theorem repackStrings_best_letters :
    (emptyStrings.references (.ofContainer emptyStrings) = .ok ⟨[(0, 0), (2, 4)], []⟩ ∧
      ¬Arrangeable (fun _ ↦ letters 0x80000000) Narrow [0, 4] ∧
      emptyStrings.repackStrings [(0, 0), (2, 4)] lettersTwice =
        .error (.segmentTooLarge "string")) ∧
    wrappedLoad.references (.ofContainer wrappedLoad) = .ok ⟨[(0, 0)], []⟩ ∧
      Arrangeable (fun _ ↦ "") Narrow [0] ∧
      wrappedLoad.repackStrings [(0, 0)] (.ofList [((0 : UInt32), "")]) =
        .error (.notAStringLoad 0) := by
  let is : List Instruction := [⟨0, 0x09, .string 0⟩, ⟨2, 0x09, .string 4⟩]
  let textOf : UInt32 → String := fun _ ↦ letters 0x80000000
  have hsize : Layout.textSize textOf = fun _ ↦ UInt32.size + 2 := by
    funext old
    rw [Layout.textSize, terminatedBytes, List.length_append, length_toBytes_letters]
    rfl
  have hw : emptyStrings.walk (.ofContainer emptyStrings) = ⟨is, none⟩ := by decide
  have htexts : ∀ i ∈ is, ∀ old, i.loaded? = some old → lettersTwice[old]? = some (textOf old) := by
    refine List.forall_mem_cons.2 ⟨fun old hl ↦ ?_, List.forall_mem_singleton.2 fun old hl ↦ ?_⟩
    · obtain rfl : (0 : UInt32) = old := Option.some.inj hl
      rfl
    · obtain rfl : (4 : UInt32) = old := Option.some.inj hl
      rfl
  have hpacked : packed textOf is = [ofText textOf 0, ofText textOf 4] :=
    order_eq_self (List.pairwise_pair.2 (.inr ⟨rfl, Nat.le_refl _⟩))
  have hmoves : movesFrom 0 (packed textOf is) = .error (.segmentTooLarge "string") := by
    rw [hpacked]
    apply movesFrom_pair
    rw [PackedString.terminated, ofText, List.length_append, length_toBytes_letters]
    exact Nat.le_add_right _ _
  refine ⟨⟨rfl, ?_, ?_⟩, references_wrappedLoad, ?_, repackStrings_wrappedLoad rfl⟩
  · rw [arrangeable_narrow_iff, hsize]
    decide
  · have hrepack := repackStrings_eq (by decide) hw htexts
    rw [hmoves] at hrepack
    exact hrepack
  · rw [arrangeable_narrow_iff]
    decide

end Container

end NovelScript
