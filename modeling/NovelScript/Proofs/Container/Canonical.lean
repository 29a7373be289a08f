import NovelScript.Proofs.Container.RoundTrip
import NovelScript.Proofs.Text.Surrogates

/-!
Bytes that are saved again as they were. A string field can be written in many ways, but only one
of them is the one in which it is saved, and it shows in the field alone (`canonical_iff`). The
fields of a container cannot make up for each other (`toBytes_eq_self_iff`).
-/

namespace NovelScript

namespace StringField

variable {f : StringField}

/-- A field without its terminator. -/
def payload (f : StringField) : List UInt8 := f.body.take (f.body.length - f.terminator)

/-- A field as fields are saved: wide, of whole units, with a terminator of zeros, and without a
surrogate that stands alone. -/
structure Canonical (f : StringField) : Prop where
  wide : f.wide = true
  even : f.body.length % 2 = 0
  terminated : [0, 0] <:+ f.body
  paired : Utf16.isPaired (Utf16.units f.payload) = true

theorem payload_append {bytes : List UInt8} : payload ⟨true, bytes ++ [0, 0]⟩ = bytes := by
  simp [payload, terminator]

theorem Canonical.eq_ofText (h : f.Canonical) : f = ofText f.text := by
  obtain ⟨wide, body⟩ := f
  obtain rfl : wide = true := h.wide
  obtain ⟨bytes, rfl⟩ := h.terminated
  have heven : bytes.length % 2 = 0 := by
    have hbody := h.even
    rw [List.length_append, List.length_cons, List.length_cons, List.length_nil] at hbody
    omega
  have hpaired := h.paired
  rw [payload_append] at hpaired
  have htext : text ⟨true, bytes ++ [0, 0]⟩ = Utf16.ofBytes bytes :=
    congrArg Utf16.ofBytes payload_append
  rw [htext, ofText, Utf16.toBytes_ofBytes heven hpaired]

theorem canonical_ofText (text : String) : (ofText text).Canonical where
  wide := rfl
  even := by
    rw [ofText, List.length_append, Utf16.toBytes, Utf16.length_unitBytes]
    exact Nat.mul_add_mod ..
  terminated := List.suffix_append ..
  paired := by
    rw [ofText, payload_append, Utf16.toBytes, Utf16.units_unitBytes]
    exact Utf16.isPaired_encode _

theorem canonical_iff : f.Canonical ↔ f = ofText f.text :=
  ⟨Canonical.eq_ofText, fun h ↦ h ▸ canonical_ofText _⟩

instance : Decidable f.Canonical := decidable_of_iff _ canonical_iff.symm

end StringField

namespace Form

variable {F : Form}

theorem eq_map_ofText_iff {α : Type} {nameOf : α → String} {items : List (Named α)}
    (h : ∀ p ∈ items, nameOf p.2 = p.1.text) :
    items = (items.map Prod.snd).map (fun a ↦ (.ofText (nameOf a), a)) ↔
      ∀ f ∈ items.map Prod.fst, f.Canonical := by
  have hsame : items.map id = items.map (fun p ↦ (.ofText (nameOf p.2), p.2)) ↔
      ∀ p ∈ items, p = (.ofText (nameOf p.2), p.2) := List.map_inj_left
  rw [List.map_id] at hsame
  rw [List.map_map, List.forall_mem_map]
  refine hsame.trans (forall₂_congr fun p hp ↦ ?_)
  rw [StringField.canonical_iff, ← h p hp, Prod.ext_iff]
  exact and_iff_left rfl

/-- The form that a container is saved in is the one in which all fields are canonical. -/
theorem Valid.eq_ofContainer_iff (hF : F.Valid) :
    F = ofContainer F.container ↔ ∀ f ∈ F.fields, f.Canonical := by
  have hs := eq_map_ofText_iff fun p hp ↦ (hF.symbols.2 p hp).2.1
  have hf := eq_map_ofText_iff fun p hp ↦ (hF.functions.2 p hp).2
  have hl := eq_map_ofText_iff fun p hp ↦ (hF.labels.2 p hp).2
  simp only [fields, List.forall_mem_append, ← hs, ← hf, ← hl, and_assoc]
  obtain ⟨symbols, trailer, functions, labels, strings, code, messages, messageData⟩ := F
  simp only [ofContainer, container, mk.injEq, true_and, and_true]

end Form

namespace Container

variable {c : Container} {data : List UInt8}

/-- Bytes that were read as a container are the ones that it is saved as just if each of their
string fields is the one that its text is saved as. -/
theorem toBytes_eq_self_iff (h : parse data = .ok c) :
    ∃ F, Form.read data = .ok F ∧ F.container = c ∧ data = F.bytes ∧
      (c.toBytes = .ok data ↔ ∀ f ∈ F.fields, f.Canonical) := by
  obtain ⟨F, hF, rfl, hdata⟩ := Form.parse_eq_ok_iff.1 h
  have hread := Form.read_eq_ok_iff.2 ⟨hF, hdata⟩
  refine ⟨F, hread, rfl, hdata, ?_⟩
  rw [← hF.eq_ofContainer_iff]
  constructor
  · intro hsaved
    have hread' := read_of_toBytes (delimited_of_parse h) hsaved
    exact Except.ok.inj (hread.symm.trans hread')
  · intro hsame
    have hnames : ∀ name ∈ F.container.names, NameFits name := by
      rw [names_container hF, List.forall_mem_map]
      intro f hf
      have hf' := hF.eq_ofContainer_iff.1 hsame f hf
      rw [← StringField.valid_ofText_iff, ← hf'.eq_ofText]
      exact valid_fields hF f hf
    have hfits := exists_toBytes_iff.1 ((exists_toBytes_of_parse_iff h).2 hnames)
    exact F.container.toBytes_eq_ok_iff.2 ⟨hfits, hdata.trans (congrArg Form.bytes hsame)⟩

/-- One label, whose name has these two bytes for a terminator. -/
def labelSample (first second : UInt8) : List UInt8 :=
  [0, 0, 0, 0, 0, 0, 0, 0, 0, 0, 0, 0, 1, 0, 0, 0, 4, 0, 0, 0x80, 0x61, 0, first, second,
    7, 0, 0, 0, 0, 0, 0, 0, 0, 0, 0, 0, 0, 0, 0, 0, 0, 0, 0, 0]

/-- The bytes of a terminator are not looked at, but they are saved as zeros. -/
theorem toBytes_eq_self_iff_terminator :
    ∃ c, parse (labelSample 0 0) = .ok c ∧ parse (labelSample 1 0) = .ok c ∧
      c.labels = #[⟨"a", 7⟩] ∧ c.toBytes = .ok (labelSample 0 0) ∧
      c.toBytes ≠ .ok (labelSample 1 0) := by
  have h : parse (labelSample 0 0) = .ok { labels := #[⟨"a", 7⟩] } := rfl
  have h' : parse (labelSample 1 0) = .ok { labels := #[⟨"a", 7⟩] } := rfl
  obtain ⟨F, hread, -, -, hsaved⟩ := toBytes_eq_self_iff h
  obtain ⟨F', hread', -, -, hsaved'⟩ := toBytes_eq_self_iff h'
  obtain rfl : ⟨[], 0, [], [(⟨true, [0x61, 0, 0, 0]⟩, ⟨"a", 7⟩)], [], [], [], []⟩ = F :=
    Except.ok.inj hread
  obtain rfl : ⟨[], 0, [], [(⟨true, [0x61, 0, 1, 0]⟩, ⟨"a", 7⟩)], [], [], [], []⟩ = F' :=
    Except.ok.inj hread'
  refine ⟨_, h, h', rfl, hsaved.2 ?_, fun hsame ↦ ?_⟩
  · decide
  · exact absurd (hsaved'.1 hsame) (by decide)

end Container

end NovelScript
