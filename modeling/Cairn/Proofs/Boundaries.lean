import Cairn.Proofs.Echoes
import Cairn.Proofs.Offsets

/-!
# Cairn — bytes of a text and its characters

A text is a list of characters and a list of bytes. Each byte belongs to one
character: a byte of ASCII is that character, and the bytes of the other characters
are all beyond ASCII. So a byte of ASCII stands where characters meet, and the text
can be cut there.

## Main definitions

* `byteAt?` — the byte at a distance from the start.
* `textFrom?`, `textTo?` — the two parts of a text that is cut at a byte.
* `RestAt` — the places of a text between two of its characters.

## Main statements

* `RestAt.ascii`, `RestAt.wide` — the bytes at such a place.
* `restAt_of_byteAt?` — a byte of ASCII is at such a place.
* `RestAt.textFrom?_eq`, `RestAt.textTo?_eq` — the text can be cut there.
-/

namespace Cairn

/-- The byte at `i`, as the character with its number. -/
def byteAt? (source : String) (i : Nat) : Option Char :=
  (utf8Bytes source)[i]?.map Char.ofUInt8

/-- The text from the byte `i` on, if characters meet there. -/
def textFrom? (source : String) (i : Nat) : Option (List Char) :=
  if h : String.Pos.Raw.IsValid source ⟨i⟩ then
    some (source.sliceFrom (source.pos ⟨i⟩ h)).copy.toList
  else none

/-- The text up to the byte `i`, if characters meet there. -/
def textTo? (source : String) (i : Nat) : Option (List Char) :=
  if h : String.Pos.Raw.IsValid source ⟨i⟩ then
    some (source.sliceTo (source.pos ⟨i⟩ h)).copy.toList
  else none

theorem byteAt?_eq_none {source : String} {i : Nat} :
    byteAt? source i = none ↔ (utf8Bytes source).length ≤ i := by
  rw [byteAt?, Option.map_eq_none_iff, List.getElem?_eq_none_iff]

theorem lt_length_of_byteAt? {source : String} {i : Nat} {c : Char}
    (h : byteAt? source i = some c) : i < (utf8Bytes source).length := by
  refine Nat.lt_of_not_le fun hle => ?_
  rw [byteAt?_eq_none.mpr hle] at h
  cases h

theorem length_flatMap_encode (cs : List Char) :
    (cs.flatMap String.utf8EncodeChar).length = utf8Length cs := by
  rw [← String.toList_ofList (l := cs), ← utf8Bytes_eq_flatMap, length_utf8Bytes]

theorem utf8Size_ascii {c : Char} (hc : c.toNat < 128) : c.utf8Size = 1 := by
  rw [← String.length_utf8EncodeChar, encode_ascii hc, List.length_singleton]

theorem toNat_ofUInt8 (b : UInt8) : (Char.ofUInt8 b).toNat = b.toNat :=
  UInt8.toNat_toUInt32 b

theorem Place.offset_next (p : Place) (c : Char) : (p.next c).offset = p.offset + c.utf8Size :=
  p.offset_after [c]

theorem Place.offset_next_ascii (p : Place) {c : Char} (hc : c.toNat < 128) :
    (p.next c).offset = p.offset + 1 := by
  rw [offset_next, utf8Size_ascii hc]

-- ---------------------------------------------------------------------------
-- Places of a text
-- ---------------------------------------------------------------------------

/-- The place `p` is one of the text, and `rest` is behind it. -/
def RestAt (source : String) (p : Place) (rest : List Char) : Prop :=
  ∃ front, source.toList = front ++ rest ∧ p = Place.after {} front

namespace RestAt

variable {source : String} {p : Place} {rest : List Char} {c d : Char} {k : Nat}

theorem start (source : String) : RestAt source {} source.toList :=
  ⟨[], rfl, rfl⟩

theorem next (h : RestAt source p (c :: rest)) : RestAt source (p.next c) rest := by
  obtain ⟨front, hsource, rfl⟩ := h
  exact ⟨front ++ [c], hsource.trans (List.append_cons front c rest),
    (Place.after_append {} front [c]).symm⟩

theorem offset_eq {front : List Char} (h : p = Place.after {} front) :
    p.offset = utf8Length front := by
  rw [h, Place.offset_after]
  exact Nat.zero_add _

theorem length_eq (h : RestAt source p rest) :
    (utf8Bytes source).length = p.offset + utf8Length rest := by
  obtain ⟨front, hsource, hp⟩ := h
  rw [length_utf8Bytes, hsource, utf8Length_append, offset_eq hp]

/-- The bytes from there on are those of the rest. -/
theorem bytes (h : RestAt source p rest) (k : Nat) :
    byteAt? source (p.offset + k) =
      (rest.flatMap String.utf8EncodeChar)[k]?.map Char.ofUInt8 := by
  obtain ⟨front, hsource, hp⟩ := h
  rw [byteAt?, utf8Bytes_eq_flatMap, hsource, List.flatMap_append, offset_eq hp,
    ← length_flatMap_encode, List.getElem?_append_right (Nat.le_add_right _ _),
    Nat.add_sub_cancel_left]

/-- A character of ASCII is its byte. -/
theorem ascii (h : RestAt source p (c :: rest)) (hc : c.toNat < 128) :
    byteAt? source p.offset = some c := by
  have hbyte := h.bytes 0
  rw [List.flatMap_cons, encode_ascii hc] at hbyte
  refine hbyte.trans (congrArg some (Char.toNat_inj.mp ?_))
  rw [toNat_ofUInt8, toNat_asciiByte hc]

/-- All the bytes of another character are beyond ASCII. -/
theorem wide (h : RestAt source p (c :: rest)) (hc : 128 ≤ c.toNat) (hk : k < c.utf8Size) :
    ∃ d, byteAt? source (p.offset + k) = some d ∧ 128 ≤ d.toNat := by
  have hlength : k < (String.utf8EncodeChar c).length := by
    rw [String.length_utf8EncodeChar]
    exact hk
  refine ⟨Char.ofUInt8 (String.utf8EncodeChar c)[k], ?_, ?_⟩
  · rw [h.bytes, List.flatMap_cons, List.getElem?_append_left hlength,
      List.getElem?_eq_getElem hlength, Option.map_some]
  · rw [toNat_ofUInt8]
    exact le_of_mem_encode hc (List.getElem_mem hlength)

/-- What a byte of ASCII says about the rest. -/
theorem eq_cons (h : RestAt source p rest) (hd : d.toNat < 128)
    (hbyte : byteAt? source p.offset = some d) : ∃ rest', rest = d :: rest' := by
  cases rest with
  | nil =>
    have hnone := h.bytes 0
    rw [Nat.add_zero, hbyte] at hnone
    cases hnone
  | cons c rest =>
    rcases Nat.lt_or_ge c.toNat 128 with hc | hc
    · rw [h.ascii hc] at hbyte
      cases hbyte
      exact ⟨rest, rfl⟩
    · obtain ⟨e, he, hwide⟩ := h.wide hc c.utf8Size_pos
      rw [Nat.add_zero, hbyte] at he
      cases he
      omega

end RestAt

/-- Every byte belongs to a character. -/
theorem exists_restAt_of_lt {source : String} {i : Nat} (h : i < (utf8Bytes source).length) :
    ∃ p c rest k, RestAt source p (c :: rest) ∧ i = p.offset + k ∧ k < c.utf8Size := by
  -- The induction is on the rest, with the byte still ahead.
  have hahead : ∀ rest p, RestAt source p rest → p.offset ≤ i → i < p.offset + utf8Length rest →
      ∃ p c rest k, RestAt source p (c :: rest) ∧ i = p.offset + k ∧ k < c.utf8Size := by
    intro rest
    induction rest with
    | nil =>
      intro p hp hle hlt
      exact absurd hlt (Nat.not_lt.mpr hle)
    | cons c rest ih =>
      intro p hp hle hlt
      have hnext := p.offset_next c
      rw [utf8Length] at hlt
      by_cases hi : i < p.offset + c.utf8Size
      · exact ⟨p, c, rest, i - p.offset, hp, by omega, by omega⟩
      · exact ih (p.next c) hp.next (by omega) (by omega)
  have hstart := RestAt.start source
  refine hahead _ _ hstart (Nat.zero_le i) ?_
  rw [← hstart.length_eq]
  exact h

/-- **A byte of ASCII** is a character, with a place in front of it. -/
theorem restAt_of_byteAt? {source : String} {i : Nat} {c : Char} (h : byteAt? source i = some c)
    (hc : c.toNat < 128) : ∃ p rest, RestAt source p (c :: rest) ∧ p.offset = i := by
  obtain ⟨p, d, rest, k, hp, rfl, hk⟩ := exists_restAt_of_lt (lt_length_of_byteAt? h)
  rcases Nat.lt_or_ge d.toNat 128 with hd | hd
  · rw [utf8Size_ascii hd] at hk
    obtain rfl : k = 0 := by omega
    obtain rfl : d = c := Option.some.inj ((hp.ascii hd).symm.trans h)
    exact ⟨p, rest, hp, rfl⟩
  · obtain ⟨e, he, hwide⟩ := hp.wide hd hk
    rw [h] at he
    cases he
    omega

-- ---------------------------------------------------------------------------
-- Cutting a text
-- ---------------------------------------------------------------------------

theorem rawEndPos_ofList (cs : List Char) :
    (String.ofList cs).rawEndPos = ⟨utf8Length cs⟩ := by
  have hsize : ∀ s : String, s.rawEndPos = ⟨(utf8Bytes s).length⟩ := by
    intro s
    simp [utf8Bytes, String.rawEndPos]
  rw [hsize, length_utf8Bytes, String.toList_ofList]

namespace RestAt

variable {source : String} {p : Place} {rest : List Char}

/-- The position of the place in the text, and the two parts there. -/
theorem splits (h : RestAt source p rest) :
    ∃ front, p = Place.after {} front ∧ ∃ hvalid : String.Pos.Raw.IsValid source ⟨p.offset⟩,
      (source.pos ⟨p.offset⟩ hvalid).Splits (String.ofList front) (String.ofList rest) := by
  obtain ⟨front, hsource, hp⟩ := h
  have happend : source = String.ofList front ++ String.ofList rest := by
    rw [← String.ofList_append, ← hsource, String.ofList_toList]
  have hoffset : (⟨p.offset⟩ : String.Pos.Raw) = (String.ofList front).rawEndPos := by
    rw [rawEndPos_ofList, offset_eq hp]
  have hvalid := String.Pos.Raw.isValid_iff_exists_append.mpr ⟨_, _, happend, hoffset⟩
  exact ⟨front, hp, hvalid, happend, String.offset_pos.trans hoffset⟩

theorem isValid (h : RestAt source p rest) : String.Pos.Raw.IsValid source ⟨p.offset⟩ := by
  obtain ⟨-, -, hvalid, -⟩ := h.splits
  exact hvalid

theorem textFrom?_eq (h : RestAt source p rest) : textFrom? source p.offset = some rest := by
  obtain ⟨front, -, hvalid, hsplits⟩ := h.splits
  rw [textFrom?, dif_pos hvalid, hsplits.copy_sliceFrom_eq, String.toList_ofList]

theorem textTo?_eq (h : RestAt source p rest) :
    (textTo? source p.offset).map (Place.after {}) = some p := by
  obtain ⟨front, hp, hvalid, hsplits⟩ := h.splits
  rw [textTo?, dif_pos hvalid, hsplits.copy_sliceTo_eq, String.toList_ofList, Option.map_some,
    ← hp]

end RestAt

end Cairn
