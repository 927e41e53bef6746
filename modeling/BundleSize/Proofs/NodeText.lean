import BundleSize.Proofs.Characters
import BundleSize.Syntax.Program

/-!
# The text of a node

A node tells by bytes where it begins and ends. Its text is cut out of the program
by characters, and is still what these bytes spell: the bytes of a part of a text
are the part of its bytes (`Text.utf8Encode_take_drop`), and the index converts the
ends of the one part into the ends of the other (`ByteIndex.toChar_byteLength`).
-/

namespace BundleSize

namespace Text

theorem size_utf8Encode (s : List Char) : s.utf8Encode.size = byteLength s := by
  induction s with
  | nil => rfl
  | cons c s ih =>
      rw [List.utf8Encode_cons, ByteArray.size_append, List.utf8Encode_singleton,
        List.size_toByteArray, String.length_utf8EncodeChar, ih, byteLength]

/-- The bytes of a part of a text are the part of its bytes. -/
theorem utf8Encode_take_drop (s : List Char) {i j : Nat} (h : i ≤ j) :
    ((s.take j).drop i).utf8Encode
      = s.utf8Encode.extract (byteLength (s.take i)) (byteLength (s.take j)) := by
  have htake : s.take j = s.take i ++ (s.take j).drop i := by
    have hsplit := List.take_append_drop i (s.take j)
    rw [List.take_take, Nat.min_eq_left h] at hsplit
    exact hsplit.symm
  have hparts : s.utf8Encode
      = (s.take i).utf8Encode ++ (((s.take j).drop i).utf8Encode ++ (s.drop j).utf8Encode) := by
    rw [← List.utf8Encode_append, ← List.utf8Encode_append, ← List.append_assoc, ← htake,
      List.take_append_drop]
  have hstop : byteLength (s.take j)
      = (s.take i).utf8Encode.size + ((s.take j).drop i).utf8Encode.size := by
    rw [size_utf8Encode, size_utf8Encode, ← byteLength_append, ← htake]
  rw [hparts, hstop, ← size_utf8Encode, ← Nat.add_zero (s.take i).utf8Encode.size,
    Nat.add_assoc, ByteArray.extract_append_size_add, Nat.zero_add]
  exact (ByteArray.extract_append_eq_left rfl).symm

end Text

theorem ByteIndex.toChar_of_ascii (x : ByteIndex) (h : Text.IsAscii x.text) (offset : Nat) :
    x.toChar offset = offset := by
  have hwide : x.wide = #[] := by rw [x.wide_eq, wideEndsFrom_of_ascii 0 0 h]
  have hpassed : (partitionPoint x.wide fun w => w.stop ≤ offset) = 0 := by
    rw [hwide]
    exact @partitionPoint_append _ _ [] [] (List.forall_mem_nil _) (List.forall_mem_nil _)
  rw [toChar, excess, hpassed, if_pos rfl, Nat.sub_zero]

namespace Program

theorem toUTF8_slice (p : Program) {i j : Nat} (h : i ≤ j) :
    (p.slice i j).toUTF8 = p.text.toUTF8.extract (Text.byteLength (p.text.toList.take i))
      (Text.byteLength (p.text.toList.take j)) := by
  have hwhole : p.text.toUTF8 = p.text.toList.utf8Encode := by
    rw [String.toUTF8_eq_toByteArray, ← String.toByteArray_ofList, String.ofList_toList]
  rw [slice, hwhole, String.toUTF8_eq_toByteArray, String.toByteArray_ofList,
    Text.utf8Encode_take_drop _ h]

/-- The characters before an offset take as many bytes as they have in UTF-8. -/
theorem size_toUTF8_slice (p : Program) (i : Nat) :
    (p.slice 0 i).toUTF8.size = Text.byteLength (p.text.toList.take i) := by
  rw [slice, List.drop_zero, String.toUTF8_eq_toByteArray, String.toByteArray_ofList,
    Text.size_utf8Encode]

/-- **The text of a node is what its bytes spell.** Behind every prefix of a text stand as many
characters as the prefix has, and in ASCII every byte is one. So a node that begins and ends between
characters covers just these characters, and the bytes of its text are the bytes of the program
between its ends. -/
theorem nodeText_of_boundaries (p : Program) :
    (∀ i ≤ p.text.length, p.index.toChar (p.slice 0 i).toUTF8.size = i)
      ∧ (Text.IsAscii p.text → ∀ offset, p.index.toChar offset = offset)
      ∧ ∀ (n : Node) (i j : Nat), i ≤ p.text.length → j ≤ p.text.length →
        n.start.offset = (p.slice 0 i).toUTF8.size → n.stop = (p.slice 0 j).toUTF8.size →
        n.start.offset ≤ n.stop →
          p.range n = (i, j) ∧ i ≤ j
            ∧ (p.nodeText n).toUTF8 = p.text.toUTF8.extract n.start.offset n.stop := by
  have hchar : ∀ i ≤ p.text.length, p.index.toChar (p.slice 0 i).toUTF8.size = i := by
    intro i hi
    rw [size_toUTF8_slice]
    exact p.index.toChar_byteLength hi
  refine ⟨hchar, p.index.toChar_of_ascii, ?_⟩
  intro n i j hi hj hstart hstop hle
  have hrange : p.range n = (i, j) := by
    rw [range, hstart, hstop, hchar i hi, hchar j hj]
  have hij : i ≤ j := by
    refine Nat.le_of_not_lt fun hlt => ?_
    have := Text.byteLength_take_lt hlt (s := p.text.toList) (by rwa [String.length_toList])
    rw [hstart, hstop, size_toUTF8_slice, size_toUTF8_slice] at hle
    omega
  refine ⟨hrange, hij, ?_⟩
  rw [nodeText, hrange, p.toUTF8_slice hij, hstart, hstop, size_toUTF8_slice, size_toUTF8_slice]

/-- A program with characters of one, two, three and four bytes. -/
def snow : Program where
  root := { kind := .program, start := {}, stop := 11 }
  index := ByteIndex.ofText "aé☃😀b"

/-- The characters of three and of four bytes. -/
def drift : Node := { kind := .identifier, start := { offset := 3, column := 3 }, stop := 10 }

theorem nodeText_of_boundaries_snow :
    snow.range drift = (2, 4) ∧ 2 ≤ 4
      ∧ (snow.nodeText drift).toUTF8 = snow.text.toUTF8.extract 3 10 :=
  (nodeText_of_boundaries snow).2.2 drift 2 4 (by decide) (by decide)
    (by rw [size_toUTF8_slice]; decide) (by rw [size_toUTF8_slice]; decide) (by decide)

end Program

end BundleSize
