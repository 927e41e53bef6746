import BundleSize.Search.Partition

/-!
# Characters by byte offset

A tree addresses the program by bytes of its UTF-8 form, everything else by
characters. The two differ by the bytes that characters beyond ASCII take in
excess of one, so the index keeps for each such character the byte offset
of its end and the excess up to there. A text in ASCII has none of them and
is not searched for any.
-/

namespace BundleSize

/-- The end of a character of several bytes, and the excess of bytes up to there. -/
structure WideEnd where
  stop : Nat
  excess : Nat
  deriving Repr, DecidableEq

/-- The wide characters of a text of which `offset` bytes, `excess` of them in excess of one for
each character, come before. -/
def wideEndsFrom (offset excess : Nat) : List Char → List WideEnd
  | [] => []
  | c :: rest =>
    let width := c.utf8Size
    if width = 1 then wideEndsFrom (offset + 1) excess rest
    else
      ⟨offset + width, excess + (width - 1)⟩ ::
        wideEndsFrom (offset + width) (excess + (width - 1)) rest

/-- The text has ASCII characters only. -/
def Text.IsAscii (text : String) : Prop := ∀ c ∈ text.toList, c.toNat < 128

instance (text : String) : Decidable (Text.IsAscii text) :=
  decidable_of_iff (text.toList.all (·.toNat < 128) = true) (by simp [Text.IsAscii])

theorem wideEndsFrom_of_ascii (offset excess : Nat) {s : List Char}
    (h : ∀ c ∈ s, c.toNat < 128) : wideEndsFrom offset excess s = [] := by
  induction s generalizing offset with
  | nil => rfl
  | cons c rest ih =>
      have hwidth : c.utf8Size = 1 := by
        have hlt := h c (List.mem_cons_self ..)
        rw [Char.utf8Size_eq_one_iff, UInt32.le_iff_toNat_le]
        show c.toNat ≤ 127
        omega
      simp only [wideEndsFrom, hwidth, if_true]
      exact ih _ fun d hd => h d (List.mem_cons_of_mem c hd)

/-- The wide characters of a text. -/
structure ByteIndex where
  text : String
  wide : Array WideEnd
  wide_eq : wide = (wideEndsFrom 0 0 text.toList).toArray

namespace ByteIndex

def ofText (text : String) : ByteIndex :=
  { text
    wide := if Text.IsAscii text then #[] else (wideEndsFrom 0 0 text.toList).toArray
    wide_eq := by
      split
      · rename_i h
        rw [wideEndsFrom_of_ascii 0 0 h]
      · rfl }

/-- The bytes in excess of one per character before a byte offset. -/
def excess (x : ByteIndex) (offset : Nat) : Nat :=
  let passed := partitionPoint x.wide fun w => w.stop ≤ offset
  if passed = 0 then 0 else (x.wide[passed - 1]?.map (·.excess)).getD 0

/-- The character offset of a byte offset. -/
def toChar (x : ByteIndex) (offset : Nat) : Nat := offset - x.excess offset

/-- The character offset of a byte offset that may lie before the text. -/
def toCharFrom (x : ByteIndex) (offset : Int) : Int :=
  if 0 ≤ offset then x.toChar offset.toNat else offset

end ByteIndex

end BundleSize
