import BundleSize.Proofs.Characters
import BundleSize.Proofs.LineFeeds
import BundleSize.Offsets.Translator
import BundleSize.Syntax.Marking
import BundleSize.Syntax.Program

/-!
# Places of syntax errors

The search for the first fault of a tree goes only where an error is flagged. When the
flags are right it misses none, so it finds the first one in the order of the text
(`Node.firstError_eq_find?`). A tree without faults is not flagged and is a program.

The fault tells its column in bytes. The beginning of its line lies that many bytes
before it, and behind the same line feed where the line begins in characters, since no
other character has the byte of a line feed in it (`Text.rdropWhile_utf8`). Both ends are
converted from bytes to characters, and what wide characters of earlier lines take in
excess cancels out (`Program.errorAt_of_pointBehind`).
-/

namespace BundleSize

namespace Text

theorem utf8_append (s t : List Char) : utf8 (s ++ t) = utf8 s ++ utf8 t :=
  List.flatMap_append ..

theorem utf8_singleton (c : Char) : utf8 [c] = String.utf8EncodeChar c :=
  List.flatMap_singleton ..

theorem length_utf8 (s : List Char) : (utf8 s).length = byteLength s := by
  induction s with
  | nil => rfl
  | cons c s ih =>
      rw [utf8, List.flatMap_cons, List.length_append, String.length_utf8EncodeChar, byteLength,
        ← ih, utf8]

/-- The byte of a line feed is in no other character. -/
theorem ne_of_mem_utf8EncodeChar {c : Char} (hc : c ≠ '\n') {b : UInt8}
    (hb : b ∈ String.utf8EncodeChar c) : b ≠ 10 := by
  have hcode : c.val.toNat ≠ 10 := fun h => hc (Char.ext (UInt32.toNat_inj.mp h))
  have hten : (10 : UInt8).toNat = 10 := rfl
  rintro rfl
  simp only [String.utf8EncodeChar] at hb
  -- one byte is the code itself, and of several bytes each is 128 or more
  split at hb
  · simp only [List.mem_singleton, ← UInt8.toNat_inj, UInt8.toNat_ofNat'] at hb
    omega
  · split at hb
    · simp only [List.mem_cons, List.not_mem_nil, or_false, ← UInt8.toNat_inj,
        UInt8.toNat_ofNat'] at hb
      omega
    · split at hb
      · simp only [List.mem_cons, List.not_mem_nil, or_false, ← UInt8.toNat_inj,
          UInt8.toNat_ofNat'] at hb
        omega
      · simp only [List.mem_cons, List.not_mem_nil, or_false, ← UInt8.toNat_inj,
          UInt8.toNat_ofNat'] at hb
        omega

theorem count_utf8 (s : List Char) : (utf8 s).count 10 = s.count '\n' := by
  induction s with
  | nil => rfl
  | cons c s ih =>
      rw [utf8, List.flatMap_cons, List.count_append, List.count_cons, ← ih, utf8, Nat.add_comm]
      congr 1
      by_cases hc : c = '\n'
      · subst hc
        decide
      · rw [List.count_eq_zero_of_not_mem fun hb => ne_of_mem_utf8EncodeChar hc hb rfl,
          if_neg (by simpa using hc)]

/-- What ends in the last line feed of a text ends in it by bytes too. -/
theorem rdropWhile_utf8 (s : List Char) :
    (utf8 s).rdropWhile (· ≠ 10) = utf8 (s.rdropWhile (· ≠ '\n')) := by
  induction s using List.reverseRecOn with
  | nil => rfl
  | append_singleton s c ih =>
      by_cases hc : c = '\n'
      · subst hc
        rw [List.rdropWhile_concat_neg _ _ _ (by simp), utf8_append]
        exact List.rdropWhile_concat_neg _ _ _ (by simp)
      · have hbytes : ∀ b ∈ (utf8 [c]).reverse, decide (b ≠ 10) = true := by
          intro b hb
          rw [utf8_singleton, List.mem_reverse] at hb
          exact decide_eq_true (ne_of_mem_utf8EncodeChar hc hb)
        rw [List.rdropWhile_concat_pos _ _ _ (by simpa using hc), ← ih, utf8_append,
          List.rdropWhile, List.reverse_append, List.dropWhile_append_of_pos hbytes,
          List.rdropWhile]

/-- The place behind the beginning of a text, by its characters. -/
theorem pointBehind_eq (s : List Char) : pointBehind s
    = { offset := byteLength s
        row := s.count '\n'
        column := byteLength s - byteLength (s.rdropWhile (· ≠ '\n')) } := by
  rw [pointBehind, rdropWhile_utf8, length_utf8, length_utf8, count_utf8]

theorem byteLength_le_of_prefix {s t : List Char} (h : s <+: t) : byteLength s ≤ byteLength t := by
  obtain ⟨rest, rfl⟩ := h
  rw [byteLength_append]
  exact Nat.le_add_right _ _

end Text

theorem ByteIndex.toChar_of_prefix (x : ByteIndex) {s : List Char} (h : s <+: x.text.toList) :
    x.toChar (Text.byteLength s) = s.length := by
  conv_lhs => rw [List.prefix_iff_eq_take.mp h]
  exact x.toChar_byteLength (by simpa only [String.length_toList] using h.length_le)

namespace Node

variable {n root : Node}

theorem nodes_eq (n : Node) : n.nodes = n :: nodesIn n.children := by
  obtain ⟨kind, named, start, stop, missing, hasError, role, children⟩ := n
  rw [nodes]

theorem firstError_eq (n : Node) :
    n.firstError = if n.isFault then some n else firstErrorIn n.children := by
  obtain ⟨kind, named, start, stop, missing, hasError, role, children⟩ := n
  rw [firstError]
  simp [isFault]

theorem Flagged.of_mem {m : Node} (h : n.Flagged) (hm : m ∈ n.nodes) : m.Flagged :=
  fun k hk => h k (mem_nodes_trans hm hk)

theorem Flagged.hasError_iff (h : n.Flagged) :
    n.hasError = true ↔ ∃ m ∈ n.nodes, m.isFault = true :=
  h n (self_mem_nodes n)

/-- A part that is passed over has no fault in it. -/
theorem Flagged.find?_eq_none (h : n.Flagged) (hplain : (n.hasError || n.missing) = false) :
    n.nodes.find? isFault = none := by
  rw [List.find?_eq_none]
  intro m hm hfault
  rw [h.hasError_iff.mpr ⟨m, hm, hfault⟩] at hplain
  cases hplain

theorem firstErrorIn_eq_find? {cs : List Node} (hflagged : ∀ c ∈ cs, c.Flagged)
    (hfirst : ∀ c ∈ cs, c.firstError = c.nodes.find? isFault) :
    firstErrorIn cs = (nodesIn cs).find? isFault := by
  induction cs with
  | nil => rfl
  | cons c cs ih =>
      have ih := ih (fun d hd => hflagged d (List.mem_cons_of_mem c hd))
        fun d hd => hfirst d (List.mem_cons_of_mem c hd)
      rw [firstErrorIn, nodesIn, List.find?_append, ih, hfirst c (List.mem_cons_self ..)]
      split
      · cases c.nodes.find? isFault <;> rfl
      · rename_i hplain
        rw [(hflagged c (List.mem_cons_self ..)).find?_eq_none (by simpa using hplain),
          Option.none_or]

/-- In a tree that is flagged rightly the first fault is found. -/
theorem firstError_eq_find? (h : root.Flagged) : root.firstError = root.nodes.find? isFault := by
  induction root using inductionOn with
  | step n ih =>
      have hparts : ∀ c ∈ n.children, c.Flagged :=
        fun c hc => h.of_mem (mem_nodes_of_mem_children hc)
      rw [firstError_eq, nodes_eq, List.find?_cons,
        firstErrorIn_eq_find? hparts fun c hc => ih c hc (hparts c hc)]
      cases n.isFault <;> rfl

end Node

namespace Program

open Node

variable {text : String} {root n : Node}

/-- The error that a node marks tells its line and column in characters. -/
theorem errorAt_of_pointBehind {front : List Char} (hfront : front <+: text.toList)
    (hstart : n.start = Text.pointBehind front) :
    errorAt (.ofText text) n
      = (if n.missing then SyntaxError.missing else SyntaxError.unexpected)
          (1 + front.count '\n') (front.length - (front.rdropWhile (· ≠ '\n')).length) := by
  have hline : front.rdropWhile (· ≠ '\n') <+: front := List.rdropWhile_prefix _ _
  have hbegin := ByteIndex.toChar_of_prefix (.ofText text) (hline.trans hfront)
  have hend := ByteIndex.toChar_of_prefix (.ofText text) hfront
  have hbytes : ((Text.byteLength front : Nat) : Int)
      - (Text.byteLength front - Text.byteLength (front.rdropWhile (· ≠ '\n')) : Nat)
        = Text.byteLength (front.rdropWhile (· ≠ '\n')) := by
    have := Text.byteLength_le_of_prefix hline
    omega
  rw [errorAt, hstart, Text.pointBehind_eq]
  simp only
  rw [hbytes, ByteIndex.toCharFrom, if_pos (Int.natCast_nonneg _), Int.toNat_natCast, hbegin, hend,
    Nat.add_comm 1]
  cases n.missing <;> rfl

theorem exists_ofTree_iff (h : root.Flagged) :
    (∃ program, ofTree text root = .ok program) ↔ ∀ n ∈ root.nodes, n.isFault = false := by
  rw [ofTree, firstError_eq_find? h]
  cases hfault : root.nodes.find? isFault with
  | none =>
      rw [List.find?_eq_none] at hfault
      have hplain : root.hasError = false := by
        rw [← Bool.not_eq_true, h.hasError_iff]
        rintro ⟨m, hm, hmfault⟩
        exact hfault m hm hmfault
      rw [hplain]
      exact iff_of_true ⟨_, rfl⟩ fun n hn => Bool.not_eq_true _ ▸ hfault n hn
  | some n =>
      have hn := List.find?_some hfault
      have hmem := List.mem_of_find?_eq_some hfault
      rw [h.hasError_iff.mpr ⟨n, hmem, hn⟩]
      refine iff_of_false (fun ⟨program, hprogram⟩ => nomatch hprogram) fun hnone => ?_
      rw [hnone n hmem] at hn
      cases hn

/-- The first fault is the one that is reported. -/
theorem ofTree_of_fault (h : root.Flagged) (hfault : root.nodes.find? isFault = some n) :
    ofTree text root = .error (errorAt (.ofText text) n) := by
  have hflag : root.hasError = true :=
    h.hasError_iff.mpr ⟨n, List.mem_of_find?_eq_some hfault, List.find?_some hfault⟩
  rw [ofTree, firstError_eq_find? h, hfault, hflag]
  rfl

/-- **Syntax errors are located in characters.** Let the nodes of a tree be flagged exactly where
faults lie in them, and tell where they begin. Then the text is a program exactly if the tree has
no fault. Otherwise the error is that of the first fault in the order of the text, and is never
without a place: its line is one more than the line feeds before the fault and its column counts
the characters behind the last of them, which is the position that its offset has everywhere
else. -/
theorem ofTree_locates (hflagged : root.Flagged) (hplaced : root.PlacedIn text) :
    ((∃ program, ofTree text root = .ok program) ↔ ∀ n ∈ root.nodes, n.isFault = false)
      ∧ ofTree text root ≠ .error .unlocated
      ∧ ∀ n, root.nodes.find? isFault = some n → ∃ (offset line : Nat) (column : Int),
        offset ≤ text.length ∧ n.start = Text.pointBehind (text.toList.take offset)
          ∧ (ByteIndex.ofText text).toChar n.start.offset = offset
          ∧ line = 1 + (text.toList.take offset).count '\n'
          ∧ column = offset - ((text.toList.take offset).rdropWhile (· ≠ '\n')).length
          ∧ ofTree text root
            = .error (if n.missing then .missing line column else .unexpected line column)
          ∧ ∀ minified table,
            (Translator.ofTexts text minified table).code.position offset = ⟨line, column⟩ := by
  have hlocated : ∀ n, root.nodes.find? isFault = some n → ∃ offset ≤ text.length,
      n.start = Text.pointBehind (text.toList.take offset)
        ∧ ofTree text root = .error (errorAt (.ofText text) n) := fun n hfault => by
    obtain ⟨offset, hle, hstart⟩ := hplaced n (List.mem_of_find?_eq_some hfault)
    exact ⟨offset, hle, hstart, ofTree_of_fault hflagged hfault⟩
  have hfront (offset : Nat) : text.toList.take offset <+: text.toList := List.take_prefix _ _
  refine ⟨exists_ofTree_iff hflagged, fun hunlocated => ?_, fun n hfault => ?_⟩
  · cases hfault : root.nodes.find? isFault with
    | none =>
        obtain ⟨program, hprogram⟩ := (exists_ofTree_iff hflagged).mpr fun n hn =>
          Bool.not_eq_true _ ▸ List.find?_eq_none.mp hfault n hn
        cases hprogram.symm.trans hunlocated
    | some n =>
        obtain ⟨offset, -, hstart, herror⟩ := hlocated n hfault
        have hplace := herror.symm.trans hunlocated
        rw [errorAt_of_pointBehind (hfront offset) hstart] at hplace
        cases hmissing : n.missing <;> simp [hmissing] at hplace
  · obtain ⟨offset, hle, hstart, herror⟩ := hlocated n hfault
    have hlength : (text.toList.take offset).length = offset := by
      rw [List.length_take, String.length_toList, Nat.min_eq_left hle]
    have hchar := ByteIndex.toChar_of_prefix (.ofText text) (hfront offset)
    refine ⟨offset, _, _, hle, hstart, ?_, rfl, rfl, ?_, fun minified table => ?_⟩
    · rw [hstart, Text.pointBehind_eq]
      exact hchar.trans hlength
    · rw [herror, errorAt_of_pointBehind (hfront offset) hstart, hlength]
      cases n.missing <;> rfl
    · exact (LineIndex.ofText text).position_eq_count offset

/-- Two lines with characters of two, three and four bytes. The second one lacks a value, and the
parser assumed a semicolon behind it. -/
def valueless : Node :=
  { kind := .program, start := {}, stop := 18, hasError := true
    children := [
      { kind := .expressionStatement, start := {}, stop := 5 },
      { kind := .lexicalDeclaration, start := ⟨6, 1, 0⟩, stop := 18, hasError := true
        children := [
          { kind := .variableDeclarator, start := ⟨10, 1, 4⟩, stop := 18, hasError := true
            children := [
              { kind := .identifier, start := ⟨10, 1, 4⟩, stop := 14, role := some .name },
              { kind := .error, start := ⟨17, 1, 11⟩, stop := 18, hasError := true }] },
          { kind := .other ";", named := false, start := ⟨18, 1, 12⟩, stop := 18, missing := true
            hasError := true }] }] }

theorem ofTree_locates_valueless : valueless.Flagged ∧ valueless.PlacedIn "é☃\nlet 😀 = ;"
    ∧ ofTree "é☃\nlet 😀 = ;" valueless = .error (.unexpected 2 8)
    ∧ (LineIndex.ofText "é☃\nlet 😀 = ;").position 11 = ⟨2, 8⟩ := by
  have hflagged : valueless.Flagged := by decide +kernel
  have hplaced : valueless.PlacedIn "é☃\nlet 😀 = ;" := by decide +kernel
  obtain ⟨-, -, hlocated⟩ := ofTree_locates hflagged hplaced
  obtain ⟨offset, line, column, -, -, hoffset, hline, hcolumn, herror, hposition⟩ :=
    hlocated { kind := .error, start := ⟨17, 1, 11⟩, stop := 18, hasError := true } rfl
  have hchars : (ByteIndex.ofText "é☃\nlet 😀 = ;").toChar 17 = 11 := by decide +kernel
  obtain rfl : offset = 11 := hoffset.symm.trans hchars
  obtain rfl : line = 2 := hline.trans (by decide +kernel)
  obtain rfl : column = 8 := hcolumn.trans (by decide +kernel)
  exact ⟨hflagged, hplaced, herror, hposition none none⟩

end Program

end BundleSize
