import BundleSize.SourceMap.Vlq

/-!
# Reading quantities

`decodeFrom_of_spellsOne` is the core: inside a number whose groups so far
have the value `value`, digits that spell `n` end that number with the value
`value + n <<< shift`, and reading goes on behind them. Nothing is assumed of
what follows. So what spells a sequence of numbers is read as them whatever
stands behind it (`decode_append_of_spells`). The written digits of a number
spell it, hence a sequence that was written is read as it was
(`decode_encode`).

Nothing else is read: the digits that were taken for a number spell one
(`spells_of_decodeFrom`), so a text is read exactly as what it spells
(`decode_eq_ok_iff`).

The written digits are digits of the alphabet (`digitOf_of_mem_encode`),
hence never one of the two separators of a mappings text.
-/

namespace BundleSize.Vlq

/-- Behind a group, a number goes on five bits higher. -/
theorem shift_group (group n shift : Nat) :
    group <<< shift + n <<< (shift + 5) = (group + 32 * n) <<< shift := by
  simp only [Nat.shiftLeft_eq, Nat.pow_add, Nat.add_mul]
  rw [Nat.mul_comm (2 ^ shift) (2 ^ 5), ← Nat.mul_assoc, Nat.mul_comm n (2 ^ 5)]

/-- Inside a number, digits that spell `n` complete it. -/
theorem decodeFrom_of_spellsOne {digits : List Char} {n : Nat} (h : SpellsOne digits n)
    (value shift : Nat) (rest : List Char) :
    decodeFrom value shift (digits ++ rest) =
      (decodeFrom 0 0 rest).map (unfoldSign (value + n <<< shift) :: ·) := by
  induction h generalizing value shift with
  | last hdigit hlast =>
      rw [List.singleton_append, decodeFrom, hdigit]
      simp only [if_pos hlast, Nat.mod_eq_of_lt hlast]
  | group hdigit hmore hdigits ih =>
      rw [List.cons_append, decodeFrom, hdigit]
      simp only [if_neg (Nat.not_lt.mpr hmore)]
      rw [ih, Nat.add_assoc, shift_group]

/-- The written digits of a number spell it. -/
theorem encodeGroups_spells (n : Nat) : SpellsOne (encodeGroups n) n := by
  fun_induction encodeGroups n with
  | case1 n hlast => exact .last (digitValue?_digitOf n (by omega)) hlast
  | case2 n hmore ih =>
      have h := SpellsOne.group (digitValue?_digitOf (32 + n % 32) (by omega)) (by omega) ih
      have hn : (32 + n % 32) % 32 + 32 * (n / 32) = n := by omega
      rwa [hn] at h

/-- What spells numbers is read as them, and reading goes on behind it. -/
theorem decode_append_of_spells {text : List Char} {ns : List Int} (h : Spells text ns)
    (rest : List Char) : decode (text ++ rest) = (decode rest).map (ns ++ ·) := by
  induction h with
  | nil =>
      show decode rest = (decode rest).map (fun l => l)
      cases decode rest <;> rfl
  | cons hdigits htext ih =>
      rw [decode] at ih ⊢
      rw [List.append_assoc, decodeFrom_of_spellsOne hdigits, ih, Nat.zero_add, Nat.shiftLeft_zero]
      cases decode rest <;> rfl

theorem decode_of_spells {text : List Char} {ns : List Int} (h : Spells text ns) :
    decode text = .ok ns := by
  have happend := decode_append_of_spells h []
  rw [List.append_nil] at happend
  simpa [decode, decodeFrom, Except.map] using happend

/-- The written digits of numbers spell them. -/
theorem encode_spells : ∀ ns : List Int, Spells (encode ns) ns
  | [] => .nil
  | n :: ns => by
      have h := Spells.cons (encodeGroups_spells (foldSign n)) (encode_spells ns)
      rwa [unfoldSign_foldSign] at h

theorem decode_encode (ns : List Int) : decode (encode ns) = .ok ns :=
  decode_of_spells (encode_spells ns)

/-! ## What is read -/

/-- What was read inside a number is nothing, of a text that ended before the number had begun, or
the number with the spelled digits as its further groups, and what the rest spells. -/
theorem spells_of_decodeFrom : ∀ {text : List Char} {value shift : Nat} {ns : List Int},
    decodeFrom value shift text = .ok ns →
      text = [] ∧ value = 0 ∧ shift = 0 ∧ ns = [] ∨
        ∃ digits rest n later, text = digits ++ rest ∧ SpellsOne digits n ∧ Spells rest later
          ∧ ns = unfoldSign (value + n <<< shift) :: later
  | [], value, shift, ns, h => by
      rw [decodeFrom] at h
      split at h
      · rename_i hstart
        exact Or.inl ⟨rfl, hstart.1, hstart.2, (Except.ok.inj h).symm⟩
      · cases h
  | c :: rest, value, shift, ns, h => by
      rw [decodeFrom] at h
      split at h
      · cases h
      · rename_i digit hdigit
        simp only at h
        split at h
        · -- The digit ends the number.
          rename_i hlast
          rw [Nat.mod_eq_of_lt hlast] at h
          cases hrest : decodeFrom 0 0 rest with
          | error e => rw [hrest] at h; cases h
          | ok later =>
              rw [hrest] at h
              refine Or.inr ⟨[c], rest, digit, later, rfl, .last hdigit hlast, ?_,
                (Except.ok.inj h).symm⟩
              rcases spells_of_decodeFrom hrest with
                ⟨rfl, -, -, rfl⟩ | ⟨digits, rest', n, later', rfl, hdigits, hlater, rfl⟩
              · exact .nil
              · rw [Nat.zero_add, Nat.shiftLeft_zero]
                exact .cons hdigits hlater
        · -- Further groups of the number follow.
          rename_i hmore
          rcases spells_of_decodeFrom h with
            ⟨-, -, hshift, -⟩ | ⟨digits, rest', n, later, rfl, hdigits, hlater, rfl⟩
          · cases hshift
          · refine Or.inr ⟨c :: digits, rest', _, later, rfl,
              .group hdigit (Nat.not_lt.mp hmore) hdigits, hlater, ?_⟩
            rw [Nat.add_assoc, shift_group]

/-- A text is read exactly as the numbers that it spells. -/
theorem decode_eq_ok_iff {text : List Char} {ns : List Int} :
    decode text = .ok ns ↔ Spells text ns := by
  refine ⟨fun h => ?_, decode_of_spells⟩
  rcases spells_of_decodeFrom h with
    ⟨rfl, -, -, rfl⟩ | ⟨digits, rest, n, later, rfl, hdigits, hlater, rfl⟩
  · exact .nil
  · rw [Nat.zero_add, Nat.shiftLeft_zero]
    exact .cons hdigits hlater

/-! ## The written digits -/

theorem encodeGroups_ne_nil (n : Nat) : encodeGroups n ≠ [] := by
  rw [encodeGroups]
  split <;> simp

theorem encode_ne_nil {ns : List Int} (h : ns ≠ []) : encode ns ≠ [] := by
  cases ns with
  | nil => exact absurd rfl h
  | cons n ns =>
      intro hnil
      rw [encode, List.flatMap_cons, List.append_eq_nil_iff] at hnil
      exact encodeGroups_ne_nil _ hnil.1

theorem digitOf_of_mem_encodeGroups {n : Nat} {c : Char} (h : c ∈ encodeGroups n) :
    ∃ digit < 64, c = digitOf digit := by
  fun_induction encodeGroups n with
  | case1 n hlast => exact ⟨n, by omega, List.mem_singleton.mp h⟩
  | case2 n hmore ih =>
      rcases List.mem_cons.mp h with rfl | h
      · exact ⟨32 + n % 32, by omega, rfl⟩
      · exact ih h

theorem digitOf_of_mem_encode {ns : List Int} {c : Char} (h : c ∈ encode ns) :
    ∃ digit < 64, c = digitOf digit := by
  obtain ⟨n, -, hc⟩ := List.mem_flatMap.mp h
  exact digitOf_of_mem_encodeGroups hc

theorem digitOf_ne_separator : ∀ digit < 64, digitOf digit ≠ ',' ∧ digitOf digit ≠ ';' := by
  decide +kernel

theorem comma_not_mem_encode (ns : List Int) : ',' ∉ encode ns := by
  intro h
  obtain ⟨digit, hdigit, hc⟩ := digitOf_of_mem_encode h
  exact (digitOf_ne_separator digit hdigit).1 hc.symm

theorem semicolon_not_mem_encode (ns : List Int) : ';' ∉ encode ns := by
  intro h
  obtain ⟨digit, hdigit, hc⟩ := digitOf_of_mem_encode h
  exact (digitOf_ne_separator digit hdigit).2 hc.symm

end BundleSize.Vlq
