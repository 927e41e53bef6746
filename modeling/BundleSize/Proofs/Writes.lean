import BundleSize.Proofs.Runs

/-!
# What a write leaves alone

Writing a file sets the bytes of one place. Where paths lead is decided by the
directories alone, and a write makes none: the place that it sets has its directory
already (`FileTree.inDirectory_of_find`). So afterwards every path leads where it led
before, and a file is changed only if its place is the one that was written.

Writing again at the same path then finds the same place, and what was written before is
gone without a trace (`FileTree.write_write`). However often a path is written, the tree
is the first one or the result of a single write, which is what `MayBecome` says.
-/

namespace BundleSize

variable {α : Type}

theorem setBytes_setBytes (steps : List String) (bytes bytes' : Text.Bytes)
    (files : List (List String × Text.Bytes)) :
    setBytes steps bytes' (setBytes steps bytes files) = setBytes steps bytes' files := by
  induction files with
  | nil => simp [setBytes]
  | cons file files ih =>
    by_cases h : file.1 = steps
    · simp [setBytes, h]
    · simp [setBytes, h, ih]

theorem any_setBytes (P : List String → Bool) (steps : List String) (bytes : Text.Bytes)
    (files : List (List String × Text.Bytes)) :
    (setBytes steps bytes files).any (fun file => P file.1)
      = (P steps || files.any fun file => P file.1) := by
  induction files with
  | nil => simp [setBytes]
  | cons file files ih =>
    by_cases h : file.1 = steps
    · simp [setBytes, h]
    · simp only [setBytes, if_neg h, List.any_cons, ih]
      exact Bool.or_left_comm _ _ _

namespace FileTree

variable {t t' : FileTree} {steps place : List String} {bytes bytes' : Text.Bytes} {p : Path}

@[simp] theorem put_put (t : FileTree) (steps : List String) (bytes bytes' : Text.Bytes) :
    (t.put steps bytes).put steps bytes' = t.put steps bytes' := by
  simp only [put, setBytes_setBytes]

/-! ## Directories -/

theorem hasDirectory_nil (t : FileTree) : t.hasDirectory [] = true := by
  simp [hasDirectory, List.isPrefixOf]

theorem hasDirectory_home (t : FileTree) : t.hasDirectory t.home = true := by
  simp [hasDirectory]

theorem hasDirectory_mono (hle : steps <+: place) (h : t.hasDirectory place = true) :
    t.hasDirectory steps = true := by
  simp only [hasDirectory, Bool.or_eq_true, List.any_eq_true, List.isPrefixOf_iff_prefix,
    Bool.and_eq_true, decide_eq_true_eq] at h ⊢
  rcases h with (hhome | ⟨directory, hmem, hsub⟩) | ⟨file, hmem, hsub, hlength⟩
  · exact .inl (.inl (hle.trans hhome))
  · exact .inl (.inr ⟨directory, hmem, hle.trans hsub⟩)
  · exact .inr ⟨file, hmem, hle.trans hsub, Nat.lt_of_le_of_lt hle.length_le hlength⟩

/-- The place is a directory, or it is in one. -/
def InDirectory (t : FileTree) (place : List String) : Prop :=
  t.hasDirectory place = true
    ∨ ∃ parent step, place = parent ++ [step] ∧ t.hasDirectory parent = true

theorem inDirectory_of_walk : ∀ {steps place found : List String}, t.InDirectory place →
    t.walk place steps = .ok found → t.InDirectory found
  | [], _, _, hplace, h => by
    obtain rfl := Except.ok.inj h
    exact hplace
  | step :: rest, place, found, _, h => by
    rw [walk] at h
    split at h
    · rename_i hdirectory
      refine inDirectory_of_walk ?_ h
      split
      · exact .inl (hasDirectory_mono (List.dropLast_prefix place) hdirectory)
      · exact .inr ⟨place, step, rfl, hdirectory⟩
    · cases h

theorem inDirectory_of_find (h : t.find p = .ok place) : t.InDirectory place := by
  refine inDirectory_of_walk (.inl ?_) h
  split
  · exact t.hasDirectory_home
  · exact t.hasDirectory_nil

/-- A file that is put into a directory makes no directory. -/
theorem hasDirectory_put (hplace : t.InDirectory place) (steps : List String) :
    (t.put place bytes).hasDirectory steps = t.hasDirectory steps := by
  -- the only new directories could be those on the way to the place
  have hany := any_setBytes
    (fun name => steps.isPrefixOf name && decide (steps.length < name.length)) place bytes t.files
  have hput : (t.put place bytes).hasDirectory steps
      = ((steps.isPrefixOf place && decide (steps.length < place.length))
        || t.hasDirectory steps) := by
    simp only [hasDirectory, put, hany]
    exact Bool.or_left_comm _ _ _
  rw [hput, Bool.or_eq_right_iff_imp, Bool.and_eq_true, List.isPrefixOf_iff_prefix,
    decide_eq_true_eq]
  rintro ⟨hsub, hlength⟩
  rcases hplace with hplace | ⟨parent, step, rfl, hparent⟩
  · exact hasDirectory_mono hsub hplace
  · have hle : steps.length ≤ parent.length := by
      rw [List.length_append, List.length_singleton] at hlength
      omega
    exact hasDirectory_mono
      (List.prefix_of_prefix_length_le hsub (List.prefix_append parent [step]) hle) hparent

/-! ## Places and contents -/

theorem reach_eq_ok_iff {access : Access} : t.reach access p = .ok place ↔
    t.refusals.lookup (access, p) = none ∧ t.find p = .ok place := by
  unfold reach
  cases t.refusals.lookup (access, p) with
  | none => simp
  | some fault => simp

theorem walk_leadsNowhere : ∀ {start steps : List String} {fault : FileFault},
    t.walk start steps = .error fault → fault.leadsNowhere = true
  | _, [], _, h => by cases h
  | start, step :: rest, fault, h => by
    rw [walk] at h
    split at h
    · exact walk_leadsNowhere h
    · obtain rfl := Except.error.inj h
      unfold faultAt
      split <;> rfl

/-- The bytes of the file that a path leads to. -/
def contents? (t : FileTree) (p : Path) : Option Text.Bytes := (t.find p).toOption.bind t.bytes?

/-- Whether there is a file depends on the file, and on what the system refuses. -/
theorem isFile_eq (t : FileTree) (p : Path) :
    t.isFile p
      = if hasNull p then .ok false
        else
          match t.refusals.lookup (.look, p) with
          | some fault =>
            if fault.leadsNowhere then .ok false else .error (.blocked fault p.toText)
          | none => .ok (t.contents? p).isSome := by
  unfold isFile reach contents?
  congr 1
  cases t.refusals.lookup (.look, p) with
  | some fault => rfl
  | none =>
    cases hfind : t.find p with
    | ok place => rfl
    | error fault => simp only [walk_leadsNowhere hfind, if_true]; rfl

theorem contents?_isSome_of_isFile (h : t.isFile p = .ok true) : (t.contents? p).isSome = true := by
  rw [isFile_eq] at h
  split at h
  · cases h
  · split at h
    · split at h <;> cases h
    · exact Except.ok.inj h

/-- What is read at a path that leads to a file depends on the file, and on what the system
refuses. -/
theorem read_eq_of_contents? (h : t.contents? p = some bytes) :
    t.read p
      = if hasNull p then .error .nullInPath
        else
          match t.refusals.lookup (.read, p) with
          | some fault => .error (.blocked fault p.toText)
          | none => .ok bytes := by
  unfold contents? at h
  unfold read reach
  cases t.refusals.lookup (.read, p) with
  | some fault => rfl
  | none =>
    cases hfind : t.find p with
    | error fault =>
      rw [hfind] at h
      cases h
    | ok place =>
      rw [hfind] at h
      have hbytes : t.bytes? place = some bytes := h
      simp only [hbytes]

theorem walk_put (hplace : t.InDirectory place) : ∀ (start steps : List String),
    ((t.put place bytes).walk start steps).toOption = (t.walk start steps).toOption
  | _, [] => rfl
  | start, step :: rest => by
    simp only [walk, hasDirectory_put hplace]
    split
    · exact walk_put hplace _ rest
    · rfl

theorem find_put (hplace : t.InDirectory place) (p : Path) :
    ((t.put place bytes).find p).toOption = (t.find p).toOption :=
  walk_put hplace _ _

/-! ## Writes at one path -/

theorem write_eq_ok_iff : t.write p bytes = .ok t' ↔
    hasNull p = false ∧ ∃ place, t.reach .write p = .ok place ∧ t.hasDirectory place = false
      ∧ t' = t.put place bytes := by
  unfold write
  constructor
  · intro h
    split at h
    · cases h
    · rename_i hnull
      split at h
      · cases h
      · rename_i place hreach
        split at h
        · cases h
        · rename_i hdirectory
          exact ⟨by simpa using hnull, place, hreach, by simpa using hdirectory,
            (Except.ok.inj h).symm⟩
  · rintro ⟨hnull, place, hreach, hdirectory, rfl⟩
    simp [hnull, hreach, hdirectory]

/-- Where a path led before a write it leads afterwards. -/
theorem find_of_write (h : t.write p bytes = .ok t') (q : Path) :
    (t'.find q).toOption = (t.find q).toOption := by
  obtain ⟨-, place, hreach, -, rfl⟩ := write_eq_ok_iff.mp h
  exact find_put (inDirectory_of_find (reach_eq_ok_iff.mp hreach).2) q

theorem contents?_of_write (h : t.write p bytes = .ok t') : t'.contents? p = some bytes := by
  have hsame := find_of_write h p
  obtain ⟨-, place, hreach, -, rfl⟩ := write_eq_ok_iff.mp h
  rw [(reach_eq_ok_iff.mp hreach).2] at hsame
  rw [contents?, hsame]
  exact (bytes?_put t place place bytes).trans (if_pos rfl)

/-- A second write at the same path has the result that it would have as the first. -/
theorem write_write (h : t.write p bytes = .ok t') (bytes' : Text.Bytes) :
    t'.write p bytes' = t.write p bytes' := by
  obtain ⟨hnull, place, hreach, hdirectory, rfl⟩ := write_eq_ok_iff.mp h
  obtain ⟨hallowed, hfind⟩ := reach_eq_ok_iff.mp hreach
  have hplace := inDirectory_of_find hfind
  have hagain : (t.put place bytes).reach .write p = .ok place := by
    refine reach_eq_ok_iff.mpr ⟨hallowed, eq_ok_of_toOption ?_⟩
    rw [find_put hplace p, hfind]
    rfl
  have hfirst : t.write p bytes' = .ok (t.put place bytes') :=
    write_eq_ok_iff.mpr ⟨hnull, place, hreach, hdirectory, rfl⟩
  rw [hfirst]
  exact write_eq_ok_iff.mpr ⟨hnull, place, hagain, by rwa [hasDirectory_put hplace],
    (put_put t place bytes bytes').symm⟩

/-- What a tree is, or becomes when files are written at the path, if there is one. -/
inductive MayBecome (t : FileTree) : Option Path → FileTree → Prop
  | same {output : Option Path} : t.MayBecome output t
  | written {p : Path} {bytes : Text.Bytes} {t' : FileTree} (hwrite : t.write p bytes = .ok t') :
      t.MayBecome (some p) t'

namespace MayBecome

variable {output : Option Path} {t'' : FileTree}

theorem write_eq (h : t.MayBecome (some p) t') (bytes : Text.Bytes) :
    t'.write p bytes = t.write p bytes := by
  cases h with
  | same => rfl
  | written hwrite => exact write_write hwrite bytes

theorem trans (h : t.MayBecome output t') (h' : t'.MayBecome output t'') :
    t.MayBecome output t'' := by
  cases h' with
  | same => exact h
  | written hwrite => exact .written ((h.write_eq _).symm.trans hwrite)

/-- Bytes change only where the path leads. -/
theorem bytes?_eq (h : t.MayBecome output t')
    (hplace : ∀ p, output = some p → t.find p ≠ .ok place) : t'.bytes? place = t.bytes? place := by
  cases h with
  | same => rfl
  | @written p bytes _ hwrite =>
    obtain ⟨-, found, hreach, -, rfl⟩ := write_eq_ok_iff.mp hwrite
    have hne : place ≠ found := by
      rintro rfl
      exact hplace p rfl (reach_eq_ok_iff.mp hreach).2
    rw [bytes?_put, if_neg hne]

theorem refusals_eq (h : t.MayBecome output t') : t'.refusals = t.refusals := by
  cases h with
  | same => rfl
  | written hwrite =>
    obtain ⟨-, found, -, -, rfl⟩ := write_eq_ok_iff.mp hwrite
    rfl

theorem find_eq (h : t.MayBecome output t') (q : Path) :
    (t'.find q).toOption = (t.find q).toOption := by
  cases h with
  | same => rfl
  | written hwrite => exact find_of_write hwrite q

/-- The file at a path that leads elsewhere keeps its bytes. -/
theorem contents?_eq {q : Path} (h : t.MayBecome output t')
    (hapart : ∀ p place, output = some p → t.find p = .ok place → t.find q ≠ .ok place) :
    t'.contents? q = t.contents? q := by
  unfold contents?
  rw [h.find_eq q]
  cases hfind : t.find q with
  | error fault => rfl
  | ok place => exact h.bytes?_eq fun p hp hplace => hapart p place hp hplace hfind

end MayBecome

end FileTree

/-! ## Analyses and the files -/

variable {t t' : FileTree} {launch : Start → Launch} {scratch : String}

namespace Minifier

variable (m : Minifier)

theorem mayBecome_keep (t : FileTree) (code : String) :
    t.MayBecome m.options.outputPath ((m.keepEffect code).on t).2 := by
  unfold keepEffect
  cases m.options.outputPath with
  | none => exact .same
  | some p =>
    simp only [Effect.on_writeText]
    cases hwrite : t.write p (TextFile.encode code) with
    | error e => exact .same
    | ok files => exact .written hwrite

variable {m}

/-- Code that can be kept is what the output path leads to from then on. -/
theorem contents?_of_kept {p : Path} {code : String} (hpath : m.options.outputPath = some p)
    (h : m.kept t code = .ok ()) :
    ((m.keepEffect code).on t).2.contents? p = some (TextFile.encode code) := by
  simp only [kept, keepEffect, hpath, Effect.on_writeText] at h ⊢
  cases hwrite : t.write p (TextFile.encode code) with
  | error e =>
    rw [hwrite] at h
    cases h
  | ok files => exact FileTree.contents?_of_write hwrite

theorem kept_eq_of_mayBecome (h : t.MayBecome m.options.outputPath t') (code : String) :
    m.kept t' code = m.kept t code := by
  rw [kept_eq, kept_eq]
  cases hpath : m.options.outputPath with
  | none => rfl
  | some p =>
    rw [hpath] at h
    simp only [h.write_eq]

end Minifier

end BundleSize
