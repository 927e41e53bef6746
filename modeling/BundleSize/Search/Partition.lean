/-!
# Partition points

In a sequence where every element with a property stands before every
element without it, the partition point is the number of elements with the
property. Halving the range of candidates finds it. The sequence has to be
partitioned for the answer to mean anything: `partitionPoint_spec` says
that then the elements before the point have the property and the ones from
the point on have not.
-/

namespace BundleSize

/-- Halves the candidates from `lo` up to `hi` until one is left. -/
def partitionPointIn (xs : Array α) (p : α → Bool) (lo hi : Nat) (h : hi ≤ xs.size) : Nat :=
  if hlt : lo < hi then
    let mid := (lo + hi) / 2
    have hmid : mid < xs.size := by omega
    if p xs[mid] then partitionPointIn xs p (mid + 1) hi h
    else partitionPointIn xs p lo mid (by omega)
  else lo
  termination_by hi - lo

/-- The number of elements with the property, all of which stand before the others. -/
def partitionPoint (xs : Array α) (p : α → Bool) : Nat :=
  partitionPointIn xs p 0 xs.size (Nat.le_refl _)

/-- Every element with the property stands before every element without it. -/
def Partitioned (xs : Array α) (p : α → Bool) : Prop :=
  ∀ i j (hj : j < xs.size) (hij : i ≤ j), p xs[j] = true → p xs[i] = true

/-- `k` is the place where the elements with the property end. -/
def IsPartitionPoint (xs : Array α) (p : α → Bool) (k : Nat) : Prop :=
  k ≤ xs.size ∧ (∀ i (h : i < xs.size), i < k → p xs[i] = true) ∧
    (∀ i (h : i < xs.size), k ≤ i → p xs[i] = false)

theorem partitionPointIn_spec {xs : Array α} {p : α → Bool} (hp : Partitioned xs p)
    {lo hi : Nat} {h : hi ≤ xs.size} (hle : lo ≤ hi)
    (hlo : ∀ i (h : i < xs.size), i < lo → p xs[i] = true)
    (hhi : ∀ i (h : i < xs.size), hi ≤ i → p xs[i] = false) :
    IsPartitionPoint xs p (partitionPointIn xs p lo hi h) := by
  fun_induction partitionPointIn xs p lo hi h with
  | case1 lo hi h hlt mid hmid hpm ih =>
    refine ih (by omega) (fun i hi' hlt' => ?_) hhi
    exact hp i mid hmid (by omega) hpm
  | case2 lo hi h hlt mid hmid hpm ih =>
    refine ih (by omega) hlo (fun i hi' hle' => ?_)
    cases hpi : p xs[i] with
    | false => rfl
    | true => exact absurd (hp mid i hi' hle' hpi) hpm
  | case3 lo hi h hlt =>
    obtain rfl : lo = hi := by omega
    exact ⟨h, hlo, hhi⟩

theorem partitionPoint_spec {xs : Array α} {p : α → Bool} (hp : Partitioned xs p) :
    IsPartitionPoint xs p (partitionPoint xs p) :=
  partitionPointIn_spec hp (Nat.zero_le _) (fun _ _ h => absurd h (Nat.not_lt_zero _))
    (fun _ h hle => absurd h (Nat.not_lt.mpr hle))

end BundleSize
