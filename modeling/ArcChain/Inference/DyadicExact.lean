/-
Where the dyadic operators stay inside their machine integers.  Each
operator's lemma names the magnitudes it relies on and says that every
faithful arithmetic evaluates it as unbounded integers do, without an
overflow; what an operator returns is at most `2 ^ 62` in magnitude
(`Small`), which is what the next one relies on.

Two bounds are not checked by the source: the attention accumulators hold
at most `2 ^ 16` positions, and a wide score fewer than `2 ^ 34` columns.
-/
import ArcChain.Inference.DyadicModel

namespace ArcChain

open MachineInt Finset LimbKernel Arith

namespace Dyadic

variable {ar : Arith Stop}

/-! ## Magnitudes -/

/-- A vector of stored activations. -/
def Small (x : List Int) : Prop := ∀ v ∈ x, |v| ≤ activationLimit

variable {x : List Int}

theorem Small.getD (h : Small x) (i : Nat) : |x.getD i 0| ≤ activationLimit := by
  by_cases hi : i < x.length
  · rw [List.getD_eq_getElem _ _ hi]
    exact h _ (List.getElem_mem hi)
  · rw [List.getD_eq_default _ _ (Nat.le_of_not_lt hi)]
    decide

theorem toActivation_agrees (value : Int) (what : String) :
    Agrees .overflow (|·| ≤ activationLimit) (toActivation value what)
      (toActivation value what) := by
  rw [toActivation]
  split
  · exact .error nofun
  · rename_i hsmall
    exact .ok (not_lt.mp hsmall)

theorem checked128_agrees (value : Int) (what : String) :
    Agrees .overflow (· = value) (checked128 value what) (checked128 value what) := by
  rw [checked128]
  split
  · exact .ok rfl
  · exact .error nofun

theorem abs_toInt32_le (v : Int32) : |v.toInt| ≤ 2 ^ 31 := by
  have hlow := v.le_toInt
  have hhigh := v.toInt_lt
  exact abs_le.mpr ⟨by omega, by omega⟩

/-- A right shift does not raise a magnitude. -/
theorem abs_shiftRight_le (v : Int) (n : Nat) : |v >>> n| ≤ |v| := by
  rw [Int.shiftRight_eq_div_pow]
  have hpos : (1 : Int) ≤ ((2 ^ n : Nat) : Int) := by exact_mod_cast Nat.one_le_two_pow
  rcases le_total 0 v with hv | hv
  · rw [abs_of_nonneg hv, abs_of_nonneg (Int.ediv_nonneg hv (by omega))]
    exact Int.ediv_le_self _ hv
  · have hle : v / ((2 ^ n : Nat) : Int) ≤ 0 := Int.ediv_nonpos_of_nonpos_of_neg hv (by omega)
    have hge : v ≤ v / ((2 ^ n : Nat) : Int) := by
      rw [Int.le_ediv_iff_mul_le (by omega)]
      have hmul := mul_le_mul_of_nonpos_left hpos hv
      rwa [mul_one] at hmul
    rw [abs_of_nonpos hv, abs_of_nonpos hle]
    omega

/-! ## The exponential -/

theorem decay_bounds : 0 ≤ decay ∧ decay ≤ 2 ^ 62 := by
  decide +kernel

theorem expPower_bounds (m : Nat) :
    0 ≤ expPower m ∧ expPower (m + 1) ≤ expPower m ∧ expPower m ≤ 2 ^ 62 := by
  obtain ⟨hlow, hhigh⟩ := decay_bounds
  -- one step from a power in range stays in range and does not grow
  have hstep : ∀ p : Int, 0 ≤ p → 0 ≤ (p * decay + 2 ^ 61) >>> (62 : Nat) ∧
      (p * decay + 2 ^ 61) >>> (62 : Nat) ≤ p := by
    intro p hp
    have hmul : 0 ≤ p * decay := mul_nonneg hp hlow
    have hmul' : p * decay ≤ p * 2 ^ 62 := mul_le_mul_of_nonneg_left hhigh hp
    rw [Int.shiftRight_eq_div_pow]
    omega
  have hrange : 0 ≤ expPower m ∧ expPower m ≤ 2 ^ 62 := by
    induction m with
    | zero => exact ⟨by decide, Int.le_refl _⟩
    | succ m ih =>
      obtain ⟨hpos, hle⟩ := hstep _ ih.1
      exact ⟨hpos, hle.trans ih.2⟩
  exact ⟨hrange.1, (hstep _ hrange.1).2, hrange.2⟩

/-- The table rises from at least 0 to at most 1. -/
theorem expTable_bounds {i : Nat} (hi : i < expSteps) :
    0 ≤ expTable i ∧ expTable i ≤ expTable (i + 1) ∧ expTable (i + 1) ≤ one := by
  have hstep : expSteps - i = (expSteps - (i + 1)) + 1 := by omega
  obtain ⟨-, hmono, htop⟩ := expPower_bounds (expSteps - (i + 1))
  obtain ⟨hpos, -, -⟩ := expPower_bounds (expSteps - i)
  rw [expTable, expTable, one]
  simp only [Int.shiftRight_eq_div_pow]
  rw [← hstep] at hmono
  omega

/-- `exp_q16` over the integers. -/
def expValue (x : Int) : Int :=
  if x ≥ 0 then one
  else if x ≤ -(16 * one) then 0
  else
    let offset := x + 16 * one
    if (offset >>> (8 : Nat)).toNat ≥ expSteps then expTable expSteps
    else
      let low := expTable (offset >>> (8 : Nat)).toNat
      let high := expTable ((offset >>> (8 : Nat)).toNat + 1)
      low + ((high - low) * (offset % 256)) >>> (8 : Nat)

/-- `exp_q16` overflows for no input, and is a weight between 0 and 1. -/
theorem expQ16_eq (har : ar.Faithful) (x : Int) :
    expQ16 ar x = .ok (expValue x) ∧ 0 ≤ expValue x ∧ expValue x ≤ one := by
  rw [expQ16, expValue]
  by_cases hpos : x ≥ 0
  · rw [if_pos hpos, if_pos hpos]
    exact ⟨rfl, by decide, Int.le_refl _⟩
  rw [if_neg hpos, if_neg hpos]
  by_cases hlow : x ≤ -(16 * one)
  · rw [if_pos hlow, if_pos hlow]
    exact ⟨rfl, Int.le_refl _, by decide⟩
  rw [if_neg hlow, if_neg hlow]
  have hone : one = 65536 := rfl
  rw [har.i64 (v := x + 16 * one) ⟨by omega, by omega⟩, ok_bind]
  dsimp only
  -- `0 < offset < 16 * one`, so the index is below the last table entry
  have hindex : ((x + 16 * one) >>> (8 : Nat)).toNat < expSteps := by
    rw [Int.shiftRight_eq_div_pow, expSteps]
    omega
  rw [if_neg (not_le.mpr hindex), if_neg (not_le.mpr hindex)]
  obtain ⟨h0, hmono, htop⟩ := expTable_bounds hindex
  set low := expTable ((x + 16 * one) >>> (8 : Nat)).toNat
  set high := expTable (((x + 16 * one) >>> (8 : Nat)).toNat + 1)
  have hfraction : 0 ≤ (x + 16 * one) % 256 ∧ (x + 16 * one) % 256 ≤ 255 := by omega
  set fraction := (x + 16 * one) % 256
  have hrise : 0 ≤ (high - low) * fraction ∧ (high - low) * fraction ≤ (high - low) * 255 :=
    ⟨mul_nonneg (by omega) hfraction.1, mul_le_mul_of_nonneg_left hfraction.2 (by omega)⟩
  have hshift : 0 ≤ ((high - low) * fraction) >>> (8 : Nat) ∧
      ((high - low) * fraction) >>> (8 : Nat) ≤ high - low := by
    rw [Int.shiftRight_eq_div_pow]
    omega
  rw [har.i64 (v := high - low) ⟨by omega, by omega⟩, ok_bind,
    har.i64 (v := (high - low) * fraction) ⟨by omega, by omega⟩, ok_bind,
    har.i64 ⟨by omega, by omega⟩]
  exact ⟨rfl, by omega, by omega⟩

theorem expValue_zero : expValue 0 = one := rfl

/-! ## Gated SiLU and residual -/

variable {g c a b s : Int}

theorem sigmoidQ16_agrees (har : ar.Faithful) (hg : |g| ≤ activationLimit) :
    Agrees .overflow (fun _ => True) (sigmoidQ16 ar g) (sigmoidQ16 .exact g) := by
  obtain ⟨hlow, hhigh⟩ := abs_le.mp hg
  rw [activationLimit] at hlow hhigh
  have hone : one = 65536 := rfl
  have hexp := fun x => (expQ16_eq har x).1
  have hexp' := fun x => (expQ16_eq exact_faithful x).1
  have hbounds := fun x => (expQ16_eq har x).2
  rw [sigmoidQ16, sigmoidQ16]
  split
  · obtain ⟨h0, h1⟩ := hbounds (-g)
    rw [har.i64 (v := -g) ⟨by omega, by omega⟩, ok_bind, hexp, ok_bind,
      har.i64 (v := one + expValue (-g)) ⟨by omega, by omega⟩]
    show Agrees _ _ _ (expQ16 .exact (-g) >>= _)
    rw [hexp']
    exact .ok trivial
  · obtain ⟨h0, h1⟩ := hbounds g
    rw [hexp, hexp', ok_bind, har.i64 (v := expValue g * 2 ^ 16) ⟨by omega, by omega⟩,
      har.i64 (v := one + expValue g) ⟨by omega, by omega⟩]
    exact .ok trivial

theorem gatedSilu_agrees (har : ar.Faithful) (hg : |g| ≤ activationLimit) (u : Int) :
    Agrees .overflow (|·| ≤ activationLimit) (gatedSilu ar g u) (gatedSilu .exact g u) := by
  refine .bind (sigmoidQ16_agrees har hg) fun sigma _ _ => ?_
  refine .bind (checked128_agrees _ _) fun product _ _ => ?_
  exact .bind (checked128_agrees _ _) fun product _ _ => toActivation_agrees _ _

variable {h delta head : List Int}

theorem addResidual_agrees (har : ar.Faithful) (hh : Small h) (hdelta : Small delta) :
    Agrees .overflow Small (addResidual ar h delta) (addResidual .exact h delta) := by
  rw [addResidual, addResidual]
  split
  · exact .error nofun
  refine .mapM ?_
  rintro ⟨a, b⟩ hmem
  have ha := abs_le.mp (hh a (List.of_mem_zip hmem).1)
  have hb := abs_le.mp (hdelta b (List.of_mem_zip hmem).2)
  rw [activationLimit] at ha hb
  rw [har.i128 (v := a + b) ⟨by omega, by omega⟩]
  exact toActivation_agrees _ _

/-! ## Projection -/

/-- The weights the profile allows. -/
def DyadicMatrix.NoMin (m : DyadicMatrix) : Prop := ∀ w ∈ m.q, w ≠ -128

theorem DyadicMatrix.NoMin.abs_bytesAt_le {m : DyadicMatrix} (h : m.NoMin) (base j : Nat) :
    |bytesAt m.q base j| ≤ 127 := by
  rw [bytesAt]
  by_cases hj : base + j < m.q.length
  · rw [List.getD_eq_getElem _ _ hj]
    have hne := h _ (List.getElem_mem hj)
    set w := m.q[base + j]
    have hlow := w.le_toInt
    have hhigh := w.toInt_lt
    have hmin : w.toInt ≠ -128 := by
      intro heq
      exact hne (Int8.toInt_inj.mp heq)
    exact abs_le.mpr ⟨by omega, by omega⟩
  · rw [List.getD_eq_default _ _ (Nat.le_of_not_lt hj)]
    decide

section Dot

variable {w x : Nat → Int} {n : Nat}

variable {f : Nat → Int}

/-- A partial sum of terms whose magnitudes sum to a value that fits, fits. -/
theorem fits_partial (bits : Nat)
    (hmass : ∑ j ∈ Finset.range n, |f j| < 2 ^ (bits - 1)) {i : Nat} (hi : i ≤ n) :
    Fits bits (∑ j ∈ Finset.range i, f j) := by
  apply fits_of_abs_lt
  calc |∑ j ∈ Finset.range i, f j| ≤ ∑ j ∈ Finset.range i, |f j| := abs_sum_le_sum_abs _ _
    _ ≤ ∑ j ∈ Finset.range n, |f j| := sum_le_sum_of_subset_of_nonneg (range_subset_range.mpr hi)
          fun j _ _ => abs_nonneg _
    _ < 2 ^ (bits - 1) := hmass

theorem fits_term (bits : Nat)
    (hmass : ∑ j ∈ Finset.range n, |f j| < 2 ^ (bits - 1)) {j : Nat} (hj : j < n) :
    Fits bits (f j) := by
  apply fits_of_abs_lt
  exact lt_of_le_of_lt (single_le_sum (fun j _ => abs_nonneg (f j)) (mem_range.mpr hj)) hmass

/-- The four lanes together carry at most the mass of the columns they cover. -/
theorem sum_abs_lanes_le (f : Nat → Int) (c : Nat) :
    ((List.range 4).map fun k => |∑ b ∈ Finset.range c, f (4 * b + k)|).sum ≤
      ∑ j ∈ Finset.range (4 * c), |f j| := by
  calc ((List.range 4).map fun k => |∑ b ∈ Finset.range c, f (4 * b + k)|).sum
      = ∑ k ∈ Finset.range 4, |∑ b ∈ Finset.range c, f (4 * b + k)| := rfl
    _ ≤ ∑ k ∈ Finset.range 4, ∑ b ∈ Finset.range c, |f (4 * b + k)| :=
        sum_le_sum fun k _ => abs_sum_le_sum_abs _ _
    _ = ∑ j ∈ Finset.range (4 * c), |f j| := by
        rw [sum_comm, sum_range_blocks fun j => |f j|]

theorem sum_lanes (f : Nat → Int) (c : Nat) :
    ((List.range 4).map fun k => ∑ b ∈ Finset.range c, f (4 * b + k)).sum =
      ∑ j ∈ Finset.range (4 * c), f j := by
  rw [sum_range_blocks, sum_comm]
  rfl

/-- A lane fits because the covered columns do. -/
theorem fits_lane (hmass : ∑ j ∈ Finset.range n, |f j| < 2 ^ 63) {c k : Nat}
    (hc : 4 * c ≤ n) (hk : k < 4) : Fits 64 (∑ b ∈ Finset.range c, f (4 * b + k)) := by
  apply fits_of_abs_lt
  calc |∑ b ∈ Finset.range c, f (4 * b + k)|
      ≤ ∑ k ∈ Finset.range 4, |∑ b ∈ Finset.range c, f (4 * b + k)| :=
        single_le_sum (f := fun k => |∑ b ∈ Finset.range c, f (4 * b + k)|)
          (fun _ _ => abs_nonneg _) (mem_range.mpr hk)
    _ ≤ ∑ j ∈ Finset.range (4 * c), |f j| := sum_abs_lanes_le f c
    _ ≤ ∑ j ∈ Finset.range n, |f j| := sum_le_sum_of_subset_of_nonneg (range_subset_range.mpr hc)
          fun j _ _ => abs_nonneg _
    _ < 2 ^ 63 := hmass

/-- `dot_i8_i64` is exact on terms of total magnitude below `2 ^ 63`. -/
theorem dotI8I64_eq (har : ar.Faithful) (hmass : ∑ j ∈ Finset.range n, |w j * x j| < 2 ^ 63) :
    dotI8I64 ar w x n = .ok (∑ j ∈ Finset.range n, w j * x j) := by
  have hdiv : 4 * (n / 4) ≤ n := Nat.mul_div_le n 4
  let lanes (c : Nat) : List Int :=
    (List.range 4).map fun k => ∑ b ∈ Finset.range c, w (4 * b + k) * x (4 * b + k)
  have hloop := foldlM_range (n := n / 4)
    (f := fun (lanes : List Int) c => (List.range 4).mapM fun k => do
      ar.i64 (lanes.getD k 0 + (← ar.i64 (w (4 * c + k) * x (4 * c + k)))))
    lanes (by
      intro c hc
      apply mapM_eq_ok
      intro k hk
      have hk' := List.mem_range.mp hk
      have hterm := fits_term 64 (f := fun j => w j * x j) hmass (j := 4 * c + k) (by omega)
      have hlane := fits_lane (f := fun j => w j * x j) hmass (c := c + 1) (by omega) hk'
      rw [sum_range_succ] at hlane
      rw [har.i64 hterm, ok_bind, getD_map_range _ hk', har.i64 hlane, sum_range_succ])
  have hlanes : ((lanes (n / 4)).map fun v => |v|).sum < 2 ^ (64 - 1) := by
    refine lt_of_le_of_lt (sum_abs_lanes_le (fun j => w j * x j) (n / 4)) ?_
    exact lt_of_le_of_lt (sum_le_sum_of_subset_of_nonneg
      (range_subset_range.mpr hdiv) fun j _ _ => abs_nonneg _) hmass
  have htail := foldlM_range (n := n - 4 * (n / 4)) (f := fun total j => do
      ar.i64 (total + (← ar.i64 (w (4 * (n / 4) + j) * x (4 * (n / 4) + j)))))
    (fun i => ∑ j ∈ Finset.range (4 * (n / 4) + i), w j * x j) (by
      intro i hi
      have hterm := fits_term 64 (f := fun j => w j * x j) hmass (j := 4 * (n / 4) + i) (by omega)
      have hsum := fits_partial 64 (f := fun j => w j * x j) hmass
        (i := 4 * (n / 4) + (i + 1)) (by omega)
      rw [← add_assoc, sum_range_succ] at hsum
      rw [har.i64 hterm, ok_bind, har.i64 hsum, ← add_assoc, sum_range_succ])
  rw [Nat.add_sub_cancel' hdiv] at htail
  show (List.foldlM _ (lanes 0) _ >>= _) = _
  rw [hloop, ok_bind, foldlM_sum har.i64 hlanes, sum_lanes fun j => w j * x j]
  exact htail

end Dot

/-- What `project` computes, over the integers. -/
def projectValue (m : DyadicMatrix) (x : List Int) (i : Nat) : Eval Int :=
  toActivation ((LimbKernel.rowProduct m.q m.cols i x * (m.mu.getD i 0).toInt) >>>
    (m.k.getD i 0).toNat) "projection output beyond 2^62"

section Project

variable {m : DyadicMatrix} {x : List Int}

/-- `sum_j |w_j * x_j| <= 127 * sum_j |x_j|`. -/
theorem mass_row_le (hm : m.NoMin) (i : Nat) (x : List Int) :
    ∑ j ∈ Finset.range x.length, |bytesAt m.q (i * x.length) j * x.getD j 0| ≤ mass x * 127 := by
  calc ∑ j ∈ Finset.range x.length, |bytesAt m.q (i * x.length) j * x.getD j 0|
      ≤ ∑ j ∈ Finset.range x.length, 127 * |x.getD j 0| :=
        sum_le_sum fun j _ => abs_mul_le_of_le (hm.abs_bytesAt_le _ j) le_rfl
    _ = mass x * 127 := by
        rw [← mul_sum, sum_getD_eq fun v => |v|, mass, mul_comm]

/-- The row accumulators, whichever kernel computed them. -/
theorem rowDots_eq (har : ar.Faithful) (hm : m.NoMin) (choice : KernelChoice)
    (hcols : x.length = m.cols) (hmass : mass x * 127 < 2 ^ 63) (out : List Int) :
    rowDots ar choice m x out =
      .ok ((List.range m.rows).map fun r => rowProduct m.q m.cols r x) := by
  have hscalar : ((List.range m.rows).mapM fun r =>
      dotI8I64 ar (bytesAt m.q (r * m.cols)) (fun j => x.getD j 0) m.cols) =
      .ok ((List.range m.rows).map fun r => rowProduct m.q m.cols r x) := by
    apply mapM_eq_ok
    intro r _
    apply dotI8I64_eq har
    rw [← hcols]
    exact lt_of_le_of_lt (mass_row_le hm r x) hmass
  obtain ⟨accepted, hfast⟩ := exactRowDotsFast_eq (ε := Stop) choice.kernel
    choice.available m.q m.rows m.cols x out
  have hdots := hfast ar har
  dsimp only at hdots
  rw [rowDots, limbDots]
  by_cases henabled : choice.enabled = true
  · rw [if_pos henabled, hdots]
    cases accepted with
    | true => rfl
    | false => exact hscalar
  · rw [if_neg henabled]
    exact hscalar

/-- **Projection.**  Where the input passes its check, every row is exact. -/
theorem project_eq (har : ar.Faithful) (hm : m.NoMin) (choice : KernelChoice) (x out : List Int) :
    project ar choice m x out = if x.length ≠ m.cols ∨ out.length ≠ m.rows then
      invalid s!"projection shape: matrix {m.rows}x{m.cols}, input {x.length}, output {out.length}"
      else if mass x * 127 ≥ 2 ^ 63 then
        domain "projection input magnitude (127 * sum |x| >= 2^63)"
      else (List.range m.rows).mapM (projectValue m x) := by
  rw [project]
  split
  · rfl
  rename_i hshape
  simp only [not_or, not_not] at hshape
  rw [checkProjectionInput]
  split
  · rfl
  rename_i hmass
  rw [rowDots_eq har hm choice hshape.1 (not_le.mp hmass) out]
  refine (Agrees.mapM (e := .overflow) (Q := (|·| ≤ activationLimit)) fun i hi => ?_).eq
  rw [dyadicEpilogue, getD_map_range _ (List.mem_range.mp hi)]
  -- an accumulator below `2 ^ 63` times an i32 mantissa
  have hrow : |rowProduct m.q m.cols i x| < 2 ^ 63 := by
    have hle := mass_row_le hm i x
    rw [hshape.1] at hle
    exact lt_of_le_of_lt ((abs_sum_le_sum_abs _ _).trans hle) (not_le.mp hmass)
  have hprod : |rowProduct m.q m.cols i x * (m.mu.getD i 0).toInt| < 2 ^ 127 :=
    lt_of_le_of_lt (abs_mul_le_of_le hrow.le (abs_toInt32_le _)) (by norm_num)
  rw [har.i128 (fits_of_abs_lt hprod)]
  exact toActivation_agrees _ _

theorem project_agrees (har : ar.Faithful) (hm : m.NoMin) (choice : KernelChoice)
    (x out : List Int) :
    Agrees .overflow Small (project ar choice m x out) (project .exact choice m x out) := by
  rw [project_eq har hm, project_eq exact_faithful hm]
  split
  · exact .error nofun
  split
  · exact .error nofun
  · exact .mapM fun i _ => toActivation_agrees _ _

end Project

/-! ### Embedding -/

theorem abs_embedded_le (w : Int8) (mu : Int32) : |w.toInt * mu.toInt| ≤ 2 ^ 7 * 2 ^ 31 := by
  have hlow := w.le_toInt
  have hhigh := w.toInt_lt
  exact abs_mul_le_of_le (abs_le.mpr ⟨by omega, by omega⟩) (abs_toInt32_le mu)

theorem embedRow_agrees (har : ar.Faithful) (m : DyadicMatrix) (token : Nat) :
    Agrees .overflow Small (embedRow ar m token) (embedRow .exact m token) := by
  rw [embedRow, embedRow]
  split
  · exact .error nofun
  refine .mapM fun w _ => ?_
  have hprod := abs_embedded_le w (m.mu.getD token 0)
  rw [har.i64 (fits_of_abs_lt (lt_of_le_of_lt hprod (by norm_num)))]
  exact .ok ((abs_shiftRight_le _ _).trans (hprod.trans (by decide)))

/-! ## RMS norm -/

section RmsNorm

variable {x gain : List Int}

/-- The checked sum of squares is the sum of squares. -/
theorem squares_agrees (har : ar.Faithful) (hx : Small x) :
    Agrees .overflow (fun total : Int => 0 ≤ total ∧ total ≤ x.length * 2 ^ 124)
      (x.foldlM (fun squares v => do
        checked128 (squares + (← ar.i128 (v * v))) "rms_norm sum of squares beyond 2^127") 0)
      (x.foldlM (fun squares v => do
        checked128 (squares + (← exact.i128 (v * v))) "rms_norm sum of squares beyond 2^127") 0) := by
  refine .foldlM (I := fun i (s : Int) => 0 ≤ s ∧ s ≤ i * 2 ^ 124) ?_ fun i v hv s hs => ?_
  · simp
  have hsmall := hx v (List.mem_of_getElem? hv)
  have hsq : |v * v| ≤ 2 ^ 124 := abs_mul_le_of_le hsmall hsmall
  rw [har.i128 (fits_of_abs_lt (lt_of_le_of_lt hsq (by decide)))]
  refine (checked128_agrees (s + v * v) _).mono fun t ht => ?_
  have hpos := mul_self_nonneg v
  rw [abs_of_nonneg hpos] at hsq
  omega

/-- **RMS norm** of stored activations: the mean stays far below the i128 limit. -/
theorem rmsNorm_agrees (har : ar.Faithful) (hx : Small x) {eps : Int} (heps : eps < 2 ^ 63) :
    Agrees .overflow Small (rmsNorm ar x gain eps) (rmsNorm .exact x gain eps) := by
  rw [rmsNorm, rmsNorm]
  split
  · exact .error nofun
  rename_i hshape
  simp only [not_or] at hshape
  obtain ⟨hne, -, hpos⟩ := hshape
  refine .bind (squares_agrees har hx) fun squares _ hsquares => ?_
  obtain ⟨hlow, hhigh⟩ := hsquares
  have hlen : 0 < x.length := List.length_pos_iff.mpr hne
  have hmean : 0 ≤ squares.tdiv x.length ∧ squares.tdiv x.length ≤ 2 ^ 124 := by
    rw [Int.tdiv_eq_ediv_of_nonneg hlow]
    refine ⟨Int.ediv_nonneg hlow (by omega), ?_⟩
    apply Int.ediv_le_of_le_mul (by omega)
    rw [mul_comm]
    exact hhigh
  rw [har.i128 (v := squares.tdiv x.length + eps) ⟨by omega, by omega⟩]
  refine .bind (.ok (P := fun _ => True) trivial) fun mean _ _ => ?_
  split
  · exact .error nofun
  refine .mapM fun entry _ => ?_
  refine .bind (checked128_agrees _ _) fun product _ _ => ?_
  exact .bind (checked128_agrees _ _) fun product _ _ => toActivation_agrees _ _

end RmsNorm

/-! ## RoPE -/

theorem rotate_agrees (har : ar.Faithful) (ha : |a| ≤ activationLimit)
    (hb : |b| ≤ activationLimit) (hc : |c| ≤ 2 ^ 31) (hs : |s| ≤ 2 ^ 31) :
    Agrees .overflow (fun r => |r.1| ≤ activationLimit ∧ |r.2| ≤ activationLimit)
      (rotate ar a b c s) (rotate .exact a b c s) := by
  have hac := abs_le.mp (abs_mul_le_of_le ha hc)
  have hbs := abs_le.mp (abs_mul_le_of_le hb hs)
  have has := abs_le.mp (abs_mul_le_of_le ha hs)
  have hbc := abs_le.mp (abs_mul_le_of_le hb hc)
  rw [activationLimit] at hac hbs has hbc
  rw [rotate, rotate]
  rw [har.i128 (v := a * c) ⟨by omega, by omega⟩, har.i128 (v := b * s) ⟨by omega, by omega⟩,
    har.i128 (v := a * s) ⟨by omega, by omega⟩, har.i128 (v := b * c) ⟨by omega, by omega⟩]
  simp only [ok_bind]
  rw [har.i128 (v := a * c - b * s) ⟨by omega, by omega⟩,
    har.i128 (v := a * s + b * c) ⟨by omega, by omega⟩]
  simp only [ok_bind, exact]
  refine .bind (toActivation_agrees _ _) fun newA _ hA => ?_
  exact .bind (toActivation_agrees _ _) fun newB _ hB => .ok ⟨hA, hB⟩

theorem ropeSplitHalf_agrees (har : ar.Faithful) (hhead : Small head) (cos sin : List Int32) :
    Agrees .overflow Small (ropeSplitHalf ar head cos sin) (ropeSplitHalf .exact head cos sin) := by
  rw [ropeSplitHalf, ropeSplitHalf]
  split
  · exact .error nofun
  refine .bind (.mapM fun i _ => rotate_agrees har (hhead.getD _) (hhead.getD _)
    (abs_toInt32_le _) (abs_toInt32_le _)) fun pairs _ hpairs => .ok fun v hv => ?_
  rcases List.mem_append.mp hv with hv | hv
  · obtain ⟨p, hp, rfl⟩ := List.mem_map.mp hv
    exact (hpairs p hp).1
  · obtain ⟨p, hp, rfl⟩ := List.mem_map.mp hv
    exact (hpairs p hp).2

theorem Small.chunk (h : Small x) (d i : Nat) : Small (chunk x d i) :=
  fun v hv => h v (List.mem_of_mem_drop (List.mem_of_mem_take hv))

theorem Small.flatten {xs : List (List Int)} (h : ∀ x ∈ xs, Small x) : Small xs.flatten := by
  intro v hv
  obtain ⟨x, hx, hvx⟩ := List.mem_flatten.mp hv
  exact h x hx v hvx

theorem ropeLayer_agrees (har : ar.Faithful) (hx : Small x) (c : ModernConfig)
    (l : Nat) (cos sin : List Int32) :
    Agrees .overflow Small (ropeLayer ar c l cos sin x) (ropeLayer .exact c l cos sin x) := by
  rw [ropeLayer, ropeLayer]
  split
  · exact .bind (.mapM fun h _ => ropeSplitHalf_agrees har (hx.chunk _ _) cos sin)
      fun heads _ hheads => .ok (Small.flatten hheads)
  · exact .ok hx

/-! ## Attention scores -/

section Scores

variable {q : List Int} {key : Nat → Int}

theorem mass_le (hq : Small q) : mass q ≤ q.length * 2 ^ 62 := by
  rw [mass]
  induction q with
  | nil => exact Int.le_refl _
  | cons v q ih =>
    have hv := hq v List.mem_cons_self
    have hrest := ih fun u hu => hq u (List.mem_cons_of_mem _ hu)
    rw [activationLimit] at hv
    rw [List.map_cons, List.sum_cons, List.length_cons]
    omega

/-- `sum_t |q_t * key_t| <= 2^31 * sum_t |q_t|`. -/
theorem score_mass_le (hkey : ∀ t, |key t| ≤ 2 ^ 31) (q : List Int) :
    ∑ t ∈ Finset.range q.length, |q.getD t 0 * key t| ≤ mass q * 2 ^ 31 := by
  calc ∑ t ∈ Finset.range q.length, |q.getD t 0 * key t|
      ≤ ∑ t ∈ Finset.range q.length, |q.getD t 0| * 2 ^ 31 :=
        sum_le_sum fun t _ => abs_mul_le_of_le le_rfl (hkey t)
    _ = mass q * 2 ^ 31 := by
        rw [← sum_mul, sum_getD_eq fun v => |v|, mass]

theorem scoreSum_eq (bits : Nat) {narrow : Int → Eval Int}
    (hnarrow : ∀ {v : Int}, Fits bits v → narrow v = .ok v)
    (hmass : ∑ t ∈ Finset.range q.length, |q.getD t 0 * key t| < 2 ^ (bits - 1)) :
    scoreSum narrow q key = .ok (∑ t ∈ Finset.range q.length, q.getD t 0 * key t) := by
  refine foldlM_range (fun i => ∑ t ∈ Finset.range i, q.getD t 0 * key t) fun i hi => ?_
  have hterm := fits_term bits (f := fun t => q.getD t 0 * key t) hmass hi
  have hsum := fits_partial bits (f := fun t => q.getD t 0 * key t) hmass (i := i + 1) hi
  rw [sum_range_succ] at hsum
  rw [hnarrow hterm, ok_bind, hnarrow hsum, sum_range_succ]

/-- The narrow sum relies on the query's mass, the wide one on the number of columns. -/
theorem scoreDot_eq (har : ar.Faithful) (hq : Small q) (hwidth : q.length < 2 ^ 34)
    (hkey : ∀ t, |key t| ≤ 2 ^ 31) :
    scoreDot ar q key = .ok (∑ t ∈ Finset.range q.length, q.getD t 0 * key t) := by
  have hscore := score_mass_le hkey q
  rw [scoreDot]
  split
  · apply scoreSum_eq 64 har.i64
    omega
  · have hmass := mass_le hq
    apply scoreSum_eq 128 har.i128
    omega

variable {cache : HeadCache} {lambda : Int}

theorem scoreAt_agrees (har : ar.Faithful) (hq : Small q) (hwidth : q.length < 2 ^ 34)
    (position : Nat) : Agrees .overflow (|·| ≤ activationLimit)
      (scoreAt ar q cache lambda position) (scoreAt .exact q cache lambda position) := by
  have hkey : ∀ t, |cache.entry cache.keys position t| ≤ 2 ^ 31 := fun t => abs_toInt32_le _
  rw [scoreAt, scoreAt, scoreDot_eq har hq hwidth hkey, scoreDot_eq exact_faithful hq hwidth hkey,
    ok_bind]
  exact .bind (checked128_agrees _ _) fun scaled _ _ => toActivation_agrees _ _

/-- The maximum bounds every score and is as small as the scores are. -/
theorem maxScore_spec {scores : List Int} (hscores : Small scores) :
    |maxScore scores| ≤ activationLimit ∧ ∀ s ∈ scores, s ≤ maxScore scores := by
  rw [maxScore]
  cases hmax : scores.max? with
  | none =>
    obtain rfl := List.max?_eq_none_iff.mp hmax
    exact ⟨by decide, fun s hs => absurd hs List.not_mem_nil⟩
  | some best =>
    obtain ⟨hmem, hle⟩ := List.max?_eq_some_iff.mp hmax
    exact ⟨hscores best hmem, hle⟩

end Scores

/-! ## Attention accumulators -/

section Accumulate

variable {cache : HeadCache} {width : Nat} {best : Int}

/-- After `p` positions: every weight is at most 1, every value is an i32. -/
structure Accumulated (width p : Nat) (state : Int × List Int) : Prop where
  total_nonneg : 0 ≤ state.1
  total_le : state.1 ≤ p * one
  weighted_ge : ∀ t < width, -(2 ^ 31 * state.1) ≤ state.2.getD t 0
  weighted_le : ∀ t < width, state.2.getD t 0 ≤ (2 ^ 31 - 1) * state.1

theorem accumulated_zero (width : Nat) : Accumulated width 0 (0, List.replicate width 0) := by
  refine ⟨Int.le_refl _, by simp, fun t ht => ?_, fun t ht => ?_⟩
  · rw [List.getD_replicate _ ht]
    rfl
  · rw [List.getD_replicate _ ht]
    rfl

/-- A weight times an i32. -/
theorem weighted_bounds {weight : Int} (h0 : 0 ≤ weight) (v : Int32) :
    -(2 ^ 31 * weight) ≤ weight * v.toInt ∧ weight * v.toInt ≤ (2 ^ 31 - 1) * weight := by
  have hlow := mul_le_mul_of_nonneg_left v.le_toInt h0
  have hhigh := mul_le_mul_of_nonneg_left (Int.le_sub_one_of_lt v.toInt_lt) h0
  constructor <;> norm_num at hlow hhigh ⊢ <;> omega

/-- **Step lemma.**  Up to `2 ^ 16` positions the i64 accumulators hold. -/
theorem accumulate_agrees (har : ar.Faithful) {p : Nat} (hp : p < 2 ^ 16) {state : Int × List Int}
    (hstate : Accumulated width p state) {score : Int} (hscore : |score| ≤ activationLimit)
    (hbest : |best| ≤ activationLimit) (hle : score ≤ best) :
    Agrees .overflow (Accumulated width (p + 1)) (accumulate ar cache width best state p score)
      (accumulate .exact cache width best state p score) := by
  obtain ⟨hlow, -⟩ := abs_le.mp hscore
  obtain ⟨-, hhigh⟩ := abs_le.mp hbest
  rw [activationLimit] at hlow hhigh
  have hone : one = 65536 := rfl
  obtain ⟨-, h0, h1⟩ := expQ16_eq har (score - best)
  have htotal : state.1 ≤ p * 65536 := hstate.total_le
  have hnonneg := hstate.total_nonneg
  have hvalues : ∀ t, -(2 ^ 31 * expValue (score - best)) ≤
      expValue (score - best) * cache.entry cache.values p t ∧
      expValue (score - best) * cache.entry cache.values p t ≤
        (2 ^ 31 - 1) * expValue (score - best) := fun t => weighted_bounds h0 _
  set weight := expValue (score - best)
  -- both evaluations are this value
  have hvalue : ∀ {ar' : Arith Stop}, ar'.Faithful →
      accumulate ar' cache width best state p score = .ok (if weight = 0 then state else
        (state.1 + weight, (List.range width).map fun t =>
          state.2.getD t 0 + weight * cache.entry cache.values p t)) := by
    intro ar' har'
    rw [accumulate, har'.i64 (v := score - best) ⟨by omega, by omega⟩, ok_bind,
      (expQ16_eq har' (score - best)).1, ok_bind]
    by_cases hzero : weight = 0
    · rw [if_pos hzero, if_pos hzero]
      rfl
    rw [if_neg hzero, if_neg hzero, har'.i64 (v := state.1 + weight) ⟨by omega, by omega⟩]
    rw [mapM_eq_ok (g := fun t => state.2.getD t 0 + weight * cache.entry cache.values p t)]
    · rfl
    · intro t ht
      have hge := hstate.weighted_ge t (List.mem_range.mp ht)
      have hle := hstate.weighted_le t (List.mem_range.mp ht)
      obtain ⟨hvge, hvle⟩ := hvalues t
      rw [har'.i64 (v := weight * cache.entry cache.values p t) ⟨by omega, by omega⟩, ok_bind,
        har'.i64 ⟨by omega, by omega⟩]
  rw [hvalue har, hvalue exact_faithful]
  refine .ok ?_
  have hmore : ((p + 1 : Nat) : Int) * one = p * 65536 + 65536 := by
    rw [hone]
    omega
  by_cases hzero : weight = 0
  · rw [if_pos hzero]
    exact ⟨hnonneg, by omega, hstate.weighted_ge, hstate.weighted_le⟩
  rw [if_neg hzero]
  refine ⟨by dsimp only; omega, by dsimp only; omega, fun t ht => ?_, fun t ht => ?_⟩
  · have hge := hstate.weighted_ge t ht
    obtain ⟨hvge, -⟩ := hvalues t
    rw [getD_map_range _ ht]
    omega
  · have hle := hstate.weighted_le t ht
    obtain ⟨-, hvle⟩ := hvalues t
    rw [getD_map_range _ ht]
    omega

/-- **Attention** over at most `2 ^ 16` positions and fewer than `2 ^ 34` columns. -/
theorem attentionHead_agrees (har : ar.Faithful) {q : List Int} (hq : Small q)
    (hwidth : q.length < 2 ^ 34) (hpositions : cache.positions ≤ 2 ^ 16) (lambda : Int)
    (outLen : Nat) : Agrees .overflow (fun _ => True) (attentionHead ar q cache lambda outLen)
      (attentionHead .exact q cache lambda outLen) := by
  rw [attentionHead, attentionHead]
  split
  · exact .error nofun
  refine .bind (.mapM fun p _ => scoreAt_agrees har hq hwidth p) fun scores hscores hsmall => ?_
  have hlength : scores.length = cache.positions := by
    rw [mapM_length hscores, List.length_range]
  obtain ⟨hbest, hle⟩ := maxScore_spec hsmall
  refine .bind (.foldlM (accumulated_zero _) fun i p hi state hstate => ?_)
    fun _ _ _ => .ok trivial
  obtain ⟨hp, rfl⟩ := List.getElem?_eq_some_iff.mp hi
  rw [List.length_range] at hp
  rw [List.getElem_range]
  refine accumulate_agrees har (by omega) hstate (Small.getD hsmall i) hbest (hle _ ?_)
  rw [List.getD_eq_getElem _ _ (by omega)]
  exact List.getElem_mem _

end Accumulate

end Dyadic

end ArcChain
