/-
Streaming attention over the integer cache (`flash_attention_i64` of
`arc-inference/src/cached_integer_model.rs` with `integer_exp` of
`integer_lut.rs`): one pass over the positions, which rescales the sums when
a larger score comes.  An overflow stops the run, as in a debug build; where
nothing overflows a release build computes the same.

A rescaling and a truncated product move a component's weighted sum away
from the value that its normaliser stands for, by a bounded amount at each
position (`Drift`).  A position with a new maximum weighs `one`, which keeps
the normaliser there.
-/
import ArcChain.Lib.MachineInt

namespace ArcChain

open MachineInt

namespace FlashAttention

inductive Panic where
  | overflow
  | indexOutOfBounds
  deriving DecidableEq

abbrev Eval := Except Panic

def i64 (v : Int) : Eval Int := if Fits 64 v then .ok v else .error .overflow

def index (l : List Int) (i : Nat) : Eval Int := l[i]?.elim (.error .indexOutOfBounds) .ok

/-! ## The exponential -/

def fracBits : Nat := 16

def one : Int := 2 ^ 16

/-- `EXP_LUT[4096 - m]`; the table is filled from its end. -/
def decayed : Nat → Int
  | 0 => one
  | m + 1 => (decayed m * 65281) >>> fracBits

def expLut (i : Nat) : Int := decayed (4096 - i)

/-- Nothing overflows here: past the comparisons `x` is small. -/
def integerExp (x : Int) : Int :=
  if x ≥ 0 then one
  else if x ≤ -(16 * one) then 0
  else
    let offset := x + 16 * one
    let idx := (offset / 256).toNat
    if idx ≥ 4096 then one
    else expLut idx + ((expLut (idx + 1) - expLut idx) * (offset % 256)) / 256

/-! ## Attention of one head -/

/-- A query head with the caches it reads. -/
structure Head where
  qHead : List Int
  kCache : List Int
  vCache : List Int
  dKv : Nat
  kvH : Nat
  dHead : Nat
  attnScale : Int

/-- The running maximum, normaliser and weighted values. -/
structure Running where
  max : Int
  sum : Int
  out : List Int

namespace Head

variable (h : Head)

/-- `k_off` and `v_off`. -/
def offset (j : Nat) : Nat := j * h.dKv + h.kvH * h.dHead

def score (j : Nat) : Eval Int := do
  let dot ← (List.range h.dHead).foldlM (fun sum i => do
    i64 (sum + (← i64 ((← index h.qHead i) * (← index h.kCache (h.offset j + i)))))) 0
  pure ((← i64 ((dot >>> fracBits) * h.attnScale)) >>> fracBits)

/-- A new maximum rescales both sums. -/
def rescale (s : Running) (score : Int) : Eval Running :=
  if score > s.max then do
    let correction := integerExp (← i64 (s.max - score))
    let sum := (← i64 (s.sum * correction)) >>> fracBits
    let out ← s.out.mapM fun o => do pure ((← i64 (o * correction)) >>> fracBits)
    pure ⟨score, sum, out⟩
  else pure s

/-- One turn of the loop over the positions. -/
def absorb (s : Running) (j : Nat) : Eval Running := do
  let score ← h.score j
  let s ← rescale s score
  let w := integerExp (← i64 (score - s.max))
  let sum ← i64 (s.sum + w)
  let out ← s.out.zipIdx.mapM fun entry => do
    i64 (entry.1 + (← i64 (w * (← index h.vCache (h.offset j + entry.2)))) >>> fracBits)
  pure ⟨s.max, sum, out⟩

def stream (fullSeq : Nat) : Eval Running :=
  (List.range fullSeq).foldlM h.absorb ⟨-2 ^ 62, 0, List.replicate h.dHead 0⟩

def flashAttentionI64 (fullSeq : Nat) : Eval (List Int) := do
  let s ← h.stream fullSeq
  if s.sum > 0 then s.out.mapM fun o => do pure ((← i64 (o * one)).tdiv s.sum)
  else pure s.out

end Head

/-! ## Weights -/

theorem shift_bounds (x : Int) :
    (x >>> fracBits) * one ≤ x ∧ x < (x >>> fracBits) * one + one := by
  rw [fracBits, Int.shiftRight_eq_div_pow, one]
  omega

theorem decayed_bounds (m : Nat) : 0 ≤ decayed (m + 1) ∧ decayed (m + 1) ≤ decayed m ∧
    decayed m ≤ one := by
  have hstep : ∀ m, 0 ≤ decayed m → 0 ≤ decayed (m + 1) ∧ decayed (m + 1) ≤ decayed m := by
    intro m h
    have hshift := shift_bounds (decayed m * 65281)
    rw [decayed]
    rw [one] at hshift
    omega
  induction m with
  | zero => exact ⟨(hstep 0 (by decide)).1, (hstep 0 (by decide)).2, le_rfl⟩
  | succ m ih => exact ⟨(hstep _ ih.1).1, (hstep _ ih.1).2, ih.2.1.trans ih.2.2⟩

theorem integerExp_bounds (x : Int) : 0 ≤ integerExp x ∧ integerExp x ≤ one := by
  rw [integerExp]
  dsimp only
  split_ifs with hpos hlow hidx
  · decide
  · decide
  · decide
  -- between two neighbours of the table
  · obtain ⟨m, hm⟩ : ∃ m, 4096 - ((x + 16 * one) / 256).toNat = m + 1 :=
      Nat.exists_eq_succ_of_ne_zero (by omega)
    have hm' : 4096 - (((x + 16 * one) / 256).toNat + 1) = m := by omega
    obtain ⟨h0, hle, htop⟩ := decayed_bounds m
    rw [expLut, expLut, hm, hm']
    have hfrac := Int.emod_nonneg (x + 16 * one) (show (256 : Int) ≠ 0 by decide)
    have hfrac' := Int.emod_lt_of_pos (x + 16 * one) (show (0 : Int) < 256 by decide)
    have hrise : 0 ≤ (decayed m - decayed (m + 1)) * ((x + 16 * one) % 256) :=
      mul_nonneg (by omega) hfrac
    have hrise' := mul_le_mul_of_nonneg_left hfrac'.le (sub_nonneg.mpr hle)
    omega

/-! ## Drift of one component -/

/-- The weighted sum `N` of values in `[lo, hi]` against the normaliser `S`. -/
structure Drift (lo hi above below S N : Int) : Prop where
  upper : N * one ≤ hi * S + above
  lower : lo * S - below ≤ N * one

variable {lo hi M above below S N c w v : Int}

theorem Drift.rescale (h : Drift lo hi above below S N) (ha : 0 ≤ above) (hb : 0 ≤ below)
    (hM : 0 ≤ M) (hlo : -M ≤ lo) (hhi : hi ≤ M) (hc : 0 ≤ c) (hc' : c ≤ one) :
    Drift lo hi (above + M) (below + one + M) ((S * c) >>> fracBits) ((N * c) >>> fracBits) := by
  have hupper := mul_le_mul_of_nonneg_right h.upper hc
  have hlower := mul_le_mul_of_nonneg_right h.lower hc
  have habove := mul_le_mul_of_nonneg_left hc' ha
  have hbelow := mul_le_mul_of_nonneg_left hc' hb
  obtain ⟨hN, hN'⟩ := shift_bounds (N * c)
  -- what the shift cuts off the normaliser, times a value
  obtain ⟨hS, hS'⟩ := shift_bounds (S * c)
  have hcut := mul_nonneg (sub_nonneg.mpr hhi) (sub_nonneg.mpr hS)
  have hcut' := mul_nonneg (neg_le_iff_add_nonneg.mp hlo) (sub_nonneg.mpr hS)
  have hMcut := mul_le_mul_of_nonneg_left hS'.le hM
  have hone : one = 65536 := rfl
  rw [hone] at hupper hlower habove hbelow hN hN' hcut hcut' hMcut
  exact ⟨by rw [hone]; linarith, by rw [hone]; linarith⟩

theorem Drift.absorb (h : Drift lo hi above below S N) (hw : 0 ≤ w) (hlo : lo ≤ v) (hhi : v ≤ hi) :
    Drift lo hi above (below + one) (S + w) (N + (w * v) >>> fracBits) := by
  obtain ⟨hupper, hlower⟩ := h
  have hmul := mul_le_mul_of_nonneg_left hlo hw
  have hmul' := mul_le_mul_of_nonneg_left hhi hw
  obtain ⟨hshift, hshift'⟩ := shift_bounds (w * v)
  exact ⟨by linarith, by linarith⟩

theorem mul_one_le {x B : Int} (hS : one ≤ S) (hB : 0 ≤ B) (h : x * S ≤ B) : x * one ≤ B := by
  rcases le_total x 0 with hx | hx
  · exact (mul_nonpos_of_nonpos_of_nonneg hx (by decide)).trans hB
  · exact (mul_le_mul_of_nonneg_left hS hx).trans h

/-- The division keeps the drift and truncates. -/
theorem Drift.quotient (h : Drift lo hi above below S N) (ha : 0 ≤ above) (hb : 0 ≤ below)
    (hS : one ≤ S) : ((N * one).tdiv S - hi - 1) * one ≤ above ∧
      (lo - 1 - (N * one).tdiv S) * one ≤ below := by
  obtain ⟨hupper, hlower⟩ := h
  have hpos : 0 < S := lt_of_lt_of_le (by decide) hS
  have hdiv := Int.mul_tdiv_add_tmod (N * one) S
  have hmod := Int.tmod_lt_of_pos (N * one) hpos
  have hmod' := Int.lt_tmod_of_pos (N * one) hpos
  exact ⟨mul_one_le hS ha (by linarith), mul_one_le hS hb (by linarith)⟩

/-! ## The loop -/

theorem i64_eq_ok {r : Int} (h : i64 v = .ok r) : r = v ∧ Fits 64 v := by
  rw [i64] at h
  split at h
  · rename_i hfits
    exact ⟨(Except.ok.inj h).symm, hfits⟩
  · cases h

theorem index_eq_ok {l : List Int} {i : Nat} (h : index l i = .ok v) : l[i]? = some v := by
  cases hget : l[i]? with
  | none =>
    rw [index, hget] at h
    cases h
  | some x =>
    rw [index, hget] at h
    exact congrArg some (Except.ok.inj h)

variable {h : Head} {dd k : Nat} {score : Int} {s t : Running}

/-- A shifted product of machine integers lies far above the first maximum. -/
theorem Head.lt_score {j : Nat} (hscore : h.score j = .ok score) : -2 ^ 62 < score := by
  obtain ⟨dot, -, hscore⟩ := ok_of_bind hscore
  obtain ⟨p, hp, hscore⟩ := ok_of_bind hscore
  obtain rfl := Except.ok.inj hscore
  obtain ⟨rfl, hlow, -⟩ := i64_eq_ok hp
  have hshift := shift_bounds ((dot >>> fracBits) * h.attnScale)
  rw [one] at hshift
  omega

/-- The normaliser, and the drift of component `dd`. -/
structure Sums (h : Head) (dd : Nat) (lo hi above below : Int) (s : Running) : Prop where
  nonneg : 0 ≤ s.sum
  length : s.out.length = h.dHead
  drift : ∀ N, s.out[dd]? = some N → Drift lo hi above below s.sum N

/-- A new maximum will weigh `one`; without one the normaliser is there already. -/
theorem Sums.rescale (hs : Sums h dd lo hi above below s) (ha : 0 ≤ above) (hb : 0 ≤ below)
    (hM : 0 ≤ M) (hlo : -M ≤ lo) (hhi : hi ≤ M) (hnew : one ≤ s.sum ∨ s.max < score)
    (ht : Head.rescale s score = .ok t) :
    Sums h dd lo hi (above + M) (below + one + M) t ∧ (score = t.max ∨ one ≤ t.sum) := by
  rw [Head.rescale] at ht
  split at ht
  · obtain ⟨diff, -, ht⟩ := ok_of_bind ht
    obtain ⟨sum, hsum, ht⟩ := ok_of_bind ht
    obtain ⟨out, hout, ht⟩ := ok_of_bind ht
    obtain rfl := Except.ok.inj ht
    obtain ⟨rfl, -⟩ := i64_eq_ok hsum
    obtain ⟨hc, hc'⟩ := integerExp_bounds diff
    have hshift := shift_bounds (s.sum * integerExp diff)
    have hmul := mul_nonneg hs.nonneg hc
    refine ⟨⟨?_, (mapM_length hout).trans hs.length, ?_⟩, .inl rfl⟩
    · rw [one] at hshift
      dsimp only
      omega
    · intro N hN
      obtain ⟨o, ho, hN⟩ := exists_of_mapM hout hN
      obtain ⟨p, hp, hN⟩ := ok_of_bind hN
      obtain rfl := Except.ok.inj hN
      obtain ⟨rfl, -⟩ := i64_eq_ok hp
      exact (hs.drift o ho).rescale ha hb hM hlo hhi hc hc'
  · rename_i hle
    obtain rfl := Except.ok.inj ht
    refine ⟨⟨hs.nonneg, hs.length, fun N hN => ?_⟩, .inr (hnew.resolve_right hle)⟩
    obtain ⟨hupper, hlower⟩ := hs.drift N hN
    have hone : 0 ≤ one := by decide
    exact ⟨by linarith, by linarith⟩

/-- **Step lemma.** -/
theorem Sums.absorb (hs : Sums h dd lo hi above below s) (ha : 0 ≤ above) (hb : 0 ≤ below)
    (hM : 0 ≤ M) (hlo : -M ≤ lo) (hhi : hi ≤ M) (hnew : one ≤ s.sum ∨ s.max = -2 ^ 62)
    (hv : ∀ v, h.vCache[h.offset k + dd]? = some v → lo ≤ v ∧ v ≤ hi)
    (ht : h.absorb s k = .ok t) :
    Sums h dd lo hi (above + M) (below + one + M + one) t ∧ one ≤ t.sum := by
  obtain ⟨score, hscore, ht⟩ := ok_of_bind ht
  obtain ⟨r, hr, ht⟩ := ok_of_bind ht
  obtain ⟨diff, hdiff, ht⟩ := ok_of_bind ht
  obtain ⟨sum, hsum, ht⟩ := ok_of_bind ht
  obtain ⟨out, hout, ht⟩ := ok_of_bind ht
  obtain rfl := Except.ok.inj ht
  obtain ⟨rfl, -⟩ := i64_eq_ok hdiff
  obtain ⟨rfl, -⟩ := i64_eq_ok hsum
  obtain ⟨hready, htop⟩ := hs.rescale ha hb hM hlo hhi
    (hnew.imp_right fun hmax => hmax ▸ Head.lt_score hscore) hr
  obtain ⟨hw, -⟩ := integerExp_bounds (score - r.max)
  have hnonneg := hready.nonneg
  have hsum' : one ≤ r.sum + integerExp (score - r.max) := by
    rcases htop with htop | htop
    · have hone : integerExp (score - r.max) = one := by
        rw [htop, sub_self]
        rfl
      omega
    · omega
  refine ⟨⟨le_trans (by decide) hsum', ?_, ?_⟩, hsum'⟩
  · rw [mapM_length hout, List.length_zipIdx, hready.length]
  · intro N hN
    obtain ⟨entry, hentry, hN⟩ := exists_of_mapM hout hN
    rw [List.getElem?_zipIdx] at hentry
    obtain ⟨o, ho, rfl⟩ := Option.map_eq_some_iff.mp hentry
    obtain ⟨value, hvalue, hN⟩ := ok_of_bind hN
    obtain ⟨p, hp, hN⟩ := ok_of_bind hN
    obtain ⟨rfl, -⟩ := i64_eq_ok hp
    obtain ⟨rfl, -⟩ := i64_eq_ok hN
    rw [Nat.zero_add] at hvalue
    obtain ⟨hle, hle'⟩ := hv value (index_eq_ok hvalue)
    exact (hready.drift o ho).absorb hw hle hle'

/-- **Run lemma.**  Before the first position the maximum is the initial one. -/
theorem Sums.stream {n : Nat} (hM : 0 ≤ M) (hlo : -M ≤ lo) (hhi : hi ≤ M)
    (hv : ∀ j < n, ∀ v, h.vCache[h.offset j + dd]? = some v → lo ≤ v ∧ v ≤ hi)
    (hs : h.stream n = .ok s) : Sums h dd lo hi (n * M) (n * (2 * one + M)) s ∧
      (n ≠ 0 → one ≤ s.sum) ∧ (n = 0 → s.max = -2 ^ 62) := by
  induction n generalizing s with
  | zero =>
    obtain rfl := Except.ok.inj hs
    refine ⟨⟨le_rfl, List.length_replicate, fun N hN => ?_⟩, fun hk => absurd rfl hk, fun _ => rfl⟩
    obtain rfl := List.eq_of_mem_replicate (List.mem_of_getElem? hN)
    exact ⟨by simp, by simp⟩
  | succ n ih =>
    rw [Head.stream, List.range_succ, List.foldlM_append] at hs
    obtain ⟨mid, hmid, hs⟩ := ok_of_bind hs
    obtain ⟨t, ht, hs⟩ := ok_of_bind hs
    obtain rfl := Except.ok.inj hs
    obtain ⟨hprev, hsum, hmax⟩ := ih (fun j hj => hv j (by omega)) hmid
    have hone : 0 ≤ 2 * one + M := add_nonneg (by decide) hM
    obtain ⟨hnext, hone⟩ := hprev.absorb (mul_nonneg (Int.natCast_nonneg n) hM)
      (mul_nonneg (Int.natCast_nonneg n) hone) hM hlo hhi
      ((Nat.eq_zero_or_pos n).symm.imp (fun hn => hsum (by omega)) hmax)
      (hv n (Nat.lt_succ_self n)) ht
    refine ⟨?_, fun _ => hone, nofun⟩
    convert hnext using 1
    · push_cast
      ring
    · push_cast
      ring

/-- `d` of a component with values in `[vmin, vmax]`. -/
def tolerance (n : Nat) (vmin vmax : Int) : ℚ :=
  n * (((max |vmin| |vmax| : Int) : ℚ) / 65536 + 2) + 1

/-- **Attention stays in the range of its values**, and divides by at least `one`. -/
theorem flash_attention_in_range {n : Nat} {out : List Int} (hn : 1 ≤ n)
    (hrun : h.flashAttentionI64 n = .ok out) :
    (∃ s, h.stream n = .ok s ∧ one ≤ s.sum) ∧ out.length = h.dHead ∧
      ∀ dd (vmin vmax o : Int),
        (∀ j < n, ∀ v, h.vCache[h.offset j + dd]? = some v → vmin ≤ v ∧ v ≤ vmax) →
        out[dd]? = some o →
          vmin - tolerance n vmin vmax ≤ o ∧ o ≤ vmax + tolerance n vmin vmax := by
  obtain ⟨s, hs, hrun⟩ := ok_of_bind hrun
  -- past the end of the cache there is no value to bound
  have hnone : ∀ j < n, ∀ v, h.vCache[h.offset j + h.vCache.length]? = some v → 0 ≤ v ∧ v ≤ 0 := by
    intro j _ v hv
    rw [List.getElem?_eq_none (by omega)] at hv
    cases hv
  obtain ⟨hend, hone⟩ := Sums.stream (M := 0) le_rfl (by decide) le_rfl hnone hs
  have hone := hone.1 (by omega)
  rw [if_pos (lt_of_lt_of_le (by decide) hone)] at hrun
  refine ⟨⟨s, hs, hone⟩, (mapM_length hrun).trans hend.length, ?_⟩
  intro dd vmin vmax o hv ho
  obtain ⟨N, hN, ho⟩ := exists_of_mapM hrun ho
  obtain ⟨p, hp, ho⟩ := ok_of_bind ho
  obtain rfl := Except.ok.inj ho
  obtain ⟨rfl, -⟩ := i64_eq_ok hp
  rw [tolerance]
  set M := max |vmin| |vmax|
  have hM : 0 ≤ M := (abs_nonneg _).trans (le_max_left _ _)
  have hnM := mul_nonneg (Int.natCast_nonneg n) hM
  obtain ⟨hsums, -⟩ := Sums.stream hM ((neg_le_neg (le_max_left _ _)).trans (neg_abs_le vmin))
    ((le_abs_self vmax).trans (le_max_right _ _)) hv hs
  obtain ⟨hup, hlow⟩ := (hsums.drift N hN).quotient hnM
    (mul_nonneg (Int.natCast_nonneg n) (add_nonneg (by decide) hM)) hone
  generalize (N * one).tdiv s.sum = q at hup hlow ⊢
  have hup : ((q - vmax - 1) * 65536 : ℚ) ≤ n * M := by exact_mod_cast hup
  have hlow : ((vmin - 1 - q) * 65536 : ℚ) ≤ n * (2 * 65536 + M) := by exact_mod_cast hlow
  exact ⟨by linarith, by linarith⟩

/-- Two positions; the second score is the smaller one. -/
def twoPositions : Head := ⟨[one], [600, 300], [65536, -131072], 1, 0, 1, one⟩

theorem flash_attention_in_range_twoPositions : twoPositions.flashAttentionI64 2 = .ok [-32543] ∧
    (-131072 : Int) - tolerance 2 (-131072) 65536 ≤ (-32543 : Int) := by
  have hrun : twoPositions.flashAttentionI64 2 = .ok [-32543] := by decide +kernel
  have hrange := (flash_attention_in_range (by decide) hrun).2.2 0 (-131072) 65536 (-32543)
  exact ⟨hrun, (hrange (by decide) rfl).1⟩

end FlashAttention

end ArcChain
