/-
The vectorised INT8 projection (`arc-inference/src/canonical_simd.rs`) on
its base kernels: `SDOT` on arm64 and sign-extending `VPMADDWD` on x86-64.
An activation is split into four balanced base-256 digits; each digit plane
is multiplied with the weight bytes in i32 lanes, and the planes are put
together again in i64.

Every machine operation narrows through an `Arith`.  `dotLimbs_eq` says
that under the checked bounds nothing overflows and the result is the
exact row product; the three entry points follow from it.  Rows and planes
are read by index, as the kernels read memory.  The work split over threads
is left out: every task writes its own outputs.
-/
import ArcChain.Lib.MachineInt

namespace ArcChain

open MachineInt List

namespace LimbKernel

variable {ε : Type}

variable {input : List Int}

/-! ## The digit split -/

def limbCount : Nat := 4
def limbMax : Int := 2139062143
def limbMin : Int := -2155905152
def maxColsForI32 : Nat := 131071
def maxBatchTokens : Nat := 1024
def fracBits : Nat := 16

/-- The low byte of a word, read as a signed byte. -/
def digit (u : Int) : Int :=
  let low := u % 256
  if low > 127 then low - 256 else low

/-- The digit loop on an unsigned 64-bit word, lowest digit first. -/
def digits : Nat → Int → List Int
  | 0, _ => []
  | n + 1, u => digit u :: digits n ((u - digit u) % 2 ^ 64 / 256)

/-- The number that digits stand for, from the highest digit down. -/
def reconstruct (ar : Arith ε) (ds : List Int) : Except ε Int :=
  ds.reverse.foldlM (fun r c => do ar.i64 ((← ar.i64 (r * 256)) + c)) 0

/-- The planes needed so far, after the digits of one more element. -/
def usedAfter (used : Nat) (ds : List Int) : Nat :=
  ds.zipIdx.foldl (fun used c => if c.1 ≠ 0 ∧ c.2 + 1 > used then c.2 + 1 else used) used

/-- The digits of the elements, and the number of planes in use. -/
structure Limbs where
  used : Nat
  rows : List (List Int)

/-- `limbs[i * len + j]`: digit `i` of element `j`. -/
def Limbs.plane (limbs : Limbs) (i j : Nat) : Int := (limbs.rows.getD j []).getD i 0

/-- The element loop of `split_limbs`. -/
def splitLoop (ar : Arith ε) : List Int → Limbs → Except ε (Option Limbs)
  | [], limbs => .ok (some limbs)
  | x :: rest, limbs =>
    if ¬ (limbMin ≤ x ∧ x ≤ limbMax) then .ok none
    else do
      let ds := digits limbCount (x % 2 ^ 64)
      if (← reconstruct ar ds) ≠ x then .ok none
      else splitLoop ar rest ⟨usedAfter limbs.used ds, limbs.rows ++ [ds]⟩

/-- `split_limbs` into a buffer of `scratch` bytes. -/
def splitLimbs (ar : Arith ε) (input : List Int) (scratch : Nat) : Except ε (Option Limbs) :=
  if input.length = 0 ∨ scratch < limbCount * input.length then .ok none
  else splitLoop ar input ⟨1, []⟩

/-! ## The vector loops -/

/-- The kernels every CPU of the two architectures may run. -/
inductive BaseKernel where
  | neonSdot
  | avx2
  deriving DecidableEq, Repr

/-- Bytes behind a pointer. -/
abbrev Bytes := Nat → Int

def load (p : Bytes) (j : Nat) : Bytes := fun m => p (j + m)

/-- The product of four neighbouring byte pairs. -/
def dot4 (a b : Bytes) (j : Nat) : Int :=
  a j * b j + a (j + 1) * b (j + 1) + a (j + 2) * b (j + 2) + a (j + 3) * b (j + 3)

/-- `SDOT Vd.4S, Vn.16B, Vm.16B`: each i32 lane takes the products of four bytes. -/
def sdot (ar : Arith ε) (acc : List Int) (a b : Bytes) : Except ε (List Int) :=
  (List.range 4).mapM fun k => ar.i32 (acc.getD k 0 + dot4 a b (4 * k))

def vaddqS32 (ar : Arith ε) (x y : List Int) : Except ε (List Int) :=
  (List.range 4).mapM fun k => ar.i32 (x.getD k 0 + y.getD k 0)

/-- The lanes' sum, as an i32. -/
def vaddvqS32 (ar : Arith ε) (x : List Int) : Except ε Int := ar.i32 x.sum

/-- `_mm256_madd_epi16` of sign-extended bytes: neighbouring products added in i32. -/
def maddEpi16 (ar : Arith ε) (a b : Bytes) : Except ε (List Int) :=
  (List.range 8).mapM fun k =>
    ar.i32 (a (2 * k) * b (2 * k) + a (2 * k + 1) * b (2 * k + 1))

/-- `_mm256_add_epi32`. -/
def addEpi32 (ar : Arith ε) (x y : List Int) : Except ε (List Int) :=
  (List.range 8).mapM fun k => ar.i32 (x.getD k 0 + y.getD k 0)

/-- Columns per iteration of the vector loop. -/
def BaseKernel.step : BaseKernel → Nat
  | .neonSdot => 32
  | .avx2 => 16

/-- The vector loop over one plane, and the sum of its lanes. -/
def vectorSum (ar : Arith ε) (row plane : Bytes) (len : Nat) : BaseKernel → Except ε Int
  | .neonSdot => do
    let acc ← (List.range (len / 32)).foldlM (fun acc b => do
      let acc0 ← sdot ar acc.1 (load row (32 * b)) (load plane (32 * b))
      let acc1 ← sdot ar acc.2 (load row (32 * b + 16)) (load plane (32 * b + 16))
      pure (acc0, acc1)) (List.replicate 4 0, List.replicate 4 0)
    vaddvqS32 ar (← vaddqS32 ar acc.1 acc.2)
  | .avx2 => do
    let acc ← (List.range (len / 16)).foldlM (fun acc b => do
      addEpi32 ar acc (← maddEpi16 ar (load row (16 * b)) (load plane (16 * b))))
      (List.replicate 8 0)
    acc.foldlM (fun sum lane => ar.i64 (sum + lane)) 0

/-- One digit plane against one row: the vector loop, then the columns it left over. -/
def planeDot (ar : Arith ε) (kernel : BaseKernel) (row plane : Bytes) (len : Nat) :
    Except ε Int := do
  let covered := kernel.step * (len / kernel.step)
  let sum ← vectorSum ar row plane len kernel
  (List.range (len - covered)).foldlM
    (fun a j => do ar.i64 (a + (← ar.i64 (row (covered + j) * plane (covered + j))))) sum

/-- `dot_limbs_dotprod`: the used planes, each at its place value. -/
def dotLimbs (ar : Arith ε) (kernel : BaseKernel) (row : Bytes) (limbs : Limbs)
    (len used : Nat) : Except ε Int :=
  (List.range used).foldlM (fun total l => do
    let a ← planeDot ar kernel row (limbs.plane l) len
    ar.i64 (total + (← ar.i64 (a * 2 ^ (8 * l))))) 0

/-- `dot_limbs_x4`.  The source runs the four tokens side by side to load each weight
    vector once; a token's accumulators are its own. -/
def dotLimbsX4 (ar : Arith ε) (kernel : BaseKernel) (row : Bytes) (planes : List Limbs)
    (len used : Nat) : Except ε (List Int) :=
  planes.mapM fun limbs => dotLimbs ar kernel row limbs len used

/-! ## The entry points -/

/-- A row-major INT8 matrix with one Q16 scale per row. -/
structure I8Weights where
  data : List Int8
  scales : List Int
  nRows : Nat
  nCols : Nat

/-- `data.as_ptr().add(base)`. -/
def bytesAt (data : List Int8) (base : Nat) : Bytes := fun j => (data.getD (base + j) 0).toInt

def saturatingMul (a b : Nat) : Nat := min (a * b) (2 ^ 64 - 1)

/-- A checked i64 operation. -/
def checked64 (v : Int) : Option Int := if Fits 64 v then some v else none

def postScaleBoundHolds (input scales : List Int) : Bool :=
  match input.foldlM (fun sum v => do checked64 (sum + (← checked64 |v|))) 0 with
  | none => false
  | some inputAbsSum =>
    match checked64 (inputAbsSum * 128) with
    | none => false
    | some dotBound => scales.all fun s =>
      match checked64 |s| with
      | none => false
      | some a => (checked64 (dotBound * a)).isSome

/-- The scale epilogue `(acc * scale) >> FRAC_BITS`. -/
def scaled (ar : Arith ε) (acc scale : Int) : Except ε Int := do
  pure ((← ar.i64 (acc * scale)) >>> fracBits)

/-- `matmul_i8_canonical_rows_fast`, where the selected kernel is a base kernel: whether it
    accepted, and the output buffer. -/
def matmulI8CanonicalRowsFast (ar : Arith ε) (kernel : BaseKernel) (available : Bool)
    (weights : I8Weights) (input : List Int) (inSize : Nat) (output : List Int) :
    Except ε (Bool × List Int) :=
  if available = false then .ok (false, output)
  else if inSize = 0 ∨ input.length ≠ inSize ∨ weights.nCols ≠ inSize ∨ weights.nRows = 0 ∨
      weights.data.length ≠ saturatingMul weights.nRows inSize ∨
      weights.scales.length ≠ weights.nRows ∨ output.length ≠ weights.nRows then
    .ok (false, output)
  else if inSize > maxColsForI32 then .ok (false, output)
  else if postScaleBoundHolds input weights.scales = false then .ok (false, output)
  else do
    match ← splitLimbs ar input (limbCount * inSize) with
    | none => .ok (false, output)
    | some limbs =>
      let out ← (List.range weights.nRows).mapM fun i => do
        let acc ← dotLimbs ar kernel (bytesAt weights.data (i * inSize)) limbs inSize limbs.used
        scaled ar acc (weights.scales.getD i 0)
      .ok (true, out)

/-- The row products without a scale. -/
def exactRowDotsFast (ar : Arith ε) (kernel : BaseKernel) (available : Bool) (data : List Int8)
    (nRows nCols : Nat) (input acc : List Int) : Except ε (Bool × List Int) :=
  if available = false then .ok (false, acc)
  else if nCols = 0 ∨ nRows = 0 ∨ input.length ≠ nCols ∨
      data.length ≠ saturatingMul nRows nCols ∨ acc.length ≠ nRows then
    .ok (false, acc)
  else if nCols > maxColsForI32 then .ok (false, acc)
  else do
    match ← splitLimbs ar input (limbCount * nCols) with
    | none => .ok (false, acc)
    | some limbs =>
      let out ← (List.range nRows).mapM fun i =>
        dotLimbs ar kernel (bytesAt data (i * nCols)) limbs nCols limbs.used
      .ok (true, out)

/-- The activations of token `t`. -/
def tokenInput (inputs : List Int) (inSize t : Nat) : List Int :=
  (inputs.drop (t * inSize)).take inSize

/-- One validated batched projection. -/
structure BatchJob where
  data : List Int8
  scales : List Int
  nRows : Nat
  nTokens : Nat
  inSize : Nat
  used : Nat
  limbs : List Limbs

def BatchJob.limbsOf (job : BatchJob) (t : Nat) : Limbs := job.limbs.getD t ⟨1, []⟩

def oneRowKernelUpTo : Nat := 2

/-- The products of row `i` with the `quad` tokens from `t` on: one at a time for a short
    tile, else four at once, the last token repeated where the tile has only three. -/
def quadDots (ar : Arith ε) (kernel : BaseKernel) (job : BatchJob) (t quad i : Nat) :
    Except ε (List Int) :=
  let row := bytesAt job.data (i * job.inSize)
  if quad ≤ oneRowKernelUpTo then
    (List.range quad).mapM fun q =>
      dotLimbs ar kernel row (job.limbsOf (t + q)) job.inSize job.used
  else do
    let planes := (List.range 4).map fun q => job.limbsOf (t + min q (quad - 1))
    let acc ← dotLimbsX4 ar kernel row planes job.inSize job.used
    pure (acc.take quad)

/-- Row `i` of a tile: `out[(t + q) * n_rows + i]` for each of its tokens. -/
def quadRow (ar : Arith ε) (kernel : BaseKernel) (job : BatchJob) (t quad : Nat)
    (out : List Int) (i : Nat) : Except ε (List Int) := do
  let acc ← quadDots ar kernel job t quad i
  (List.range quad).foldlM (fun out q => do
    let value ← scaled ar (acc.getD q 0) (job.scales.getD i 0)
    pure (out.set ((t + q) * job.nRows + i) value)) out

/-- Row blocks, in each the tokens four at a time, in each tile the rows. -/
def runQuads (ar : Arith ε) (kernel : BaseKernel) (job : BatchJob) (out : List Int) :
    Except ε (List Int) :=
  let rowBlock := max 1 (min (131072 / job.inSize) (max job.nRows 1))
  let nBlocks := (job.nRows + rowBlock - 1) / rowBlock
  (List.range nBlocks).foldlM (fun out b => do
    let r0 := b * rowBlock
    let r1 := min (r0 + rowBlock) job.nRows
    (List.range ((job.nTokens + 3) / 4)).foldlM (fun out c => do
      let t := 4 * c
      let quad := min (job.nTokens - t) 4
      (List.range (r1 - r0)).foldlM (fun out offset =>
        quadRow ar kernel job t quad out (r0 + offset)) out) out) out

/-- `matmul_i8_batched_with` on a base kernel. -/
def matmulI8BatchedWith (ar : Arith ε) (kernel : BaseKernel) (available : Bool)
    (weights : I8Weights) (inputs : List Int) (nTokens inSize : Nat) (output : List Int) :
    Except ε (Bool × List Int) :=
  if available = false then .ok (false, output)
  else if inSize = 0 ∨ nTokens = 0 ∨ nTokens > maxBatchTokens ∨
      inputs.length ≠ saturatingMul nTokens inSize ∨ weights.nCols ≠ inSize ∨
      weights.nRows = 0 ∨ weights.data.length ≠ saturatingMul weights.nRows inSize ∨
      weights.scales.length ≠ weights.nRows ∨
      output.length ≠ saturatingMul nTokens weights.nRows then
    .ok (false, output)
  else if inSize > maxColsForI32 then .ok (false, output)
  else if ((List.range nTokens).all fun t =>
      postScaleBoundHolds (tokenInput inputs inSize t) weights.scales) = false then
    .ok (false, output)
  else do
    let split ← (List.range nTokens).mapM fun t =>
      splitLimbs ar (tokenInput inputs inSize t) (limbCount * inSize)
    match split.mapM id with
    | none => .ok (false, output)
    | some limbs =>
      let job : BatchJob :=
        { data := weights.data, scales := weights.scales, nRows := weights.nRows, nTokens
          inSize, used := ((limbs.map (·.used)).max?).getD 1, limbs }
      let out ← runQuads ar kernel job output
      .ok (true, out)

/-! ## The digits of an activation -/

theorem digit_eq (u : Int) : digit u = if u % 256 > 127 then u % 256 - 256 else u % 256 := rfl

theorem digit_bounds (u : Int) : -128 ≤ digit u ∧ digit u ≤ 127 := by
  rw [digit_eq]
  split <;> omega

/-- What the digit leaves is a multiple of 256. -/
theorem digit_add_rest (v : Int) : digit v + 256 * ((v - digit v) / 256) = v := by
  rw [digit_eq]
  split <;> omega

/-- A round of the digit loop on a word that agrees with `v` modulo `N = 256 * M`: the digit
    is that of `v`, and the shifted word agrees with the rest of `v` modulo `M`. -/
theorem digit_round {N M r u v t : Int} (hN : N = 256 * M) (hr : N * r = 2 ^ 64)
    (hu : u = v + N * t) :
    digit u = digit v ∧ ∃ t', (u - digit u) % 2 ^ 64 / 256 = (v - digit v) / 256 + M * t' := by
  have hdigit : digit u = digit v := by
    have hmod : u % 256 = v % 256 := by
      rw [hu, hN, mul_assoc, Int.add_mul_emod_self_left]
    rw [digit_eq, digit_eq, hmod]
  refine ⟨hdigit, ?_⟩
  set s := (u - digit u) / 2 ^ 64 with hs
  have hsplit : (u - digit u) % 2 ^ 64 = v - digit v + 256 * (M * (t - r * s)) := by
    rw [Int.emod_def, ← hs, ← hr, hdigit, hu, hN]
    ring
  refine ⟨t - r * s, ?_⟩
  rw [hsplit, Int.add_mul_ediv_left _ _ (by decide)]

/-- The digits of an activation in the domain stand for it. -/
theorem digits_spec {x : Int} (h : limbMin ≤ x ∧ x ≤ limbMax) :
    ∃ c₀ c₁ c₂ c₃, digits limbCount (x % 2 ^ 64) = [c₀, c₁, c₂, c₃] ∧
      (∀ c ∈ [c₀, c₁, c₂, c₃], -128 ≤ c ∧ c ≤ 127) ∧
      c₀ + 256 * c₁ + 65536 * c₂ + 16777216 * c₃ = x := by
  have hstart : x % 2 ^ 64 = x + 2 ^ 64 * -(x / 2 ^ 64) := by
    rw [Int.emod_def]
    ring
  -- the word loses eight reliable bits in each round, and four rounds read the low ones
  obtain ⟨hd₀, t₁, hu₁⟩ := digit_round (M := 2 ^ 56) (r := 1) (by norm_num) (by norm_num) hstart
  obtain ⟨hd₁, t₂, hu₂⟩ := digit_round (M := 2 ^ 48) (r := 256) (by norm_num) (by norm_num) hu₁
  obtain ⟨hd₂, t₃, hu₃⟩ := digit_round (M := 2 ^ 40) (r := 65536) (by norm_num) (by norm_num) hu₂
  obtain ⟨hd₃, -, -⟩ := digit_round (M := 2 ^ 32) (r := 16777216) (by norm_num) (by norm_num) hu₃
  set v₁ := (x - digit x) / 256 with hv₁
  set v₂ := (v₁ - digit v₁) / 256 with hv₂
  set v₃ := (v₂ - digit v₂) / 256 with hv₃
  refine ⟨digit x, digit v₁, digit v₂, digit v₃, ?_, ?_, ?_⟩
  · rw [← hd₀, ← hd₁, ← hd₂, ← hd₃]
    rfl
  · intro c hc
    simp only [mem_cons, not_mem_nil, or_false] at hc
    rcases hc with rfl | rfl | rfl | rfl <;> exact digit_bounds _
  · have h₀ := digit_add_rest x
    have h₁ := digit_add_rest v₁
    have h₂ := digit_add_rest v₂
    have h₃ := digit_add_rest v₃
    have b₀ := digit_bounds x
    have b₁ := digit_bounds v₁
    have b₂ := digit_bounds v₂
    have b₃ := digit_bounds v₃
    -- both `x` and the number of its digits lie in the domain, which is `2 ^ 32` wide
    rw [limbMin, limbMax] at h
    omega

section Split

variable {ar : Arith ε}

theorem reconstruct_digits (har : ar.Faithful) {x : Int} (h : limbMin ≤ x ∧ x ≤ limbMax) :
    reconstruct ar (digits limbCount (x % 2 ^ 64)) = .ok x := by
  obtain ⟨c₀, c₁, c₂, c₃, hds, hc, hx⟩ := digits_spec h
  have hstep : ∀ r c : Int, |r| ≤ 2 ^ 40 → -128 ≤ c ∧ c ≤ 127 →
      (do ar.i64 ((← ar.i64 (r * 256)) + c)) = .ok (r * 256 + c) := by
    intro r c hr hc
    obtain ⟨hlow, hhigh⟩ := abs_le.mp hr
    rw [har.i64 (v := r * 256) ⟨by omega, by omega⟩]
    exact har.i64 ⟨by omega, by omega⟩
  have b₀ := hc c₀ (by simp)
  have b₁ := hc c₁ (by simp)
  have b₂ := hc c₂ (by simp)
  have b₃ := hc c₃ (by simp)
  rw [hds]
  show [c₃, c₂, c₁, c₀].foldlM _ (0 : Int) = _
  rw [foldlM_cons, hstep 0 c₃ (by norm_num) b₃, ok_bind]
  rw [foldlM_cons, hstep _ c₂ (abs_le.mpr ⟨by omega, by omega⟩) b₂, ok_bind]
  rw [foldlM_cons, hstep _ c₁ (abs_le.mpr ⟨by omega, by omega⟩) b₁, ok_bind]
  rw [foldlM_cons, hstep _ c₀ (abs_le.mpr ⟨by omega, by omega⟩) b₀]
  exact congrArg Except.ok (by omega)

/-- The planes and their number for a whole input in the domain. -/
def limbsOf (input : List Int) : Limbs where
  used := input.foldl (fun used x => usedAfter used (digits limbCount (x % 2 ^ 64))) 1
  rows := input.map fun x => digits limbCount (x % 2 ^ 64)

theorem splitLoop_eq (har : ar.Faithful) (input : List Int) (limbs : Limbs) :
    splitLoop ar input limbs = .ok (if ∀ x ∈ input, limbMin ≤ x ∧ x ≤ limbMax then
      some ⟨input.foldl (fun used x => usedAfter used (digits limbCount (x % 2 ^ 64))) limbs.used,
        limbs.rows ++ input.map fun x => digits limbCount (x % 2 ^ 64)⟩ else none) := by
  induction input generalizing limbs with
  | nil =>
    rw [splitLoop]
    simp
  | cons x rest ih =>
    rw [splitLoop]
    by_cases hx : limbMin ≤ x ∧ x ≤ limbMax
    · rw [if_neg (not_not.mpr hx)]
      dsimp only
      rw [reconstruct_digits har hx, ok_bind, if_neg (not_not.mpr rfl), ih]
      simp only [forall_mem_cons, hx, true_and, foldl_cons, map_cons,
        append_assoc, cons_append, nil_append]
    · rw [if_pos hx, if_neg fun hall => hx (hall x mem_cons_self)]

/-- **`split_limbs`** succeeds exactly on a nonempty input in the digit domain with room for
    its planes. -/
theorem splitLimbs_eq (har : ar.Faithful) (input : List Int) (scratch : Nat) :
    splitLimbs ar input scratch = .ok (if input ≠ [] ∧ limbCount * input.length ≤ scratch ∧
      ∀ x ∈ input, limbMin ≤ x ∧ x ≤ limbMax then some (limbsOf input) else none) := by
  rw [splitLimbs]
  by_cases hshape : input.length = 0 ∨ scratch < limbCount * input.length
  · rw [if_pos hshape, if_neg]
    rintro ⟨hne, hroom, -⟩
    rcases hshape with hlen | hsmall
    · exact hne (eq_nil_of_length_eq_zero hlen)
    · omega
  · rw [if_neg hshape, splitLoop_eq har]
    rw [not_or] at hshape
    have hne : input ≠ [] := fun hnil => hshape.1 (by rw [hnil]; rfl)
    have hroom : limbCount * input.length ≤ scratch := Nat.le_of_not_lt hshape.2
    simp only [hne, hroom, true_and, ne_eq, not_false_eq_true, nil_append, limbsOf]

end Split

/-- A count that only grows: it passes what each element needs, and stays within the bound. -/
theorem foldl_covers {α : Type} {step : Nat → α → Nat} {needs : α → Nat → Prop} {bound : Nat}
    {l : List α} (h : ∀ used ≤ bound, ∀ a ∈ l,
      used ≤ step used a ∧ (∀ i, needs a i → i < step used a) ∧ step used a ≤ bound)
    {used : Nat} (hused : used ≤ bound) : used ≤ l.foldl step used ∧
      (∀ a ∈ l, ∀ i, needs a i → i < l.foldl step used) ∧ l.foldl step used ≤ bound := by
  induction l generalizing used with
  | nil => exact ⟨le_refl _, by simp, hused⟩
  | cons a l ih =>
    obtain ⟨hgrow, hcover, hbound⟩ := h used hused a mem_cons_self
    obtain ⟨hgrow', hcover', hbound'⟩ :=
      ih (fun used hused b hb => h used hused b (mem_cons_of_mem _ hb)) hbound
    refine ⟨hgrow.trans hgrow', ?_, hbound'⟩
    intro b hb i hi
    rcases mem_cons.mp hb with rfl | hb
    · exact lt_of_lt_of_le (hcover i hi) hgrow'
    · exact hcover' b hb i hi

theorem usedAfter_spec (used : Nat) (ds : List Int) :
    used ≤ usedAfter used ds ∧ (∀ i, ds.getD i 0 ≠ 0 → i < usedAfter used ds) ∧
      usedAfter used ds ≤ max used ds.length := by
  obtain ⟨hgrow, hcover, hbound⟩ := @foldl_covers (Int × Nat)
    (fun used c => if c.1 ≠ 0 ∧ c.2 + 1 > used then c.2 + 1 else used)
    (fun c i => c.1 ≠ 0 ∧ i = c.2) (max used ds.length) ds.zipIdx (by
      intro used _ c hc
      have hlt := snd_lt_of_mem_zipIdx hc
      split_ifs with hmore
      · exact ⟨by omega, by omega, by omega⟩
      · exact ⟨le_refl _, fun i hi => by omega, by omega⟩) _ (le_max_left _ _)
  refine ⟨hgrow, fun i hi => ?_, hbound⟩
  have hlt : i < ds.length := by
    by_contra hge
    exact hi (getD_eq_default _ _ (Nat.le_of_not_lt hge))
  rw [getD_eq_getElem _ _ hlt] at hi
  exact hcover (ds[i], i) (mk_mem_zipIdx_iff_getElem?.mpr (getElem?_eq_getElem hlt)) i ⟨hi, rfl⟩

/-- The planes hold the digits of `input`. -/
structure Limbs.Splits (limbs : Limbs) (input : List Int) : Prop where
  small : ∀ l j, |limbs.plane l j| ≤ 128
  value : ∀ j, ∑ l ∈ Finset.range 4, limbs.plane l j * 2 ^ (8 * l) = input.getD j 0
  beyond : ∀ l j, limbs.used ≤ l → limbs.plane l j = 0
  used : limbs.used ≤ 4

theorem usedFold_input (input : List Int)
    (hlen : ∀ x ∈ input, (digits limbCount (x % 2 ^ 64)).length = 4) :
    (∀ x ∈ input, ∀ i, (digits limbCount (x % 2 ^ 64)).getD i 0 ≠ 0 → i < (limbsOf input).used) ∧
      (limbsOf input).used ≤ 4 := by
  refine (foldl_covers (fun used hused x hx => ?_) (by decide : 1 ≤ 4)).2
  have hspec := usedAfter_spec used (digits limbCount (x % 2 ^ 64))
  rw [hlen x hx, max_eq_right hused] at hspec
  exact hspec

theorem limbsOf_splits (h : ∀ x ∈ input, limbMin ≤ x ∧ x ≤ limbMax) :
    (limbsOf input).Splits input := by
  have hlen : ∀ x ∈ input, (digits limbCount (x % 2 ^ 64)).length = 4 := by
    intro x hx
    rfl
  obtain ⟨hcover, hused⟩ := usedFold_input input hlen
  -- an index past the input reads zero digits
  have hplane : ∀ l j, (limbsOf input).plane l j =
      if hj : j < input.length then (digits limbCount (input[j] % 2 ^ 64)).getD l 0 else 0 := by
    intro l j
    rw [Limbs.plane, limbsOf]
    split
    · rename_i hj
      have hj' : j < (input.map fun x => digits limbCount (x % 2 ^ 64)).length := by
        rw [length_map]
        exact hj
      rw [getD_eq_getElem _ [] hj', getElem_map]
    · rename_i hj
      have hj' : (input.map fun x => digits limbCount (x % 2 ^ 64)).length ≤ j := by
        rw [length_map]
        exact Nat.le_of_not_lt hj
      rw [getD_eq_default _ [] hj']
      rfl
  refine ⟨?_, ?_, ?_, hused⟩
  · intro l j
    rw [hplane]
    split
    · rename_i hj
      obtain ⟨c₀, c₁, c₂, c₃, hds, hc, -⟩ := digits_spec (h _ (getElem_mem hj))
      rw [hds]
      by_cases hl : l < 4
      · rw [getD_eq_getElem _ _ hl]
        obtain ⟨hlow, hhigh⟩ := hc _ (getElem_mem hl)
        exact abs_le.mpr ⟨by omega, by omega⟩
      · rw [getD_eq_default _ _ (Nat.le_of_not_lt hl)]
        decide
    · decide
  · intro j
    simp only [hplane]
    by_cases hj : j < input.length
    · obtain ⟨c₀, c₁, c₂, c₃, hds, -, hx⟩ := digits_spec (h _ (getElem_mem hj))
      simp only [hj, dite_true, hds]
      rw [getD_eq_getElem _ _ hj, ← hx]
      simp only [Finset.sum_range_succ, getD_cons_zero, getD_cons_succ]
      ring
    · simp only [hj, dite_false, zero_mul, Finset.sum_const_zero]
      rw [getD_eq_default _ _ (Nat.le_of_not_lt hj)]
  · intro l j hl
    rw [hplane]
    split
    · rename_i hj
      by_contra hne
      exact absurd (hcover _ (getElem_mem hj) l hne) (not_lt.mpr hl)
    · rfl

/-! ## The vector loops are exact -/

section Exact

variable {ar : Arith ε} {row plane : Bytes} {len : Nat}

/-- Every product of a weight byte and a digit is at most `128 * 128`. -/
theorem abs_product_le (hrow : ∀ j, |row j| ≤ 128) (hplane : ∀ j, |plane j| ≤ 128) (j : Nat) :
    |row j * plane j| ≤ 16384 := by
  exact (abs_mul_le_of_le (hrow j) (hplane j)).trans (by norm_num)

theorem abs_dot4_le (hprod : ∀ j, |row j * plane j| ≤ 16384) (j : Nat) :
    |dot4 row plane j| ≤ 65536 := by
  have h₀ := abs_le.mp (hprod j)
  have h₁ := abs_le.mp (hprod (j + 1))
  have h₂ := abs_le.mp (hprod (j + 2))
  have h₃ := abs_le.mp (hprod (j + 3))
  rw [dot4]
  exact abs_le.mpr ⟨by omega, by omega⟩

theorem getD_map_range {α : Type} {d : α} (L : Nat → α) {n k : Nat} (hk : k < n) :
    ((List.range n).map L).getD k d = L k := by
  rw [getD_eq_getElem _ _ (by simpa using hk), getElem_map, getElem_range]

/-- The sum a lane holds after `n` iterations of `stride` columns: its group of columns starts
    at `p` in each of them. -/
def laneSum (group : Nat → Int) (stride p n : Nat) : Int :=
  ∑ b ∈ Finset.range n, group (stride * b + p)

theorem laneSum_succ (group : Nat → Int) (stride p n : Nat) :
    laneSum group stride p (n + 1) = laneSum group stride p n + group (stride * n + p) :=
  Finset.sum_range_succ _ n

variable {n : Nat} {group : Nat → Int}

/-- A lane takes at most `2 ^ 16` an iteration, and there are fewer than `2 ^ 13` of them. -/
theorem abs_laneSum_le (hgroup : ∀ j, |group j| ≤ 65536) (stride p : Nat)
    (hn : n ≤ 8191) : |laneSum group stride p n| ≤ 2 ^ 29 := by
  have hsum := abs_sum_range_le (n := n) fun b _ => hgroup (stride * b + p)
  have hbound : (n : Int) * 65536 ≤ 2 ^ 29 := by
    omega
  exact hsum.trans hbound

theorem fits_laneSum (hgroup : ∀ j, |group j| ≤ 65536) (stride p : Nat)
    (hn : n ≤ 8191) : Fits 32 (laneSum group stride p n) :=
  fits_of_abs_lt (lt_of_le_of_lt (abs_laneSum_le hgroup stride p hn) (by norm_num))

/-! ### SDOT -/

/-- One `SDOT` of the bytes from `32 * n + q` on. -/
theorem sdot_eq (har : ar.Faithful) (hdot : ∀ j, |dot4 row plane j| ≤ 65536)
    (hn : n + 1 ≤ 8191) (q : Nat) :
    sdot ar ((List.range 4).map fun k => laneSum (dot4 row plane) 32 (q + 4 * k) n)
        (load row (32 * n + q)) (load plane (32 * n + q)) =
      .ok ((List.range 4).map fun k => laneSum (dot4 row plane) 32 (q + 4 * k) (n + 1)) := by
  apply mapM_eq_ok
  intro k hk
  rw [getD_map_range _ (mem_range.mp hk), laneSum_succ, ← add_assoc (32 * n) q (4 * k)]
  apply har.i32
  have hfits := fits_laneSum hdot 32 (q + 4 * k) hn
  rw [laneSum_succ, ← add_assoc (32 * n) q (4 * k)] at hfits
  exact hfits

/-- The eight lanes of the SDOT loop together hold the covered columns. -/
theorem sum_sdot_lanes (n : Nat) :
    ((List.range 4).map fun k => laneSum (dot4 row plane) 32 (0 + 4 * k) n +
      laneSum (dot4 row plane) 32 (16 + 4 * k) n).sum =
      ∑ j ∈ Finset.range (32 * n), row j * plane j := by
  rw [sum_range_blocks]
  simp only [range_succ, range_zero, map_cons, map_nil, nil_append,
    cons_append, sum_cons, sum_nil, laneSum, ← Finset.sum_add_distrib, add_zero]
  refine Finset.sum_congr rfl fun b _ => ?_
  simp only [dot4, Finset.sum_range_succ]
  ring_nf

theorem vectorSum_neonSdot (har : ar.Faithful) (hprod : ∀ j, |row j * plane j| ≤ 16384)
    (hlen : len ≤ maxColsForI32) :
    vectorSum ar row plane len .neonSdot =
      .ok (∑ j ∈ Finset.range (32 * (len / 32)), row j * plane j) := by
  rw [maxColsForI32] at hlen
  have hdot := abs_dot4_le hprod
  let lanes (q n : Nat) : List Int :=
    (List.range 4).map fun k => laneSum (dot4 row plane) 32 (q + 4 * k) n
  have hloop := foldlM_range (ε := ε) (n := len / 32) (f := fun (acc : List Int × List Int) b => do
      let acc0 ← sdot ar acc.1 (load row (32 * b)) (load plane (32 * b))
      let acc1 ← sdot ar acc.2 (load row (32 * b + 16)) (load plane (32 * b + 16))
      pure (acc0, acc1))
    (fun n => (lanes 0 n, lanes 16 n)) (by
      intro n hn
      rw [show sdot ar (lanes 0 n) (load row (32 * n)) (load plane (32 * n)) = _ from
          sdot_eq har hdot (by omega) 0, show sdot ar (lanes 16 n) (load row (32 * n + 16)) (load plane (32 * n + 16)) = _ from
          sdot_eq har hdot (by omega) 16]
      rfl)
  have hadd : vaddqS32 ar (lanes 0 (len / 32)) (lanes 16 (len / 32)) =
      .ok ((List.range 4).map fun k => laneSum (dot4 row plane) 32 (0 + 4 * k) (len / 32) +
        laneSum (dot4 row plane) 32 (16 + 4 * k) (len / 32)) := by
    apply mapM_eq_ok
    intro k hk
    rw [getD_map_range _ (mem_range.mp hk), getD_map_range _ (mem_range.mp hk)]
    have hn : len / 32 ≤ 8191 := by omega
    have h0 := abs_le.mp (abs_laneSum_le hdot 32 (0 + 4 * k) hn)
    have h16 := abs_le.mp (abs_laneSum_le hdot 32 (16 + 4 * k) hn)
    exact har.i32 ⟨by omega, by omega⟩
  show (List.foldlM _ (lanes 0 0, lanes 16 0) _ >>= _) = _
  rw [hloop, ok_bind, hadd, ok_bind, vaddvqS32, sum_sdot_lanes]
  -- the horizontal sum is bounded by the columns it covers, not by its lanes
  apply har.i32
  apply fits_of_abs_lt
  have hsum := abs_sum_range_le (n := 32 * (len / 32)) fun j _ => hprod j
  have hbound : ((32 * (len / 32) : Nat) : Int) * 16384 < 2 ^ (32 - 1) := by
    omega
  exact lt_of_le_of_lt hsum hbound

/-! ### AVX2 -/

/-- The product of two neighbouring byte pairs. -/
def dot2 (a b : Bytes) (j : Nat) : Int := a j * b j + a (j + 1) * b (j + 1)

theorem abs_dot2_le (hprod : ∀ j, |row j * plane j| ≤ 16384) (j : Nat) :
    |dot2 row plane j| ≤ 65536 := by
  have h₀ := abs_le.mp (hprod j)
  have h₁ := abs_le.mp (hprod (j + 1))
  rw [dot2]
  exact abs_le.mpr ⟨by omega, by omega⟩

theorem maddEpi16_eq (har : ar.Faithful) (hdot : ∀ j, |dot2 row plane j| ≤ 65536) (j : Nat) :
    maddEpi16 ar (load row j) (load plane j) =
      .ok ((List.range 8).map fun k => dot2 row plane (j + 2 * k)) := by
  apply mapM_eq_ok
  intro k _
  exact har.i32 (fits_of_abs_lt (lt_of_le_of_lt (hdot (j + 2 * k)) (by norm_num)))

theorem sum_avx2_lanes (n : Nat) :
    ((List.range 8).map fun k => laneSum (dot2 row plane) 16 (2 * k) n).sum =
      ∑ j ∈ Finset.range (16 * n), row j * plane j := by
  rw [sum_range_blocks]
  simp only [range_succ, range_zero, map_cons, map_nil, nil_append,
    cons_append, sum_cons, sum_nil, laneSum, ← Finset.sum_add_distrib, add_zero]
  simp only [dot2, Finset.sum_range_succ]
  ring_nf

section

variable (har : ar.Faithful) (hprod : ∀ j, |row j * plane j| ≤ 16384) (hlen : len ≤ maxColsForI32)

include har hprod hlen

theorem vectorSum_avx2 : vectorSum ar row plane len .avx2 =
      .ok (∑ j ∈ Finset.range (16 * (len / 16)), row j * plane j) := by
  rw [maxColsForI32] at hlen
  have hdot := abs_dot2_le hprod
  let lanes (n : Nat) : List Int :=
    (List.range 8).map fun k => laneSum (dot2 row plane) 16 (2 * k) n
  have hloop := foldlM_range (ε := ε) (n := len / 16) (f := fun (acc : List Int) b => do
      addEpi32 ar acc (← maddEpi16 ar (load row (16 * b)) (load plane (16 * b))))
    lanes (by
      intro n hn
      rw [maddEpi16_eq har hdot]
      apply mapM_eq_ok
      intro k hk
      rw [getD_map_range _ (mem_range.mp hk), getD_map_range _ (mem_range.mp hk)]
      have hfits := fits_laneSum hdot 16 (2 * k) (n := n + 1) (by omega)
      rw [laneSum_succ] at hfits
      rw [laneSum_succ]
      exact har.i32 hfits)
  show (List.foldlM _ (lanes 0) _ >>= _) = _
  -- the eight lanes are summed in i64
  have hlanes : ((lanes (len / 16)).map fun lane => |lane|).sum < 2 ^ (64 - 1) := by
    refine lt_of_le_of_lt (sum_le_card_nsmul _ (2 ^ 29) ?_) ?_
    · intro v hv
      obtain ⟨lane, hlane, rfl⟩ := mem_map.mp hv
      obtain ⟨k, -, rfl⟩ := mem_map.mp hlane
      exact abs_laneSum_le hdot 16 (2 * k) (by omega)
    · rw [length_map, length_map]
      decide
  rw [hloop, ok_bind, foldlM_sum har.i64 hlanes, sum_avx2_lanes]

/-! ### All planes -/

/-- The vector loop sums the columns it covers. -/
theorem vectorSum_eq (kernel : BaseKernel) : vectorSum ar row plane len kernel =
      .ok (∑ j ∈ Finset.range (kernel.step * (len / kernel.step)), row j * plane j) := by
  cases kernel with
  | neonSdot => exact vectorSum_neonSdot har hprod hlen
  | avx2 => exact vectorSum_avx2 har hprod hlen

theorem planeDot_eq (kernel : BaseKernel) :
    planeDot ar kernel row plane len = .ok (∑ j ∈ Finset.range len, row j * plane j) := by
  set covered := kernel.step * (len / kernel.step) with hcovered
  have hle : covered ≤ len := Nat.mul_div_le len kernel.step
  rw [planeDot, vectorSum_eq har hprod hlen]
  have htail := foldlM_range (ε := ε) (n := len - covered) (f := fun a j => do
      ar.i64 (a + (← ar.i64 (row (covered + j) * plane (covered + j)))))
    (fun n => ∑ j ∈ Finset.range (covered + n), row j * plane j) (by
      intro n hn
      have hterm := abs_le.mp (hprod (covered + n))
      have hsum := abs_le.mp (abs_sum_range_le (n := covered + n) fun j _ => hprod j)
      rw [maxColsForI32] at hlen
      rw [har.i64 (v := row (covered + n) * plane (covered + n)) ⟨by omega, by omega⟩, ok_bind,
        har.i64 ⟨by omega, by omega⟩]
      exact congrArg _ (Finset.sum_range_succ _ _).symm)
  rw [Nat.add_sub_cancel' hle] at htail
  exact htail

end

/-- **The limb kernel is exact.**  The used planes of an input, at their place values, give
    the row's product with the input. -/
theorem dotLimbs_eq (har : ar.Faithful) {limbs : Limbs} (hsplits : limbs.Splits input)
    (hrow : ∀ j, |row j| ≤ 128) (hlen : len ≤ maxColsForI32) {used : Nat}
    (hused : limbs.used ≤ used) (hused4 : used ≤ 4) (kernel : BaseKernel) :
    dotLimbs ar kernel row limbs len used =
      .ok (∑ j ∈ Finset.range len, row j * input.getD j 0) := by
  have hprod : ∀ l j, |row j * limbs.plane l j| ≤ 16384 := fun l =>
    abs_product_le hrow (hsplits.small l)
  let planeSum (l : Nat) : Int := ∑ j ∈ Finset.range len, row j * limbs.plane l j
  have hplane : ∀ l, |planeSum l| ≤ 2 ^ 31 := by
    intro l
    have hsum := abs_sum_range_le (n := len) fun j _ => hprod l j
    rw [maxColsForI32] at hlen
    have hbound : (len : Int) * 16384 ≤ 2 ^ 31 := by
      omega
    exact hsum.trans hbound
  have hplace : ∀ l < 4, |planeSum l * 2 ^ (8 * l)| ≤ 2 ^ 55 := by
    intro l hl
    rw [abs_mul, abs_of_nonneg (show (0 : Int) ≤ 2 ^ (8 * l) by positivity)]
    calc |planeSum l| * 2 ^ (8 * l) ≤ 2 ^ 31 * 2 ^ 24 := by
          apply mul_le_mul (hplane l) _ (by positivity) (by norm_num)
          exact pow_le_pow_right₀ (by norm_num) (by omega)
      _ = 2 ^ 55 := by norm_num
  have hloop := foldlM_range (ε := ε) (n := used) (f := fun total l => do
      let a ← planeDot ar kernel row (limbs.plane l) len
      ar.i64 (total + (← ar.i64 (a * 2 ^ (8 * l)))))
    (fun n => ∑ l ∈ Finset.range n, planeSum l * 2 ^ (8 * l)) (by
      intro n hn
      have hterm := abs_le.mp (hplace n (by omega))
      have hsum := abs_le.mp (abs_sum_range_le (n := n) fun l hl => hplace l (by omega))
      rw [planeDot_eq har (hprod n) hlen kernel, ok_bind,
        har.i64 (v := planeSum n * 2 ^ (8 * n)) ⟨by omega, by omega⟩, ok_bind,
        har.i64 ⟨by omega, by omega⟩]
      exact congrArg _ (Finset.sum_range_succ _ _).symm)
  refine hloop.trans (congrArg _ ?_)
  -- the planes from `used` on are zero, so all four may be summed
  have hall : ∑ l ∈ Finset.range used, planeSum l * 2 ^ (8 * l) =
      ∑ l ∈ Finset.range 4, planeSum l * 2 ^ (8 * l) := by
    refine Finset.sum_subset (Finset.range_subset_range.mpr hused4) ?_
    intro l _ hl
    have hzero : planeSum l = 0 := by
      apply Finset.sum_eq_zero
      intro j _
      have hl' : limbs.used ≤ l := by
        rw [Finset.mem_range] at hl
        omega
      rw [hsplits.beyond l j hl', mul_zero]
    rw [hzero, zero_mul]
  rw [hall]
  simp only [planeSum, Finset.sum_mul]
  rw [Finset.sum_comm]
  refine Finset.sum_congr rfl fun j _ => ?_
  rw [← hsplits.value j, Finset.mul_sum]
  exact Finset.sum_congr rfl fun l _ => mul_assoc _ _ _

end Exact

/-! ## Rows with a scale -/

/-- The product of row `i` with an input, over the integers. -/
def rowProduct (data : List Int8) (inSize i : Nat) (input : List Int) : Int :=
  ∑ j ∈ Finset.range inSize, bytesAt data (i * inSize) j * input.getD j 0

/-- The scaled product, as the scalar kernel defines it. -/
def scaledProduct (weights : I8Weights) (inSize i : Nat) (input : List Int) : Int :=
  (rowProduct weights.data inSize i input * weights.scales.getD i 0) >>> fracBits

theorem abs_bytesAt_le (data : List Int8) (base j : Nat) : |bytesAt data base j| ≤ 128 := by
  have hlow := Int8.le_toInt (data.getD (base + j) 0)
  have hhigh := Int8.toInt_lt (data.getD (base + j) 0)
  rw [bytesAt]
  exact abs_le.mpr ⟨by omega, by omega⟩

theorem sum_getD_eq (f : Int → Int) (l : List Int) :
    ∑ j ∈ Finset.range l.length, f (l.getD j 0) = (l.map f).sum := by
  induction l with
  | nil => rfl
  | cons x l ih =>
    rw [length_cons, Finset.sum_range_succ', add_comm]
    exact congrArg _ ih

/-- `|acc| <= 128 * sum |x|`. -/
theorem abs_rowProduct_le (data : List Int8) (i : Nat) (input : List Int) :
    |rowProduct data input.length i input| ≤ 128 * (input.map fun x => |x|).sum := by
  calc |rowProduct data input.length i input|
      ≤ ∑ j ∈ Finset.range input.length, |bytesAt data (i * input.length) j * input.getD j 0| :=
        Finset.abs_sum_le_sum_abs _ _
    _ ≤ ∑ j ∈ Finset.range input.length, 128 * |input.getD j 0| :=
        Finset.sum_le_sum fun j _ => abs_mul_le_of_le (abs_bytesAt_le data _ j) le_rfl
    _ = 128 * (input.map fun x => |x|).sum := by
        rw [← Finset.mul_sum, sum_getD_eq fun x => |x|]

theorem checked64_eq_some {v w : Int} : checked64 v = some w ↔ Fits 64 v ∧ v = w := by
  rw [checked64]
  split
  · rename_i hfits
    simp [hfits]
  · rename_i hfits
    simp [hfits]

theorem absSum_eq {init total : Int}
    (h : input.foldlM (fun sum v => do checked64 (sum + (← checked64 |v|))) init = some total) :
    total = init + (input.map fun x => |x|).sum := by
  induction input generalizing init with
  | nil =>
    obtain rfl := Option.some.inj h
    exact (add_zero _).symm
  | cons x rest ih =>
    obtain ⟨sum, hstep, hrest⟩ := Option.bind_eq_some_iff.mp h
    obtain ⟨a, habs, hadd⟩ := Option.bind_eq_some_iff.mp hstep
    obtain ⟨-, rfl⟩ := checked64_eq_some.mp habs
    obtain ⟨-, rfl⟩ := checked64_eq_some.mp hadd
    rw [ih hrest, map_cons, sum_cons, add_assoc]

/-- What the check before the first output byte establishes for every row. -/
theorem postScaleBoundHolds_spec {scales : List Int} (h : postScaleBoundHolds input scales = true)
    {s : Int} (hs : s ∈ scales) :
    128 * (input.map fun x => |x|).sum * |s| < 2 ^ 63 := by
  rw [postScaleBoundHolds] at h
  split at h
  · cases h
  rename_i total htotal
  have htotal' := absSum_eq htotal
  rw [zero_add] at htotal'
  split at h
  · cases h
  rename_i dotBound hbound
  obtain ⟨-, rfl⟩ := checked64_eq_some.mp hbound
  have hrow := all_eq_true.mp h s hs
  split at hrow
  · cases hrow
  rename_i a habs
  obtain ⟨-, rfl⟩ := checked64_eq_some.mp habs
  obtain ⟨v, hv⟩ := Option.isSome_iff_exists.mp hrow
  obtain ⟨hfits, -⟩ := checked64_eq_some.mp hv
  rw [mul_comm 128, ← htotal']
  exact hfits.2

section Entry

variable {ar : Arith ε}

theorem scaled_eq (har : ar.Faithful) {acc scale B : Int} (hacc : |acc| ≤ B)
    (hB : B * |scale| < 2 ^ 63) : scaled ar acc scale = .ok ((acc * scale) >>> fracBits) := by
  have hprod : |acc * scale| < 2 ^ 63 := lt_of_le_of_lt (abs_mul_le_of_le hacc le_rfl) hB
  rw [scaled, har.i64 (fits_of_abs_lt hprod)]
  rfl

/-- A missing scale reads as zero; every other one was checked. -/
theorem scaled_rowProduct (har : ar.Faithful) {weights : I8Weights} (i : Nat)
    (hbound : postScaleBoundHolds input weights.scales = true) :
    scaled ar (rowProduct weights.data input.length i input) (weights.scales.getD i 0) =
      .ok (scaledProduct weights input.length i input) := by
  by_cases hi : i < weights.scales.length
  · refine scaled_eq har (abs_rowProduct_le _ i input) ?_
    rw [getD_eq_getElem _ _ hi]
    exact postScaleBoundHolds_spec hbound (getElem_mem hi)
  · have hzero : weights.scales.getD i 0 = 0 := getD_eq_default _ _ (Nat.le_of_not_lt hi)
    rw [scaledProduct, hzero, scaled, mul_zero, har.i64 (by decide)]
    rfl

theorem dotLimbs_limbsOf (har : ar.Faithful) (data : List Int8)
    (hdomain : ∀ x ∈ input, limbMin ≤ x ∧ x ≤ limbMax) (hlen : input.length ≤ maxColsForI32)
    (i : Nat) {used : Nat} (hused : (limbsOf input).used ≤ used) (hused4 : used ≤ 4)
    (kernel : BaseKernel) :
    dotLimbs ar kernel (bytesAt data (i * input.length)) (limbsOf input) input.length used =
      .ok (rowProduct data input.length i input) :=
  dotLimbs_eq har (limbsOf_splits hdomain) (abs_bytesAt_le _ _) hlen hused hused4 kernel

/-- One result for every faithful arithmetic: accepted with the values, or refused with the
    buffer as it was. -/
def OneResult (run : Arith ε → Except ε (Bool × List Int)) (values buffer : List Int) : Prop :=
  ∃ accepted : Bool, ∀ ar : Arith ε, ar.Faithful →
    run ar = .ok (accepted, if accepted then values else buffer)

variable {values buffer out : List Int}

/-- A guard that does not look at the arithmetic. -/
theorem OneResult.guard {p : Prop} [Decidable p] {run : Arith ε → Except ε (Bool × List Int)}
    (h : ¬ p → OneResult run values buffer) :
    OneResult (fun ar => if p then .ok (false, buffer) else run ar) values buffer := by
  by_cases hp : p
  · exact ⟨false, fun ar _ => if_pos hp⟩
  · obtain ⟨accepted, hrun⟩ := h hp
    exact ⟨accepted, fun ar har => (if_neg hp).trans (hrun ar har)⟩

/-- The split of one input of the digit domain. -/
theorem OneResult.split {run : Arith ε → Limbs → Except ε (List Int)}
    (h : ∀ ar : Arith ε, ar.Faithful → (∀ x ∈ input, limbMin ≤ x ∧ x ≤ limbMax) →
      run ar (limbsOf input) = .ok values) :
    OneResult (fun ar => do
      match ← splitLimbs ar input (limbCount * input.length) with
      | none => .ok (false, buffer)
      | some limbs =>
        let out ← run ar limbs
        .ok (true, out)) values buffer := by
  by_cases hdomain : input ≠ [] ∧ limbCount * input.length ≤ limbCount * input.length ∧
      ∀ x ∈ input, limbMin ≤ x ∧ x ≤ limbMax
  · refine ⟨true, fun ar har => ?_⟩
    dsimp only
    rw [splitLimbs_eq har, if_pos hdomain, ok_bind]
    dsimp only
    rw [h ar har hdomain.2.2]
    rfl
  · refine ⟨false, fun ar har => ?_⟩
    dsimp only
    rw [splitLimbs_eq har, if_neg hdomain]
    rfl

theorem matmulI8CanonicalRowsFast_eq (kernel : BaseKernel) (available : Bool)
    (weights : I8Weights) (input : List Int) (inSize : Nat) (output : List Int) :
    OneResult (ε := ε) (matmulI8CanonicalRowsFast · kernel available weights input inSize output)
      ((List.range weights.nRows).map fun i => scaledProduct weights inSize i input) output := by
  refine .guard fun _ => .guard fun hshape => .guard fun hcols => .guard fun hscale => ?_
  have hlen : input.length = inSize := by
    by_contra hne
    exact hshape (.inr (.inl hne))
  subst hlen
  refine .split fun ar har hdomain => mapM_eq_ok fun i _ => ?_
  rw [dotLimbs_limbsOf har _ hdomain (Nat.le_of_not_lt hcols) i (le_refl _)
    (limbsOf_splits hdomain).used]
  exact scaled_rowProduct har i (Bool.eq_true_of_not_eq_false hscale)

theorem exactRowDotsFast_eq (kernel : BaseKernel) (available : Bool) (data : List Int8)
    (nRows nCols : Nat) (input acc : List Int) :
    OneResult (ε := ε) (exactRowDotsFast · kernel available data nRows nCols input acc)
      ((List.range nRows).map fun i => rowProduct data nCols i input) acc := by
  refine .guard fun _ => .guard fun hshape => .guard fun hcols => ?_
  have hlen : input.length = nCols := by
    by_contra hne
    exact hshape (.inr (.inr (.inl hne)))
  subst hlen
  exact .split fun ar har hdomain => mapM_eq_ok fun i _ =>
    dotLimbs_limbsOf har _ hdomain (Nat.le_of_not_lt hcols) i (le_refl _)
      (limbsOf_splits hdomain).used kernel

/-! ### Batches -/

/-- `out'` is `out` with the entries in `W` overwritten by `g`. -/
structure Stores (g : Nat → Int) (W : Set Nat) (out out' : List Int) : Prop where
  length : out'.length = out.length
  written : ∀ k < out.length, k ∈ W → out'.getD k 0 = g k
  kept : ∀ k, k ∉ W → out'.getD k 0 = out.getD k 0

theorem Stores.trans {g : Nat → Int} {W W' : Set Nat} {out' out'' : List Int}
    (h : Stores g W out out') (h' : Stores g W' out' out'') : Stores g (W ∪ W') out out'' := by
  refine ⟨h'.length.trans h.length, ?_, ?_⟩
  · intro k hk hmem
    by_cases hlast : k ∈ W'
    · exact h'.written k (h.length ▸ hk) hlast
    · rw [h'.kept k hlast]
      exact h.written k hk (hmem.resolve_right hlast)
  · intro k hmem
    rw [Set.mem_union, not_or] at hmem
    rw [h'.kept k hmem.2, h.kept k hmem.1]

theorem stores_set (g : Nat → Int) (out : List Int) (k : Nat) :
    Stores g {k} out (out.set k (g k)) := by
  refine ⟨length_set, ?_, ?_⟩
  · intro j hj hmem
    obtain rfl := Set.mem_singleton_iff.mp hmem
    rw [getD_eq_getElem _ _ (by rw [length_set]; exact hj), getElem_set_self]
  · intro j hmem
    have hne : k ≠ j := fun heq => hmem heq.symm
    rw [getD_eq_getElem?_getD, getD_eq_getElem?_getD, List.getElem?_set_ne hne]

/-- **Store loop.**  Each iteration stores its own entries; the loop stores them all. -/
theorem foldlM_stores {g : Nat → Int} {n : Nat} {f : List Int → Nat → Except ε (List Int)}
    {W : Nat → Set Nat}
    (h : ∀ i < n, ∀ out, ∃ out', f out i = .ok out' ∧ Stores g (W i) out out') (out : List Int) :
    ∃ out', (List.range n).foldlM f out = .ok out' ∧ Stores g {k | ∃ i < n, k ∈ W i} out out' := by
  induction n with
  | zero =>
    refine ⟨out, rfl, rfl, ?_, fun _ _ => rfl⟩
    rintro k - ⟨i, hi, -⟩
    exact absurd hi (Nat.not_lt_zero i)
  | succ n ih =>
    obtain ⟨mid, hmid, hstored⟩ := ih fun i hi => h i (Nat.lt_succ_of_lt hi)
    obtain ⟨out', hlast, hstores⟩ := h n (Nat.lt_succ_self n) mid
    refine ⟨out', ?_, ?_⟩
    · rw [range_succ, foldlM_append, hmid, ok_bind, foldlM_cons, hlast]
      rfl
    · have hunion : {k | ∃ i < n + 1, k ∈ W i} = {k | ∃ i < n, k ∈ W i} ∪ W n := by
        ext k
        simp only [Nat.lt_succ_iff_lt_or_eq]
        constructor
        · rintro ⟨i, hi | rfl, hk⟩
          · exact .inl ⟨i, hi, hk⟩
          · exact .inr hk
        · rintro (⟨i, hi, hk⟩ | hk)
          · exact ⟨i, .inl hi, hk⟩
          · exact ⟨n, .inr rfl, hk⟩
      rw [hunion]
      exact hstored.trans hstores

/-- What the batched entry point establishes before it runs a kernel. -/
structure BatchJob.Valid (job : BatchJob) (weights : I8Weights) (inputs : List Int) : Prop where
  data : job.data = weights.data
  scales : job.scales = weights.scales
  cols : job.inSize ≤ maxColsForI32
  used : job.used ≤ 4
  limbs : ∀ t < job.nTokens, job.limbsOf t = LimbKernel.limbsOf (tokenInput inputs job.inSize t) ∧
    (job.limbsOf t).used ≤ job.used
  length : ∀ t < job.nTokens, (tokenInput inputs job.inSize t).length = job.inSize
  domain : ∀ t < job.nTokens, ∀ x ∈ tokenInput inputs job.inSize t, limbMin ≤ x ∧ x ≤ limbMax
  bound : ∀ t < job.nTokens, postScaleBoundHolds (tokenInput inputs job.inSize t)
    weights.scales = true

variable {job : BatchJob} {weights : I8Weights} {inputs : List Int}

theorem BatchJob.Valid.dotLimbs_eq (h : job.Valid weights inputs) (har : ar.Faithful)
    (kernel : BaseKernel) {t : Nat} (ht : t < job.nTokens) (i : Nat) :
    dotLimbs ar kernel (bytesAt job.data (i * job.inSize)) (job.limbsOf t) job.inSize job.used =
      .ok (rowProduct weights.data job.inSize i (tokenInput inputs job.inSize t)) := by
  obtain ⟨hlimbs, hused⟩ := h.limbs t ht
  have hlen := h.length t ht
  rw [hlimbs] at hused
  rw [h.data, hlimbs]
  have hdot := dotLimbs_limbsOf har weights.data (h.domain t ht)
    (by rw [hlen]; exact h.cols) i hused h.used kernel
  rw [hlen] at hdot
  exact hdot

/-- Both tile shapes give the products of the tile's own tokens. -/
theorem BatchJob.Valid.quadDots_eq (h : job.Valid weights inputs) (har : ar.Faithful)
    (kernel : BaseKernel) {t quad : Nat} (hquad : quad ≤ 4) (ht : t + quad ≤ job.nTokens)
    (i : Nat) :
    quadDots ar kernel job t quad i = .ok ((List.range quad).map fun q =>
      rowProduct weights.data job.inSize i (tokenInput inputs job.inSize (t + q))) := by
  rw [quadDots]
  by_cases hshort : quad ≤ oneRowKernelUpTo
  · rw [if_pos hshort]
    apply mapM_eq_ok
    intro q hq
    have hq' := mem_range.mp hq
    exact h.dotLimbs_eq har kernel (by omega) i
  · rw [if_neg hshort]
    dsimp only
    rw [dotLimbsX4, mapM_map, mapM_eq_ok (g := fun q => rowProduct weights.data job.inSize i
      (tokenInput inputs job.inSize (t + min q (quad - 1))))]
    · -- the repeated lanes are dropped again
      show Except.ok _ = _
      rw [← map_take, take_range, min_eq_left hquad]
      refine congrArg _ (map_congr_left fun q hq => ?_)
      have hq' := mem_range.mp hq
      rw [min_eq_left (by omega)]
    · intro q _
      exact h.dotLimbs_eq har kernel (by omega) i

/-- The output as a function of its index. -/
def batchValue (weights : I8Weights) (inputs : List Int) (inSize k : Nat) : Int :=
  scaledProduct weights inSize (k % weights.nRows) (tokenInput inputs inSize (k / weights.nRows))

theorem BatchJob.Valid.quadRow_stores (h : job.Valid weights inputs) (har : ar.Faithful)
    (hrows : job.nRows = weights.nRows) (kernel : BaseKernel) (t quad : Nat) (hquad : quad ≤ 4)
    (ht : t + quad ≤ job.nTokens) {i : Nat} (hi : i < job.nRows) (out : List Int) :
    ∃ out', quadRow ar kernel job t quad out i = .ok out' ∧
      Stores (batchValue weights inputs job.inSize)
        {k | ∃ q < quad, k ∈ ({(t + q) * job.nRows + i} : Set Nat)} out out' := by
  rw [quadRow, h.quadDots_eq har kernel hquad ht i]
  apply foldlM_stores
  intro q hq out
  have hvalue : scaled ar (((List.range quad).map fun q => rowProduct weights.data job.inSize i
      (tokenInput inputs job.inSize (t + q))).getD q 0) (job.scales.getD i 0) =
      .ok (batchValue weights inputs job.inSize ((t + q) * job.nRows + i)) := by
    have hlen := h.length (t + q) (by omega)
    have hscaled := scaled_rowProduct har i (h.bound (t + q) (by omega))
    rw [hlen] at hscaled
    rw [getD_map_range _ hq, h.scales, hscaled, batchValue, ← hrows,
      add_comm _ i, Nat.add_mul_mod_self_right, Nat.mod_eq_of_lt hi,
      Nat.add_mul_div_right _ _ (by omega), Nat.div_eq_of_lt hi, zero_add]
  rw [hvalue]
  exact ⟨_, rfl, stores_set _ out _⟩

/-- The blocks and tiles of `run_quads` reach every output. -/
theorem BatchJob.Valid.runQuads_eq (h : job.Valid weights inputs) (har : ar.Faithful)
    (hrows : job.nRows = weights.nRows) (kernel : BaseKernel)
    (hout : out.length ≤ job.nTokens * job.nRows) :
    runQuads ar kernel job out =
      .ok ((List.range out.length).map (batchValue weights inputs job.inSize)) := by
  rw [runQuads]
  set rowBlock := max 1 (min (131072 / job.inSize) (max job.nRows 1)) with hrowBlock
  have hblock : 0 < rowBlock := by omega
  -- one tile of a block: its rows, and in each row its tokens
  have htile : ∀ b c, c < (job.nTokens + 3) / 4 → ∀ out : List Int, ∃ out',
      (List.range (min (b * rowBlock + rowBlock) job.nRows - b * rowBlock)).foldlM
        (fun out offset => quadRow ar kernel job (4 * c) (min (job.nTokens - 4 * c) 4) out
          (b * rowBlock + offset)) out = .ok out' ∧
      Stores (batchValue weights inputs job.inSize) {k | ∃ offset <
        min (b * rowBlock + rowBlock) job.nRows - b * rowBlock, k ∈
          {k | ∃ q < min (job.nTokens - 4 * c) 4, k ∈
            ({(4 * c + q) * job.nRows + (b * rowBlock + offset)} : Set Nat)}} out out' :=
    fun b c hc => foldlM_stores fun offset hoffset out =>
      h.quadRow_stores har hrows kernel (4 * c) (min (job.nTokens - 4 * c) 4)
        (i := b * rowBlock + offset) (by omega) (by omega) (by omega) out
  obtain ⟨out', hrun, hstores⟩ := foldlM_stores (n := (job.nRows + rowBlock - 1) / rowBlock)
    (fun b _ out => foldlM_stores (fun c hc out => htile b c hc out) out) out
  rw [hrun]
  refine congrArg _ (ext_getElem ?_ fun k hk _ => ?_)
  · rw [hstores.length, length_map, length_range]
  · have hk' : k < out.length := hstores.length ▸ hk
    have hpos : 0 < job.nRows := Nat.pos_of_mul_pos_left (Nat.lt_of_le_of_lt (Nat.zero_le k)
      (lt_of_lt_of_le hk' hout))
    -- `k` is row `i` of token `t`: block `i / rowBlock`, tile `t / 4`
    have ht : k / job.nRows < job.nTokens :=
      (Nat.div_lt_iff_lt_mul hpos).mpr (lt_of_lt_of_le hk' hout)
    have hi : k % job.nRows < job.nRows := Nat.mod_lt k hpos
    set t := k / job.nRows with htdef
    set i := k % job.nRows with hidef
    have hidiv := Nat.div_add_mod' i rowBlock
    have himod := Nat.mod_lt i hblock
    have hwritten := hstores.written k hk' ⟨i / rowBlock, ?_, t / 4, by omega, i % rowBlock,
      by omega, t % 4, by omega, ?_⟩
    · rw [getD_eq_getElem _ _ hk] at hwritten
      rw [hwritten, getElem_map, getElem_range]
    · apply (Nat.div_lt_iff_lt_mul hblock).mpr
      have := Nat.lt_div_mul_add hblock (a := job.nRows + rowBlock - 1)
      omega
    · rw [hidiv, Nat.div_add_mod t 4]
      exact (Nat.div_add_mod' k job.nRows).symm

theorem mapM_id_map_some {α : Type} (l : List α) : (l.map some).mapM id = some l := by
  induction l with
  | nil => rfl
  | cons a l ih =>
    rw [map_cons, mapM_cons, ih]
    rfl

theorem mapM_id_of_none_mem {α : Type} {l : List (Option α)} (h : none ∈ l) : l.mapM id = none := by
  induction l with
  | nil => exact absurd h not_mem_nil
  | cons a l ih =>
    rw [mapM_cons]
    cases a with
    | none => rfl
    | some a =>
      have hmem : none ∈ l := by simpa using h
      rw [ih hmem]
      rfl

/-- The planes in use of a batch: as many as some token needs, and as many as any does. -/
theorem batchUsed_spec {limbs : List Limbs} (h4 : ∀ l ∈ limbs, l.used ≤ 4) :
    ((limbs.map (·.used)).max?).getD 1 ≤ 4 ∧
      ∀ l ∈ limbs, l.used ≤ ((limbs.map (·.used)).max?).getD 1 := by
  cases hmax : (limbs.map (·.used)).max? with
  | none =>
    have hnil : limbs = [] := by simpa using hmax
    rw [hnil]
    exact ⟨by decide, fun l hl => absurd hl not_mem_nil⟩
  | some used =>
    obtain ⟨hmem, hle⟩ := List.max?_eq_some_iff.mp hmax
    obtain ⟨l, hl, rfl⟩ := mem_map.mp hmem
    exact ⟨h4 l hl, fun l' hl' => hle _ (mem_map_of_mem hl')⟩

theorem tokenInput_length {nTokens inSize t : Nat}
    (hinputs : inputs.length = saturatingMul nTokens inSize) (hbatch : nTokens ≤ maxBatchTokens)
    (hcols : inSize ≤ maxColsForI32) (ht : t < nTokens) :
    (tokenInput inputs inSize t).length = inSize := by
  have hprod : nTokens * inSize ≤ maxBatchTokens * maxColsForI32 := Nat.mul_le_mul hbatch hcols
  have hroom : t * inSize + inSize ≤ nTokens * inSize := by
    rw [← Nat.succ_mul]
    exact Nat.mul_le_mul_right _ ht
  rw [saturatingMul] at hinputs
  rw [maxBatchTokens, maxColsForI32] at hprod
  rw [tokenInput, length_take, length_drop]
  omega

/-- The planes of every token, where all of them are in the digit domain. -/
def batchLimbs (inputs : List Int) (nTokens inSize : Nat) : List Limbs :=
  (List.range nTokens).map fun t => limbsOf (tokenInput inputs inSize t)

variable {nTokens inSize : Nat}

theorem batchLimbs_used
    (hdomain : ∀ t < nTokens, ∀ x ∈ tokenInput inputs inSize t, limbMin ≤ x ∧ x ≤ limbMax) :
    ∀ l ∈ batchLimbs inputs nTokens inSize, l.used ≤ 4 := by
  intro l hl
  obtain ⟨t, ht, rfl⟩ := mem_map.mp hl
  exact (limbsOf_splits (hdomain t (mem_range.mp ht))).used

/-- The split of a batch: all tokens' planes, or nothing. -/
theorem splitBatch_eq (har : ar.Faithful) (hin : inSize ≠ 0)
    (hlen : ∀ t < nTokens, (tokenInput inputs inSize t).length = inSize) :
    ∃ split, ((List.range nTokens).mapM fun t =>
        splitLimbs ar (tokenInput inputs inSize t) (limbCount * inSize)) = .ok split ∧
      split.mapM id = if ∀ t < nTokens, ∀ x ∈ tokenInput inputs inSize t,
        limbMin ≤ x ∧ x ≤ limbMax then some (batchLimbs inputs nTokens inSize) else none := by
  let domain (t : Nat) : Prop := ∀ x ∈ tokenInput inputs inSize t, limbMin ≤ x ∧ x ≤ limbMax
  refine ⟨(List.range nTokens).map fun t =>
    if domain t then some (limbsOf (tokenInput inputs inSize t)) else none, ?_, ?_⟩
  · apply mapM_eq_ok
    intro t ht
    have hlen' := hlen t (mem_range.mp ht)
    have hne : tokenInput inputs inSize t ≠ [] := by
      intro hnil
      rw [hnil] at hlen'
      exact hin hlen'.symm
    rw [splitLimbs_eq har, hlen']
    simp only [ne_eq, hne, not_false_eq_true, le_refl, true_and, domain]
  · by_cases hdomain : ∀ t < nTokens, domain t
    · rw [if_pos hdomain, batchLimbs, ← mapM_id_map_some, map_map]
      exact congrArg _ (map_congr_left fun t ht => if_pos (hdomain t (mem_range.mp ht)))
    · rw [if_neg hdomain]
      obtain ⟨t, ht, hbad⟩ : ∃ t < nTokens, ¬ domain t := by
        by_contra hno
        exact hdomain fun t ht => by_contra fun hbad => hno ⟨t, ht, hbad⟩
      exact mapM_id_of_none_mem (mem_map.mpr ⟨t, mem_range.mpr ht, if_neg hbad⟩)

/-- The job of an accepted batch. -/
def batchJob (weights : I8Weights) (inputs : List Int) (nTokens inSize : Nat) : BatchJob where
  data := weights.data
  scales := weights.scales
  nRows := weights.nRows
  nTokens := nTokens
  inSize := inSize
  used := (((batchLimbs inputs nTokens inSize).map (·.used)).max?).getD 1
  limbs := batchLimbs inputs nTokens inSize

theorem batchJob_valid (weights : I8Weights) (hcols : inSize ≤ maxColsForI32)
    (hlen : ∀ t < nTokens, (tokenInput inputs inSize t).length = inSize)
    (hdomain : ∀ t < nTokens, ∀ x ∈ tokenInput inputs inSize t, limbMin ≤ x ∧ x ≤ limbMax)
    (hbound : ∀ t < nTokens,
      postScaleBoundHolds (tokenInput inputs inSize t) weights.scales = true) :
    (batchJob weights inputs nTokens inSize).Valid weights inputs := by
  obtain ⟨hused4, hused⟩ := batchUsed_spec (batchLimbs_used hdomain)
  refine ⟨rfl, rfl, hcols, hused4, ?_, hlen, hdomain, hbound⟩
  intro t ht
  have hget : (batchJob weights inputs nTokens inSize).limbsOf t =
      limbsOf (tokenInput inputs inSize t) := getD_map_range _ ht
  rw [hget]
  exact ⟨rfl, hused _ (mem_map_of_mem (mem_range.mpr ht))⟩

theorem matmulI8BatchedWith_eq (kernel : BaseKernel) (available : Bool) (weights : I8Weights)
    (inputs : List Int) (nTokens inSize : Nat) (output : List Int) :
    OneResult (ε := ε) (matmulI8BatchedWith · kernel available weights inputs nTokens inSize output)
      ((List.range output.length).map (batchValue weights inputs inSize)) output := by
  refine .guard fun _ => .guard fun hshape => .guard fun hcols => .guard fun hscale => ?_
  simp only [not_or, not_not] at hshape
  obtain ⟨hin, -, hbatch, hinputs, -, -, -, -, houtput⟩ := hshape
  have hlen : ∀ t < nTokens, (tokenInput inputs inSize t).length = inSize := fun t =>
    tokenInput_length hinputs (Nat.le_of_not_lt hbatch) (Nat.le_of_not_lt hcols)
  by_cases hdomain : ∀ t < nTokens, ∀ x ∈ tokenInput inputs inSize t, limbMin ≤ x ∧ x ≤ limbMax
  · refine ⟨true, fun ar har => ?_⟩
    obtain ⟨split, hsplit, hall⟩ := splitBatch_eq har hin hlen
    rw [if_pos hdomain] at hall
    have hvalid := batchJob_valid weights (Nat.le_of_not_lt hcols) hlen hdomain
      fun t ht => all_eq_true.mp (Bool.eq_true_of_not_eq_false hscale) t (mem_range.mpr ht)
    dsimp only
    rw [hsplit, ok_bind, hall]
    show (runQuads ar kernel (batchJob weights inputs nTokens inSize) output >>= _) = _
    rw [hvalid.runQuads_eq har rfl kernel (by rw [houtput]; exact min_le_left _ _)]
    rfl
  · refine ⟨false, fun ar har => ?_⟩
    obtain ⟨split, hsplit, hnone⟩ := splitBatch_eq har hin hlen
    rw [if_neg hdomain] at hnone
    dsimp only
    rw [hsplit, ok_bind, hnone]
    rfl

end Entry

/-! ## Exactness -/

/-- One result is the one of the wrapping machine and of the one that stops. -/
theorem OneResult.exact {run : Arith Overflow → Except Overflow (Bool × List Int)}
    {values buffer : List Int} (h : OneResult run values buffer) :
    ∃ accepted out, run .machine = .ok (accepted, out) ∧
      run (.checked Overflow.overflow) = .ok (accepted, out) ∧
      (accepted = true → out = values) ∧ (accepted = false → out = buffer) := by
  obtain ⟨accepted, heq⟩ := h
  refine ⟨accepted, _, heq _ Arith.machine_faithful, heq _ (Arith.checked_faithful _), ?_, ?_⟩
  · rintro rfl
    rfl
  · rintro rfl
    rfl

/-- **The vectorised projection is bit-exact.**  On both base kernels, the wrapping machine
    and a machine that stops at the first overflow give the same result.  An accepted call
    has written the exact scalar values, a refused one has written nothing; `split_limbs`
    succeeds on the nonempty inputs of the digit domain, given room for the digits. -/
theorem vectorised_projection_bit_exact (kernel : BaseKernel) (available : Bool) :
    (∀ (weights : I8Weights) (input : List Int) (inSize : Nat) (output : List Int),
      ∃ accepted out,
        matmulI8CanonicalRowsFast (.machine : Arith Overflow) kernel available weights input
          inSize output = .ok (accepted, out) ∧
        matmulI8CanonicalRowsFast (.checked Overflow.overflow) kernel available weights input
          inSize output = .ok (accepted, out) ∧
        (accepted = true → out = (List.range weights.nRows).map fun i =>
          (rowProduct weights.data inSize i input * weights.scales.getD i 0) >>> fracBits) ∧
        (accepted = false → out = output)) ∧
    (∀ (data : List Int8) (nRows nCols : Nat) (input acc : List Int), ∃ accepted out,
        exactRowDotsFast (.machine : Arith Overflow) kernel available data nRows nCols input
          acc = .ok (accepted, out) ∧
        exactRowDotsFast (.checked Overflow.overflow) kernel available data nRows nCols input acc =
          .ok (accepted, out) ∧
        (accepted = true → out = (List.range nRows).map fun i => rowProduct data nCols i input) ∧
        (accepted = false → out = acc)) ∧
    (∀ (weights : I8Weights) (inputs : List Int) (nTokens inSize : Nat) (output : List Int),
      ∃ accepted out,
        matmulI8BatchedWith (.machine : Arith Overflow) kernel available weights inputs nTokens
          inSize output = .ok (accepted, out) ∧
        matmulI8BatchedWith (.checked Overflow.overflow) kernel available weights inputs nTokens
          inSize output = .ok (accepted, out) ∧
        (accepted = true → out = (List.range output.length).map fun k =>
          (rowProduct weights.data inSize (k % weights.nRows)
            (tokenInput inputs inSize (k / weights.nRows)) *
              weights.scales.getD (k % weights.nRows) 0) >>> fracBits) ∧
        (accepted = false → out = output)) ∧
    ∀ (input : List Int) (scratch : Nat),
      (∃ limbs, splitLimbs (.machine : Arith Overflow) input scratch = .ok (some limbs)) ↔
        input ≠ [] ∧ limbCount * input.length ≤ scratch ∧
          ∀ x ∈ input, limbMin ≤ x ∧ x ≤ limbMax := by
  refine ⟨fun weights input inSize output => ?_, fun data nRows nCols input acc => ?_,
    fun weights inputs nTokens inSize output => ?_, ?_⟩
  · exact (matmulI8CanonicalRowsFast_eq kernel available weights input inSize output).exact
  · exact (exactRowDotsFast_eq kernel available data nRows nCols input acc).exact
  · exact (matmulI8BatchedWith_eq kernel available weights inputs nTokens inSize output).exact
  · intro input scratch
    rw [splitLimbs_eq Arith.machine_faithful]
    split
    · rename_i hdomain
      exact ⟨fun _ => hdomain, fun _ => ⟨_, rfl⟩⟩
    rename_i hdomain
    refine ⟨?_, fun h => absurd h hdomain⟩
    rintro ⟨limbs, hlimbs⟩
    exact absurd (Except.ok.inj hlimbs) nofun

/-- An empty input has no element outside the domain, and is refused. -/
theorem splitLimbs_refuses_empty :
    splitLimbs (.machine : Arith Overflow) [] 64 = .ok none ∧
      ∀ x ∈ ([] : List Int), limbMin ≤ x ∧ x ≤ limbMax :=
  ⟨rfl, fun _ hx => absurd hx not_mem_nil⟩

end LimbKernel

end ArcChain
