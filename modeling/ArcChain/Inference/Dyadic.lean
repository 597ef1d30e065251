/-
The operators of the dyadic integer profile
(`arc-inference/src/modern/arith.rs` and `tables.rs`): projection, RMS norm,
split-half RoPE, two-pass attention, gated SiLU, residual and token
selection.  Activations are integers; every `i64` and `i128` operation that
the source leaves unchecked narrows through an `Arith`, and every check of
the source is a refusal with its text.

`u128` sums of magnitudes are exact: a vector has fewer than `2 ^ 60`
elements.  Loops over rows, heads and positions are in index order, as the
thread split writes disjoint slots.
-/
import ArcChain.Inference.LimbKernel
import ArcChain.Crypto.Hash

namespace ArcChain

open MachineInt Word

namespace Dyadic

/-! ## Errors -/

/-- `ModernError`; reading and writing files is not modelled. -/
inductive ModernError where
  | domain (what : String)
  | invalid (what : String)
  deriving DecidableEq, Repr

/-- Why an evaluation stops: the source refuses, or a checked arithmetic overflows. -/
inductive Stop where
  | refused (err : ModernError)
  | overflow
  deriving DecidableEq, Repr

abbrev Eval := Except Stop

def domain {α : Type} (what : String) : Eval α := .error (.refused (.domain what))

def invalid {α : Type} (what : String) : Eval α := .error (.refused (.invalid what))

/-! ## Tables -/

def one : Int := 2 ^ 16

def expSteps : Nat := 4096

/-- The Taylor series of `e ^ (-1/256)` in Q62: the term and the partial sum before the
    `n`-th term, `n` from 1. -/
def decaySeries : Nat → Int × Int
  | 0 => (2 ^ 62, 2 ^ 62)
  | n + 1 =>
    let previous := decaySeries n
    let term := previous.1 / (256 * (n + 1))
    (term, if (n + 1) % 2 = 1 then previous.2 - term else previous.2 + term)

def decay : Int := (decaySeries 19).2

/-- `power` after `m` steps of the table loop. -/
def expPower : Nat → Int
  | 0 => 2 ^ 62
  | m + 1 => (expPower m * decay + 2 ^ 61) >>> (62 : Nat)

/-- `EXP_TABLE[i]`. -/
def expTable (i : Nat) : Int := (expPower (expSteps - i) + 2 ^ 45) >>> (46 : Nat)

/-- Newton's iteration of `isqrt_u128`. -/
def newton (n x : Nat) : Nat :=
  if (x + n / x) >>> (1 : Nat) < x then newton n ((x + n / x) >>> (1 : Nat)) else x
  termination_by x

def isqrtU128 (n : Nat) : Nat :=
  if n < 2 then n else newton n (1 <<< ((n.log2 + 1 + 1) / 2))

def attentionLambda (dHead : Nat) : Int := isqrtU128 (2 ^ 60 / max dHead 1)

/-! ## Scalar operators -/

def activationLimit : Int := 2 ^ 62

def toActivation (value : Int) (what : String) : Eval Int :=
  if |value| > activationLimit then domain what else .ok value

/-- A checked `i128` operation with its refusal. -/
def checked128 (value : Int) (what : String) : Eval Int :=
  if Fits 128 value then .ok value else domain what

def expQ16 (ar : Arith Stop) (x : Int) : Eval Int :=
  if x ≥ 0 then .ok one
  else if x ≤ -(16 * one) then .ok 0
  else do
    let offset ← ar.i64 (x + 16 * one)
    let index := (offset >>> (8 : Nat)).toNat
    let fraction := offset % 256
    if index ≥ expSteps then .ok (expTable expSteps)
    else
      let low := expTable index
      let high := expTable (index + 1)
      let rise ← ar.i64 ((← ar.i64 (high - low)) * fraction)
      ar.i64 (low + rise >>> (8 : Nat))

def sigmoidQ16 (ar : Arith Stop) (g : Int) : Eval Int :=
  if g ≥ 0 then do
    let e ← expQ16 ar (← ar.i64 (-g))
    pure ((2 ^ 32 : Int).tdiv (← ar.i64 (one + e)))
  else do
    let e ← expQ16 ar g
    pure ((← ar.i64 (e * 2 ^ 16)).tdiv (← ar.i64 (one + e)))

def gatedSilu (ar : Arith Stop) (g u : Int) : Eval Int := do
  let sigma ← sigmoidQ16 ar g
  let product ← checked128 (g * sigma) "gated SiLU product beyond 2^127"
  let product ← checked128 (product * u) "gated SiLU product beyond 2^127"
  toActivation (product >>> (32 : Nat)) "gated SiLU output beyond 2^62"

/-! ## Projection -/

/-- Per-row INT8 weights with dyadic scales `mu * 2^-k`. -/
structure DyadicMatrix where
  rows : Nat
  cols : Nat
  q : List Int8
  mu : List Int32
  k : List UInt8
  deriving DecidableEq

namespace DyadicMatrix

/-- `row(r)`. -/
def row (m : DyadicMatrix) (r : Nat) : List Int8 := (m.q.drop (r * m.cols)).take m.cols

/-- The range check of one row's scale. -/
def checkRow (m : DyadicMatrix) (name : String) (r : Nat) (mu : Int32) (k : UInt8) : Eval Unit :=
  let zeroScale := mu = 0 ∧ k = 16
  let normalScale := mu.toInt ≥ 2 ^ 30 ∧ 16 ≤ k ∧ k ≤ 62
  if ¬ (zeroScale ∨ normalScale) then
    invalid s!"{name}: row {r} has an invalid dyadic scale ({mu.toInt}, {k.toNat})"
  else if mu = 0 ∧ (m.row r).any (· ≠ 0) then
    invalid s!"{name}: row {r} has a zero scale but nonzero weights"
  else .ok ()

def validate (m : DyadicMatrix) (name : String) : Eval Unit :=
  if m.rows = 0 ∨ m.cols = 0 ∨ m.rows * m.cols ≠ m.q.length ∨ m.mu.length ≠ m.rows ∨
      m.k.length ≠ m.rows then
    invalid s!"{name}: inconsistent dyadic matrix shape {m.rows}x{m.cols} (q {m.q.length}, mu {m.mu.length}, k {m.k.length})"
  else if m.q.contains (-128) then invalid s!"{name}: weight -128 is not a profile value"
  else (m.mu.zip m.k).zipIdx.forM fun entry => m.checkRow name entry.2 entry.1.1 entry.1.2

end DyadicMatrix

/-- Four lanes, then the columns left over. -/
def dotI8I64 (ar : Arith Stop) (w x : Nat → Int) (n : Nat) : Eval Int := do
  let lanes ← (List.range (n / 4)).foldlM (fun lanes c =>
    (List.range 4).mapM fun k => do
      ar.i64 (lanes.getD k 0 + (← ar.i64 (w (4 * c + k) * x (4 * c + k)))))
    (List.replicate 4 0)
  let total ← lanes.foldlM (fun total lane => ar.i64 (total + lane)) 0
  (List.range (n - 4 * (n / 4))).foldlM (fun total j => do
    ar.i64 (total + (← ar.i64 (w (4 * (n / 4) + j) * x (4 * (n / 4) + j))))) total

/-- The sum of magnitudes of a vector. -/
def mass (x : List Int) : Int := (x.map fun v => |v|).sum

def checkProjectionInput (x : List Int) : Eval Unit :=
  if mass x * 127 ≥ 2 ^ 63 then domain "projection input magnitude (127 * sum |x| >= 2^63)"
  else .ok ()

def dyadicEpilogue (ar : Arith Stop) (acc : Int) (mu : Int32) (k : UInt8) : Eval Int := do
  let product ← ar.i128 (acc * mu.toInt)
  toActivation (product >>> k.toNat) "projection output beyond 2^62"

/-- Whether the limb kernel is enabled, which one, and whether the CPU has it. -/
structure KernelChoice where
  enabled : Bool
  kernel : LimbKernel.BaseKernel
  available : Bool

/-- What the limb kernel makes of the rows, if it is enabled. -/
def limbDots (ar : Arith Stop) (choice : KernelChoice) (m : DyadicMatrix) (x out : List Int) :
    Eval (Bool × List Int) :=
  if choice.enabled then
    LimbKernel.exactRowDotsFast ar choice.kernel choice.available m.q m.rows m.cols x out
  else pure (false, out)

/-- The row accumulators of `project`; the scalar loop runs where the limb kernel refuses. -/
def rowDots (ar : Arith Stop) (choice : KernelChoice) (m : DyadicMatrix) (x out : List Int) :
    Eval (List Int) := do
  let simd ← limbDots ar choice m x out
  if simd.1 then pure simd.2
  else (List.range m.rows).mapM fun r =>
    dotI8I64 ar (LimbKernel.bytesAt m.q (r * m.cols)) (fun j => x.getD j 0) m.cols

/-- `project` into a buffer. -/
def project (ar : Arith Stop) (choice : KernelChoice) (m : DyadicMatrix) (x out : List Int) :
    Eval (List Int) :=
  if x.length ≠ m.cols ∨ out.length ≠ m.rows then
    invalid s!"projection shape: matrix {m.rows}x{m.cols}, input {x.length}, output {out.length}"
  else do
    checkProjectionInput x
    let acc ← rowDots ar choice m x out
    (List.range m.rows).mapM fun i =>
      dyadicEpilogue ar (acc.getD i 0) (m.mu.getD i 0) (m.k.getD i 0)

def embedRow (ar : Arith Stop) (m : DyadicMatrix) (token : Nat) : Eval (List Int) :=
  if token ≥ m.rows then domain "token id is outside the vocabulary"
  else
    let mu := (m.mu.getD token 0).toInt
    let shift := (m.k.getD token 0).toNat - 16
    (m.row token).mapM fun w => do pure ((← ar.i64 (w.toInt * mu)) >>> shift)

/-! ## Vector operators -/

def rmsNorm (ar : Arith Stop) (x gain : List Int) (epsQ32 : Int) : Eval (List Int) :=
  if x = [] ∨ gain.length ≠ x.length ∨ epsQ32 < 1 then
    invalid s!"rms_norm shape: input {x.length}, gain {gain.length}, eps_q32 {epsQ32}"
  else do
    let squares ← x.foldlM (fun squares v => do
      checked128 (squares + (← ar.i128 (v * v))) "rms_norm sum of squares beyond 2^127") 0
    let mean ← ar.i128 (squares.tdiv x.length + epsQ32)
    if mean > 2 ^ 92 then domain "rms_norm mean square beyond 2^92"
    else
      let inverseRms : Int := isqrtU128 (2 ^ 92 / mean.toNat)
      (x.zip gain).mapM fun entry => do
        let product ← checked128 (entry.1 * inverseRms) "rms_norm product beyond 2^127"
        let product ← checked128 (product * entry.2) "rms_norm product beyond 2^127"
        toActivation (product >>> (46 : Nat)) "rms_norm output beyond 2^62"

/-- One pair of `rope_split_half`. -/
def rotate (ar : Arith Stop) (a b c s : Int) : Eval (Int × Int) := do
  let rotatedA ← ar.i128 ((← ar.i128 (a * c)) - (← ar.i128 (b * s)))
  let rotatedB ← ar.i128 ((← ar.i128 (a * s)) + (← ar.i128 (b * c)))
  let newA ← toActivation (rotatedA >>> (16 : Nat)) "rope output beyond 2^62"
  let newB ← toActivation (rotatedB >>> (16 : Nat)) "rope output beyond 2^62"
  pure (newA, newB)

def ropeSplitHalf (ar : Arith Stop) (head : List Int) (cos sin : List Int32) : Eval (List Int) :=
  let half := head.length / 2
  if head.length ≠ 2 * half ∨ cos.length ≠ half ∨ sin.length ≠ half then
    invalid s!"rope shape: head {head.length}, cos {cos.length}, sin {sin.length}"
  else do
    let pairs ← (List.range half).mapM fun i =>
      rotate ar (head.getD i 0) (head.getD (half + i) 0) (cos.getD i 0).toInt (sin.getD i 0).toInt
    pure (pairs.map (·.1) ++ pairs.map (·.2))

/-- The cached keys and values one query head reads. -/
structure HeadCache where
  keys : List Int32
  values : List Int32
  positions : Nat
  stride : Nat
  offset : Nat

/-- `values[position * stride + offset + t]`, likewise for keys. -/
def HeadCache.entry (cache : HeadCache) (entries : List Int32) (position t : Nat) : Int :=
  (entries.getD (position * cache.stride + cache.offset + t) 0).toInt

/-- Query times key, every product and partial sum narrowed. -/
def scoreSum (narrow : Int → Eval Int) (q : List Int) (key : Nat → Int) : Eval Int :=
  (List.range q.length).foldlM (fun sum t => do narrow (sum + (← narrow (q.getD t 0 * key t)))) 0

/-- Query times key: in i64 when the query's mass allows it, in i128 otherwise. -/
def scoreDot (ar : Arith Stop) (q : List Int) (key : Nat → Int) : Eval Int :=
  if mass q < 2 ^ 32 then scoreSum ar.i64 q key else scoreSum ar.i128 q key

/-- One score. -/
def scoreAt (ar : Arith Stop) (q : List Int) (cache : HeadCache) (lambda : Int)
    (position : Nat) : Eval Int := do
  let dot ← scoreDot ar q (cache.entry cache.keys position)
  let scaled ← checked128 (dot * lambda) "attention score product beyond 2^127"
  toActivation (scaled >>> (46 : Nat)) "attention score beyond 2^62"

/-- `scores.iter().copied().max().unwrap_or(0)`. -/
def maxScore (scores : List Int) : Int := scores.max?.getD 0

/-- The second pass of attention: the weights' total and the weighted values so far. -/
def accumulate (ar : Arith Stop) (cache : HeadCache) (width : Nat) (best : Int)
    (state : Int × List Int) (position : Nat) (score : Int) : Eval (Int × List Int) := do
  let weight ← expQ16 ar (← ar.i64 (score - best))
  if weight = 0 then pure state
  else
    let total ← ar.i64 (state.1 + weight)
    let weighted ← (List.range width).mapM fun t => do
      ar.i64 (state.2.getD t 0 + (← ar.i64 (weight * cache.entry cache.values position t)))
    pure (total, weighted)

/-- `attention_head` into a buffer of `outLen` values. -/
def attentionHead (ar : Arith Stop) (q : List Int) (cache : HeadCache) (lambda : Int)
    (outLen : Nat) : Eval (List Int) :=
  let width := q.length
  let last := (cache.positions - 1) * cache.stride + cache.offset + width
  if cache.positions = 0 ∨ outLen ≠ width ∨ last > cache.keys.length ∨
      last > cache.values.length then
    invalid "attention cache shape"
  else do
    let scores ← (List.range cache.positions).mapM (scoreAt ar q cache lambda)
    let best := maxScore scores
    let sums ← (List.range cache.positions).foldlM (fun state position =>
      accumulate ar cache width best state position (scores.getD position 0))
      (0, List.replicate width 0)
    pure (sums.2.map fun acc => acc.tdiv sums.1)

def addResidual (ar : Arith Stop) (h delta : List Int) : Eval (List Int) :=
  if h.length ≠ delta.length then invalid "residual shape"
  else (h.zip delta).mapM fun entry => do
    toActivation (← ar.i128 (entry.1 + entry.2)) "residual beyond 2^62"

/-! ## Selection and digests -/

inductive Selection where
  | argmax
  | rp64Argmax
  deriving DecidableEq, Repr

/-- The first index holding the maximum. -/
def argmax (values : List Int) : Nat :=
  values.zipIdx.foldl (fun best entry =>
    if entry.1 > values.getD best 0 then entry.2 else best) 0

/-- The penalised value of a token. -/
def penalty (ar : Arith Stop) (value : Int) : Eval Int :=
  if value > 0 then do pure ((← ar.i128 (value * 5)).tdiv 6)
  else do pure ((← ar.i128 (value * 6)).tdiv 5)

/-- One step of the repetition penalty. -/
def penalise (ar : Arith Stop) (logits : List Int) (token : Nat) : Eval (List Int) :=
  match logits[token]? with
  | none => .ok logits
  | some value => do
    let next ← penalty ar value
    let value ← toActivation next "repetition penalty beyond 2^62"
    pure (logits.set token value)

/-- The logits the maximum is taken over. -/
def penalised (ar : Arith Stop) (logits : List Int) (generated : List Nat) :
    Selection → Eval (List Int)
  | .argmax => pure logits
  | .rp64Argmax => (generated.reverse.take 64).foldlM (penalise ar) logits

def select (ar : Arith Stop) (logits : List Int) (generated : List Nat)
    (selection : Selection) : Eval Nat :=
  if logits = [] then invalid "empty logits"
  else do
    let values ← penalised ar logits generated selection
    let index := argmax values
    if index < 2 ^ 32 then .ok index else invalid "vocabulary beyond u32"

section Digests

variable [Crypto]

/-- `i64::to_le_bytes`. -/
def i64LeBytes (v : Int) : List UInt8 := leBytes 8 (v % 2 ^ 64).toNat

def logitsHash (logits : List Int) : Hash256 := hashBytes (logits.flatMap i64LeBytes)

def logitsDigest (hashes : List Hash256) : Hash256 := hashBytes (hashes.flatMap (·.toBytes))

def tokensHash (tokens : List Nat) : Hash256 := hashBytes (tokens.flatMap (leBytes 4))

end Digests

end Dyadic

end ArcChain
