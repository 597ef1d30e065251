/-
The dyadic-profile model (`arc-inference/src/modern/model.rs`): shape
checks, one token through the layers over an i32 KV cache, and generation.
Sizes are exact (`usize` products of a shape that fits in memory do not
wrap), scratch buffers are fresh for every layer because a projection
overwrites its buffer, and of several heads that refuse the first one
counts.  Timings are left out.
-/
import ArcChain.Inference.Dyadic

namespace ArcChain

open MachineInt

namespace Dyadic

/-! ## Configuration and tensors -/

structure ModernConfig where
  architecture : String
  nLayers : Nat
  dModel : Nat
  nHeads : Nat
  nKvHeads : Nat
  dHead : Nat
  dFf : Nat
  vocabSize : Nat
  maxSeq : Nat
  rmsEpsQ32 : Int64
  ropeTheta : UInt64
  ropeLayers : List Bool
  deriving DecidableEq

namespace ModernConfig

def dQ (c : ModernConfig) : Nat := c.nHeads * c.dHead

def dKv (c : ModernConfig) : Nat := c.nKvHeads * c.dHead

/-- The `Debug` text of a configuration. -/
def debug (c : ModernConfig) : String :=
  let layers := ", ".intercalate (c.ropeLayers.map toString)
  s!"ModernConfig \x7b architecture: {c.architecture.quote}, n_layers: {c.nLayers}, " ++
  s!"d_model: {c.dModel}, n_heads: {c.nHeads}, n_kv_heads: {c.nKvHeads}, d_head: {c.dHead}, " ++
  s!"d_ff: {c.dFf}, vocab_size: {c.vocabSize}, max_seq: {c.maxSeq}, " ++
  s!"rms_eps_q32: {c.rmsEpsQ32.toInt}, rope_theta: {c.ropeTheta.toNat}, " ++
  s!"rope_layers: [{layers}] \x7d"

def validate (c : ModernConfig) : Eval Unit :=
  let positive := [c.nLayers, c.dModel, c.nHeads, c.nKvHeads, c.dHead, c.dFf, c.vocabSize,
    c.maxSeq]
  if (∀ v ∈ positive, v > 0) ∧ c.nHeads % c.nKvHeads = 0 ∧ c.dHead % 2 = 0 ∧
      c.ropeLayers.length = c.nLayers ∧ c.rmsEpsQ32.toInt ≥ 1 ∧ c.vocabSize ≤ 2 ^ 32 - 1 ∧
      c.maxSeq ≤ 2 ^ 20 ∧ c.dModel ≤ 2 ^ 20 ∧ c.dFf ≤ 2 ^ 22 then .ok ()
  else invalid s!"unsupported model shape: {c.debug}"

end ModernConfig

/-- One transformer layer. -/
structure ModernLayer where
  attnNorm : List Int64
  wq : DyadicMatrix
  wk : DyadicMatrix
  wv : DyadicMatrix
  wo : DyadicMatrix
  ffnNorm : List Int64
  wGate : DyadicMatrix
  wUp : DyadicMatrix
  wDown : DyadicMatrix
  deriving DecidableEq

/-- A loaded model; `embed` is the token lookup and the LM head. -/
structure ModernModel where
  config : ModernConfig
  embed : DyadicMatrix
  finalNorm : List Int64
  ropeCos : List Int32
  ropeSin : List Int32
  layers : List ModernLayer
  deriving DecidableEq

/-- The `shape` closure of `ModernModel::validate`. -/
def checkShape (m : DyadicMatrix) (rows cols : Nat) (name : String) : Eval Unit :=
  if m.rows = rows ∧ m.cols = cols then m.validate name
  else invalid s!"{name}: shape {m.rows}x{m.cols} where {rows}x{cols} is required"

/-- The tensors of layer `l`. -/
def ModernLayer.validate (layer : ModernLayer) (c : ModernConfig) (l : Nat) : Eval Unit := do
  let name (tensor : String) : String := s!"layers.{l}.{tensor}"
  checkShape layer.wq c.dQ c.dModel (name "wq")
  checkShape layer.wk c.dKv c.dModel (name "wk")
  checkShape layer.wv c.dKv c.dModel (name "wv")
  checkShape layer.wo c.dModel c.dQ (name "wo")
  checkShape layer.wGate c.dFf c.dModel (name "w_gate")
  checkShape layer.wUp c.dFf c.dModel (name "w_up")
  checkShape layer.wDown c.dModel c.dFf (name "w_down")
  if layer.attnNorm.length ≠ c.dModel ∨ layer.ffnNorm.length ≠ c.dModel then
    invalid s!"layers.{l}: norm sizes"
  else .ok ()

namespace ModernModel

def validate (m : ModernModel) : Eval Unit := do
  let c := m.config
  c.validate
  checkShape m.embed c.vocabSize c.dModel "embed"
  let half := c.dHead / 2
  if m.finalNorm.length ≠ c.dModel ∨ m.ropeCos.length ≠ c.maxSeq * half ∨
      m.ropeSin.length ≠ c.maxSeq * half ∨ m.layers.length ≠ c.nLayers then
    invalid "model tensor sizes"
  else m.layers.zipIdx.forM fun entry => entry.1.validate c entry.2

end ModernModel

/-! ## The KV cache -/

/-- Post-RoPE keys and raw values per layer. -/
structure KvCache where
  keys : List (List Int32)
  values : List (List Int32)
  positions : Nat
  deriving DecidableEq

/-- `i32::try_from`. -/
def narrow (x : Int) : Eval Int32 :=
  if Fits 32 x then .ok (Int32.ofInt x) else domain "KV value outside i32 (|v| >= 2^31)"

def KvCache.push (cache : KvCache) (layer : Nat) (k v : List Int) : Eval KvCache := do
  let k32 ← k.mapM narrow
  let v32 ← v.mapM narrow
  pure { cache with
    keys := cache.keys.modify layer (· ++ k32)
    values := cache.values.modify layer (· ++ v32) }

theorem KvCache.push_positions {cache next : KvCache} {layer : Nat} {k v : List Int}
    (h : cache.push layer k v = .ok next) : next.positions = cache.positions := by
  obtain ⟨k32, -, h⟩ := ok_of_bind h
  obtain ⟨v32, -, h⟩ := ok_of_bind h
  obtain rfl := Except.ok.inj h
  rfl

/-! ## One token -/

/-- Chunk `h` of width `d`. -/
def chunk {α : Type} (x : List α) (d h : Nat) : List α := (x.drop (h * d)).take d

/-- RoPE on every head. -/
def ropeHeads (ar : Arith Stop) (dHead : Nat) (x : List Int) (cos sin : List Int32) :
    Eval (List Int) := do
  let heads ← (List.range (x.length / dHead)).mapM fun h =>
    ropeSplitHalf ar (chunk x dHead h) cos sin
  pure heads.flatten

/-- RoPE on the layers that have it. -/
def ropeLayer (ar : Arith Stop) (c : ModernConfig) (l : Nat) (cos sin : List Int32)
    (x : List Int) : Eval (List Int) :=
  if c.ropeLayers.getD l false then ropeHeads ar c.dHead x cos sin else pure x

/-- Attention of every query head over its KV group. -/
def attendHeads (ar : Arith Stop) (c : ModernConfig) (q : List Int) (keys values : List Int32)
    (positions : Nat) : Eval (List Int) := do
  let group := c.nHeads / c.nKvHeads
  let heads ← (List.range (q.length / c.dHead)).mapM fun head =>
    attentionHead ar (chunk q c.dHead head)
      { keys, values, positions, stride := c.dKv, offset := head / group * c.dHead }
      (attentionLambda c.dHead) c.dHead
  pure heads.flatten

/-- A fresh scratch buffer. -/
def buffer (n : Nat) : List Int := List.replicate n 0

def gains (g : List Int64) : List Int := g.map (·.toInt)

namespace ModernModel

/-- The attention half of a layer: what it adds to the hidden row, and the cache. -/
def attentionBlock (ar : Arith Stop) (choice : KernelChoice) (c : ModernConfig)
    (layer : ModernLayer) (l : Nat) (cos sin : List Int32) (hidden : List Int)
    (cache : KvCache) : Eval (List Int × KvCache) := do
  let normed ← rmsNorm ar hidden (gains layer.attnNorm) c.rmsEpsQ32.toInt
  let q ← project ar choice layer.wq normed (buffer c.dQ)
  let k ← project ar choice layer.wk normed (buffer c.dKv)
  let v ← project ar choice layer.wv normed (buffer c.dKv)
  let q ← ropeLayer ar c l cos sin q
  let k ← ropeLayer ar c l cos sin k
  let cache ← cache.push l k v
  let attended ← attendHeads ar c q (cache.keys.getD l []) (cache.values.getD l [])
    (cache.positions + 1)
  let projected ← project ar choice layer.wo attended (buffer c.dModel)
  pure (projected, cache)

/-- The feed-forward half of a layer: what it adds to the hidden row. -/
def feedForward (ar : Arith Stop) (choice : KernelChoice) (c : ModernConfig)
    (layer : ModernLayer) (hidden : List Int) : Eval (List Int) := do
  let normed ← rmsNorm ar hidden (gains layer.ffnNorm) c.rmsEpsQ32.toInt
  let gate ← project ar choice layer.wGate normed (buffer c.dFf)
  let up ← project ar choice layer.wUp normed (buffer c.dFf)
  let gate ← (gate.zip up).mapM fun entry => gatedSilu ar entry.1 entry.2
  project ar choice layer.wDown gate (buffer c.dModel)

/-- One layer of `forward`. -/
def layerStep (ar : Arith Stop) (choice : KernelChoice) (c : ModernConfig) (cos sin : List Int32)
    (state : List Int × KvCache) (entry : ModernLayer × Nat) : Eval (List Int × KvCache) := do
  let attention ← attentionBlock ar choice c entry.1 entry.2 cos sin state.1 state.2
  let hidden ← addResidual ar state.1 attention.1
  let projected ← feedForward ar choice c entry.1 hidden
  let hidden ← addResidual ar hidden projected
  pure (hidden, attention.2)

def newCache (m : ModernModel) : KvCache where
  keys := List.replicate m.config.nLayers []
  values := List.replicate m.config.nLayers []
  positions := 0

/-- The logits, and the cache with the new position. -/
def forward (ar : Arith Stop) (choice : KernelChoice) (m : ModernModel) (token : Nat)
    (cache : KvCache) : Eval (List Int × KvCache) :=
  let c := m.config
  let position := cache.positions
  if position ≥ c.maxSeq then
    domain s!"position {position} is outside the {c.maxSeq}-position context"
  else if cache.keys.length ≠ c.nLayers ∨ cache.values.length ≠ c.nLayers then
    invalid "KV cache belongs to another model"
  else do
    let hidden ← embedRow ar m.embed token
    let half := c.dHead / 2
    let cos := chunk m.ropeCos half position
    let sin := chunk m.ropeSin half position
    let state ← m.layers.zipIdx.foldlM (layerStep ar choice c cos sin) (hidden, cache)
    let normed ← rmsNorm ar state.1 (gains m.finalNorm) c.rmsEpsQ32.toInt
    let logits ← project ar choice m.embed normed (buffer c.vocabSize)
    pure (logits, { state.2 with positions := position + 1 })

/-- Forward calls from a fresh cache, up to the first refusal: the logits of each. -/
def forwardAll (ar : Arith Stop) (choice : KernelChoice) (m : ModernModel) :
    List Nat → KvCache → Eval (List (List Int))
  | [], _ => .ok []
  | token :: rest, cache => do
    let step ← m.forward ar choice token cache
    let logits ← m.forwardAll ar choice rest step.2
    pure (step.1 :: logits)

/-! ## Generation -/

end ModernModel

/-- A generation request in token ids. -/
structure GenerationRequest where
  prompt : List Nat
  maxTokens : Nat
  eos : List Nat
  selection : Selection

/-- Tokens and digests of one generation. -/
structure GenerationOutput where
  tokens : List Nat
  outputHash : Hash256
  logitsHashes : List Hash256
  logitsDigest : Hash256
  decodeForwards : Nat
  deriving DecidableEq

namespace ModernModel

variable [Crypto]

/-- What the generation loop carries. -/
structure GenState where
  logits : List Int
  cache : KvCache
  hashes : List Hash256

/-- One forward call of `generate`. -/
def advance (ar : Arith Stop) (choice : KernelChoice) (m : ModernModel) (s : GenState)
    (token : Nat) : Eval GenState := do
  let step ← m.forward ar choice token s.cache
  pure ⟨step.1, step.2, s.hashes ++ [logitsHash step.1]⟩

/-- The decode loop; `fuel` is the number of tokens it may still select. -/
def decode (ar : Arith Stop) (choice : KernelChoice) (m : ModernModel)
    (request : GenerationRequest) : Nat → GenState → List Nat → Eval (List Nat × List Hash256)
  | 0, s, tokens => .ok (tokens, s.hashes)
  | fuel + 1, s, tokens => do
    let next ← select ar s.logits tokens request.selection
    let tokens := tokens ++ [next]
    if next ∈ request.eos ∨ tokens.length = request.maxTokens then .ok (tokens, s.hashes)
    else
      let s ← m.advance ar choice s next
      m.decode ar choice request fuel s tokens

def generate (ar : Arith Stop) (choice : KernelChoice) (m : ModernModel)
    (request : GenerationRequest) : Eval GenerationOutput :=
  let c := m.config
  if request.prompt = [] ∨ request.maxTokens = 0 then
    invalid "generation needs a non-empty prompt and max_tokens >= 1"
  else if request.prompt.length + request.maxTokens > c.maxSeq then
    domain s!"{request.prompt.length} prompt tokens + {request.maxTokens} generated tokens exceed the {c.maxSeq}-position context"
  else
    match request.prompt.find? fun t => decide (t ≥ c.vocabSize) with
    | some bad => domain s!"prompt token {bad} is outside the vocabulary"
    | none => do
      let s ← request.prompt.foldlM (m.advance ar choice) ⟨[], m.newCache, []⟩
      let out ← m.decode ar choice request request.maxTokens s []
      pure
        { tokens := out.1, outputHash := tokensHash out.1, logitsHashes := out.2
          logitsDigest := logitsDigest out.2, decodeForwards := out.1.length - 1 }

end ModernModel

end Dyadic

end ArcChain
