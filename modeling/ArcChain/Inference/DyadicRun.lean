/-
Whole forward calls and generations of the dyadic profile.  A model that
passes `validate` has no weight `-128`; the hidden row stays `Small` from
layer to layer, so every operator meets the magnitudes its lemma relies on.
`forward_agrees` is one call over any cache that is short enough,
`forwardAll_agrees` and `generate_agrees` the runs of a model whose context is.
-/
import ArcChain.Inference.DyadicExact

namespace ArcChain

open MachineInt List Arith

namespace Dyadic

variable {ar : Arith Stop} {choice : KernelChoice}

/-! ## What `validate` gives -/

/-- The weights of a layer that the profile allows. -/
structure ModernLayer.NoMin (layer : ModernLayer) : Prop where
  wq : layer.wq.NoMin
  wk : layer.wk.NoMin
  wv : layer.wv.NoMin
  wo : layer.wo.NoMin
  wGate : layer.wGate.NoMin
  wUp : layer.wUp.NoMin
  wDown : layer.wDown.NoMin

/-- The weights of a model that the profile allows. -/
structure ModernModel.NoMin (m : ModernModel) : Prop where
  embed : m.embed.NoMin
  layers : ∀ layer ∈ m.layers, layer.NoMin

variable {m : DyadicMatrix} {name : String}

theorem DyadicMatrix.validate_noMin (h : m.validate name = .ok ()) : m.NoMin := by
  rw [DyadicMatrix.validate] at h
  split at h
  · cases h
  split at h
  · cases h
  rename_i hmin
  rw [contains_iff_mem] at hmin
  rintro w hw rfl
  exact hmin hw

theorem checkShape_noMin {rows cols : Nat}
    (h : checkShape m rows cols name = .ok ()) : m.NoMin := by
  rw [checkShape] at h
  split at h
  · exact DyadicMatrix.validate_noMin h
  · cases h

theorem ModernLayer.validate_noMin {layer : ModernLayer} {c : ModernConfig} {l : Nat}
    (h : layer.validate c l = .ok ()) : layer.NoMin := by
  obtain ⟨_, hwq, h⟩ := ok_of_bind h
  obtain ⟨_, hwk, h⟩ := ok_of_bind h
  obtain ⟨_, hwv, h⟩ := ok_of_bind h
  obtain ⟨_, hwo, h⟩ := ok_of_bind h
  obtain ⟨_, hgate, h⟩ := ok_of_bind h
  obtain ⟨_, hup, h⟩ := ok_of_bind h
  obtain ⟨_, hdown, -⟩ := ok_of_bind h
  exact ⟨checkShape_noMin hwq, checkShape_noMin hwk, checkShape_noMin hwv, checkShape_noMin hwo,
    checkShape_noMin hgate, checkShape_noMin hup, checkShape_noMin hdown⟩

theorem ModernModel.validate_noMin {m : ModernModel} (h : m.validate = .ok ()) : m.NoMin := by
  obtain ⟨_, -, h⟩ := ok_of_bind h
  obtain ⟨_, hembed, h⟩ := ok_of_bind h
  refine ⟨checkShape_noMin hembed, fun layer hlayer => ?_⟩
  dsimp only at h
  split at h
  · cases h
  obtain ⟨l, hl, rfl⟩ := getElem_of_mem hlayer
  have hentry : (m.layers[l], l) ∈ m.layers.zipIdx :=
    mk_mem_zipIdx_iff_getElem?.mpr (List.getElem?_eq_getElem hl)
  exact ModernLayer.validate_noMin (forM_eq_ok.mp h _ hentry)

/-! ## One layer -/

namespace ModernModel

variable {c : ModernConfig} {layer : ModernLayer} {l : Nat} {cos sin : List Int32}

theorem eps_lt (c : ModernConfig) : c.rmsEpsQ32.toInt < 2 ^ 63 := c.rmsEpsQ32.toInt_lt

theorem attendHeads_agrees (har : ar.Faithful) {q : List Int} (hq : Small q)
    (hwidth : c.dHead < 2 ^ 34) {positions : Nat} (hpositions : positions ≤ 2 ^ 16)
    (keys values : List Int32) :
    Agrees .overflow (fun _ => True) (attendHeads ar c q keys values positions)
      (attendHeads .exact c q keys values positions) := by
  refine .bind (.mapM fun head _ => attentionHead_agrees har (hq.chunk _ _) ?_ hpositions _ _)
    fun _ _ _ => .ok trivial
  exact lt_of_le_of_lt (length_take_le _ _) hwidth

variable {cache : KvCache} {hidden : List Int}

theorem narrow_agrees (x : Int) : Agrees .overflow (fun _ => True) (narrow x) (narrow x) := by
  rw [narrow]
  split
  · exact .ok trivial
  · exact .error nofun

theorem push_agrees (k v : List Int) :
    Agrees .overflow (fun _ => True) (cache.push l k v) (cache.push l k v) := by
  refine .bind (.mapM fun x _ => narrow_agrees x) fun k32 _ _ => ?_
  exact .bind (.mapM fun x _ => narrow_agrees x) fun v32 _ _ => .ok trivial

theorem attentionBlock_agrees (har : ar.Faithful) (hlayer : layer.NoMin)
    (hwidth : c.dHead < 2 ^ 34) (hhidden : Small hidden)
    (hpositions : cache.positions < 2 ^ 16) :
    Agrees .overflow (fun r => Small r.1 ∧ r.2.positions = cache.positions)
      (attentionBlock ar choice c layer l cos sin hidden cache)
      (attentionBlock .exact choice c layer l cos sin hidden cache) := by
  refine .bind (rmsNorm_agrees har hhidden (eps_lt c)) fun normed _ _ => ?_
  refine .bind (project_agrees har hlayer.wq choice _ _) fun q _ hq => ?_
  refine .bind (project_agrees har hlayer.wk choice _ _) fun k _ hk => ?_
  refine .bind (project_agrees har hlayer.wv choice _ _) fun v _ _ => ?_
  refine .bind (ropeLayer_agrees har hq c l cos sin) fun q' _ hq' => ?_
  refine .bind (ropeLayer_agrees har hk c l cos sin) fun k' _ _ => ?_
  refine .bind (push_agrees k' v) fun cache' hcache' _ => ?_
  have hsame := KvCache.push_positions hcache'
  refine .bind (attendHeads_agrees har hq' hwidth (by omega) _ _) fun attended _ _ => ?_
  exact .bind (project_agrees har hlayer.wo choice _ _) fun _ _ hprojected =>
    .ok ⟨hprojected, hsame⟩

theorem feedForward_agrees (har : ar.Faithful) (hlayer : layer.NoMin) (hhidden : Small hidden) :
    Agrees .overflow Small (feedForward ar choice c layer hidden)
      (feedForward .exact choice c layer hidden) := by
  refine .bind (rmsNorm_agrees har hhidden (eps_lt c)) fun normed _ _ => ?_
  refine .bind (project_agrees har hlayer.wGate choice _ _) fun gate _ hgate => ?_
  refine .bind (project_agrees har hlayer.wUp choice _ _) fun up _ _ => ?_
  refine .bind (.mapM fun entry hmem => gatedSilu_agrees har ?_ entry.2)
    fun gated _ _ => project_agrees har hlayer.wDown choice _ _
  exact hgate entry.1 (of_mem_zip hmem).1

/-- What is kept from layer to layer. -/
structure Carried (position : Nat) (state : List Int × KvCache) : Prop where
  small : Small state.1
  positions : state.2.positions = position

/-- **Step lemma.**  A layer is exact and hands on a small row over the same positions. -/
theorem layerStep_agrees (har : ar.Faithful) (hwidth : c.dHead < 2 ^ 34) {position : Nat}
    (hposition : position < 2 ^ 16) {state : List Int × KvCache}
    (hstate : Carried position state) {entry : ModernLayer × Nat} (hlayer : entry.1.NoMin) :
    Agrees .overflow (Carried position) (layerStep ar choice c cos sin state entry)
      (layerStep .exact choice c cos sin state entry) := by
  obtain ⟨hsmall, rfl⟩ := hstate
  refine .bind (attentionBlock_agrees har hlayer hwidth hsmall hposition)
    fun attention _ hattention => ?_
  refine .bind (addResidual_agrees har hsmall hattention.1) fun hidden _ hhidden => ?_
  refine .bind (feedForward_agrees har hlayer hhidden) fun projected _ hprojected => ?_
  exact .bind (addResidual_agrees har hhidden hprojected) fun _ _ hnext =>
    .ok ⟨hnext, hattention.2⟩

/-! ## One forward call -/

variable {m : ModernModel}

/-- **Forward.**  A call over fewer than `2 ^ 16` cached positions is exact. -/
theorem forward_agrees (har : ar.Faithful) (hm : m.NoMin) (hwidth : m.config.dHead < 2 ^ 34)
    (token : Nat) (hpositions : cache.positions < 2 ^ 16) :
    Agrees .overflow (fun r => Small r.1) (m.forward ar choice token cache)
      (m.forward .exact choice token cache) := by
  rw [forward, forward]
  split
  · exact .error nofun
  split
  · exact .error nofun
  refine .bind (embedRow_agrees har m.embed token) fun hidden _ hhidden => ?_
  refine .bind (.foldlM (I := fun _ => Carried cache.positions) ⟨hhidden, rfl⟩ ?_)
    fun state _ hstate => ?_
  · intro _ entry hentry state hstate
    exact layerStep_agrees har hwidth hpositions hstate
      (hm.layers _ (fst_mem_of_mem_zipIdx (mem_of_getElem? hentry)))
  refine .bind (rmsNorm_agrees har hstate.small (eps_lt _)) fun normed _ _ => ?_
  exact .bind (project_agrees har hm.embed choice _ _) fun _ _ hlogits => .ok hlogits

/-- The models inside the two bounds that `validate` does not check. -/
structure Bounded (m : ModernModel) : Prop where
  noMin : m.NoMin
  context : m.config.maxSeq ≤ 2 ^ 16
  width : m.config.dHead < 2 ^ 34

/-- Every call of a bounded model is exact, over any cache. -/
theorem Bounded.forward_agrees (har : ar.Faithful) (hm : m.Bounded) (token : Nat)
    (cache : KvCache) : Agrees .overflow (fun r => Small r.1) (m.forward ar choice token cache)
      (m.forward .exact choice token cache) := by
  by_cases hfull : cache.positions ≥ m.config.maxSeq
  · rw [forward, forward, if_pos hfull, if_pos hfull]
    exact .error nofun
  · have hcontext := hm.context
    exact ModernModel.forward_agrees har hm.noMin hm.width token (by omega)

theorem Bounded.forwardAll_agrees (har : ar.Faithful) (hm : m.Bounded) (tokens : List Nat)
    (cache : KvCache) : Agrees .overflow (fun _ => True) (m.forwardAll ar choice tokens cache)
      (m.forwardAll .exact choice tokens cache) := by
  induction tokens generalizing cache with
  | nil => exact .ok trivial
  | cons token rest ih =>
    refine .bind (hm.forward_agrees har token cache) fun step _ _ => ?_
    exact .bind (ih step.2) fun _ _ _ => .ok trivial

end ModernModel

/-! ## Selection -/

theorem penalty_agrees (har : ar.Faithful) {value : Int} (hvalue : |value| ≤ activationLimit) :
    Agrees .overflow (fun _ => True) (penalty ar value) (penalty .exact value) := by
  obtain ⟨hlow, hhigh⟩ := abs_le.mp hvalue
  rw [activationLimit] at hlow hhigh
  rw [penalty, penalty]
  split
  · rw [har.i128 (v := value * 5) ⟨by omega, by omega⟩]
    exact .ok trivial
  · rw [har.i128 (v := value * 6) ⟨by omega, by omega⟩]
    exact .ok trivial

theorem penalise_agrees (har : ar.Faithful) {logits : List Int} (hlogits : Small logits)
    (token : Nat) :
    Agrees .overflow Small (penalise ar logits token) (penalise .exact logits token) := by
  rw [penalise, penalise]
  cases hvalue : logits[token]? with
  | none => exact .ok hlogits
  | some value =>
    refine .bind (penalty_agrees har (hlogits _ (mem_of_getElem? hvalue))) fun next _ _ => ?_
    refine .bind (toActivation_agrees _ _) fun stored _ hstored => .ok fun v hv => ?_
    rcases mem_or_eq_of_mem_set hv with hv | rfl
    · exact hlogits v hv
    · exact hstored

theorem select_agrees (har : ar.Faithful) {logits : List Int} (hlogits : Small logits)
    (generated : List Nat) (selection : Selection) :
    Agrees .overflow (fun _ => True) (select ar logits generated selection)
      (select .exact logits generated selection) := by
  rw [select, select]
  split
  · exact .error nofun
  refine .bind (P := Small) ?_ fun values _ _ => ?_
  · cases selection with
    | argmax => exact .ok hlogits
    | rp64Argmax =>
      exact .foldlM (I := fun _ => Small) hlogits fun _ token _ s hs => penalise_agrees har hs token
  · dsimp only
    split
    · exact .ok trivial
    · exact .error nofun

/-! ## Generation -/

namespace ModernModel

section Generation

variable [Crypto] {m : ModernModel}

/-- One forward call of a generation, and the logits it leaves. -/
theorem Bounded.advance_agrees (har : ar.Faithful) (hm : m.Bounded) (s : GenState)
    (token : Nat) : Agrees .overflow (fun next => Small next.logits)
      (m.advance ar choice s token) (m.advance .exact choice s token) :=
  .bind (hm.forward_agrees har token s.cache) fun _ _ hsmall => .ok hsmall

theorem Bounded.decode_agrees (har : ar.Faithful) (hm : m.Bounded) (request : GenerationRequest)
    (fuel : Nat) {s : GenState} (hs : Small s.logits) (tokens : List Nat) :
    Agrees .overflow (fun _ => True) (m.decode ar choice request fuel s tokens)
      (m.decode .exact choice request fuel s tokens) := by
  induction fuel generalizing s tokens with
  | zero => exact .ok trivial
  | succ fuel ih =>
    refine .bind (select_agrees har hs tokens request.selection) fun next _ _ => ?_
    dsimp only
    split
    · exact .ok trivial
    · exact .bind (hm.advance_agrees har s next) fun s' _ hs' => ih hs' _

/-- **Generation** of a bounded model is exact: tokens, hashes and refusals. -/
theorem Bounded.generate_agrees (har : ar.Faithful) (hm : m.Bounded)
    (request : GenerationRequest) : Agrees .overflow (fun _ => True)
      (m.generate ar choice request) (m.generate .exact choice request) := by
  rw [generate, generate]
  split
  · exact .error nofun
  split
  · exact .error nofun
  cases request.prompt.find? fun t => decide (t ≥ m.config.vocabSize) with
  | some bad => exact .error nofun
  | none =>
    refine .bind (.foldlM (I := fun _ s => Small s.logits) (fun _ hv => absurd hv not_mem_nil)
      fun _ token _ s _ => hm.advance_agrees har s token) fun s _ hs => ?_
    exact .bind (hm.decode_agrees har request _ hs []) fun _ _ _ => .ok trivial

end Generation

end ModernModel

/-! ## Exact runs -/

/-- A result of the machine against unbounded integers, and the run that stops at an overflow:
    a refusal or the exact result, and nothing overflows on the way. -/
structure ExactOrRefused {α : Type} (run : Arith Stop → Eval α) : Prop where
  result : (∃ err, run .machine = .error (.refused err)) ∨ run .machine = run .exact
  no_overflow : run (.checked .overflow) ≠ .error .overflow

theorem ExactOrRefused.of_agrees {α : Type} {P : α → Prop} {run : Arith Stop → Eval α}
    (h : ∀ ar : Arith Stop, ar.Faithful → Agrees .overflow P (run ar) (run .exact)) :
    ExactOrRefused run where
  result := .inr (h _ machine_faithful).eq
  no_overflow := by
    rw [(h _ (checked_faithful _)).eq]
    exact (h _ machine_faithful).avoids

namespace ModernModel

variable [Crypto] {m : ModernModel}

/-- Every sequence of forward calls and every generation of a model. -/
structure RunsExactly (choice : KernelChoice) (m : ModernModel) : Prop where
  forwards : ∀ tokens, ExactOrRefused fun ar => m.forwardAll ar choice tokens m.newCache
  generations : ∀ request, ExactOrRefused fun ar => m.generate ar choice request

/-- **Run lemma.**  Every run of a bounded model is exact. -/
theorem Bounded.runsExactly (hm : m.Bounded) (choice : KernelChoice) : m.RunsExactly choice where
  forwards tokens := .of_agrees fun _ har => hm.forwardAll_agrees har tokens _
  generations request := .of_agrees fun _ har => hm.generate_agrees har request

end ModernModel

end Dyadic

end ArcChain
