/-
How far the dyadic profile is exact.  `validate` accepts contexts of up to
`2 ^ 20` positions and heads of any width, while the attention accumulators
hold `2 ^ 16` positions and a wide score fewer than `2 ^ 34` columns.  Beyond
either bound some accepted model overflows:

* with a longer context, `deepProbe` attends over `2 ^ 16 + 1` equal values
  `-2 ^ 31`; the accumulator wraps and the logits change their sign;
* with wider heads, `wideProbe` sums `2 ^ 34` products `2 ^ 93` in an i128.

Both are one-layer models with one token, whose hidden row has one element.
-/
import ArcChain.Inference.DyadicRun
import ArcChain.Crypto.Concrete

namespace ArcChain

open MachineInt List Arith

namespace Dyadic

/-! ## Lists with one distinguished element -/

/-- `d + 1` elements: one first, the others equal. -/
def headed {α : Type} (d : Nat) (first rest : α) : List α := first :: List.replicate d rest

section Headed

variable {α β : Type} {d : Nat} {first rest : α}

@[simp] theorem length_headed : (headed d first rest).length = d + 1 := by
  rw [headed, length_cons, length_replicate]

theorem map_headed (f : α → β) : (headed d first rest).map f = headed d (f first) (f rest) := by
  rw [headed, map_cons, map_replicate]
  rfl

theorem getD_headed {i : Nat} (hi : i < d + 1) (default : α) :
    (headed d first rest).getD i default = if i = 0 then first else rest := by
  cases i with
  | zero => rfl
  | succ i =>
    rw [headed, getD_cons_succ, getD_replicate _ (by omega)]
    rfl

theorem map_range_headed : ((List.range (d + 1)).map fun i => if i = 0 then first else rest) =
    headed d first rest := by
  rw [range_succ_eq_map, map_cons, map_map]
  congr 1
  apply eq_replicate_iff.mpr
  refine ⟨by simp, fun b hb => ?_⟩
  obtain ⟨i, -, rfl⟩ := mem_map.mp hb
  rfl

theorem mem_headed {a : α} (h : a ∈ headed d first rest) : a = first ∨ a = rest := by
  rcases mem_cons.mp h with rfl | h
  · exact .inl rfl
  · exact .inr (eq_of_mem_replicate h)

/-- Element `t` of row `p` of equal rows. -/
theorem getD_rows {row : List α} {n p t : Nat} (hp : p < n) (ht : t < row.length) (default : α) :
    (List.replicate n row).flatten.getD (p * row.length + t) default = row.getD t default := by
  induction n generalizing p with
  | zero => exact absurd hp (Nat.not_lt_zero p)
  | succ n ih =>
    rw [replicate_succ, flatten_cons]
    cases p with
    | zero =>
      rw [zero_mul, zero_add, getD_append _ _ _ _ ht]
    | succ p =>
      have hindex : (p + 1) * row.length + t = row.length + (p * row.length + t) := by
        rw [Nat.succ_mul]
        omega
      rw [hindex, getD_append_right _ _ _ _ (Nat.le_add_right _ _), Nat.add_sub_cancel_left]
      exact ih (Nat.lt_of_succ_lt_succ hp)

theorem length_rows {row : List α} (n : Nat) :
    (List.replicate n row).flatten.length = n * row.length := by
  rw [length_flatten, map_replicate, sum_replicate_nat]

theorem rows_succ (row : List α) (n : Nat) :
    (List.replicate (n + 1) row).flatten = (List.replicate n row).flatten ++ row := by
  rw [replicate_succ', flatten_append, flatten_singleton]

end Headed

/-! ## One-column matrices -/

/-- A row of one weight: the weight and its scale. -/
structure Row where
  w : Int8
  mu : Int32
  k : UInt8

namespace Row

/-- The row that is zero. -/
def zero : Row := ⟨0, 0, 16⟩

/-- What `validate` asks of a row. -/
def Valid (r : Row) : Prop :=
  r.w ≠ -128 ∧ ((r.w = 0 ∧ r.mu = 0 ∧ r.k = 16) ∨ (r.mu.toInt ≥ 2 ^ 30 ∧ 16 ≤ r.k ∧ r.k ≤ 62))

instance (r : Row) : Decidable r.Valid := inferInstanceAs (Decidable (_ ∧ _))

/-- The row's product with `v`. -/
def scaled (r : Row) (v : Int) : Int := (r.w.toInt * v * r.mu.toInt) >>> r.k.toNat

end Row

/-- A matrix of `d + 1` rows and one column. -/
def column (d : Nat) (first rest : Row) : DyadicMatrix where
  rows := d + 1
  cols := 1
  q := headed d first.w rest.w
  mu := headed d first.mu rest.mu
  k := headed d first.k rest.k

section Column

variable {ar : Arith Stop} {d : Nat} {first rest : Row}

theorem checkRow_ok {m : DyadicMatrix} {r : Row} (hr : r.Valid) {i : Nat} (name : String)
    (hrow : m.row i = [r.w]) : m.checkRow name i r.mu r.k = .ok () := by
  obtain ⟨-, hscale⟩ := hr
  rw [DyadicMatrix.checkRow, hrow]
  rcases hscale with ⟨hw, hmu, hk⟩ | hnormal
  · rw [if_neg (not_not.mpr (.inl ⟨hmu, hk⟩))]
    rw [hw]
    simp
  · rw [if_neg (not_not.mpr (.inr hnormal)), if_neg]
    rintro ⟨hmu, -⟩
    rw [hmu] at hnormal
    exact absurd hnormal.1 (by decide)

theorem row_column (first rest : Row) {i : Nat} (hi : i < d + 1) :
    (column d first rest).row i = [if i = 0 then first.w else rest.w] := by
  have hlen : i < (headed d first.w rest.w).length := by
    rw [length_headed]
    exact hi
  show ((headed d first.w rest.w).drop (i * 1)).take 1 = _
  rw [mul_one, drop_eq_getElem_cons hlen, take_succ_cons, take_zero,
    ← getD_eq_getElem _ 0 hlen, getD_headed hi]

theorem column_noMin (hfirst : first.Valid) (hrest : rest.Valid) : (column d first rest).NoMin := by
  intro w hw
  rcases mem_headed hw with rfl | rfl
  · exact hfirst.1
  · exact hrest.1

theorem column_validate (hfirst : first.Valid) (hrest : rest.Valid) (name : String) :
    (column d first rest).validate name = .ok () := by
  have hshape : ¬ ((column d first rest).rows = 0 ∨ (column d first rest).cols = 0 ∨
      (column d first rest).rows * (column d first rest).cols ≠ (column d first rest).q.length ∨
      (column d first rest).mu.length ≠ (column d first rest).rows ∨
      (column d first rest).k.length ≠ (column d first rest).rows) := by
    simp [column]
  rw [DyadicMatrix.validate, if_neg hshape, if_neg]
  · apply forM_eq_ok.mpr
    rintro ⟨⟨mu, k⟩, i⟩ hentry
    obtain ⟨hi, hget⟩ := List.getElem?_eq_some_iff.mp (mk_mem_zipIdx_iff_getElem?.mp hentry)
    have hi' : i < d + 1 := by
      exact lt_of_lt_of_le hi (by simp [column])
    rw [getElem_zip, Prod.mk.injEq, ← getD_eq_getElem _ 0, ← getD_eq_getElem _ 0] at hget
    obtain ⟨hmu, hk⟩ := hget
    rw [show (column d first rest).mu = headed d first.mu rest.mu from rfl, getD_headed hi'] at hmu
    rw [show (column d first rest).k = headed d first.k rest.k from rfl, getD_headed hi'] at hk
    have hrow := row_column first rest hi'
    subst hmu hk
    by_cases hzero : i = 0
    · rw [if_pos hzero] at hrow
      rw [if_pos hzero, if_pos hzero]
      exact checkRow_ok hfirst name hrow
    · rw [if_neg hzero] at hrow
      rw [if_neg hzero, if_neg hzero]
      exact checkRow_ok hrest name hrow
  · rw [contains_iff_mem]
    exact fun hmem => column_noMin hfirst hrest _ hmem rfl

/-- A one-column matrix times one element. -/
theorem column_project (har : ar.Faithful) (choice : KernelChoice) (hfirst : first.Valid)
    (hrest : rest.Valid) {v : Int} (hv : |v| * 127 < 2 ^ 63)
    (hfirst' : |first.scaled v| ≤ activationLimit) (hrest' : |rest.scaled v| ≤ activationLimit) :
    project ar choice (column d first rest) [v] (buffer (d + 1)) =
      .ok (headed d (first.scaled v) (rest.scaled v)) := by
  have hmass : mass [v] * 127 < 2 ^ 63 := by
    rw [mass, map_singleton, sum_singleton]
    exact hv
  rw [project_eq har (column_noMin hfirst hrest), if_neg (by simp [column, buffer]),
    if_neg (not_le.mpr hmass), ← map_range_headed]
  apply mapM_eq_ok
  intro i hi
  have hi' : i < d + 1 := mem_range.mp hi
  have hw : LimbKernel.rowProduct (column d first rest).q 1 i [v] =
      (if i = 0 then first.w else rest.w).toInt * v := by
    rw [LimbKernel.rowProduct, Finset.sum_range_one, LimbKernel.bytesAt, mul_one, add_zero]
    rw [show (column d first rest).q = headed d first.w rest.w from rfl, getD_headed hi']
    rfl
  have hmu : (column d first rest).mu.getD i 0 = if i = 0 then first.mu else rest.mu :=
    getD_headed hi' 0
  have hk : (column d first rest).k.getD i 0 = if i = 0 then first.k else rest.k :=
    getD_headed hi' 0
  rw [projectValue, show (column d first rest).cols = 1 from rfl, hw, hmu, hk]
  split
  · exact if_neg (not_lt.mpr hfirst')
  · exact if_neg (not_lt.mpr hrest')

end Column

/-! ## The probe models -/

/-- The first column of the attended row. -/
def firstColumn (d : Nat) : DyadicMatrix where
  rows := 1
  cols := d + 1
  q := headed d 1 0
  mu := [1073741824]
  k := [30]

/-- A layer of `probe`. -/
def probeLayer (d : Nat) (wq wk wv : Row × Row) : ModernLayer where
  attnNorm := [562949953421312]
  wq := column d wq.1 wq.2
  wk := column d wk.1 wk.2
  wv := column d wv.1 wv.2
  wo := firstColumn d
  ffnNorm := [0]
  wGate := column 0 .zero .zero
  wUp := column 0 .zero .zero
  wDown := column 0 .zero .zero

def probeConfig (N d : Nat) : ModernConfig where
  architecture := "llama"
  nLayers := 1
  dModel := 1
  nHeads := 1
  nKvHeads := 1
  dHead := d + 1
  dFf := 1
  vocabSize := 1
  maxSeq := N
  rmsEpsQ32 := 3
  ropeTheta := 10000
  ropeLayers := [false]

/-- One layer, one head of `d + 1` columns, one token, `N` positions. -/
def probe (N d : Nat) (wq wk wv : Row × Row) : ModernModel where
  config := probeConfig N d
  embed := column 0 ⟨1, 1073741824, 46⟩ .zero
  finalNorm := [2147483648]
  ropeCos := List.replicate (N * ((d + 1) / 2)) 0
  ropeSin := List.replicate (N * ((d + 1) / 2)) 0
  layers := [probeLayer d wq wk wv]

section Probe

variable {ar : Arith Stop} {choice : KernelChoice} {N d : Nat} {wq wk wv : Row × Row}

theorem firstColumn_validate (d : Nat) (name : String) :
    (firstColumn d).validate name = .ok () := by
  rw [DyadicMatrix.validate, if_neg (by simp [firstColumn]), if_neg]
  · rfl
  · rw [contains_iff_mem]
    intro hmem
    rcases mem_headed hmem with h | h <;> exact absurd h (by decide)

theorem firstColumn_noMin (d : Nat) : (firstColumn d).NoMin :=
  DyadicMatrix.validate_noMin (firstColumn_validate d "wo")

theorem checkShape_ok {m : DyadicMatrix} {rows cols : Nat} {name : String}
    (hrows : m.rows = rows) (hcols : m.cols = cols) (h : m.validate name = .ok ()) :
    checkShape m rows cols name = .ok () := by
  rw [checkShape, if_pos ⟨hrows, hcols⟩]
  exact h

theorem zero_valid : Row.zero.Valid := by
  decide

/-- The rows of the three free projections are profile values. -/
structure ProbeValid (wq wk wv : Row × Row) : Prop where
  wq : wq.1.Valid ∧ wq.2.Valid
  wk : wk.1.Valid ∧ wk.2.Valid
  wv : wv.1.Valid ∧ wv.2.Valid

theorem probe_validate (hN : 0 < N) (hN' : N ≤ 2 ^ 20) (heven : (d + 1) % 2 = 0)
    (h : ProbeValid wq wk wv) : (probe N d wq wk wv).validate = .ok () := by
  have hone : 1 * (d + 1) = d + 1 := one_mul _
  have hconfig : (probeConfig N d).validate = .ok () := by
    refine if_pos ⟨?_, Nat.mod_self 1, heven, rfl, ?_, ?_, hN', ?_, ?_⟩
    · intro v hv
      simp only [probeConfig, mem_cons, not_mem_nil, or_false] at hv
      omega
    all_goals simp only [probeConfig]; decide
  have hlayer : (probeLayer d wq wk wv).validate (probeConfig N d) 0 = .ok () := by
    refine (bind_of_ok (checkShape_ok hone.symm rfl (column_validate h.wq.1 h.wq.2 _)) _).trans ?_
    refine (bind_of_ok (checkShape_ok hone.symm rfl (column_validate h.wk.1 h.wk.2 _)) _).trans ?_
    refine (bind_of_ok (checkShape_ok hone.symm rfl (column_validate h.wv.1 h.wv.2 _)) _).trans ?_
    refine (bind_of_ok (checkShape_ok rfl hone.symm (firstColumn_validate d _)) _).trans ?_
    have hzero := fun name => checkShape_ok rfl rfl (column_validate (d := 0) zero_valid zero_valid name)
    exact bind_of_ok (hzero _) _
  refine (bind_of_ok hconfig _).trans ?_
  refine (if_neg ?_).trans ?_
  · simp [probe, probeConfig]
  · apply forM_eq_ok.mpr
    intro entry hentry
    obtain rfl := mem_singleton.mp hentry
    exact hlayer

/-! ### The parts both probes share -/

theorem mass_headed (d : Nat) (a b : Int) : mass (headed d a b) = |a| + d * |b| := by
  rw [mass, map_headed, headed, sum_cons, sum_replicate, nsmul_eq_mul]

theorem probe_embed (har : ar.Faithful) : embedRow ar (probe N d wq wk wv).embed 0 = .ok [1] := by
  rw [(embedRow_agrees har _ _).eq]
  show embedRow .exact (column 0 ⟨1, 1073741824, 46⟩ .zero) 0 = .ok [1]
  decide +kernel

theorem small_singleton {v : Int} (hv : |v| ≤ activationLimit) : Small [v] := by
  intro u hu
  obtain rfl := mem_singleton.mp hu
  exact hv

theorem probe_normed (har : ar.Faithful) :
    rmsNorm ar [1] (gains (probeLayer d wq wk wv).attnNorm) (probeConfig N d).rmsEpsQ32.toInt =
      .ok [2 ^ 48] := by
  rw [(rmsNorm_agrees har (small_singleton (by decide)) (ModernModel.eps_lt _)).eq]
  show rmsNorm .exact [1] (gains [562949953421312]) (3 : Int64).toInt = .ok [2 ^ 48]
  decide +kernel

variable {a b : Int}

/-- The output projection reads the first column. -/
theorem firstColumn_project (har : ar.Faithful) (ha : |a| ≤ 2 ^ 31) :
    project ar choice (firstColumn d) (headed d a 0) (buffer 1) = .ok [a] := by
  have hmass : mass (headed d a 0) * 127 < 2 ^ 63 := by
    rw [mass_headed, abs_zero]
    omega
  have hproduct : LimbKernel.rowProduct (firstColumn d).q (d + 1) 0 (headed d a 0) = a := by
    rw [LimbKernel.rowProduct, Finset.sum_range_succ', Finset.sum_eq_zero, zero_add]
    · rw [zero_mul]
      show (1 : Int) * a = a
      exact one_mul a
    · intro j hj
      rw [getD_headed (by have := Finset.mem_range.mp hj; omega), if_neg (Nat.succ_ne_zero j),
        mul_zero]
  rw [project_eq har (firstColumn_noMin d), if_neg (by simp [firstColumn, buffer]),
    if_neg (not_le.mpr hmass)]
  show ([0].mapM _ : Eval (List Int)) = _
  rw [mapM_cons, projectValue,
    show (firstColumn d).cols = d + 1 from rfl, hproduct]
  have hshift : (a * (((firstColumn d).mu.getD 0 0).toInt)) >>> ((firstColumn d).k.getD 0 0).toNat =
      a := by
    rw [show ((firstColumn d).mu.getD 0 0).toInt = 2 ^ 30 by rfl,
      Int.shiftRight_eq_div_pow]
    exact Int.mul_ediv_cancel a (by decide)
  rw [hshift, toActivation, if_neg]
  · rfl
  · rw [activationLimit]
    omega

/-- The feed-forward block of a probe adds nothing. -/
theorem probe_feedForward (har : ar.Faithful) {h : Int} (hh : |h| ≤ activationLimit)
    (hnorm : rmsNorm .exact [h] [0] 3 = .ok [0]) :
    ModernModel.feedForward ar choice (probeConfig N d) (probeLayer d wq wk wv) [h] = .ok [0] := by
  have hzero : project ar choice (column 0 .zero .zero) [0] (buffer 1) = .ok [0] :=
    column_project har choice zero_valid zero_valid (by decide) (by decide) (by decide)
  have hsilu : gatedSilu ar 0 0 = .ok 0 := by
    rw [(gatedSilu_agrees har (by decide) _).eq]
    decide +kernel
  refine (bind_of_ok (a := [0]) ?_ _).trans ?_
  · rw [(rmsNorm_agrees har (small_singleton hh) (ModernModel.eps_lt _)).eq]
    exact hnorm
  refine (bind_of_ok hzero _).trans ?_
  refine (bind_of_ok hzero _).trans ?_
  refine (bind_of_ok (a := [0]) ?_ _).trans hzero
  show ([(0, 0)].mapM fun entry : Int × Int => gatedSilu ar entry.1 entry.2) = _
  rw [mapM_cons, hsilu]
  rfl

theorem addResidual_one (har : ar.Faithful) (ha : |a| ≤ activationLimit)
    (hb : |b| ≤ activationLimit) (hsum : |a + b| ≤ activationLimit) :
    addResidual ar [a] [b] = .ok [a + b] := by
  rw [(addResidual_agrees har (small_singleton ha) (small_singleton hb)).eq]
  show (toActivation (a + b) _ >>= _) = _
  rw [toActivation, if_neg (not_lt.mpr hsum)]
  rfl

/-- What the network makes of the attended value `a`. -/
structure Continues (a logit : Int) : Prop where
  small : |a| ≤ 2 ^ 31
  ffn : rmsNorm .exact [1 + a] [0] 3 = .ok [0]
  final : ∃ r, rmsNorm .exact [1 + a] [2147483648] 3 = .ok [r] ∧ |r| * 127 < 2 ^ 63 ∧
    (Row.mk 1 1073741824 46).scaled r = logit
  logit : |logit| ≤ activationLimit

/-- A call of a probe whose attention block returns `a`. -/
theorem probe_forward (har : ar.Faithful) {cache cache' : KvCache} {logit : Int}
    (hcontinues : Continues a logit) (hposition : cache.positions < N)
    (hkeys : cache.keys.length = 1) (hvalues : cache.values.length = 1)
    (hblock : ∀ cos sin, ModernModel.attentionBlock ar choice (probeConfig N d)
      (probeLayer d wq wk wv) 0 cos sin [1] cache = .ok ([a], cache')) :
    (probe N d wq wk wv).forward ar choice 0 cache =
      .ok ([logit], { cache' with positions := cache.positions + 1 }) := by
  obtain ⟨r, hfinal, hr, hlogit⟩ := hcontinues.final
  have ha := hcontinues.small
  have hsum : |1 + a| ≤ activationLimit := by
    rw [activationLimit]
    have := abs_add_le 1 a
    rw [abs_one] at this
    omega
  have ha' : |a| ≤ activationLimit := by
    rw [activationLimit]
    omega
  refine (if_neg (not_le.mpr hposition)).trans ?_
  refine (if_neg ?_).trans ?_
  · rintro (h | h)
    · exact h hkeys
    · exact h hvalues
  refine (bind_of_ok (probe_embed har) _).trans ?_
  refine (bind_of_ok (a := ([1 + a], cache')) ?_ _).trans ?_
  · show ([(probeLayer d wq wk wv, 0)].foldlM _ _) = _
    refine (bind_of_ok (a := ([1 + a], cache')) ?_ _).trans rfl
    refine (bind_of_ok (hblock _ _) _).trans ?_
    refine (bind_of_ok (addResidual_one har (by decide) ha' hsum) _).trans ?_
    refine (bind_of_ok (probe_feedForward har hsum hcontinues.ffn) _).trans ?_
    refine (bind_of_ok (addResidual_one har hsum (by decide) (by rwa [add_zero])) _).trans ?_
    rw [add_zero]
    rfl
  refine (bind_of_ok (a := [r]) ?_ _).trans ?_
  · rw [(rmsNorm_agrees har (small_singleton hsum) (ModernModel.eps_lt _)).eq]
    exact hfinal
  refine (bind_of_ok (a := [logit]) ?_ _).trans rfl
  have hzero : |Row.zero.scaled r| ≤ activationLimit := by
    rw [Row.scaled, Row.zero]
    simp [activationLimit]
  subst hlogit
  exact column_project (d := 0) har choice (by decide) zero_valid hr hcontinues.logit hzero

theorem narrow_headed (ha : Fits 32 a) (hb : Fits 32 b) :
    (headed d a b).mapM narrow = .ok (headed d (Int32.ofInt a) (Int32.ofInt b)) := by
  rw [← map_headed]
  apply mapM_eq_ok
  intro v hv
  rcases mem_headed hv with rfl | rfl
  · exact if_pos ha
  · exact if_pos hb

/-- The keys and values of `n` calls that all push the same rows. -/
def repeated (krow vrow : List Int32) (n positions : Nat) : KvCache where
  keys := [(List.replicate n krow).flatten]
  values := [(List.replicate n vrow).flatten]
  positions := positions

variable {krow vrow : List Int32}

theorem repeated_push {k v : List Int} (hk : k.mapM narrow = .ok krow)
    (hv : v.mapM narrow = .ok vrow) (n positions : Nat) :
    (repeated krow vrow n positions).push 0 k v = .ok (repeated krow vrow (n + 1) positions) := by
  rw [KvCache.push, hk, hv, repeated, repeated, rows_succ, rows_succ]
  rfl

/-- The attention block of a probe up to the heads, from the projected rows. -/
theorem probe_attentionBlock (har : ar.Faithful) (wq wk wv : Row × Row) {q k v : Int × Int}
    (n positions : Nat)
    (hq : project ar choice (column d wq.1 wq.2) [2 ^ 48] (buffer (d + 1)) = .ok (headed d q.1 q.2))
    (hk : project ar choice (column d wk.1 wk.2) [2 ^ 48] (buffer (d + 1)) = .ok (headed d k.1 k.2))
    (hv : project ar choice (column d wv.1 wv.2) [2 ^ 48] (buffer (d + 1)) = .ok (headed d v.1 v.2))
    (hk32 : Fits 32 k.1 ∧ Fits 32 k.2) (hv32 : Fits 32 v.1 ∧ Fits 32 v.2) (cos sin : List Int32) :
    ModernModel.attentionBlock ar choice (probeConfig N d) (probeLayer d wq wk wv) 0 cos sin [1]
        (repeated (headed d (Int32.ofInt k.1) (Int32.ofInt k.2))
          (headed d (Int32.ofInt v.1) (Int32.ofInt v.2)) n positions) =
      attendHeads ar (probeConfig N d) (headed d q.1 q.2)
        (List.replicate (n + 1) (headed d (Int32.ofInt k.1) (Int32.ofInt k.2))).flatten
        (List.replicate (n + 1) (headed d (Int32.ofInt v.1) (Int32.ofInt v.2))).flatten
        (positions + 1) >>= fun attended =>
          project ar choice (firstColumn d) attended (buffer 1) >>= fun projected =>
            pure (projected, repeated (headed d (Int32.ofInt k.1) (Int32.ofInt k.2))
              (headed d (Int32.ofInt v.1) (Int32.ofInt v.2)) (n + 1) positions) := by
  have hdq : (probeConfig N d).dQ = d + 1 := one_mul _
  have hdkv : (probeConfig N d).dKv = d + 1 := one_mul _
  rw [ModernModel.attentionBlock, hdq, hdkv]
  refine (bind_of_ok (probe_normed har) _).trans ?_
  refine (bind_of_ok hq _).trans ?_
  refine (bind_of_ok hk _).trans ?_
  refine (bind_of_ok hv _).trans ?_
  exact bind_of_ok (repeated_push (narrow_headed hk32.1 hk32.2) (narrow_headed hv32.1 hv32.2) _ _) _

/-- A probe has one head, over the whole row. -/
theorem probe_attendHeads (hkrow : krow.length = d + 1)
    (hvrow : vrow.length = d + 1) {n : Nat} {r : Eval (List Int)}
    (hhead : ∀ cache : HeadCache, cache.positions = n →
      (n - 1) * cache.stride + cache.offset + (d + 1) ≤ cache.keys.length →
      (n - 1) * cache.stride + cache.offset + (d + 1) ≤ cache.values.length →
      (∀ p < n, ∀ t < d + 1, cache.entry cache.keys p t = (krow.getD t 0).toInt) →
      (∀ p < n, ∀ t < d + 1, cache.entry cache.values p t = (vrow.getD t 0).toInt) →
      attentionHead ar (headed d a b) cache (attentionLambda (d + 1)) (d + 1) = r) (hn : 0 < n) :
    attendHeads ar (probeConfig N d) (headed d a b) (List.replicate n krow).flatten
      (List.replicate n vrow).flatten n = r >>= fun head => pure head := by
  have hstride : (probeConfig N d).dKv = d + 1 := one_mul _
  have hoffset : 0 / ((probeConfig N d).nHeads / (probeConfig N d).nKvHeads) *
      (probeConfig N d).dHead = 0 := by
    rw [Nat.zero_div, zero_mul]
  have hchunk : chunk (headed d a b) (d + 1) 0 = headed d a b := by
    rw [chunk, zero_mul, drop_zero, take_of_length_le (by simp)]
  have hheads : (headed d a b).length / (probeConfig N d).dHead = 1 := by
    rw [length_headed]
    exact Nat.div_self (Nat.succ_pos d)
  have hlast : (n - 1) * (d + 1) + 0 + (d + 1) = n * (d + 1) := by
    obtain ⟨m, rfl⟩ := Nat.exists_eq_add_of_lt hn
    rw [Nat.add_sub_cancel, add_zero, Nat.succ_mul]
  have hrow : ∀ row : List Int32, row.length = d + 1 → ∀ p < n, ∀ t < d + 1,
      ((List.replicate n row).flatten.getD (p * (d + 1) + 0 + t) 0).toInt =
        (row.getD t 0).toInt := by
    intro row hrow p hp t ht
    rw [add_zero, ← hrow, getD_rows hp (by omega)]
  have hvalue := hhead
    ⟨(List.replicate n krow).flatten, (List.replicate n vrow).flatten, n, d + 1, 0⟩ rfl
    (by rw [hlast, length_rows, hkrow]) (by rw [hlast, length_rows, hvrow])
    (hrow krow hkrow) (hrow vrow hvrow)
  rw [attendHeads, hheads]
  show ([0].mapM _ >>= _) = _
  rw [mapM_cons, hoffset, hstride]
  show ((attentionHead ar (chunk (headed d a b) (d + 1) 0) _ (attentionLambda (d + 1)) (d + 1) >>= _)
    >>= _) = _
  rw [hchunk, hvalue]
  cases r with
  | error err => rfl
  | ok head =>
    show Except.ok ([head].flatten) = Except.ok head
    rw [flatten_singleton]

end Probe

/-! ## Attention over equal values -/

/-- An arithmetic that narrows an i64 without stopping. -/
structure Wraps (ar : Arith Stop) (nar : Int → Int) : Prop where
  faithful : ar.Faithful
  i64 : ∀ v, ar.i64 v = .ok (nar v)
  add : ∀ a b, nar (nar a + nar b) = nar (a + b)

theorem exact_wraps : Wraps .exact id := ⟨exact_faithful, fun _ => rfl, fun _ _ => rfl⟩

theorem machine_wraps : Wraps .machine fun v => v.bmod (2 ^ 64) where
  faithful := machine_faithful
  i64 _ := rfl
  add a b := by rw [Int.bmod_add_bmod, Int.add_bmod_bmod]

theorem Wraps.of_fits {ar : Arith Stop} {nar : Int → Int} (h : Wraps ar nar) {v : Int}
    (hv : Fits 64 v) : nar v = v :=
  Except.ok.inj ((h.i64 v).symm.trans (h.faithful.i64 hv))

/-- The attended value of `n` positions that all hold `-2 ^ 31`. -/
def attended (nar : Int → Int) (n : Nat) : Int := (nar (-(2 ^ 47 * n))).tdiv (n * 2 ^ 16)

section Deep

variable {ar : Arith Stop} {nar : Int → Int} {choice : KernelChoice} {N d : Nat}

/-- A zero query scores zero everywhere. -/
theorem scoreAt_zero (har : ar.Faithful) (cache : HeadCache) (lambda : Int) (p : Nat) :
    scoreAt ar (headed d 0 0) cache lambda p = .ok 0 := by
  have hmass : mass (headed d 0 0) = 0 := by
    rw [mass_headed, abs_zero, mul_zero, add_zero]
  have hterm : ∀ t ∈ Finset.range (headed d (0 : Int) 0).length,
      (headed d (0 : Int) 0).getD t 0 * cache.entry cache.keys p t = 0 := by
    intro t ht
    rw [getD_headed (by simpa using ht), ite_self, zero_mul]
  rw [scoreAt, scoreDot, if_pos (by rw [hmass]; decide), scoreSum_eq 64 har.i64]
  · rw [Finset.sum_eq_zero hterm, ok_bind, zero_mul]
    rfl
  · rw [Finset.sum_eq_zero fun t ht => by rw [hterm t ht, abs_zero]]
    decide

variable {n j : Nat}

theorem attentionHead_deep (h : Wraps ar nar) {cache : HeadCache} (hn : 0 < n)
    (hn' : n ≤ 2 ^ 20) (hpositions : cache.positions = n)
    (hkeys : (n - 1) * cache.stride + cache.offset + (d + 1) ≤ cache.keys.length)
    (hvalues : (n - 1) * cache.stride + cache.offset + (d + 1) ≤ cache.values.length)
    (hentry : ∀ p < n, ∀ t < d + 1, cache.entry cache.values p t = if t = 0 then -2 ^ 31 else 0)
    (lambda : Int) :
    attentionHead ar (headed d 0 0) cache lambda (d + 1) = .ok (headed d (attended nar n) 0) := by
  have hscores : (List.range n).mapM (scoreAt ar (headed d 0 0) cache lambda) =
      .ok (List.replicate n 0) := by
    rw [mapM_eq_ok fun p _ => scoreAt_zero h.faithful cache lambda p, map_const']
    rw [length_range]
  have hbest : maxScore (List.replicate n 0) = 0 := by
    rw [maxScore]
    cases hmax : (List.replicate n (0 : Int)).max? with
    | none => rfl
    | some best => exact eq_of_mem_replicate (List.max?_eq_some_iff.mp hmax).1
  have hzero : nar 0 = 0 := h.of_fits (by decide)
  -- after `p` positions: the weights sum to `p`, the first value to `-2^47 * p` narrowed
  have hloop := foldlM_range (n := n)
    (f := fun state p => accumulate ar cache (headed d (0 : Int) 0).length 0 state p
      ((List.replicate n (0 : Int)).getD p 0))
    (fun p => ((p * 2 ^ 16 : Int), headed d (nar (-(2 ^ 47 * p))) 0)) (by
      intro p hp
      have hweights : (p : Int) * 2 ^ 16 + one = ((p + 1 : Nat) : Int) * 2 ^ 16 := by
        rw [one]
        omega
      have hsum : -(2 ^ 47 * (p : Int)) + one * -2 ^ 31 = -(2 ^ 47 * ((p + 1 : Nat) : Int)) := by
        omega
      have htotal : ar.i64 ((p : Int) * 2 ^ 16 + one) = .ok (((p + 1 : Nat) : Int) * 2 ^ 16) := by
        rw [hweights]
        exact h.faithful.i64 ⟨by omega, by omega⟩
      rw [getD_replicate _ hp, accumulate, sub_self, h.i64, hzero, ok_bind,
        (expQ16_eq h.faithful 0).1, ok_bind, expValue_zero, htotal]
      rw [mapM_eq_ok (g := fun t => if t = 0 then nar (-(2 ^ 47 * ((p + 1 : Nat) : Int))) else 0)]
      · rw [length_headed, map_range_headed]
        rfl
      · intro t ht
        rw [length_headed, mem_range] at ht
        rw [hentry p hp t ht, getD_headed ht, h.i64, ok_bind, h.i64]
        by_cases ht0 : t = 0
        · rw [if_pos ht0, if_pos ht0, if_pos ht0, h.add, hsum]
        · rw [if_neg ht0, if_neg ht0, if_neg ht0, mul_zero, hzero, add_zero, hzero])
  have hinit : ((0 : Nat) : Int) * 2 ^ 16 = 0 ∧ headed d (nar (-(2 ^ 47 * ((0 : Nat) : Int)))) 0 =
      List.replicate (d + 1) 0 := by
    refine ⟨rfl, ?_⟩
    rw [show -(2 ^ 47 * ((0 : Nat) : Int)) = 0 from rfl, hzero]
    rfl
  refine (if_neg ?_).trans ?_
  · rw [length_headed, hpositions]
    omega
  rw [hpositions, hscores, ok_bind, hbest]
  dsimp only
  rw [hinit.1, hinit.2] at hloop
  rw [show List.replicate (headed d (0 : Int) 0).length (0 : Int) = List.replicate (d + 1) 0 by
    rw [length_headed]]
  rw [hloop]
  show Except.ok ((headed d (nar (-(2 ^ 47 * n))) 0).map fun acc => acc.tdiv (n * 2 ^ 16)) = _
  rw [map_headed, Int.zero_tdiv]
  rfl

/-! ## A long context -/

/-- Values `-2 ^ 31` in the first column, equal weights. -/
def deepProbe (N d : Nat) : ModernModel :=
  probe N d (.zero, .zero) (.zero, .zero) (⟨-1, 1073741824, 47⟩, .zero)

theorem deepProbe_valid : ProbeValid (.zero, .zero) (.zero, .zero) (⟨-1, 1073741824, 47⟩, .zero) :=
  ⟨⟨zero_valid, zero_valid⟩, ⟨zero_valid, zero_valid⟩, ⟨by decide, zero_valid⟩⟩

/-- The cache after `n` calls. -/
def deepCache (d n : Nat) : KvCache :=
  repeated (headed d (Int32.ofInt 0) (Int32.ofInt 0))
    (headed d (Int32.ofInt (-2 ^ 31)) (Int32.ofInt 0)) n n

/-- **Step lemma.**  Call `n` from the cache of `n` calls. -/
theorem forward_deep (h : Wraps ar nar) (hn : n < N) (hN : N ≤ 2 ^ 20) {logit : Int}
    (hcontinues : Continues (attended nar (n + 1)) logit) :
    (deepProbe N d).forward ar choice 0 (deepCache d n) = .ok ([logit], deepCache d (n + 1)) := by
  have hzero : project ar choice (column d .zero .zero) [2 ^ 48] (buffer (d + 1)) =
      .ok (headed d 0 0) :=
    column_project h.faithful choice zero_valid zero_valid (by decide) (by decide) (by decide)
  have hvalue : project ar choice (column d ⟨-1, 1073741824, 47⟩ .zero) [2 ^ 48]
      (buffer (d + 1)) = .ok (headed d (-2 ^ 31) 0) :=
    column_project h.faithful choice (by decide) zero_valid (by decide) (by decide) (by decide)
  have hhead : attendHeads ar (probeConfig N d) (headed d 0 0)
      (List.replicate (n + 1) (headed d (Int32.ofInt 0) (Int32.ofInt 0))).flatten
      (List.replicate (n + 1) (headed d (Int32.ofInt (-2 ^ 31)) (Int32.ofInt 0))).flatten (n + 1) =
      .ok (headed d (attended nar (n + 1)) 0) := by
    refine (probe_attendHeads (r := .ok (headed d (attended nar (n + 1)) 0)) length_headed
      length_headed ?_ (Nat.succ_pos n)).trans (ok_bind _ _)
    intro cache hpositions hkeys hvalues _ hentry
    refine attentionHead_deep h (Nat.succ_pos n) (by omega) hpositions hkeys hvalues ?_ _
    intro p hp t ht
    rw [hentry p hp t ht, getD_headed ht]
    split <;> rfl
  have hblock : ∀ cos sin, ModernModel.attentionBlock ar choice (probeConfig N d)
      (probeLayer d (.zero, .zero) (.zero, .zero) (⟨-1, 1073741824, 47⟩, .zero)) 0 cos sin [1]
      (deepCache d n) = .ok ([attended nar (n + 1)],
        repeated (headed d (Int32.ofInt 0) (Int32.ofInt 0))
          (headed d (Int32.ofInt (-2 ^ 31)) (Int32.ofInt 0)) (n + 1) n) := by
    intro cos sin
    refine (probe_attentionBlock h.faithful (.zero, .zero) (.zero, .zero)
      (⟨-1, 1073741824, 47⟩, .zero) (q := (0, 0)) (k := (0, 0)) (v := (-2 ^ 31, 0)) n n hzero hzero
      hvalue (by decide) (by decide) cos sin).trans ?_
    refine (bind_of_ok hhead _).trans ?_
    exact bind_of_ok (firstColumn_project h.faithful hcontinues.small) _
  exact probe_forward h.faithful hcontinues hn rfl rfl hblock

/-- **Run lemma.**  The logits of `i` calls from the cache of `n` calls. -/
theorem forwardAll_deep (h : Wraps ar nar) (hN : N ≤ 2 ^ 20) (logit : Nat → Int)
    (hj : j ≤ N) (hcontinues : ∀ n < j, Continues (attended nar (n + 1)) (logit n)) {i : Nat}
    (hi : n + i ≤ j) :
    (deepProbe N d).forwardAll ar choice (List.replicate i 0) (deepCache d n) =
      .ok ((List.range' n i).map fun p => [logit p]) := by
  induction i generalizing n with
  | zero => rfl
  | succ i ih =>
    rw [replicate_succ, ModernModel.forwardAll,
      forward_deep h (by omega) hN (hcontinues n (by omega)), ok_bind, ih (by omega)]
    rfl

theorem attended_exact (n : Nat) : attended id (n + 1) = -2 ^ 31 := by
  rw [attended]
  have hsplit : id (-(2 ^ 47 * ((n + 1 : Nat) : Int))) =
      -2 ^ 31 * (((n + 1 : Nat) : Int) * 2 ^ 16) := by
    rw [id]
    omega
  rw [hsplit]
  exact Int.mul_tdiv_cancel _ (by omega)

theorem continues_exact : Continues (-2 ^ 31) (-32768) :=
  ⟨by decide, by decide +kernel, ⟨-2147483647, by decide +kernel, by decide, by decide⟩, by decide⟩

/-- The wrapped accumulator has the other sign. -/
theorem continues_wrapped : Continues 2147418112 32767 :=
  ⟨by decide, by decide +kernel, ⟨2147483647, by decide +kernel, by decide, by decide⟩, by decide⟩

/-- The machine's logits at position `n`: right up to `2 ^ 16` positions, wrong at the next. -/
theorem continues_machine (hn : n < 2 ^ 16 + 1) :
    Continues (attended (fun v => v.bmod (2 ^ 64)) (n + 1))
      (if n < 2 ^ 16 then -32768 else 32767) := by
  by_cases hfits : n < 2 ^ 16
  · rw [if_pos hfits]
    have hsame : (-(2 ^ 47 * ((n + 1 : Nat) : Int))).bmod (2 ^ 64) =
        -(2 ^ 47 * ((n + 1 : Nat) : Int)) := machine_wraps.of_fits ⟨by omega, by omega⟩
    have hexact : attended (fun v => v.bmod (2 ^ 64)) (n + 1) = attended id (n + 1) := by
      unfold attended
      beta_reduce
      rw [hsame, id]
    rw [hexact, attended_exact]
    exact continues_exact
  · have hlast : n + 1 = 65537 := by omega
    rw [if_neg hfits, hlast]
    exact continues_wrapped

theorem deepProbe_newCache (N d : Nat) : (deepProbe N d).newCache = deepCache d 0 := rfl

/-- **Wrong logits.**  The machine's logits of the first `j <= 2 ^ 16 + 1` calls, and the exact
    ones: the call over `2 ^ 16 + 1` positions returns `[32767]` for `[-32768]`. -/
theorem deepProbe_logits (choice : KernelChoice) (hj : j ≤ N) (hlast : j ≤ 2 ^ 16 + 1) (hN : N ≤ 2 ^ 20) :
    (deepProbe N d).forwardAll .machine choice (List.replicate j 0) (deepProbe N d).newCache =
        .ok ((List.range' 0 j).map fun n => [if n < 2 ^ 16 then -32768 else 32767]) ∧
      (deepProbe N d).forwardAll .exact choice (List.replicate j 0) (deepProbe N d).newCache =
        .ok ((List.range' 0 j).map fun _ => [-32768]) := by
  rw [deepProbe_newCache]
  constructor
  · exact forwardAll_deep machine_wraps hN _ hj (fun n hn => continues_machine (by omega)) (by omega)
  · refine forwardAll_deep exact_wraps hN (fun _ => -32768) hj (fun n _ => ?_) (by omega)
    rw [attended_exact]
    exact continues_exact

/-- Beyond `2 ^ 16` positions the profile is not exact. -/
theorem deepProbe_not_exact [Crypto] (hN : 2 ^ 16 < N) (hN' : N ≤ 2 ^ 20) :
    ¬ (deepProbe N d).RunsExactly choice := by
  intro h
  obtain ⟨j, hj⟩ : ∃ j, j = 2 ^ 16 + 1 := ⟨_, rfl⟩
  obtain ⟨hmachine, hexact⟩ := deepProbe_logits choice (d := d) (j := j) (by omega) (by omega) hN'
  rcases (h.forwards (List.replicate j 0)).result with ⟨err, herr⟩ | hsame
  · rw [hmachine] at herr
    cases herr
  · rw [hmachine, hexact] at hsame
    have hlast := map_inj_left.mp (Except.ok.inj hsame) (2 ^ 16)
      (mem_range'_1.mpr ⟨Nat.zero_le _, by omega⟩)
    cases hlast

end Deep

/-! ## Wide heads -/

/-- Queries `-2 ^ 62` and keys `-2 ^ 31` in every column. -/
def wideProbe (N d : Nat) : ModernModel :=
  probe N d (⟨-1, 1073741824, 16⟩, ⟨-1, 1073741824, 16⟩)
    (⟨-1, 1073741824, 47⟩, ⟨-1, 1073741824, 47⟩) (.zero, .zero)

theorem wideProbe_valid : ProbeValid (⟨-1, 1073741824, 16⟩, ⟨-1, 1073741824, 16⟩)
    (⟨-1, 1073741824, 47⟩, ⟨-1, 1073741824, 47⟩) (.zero, .zero) :=
  ⟨⟨by decide, by decide⟩, ⟨by decide, by decide⟩, ⟨zero_valid, zero_valid⟩⟩

section Wide

variable {choice : KernelChoice} {N d : Nat}

section

variable (hd : 2 ^ 34 ≤ d + 1)
include hd

/-- The i128 sum stops at column `2 ^ 34 - 1`. -/
theorem scoreSum_wide {key : Nat → Int} (hkey : ∀ t < d + 1, key t = -2 ^ 31) :
    scoreSum (Arith.checked Stop.overflow).i128 (headed d (-2 ^ 62) (-2 ^ 62)) key =
      .error .overflow := by
  have hchecked := checked_faithful (Stop.overflow)
  have hproduct : ∀ t < d + 1, (headed d (-2 ^ 62 : Int) (-2 ^ 62)).getD t 0 * key t = 2 ^ 93 := by
    intro t ht
    rw [getD_headed ht, hkey t ht]
    norm_num
  rw [scoreSum, length_headed]
  have hstop : 2 ^ 34 - 1 < d + 1 := by omega
  refine foldlM_range_error hstop (fun j => (j : Int) * 2 ^ 93) ?_ ?_
  · intro j hj
    rw [hproduct j (by omega), hchecked.i128 (v := 2 ^ 93) (by decide), ok_bind,
      hchecked.i128 (v := (j : Int) * 2 ^ 93 + 2 ^ 93) ⟨by omega, by omega⟩]
    push_cast
    rw [add_mul, one_mul]
  · rw [hproduct (2 ^ 34 - 1) hstop]
    have htop : ¬ Fits 128 (((2 ^ 34 - 1 : Nat) : Int) * 2 ^ 93 + 2 ^ 93) := by
      decide
    exact checked_i128_of_not_fits htop

theorem attentionHead_wide {cache : HeadCache} (hpositions : cache.positions = 1)
    (hkeys : (1 - 1) * cache.stride + cache.offset + (d + 1) ≤ cache.keys.length)
    (hvalues : (1 - 1) * cache.stride + cache.offset + (d + 1) ≤ cache.values.length)
    (hentry : ∀ t < d + 1, cache.entry cache.keys 0 t = -2 ^ 31) (lambda : Int) :
    attentionHead (.checked .overflow) (headed d (-2 ^ 62) (-2 ^ 62)) cache lambda (d + 1) =
      .error .overflow := by
  have hmass : ¬ mass (headed d (-2 ^ 62) (-2 ^ 62)) < 2 ^ 32 := by
    rw [mass_headed, abs_neg, abs_of_nonneg (by norm_num)]
    omega
  have hscore : scoreAt (.checked .overflow) (headed d (-2 ^ 62) (-2 ^ 62)) cache lambda 0 =
      .error .overflow := by
    rw [scoreAt, scoreDot, if_neg hmass]
    exact bind_of_error (scoreSum_wide hd hentry) _
  refine (if_neg ?_).trans ?_
  · rw [length_headed, hpositions]
    omega
  rw [hpositions]
  refine bind_of_error ?_ _
  show ([0].mapM _ : Eval (List Int)) = _
  exact bind_of_error hscore _

/-- The first call overflows. -/
theorem forward_wide (hN : 0 < N) :
    (wideProbe N d).forward (.checked .overflow) choice 0 (wideProbe N d).newCache =
      .error .overflow := by
  have hchecked := checked_faithful (Stop.overflow)
  have hq : project (.checked .overflow) choice
      (column d ⟨-1, 1073741824, 16⟩ ⟨-1, 1073741824, 16⟩) [2 ^ 48] (buffer (d + 1)) =
      .ok (headed d (-2 ^ 62) (-2 ^ 62)) :=
    column_project hchecked choice (by decide) (by decide) (by decide) (by decide) (by decide)
  have hk : project (.checked .overflow) choice
      (column d ⟨-1, 1073741824, 47⟩ ⟨-1, 1073741824, 47⟩) [2 ^ 48] (buffer (d + 1)) =
      .ok (headed d (-2 ^ 31) (-2 ^ 31)) :=
    column_project hchecked choice (by decide) (by decide) (by decide) (by decide) (by decide)
  have hv : project (.checked .overflow) choice (column d .zero .zero) [2 ^ 48]
      (buffer (d + 1)) = .ok (headed d 0 0) :=
    column_project hchecked choice zero_valid zero_valid (by decide) (by decide) (by decide)
  have hhead : attendHeads (.checked .overflow) (probeConfig N d) (headed d (-2 ^ 62) (-2 ^ 62))
      (List.replicate 1 (headed d (Int32.ofInt (-2 ^ 31)) (Int32.ofInt (-2 ^ 31)))).flatten
      (List.replicate 1 (headed d (Int32.ofInt 0) (Int32.ofInt 0))).flatten 1 =
      .error .overflow := by
    refine (probe_attendHeads (r := .error .overflow) length_headed length_headed ?_
      Nat.zero_lt_one).trans rfl
    intro cache hpositions hkeys hvalues hentry _
    refine attentionHead_wide hd hpositions hkeys hvalues ?_ _
    intro t ht
    rw [hentry 0 Nat.zero_lt_one t ht, getD_headed ht, ite_self]
    rfl
  refine (if_neg (not_le.mpr hN)).trans ?_
  refine (bind_of_ok (probe_embed hchecked) _).trans ?_
  refine bind_of_error ?_ _
  show ([(probeLayer d _ _ _, 0)].foldlM _ _) = _
  refine bind_of_error ?_ _
  refine bind_of_error ?_ _
  refine (probe_attentionBlock hchecked (⟨-1, 1073741824, 16⟩, ⟨-1, 1073741824, 16⟩)
    (⟨-1, 1073741824, 47⟩, ⟨-1, 1073741824, 47⟩) (.zero, .zero) (q := (-2 ^ 62, -2 ^ 62))
    (k := (-2 ^ 31, -2 ^ 31)) (v := (0, 0)) 0 0 hq hk hv (by decide) (by decide) _ _).trans ?_
  exact bind_of_error hhead _

/-- From `2 ^ 34` columns on, an i128 sum overflows. -/
theorem wideProbe_not_exact [Crypto] (hN : 0 < N) : ¬ (wideProbe N d).RunsExactly choice := by
  intro h
  apply (h.forwards [0]).no_overflow
  exact bind_of_error (forward_wide hd hN) _

end

end Wide

/-! ## How far the profile is exact -/

/-- **Exactness of the dyadic profile.**  All models of `N` positions and heads of `D` columns
    that `validate` accepts run exactly (a refusal, or what unbounded integers give, with no
    overflow on the way) if and only if `N <= 2 ^ 16` and `D < 2 ^ 34`. -/
theorem dyadic_exact_iff_short_and_narrow [Crypto] (choice : KernelChoice) {N D : Nat}
    (hN : 0 < N) (hN' : N ≤ 2 ^ 20) (hD : 0 < D) (heven : D % 2 = 0) :
    (∀ m : ModernModel, m.validate = .ok () → m.config.maxSeq = N → m.config.dHead = D →
      m.RunsExactly choice) ↔ N ≤ 2 ^ 16 ∧ D < 2 ^ 34 := by
  obtain ⟨d, rfl⟩ : ∃ d, D = d + 1 := ⟨D - 1, by omega⟩
  constructor
  · intro h
    constructor
    · by_contra hlong
      exact deepProbe_not_exact (d := d) (Nat.lt_of_not_le hlong) hN'
        (h _ (probe_validate hN hN' heven deepProbe_valid) rfl rfl)
    · by_contra hwide
      exact wideProbe_not_exact (d := d) (Nat.le_of_not_lt hwide) hN
        (h _ (probe_validate hN hN' heven wideProbe_valid) rfl rfl)
  · rintro ⟨hshort, hnarrow⟩ m hvalid hcontext hwidth
    apply ModernModel.Bounded.runsExactly
    refine ⟨ModernModel.validate_noMin hvalid, ?_, ?_⟩
    · rw [hcontext]
      exact hshort
    · rw [hwidth]
      exact hnarrow

/-- The scalar kernel. -/
def scalarChoice : KernelChoice := ⟨false, .avx2, false⟩

/-- The longest exact context, with the width of a real model. -/
theorem dyadic_exact_at_limit :
    letI := concreteCrypto
    (∀ m : ModernModel, m.validate = .ok () → m.config.maxSeq = 65536 → m.config.dHead = 128 →
      m.RunsExactly scalarChoice) ↔ (65536 : Nat) ≤ 2 ^ 16 ∧ (128 : Nat) < 2 ^ 34 :=
  letI := concreteCrypto
  dyadic_exact_iff_short_and_narrow scalarChoice (by decide) (by decide) (by decide) (by decide)

/-- A validated model of 65537 positions: 65537 calls with token 0 all return logits, the last
    one `[32767]` where unbounded integers give `[-32768]`. -/
theorem deepProbe_wraps :
    (deepProbe 65537 1).validate = .ok () ∧
    (deepProbe 65537 1).forwardAll .machine scalarChoice (List.replicate 65537 0)
        (deepProbe 65537 1).newCache =
      .ok ((List.range' 0 65537).map fun n => [if n < 2 ^ 16 then -32768 else 32767]) ∧
    (deepProbe 65537 1).forwardAll .exact scalarChoice (List.replicate 65537 0)
        (deepProbe 65537 1).newCache = .ok ((List.range' 0 65537).map fun _ => [-32768]) :=
  ⟨probe_validate (by decide) (by decide) (by decide) deepProbe_valid,
    deepProbe_logits scalarChoice (by decide) (by decide) (by decide)⟩

end Dyadic

end ArcChain
