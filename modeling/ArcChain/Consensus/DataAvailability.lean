/-
Erasure coding of block data and the commitments to it
(`arc-consensus/src/data_availability.rs`).

The data is cut into `k` equally long chunks, and parity chunk `j` of `p`
is the exclusive-or of the data chunks `i` with `i % p = j`.  So the code
consists of `p` independent groups, each of which survives the loss of one
of its chunks and no more: `decode_eq_ok_iff` says exactly what the
decoder recovers.  A commitment is checked against a chunk's own hash only.
-/
import ArcChain.Lib.Merkle
import ArcChain.Lib.XorParity
import ArcChain.Crypto.Concrete

namespace ArcChain

open XorParity List

structure DataChunk where
  index : Nat
  data : List UInt8
  proof : Hash256
deriving DecidableEq, Repr

structure ErasureEncoding where
  originalSize : Nat
  chunkCount : Nat
  dataChunks : Nat
  parityChunks : Nat
  chunks : List DataChunk
  root : Hash256
deriving DecidableEq, Repr

/-! ## Encoding -/

/-- The chunk size: the data over `k` chunks, rounded up, and at least one byte. -/
def chunkSize (originalSize k : Nat) : Nat :=
  if originalSize = 0 then 1 else (originalSize + k - 1) / k

/-- Chunk `i` of the data, padded with zeros. -/
def rawChunk (data : List UInt8) (size i : Nat) : List UInt8 :=
  let start := i * size
  let stop := min (start + size) data.length
  let chunk := if start < data.length then (data.drop start).take (stop - start) else []
  chunk ++ List.replicate (size - chunk.length) 0

/-- The parity chunks: each data chunk is added to the parity of its group. -/
def parityData (data : List UInt8) (k p size : Nat) : List (List UInt8) :=
  (List.range k).foldl
    (fun parity i => parity.modify (i % p) fun acc => xorOnto acc (rawChunk data size i))
    (List.replicate p (List.replicate size 0))

/-- The data chunks, then the parity chunks. -/
def codeword (data : List UInt8) (k p : Nat) : List (List UInt8) :=
  let size := chunkSize data.length k
  (List.range k).map (rawChunk data size) ++ parityData data k p size

section Encode

variable [Crypto]

/-- `DataChunk::new`, its index cast to 16 bits. -/
def DataChunk.new (index : Nat) (data : List UInt8) : DataChunk :=
  { index := index % 2 ^ 16, data, proof := hashBytes data }

def DataChunk.verifyIntegrity (chunk : DataChunk) : Bool := hashBytes chunk.data = chunk.proof

/-- What `encode_block_data` returns once its assertions hold. -/
def encodeChunks (data : List UInt8) (k p : Nat) : ErasureEncoding :=
  let chunks := (codeword data k p).zipIdx.map fun e => DataChunk.new e.2 e.1
  { originalSize := data.length
    chunkCount := (k + p) % 2 ^ 16
    dataChunks := k
    parityChunks := p
    chunks
    root := Merkle.root hashPair .zero (chunks.map DataChunk.proof) }

/-- `encode_block_data`; without data or parity chunks it panics. -/
def encodeBlockData (data : List UInt8) (dataChunks parityChunks : Nat) : Option ErasureEncoding :=
  if dataChunks = 0 ∨ parityChunks = 0 then none
  else some (encodeChunks data dataChunks parityChunks)

end Encode

/-! ## Decoding -/

/-- The chunks at hand, by index. -/
structure ChunkSlots where
  data : List (Option (List UInt8))
  parity : List (Option (List UInt8))

/-- File a chunk under its index; corrupted chunks are skipped. -/
def placeChunk [Crypto] (k p : Nat) (slots : ChunkSlots) (chunk : DataChunk) : ChunkSlots :=
  if chunk.verifyIntegrity = false then slots
  else if chunk.index < k then { slots with data := slots.data.set chunk.index (some chunk.data) }
  else if chunk.index < k + p then
    { slots with parity := slots.parity.set (chunk.index - k) (some chunk.data) }
  else slots

/-- The parity of a group with the group's other chunks added. -/
def reconstruct (data : List (Option (List UInt8))) (group : List Nat) (missing : Nat)
    (parity : List UInt8) : List UInt8 :=
  group.foldl
    (fun acc i =>
      if i ≠ missing then
        match data[i]? with
        | some (some chunk) => xorOnto acc chunk
        | _ => acc
      else acc) parity

/-- The attempt to recover the missing chunk of group `j`: the data slots, and whether a chunk
    has been recovered in this pass. -/
def recoverGroup (k p : Nat) (parity : List (Option (List UInt8)))
    (state : List (Option (List UInt8)) × Bool) (j : Nat) : List (Option (List UInt8)) × Bool :=
  match parity[j]? with
  | some (some parityData) =>
    match (groupIndices k p j).filter fun i => state.1[i]? = some none with
    | [m] => (state.1.set m (some (reconstruct state.1 (groupIndices k p j) m parityData)), true)
    | _ => state
  | _ => state

/-- One pass of the recovery loop. -/
def recoverPass (k p : Nat) (parity data : List (Option (List UInt8))) :
    List (Option (List UInt8)) × Bool :=
  (List.range p).foldl (recoverGroup k p parity) (data, false)

/-- An attempt that recovers a chunk leaves fewer empty slots. -/
theorem count_recoverGroup (k p : Nat) (parity : List (Option (List UInt8)))
    (state : List (Option (List UInt8)) × Bool) (j : Nat) :
    recoverGroup k p parity state j = state ∨
      (recoverGroup k p parity state j).1.count none < state.1.count none := by
  unfold recoverGroup
  split
  · split
    · rename_i m hm
      have hmem : m ∈ (groupIndices k p j).filter fun i => state.1[i]? = some none := by
        rw [hm]
        exact mem_singleton_self m
      have hnone : state.1[m]? = some none := by simpa using (mem_filter.mp hmem).2
      obtain ⟨hlt, hget⟩ := List.getElem?_eq_some_iff.mp hnone
      have hpos : 0 < state.1.count none := count_pos_iff.mpr (mem_of_getElem? hnone)
      rw [count_set hlt, hget, if_pos (beq_self_eq_true _), if_neg (by simp)]
      omega
    · exact .inl rfl
  · exact .inl rfl

theorem count_recoverPass (k p : Nat) (parity data : List (Option (List UInt8)))
    (h : (recoverPass k p parity data).2 = true) :
    (recoverPass k p parity data).1.count none < data.count none := by
  have hfold : ∀ (groups : List Nat) state, groups.foldl (recoverGroup k p parity) state = state ∨
        (groups.foldl (recoverGroup k p parity) state).1.count none < state.1.count none := by
    intro groups
    induction groups with
    | nil => exact fun _ => .inl rfl
    | cons j groups ih =>
      intro state
      rw [foldl_cons]
      rcases count_recoverGroup k p parity state j with hsame | hless
      · rw [hsame]
        exact ih state
      · rcases ih (recoverGroup k p parity state j) with hsame | hless'
        · rw [hsame]
          exact .inr hless
        · exact .inr (hless'.trans hless)
  rcases hfold (List.range p) (data, false) with hsame | hless
  · rw [recoverPass, hsame] at h
    cases h
  · exact hless

/-- The recovery loop: passes until one recovers nothing or all chunks are there. -/
def recoverLoop (k p : Nat) (parity data : List (Option (List UInt8))) :
    List (Option (List UInt8)) :=
  if (recoverPass k p parity data).1.all Option.isSome then (recoverPass k p parity data).1
  else if _h : (recoverPass k p parity data).2 = true then
    recoverLoop k p parity (recoverPass k p parity data).1
  else (recoverPass k p parity data).1
termination_by data.count none
decreasing_by exact count_recoverPass k p parity data _h

/-- The concatenation on the fast path, which checks every slot once more. -/
def joinSlots (available : Nat) : Nat → List (Option (List UInt8)) → Except String (List UInt8)
  | _, [] => .ok []
  | i, some chunk :: rest => (joinSlots available (i + 1) rest).map (chunk ++ ·)
  | i, none :: _ => .error s!"data slot {i} unexpectedly None despite count={available}"

/-- The data from the slots, if they suffice. -/
def decodeSlots (k p originalSize : Nat) (slots : ChunkSlots) : Except String (List UInt8) :=
  let availableData := slots.data.countP Option.isSome
  let availableParity := slots.parity.countP Option.isSome
  if availableData + availableParity < k then
    .error (s!"insufficient chunks: need at least {k} but only have {availableData} data + " ++
      s!"{availableParity} parity")
  else if availableData = k then
    (joinSlots availableData 0 slots.data).map (·.take originalSize)
  else
    let data := recoverLoop k p slots.parity slots.data
    if data.all Option.isSome then .ok ((data.flatMap (·.getD [])).take originalSize)
    else .error "could not reconstruct all data chunks from available parity"

def decodeBlockData [Crypto] (encoding : ErasureEncoding) : Except String (List UInt8) :=
  let k := encoding.dataChunks
  let p := encoding.parityChunks
  if encoding.chunks = [] then .error "no chunks available"
  else decodeSlots k p encoding.originalSize (encoding.chunks.foldl (placeChunk k p)
    ⟨List.replicate k none, List.replicate p none⟩)

/-! ## The codeword -/

section Codeword

variable (data : List UInt8) {k p : Nat}

/-- The chunks of the data, one after the other. -/
theorem flatMap_range_take_drop {α : Type} (l : List α) (size k : Nat) :
    (List.range k).flatMap (fun i => (l.drop (i * size)).take size) = l.take (k * size) := by
  induction k with
  | zero => simp
  | succ k ih =>
    rw [range_succ, flatMap_append, ih, flatMap_singleton, Nat.succ_mul, take_add]

/-- A padded chunk is a chunk of the padded data. -/
theorem rawChunk_eq {size i n : Nat} (h : (i + 1) * size ≤ data.length + n) :
    rawChunk data size i = ((data ++ List.replicate n 0).drop (i * size)).take size := by
  have hslice : (if i * size < data.length then
      (data.drop (i * size)).take (min (i * size + size) data.length - i * size) else []) =
        (data.drop (i * size)).take size := by
    split
    · rw [take_eq_take_iff, length_drop]
      omega
    · rw [drop_of_length_le (by omega), take_nil]
  rw [Nat.succ_mul] at h
  simp only [rawChunk, hslice]
  rw [drop_append, take_append, drop_replicate, take_replicate]
  congr 2
  rw [length_take, length_drop]
  omega

theorem length_rawChunk (size i : Nat) : (rawChunk data size i).length = size := by
  simp only [rawChunk]
  split
  · simp only [length_append, length_take, length_replicate]
    omega
  · simp

/-- The chunk size covers the data. -/
theorem le_mul_chunkSize (hk : 0 < k) : data.length ≤ k * chunkSize data.length k := by
  unfold chunkSize
  split
  · omega
  · have hdiv := Nat.div_add_mod (data.length + k - 1) k
    have hmod := Nat.mod_lt (data.length + k - 1) hk
    omega

/-- The data chunks together are the data and its padding. -/
theorem take_flatMap_rawChunk (hk : 0 < k) :
    ((List.range k).flatMap (rawChunk data (chunkSize data.length k))).take data.length = data := by
  have hcover := le_mul_chunkSize data hk
  generalize chunkSize data.length k = size at hcover
  have hchunks : (List.range k).flatMap (rawChunk data size) = (List.range k).flatMap fun i =>
      ((data ++ List.replicate (k * size - data.length) 0).drop (i * size)).take size := by
    refine flatMap_congr fun i hi => rawChunk_eq data ?_
    have hle : (i + 1) * size ≤ k * size := Nat.mul_le_mul_right size (mem_range.mp hi)
    omega
  rw [hchunks, flatMap_range_take_drop, take_take, min_eq_left hcover,
    take_append_of_le_length (le_refl _), take_length]

/-- The parity of group `j`. -/
def parityRow (data : List UInt8) (k p size j : Nat) : List UInt8 :=
  ((groupIndices k p j).map (rawChunk data size)).foldl xorOnto (List.replicate size 0)

theorem getElem?_parityData (size j : Nat) :
    (parityData data k p size)[j]? = if j < p then some (parityRow data k p size j) else none := by
  have hfold : ∀ (rows : List Nat) (parity : List (List UInt8)),
      (rows.foldl (fun parity i => parity.modify (i % p) fun acc =>
        xorOnto acc (rawChunk data size i)) parity)[j]? =
        parity[j]?.map fun acc =>
          ((rows.filter fun i => i % p = j).map (rawChunk data size)).foldl xorOnto acc := by
    intro rows
    induction rows with
    | nil => simp
    | cons i rows ih =>
      intro parity
      rw [foldl_cons, ih]
      by_cases hij : i % p = j
      · simp [hij, Function.comp_def]
      · simp [hij]
  rw [parityData, hfold, List.getElem?_replicate]
  split <;> rfl

/-- Chunk `i` of the codeword. -/
def codeRow (data : List UInt8) (k p i : Nat) : List UInt8 :=
  if i < k then rawChunk data (chunkSize data.length k) i
  else parityRow data k p (chunkSize data.length k) (i - k)

theorem getElem?_codeword (i : Nat) :
    (codeword data k p)[i]? = if i < k + p then some (codeRow data k p i) else none := by
  unfold codeword codeRow
  by_cases hi : i < k
  · rw [List.getElem?_append_left (by simpa using hi), if_pos (by omega)]
    simp [hi]
  rw [List.getElem?_append_right (by simpa using hi), length_map, length_range,
    getElem?_parityData, if_neg hi]
  by_cases hp : i - k < p
  · rw [if_pos hp, if_pos (by omega)]
  · rw [if_neg hp, if_neg (by omega)]

variable [Crypto]

theorem verifyIntegrity_new (i : Nat) (row : List UInt8) :
    (DataChunk.new i row).verifyIntegrity = true := decide_eq_true rfl

/-- The chunks of an encoding are those of the codeword, numbered. -/
theorem getElem?_encodeChunks (i : Nat) : (encodeChunks data k p).chunks[i]? =
      if i < k + p then some (DataChunk.new i (codeRow data k p i)) else none := by
  simp only [encodeChunks, List.getElem?_map, List.getElem?_zipIdx, getElem?_codeword, zero_add]
  split <;> rfl

theorem mem_encodeChunks {c : DataChunk} :
    c ∈ (encodeChunks data k p).chunks ↔ ∃ i < k + p, c = DataChunk.new i (codeRow data k p i) := by
  rw [mem_iff_getElem?]
  constructor
  · rintro ⟨i, hi⟩
    rw [getElem?_encodeChunks] at hi
    split at hi
    · rename_i hlt
      exact ⟨i, hlt, (Option.some.inj hi).symm⟩
    · cases hi
  · rintro ⟨i, hi, rfl⟩
    exact ⟨i, by rw [getElem?_encodeChunks, if_pos hi]⟩

end Codeword

/-! ## What the decoder has at hand -/

section Slots

variable {n : Nat} {row : Nat → List UInt8} {present : Finset Nat}

/-- The slots of `n` rows of which some are present. -/
def slotsOf (n : Nat) (row : Nat → List UInt8) (present : Finset Nat) : List (Option (List UInt8)) :=
  (List.range n).map fun i => if i ∈ present then some (row i) else none

theorem getElem?_slotsOf (i : Nat) : (slotsOf n row present)[i]? =
      if i < n then some (if i ∈ present then some (row i) else none) else none := by
  rw [slotsOf]
  by_cases hi : i < n <;> simp [hi]

theorem slotsOf_empty : slotsOf n row ∅ = List.replicate n none := by
  simp [slotsOf]

theorem set_slotsOf (m : Nat) :
    (slotsOf n row present).set m (some (row m)) = slotsOf n row (insert m present) := by
  refine ext_getElem? fun i => ?_
  rw [List.getElem?_set, getElem?_slotsOf, getElem?_slotsOf]
  by_cases hi : m = i
  · subst hi
    simp [slotsOf]
  · simp [hi, Ne.symm hi]

theorem all_slotsOf : (slotsOf n row present).all Option.isSome = true ↔ ∀ i < n, i ∈ present := by
  simp [slotsOf]

theorem countP_slotsOf (h : present ⊆ Finset.range n) :
    (slotsOf n row present).countP Option.isSome = present.card := by
  have hcount : (slotsOf n row present).countP Option.isSome =
      ((List.range n).filter fun i => i ∈ present).length := by
    rw [slotsOf, countP_map, countP_eq_length_filter]
    congr 1
    refine filter_congr fun i _ => ?_
    by_cases hi : i ∈ present <;> simp [hi]
  have hset : ((List.range n).filter fun i => i ∈ present).toFinset = present := by
    ext i
    simp only [mem_toFinset, mem_filter, mem_range, decide_eq_true_eq]
    exact ⟨fun hi => hi.2, fun hi => ⟨Finset.mem_range.mp (h hi), hi⟩⟩
  rw [hcount, ← hset, toFinset_card_of_nodup (nodup_range.filter _), hset]

theorem slotsOf_full (h : ∀ i < n, i ∈ present) :
    slotsOf n row present = ((List.range n).map row).map some := by
  rw [map_map]
  exact map_congr_left fun i hi => if_pos (h i (mem_range.mp hi))

theorem joinSlots_eq (available i : Nat) (rows : List (List UInt8)) :
    joinSlots available i (rows.map some) = .ok rows.flatten := by
  induction rows generalizing i with
  | nil => rfl
  | cons r rows ih => rw [map_cons, joinSlots, ih]; rfl

end Slots

section Recovery

variable {data : List UInt8} {k p : Nat} {parities present : Finset Nat}

/-- The other chunks of the group are there, so the sum leaves the missing one. -/
theorem reconstruct_slotsOf {size j m : Nat} (hm : missing k p present j = [m]) :
    reconstruct (slotsOf k (rawChunk data size) present) (groupIndices k p j) m
      (parityRow data k p size j) = rawChunk data size m := by
  have hmem : m ∈ missing k p present j := by rw [hm]; exact mem_singleton_self m
  have hgroup : m ∈ groupIndices k p j := (mem_filter.mp hmem).1
  have hothers : reconstruct (slotsOf k (rawChunk data size) present) (groupIndices k p j) m
      (parityRow data k p size j) = (groupIndices k p j).foldl (fun acc i =>
        if i ≠ m then xorOnto acc (rawChunk data size i) else acc) (parityRow data k p size j) := by
    refine foldl_ext _ _ _ fun acc i hi => ?_
    by_cases him : i = m
    · simp [him]
    have hpresent : i ∈ present := by
      by_contra habsent
      have hi' : i ∈ missing k p present j := mem_missing.mpr ⟨mem_groupIndices.mp hi, habsent⟩
      rw [hm] at hi'
      exact him (mem_singleton.mp hi')
    simp [getElem?_slotsOf, (mem_groupIndices.mp hi).1, hpresent]
  rw [hothers, parityRow, foldl_skip_parity _ _ _ (nodup_groupIndices j), if_pos hgroup]
  have hzeros := xorOnto_zeros (rawChunk data size m)
  rwa [length_rawChunk] at hzeros

/-- The attempt on a group, on slots that hold chunks of the codeword. -/
theorem recoverGroup_slotsOf (data : List UInt8) (k p size : Nat) (parities present : Finset Nat)
    (flag : Bool) {j : Nat} (hj : j < p) :
    (recoverGroup k p (slotsOf p (parityRow data k p size) parities)
        (slotsOf k (rawChunk data size) present, flag) j).1 =
      slotsOf k (rawChunk data size) (recoverOne k p parities present j) := by
  have hmissing : (groupIndices k p j).filter (fun i =>
      (slotsOf k (rawChunk data size) present)[i]? = some none) = missing k p present j := by
    refine filter_congr fun i hi => ?_
    rw [getElem?_slotsOf, if_pos (mem_groupIndices.mp hi).1]
    by_cases hpresent : i ∈ present <;> simp [hpresent]
  have hread : (slotsOf p (parityRow data k p size) parities)[j]? =
      some (if j ∈ parities then some (parityRow data k p size j) else none) := by
    rw [getElem?_slotsOf, if_pos hj]
  unfold recoverGroup recoverOne
  rw [hread]
  by_cases hparity : j ∈ parities
  · simp only [hparity, if_true, hmissing]
    rcases hm : missing k p present j with _ | ⟨m, _ | ⟨m', rest⟩⟩
    · rfl
    · dsimp only
      rw [reconstruct_slotsOf hm, set_slotsOf]
    · rfl
  · simp [hparity]

theorem recoverPass_slotsOf (data : List UInt8) (k p size : Nat) (parities present : Finset Nat) :
    (recoverPass k p (slotsOf p (parityRow data k p size) parities)
        (slotsOf k (rawChunk data size) present)).1 =
      slotsOf k (rawChunk data size) (recoverAll k p parities present) := by
  have hfold : ∀ (groups : List Nat) (present : Finset Nat) (flag : Bool), (∀ j ∈ groups, j < p) →
      (groups.foldl (recoverGroup k p (slotsOf p (parityRow data k p size) parities))
        (slotsOf k (rawChunk data size) present, flag)).1 =
          slotsOf k (rawChunk data size) (groups.foldl (recoverOne k p parities) present) := by
    intro groups
    induction groups with
    | nil => exact fun _ _ _ => rfl
    | cons j groups ih =>
      intro present flag hgroups
      have hstep := recoverGroup_slotsOf data k p size parities present flag
        (hgroups j mem_cons_self)
      rw [foldl_cons, ← Prod.mk.eta (p := recoverGroup k p _ _ j), hstep]
      exact ih _ _ fun j' hj' => hgroups j' (mem_cons_of_mem _ hj')
  exact hfold (List.range p) present false fun j hj => mem_range.mp hj

/-- The loop ends with every chunk exactly if what is missing is recoverable. -/
theorem recoverLoop_slotsOf (data : List UInt8) {k p : Nat} (size : Nat) (hp : 0 < p)
    (parities present : Finset Nat) :
    ∃ present', recoverLoop k p (slotsOf p (parityRow data k p size) parities)
        (slotsOf k (rawChunk data size) present) = slotsOf k (rawChunk data size) present' ∧
      ((∀ i < k, i ∈ present') ↔ Recoverable k p parities present) := by
  generalize hslots : slotsOf k (rawChunk data size) present = slots
  induction hn : slots.count none using Nat.strong_induction_on generalizing present slots with
  | _ n ih =>
    subst hslots
    have hpass := recoverPass_slotsOf data k p size parities present
    rw [recoverLoop]
    split
    · rename_i hall
      rw [hpass, all_slotsOf] at hall
      exact ⟨_, hpass, ⟨fun hfull => recoverable_of_recoverAll hp (recoverable_of_full hfull),
        fun _ => hall⟩⟩
    · rename_i hall
      rw [hpass, all_slotsOf] at hall
      split
      · rename_i hflag
        obtain ⟨present', hloop, hiff⟩ := ih _ (hn ▸ count_recoverPass k p _ _ hflag)
          (recoverAll k p parities present) _ hpass.symm rfl
        refine ⟨present', hloop, hiff.trans ⟨recoverable_of_recoverAll hp, fun h => ?_⟩⟩
        exact recoverable_of_full fun i hi => h.mem_recoverAll hp hi
      · exact ⟨_, hpass, ⟨fun hfull => absurd hfull hall,
          fun h => absurd (fun i hi => h.mem_recoverAll hp hi) hall⟩⟩

/-- What comes out of slots that hold chunks of the codeword. -/
theorem decodeSlots_slotsOf (data : List UInt8) (hk : 0 < k) (hp : 0 < p)
    (hpresent : present ⊆ Finset.range k) (hparities : parities ⊆ Finset.range p) :
    (Recoverable k p parities present → decodeSlots k p data.length
      ⟨slotsOf k (rawChunk data (chunkSize data.length k)) present,
        slotsOf p (parityRow data k p (chunkSize data.length k)) parities⟩ = .ok data) ∧
    (¬ Recoverable k p parities present → ∃ e, decodeSlots k p data.length
      ⟨slotsOf k (rawChunk data (chunkSize data.length k)) present,
        slotsOf p (parityRow data k p (chunkSize data.length k)) parities⟩ = .error e) := by
  have hrows := take_flatMap_rawChunk data hk
  unfold decodeSlots
  simp only [countP_slotsOf hpresent, countP_slotsOf hparities]
  by_cases hfew : present.card + parities.card < k
  · rw [if_pos hfew]
    refine ⟨fun h => ?_, fun _ => ⟨_, rfl⟩⟩
    have hle := h.card_le hpresent
    omega
  · rw [if_neg hfew]
    by_cases hfast : present.card = k
    · have heq : present = Finset.range k :=
        Finset.eq_of_subset_of_card_le hpresent (by rw [Finset.card_range, hfast])
      have hfull : ∀ i < k, i ∈ present := fun i hi => heq ▸ Finset.mem_range.mpr hi
      rw [if_pos hfast, slotsOf_full hfull, joinSlots_eq]
      exact ⟨fun _ => congrArg Except.ok hrows, fun h => absurd (recoverable_of_full hfull) h⟩
    · rw [if_neg hfast]
      obtain ⟨present', hloop, hall⟩ := recoverLoop_slotsOf data (k := k)
        (chunkSize data.length k) hp parities present
      rw [hloop]
      constructor
      · intro h
        have hfull := hall.mpr h
        rw [if_pos (all_slotsOf.mpr hfull), slotsOf_full hfull, flatMap_map, flatMap_map]
        exact congrArg Except.ok hrows
      · intro h
        rw [if_neg fun hsome => h (hall.mp (all_slotsOf.mp hsome))]
        exact ⟨_, rfl⟩

end Recovery

/-! ## What decodes -/

section Decode

variable [Crypto] {data : List UInt8} {k p : Nat} {received : List DataChunk}

/-- An intact chunk with the index has been received. -/
def HasIntact (received : List DataChunk) (i : Nat) : Prop :=
  ∃ c ∈ received, c.verifyIntegrity = true ∧ c.index = i

instance (received : List DataChunk) (i : Nat) : Decidable (HasIntact received i) :=
  inferInstanceAs (Decidable (∃ _ ∈ _, _))

/-- The data chunks of group `j` that have not been received intact. -/
def missingData (k p : Nat) (received : List DataChunk) (j : Nat) : List Nat :=
  (List.range k).filter fun i => i % p = j ∧ ¬ HasIntact received i

/-- In every residue class at most one data chunk is missing, and then the parity chunk of the
    class is there. -/
def ClassesRecoverable (k p : Nat) (received : List DataChunk) : Prop :=
  ∀ j < p, (missingData k p received j).length ≤ 1 ∧
    (missingData k p received j ≠ [] → HasIntact received (k + j))

instance (k p : Nat) (received : List DataChunk) : Decidable (ClassesRecoverable k p received) :=
  inferInstanceAs (Decidable (∀ _ < _, _))

/-- The chunks come from the encoding, corrupted ones apart. -/
def FromEncoding (data : List UInt8) (k p : Nat) (received : List DataChunk) : Prop :=
  ∀ c ∈ received, c ∈ (encodeChunks data k p).chunks ∨ c.verifyIntegrity = false

/-- The indices `i < n` for which chunk `base + i` is held. -/
def heldFrom (received : List DataChunk) (base n : Nat) : Finset Nat :=
  (Finset.range n).filter fun i => HasIntact received (base + i)

theorem held_snoc {c : DataChunk} {i : Nat} : HasIntact (received ++ [c]) i ↔
      HasIntact received i ∨ (c.verifyIntegrity = true ∧ c.index = i) := by
  simp only [HasIntact, mem_append, mem_singleton, or_and_right, exists_or, exists_eq_left]

/-- The slots after filing the chunks. -/
theorem foldl_placeChunk (hkp : k + p ≤ 65535) (h : FromEncoding data k p received) :
    received.foldl (placeChunk k p) ⟨List.replicate k none, List.replicate p none⟩ =
      ⟨slotsOf k (rawChunk data (chunkSize data.length k)) (heldFrom received 0 k),
        slotsOf p (parityRow data k p (chunkSize data.length k)) (heldFrom received k p)⟩ := by
  induction received using List.reverseRecOn with
  | nil =>
    have hnone : ∀ base n, heldFrom [] base n = ∅ := by
      simp [heldFrom, HasIntact]
    rw [hnone, hnone, slotsOf_empty, slotsOf_empty]
    rfl
  | append_singleton received c ih =>
    have hheld : ∀ base n, heldFrom (received ++ [c]) base n =
        if c.verifyIntegrity = true ∧ base ≤ c.index ∧ c.index < base + n then
          insert (c.index - base) (heldFrom received base n)
        else heldFrom received base n := by
      intro base n
      ext i
      split
      · rename_i hin
        simp only [heldFrom, held_snoc, Finset.mem_filter, Finset.mem_range, Finset.mem_insert]
        constructor
        · rintro ⟨hi, hold | ⟨-, hnew⟩⟩
          · exact .inr ⟨hi, hold⟩
          · exact .inl (by omega)
        · rintro (rfl | ⟨hi, hold⟩)
          · exact ⟨by omega, .inr ⟨hin.1, by omega⟩⟩
          · exact ⟨hi, .inl hold⟩
      · rename_i hout
        simp only [heldFrom, held_snoc, Finset.mem_filter, Finset.mem_range]
        refine and_congr_right fun hi => or_iff_left ?_
        rintro ⟨hintact, hindex⟩
        exact hout ⟨hintact, by omega, by omega⟩
    rw [foldl_append, ih fun c' hc' => h c' (mem_append_left _ hc'), hheld, hheld]
    rcases h c (by simp) with hmem | hcorrupt
    · -- an intact chunk goes to its own slot
      obtain ⟨i, hi, rfl⟩ := (mem_encodeChunks data).mp hmem
      have hindex : (DataChunk.new i (codeRow data k p i)).index = i := Nat.mod_eq_of_lt (by omega)
      have hdata : (DataChunk.new i (codeRow data k p i)).data = codeRow data k p i := rfl
      simp only [foldl_cons, foldl_nil, placeChunk, verifyIntegrity_new, hindex, hdata,
        Bool.true_eq_false, true_and, zero_le, zero_add, Nat.sub_zero, hi,
        and_true]
      by_cases hik : i < k
      · have hrow : codeRow data k p i = rawChunk data (chunkSize data.length k) i := if_pos hik
        simp only [hik, if_true, hrow, set_slotsOf, not_le.mpr hik, if_false]
      · have hrow : codeRow data k p i =
            parityRow data k p (chunkSize data.length k) (i - k) := if_neg hik
        simp only [hik, if_false, hrow, set_slotsOf, not_lt.mp hik, if_true]
    · simp [placeChunk, hcorrupt]

theorem missing_heldFrom (j : Nat) :
    missing k p (heldFrom received 0 k) j = missingData k p received j := by
  rw [missing, groupIndices, filter_filter]
  refine filter_congr fun i hi => ?_
  simp [heldFrom, mem_range.mp hi, and_comm]

theorem recoverable_heldFrom (hp : 0 < p) :
    Recoverable k p (heldFrom received k p) (heldFrom received 0 k) ↔
      ClassesRecoverable k p received := by
  have hmem : ∀ i < k, i ∉ heldFrom received 0 k → i ∈ missingData k p received (i % p) := by
    intro i hi hmissing
    rw [← missing_heldFrom]
    exact mem_missing.mpr ⟨⟨hi, rfl⟩, hmissing⟩
  constructor
  · intro h j hj
    cases hm : missingData k p received j with
    | nil => exact ⟨Nat.zero_le 1, fun hne => absurd rfl hne⟩
    | cons i rest =>
      have hi : i ∈ missing k p (heldFrom received 0 k) j := by
        rw [missing_heldFrom, hm]
        exact mem_cons_self
      obtain ⟨⟨hik, hij⟩, habsent⟩ := mem_missing.mp hi
      obtain ⟨hparity, honly⟩ := h i hik habsent
      rw [hij] at hparity honly
      rw [missing_heldFrom, hm] at honly
      rw [honly]
      exact ⟨le_refl 1, fun _ => (Finset.mem_filter.mp hparity).2⟩
  · intro h i hi habsent
    have hlt := Nat.mod_lt i hp
    obtain ⟨hone, hparity⟩ := h (i % p) hlt
    have hmissing := hmem i hi habsent
    refine ⟨Finset.mem_filter.mpr ⟨Finset.mem_range.mpr hlt, hparity (ne_nil_of_mem hmissing)⟩, ?_⟩
    rw [missing_heldFrom]
    obtain ⟨x, hx⟩ := length_eq_one_iff.mp (le_antisymm hone (length_pos_of_mem hmissing))
    rw [hx] at hmissing ⊢
    rw [mem_singleton.mp hmissing]

/-- **What the decoder returns.**  On chunks of one encoding, in any order, repeated and with
    corrupted ones among them, the decoder returns the data if the classes are recoverable, and an
    error if they are not. -/
theorem decode_received (hk : 0 < k) (hp : 0 < p) (hkp : k + p ≤ 65535)
    (h : FromEncoding data k p received) :
    (ClassesRecoverable k p received →
      decodeBlockData { encodeChunks data k p with chunks := received } = .ok data) ∧
    (¬ ClassesRecoverable k p received →
      ∃ e, decodeBlockData { encodeChunks data k p with chunks := received } = .error e) := by
  have hdata : heldFrom received 0 k ⊆ Finset.range k := Finset.filter_subset _ _
  have hparity : heldFrom received k p ⊆ Finset.range p := Finset.filter_subset _ _
  have hslots := decodeSlots_slotsOf data hk hp hdata hparity
  rw [recoverable_heldFrom hp, ← foldl_placeChunk hkp h] at hslots
  by_cases hempty : received = []
  · -- with nothing at hand, the first class misses a chunk and its parity
    subst hempty
    refine ⟨fun hclasses => ?_, fun _ => ⟨_, rfl⟩⟩
    have hmissing : 0 ∈ missingData k p [] 0 := by simp [missingData, HasIntact, hk]
    obtain ⟨c, hc, -⟩ := (hclasses 0 hp).2 (ne_nil_of_mem hmissing)
    cases hc
  · have hdecode : decodeBlockData { encodeChunks data k p with chunks := received } =
        decodeSlots k p data.length (received.foldl (placeChunk k p)
          ⟨List.replicate k none, List.replicate p none⟩) := if_neg hempty
    rwa [hdecode]

/-- What is held comes from that many different intact chunks. -/
theorem card_heldFrom_le : (heldFrom received 0 k).card + (heldFrom received k p).card ≤
      (received.filter DataChunk.verifyIntegrity).dedup.length := by
  have hinj : Function.Injective fun j => k + j := fun _ _ h => Nat.add_left_cancel h
  have hdisjoint : Disjoint (heldFrom received 0 k) ((heldFrom received k p).image (k + ·)) := by
    refine Finset.disjoint_left.mpr fun i hi hi' => ?_
    obtain ⟨j, -, rfl⟩ := Finset.mem_image.mp hi'
    have hlt := Finset.mem_range.mp (Finset.mem_filter.mp hi).1
    omega
  have hindices : ∀ {i}, HasIntact received i →
      i ∈ ((received.filter DataChunk.verifyIntegrity).dedup.map DataChunk.index).toFinset := by
    rintro i ⟨c, hc, hintact, rfl⟩
    exact mem_toFinset.mpr (mem_map_of_mem (mem_dedup.mpr (mem_filter.mpr ⟨hc, hintact⟩)))
  calc (heldFrom received 0 k).card + (heldFrom received k p).card
      = (heldFrom received 0 k ∪ (heldFrom received k p).image (k + ·)).card := by
        rw [Finset.card_union_of_disjoint hdisjoint, Finset.card_image_of_injective _ hinj]
    _ ≤ ((received.filter DataChunk.verifyIntegrity).dedup.map DataChunk.index).toFinset.card := by
        refine Finset.card_le_card fun i hi => hindices ?_
        rcases Finset.mem_union.mp hi with hi | hi
        · have hheld := (Finset.mem_filter.mp hi).2
          rwa [zero_add] at hheld
        · obtain ⟨j, hj, rfl⟩ := Finset.mem_image.mp hi
          exact (Finset.mem_filter.mp hj).2
    _ ≤ (received.filter DataChunk.verifyIntegrity).dedup.length := by
        refine (toFinset_card_le _).trans ?_
        rw [length_map]

theorem encodeBlockData_eq_some {encoding : ErasureEncoding}
    (h : encodeBlockData data k p = some encoding) : encodeChunks data k p = encoding := by
  unfold encodeBlockData at h
  split at h
  · cases h
  · exact Option.some.inj h

/-- **Decoding is sound, and its success set is exact.**  On chunks of one encoding, in any order,
    repeated and with corrupted ones among them, decoding returns nothing but the data, and it
    returns exactly when at least `k` different intact chunks are there and every residue class
    misses at most one data chunk, whose parity chunk is there. -/
theorem decode_sound_and_exact (hk : 0 < k) (hp : 0 < p) (hkp : k + p ≤ 65535)
    {encoding : ErasureEncoding} (hencode : encodeBlockData data k p = some encoding)
    (hreceived : ∀ c ∈ received, c ∈ encoding.chunks ∨ c.verifyIntegrity = false) :
    (∀ out, decodeBlockData { encoding with chunks := received } = .ok out → out = data) ∧
    ((∃ out, decodeBlockData { encoding with chunks := received } = .ok out) ↔
      k ≤ (received.filter DataChunk.verifyIntegrity).dedup.length ∧
        ClassesRecoverable k p received) := by
  obtain rfl := encodeBlockData_eq_some hencode
  obtain ⟨hok, herror⟩ := decode_received hk hp hkp hreceived
  by_cases hclasses : ClassesRecoverable k p received
  · have hcount : k ≤ (heldFrom received 0 k).card + (heldFrom received k p).card :=
      ((recoverable_heldFrom hp).mpr hclasses).card_le (Finset.filter_subset _ _)
    rw [hok hclasses]
    exact ⟨fun out hout => (Except.ok.inj hout).symm,
      fun _ => ⟨hcount.trans card_heldFrom_le, hclasses⟩, fun _ => ⟨data, rfl⟩⟩
  · obtain ⟨e, he⟩ := herror hclasses
    rw [he]
    exact ⟨nofun, nofun, fun h => absurd h.2 hclasses⟩

/-- `n` of the chunks of an encoding, in any order. -/
def Keeps (encoding : ErasureEncoding) (n : Nat) (kept : List DataChunk) : Prop :=
  kept.length = n ∧ kept.Nodup ∧ ∀ c ∈ kept, c ∈ encoding.chunks

instance (encoding : ErasureEncoding) (n : Nat) (kept : List DataChunk) :
    Decidable (Keeps encoding n kept) := inferInstanceAs (Decidable (_ ∧ _ ∧ _))

/-- **When `k` chunks give the data back**: not for any `k` of them, but when they miss at most
    one data chunk of every residue class, and hold the parity chunk of each class with a gap. -/
theorem decode_kept_iff (hk : 0 < k) (hp : 0 < p) (hkp : k + p ≤ 65535)
    {encoding : ErasureEncoding} (hencode : encodeBlockData data k p = some encoding)
    {kept : List DataChunk} (hkept : Keeps encoding k kept) :
    decodeBlockData { encoding with chunks := kept } = .ok data ↔ ClassesRecoverable k p kept := by
  obtain rfl := encodeBlockData_eq_some hencode
  obtain ⟨hok, herror⟩ := decode_received hk hp hkp fun c hc => .inl (hkept.2.2 c hc)
  refine ⟨fun hdecode => ?_, hok⟩
  by_contra hclasses
  obtain ⟨e, he⟩ := herror hclasses
  rw [he] at hdecode
  cases hdecode

end Decode

namespace SampleData

def data : List UInt8 := [1, 2, 3, 4]

/-- The data in four data and four parity chunks. -/
def encoding : ErasureEncoding :=
  letI := concreteCrypto
  encodeChunks data 4 4

/-- The chunks with the given indices. -/
def chunks (indices : List Nat) : List DataChunk :=
  indices.filterMap fun i => encoding.chunks[i]?

/-- A chunk that fails its integrity check. -/
def corrupted : DataChunk := ⟨3, [9], .zero⟩

end SampleData

/-- Four of eight chunks that miss data chunk 3 and its parity chunk 7: the data does not come
    back. -/
theorem four_of_eight_do_not_decode :
    letI := concreteCrypto
    encodeBlockData SampleData.data 4 4 = some SampleData.encoding ∧
      Keeps SampleData.encoding 4 (SampleData.chunks [0, 1, 2, 4]) ∧
      decodeBlockData { SampleData.encoding with chunks := SampleData.chunks [0, 1, 2, 4] } ≠
        .ok SampleData.data := by
  let _ : Crypto := concreteCrypto
  have hkeeps : Keeps SampleData.encoding 4 (SampleData.chunks [0, 1, 2, 4]) := by decide +kernel
  have hlost : ¬ ClassesRecoverable 4 4 (SampleData.chunks [0, 1, 2, 4]) := by decide +kernel
  have hfrom : FromEncoding SampleData.data 4 4 (SampleData.chunks [0, 1, 2, 4]) :=
    fun c hc => .inl (hkeeps.2.2 c hc)
  obtain ⟨e, he⟩ := (decode_received (by decide) (by decide) (by decide) hfrom).2 hlost
  refine ⟨rfl, hkeeps, fun hok => ?_⟩
  have herror : decodeBlockData { SampleData.encoding with
    chunks := SampleData.chunks [0, 1, 2, 4] } = .error e := he
  rw [herror] at hok
  cases hok

/-- Four chunks that miss one data chunk of two classes and hold their parity. -/
theorem decode_kept_iff_two_gaps :
    letI := concreteCrypto
    decodeBlockData { SampleData.encoding with chunks := SampleData.chunks [7, 2, 4, 1] } =
      .ok SampleData.data := by
  let _ : Crypto := concreteCrypto
  have hkeeps : Keeps SampleData.encoding 4 (SampleData.chunks [7, 2, 4, 1]) := by decide +kernel
  have hencode : encodeBlockData SampleData.data 4 4 = some SampleData.encoding := rfl
  exact (decode_kept_iff (by decide) (by decide) (by decide) hencode hkeeps).mpr (by decide +kernel)

/-- The same chunks with one of them twice and a corrupted one in front. -/
theorem decode_sound_and_exact_with_noise :
    letI := concreteCrypto
    ∃ out, decodeBlockData { SampleData.encoding with
      chunks := SampleData.corrupted :: SampleData.chunks [7, 2, 4, 2, 1] } = .ok out := by
  let _ : Crypto := concreteCrypto
  have hreceived : ∀ c ∈ SampleData.corrupted :: SampleData.chunks [7, 2, 4, 2, 1],
      c ∈ SampleData.encoding.chunks ∨ c.verifyIntegrity = false := by decide +kernel
  have hencode : encodeBlockData SampleData.data 4 4 = some SampleData.encoding := rfl
  exact (decode_sound_and_exact (by decide) (by decide) (by decide) hencode hreceived).2.mpr
    (by decide +kernel)

/-! ## Commitments -/

structure DACommitment where
  blockHash : Hash256
  dataRoot : Hash256
  chunkCount : Nat
  dataChunks : Nat
  encodingRoot : Hash256
deriving DecidableEq, Repr

section Commitments

variable [Crypto]

/-- `create_da_commitment`, over four data and four parity chunks. -/
def createDaCommitment (blockData : List UInt8) (blockHash : Hash256) : DACommitment :=
  let encoding := encodeChunks blockData 4 4
  { blockHash
    dataRoot := hashBytes blockData
    chunkCount := encoding.chunkCount
    dataChunks := encoding.dataChunks
    encodingRoot := encoding.root }

def verifyDaCommitment (commitment : DACommitment) (chunk : DataChunk) : Bool :=
  if commitment.chunkCount ≤ chunk.index then false
  else if chunk.verifyIntegrity = false then false
  else true

/-- The chunk with the index in the encoding that `create_da_commitment` commits to. -/
def committedChunk (blockData : List UInt8) (index : Nat) : Option DataChunk :=
  (encodeBlockData blockData 4 4).bind fun encoding => encoding.chunks[index]?

end Commitments

end ArcChain
