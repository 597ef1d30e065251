/-
Straight-line programs over a store of typed cells: read a cell, write a
cell, append to a log, fail.  A failing program keeps the writes it made
before it failed; nothing is rolled back.

- `run` is the semantics: the result, the final store and the log.
- `wp` is the predicate transformer over `run`; its rules turn a program
  into the conditions of its paths.
- `Within R W G p` bounds the cells that `p` reads and writes and the entries
  it logs, on every path.  A program depends on its read cells only
  (`run_congr`) and changes its write cells only (`run_frame`), so programs
  that do not touch each other's writes commute (`Independent.store_comm`).
-/
import Mathlib

/-- A store whose content is given by its cells. -/
class CellStore {K : outParam Type} (V : outParam (K → Type)) (σ : Type) where
  read : σ → (k : K) → V k
  write : σ → (k : K) → V k → σ
  read_write_self : ∀ s k v, read (write s k v) k = v
  read_write_of_ne : ∀ s k v k', k' ≠ k → read (write s k v) k' = read s k'
  ext : ∀ s t, (∀ k, read s k = read t k) → s = t

/-- Programs over the cells `V`, with log entries `L`, errors `E` and results `α`. -/
inductive StoreProg {K : Type} (V : K → Type) (L E : Type) (α : Type) : Type
  | ret (a : α)
  | fail (e : E)
  | get (k : K) (next : V k → StoreProg V L E α)
  | set (k : K) (v : V k) (next : StoreProg V L E α)
  | log (l : L) (next : StoreProg V L E α)

namespace StoreProg

open CellStore

variable {K : Type} {V : K → Type} {L E α β γ : Type}

/-- Sequencing: the rest runs only if the first program returns. -/
def bind : StoreProg V L E α → (α → StoreProg V L E β) → StoreProg V L E β
  | ret a, f => f a
  | fail e, _ => fail e
  | get k next, f => get k (fun v => (next v).bind f)
  | set k v next, f => set k v (next.bind f)
  | log l next, f => log l (next.bind f)

instance : Monad (StoreProg V L E) where
  pure := StoreProg.ret
  bind := StoreProg.bind

/-- Stop with an error. -/
def throw (e : E) : StoreProg V L E α := fail e

/-- The value of a cell. -/
def read (k : K) : StoreProg V L E (V k) := get k ret

/-- Overwrite a cell. -/
def write (k : K) (v : V k) : StoreProg V L E Unit := set k v (ret ())

/-- Append to the log. -/
def append (l : L) : StoreProg V L E Unit := log l (ret ())

/-- Fail unless the condition holds. -/
def require (c : Prop) [Decidable c] (e : E) : StoreProg V L E Unit :=
  if c then ret () else fail e

/-- The value, or a failure if there is none. -/
def ofOption (e : E) : Option α → StoreProg V L E α
  | some a => ret a
  | none => fail e

/-- A computed result or failure. -/
def ofExcept : Except E α → StoreProg V L E α
  | .ok a => ret a
  | .error e => fail e

/-- Run the body for each element, in order. -/
def forEach : List β → (β → StoreProg V L E Unit) → StoreProg V L E Unit
  | [], _ => ret ()
  | b :: bs, f => (f b).bind fun _ => forEach bs f

theorem bind_eq (p : StoreProg V L E α) (f : α → StoreProg V L E β) : (p >>= f) = p.bind f := rfl

theorem bind_assoc (p : StoreProg V L E α) (f : α → StoreProg V L E β)
    (g : β → StoreProg V L E γ) : (p.bind f).bind g = p.bind fun a => (f a).bind g := by
  induction p with
  | ret a => rfl
  | fail e => rfl
  | get k next ih => simp only [bind, ih]
  | set k v next ih => simp only [bind, ih]
  | log l next ih => simp only [bind, ih]

/-! ## Running a program -/

/-- What a run ends in: the result, the store as it then is, and the appended entries. -/
structure Outcome (σ L E α : Type) where
  result : Except E α
  store : σ
  entries : List L

variable {p q : StoreProg V L E α} {f : α → StoreProg V L E β} {a : α} {e : E} {c : Prop}
  {dec : Decidable c}

section Semantics

variable {σ : Type} [CellStore V σ]

/-- Run a program from a store. -/
def run : StoreProg V L E α → σ → Outcome σ L E α
  | ret a, s => ⟨.ok a, s, []⟩
  | fail e, s => ⟨.error e, s, []⟩
  | get k next, s => (next (CellStore.read s k)).run s
  | set k v next, s => next.run (CellStore.write s k v)
  | log l next, s => { next.run s with entries := l :: (next.run s).entries }

/-- The weakest precondition: the run from `s` ends in an outcome with `Q`. -/
def wp (p : StoreProg V L E α) (s : σ) (Q : Except E α → σ → List L → Prop) : Prop :=
  Q (p.run s).result (p.run s).store (p.run s).entries

variable {s : σ} {Q Q' : Except E β → σ → List L → Prop}

theorem wp_mono {p : StoreProg V L E β} (h : wp p s Q)
    (hQ : ∀ r t l, Q r t l → Q' r t l) : wp p s Q' :=
  hQ _ _ _ h

@[simp] theorem wp_pure {b : β} : wp (Pure.pure b) s Q ↔ Q (.ok b) s [] := Iff.rfl

@[simp] theorem wp_throw : wp (throw e) s Q ↔ Q (.error e) s [] := Iff.rfl

@[simp] theorem wp_pure_bind : wp (Pure.pure a >>= f) s Q ↔ wp (f a) s Q := Iff.rfl

@[simp] theorem wp_throw_bind : wp (throw e >>= f) s Q ↔ Q (.error e) s [] := Iff.rfl

@[simp] theorem wp_bind_assoc {p : StoreProg V L E γ} {g : γ → StoreProg V L E α} :
    wp ((p >>= g) >>= f) s Q ↔ wp (p >>= fun c => g c >>= f) s Q := by
  simp only [bind_eq, bind_assoc]

@[simp] theorem wp_require_bind {f : Unit → StoreProg V L E β} :
    wp (require c e >>= f) s Q ↔ (c → wp (f ()) s Q) ∧ (¬ c → Q (.error e) s []) := by
  by_cases h : c
  · simp [require, h, bind_eq, bind]
  · simp [require, h, bind_eq, bind, wp, run]

/-- A conjunction is checked one part after the other. -/
@[simp high] theorem wp_require_and_bind {c d : Prop} {_ : Decidable (c ∧ d)}
    {f : Unit → StoreProg V L E β} :
    wp (require (c ∧ d) e >>= f) s Q ↔
      (c → (d → wp (f ()) s Q) ∧ (¬ d → Q (.error e) s [])) ∧ (¬ c → Q (.error e) s []) := by
  by_cases hc : c <;> simp [hc]

@[simp] theorem wp_require {Q : Except E Unit → σ → List L → Prop} :
    wp (require c e) s Q ↔ (c → Q (.ok ()) s []) ∧ (¬ c → Q (.error e) s []) := by
  by_cases h : c <;> simp [require, h, wp, run]

@[simp] theorem wp_ofOption_bind {o : Option α} : wp (ofOption e o >>= f) s Q ↔
      (∀ a, o = some a → wp (f a) s Q) ∧ (o = none → Q (.error e) s []) := by
  cases o with
  | none => simp [ofOption, bind_eq, bind, wp, run]
  | some a => simp [ofOption, bind_eq, bind]

@[simp] theorem wp_ofExcept_bind {x : Except E α} : wp (ofExcept x >>= f) s Q ↔
      (∀ a, x = .ok a → wp (f a) s Q) ∧ (∀ e, x = .error e → Q (.error e) s []) := by
  cases x with
  | error e => simp [ofExcept, bind_eq, bind, wp, run]
  | ok a => simp [ofExcept, bind_eq, bind]

@[simp] theorem wp_ite {p q : StoreProg V L E β} :
    wp (if c then p else q) s Q ↔ (c → wp p s Q) ∧ (¬ c → wp q s Q) := by
  by_cases h : c <;> simp [h]

@[simp] theorem wp_ite_bind :
    wp ((if c then p else q) >>= f) s Q ↔ (c → wp (p >>= f) s Q) ∧ (¬ c → wp (q >>= f) s Q) := by
  by_cases h : c <;> simp [h]

/-- A program followed by the rest: the rest is judged in the outcome of the first. -/
theorem wp_bind : wp (p >>= f) s Q ↔ wp p s fun r t l =>
      match r with
      | .ok a => wp (f a) t fun r' t' l' => Q r' t' (l ++ l')
      | .error e => Q (.error e) t l := by
  induction p generalizing s Q with
  | ret | fail => exact Iff.rfl
  | get k next ih => exact ih (CellStore.read s k)
  | set k v next ih => exact ih
  | log l next ih =>
    show wp (next >>= f) s (fun r t es => Q r t (l :: es)) ↔ _
    rw [ih]
    exact Iff.rfl

/-- **Loop rule.**  An invariant of the store that every round keeps, where no round fails. -/
theorem wp_forEach {I : σ → Prop} {bs : List α} {f : α → StoreProg V L E Unit}
    (hround : ∀ b ∈ bs, ∀ t, I t → wp (f b) t fun r u _ => r = .ok () ∧ I u) (hs : I s) :
    wp (forEach bs f) s fun r u _ => r = .ok () ∧ I u := by
  induction bs generalizing s with
  | nil => exact ⟨rfl, hs⟩
  | cons b bs ih =>
    show wp (f b >>= fun _ => forEach bs f) s _
    rw [wp_bind]
    apply wp_mono (hround b List.mem_cons_self s hs)
    rintro r t l ⟨rfl, ht⟩
    exact ih (fun b' hb' => hround b' (List.mem_cons_of_mem _ hb')) ht

end Semantics

/-! ## Programs that cannot fail -/

/-- No path of the program fails. -/
def NoFail : StoreProg V L E α → Prop
  | ret _ => True
  | fail _ => False
  | get _ next => ∀ v, (next v).NoFail
  | set _ _ next => next.NoFail
  | log _ next => next.NoFail

@[simp] theorem noFail_pure : NoFail (Pure.pure a : StoreProg V L E α) := trivial

theorem NoFail.bind (hp : p.NoFail) (hf : ∀ a, (f a).NoFail) : (p >>= f).NoFail := by
  induction p with
  | ret a => exact hf a
  | fail e => exact absurd hp id
  | get k next ih => exact fun v => ih v (hp v)
  | set k v next ih => exact ih hp
  | log l next ih => exact ih hp

theorem NoFail.forEach {bs : List α} {f : α → StoreProg V L E Unit} (hf : ∀ b, (f b).NoFail) :
    (forEach bs f).NoFail := by
  induction bs with
  | nil => trivial
  | cons b bs ih => exact NoFail.bind (hf b) fun _ => ih

@[simp] theorem noFail_ite : NoFail (if c then p else q) ↔ (c → p.NoFail) ∧ (¬ c → q.NoFail) := by
  by_cases h : c <;> simp [h]

/-- Such a program returns a value from every store. -/
theorem NoFail.result {σ : Type} [CellStore V σ] (h : p.NoFail) (s : σ) :
    ∃ a, (p.run s).result = .ok a := by
  induction p generalizing s with
  | ret a => exact ⟨a, rfl⟩
  | fail e => exact absurd h id
  | get k next ih => exact ih _ (h _) s
  | set k v next ih => exact ih h _
  | log l next ih => exact ih h s

theorem NoFail.wp {σ : Type} [CellStore V σ] (h : p.NoFail) {s : σ}
    {Q : Except E α → σ → List L → Prop} (hQ : ∀ a t l, Q (.ok a) t l) : wp p s Q := by
  obtain ⟨a, ha⟩ := h.result s
  rw [StoreProg.wp, ha]
  exact hQ a _ _

/-! ## Footprints -/

/-- Every cell the program may read is in `R`, every cell it may write in `W`, and every
    entry it may log in `G`. -/
def Within (R W : K → Prop) (G : L → Prop) : StoreProg V L E α → Prop
  | ret _ => True
  | fail _ => True
  | get k next => R k ∧ ∀ v, (next v).Within R W G
  | set k _ next => W k ∧ next.Within R W G
  | log l next => G l ∧ next.Within R W G

section Footprint

variable {R W R' W' : K → Prop} {G G' : L → Prop}

@[simp] theorem within_pure : Within R W G (Pure.pure a : StoreProg V L E α) := trivial

@[simp] theorem within_throw : Within R W G (throw e : StoreProg V L E α) := trivial

@[simp] theorem within_write {k : K} {v : V k} :
    Within R W G (write k v : StoreProg V L E Unit) ↔ W k :=
  ⟨And.left, fun h => ⟨h, trivial⟩⟩

@[simp] theorem within_append {l : L} : Within R W G (append l : StoreProg V L E Unit) ↔ G l :=
  ⟨And.left, fun h => ⟨h, trivial⟩⟩

@[simp] theorem within_require : Within R W G (require c e : StoreProg V L E Unit) := by
  unfold require
  split <;> trivial

theorem Within.bind (hp : p.Within R W G)
    (hf : ∀ a, (f a).Within R W G) : (p >>= f).Within R W G := by
  induction p with
  | ret a => exact hf a
  | fail e => trivial
  | get k next ih => exact ⟨hp.1, fun v => ih v (hp.2 v)⟩
  | set k v next ih => exact ⟨hp.1, ih hp.2⟩
  | log l next ih => exact ⟨hp.1, ih hp.2⟩

@[simp] theorem within_pure_bind : Within R W G (Pure.pure a >>= f) ↔ Within R W G (f a) := Iff.rfl

@[simp] theorem within_bind_assoc {p : StoreProg V L E γ} {g : γ → StoreProg V L E α} :
    Within R W G ((p >>= g) >>= f) ↔ Within R W G (p >>= fun c => g c >>= f) := by
  simp only [bind_eq, bind_assoc]

@[simp] theorem within_require_bind {f : Unit → StoreProg V L E β} :
    Within R W G (require c e >>= f) ↔ (c → Within R W G (f ())) := by
  by_cases h : c
  · simp [require, h, bind_eq, StoreProg.bind]
  · simp [require, h, bind_eq, StoreProg.bind, Within]

@[simp] theorem within_ofOption_bind {o : Option α} :
    Within R W G (ofOption e o >>= f) ↔ ∀ a, o = some a → Within R W G (f a) := by
  cases o with
  | none => simp [ofOption, bind_eq, StoreProg.bind, Within]
  | some a => simp [ofOption, bind_eq, StoreProg.bind]

@[simp] theorem within_ofExcept_bind {x : Except E α} :
    Within R W G (ofExcept x >>= f) ↔ ∀ a, x = .ok a → Within R W G (f a) := by
  cases x with
  | error e => simp [ofExcept, bind_eq, StoreProg.bind, Within]
  | ok a => simp [ofExcept, bind_eq, StoreProg.bind]

@[simp] theorem within_ite :
    Within R W G (if c then p else q) ↔ (c → p.Within R W G) ∧ (¬ c → q.Within R W G) := by
  by_cases h : c <;> simp [h]

@[simp] theorem within_ite_bind : Within R W G ((if c then p else q) >>= f) ↔
      (c → (p >>= f).Within R W G) ∧ (¬ c → (q >>= f).Within R W G) := by
  by_cases h : c <;> simp [h]

theorem Within.forEach {bs : List α} {f : α → StoreProg V L E Unit}
    (hf : ∀ b ∈ bs, (f b).Within R W G) : (forEach bs f).Within R W G := by
  induction bs with
  | nil => trivial
  | cons b bs ih =>
    exact Within.bind (hf b List.mem_cons_self)
      fun _ => ih fun b' hb' => hf b' (List.mem_cons_of_mem _ hb')

theorem Within.mono (h : p.Within R W G) (hR : ∀ k, R k → R' k)
    (hW : ∀ k, W k → W' k) (hG : ∀ l, G l → G' l) : p.Within R' W' G' := by
  induction p with
  | ret | fail => trivial
  | get k next ih => exact ⟨hR k h.1, fun v => ih v (h.2 v)⟩
  | set k v next ih => exact ⟨hW k h.1, ih h.2⟩
  | log l next ih => exact ⟨hG l h.1, ih h.2⟩

variable {σ : Type} [CellStore V σ]

/-- **Frame.**  A cell outside the write footprint keeps its value. -/
theorem run_frame (h : p.Within R W G) (s : σ) {k : K} (hk : ¬ W k) :
    CellStore.read (p.run s).store k = CellStore.read s k := by
  induction p generalizing s with
  | ret a => rfl
  | fail e => rfl
  | get k' next ih => exact ih _ (h.2 _) s
  | set k' v next ih =>
    have hne : k ≠ k' := fun heq => hk (heq ▸ h.1)
    exact (ih h.2 _).trans (read_write_of_ne s k' v k hne)
  | log l next ih => exact ih h.2 s

/-- **Locality.**  Stores that agree on the read footprint give the same result and the same
    log, and every cell on which they agree they still agree on. -/
theorem run_congr (h : p.Within R W G) {s t : σ}
    (hst : ∀ k, R k → CellStore.read s k = CellStore.read t k) :
    (p.run s).result = (p.run t).result ∧ (p.run s).entries = (p.run t).entries ∧
      ∀ k, CellStore.read s k = CellStore.read t k →
        CellStore.read (p.run s).store k = CellStore.read (p.run t).store k := by
  induction p generalizing s t with
  | ret | fail => exact ⟨rfl, rfl, fun _ hk => hk⟩
  | get k next ih =>
    have hnext := ih (CellStore.read s k) (h.2 _) hst
    simp only [run]
    rw [← hst k h.1]
    exact hnext
  | set k v next ih =>
    -- both stores now hold `v` at `k`, and are as before elsewhere
    have hcell : ∀ k', CellStore.read s k' = CellStore.read t k' →
        CellStore.read (CellStore.write s k v) k' = CellStore.read (CellStore.write t k v) k' := by
      intro k' hk'
      by_cases heq : k' = k
      · subst heq
        rw [read_write_self, read_write_self]
      · rw [read_write_of_ne _ _ _ _ heq, read_write_of_ne _ _ _ _ heq, hk']
    obtain ⟨hresult, hlog, hstore⟩ :=
      ih h.2 (s := CellStore.write s k v) (t := CellStore.write t k v)
        (fun k' hR => hcell k' (hst k' hR))
    exact ⟨hresult, hlog, fun k' hk' => hstore k' (hcell k' hk')⟩
  | log l next ih =>
    obtain ⟨hresult, hlog, hstore⟩ := ih h.2 hst
    exact ⟨hresult, congrArg (l :: ·) hlog, hstore⟩

/-! ### Programs that only read -/

/-- The program writes no cell and appends nothing. -/
def ReadOnly (p : StoreProg V L E α) : Prop :=
  p.Within (fun _ => True) (fun _ => False) (fun _ => False)

theorem ReadOnly.run_eq (h : p.ReadOnly) (s : σ) : p.run s = ⟨(p.run s).result, s, []⟩ := by
  induction p with
  | ret a => rfl
  | fail e => rfl
  | get k next ih => exact ih _ (h.2 _)
  | set | log => exact absurd h.1 id

variable {Q : Except E β → σ → List L → Prop}

/-- A program behind a read-only one starts from the same store. -/
theorem ReadOnly.wp_bind {s : σ} (h : p.ReadOnly) :
    wp (p >>= f) s Q ↔ (∀ a, (p.run s).result = .ok a → wp (f a) s Q) ∧
      (∀ e, (p.run s).result = .error e → Q (.error e) s []) := by
  rw [StoreProg.wp_bind, wp, h.run_eq s]
  cases (p.run s).result with
  | ok a => simp
  | error e => simp

/-- A program behind a read-only one that returns. -/
theorem ReadOnly.wp_bind_ok {s : σ} (h : p.ReadOnly) {a : α}
    (ha : (p.run s).result = .ok a) : wp (p >>= f) s Q ↔ wp (f a) s Q := by
  rw [h.wp_bind, ha]
  simp

theorem ReadOnly.wp_bind_eq_ok {s : σ} {b : β}
    (h : p.ReadOnly) : wp (p >>= f) s (fun r _ _ => r = .ok b) ↔
      ∃ a, (p.run s).result = .ok a ∧ wp (f a) s fun r _ _ => r = .ok b := by
  rw [h.wp_bind]
  cases (p.run s).result with
  | ok a => simp
  | error e => simp

/-! ### Commutation -/

/-- Neither footprint's writes meet the other footprint. -/
def Independent (R W R' W' : K → Prop) : Prop :=
  ∀ k, (W k → ¬ R' k ∧ ¬ W' k) ∧ (W' k → ¬ R k ∧ ¬ W k)

theorem Independent.symm (h : Independent R W R' W') : Independent R' W' R W :=
  fun k => ⟨(h k).2, (h k).1⟩

variable {p : StoreProg V L E α} {q : StoreProg V L E β}

/-- An independent program in front does not change a result or a log. -/
theorem Independent.result_after (h : Independent R W R' W') (hp : p.Within R W G)
    (hq : q.Within R' W' G') (s : σ) :
    (q.run (p.run s).store).result = (q.run s).result ∧
      (q.run (p.run s).store).entries = (q.run s).entries := by
  have hread : ∀ k, R' k → CellStore.read (p.run s).store k = CellStore.read s k :=
    fun k hk => run_frame hp s fun hW => ((h k).1 hW).1 hk
  exact ⟨(run_congr hq hread).1, (run_congr hq hread).2.1⟩

/-- **Commutation.**  Independent programs leave the same store in either order. -/
theorem Independent.store_comm (h : Independent R W R' W') (hp : p.Within R W G)
    (hq : q.Within R' W' G') (s : σ) :
    (q.run (p.run s).store).store = (p.run (q.run s).store).store := by
  have hq_reads : ∀ k, R' k → CellStore.read (p.run s).store k = CellStore.read s k :=
    fun k hk => run_frame hp s fun hW => ((h k).1 hW).1 hk
  have hp_reads : ∀ k, R k → CellStore.read (q.run s).store k = CellStore.read s k :=
    fun k hk => run_frame hq s fun hW => ((h k).2 hW).1 hk
  apply CellStore.ext
  intro k
  by_cases hW : W k
  · -- only `p` writes `k`, and it does so as from `s`
    have hW' : ¬ W' k := ((h k).1 hW).2
    rw [run_frame hq _ hW']
    exact ((run_congr hp hp_reads).2.2 k (run_frame hq s hW')).symm
  · rw [run_frame hp (q.run s).store hW]
    exact (run_congr hq hq_reads).2.2 k (run_frame hp s hW)

end Footprint

end StoreProg
