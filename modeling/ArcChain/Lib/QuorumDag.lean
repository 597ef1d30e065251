/-
The abstract theory of a round-based block DAG with stake quorums, over
arbitrary types of blocks and authors.

A `QuorumDag` is the collection of all blocks that some honest node ever
accepted.  Honest authors produce one block per round; every block above
the base round names parents of the previous round whose honest authors
outweigh the committee's slack `total - quorum`.  A block is *certified*
when one child of it, one round up, is named by a quorum of authors two
rounds up.

* `reaches_of_certified` — a certified block is in the causal history of
  every accepted block three or more rounds later.
* `exists_common_certifier` — two certificates of one round share an
  honest certifier, which names both children.
-/
import ArcChain.Lib.StakeQuorum

open StakeQuorum

/-- Accepted blocks of a round-based DAG, with the two facts that block
    validation and honest authorship give. -/
structure QuorumDag (Block Author : Type*) [DecidableEq Author] where
  /-- The blocks some honest node accepted. -/
  blocks : Set Block
  author : Block → Author
  round : Block → ℕ
  /-- `parent x y`: block `x` names `y` as a parent. -/
  parent : Block → Block → Prop
  weight : Author → ℕ
  members : Finset Author
  honest : Author → Prop
  decHonest : DecidablePred honest
  quorum : ℕ
  /-- Blocks of this round and below need no parents. -/
  baseRound : ℕ
  weight_stranger : ∀ a, a ∉ members → weight a = 0
  honest_unique : ∀ x ∈ blocks, ∀ y ∈ blocks, honest (author x) → author x = author y →
    round x = round y → x = y
  /-- The honest parents of a block outweigh what a quorum may miss. -/
  quorum_parents : ∀ x ∈ blocks, baseRound < round x → ∃ S : Finset Author,
    StakeQuorum.weight weight members < StakeQuorum.weight weight (S.filter honest) + quorum ∧
      ∀ a ∈ S, ∃ y ∈ blocks, author y = a ∧ round y + 1 = round x ∧ parent x y

namespace QuorumDag

variable {Block Author : Type*} [DecidableEq Author] (D : QuorumDag Block Author)

instance : DecidablePred D.honest := D.decHonest

/-- `y` is in the causal history of `x`. -/
def Reaches : Block → Block → Prop := Relation.ReflTransGen D.parent

/-- Child `c` of `b` is named by a quorum `Q` of authors two rounds above `r`. -/
structure Certifies (b c : Block) (r : ℕ) (Q : Finset Author) : Prop where
  child : D.parent c b
  heavy : D.quorum ≤ StakeQuorum.weight D.weight Q
  named : ∀ a ∈ Q, ∃ d ∈ D.blocks, D.author d = a ∧ D.round d = r + 2 ∧ D.parent d c

/-- `b` is certified at round `r`. -/
def Certified (b : Block) (r : ℕ) : Prop := ∃ c Q, D.Certifies b c r Q

variable {D} {b x : Block} {r : ℕ}

/-- Two certificates of one round share an honest certifier, naming both children. -/
theorem exists_common_certifier {b' c c' : Block} {Q Q' : Finset Author}
    (hbyz : StakeQuorum.weight D.weight D.members <
      StakeQuorum.weight D.weight (Q.filter D.honest) + D.quorum)
    (h : D.Certifies b c r Q) (h' : D.Certifies b' c' r Q') :
    ∃ d ∈ D.blocks, D.author d ∈ Q ∧ D.round d = r + 2 ∧ D.honest (D.author d) ∧
      D.parent d c ∧ D.parent d c' := by
  have hheavy := h'.heavy
  obtain ⟨a, haQ, haQ', hh⟩ := exists_honest_mem_inter (A := Q) (B := Q')
    D.weight_stranger D.honest (by omega)
  obtain ⟨d, hd, hda, hdr, hdc⟩ := h.named a haQ
  obtain ⟨d', hd', hda', hdr', hdc'⟩ := h'.named a haQ'
  -- one honest author, one round: the two certifiers are the same block
  have heq : d = d' := D.honest_unique d hd d' hd' (by rw [hda]; exact hh)
    (by rw [hda, hda']) (by rw [hdr, hdr'])
  exact ⟨d, hd, by rw [hda]; exact haQ, hdr, by rw [hda]; exact hh, hdc, heq ▸ hdc'⟩

/-- Every accepted block three rounds above `r` names a certifier directly. -/
theorem reaches_of_round_eq (h : D.Certified b r)
    (hbase : D.baseRound ≤ r + 2) (hx : x ∈ D.blocks) (hround : D.round x = r + 3) :
    D.Reaches x b := by
  obtain ⟨c, Q, hc⟩ := h
  obtain ⟨S, hS, hpar⟩ := D.quorum_parents x hx (by omega)
  have hheavy := hc.heavy
  obtain ⟨a, haS, haQ, hh⟩ := exists_honest_mem_inter (A := S) (B := Q)
    D.weight_stranger D.honest (by omega)
  obtain ⟨y, hy, hya, hyr, hxy⟩ := hpar a haS
  obtain ⟨d, hd, hda, hdr, hdc⟩ := hc.named a haQ
  have heq : y = d := D.honest_unique y hy d hd (by rw [hya]; exact hh)
    (by rw [hya, hda]) (by omega)
  subst heq
  exact .head hxy (.head hdc (.single hc.child))

/-- A block above the base round has an accepted parent one round down. -/
theorem exists_parent (hx : x ∈ D.blocks) (hround : D.baseRound < D.round x)
    (hq : D.quorum ≤ StakeQuorum.weight D.weight D.members) :
    ∃ y ∈ D.blocks, D.round y + 1 = D.round x ∧ D.parent x y := by
  obtain ⟨S, hS, hpar⟩ := D.quorum_parents x hx hround
  have hpos : 0 < StakeQuorum.weight D.weight (S.filter D.honest) := by omega
  obtain ⟨a, ha⟩ := nonempty_of_weight_pos hpos
  obtain ⟨y, hy, -, hyr, hxy⟩ := hpar a (Finset.mem_filter.mp ha).1
  exact ⟨y, hy, hyr, hxy⟩

/-- **A certified block is in every later history.**  By induction on the rounds
    above `r + 3`: a later block has an accepted parent one round down. -/
theorem reaches_of_certified (h : D.Certified b r)
    (hbase : D.baseRound ≤ r + 2) (hq : D.quorum ≤ StakeQuorum.weight D.weight D.members)
    (hx : x ∈ D.blocks) (hround : r + 3 ≤ D.round x) : D.Reaches x b := by
  obtain ⟨k, hk⟩ := Nat.exists_eq_add_of_le hround
  induction k generalizing x with
  | zero => exact reaches_of_round_eq h hbase hx (by omega)
  | succ k ih =>
    obtain ⟨y, hy, hyr, hxy⟩ := exists_parent hx (by omega) hq
    exact .head hxy (ih hy (by omega) (by omega))

end QuorumDag
