/-
Finality certificates are unique per height, and the engine's store of
them never changes its mind.

`HonestSigning` collects what is assumed of the honest validators and of
the primitives: an honest validator signs at most one statement per
height, a vote that verifies under an honest address was signed by it, and
no two transcripts in play collide.  Two certificates that verify against
one domain and set then share an honest voter, so they state the same
(`finality_statement_unique`); the store inherits it.
-/
import ArcChain.Lib.Run
import ArcChain.Consensus.Membership

namespace ArcChain

open Word StakeQuorum List Hash256

/-- What a finality certificate certifies about its height. -/
def FinalityCertificate.statement (cert : FinalityCertificate) : Hash256 × Hash256 × Hash256 :=
  (cert.blockHash, cert.stateRoot, cert.txRoot)

/-- The bytes a finality vote signs. -/
def FinalityVote.bytes (vote : FinalityVote) : List UInt8 :=
  finalityVoteBytes vote.domain vote.validatorSetHash vote.height vote.blockHash vote.stateRoot
    vote.txRoot vote.voter

/-- Equal bytes say the same about the same height. -/
theorem FinalityVote.bytes_inj {v w : FinalityVote} (hv : v.height < 2 ^ 64)
    (hw : w.height < 2 ^ 64) (h : v.bytes = w.bytes) :
    v.height = w.height ∧ v.statement = w.statement := by
  -- every field has a fixed width: peel them from the right
  obtain ⟨h, -⟩ := append_inj' h (by simp)
  obtain ⟨h, htx⟩ := append_inj' h (by simp)
  obtain ⟨h, hstate⟩ := append_inj' h (by simp)
  obtain ⟨h, hblock⟩ := append_inj' h (by simp)
  obtain ⟨-, hheight⟩ := append_inj' h (by simp)
  refine ⟨leBytes_inj hv hw hheight, ?_⟩
  rw [FinalityVote.statement, FinalityVote.statement, toBytes_injective hblock,
    toBytes_injective hstate, toBytes_injective htx]

section Uniqueness

variable [Crypto]

/-- The assumptions on the honest validators, for the votes `signed` by them and the
    votes `offered` in certificates. -/
structure HonestSigning (honest : Address → Prop) (signed offered : Set FinalityVote) :
    Prop where
  /-- At most one statement per height. -/
  once : ∀ v ∈ signed, ∀ w ∈ signed, honest v.voter → v.voter = w.voter →
    v.height = w.height → v.statement = w.statement
  /-- An offered vote that verifies under an honest address was signed there. -/
  unforged : ∀ v ∈ offered, honest v.voter →
    Crypto.verify v.signature v.transcript v.voter = true →
      ∃ w ∈ signed, w.voter = v.voter ∧ w.transcript = v.transcript
  /-- Heights are 64-bit. -/
  fits : ∀ v ∈ signed ∪ offered, v.height < 2 ^ 64
  /-- No two transcripts in play collide. -/
  collisionFree : ∀ v ∈ signed ∪ offered, ∀ w ∈ signed ∪ offered,
    v.transcript = w.transcript → v.bytes = w.bytes

/-- What a verified certificate consists of. -/
theorem FinalityCertificate.verify_eq_ok {cert : FinalityCertificate}
    {domain : ConsensusDomain} {set : ValidatorSet} {signing : Nat}
    (h : cert.verify domain set = .ok signing) :
    set.quorum ≤ weight set.stakeOf (cert.votes.map (·.voter)).toFinset ∧
      ∀ v ∈ cert.votes, v.height = cert.height ∧ v.statement = cert.statement ∧
        Crypto.verify v.signature v.transcript v.voter = true := by
  obtain ⟨-, -, -, hcount, hsum, hquorum⟩ := (verifyVotes_eq_ok fun _ _ => verifyAgainst_eq_ok).mp h
  refine ⟨?_, ?_⟩
  · rw [← hcount.sum_eq_weight, hsum]
    exact hquorum
  · intro v hv
    have hagree := hcount.agree v hv
    simp only [FinalityCertificate.consistent, decide_eq_true_eq] at hagree
    obtain ⟨-, -, hheight, hblock, hstate, htx⟩ := hagree
    refine ⟨hheight, ?_, (hcount.valid v hv).2⟩
    rw [FinalityVote.statement, FinalityCertificate.statement, hblock, hstate, htx]

/-- **Finality uniqueness.**  Two certificates of one height that verify against one
    domain and set state the same. -/
theorem finality_statement_unique {set : ValidatorSet} (hset : set.Valid)
    {honest : Address → Prop} [DecidablePred honest] (hbyz : ByzantineBound set honest)
    {signed offered : Set FinalityVote} (hsign : HonestSigning honest signed offered)
    {domain : ConsensusDomain} {c c' : FinalityCertificate} {s s' : Nat}
    (hc : ∀ v ∈ c.votes, v ∈ offered) (hc' : ∀ v ∈ c'.votes, v ∈ offered)
    (hverify : c.verify domain set = .ok s) (hverify' : c'.verify domain set = .ok s')
    (hheight : c.height = c'.height) : c.statement = c'.statement := by
  obtain ⟨hq, hvotes⟩ := c.verify_eq_ok hverify
  obtain ⟨hq', hvotes'⟩ := c'.verify_eq_ok hverify'
  obtain ⟨a, ha, ha', hh⟩ := hbyz.exists_common hset hq hq'
  obtain ⟨v, hv, hva⟩ := mem_map.mp (mem_toFinset.mp ha)
  obtain ⟨v', hv', hva'⟩ := mem_map.mp (mem_toFinset.mp ha')
  -- the shared honest voter signed both votes, and it signs one statement per height
  have signedBy : ∀ u ∈ offered, u.voter = a →
      Crypto.verify u.signature u.transcript u.voter = true →
        ∃ w ∈ signed, w.voter = a ∧ w.height = u.height ∧ w.statement = u.statement := by
    intro u hu hua hver
    obtain ⟨w, hw, hwa, htr⟩ := hsign.unforged u hu (hua ▸ hh) hver
    have hbytes := hsign.collisionFree w (.inl hw) u (.inr hu) htr
    obtain ⟨hh', hst⟩ := FinalityVote.bytes_inj (hsign.fits w (.inl hw))
      (hsign.fits u (.inr hu)) hbytes
    exact ⟨w, hw, hwa.trans hua, hh', hst⟩
  obtain ⟨w, hw, hwa, hwh, hws⟩ := signedBy v (hc v hv) hva (hvotes v hv).2.2
  obtain ⟨w', hw', hwa', hwh', hws'⟩ := signedBy v' (hc' v' hv') hva' (hvotes' v' hv').2.2
  have hsame : w.statement = w'.statement := by
    apply hsign.once w hw w' hw' (hwa ▸ hh) (hwa.trans hwa'.symm)
    rw [hwh, hwh', (hvotes v hv).1, (hvotes' v' hv').1, hheight]
  calc c.statement = v.statement := (hvotes v hv).2.1.symm
    _ = w.statement := hws.symm
    _ = w'.statement := hsame
    _ = v'.statement := hws'
    _ = c'.statement := (hvotes' v' hv').2.1

end Uniqueness

/-! ## The engine's store -/

namespace ConsensusEngine

variable [Crypto]

/-- Every held certificate stands under its height and verifies against the engine's
    certificate domain and frozen set. -/
def HeldVerified (e : ConsensusEngine) (offered : Set FinalityVote) : Prop :=
  ∀ height cert, e.finalityCertificates.lookup height = some cert →
    cert.height = height ∧ (∀ v ∈ cert.votes, v ∈ offered) ∧
      ∃ domain signing, e.certificateDomain = some domain ∧
        cert.verify domain e.frozenValidatorSet = .ok signing

/-- **Step lemma.**  A refused certificate changes nothing.  An accepted one verified, did
    not contradict the held block, and is the only entry that may be new. -/
theorem registerFinalityCertificate_cases (e : ConsensusEngine) (cert : FinalityCertificate) :
    (∃ err, e.registerFinalityCertificate cert = (.error err, e)) ∨
      ∃ domain signing e', e.registerFinalityCertificate cert = (.ok signing, e') ∧
        e.certificateDomain = some domain ∧
        cert.verify domain e.frozenValidatorSet = .ok signing ∧
        (∀ held, e.finalityCertificates.lookup cert.height = some held →
          held.blockHash = cert.blockHash) ∧
        e'.certificateDomain = e.certificateDomain ∧
        e'.frozenValidatorSet = e.frozenValidatorSet ∧
        ∀ height c, e'.finalityCertificates.lookup height = some c →
          (height = cert.height ∧ c = cert) ∨ e.finalityCertificates.lookup height = some c := by
  rw [registerFinalityCertificate]
  split
  · exact .inl ⟨_, rfl⟩
  rename_i domain hdomain
  split
  · exact .inl ⟨_, rfl⟩
  rename_i signing hverify
  dsimp only
  split
  · exact .inl ⟨_, rfl⟩
  rename_i hconflict
  refine .inr ⟨domain, signing, _, rfl, hdomain, hverify, ?_, rfl, rfl, ?_⟩
  · intro held hheld
    rw [hheld] at hconflict
    by_contra hne
    rw [Option.filter_some, if_pos (by simpa using hne)] at hconflict
    cases hconflict
  · intro height c hc
    have hins : (AList.insert cert.height cert e.finalityCertificates).lookup height = some c := by
      split at hc
      · exact (AssocMap.lookup_retain_eq_some.mp hc).1
      · exact hc
    exact AssocMap.lookup_insert_cases hins

/-- The engine after a sequence of registrations. -/
def registerAll (e : ConsensusEngine) (certs : List FinalityCertificate) : ConsensusEngine :=
  certs.foldl (fun e cert => (e.registerFinalityCertificate cert).2) e

/-- A sequence of registrations changes neither the domain nor the frozen set, and keeps
    only verified certificates. -/
theorem registerAll_heldVerified {e : ConsensusEngine} {offered : Set FinalityVote}
    (h : e.HeldVerified offered) {certs : List FinalityCertificate}
    (hcerts : ∀ cert ∈ certs, ∀ v ∈ cert.votes, v ∈ offered) :
    (e.registerAll certs).HeldVerified offered ∧
      (e.registerAll certs).certificateDomain = e.certificateDomain ∧
      (e.registerAll certs).frozenValidatorSet = e.frozenValidatorSet := by
  induction certs generalizing e with
  | nil => exact ⟨h, rfl, rfl⟩
  | cons cert rest ih =>
    obtain ⟨hcert, hrest⟩ := forall_mem_cons.mp hcerts
    show ((e.registerFinalityCertificate cert).2.registerAll rest).HeldVerified offered ∧ _
    rcases registerFinalityCertificate_cases e cert with
      ⟨err, heq⟩ | ⟨domain, signing, e', heq, hdomain, hverify, -, hdom, hfrozen, hlookup⟩
    · have hstep := ih h hrest
      simp only [registerAll, foldl_cons, heq]
      exact hstep
    · have h' : e'.HeldVerified offered := by
        intro height c hc
        rcases hlookup height c hc with ⟨rfl, rfl⟩ | hold
        · exact ⟨rfl, hcert, domain, signing, hdom.trans hdomain, hfrozen ▸ hverify⟩
        · rw [hdom, hfrozen]
          exact h height c hold
      obtain ⟨hheld, hdom', hfrozen'⟩ := ih h' hrest
      simp only [registerAll, foldl_cons, heq]
      exact ⟨hheld, hdom'.trans hdom, hfrozen'.trans hfrozen⟩

/-- The statement held for a height is that of every certificate that is held for it
    later, and that of every later offer that verifies. -/
theorem registerAll_statement {e : ConsensusEngine} (hset : e.frozenValidatorSet.Valid)
    {honest : Address → Prop} [DecidablePred honest]
    (hbyz : ByzantineBound e.frozenValidatorSet honest) {signed offered : Set FinalityVote}
    (hsign : HonestSigning honest signed offered) (h : e.HeldVerified offered)
    {held : FinalityCertificate} (hheld : e.finalityCertificates.lookup held.height = some held)
    {domain : ConsensusDomain} {signing : Nat} {cert : FinalityCertificate}
    (hcert : ∀ v ∈ cert.votes, v ∈ offered) (hdomain : e.certificateDomain = some domain)
    (hverify : cert.verify domain e.frozenValidatorSet = .ok signing)
    (hheight : held.height = cert.height) : held.statement = cert.statement := by
  obtain ⟨-, hvotes, domain', signing', hdomain', hverify'⟩ := h held.height held hheld
  have heq : domain' = domain := Option.some.inj (hdomain'.symm.trans hdomain)
  subst heq
  exact finality_statement_unique hset hbyz hsign hvotes hcert hverify' hverify hheight

end ConsensusEngine

open ConsensusEngine in
/-- **Finality uniqueness.**  Let honest validators sign at most one statement per
    height, and let the others stay within what a quorum may miss.

    * For every domain and valid set, two verified certificates of one height state the
      same.
    * Over every sequence of registrations, whatever the store holds for a height early
      and late states the same.
    * An offer that contradicts the held statement is refused and changes nothing. -/
theorem finality_uniqueness [Crypto] {honest : Address → Prop} [DecidablePred honest]
    {signed offered : Set FinalityVote} (hsign : HonestSigning honest signed offered) :
    (∀ (domain : ConsensusDomain) (set : ValidatorSet) (c c' : FinalityCertificate)
        (s s' : Nat), set.Valid → ByzantineBound set honest →
      (∀ v ∈ c.votes, v ∈ offered) → (∀ v ∈ c'.votes, v ∈ offered) →
      c.verify domain set = .ok s → c'.verify domain set = .ok s' → c.height = c'.height →
        c.blockHash = c'.blockHash ∧ c.stateRoot = c'.stateRoot ∧ c.txRoot = c'.txRoot) ∧
    (∀ (start : ConsensusEngine) (certs : List FinalityCertificate),
      start.frozenValidatorSet.Valid → ByzantineBound start.frozenValidatorSet honest →
      start.HeldVerified offered → (∀ cert ∈ certs, ∀ v ∈ cert.votes, v ∈ offered) →
        (∀ before after height held held', certs = before ++ after →
          (start.registerAll before).finalityCertificates.lookup height = some held →
          (start.registerAll certs).finalityCertificates.lookup height = some held' →
            held.statement = held'.statement) ∧
        (∀ offer held, (∀ v ∈ offer.votes, v ∈ offered) →
          (start.registerAll certs).finalityCertificates.lookup offer.height = some held →
          held.statement ≠ offer.statement →
            ∃ err, (start.registerAll certs).registerFinalityCertificate offer =
              (.error err, start.registerAll certs))) := by
  refine ⟨?_, ?_⟩
  · intro domain set c c' s s' hset hbyz hc hc' hverify hverify' hheight
    have h := finality_statement_unique hset hbyz hsign hc hc' hverify hverify' hheight
    simp only [FinalityCertificate.statement, Prod.mk.injEq] at h
    exact h
  · intro start certs hset hbyz hstart hcerts
    refine ⟨?_, ?_⟩
    · intro before after height held held' hsplit hheld hheld'
      subst hsplit
      have hbefore : ∀ cert ∈ before, ∀ v ∈ cert.votes, v ∈ offered :=
        fun cert hmem => hcerts cert (mem_append_left _ hmem)
      obtain ⟨hinv, hdom, hfrozen⟩ := registerAll_heldVerified hstart hbefore
      obtain ⟨hinv', hdom', hfrozen'⟩ := registerAll_heldVerified hstart hcerts
      obtain ⟨rfl, -, -⟩ := hinv height held hheld
      obtain ⟨hheight, hvotes, domain, signing, hdomain, hverify⟩ := hinv' _ held' hheld'
      -- neither the domain nor the frozen set moved between the two moments
      have hdomain_before : (start.registerAll before).certificateDomain = some domain := by
        rw [hdom, ← hdom', hdomain]
      have hverify_before :
          held'.verify domain (start.registerAll before).frozenValidatorSet = .ok signing := by
        rw [hfrozen, ← hfrozen', hverify]
      exact registerAll_statement (hfrozen ▸ hset) (hfrozen ▸ hbyz) hsign hinv hheld hvotes
        hdomain_before hverify_before hheight.symm
    · intro offer held hoffer hheld hne
      obtain ⟨hinv, hdom, hfrozen⟩ := registerAll_heldVerified hstart hcerts
      rcases registerFinalityCertificate_cases (start.registerAll certs) offer with
        herr | ⟨domain, signing, e', -, hdomain, hverify, -, -, -, -⟩
      · exact herr
      · obtain ⟨hheight, -⟩ := hinv _ held hheld
        refine absurd ?_ hne
        exact registerAll_statement (hfrozen ▸ hset) (hfrozen ▸ hbyz) hsign hinv
          (by rw [hheight]; exact hheld) hoffer hdomain hverify hheight

namespace SampleFinality

/-- Four members of equal stake: a quorum is three. -/
def set : ValidatorSet :=
  ⟨[⟨⟨1⟩, 5000000, .arc, 0⟩, ⟨⟨2⟩, 5000000, .arc, 0⟩, ⟨⟨3⟩, 5000000, .arc, 0⟩,
    ⟨⟨4⟩, 5000000, .arc, 0⟩], 20000000, 1, 13333334, 0, []⟩

theorem set_valid : set.Valid := ⟨⟨by decide, by decide, by decide, by decide⟩, by decide⟩

def domain : ConsensusDomain := ⟨⟨7⟩, 1, 0⟩

def vote (voter : Address) : FinalityVote :=
  letI := concreteCrypto
  let unsigned : FinalityVote :=
    { domain := domain, validatorSetHash := validatorSetHash set, height := 6,
      blockHash := ⟨11⟩, stateRoot := ⟨12⟩, txRoot := ⟨13⟩, voter, signature := .secp256k1 [] }
  { unsigned with signature := Concrete.signature voter unsigned.transcript }

def cert (voters : List Address) : FinalityCertificate :=
  letI := concreteCrypto
  ⟨domain, validatorSetHash set, 6, ⟨11⟩, ⟨12⟩, ⟨13⟩, voters.map vote⟩

/-- The votes in play. -/
def votes : List FinalityVote := [vote ⟨1⟩, vote ⟨2⟩, vote ⟨3⟩, vote ⟨4⟩]

/-- Member 4 is not counted as honest. -/
abbrev honest (a : Address) : Prop := a ≠ ⟨4⟩

theorem honestSigning :
    @HonestSigning concreteCrypto honest {v | v ∈ votes} {v | v ∈ votes} := by
  let _ : Crypto := concreteCrypto
  have honce : ∀ v ∈ votes, ∀ w ∈ votes, v.statement = w.statement := by decide +kernel
  have hfits : ∀ v ∈ votes, v.height < 2 ^ 64 := by decide +kernel
  have hcoll : ∀ v ∈ votes, ∀ w ∈ votes, v.transcript = w.transcript → v.bytes = w.bytes := by
    decide +kernel
  refine ⟨fun v hv w hw _ _ _ => honce v hv w hw, fun v hv _ _ => ⟨v, hv, rfl, rfl⟩,
    fun v hv => hfits v (or_self_iff.mp hv),
    fun v hv w hw => hcoll v (or_self_iff.mp hv) w (or_self_iff.mp hw)⟩

end SampleFinality

open SampleFinality ConsensusEngine in
/-- Two certificates with different voters, one member of the second being Byzantine:
    both verify, they state the same, and registering both keeps that statement. -/
theorem finality_uniqueness_sample :
    letI := concreteCrypto
    let start : ConsensusEngine := { ConsensusEngine.new set ⟨1⟩ none with
      certificateDomain := some domain }
    (cert [⟨1⟩, ⟨2⟩, ⟨3⟩]).stateRoot = (cert [⟨2⟩, ⟨3⟩, ⟨4⟩]).stateRoot ∧
      ∃ held held', (start.registerAll [cert [⟨1⟩, ⟨2⟩, ⟨3⟩]]).finalityCertificates.lookup 6 =
          some held ∧
        (start.registerAll [cert [⟨1⟩, ⟨2⟩, ⟨3⟩], cert [⟨2⟩, ⟨3⟩, ⟨4⟩]]).finalityCertificates.lookup
          6 = some held' ∧ held.statement = held'.statement := by
  let _ : Crypto := concreteCrypto
  intro start
  have hbyz : ByzantineBound set honest := by
    rw [ByzantineBound]
    decide +kernel
  have hstart : start.HeldVerified {v | v ∈ votes} := by
    intro height c hc
    exact absurd hc (by simp [start, ConsensusEngine.new])
  have hcerts : ∀ c ∈ [cert [⟨1⟩, ⟨2⟩, ⟨3⟩], cert [⟨2⟩, ⟨3⟩, ⟨4⟩]], ∀ v ∈ c.votes, v ∈ votes := by
    decide +kernel
  obtain ⟨hunique, hstore⟩ := finality_uniqueness honestSigning
  refine ⟨?_, cert [⟨1⟩, ⟨2⟩, ⟨3⟩], cert [⟨2⟩, ⟨3⟩, ⟨4⟩], ?_, ?_, ?_⟩
  · exact (hunique domain set _ _ 15000000 15000000 set_valid hbyz
      (hcerts _ (by decide +kernel)) (hcerts _ (by decide +kernel)) (by decide +kernel)
      (by decide +kernel) rfl).2.1
  · decide +kernel
  · decide +kernel
  · exact (hstore start _ set_valid hbyz hstart hcerts).1 [cert [⟨1⟩, ⟨2⟩, ⟨3⟩]]
      [cert [⟨2⟩, ⟨3⟩, ⟨4⟩]] 6 _ _ rfl (by decide +kernel) (by decide +kernel)

end ArcChain
