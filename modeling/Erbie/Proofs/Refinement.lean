import Erbie.Lib.Fold
import Erbie.Spec.Miner
import Erbie.Proofs.Rewards

/-! The producer of a block and its verifiers finalise it alike. The producer
runs `FinalizeAndAssemble`, which pays the validators its own `Prepare` wrote
into the extra data and raises the coefficients of the voters its own
`VoteResult` listed. A verifier runs `Finalize`, which derives both again: the
rewarded validators from the reward seals, the voters from the vote messages.

The reward seals are copies of the committed seals of the last normal header
cut to 65 bytes, and recovery accepts only 65-byte signatures, so the copies
recover to the same signers. The voters of a `VoteResult` are the signers of
its messages, mapped to their validators, as the proposer's event loop
gathers them from the votes `HandleMsg` accepts. -/

namespace Erbie

theorem ValidatorList.find?_of_getValidatorAddr_ne {vl : List Validator} {a : Address}
    (h : getValidatorAddr vl a ≠ zeroAddress) :
    ∃ v, ValidatorList.find? vl a = some v ∧ v.addr = getValidatorAddr vl a := by
  unfold getValidatorAddr at h ⊢
  cases hf : ValidatorList.find? vl a with
  | none =>
    rw [hf] at h
    exact absurd rfl h
  | some v => exact ⟨v, rfl, rfl⟩

/-! ### The votes the proposer gathers -/

section Votes

variable {codec : EmptyCodec} {c : Crypto} {vl : List Validator}

theorem handleMsg_validVote {self addr v : Address} {height : Nat} {data m : List UInt8}
    (h : handleMsg codec c (some vl) self height addr data = .ok (some (v, m))) :
    ValidVote codec c vl v m := by
  unfold handleMsg at h
  split at h
  · cases h
  rename_i msg hmsg
  split at h
  · cases h
  split at h
  · cases h
  split at h
  · cases h
  rename_i sender hsender
  dsimp only at h
  split at h
  · split at h <;> cases h
  rename_i hval
  split at h
  · cases h
    exact ⟨⟨msg, hmsg⟩, hsender, hval⟩
  · cases h

theorem valid_gatherOtherPeerSignature {self v : Address} {pm m : List UInt8}
    {ps : Option ProofState} {ps' : ProofState} (hself : ValidVote codec c vl self pm)
    (hv : ValidVote codec c vl v m) (hps : ∀ p, ps = some p → p.Valid codec c vl)
    (h : gatherOtherPeerSignature self pm ps v m = .ok ps') : ps'.Valid codec c vl := by
  cases ps with
  | none =>
    cases h
    exact ⟨hself, .cons hv .nil⟩
  | some p =>
    unfold gatherOtherPeerSignature at h
    dsimp only at h
    split_ifs at h
    cases h
    have hp := hps p rfl
    exact ⟨hp.proposer, List.rel_append hp.votes (.cons hv .nil)⟩

/-- Whatever the event loop gathers from valid votes, with the proposer's own
valid message, is a valid proof state. -/
theorem valid_gatherVotes {self : Address} {pm : List UInt8} (hself : ValidVote codec c vl self pm) :
    ∀ (evs : List (Address × List UInt8)) (ps : Option ProofState),
      (∀ ev ∈ evs, ValidVote codec c vl ev.1 ev.2) → (∀ p, ps = some p → p.Valid codec c vl) →
        ∀ p, gatherVotes self pm ps evs = some p → p.Valid codec c vl
  | [], ps, _, hps, p, h => hps p h
  | (v, m) :: rest, ps, hevs, hps, p, h => by
    have hv := hevs (v, m) List.mem_cons_self
    have hrest : ∀ ev ∈ rest, ValidVote codec c vl ev.1 ev.2 :=
      fun ev hev => hevs ev (List.mem_cons_of_mem _ hev)
    unfold gatherVotes at h
    split at h
    · rename_i ps' hg
      refine valid_gatherVotes hself rest (some ps') hrest (fun q hq => ?_) p h
      cases hq
      exact valid_gatherOtherPeerSignature hself hv hps hg
    · exact valid_gatherVotes hself rest ps hrest hps p h

/-- What the proposer's event loop gathers, from no proof state, out of the
votes `HandleMsg` posts behind its own valid message, is valid. -/
theorem valid_of_handleMsg {self : Address} {pm : List UInt8} (hself : ValidVote codec c vl self pm)
    {evs : List (Address × List UInt8)}
    (hevs : ∀ ev ∈ evs, ∃ height addr data, handleMsg codec c (some vl) self height addr data = .ok (some ev))
    {ps : ProofState} (hg : gatherVotes self pm none evs = some ps) : ps.Valid codec c vl := by
  have hvotes : ∀ ev ∈ evs, ValidVote codec c vl ev.1 ev.2 := fun ev hev => by
    obtain ⟨_, _, _, hm⟩ := hevs ev hev
    exact handleMsg_validVote hm
  exact valid_gatherVotes hself evs none hvotes (fun _ h => by cases h) ps hg

/-- A valid vote resolves, in `Finalize`, to the validator that
`GetValidatorAddr` names. -/
theorem voteAddrs_cons_of_validVote {v : Address} {m : List UInt8} (hv : ValidVote codec c vl v m)
    (rest : List (List UInt8)) :
    codec.voteAddrs c vl (m :: rest) = ValidatorList.getValidatorAddr vl v :: codec.voteAddrs c vl rest := by
  obtain ⟨⟨msg, hmsg⟩, hrec, hval⟩ := hv
  obtain ⟨val, hfind, haddr⟩ := ValidatorList.find?_of_getValidatorAddr_ne hval
  rw [EmptyCodec.voteAddrs, hmsg, hrec]
  simp only [hfind, haddr]

theorem voteAddrs_of_forall₂ {vs : List Address} {ms : List (List UInt8)}
    (h : List.Forall₂ (ValidVote codec c vl) vs ms) :
    codec.voteAddrs c vl ms = vs.map (ValidatorList.getValidatorAddr vl) := by
  induction h with
  | nil => rfl
  | cons hv _ ih => rw [voteAddrs_cons_of_validVote hv, ih, List.map_cons]

/-- The voters `Finalize` recovers from the messages of a `VoteResult` are the
voters it lists. -/
theorem voteAddrs_getAllEmptyMessage {ps : ProofState} (hps : ps.Valid codec c vl) :
    codec.voteAddrs c vl ps.getAllEmptyMessage = ps.getAllAddress vl := by
  rw [ProofState.getAllEmptyMessage, voteAddrs_cons_of_validVote hps.proposer,
    voteAddrs_of_forall₂ hps.votes]
  rfl

end Votes

/-! ### The rewarded validators -/

namespace Crypto

variable {c : Crypto} {view : ChainView}

theorem copySeal_of_length {v : List UInt8} (h : v.length = IstanbulExtraSeal) : copySeal v = v := by
  rw [copySeal, ← h, List.take_length, Nat.sub_self, List.replicate_zero, List.append_nil]

/-- Seals that recover are 65 bytes long, so their copies are the seals. -/
theorem map_copySeal_of_recoverSeals (hseal : c.SealLength) {hash : Hash} {seals : List (List UInt8)}
    {addrs : List Address} (h : c.recoverSeals hash seals = .ok addrs) : seals.map copySeal = seals := by
  rw [recoverSeals, Fold.mapM_except_eq_ok_iff] at h
  induction h with
  | nil => rfl
  | cons hsig _ ih =>
    rw [List.map_cons, ih, copySeal_of_length]
    split at hsig
    · rename_i addr hget
      exact hseal _ _ _ hget
    · cases hsig

theorem prepare_eq_ok {h : Header} {validators : List Address} {exchangers : Except Error (List Address)}
    {ea : EvilAction} {E : IstanbulExtra} (hp : c.prepare view h validators exchangers ea = some (.ok E)) :
    ¬(h.coinbase = zeroAddress ∧ 0 < h.number) ∧
      ∃ va rs pV X, c.prepareRewards view h = some (.ok (va, rs)) ∧ view.parentValidators = .ok pV ∧
        exchangers = .ok X ∧
        E = { validators := sortedAddresses validators, exchangerAddr := X,
              validatorAddr := restoreProxies pV va, rewardSeal := rs, evilAction := some ea } := by
  unfold prepare at hp
  split_ifs at hp with hcb
  · cases hp
  refine ⟨hcb, ?_⟩
  cases hpr : c.prepareRewards view h with
  | none =>
    rw [hpr] at hp
    cases hp
  | some rewards =>
    rw [hpr, Option.map_some, Option.some.injEq] at hp
    cases rewards with
    | error e => cases hp
    | ok p =>
      obtain ⟨va, rs⟩ := p
      cases hpv : view.parentValidators with
      | error e =>
        rw [hpv] at hp
        cases hp
      | ok pV =>
        cases hx : exchangers with
        | error e =>
          rw [hpv, hx] at hp
          cases hp
        | ok X =>
          rw [hpv, hx] at hp
          cases hp
          exact ⟨va, rs, pV, X, rfl, rfl, rfl, rfl⟩

/-- What `Prepare` writes as the rewarded validators is what `Finalize`
recovers from the reward seals it writes. -/
theorem finalizeRewards_of_prepareRewards (hseal : c.SealLength) {h : Header} {random11 : List Address}
    {pV : List Validator} {E : IstanbulExtra} {va : List Address} {rs : List (List UInt8)}
    (hr : view.random11 = .ok random11) (hp : c.prepareRewards view h = some (.ok (va, rs)))
    (hrs : E.rewardSeal = rs) :
    c.finalizeRewards view h random11 pV E = some (.ok (restoreProxies pV va)) := by
  unfold prepareRewards at hp
  unfold finalizeRewards
  split_ifs at hp ⊢ with h1
  · cases hp
    rfl
  rw [hr] at hp
  dsimp only at hp
  split_ifs at hp ⊢ with hq
  · cases hp
  cases hpre : view.preHeader with
  | error e =>
    rw [hpre] at hp
    cases hp
  | ok preHeader =>
    rw [hpre] at hp
    dsimp only at hp ⊢
    split_ifs at hp ⊢ with hemp
    · cases hp
      rfl
    cases hs : c.signers preHeader with
    | error e =>
      rw [hs] at hp
      cases hp
    | ok commiters =>
      rw [hs] at hp
      dsimp only at hp
      split_ifs at hp with hlen
      · cases hp
      cases hx : c.extractIstanbulExtra preHeader with
      | error e =>
        rw [hx] at hp
        cases hp
      | ok preExtra =>
        rw [hx] at hp
        cases hp
        have hsig : c.recoverSeals (c.hash preHeader) preExtra.committedSeal = .ok commiters := by
          rw [← hs, signers, hx]
          rfl
        rw [recoverRewards, hrs, map_copySeal_of_recoverSeals hseal hsig, hsig]
        simp [hlen]


/-- On a normal block that `Prepare` made, `Finalize` ends where
`FinalizeAndAssemble` does. -/
theorem finalize_eq_of_prepare (hseal : c.SealLength) (codec : EmptyCodec) {h : Header}
    (hnum : 0 < h.number) {E : IstanbulExtra} (he : c.extractIstanbulExtra h = .ok E)
    {validators : List Address} {exchangers : Except Error (List Address)} {ea : EvilAction}
    (hp : c.prepare view h validators exchangers ea = some (.ok E)) {s : StateDB} {r : Finalized}
    (hfa : c.finalizeAndAssemble view h s = .ok r) : c.finalize view codec h s = r := by
  obtain ⟨hcb, va, rs, pV, X, hpr, hpv, -, rfl⟩ := prepare_eq_ok hp
  have hcb' : h.coinbase ≠ zeroAddress := fun h0 => hcb ⟨h0, hnum⟩
  unfold finalizeAndAssemble at hfa
  rw [he] at hfa
  cases hr : view.random11 with
  | error e =>
    rw [hr] at hfa
    cases hfa
  | ok random11 =>
    cases hd : view.randomDrop with
    | error e =>
      rw [hr, hd] at hfa
      cases hfa
    | ok d =>
      rw [hr, hd] at hfa
      dsimp only at hfa
      rw [if_neg hcb'] at hfa
      unfold finalize
      rw [hr, he, hpv, hd]
      dsimp only
      rw [if_neg hcb', finalizeRewards_of_prepareRewards hseal hr hpr rfl]
      dsimp only at hfa ⊢
      -- the tail is shared, and splitting it splits both sides
      split at hfa <;> cases hfa <;> rfl


/-- On an empty block that `PrepareEmpty` made from a valid `VoteResult` of
the parent's validators, `Finalize` ends where `FinalizeAndAssemble` does. -/
theorem finalize_eq_of_prepareEmpty (codec : EmptyCodec) {h : Header} {E : IstanbulExtra}
    (he : c.extractIstanbulExtra h = .ok E) {pV : List Validator} {ps : ProofState}
    (hpv : view.parentValidators = .ok pV) (hps : ps.Valid codec c pV)
    (hp : Crypto.prepareEmpty h (ps.getAllAddress pV) ps.getAllEmptyMessage = .ok E) {s : StateDB}
    {r : Finalized} (hfa : c.finalizeAndAssemble view h s = .ok r) : c.finalize view codec h s = r := by
  unfold prepareEmpty at hp
  split_ifs at hp with hcb
  have hcb' : h.coinbase = zeroAddress := not_not.mp hcb
  cases hp
  unfold finalizeAndAssemble at hfa
  rw [he] at hfa
  cases hr : view.random11 with
  | error e =>
    rw [hr] at hfa
    cases hfa
  | ok random11 =>
    cases hd : view.randomDrop with
    | error e =>
      rw [hr, hd] at hfa
      cases hfa
    | ok d =>
      rw [hr, hd] at hfa
      dsimp only at hfa
      rw [if_pos hcb'] at hfa
      unfold finalize
      rw [hr, he, hpv, hd]
      dsimp only
      rw [if_pos hcb', voteAddrs_getAllEmptyMessage hps]
      -- an empty block carries no evil action, so nothing is punished
      simp only [ProofState.getAllAddress, sliceFrom_cons_one, Option.map_some,
        ChainView.punishEvilValidators] at hfa ⊢
      split at hfa <;> cases hfa <;> rfl

/-- An empty block that `PrepareEmpty` writes from what the event loop
gathered out of the votes `HandleMsg` accepted is produced. -/
theorem Produces.of_gatherVotes {codec : EmptyCodec} {h : Header} {E : IstanbulExtra}
    {pV : List Validator} (hpv : view.parentValidators = .ok pV) {self : Address} {pm : List UInt8}
    (hself : ValidVote codec c pV self pm) {evs : List (Address × List UInt8)}
    (hevs : ∀ ev ∈ evs, ∃ height addr data, handleMsg codec c (some pV) self height addr data = .ok (some ev))
    {ps : ProofState} (hg : gatherVotes self pm none evs = some ps)
    (hp : Crypto.prepareEmpty h (ps.getAllAddress pV) ps.getAllEmptyMessage = .ok E) :
    c.Produces view codec h E :=
  .prepareEmpty ps hpv (valid_of_handleMsg hself hevs hg) hp

/-- Producer and verifier finalisation agree: on every header that `Prepare`
or `PrepareEmpty` produced on a parent, with the miner's `VoteResult` for an
empty block, `Finalize` leaves what `FinalizeAndAssemble` leaves, hence the
same root. -/
theorem finalize_eq_finalizeAndAssemble (c : Crypto) (view : ChainView) (codec : EmptyCodec)
    (hseal : c.SealLength) {h : Header} (hnum : 0 < h.number) {E : IstanbulExtra}
    (he : c.extractIstanbulExtra h = .ok E) (hprod : c.Produces view codec h E) (s : StateDB)
    {r : Finalized} (hfa : c.finalizeAndAssemble view h s = .ok r) : c.finalize view codec h s = r := by
  cases hprod with
  | prepare validators exchangers ea hp => exact finalize_eq_of_prepare hseal codec hnum he hp hfa
  | prepareEmpty ps hpv hps hp => exact finalize_eq_of_prepareEmpty codec he hpv hps hp hfa

end Crypto

/-- A 65-byte seal whose first byte names its signer. -/
def sealBy (a : UInt8) : List UInt8 := a :: List.replicate 64 0

/-- The parent's validators 0x0a and 0x0b. -/
def sealedValidators : List Validator := [⟨10, ValidatorBase, 0, []⟩, ⟨11, ValidatorBase, 0, []⟩]

/-- What `Prepare` writes on block 2 over a parent that both validators
sealed: both as validators, 0x0b as the exchanger, the first signer as the
rewarded validator, and copies of both seals. -/
def rewardedExtra : IstanbulExtra :=
  { validators := [10, 11], exchangerAddr := [11], validatorAddr := [10],
    rewardSeal := [sealBy 10, sealBy 11], evilAction := some ⟨false, []⟩ }

/-- What `PrepareEmpty` writes from the proposer 0x0a's vote and 0x0b's. -/
def votedExtra : IstanbulExtra :=
  { validators := [10, 11], emptyBlockMessages := [sealBy 10, sealBy 11] }

/-- Recovery of 65-byte seals only; the last byte of a header's extra data
says which consensus fields it carries. -/
def sealCrypto : Crypto where
  decodeExtra b :=
    if b = [1] then .ok rewardedExtra
    else if b = [2] then .ok { committedSeal := [sealBy 10, sealBy 11] }
    else if b = [3] then .ok votedExtra
    else .error ErrInvalidIstanbulHeaderExtra
  hash _ := 0
  sigHash _ := 0
  getSignatureAddress _ sig :=
    if sig.length = IstanbulExtraSeal then .ok (BitVec.ofNat 160 (sig.headD 0).toNat)
    else .error ErrInvalidSignature

theorem sealCrypto_sealLength : sealCrypto.SealLength := fun _ sig _ h => by
  dsimp only [sealCrypto] at h
  split_ifs at h with hlen
  exact hlen

def taggedHeader (coinbase : Address) (number : Nat) (tag : UInt8) : Header where
  parentHash := 0
  coinbase := coinbase
  root := 0
  difficulty := some DefaultDifficulty
  number := number
  time := 0
  extra := List.replicate IstanbulExtraVanity 0 ++ [tag]
  mixDigest := IstanbulDigest
  nonce := EmptyBlockNonce

/-- Block 2's parent: block 1, sealed by both validators, both sampled. -/
def sealedView : ChainView where
  random11 := .ok [10, 11]
  parentValidators := .ok sealedValidators
  randomDrop := .ok 0
  preHeader := .ok (taggedHeader 10 1 2)
  rewardAmount := 100
  evilValidators := []

/-- Votes are 65-byte signatures for the proposer 0x0a at height 2. -/
def voteCodec : EmptyCodec where
  fromPayload b := if b.length = IstanbulExtraSeal then .ok ⟨0, [], 0, b⟩ else .error ErrInvalidSignature
  payloadNoSig m := m.msg
  decodeSignatureData _ := .ok ⟨10, 2, 0⟩

theorem finalize_eq_finalizeAndAssemble_on_sealed_blocks :
    sealCrypto.finalizeValidatorAddr sealedView (taggedHeader 10 2 1) = [10] ∧
      (∃ r, sealCrypto.finalizeAndAssemble sealedView (taggedHeader 10 2 1) backedValidator = .ok r ∧
        sealCrypto.finalize sealedView voteCodec (taggedHeader 10 2 1) backedValidator = r) ∧
      gatherVotes 10 (sealBy 10) none [(11, sealBy 11)] = some ⟨10, sealBy 10, [11], [sealBy 11]⟩ ∧
      (∃ r, sealCrypto.finalizeAndAssemble sealedView (taggedHeader 0 2 3) backedValidator = .ok r ∧
        sealCrypto.finalize sealedView voteCodec (taggedHeader 0 2 3) backedValidator = r) := by
  -- the kernel does not run the well-founded merge sort
  have hsort : Crypto.sortedAddresses [11, 10] = [10, 11] := by
    rw [Crypto.sortedAddresses, List.mergeSort]
    simp
  have hprep : sealCrypto.prepare sealedView (taggedHeader 10 2 1) [11, 10] (.ok [11]) ⟨false, []⟩ =
      some (.ok rewardedExtra) := by
    unfold Crypto.prepare
    rw [hsort]
    decide +kernel
  -- 0x0b's vote reaches the proposer 0x0a at height 1, and only it is gathered
  have hvote : handleMsg voteCodec sealCrypto (some sealedValidators) 10 1 11 (sealBy 11) =
      .ok (some (11, sealBy 11)) := by decide +kernel
  have hself : ValidVote voteCodec sealCrypto sealedValidators 10 (sealBy 10) :=
    ⟨⟨_, rfl⟩, rfl, by decide⟩
  have hg : gatherVotes 10 (sealBy 10) none [(11, sealBy 11)] = some ⟨10, sealBy 10, [11], [sealBy 11]⟩ := rfl
  have hevs : ∀ ev ∈ [(11, sealBy 11)], ∃ height addr data,
      handleMsg voteCodec sealCrypto (some sealedValidators) 10 height addr data = .ok (some ev) := by
    intro ev hev
    rw [List.mem_singleton.mp hev]
    exact ⟨1, 11, sealBy 11, hvote⟩
  have hempty : Crypto.prepareEmpty (taggedHeader 0 2 3)
      (ProofState.getAllAddress ⟨10, sealBy 10, [11], [sealBy 11]⟩ sealedValidators)
      (ProofState.getAllEmptyMessage ⟨10, sealBy 10, [11], [sealBy 11]⟩) = .ok votedExtra := by decide +kernel
  have hprod : sealCrypto.Produces sealedView voteCodec (taggedHeader 0 2 3) votedExtra :=
    .of_gatherVotes rfl hself hevs hg hempty
  obtain ⟨r₁, hr₁⟩ : ∃ r, sealCrypto.finalizeAndAssemble sealedView (taggedHeader 10 2 1) backedValidator =
      .ok r := ⟨_, by with_unfolding_all rfl⟩
  obtain ⟨r₂, hr₂⟩ : ∃ r, sealCrypto.finalizeAndAssemble sealedView (taggedHeader 0 2 3) backedValidator =
      .ok r := ⟨_, by with_unfolding_all rfl⟩
  refine ⟨by decide +kernel, ⟨r₁, hr₁, ?_⟩, hg, ⟨r₂, hr₂, ?_⟩⟩
  · exact Crypto.finalize_eq_finalizeAndAssemble sealCrypto sealedView voteCodec sealCrypto_sealLength
      (by decide) rfl (.prepare _ _ _ hprep) backedValidator hr₁
  · exact Crypto.finalize_eq_finalizeAndAssemble sealCrypto sealedView voteCodec sealCrypto_sealLength
      (by decide) rfl hprod backedValidator hr₂

end Erbie
