import Erbie.Lib.Quorum
import Erbie.Proofs.ValidatorList
import Erbie.Spec.Istanbul

/-! What the committed seals of a header prove, and against which set.

`verifyCommittedSeals` counts the signers by removing each from a copy of the
set, so it counts exactly a signer list that fits into the set, and it asks
for more than `F` of them (`validSeal <= F` refuses). Two such lists of one
set can be disjoint: the check is one of `F + 1` distinct signers, not of a
quorum.

`Backend.verifyHeader` builds the set from the header's own `Validators`.
Every check before the signer's reads no set, so a header that passes against
its own list is judged, against any other set, by the signer and seal checks
alone; against the committee drawn from the parent state, an author outside
it is refused, and `Backend.verifyHeader` still admits the header. -/

namespace Erbie

theorem length_of_mapM_eq_ok {ε α β : Type} (f : α → Except ε β) (l : List α) (r : List β)
    (h : l.mapM f = .ok r) : r.length = l.length := by
  induction l generalizing r with
  | nil =>
    cases h
    rfl
  | cons a l ih =>
    rw [List.mapM_cons] at h
    cases hf : f a with
    | error e =>
      rw [hf] at h
      cases h
    | ok b =>
      cases hl : l.mapM f with
      | error e =>
        rw [hf, hl] at h
        cases h
      | ok r' =>
        rw [hf, hl] at h
        cases h
        simp [ih r' hl]

/-- A member of the committee was drawn, or is the proxy of a validator of the
parent list. -/
theorem mem_random11ValidatorFromPool (vl : List Validator) (picked : List Address) (a : Address)
    (h : a ∈ (random11ValidatorFromPool vl picked).map Validator.addr) :
    a ∈ picked ∨ ∃ v ∈ vl, v.proxy = a := by
  unfold random11ValidatorFromPool at h
  -- the loop adds one address per draw: run it backwards from its last draw
  induction picked using List.reverseRecOn with
  | nil => simp at h
  | append_singleton l x ih =>
    rw [List.foldl_append, List.foldl_cons, List.foldl_nil] at h
    split at h
    · rename_i proxy hproxy
      rcases (ValidatorList.mem_addrs_addValidator _ _ _ _ _).mp h with rfl | hmem
      · obtain ⟨v, hv, -, hvp⟩ := ValidatorList.getProxy_eq_some hproxy
        exact .inr ⟨v, hv, hvp⟩
      · rcases ih hmem with hl | hv
        · exact .inl (List.mem_append_left _ hl)
        · exact .inr hv
    · rcases (ValidatorList.mem_addrs_addValidator _ _ _ _ _).mp h with rfl | hmem
      · exact .inl (List.mem_append_right _ (List.mem_singleton_self _))
      · rcases ih hmem with hl | hv
        · exact .inl (List.mem_append_left _ hl)
        · exact .inr hv

namespace Crypto

/-- The seal count is the length of the signer list, when the list fits into
the set with its repeats; otherwise it fails. -/
theorem countSeals_eq (vs : ValidatorSet) (cs : List Address) :
    countSeals vs cs = if cs.Subperm vs then some cs.length else none := by
  induction cs generalizing vs with
  | nil => simp [countSeals]
  | cons a rest ih =>
    simp only [Quorum.cons_subperm_iff]
    by_cases ha : a ∈ vs
    · simp only [countSeals, ValidatorSet.removeValidator, ha, if_true, ih, true_and]
      split_ifs <;> rfl
    · simp [countSeals, ValidatorSet.removeValidator, ha]

variable (c : Crypto)

theorem recoverSeals_length (hash : Hash) (seals : List (List UInt8)) (S : List Address)
    (h : c.recoverSeals hash seals = .ok S) : S.length = seals.length :=
  length_of_mapM_eq_ok _ _ _ h

/-- For a block with a coinbase, the committed seals pass exactly when their
signers are a nonempty list that fits into the set and outnumbers `F`. -/
theorem verifyCommittedSeals_eq_none_iff (h : Header) (V : ValidatorSet) (hnum : h.number ≠ 0)
    (hcoin : h.coinbase ≠ zeroAddress) :
    c.verifyCommittedSeals h V = none ↔
      ∃ S, c.signers h = .ok S ∧ S ≠ [] ∧ S.Subperm V ∧ V.F < S.length := by
  unfold verifyCommittedSeals
  simp only [hnum, hcoin, false_and, if_false]
  cases hx : c.extractIstanbulExtra h with
  | error err =>
    have hsig : c.signers h = .error err := by
      rw [signers, hx]
      rfl
    simp [hsig]
  | ok extra =>
    have hsig : c.signers h = c.recoverSeals (c.hash h) extra.committedSeal := by
      rw [signers, hx]
      rfl
    rw [hsig]
    by_cases he : extra.committedSeal = []
    · have hnone : c.recoverSeals (c.hash h) [] = .ok [] := rfl
      simp [he, hnone]
    · cases hr : c.recoverSeals (c.hash h) extra.committedSeal with
      | error err => simp [he]
      | ok S =>
        -- one signer per seal, so there are signers
        have hS : S ≠ [] := by
          intro hnil
          have hlen := c.recoverSeals_length _ _ _ hr
          rw [hnil] at hlen
          exact he (List.length_eq_zero_iff.mp hlen.symm)
        simp only [he, if_false, countSeals_eq]
        by_cases hsub : S.Subperm V
        · by_cases hF : (S.length : Int) ≤ V.F
          · simp [hsub, hF, hS]
          · simp [hsub, hF, hS]
            omega
        · simp [hsub]

section
variable (V : ValidatorSet) (h₁ h₂ : Header) (S₁ S₂ : List Address)

/-- Two blocks of one height whose seals come from disjoint parts of a
duplicate-free set, each of `F + 1` validators or more, both pass, and share no
sealer. -/
theorem verifyCommittedSeals_admits_disjoint (hV : V.Nodup) (hne : V ≠ [])
    (hnum₁ : h₁.number ≠ 0) (hcoin₁ : h₁.coinbase ≠ zeroAddress) (hs₁ : c.signers h₁ = .ok S₁)
    (hnum₂ : h₂.number ≠ 0) (hcoin₂ : h₂.coinbase ≠ zeroAddress) (hs₂ : c.signers h₂ = .ok S₂)
    (hsub : (S₁ ++ S₂).Subperm V) (hlen₁ : V.F < S₁.length) (hlen₂ : V.F < S₂.length) :
    c.verifyCommittedSeals h₁ V = none ∧ c.verifyCommittedSeals h₂ V = none ∧
      ((S₁.toFinset ∩ S₂.toFinset).card : Int) < V.F + 1 := by
  have hF : 0 ≤ V.F := Quorum.faulty_nonneg (List.length_pos_iff.mpr hne)
  have hsub₁ : S₁.Subperm V := (List.sublist_append_left S₁ S₂).subperm.trans hsub
  have hsub₂ : S₂.Subperm V := (List.sublist_append_right S₁ S₂).subperm.trans hsub
  have hne₁ : S₁ ≠ [] := by
    intro hnil
    rw [hnil] at hlen₁
    simp at hlen₁
    omega
  have hne₂ : S₂ ≠ [] := by
    intro hnil
    rw [hnil] at hlen₂
    simp at hlen₂
    omega
  have hdisj := Quorum.disjoint_of_append_subperm hV hsub
  refine ⟨?_, ?_, ?_⟩
  · exact (c.verifyCommittedSeals_eq_none_iff h₁ V hnum₁ hcoin₁).mpr ⟨S₁, hs₁, hne₁, hsub₁, hlen₁⟩
  · exact (c.verifyCommittedSeals_eq_none_iff h₂ V hnum₂ hcoin₂).mpr ⟨S₂, hs₂, hne₂, hsub₂, hlen₂⟩
  · rw [hdisj, Finset.card_empty]
    omega

end

end Crypto

/-! Four validators, `F = 1`: one block sealed by the first two, another by
the last two. -/

def sealerA : Address := 0x11#160
def sealerB : Address := 0x12#160
def sealerC : Address := 0x13#160
def sealerD : Address := 0x14#160

/-- The extra data of a header ending in `1` holds seals `[1]` and `[2]`, any
other the seals `[3]` and `[4]`; seal `[i]` recovers to the `i`th sealer. -/
def splitSealCrypto : Crypto where
  decodeExtra bytes :=
    if bytes = [1] then .ok { committedSeal := [[1], [2]] } else .ok { committedSeal := [[3], [4]] }
  hash _ := 0
  sigHash _ := 0
  getSignatureAddress _ sig :=
    match sig with
    | [1] => .ok sealerA
    | [2] => .ok sealerB
    | [3] => .ok sealerC
    | _ => .ok sealerD

def sealedHeader (tag : UInt8) : Header where
  parentHash := 0
  coinbase := sealerA
  root := 0
  difficulty := some DefaultDifficulty
  number := 1
  time := 0
  extra := List.replicate IstanbulExtraVanity 0 ++ [tag]
  mixDigest := IstanbulDigest
  nonce := EmptyBlockNonce

theorem verifyCommittedSeals_admits_disjoint_of_four :
    splitSealCrypto.verifyCommittedSeals (sealedHeader 1) [sealerA, sealerB, sealerC, sealerD] =
        none ∧
      splitSealCrypto.verifyCommittedSeals (sealedHeader 2) [sealerA, sealerB, sealerC, sealerD] =
        none ∧
      (([sealerA, sealerB].toFinset ∩ [sealerC, sealerD].toFinset).card : Int) <
        ValidatorSet.F [sealerA, sealerB, sealerC, sealerD] + 1 :=
  Crypto.verifyCommittedSeals_admits_disjoint splitSealCrypto [sealerA, sealerB, sealerC, sealerD]
    (sealedHeader 1) (sealedHeader 2) [sealerA, sealerB] [sealerC, sealerD] (by decide) (by decide)
    (by decide) (by decide) rfl (by decide) (by decide) rfl (List.Subperm.refl _) (by decide)
    (by decide)

namespace Crypto

variable (c : Crypto) (chain : Chain)

/-- Once a header with a coinbase passes against one set, its verdict against
any other set is the signer check followed by the seal check: the checks
before them read no set. -/
theorem verifyHeader_eq_of_eq_none (now : Nat) (h : Header) (parents : List Header)
    (W V : ValidatorSet) (hnum : h.number ≠ 0) (hcoin : h.coinbase ≠ zeroAddress)
    (hpass : c.verifyHeader chain now h parents W = none) :
    c.verifyHeader chain now h parents V =
      (c.verifySigner h V).orElse fun _ => c.verifyCommittedSeals h V := by
  unfold verifyHeader verifyCascadingFields at *
  simp only [hnum, hcoin, false_and, if_false] at *
  split_ifs at hpass ⊢
  split at hpass
  · cases hpass
  · split_ifs at hpass ⊢
    cases c.verifySigner h V <;> rfl

/-- `Backend.verifyHeader` admits a header that passes against its own
validator list, although its author is neither drawn into the committee of the
parent state nor the proxy of a parent validator, and the engine check against
that committee refuses it. -/
theorem backendVerifyHeader_admits_outside_committee (now : Nat) (genesis h : Header)
    (parents : List Header) (vl : List Validator) (picked : List Address)
    (extra : IstanbulExtra) (x : Address)
    (hnum : h.number ≠ 0) (hcoin : h.coinbase ≠ zeroAddress)
    (hextra : c.extractIstanbulExtra h = .ok extra) (hauthor : c.author h = .ok x)
    (hpass : c.verifyHeader chain now h parents extra.validators = none)
    (hpicked : x ∉ picked) (hproxy : ∀ v ∈ vl, v.proxy ≠ x) :
    c.backendVerifyHeader chain now none genesis h parents = none ∧
      c.verifyHeader chain now h parents
        ((random11ValidatorFromPool vl picked).map Validator.addr) = some ErrUnauthorized := by
  have hout : x ∉ (random11ValidatorFromPool vl picked).map Validator.addr := by
    intro hx
    rcases mem_random11ValidatorFromPool vl picked x hx with hx | ⟨v, hv, hvx⟩
    · exact hpicked hx
    · exact hproxy v hv hvx
  constructor
  · simp [backendVerifyHeader, hnum, hextra, hpass]
  · rw [c.verifyHeader_eq_of_eq_none chain now h parents _ _ hnum hcoin hpass]
    have hfind : ValidatorSet.getByAddress
        ((random11ValidatorFromPool vl picked).map Validator.addr) x = none := by
      simp only [ValidatorSet.getByAddress, List.find?_eq_none, decide_eq_true_eq]
      rintro a ha rfl
      exact hout ha
    have hsigner : c.verifySigner h ((random11ValidatorFromPool vl picked).map Validator.addr) =
        some ErrUnauthorized := by
      simp [verifySigner, hnum, hauthor, hfind]
    rw [hsigner]
    rfl

end Crypto

/-! A parent state with one validator, `parentValidator`, drawn into the
committee; a header that names `outsider` as its only validator and whose
seals all recover to `outsider`. -/

def parentValidator : Address := 0x21#160
def outsider : Address := 0x22#160

def outsiderCrypto : Crypto where
  decodeExtra _ := .ok { validators := [outsider], proposerSeal := [1], committedSeal := [[2]] }
  hash _ := 0
  sigHash _ := 0
  getSignatureAddress _ _ := .ok outsider

def outsiderChain : Chain where
  blockPeriod := 0
  allowedFutureBlockTime := 0
  getHeader _ _ := some { sealedHeader 0 with number := 0 }

def outsiderHeader : Header := { sealedHeader 0 with coinbase := outsider }

theorem backendVerifyHeader_admits_outsider :
    outsiderCrypto.backendVerifyHeader outsiderChain 0 none outsiderHeader outsiderHeader [] = none ∧
      outsiderCrypto.verifyHeader outsiderChain 0 outsiderHeader []
        ((random11ValidatorFromPool [⟨parentValidator, ValidatorBase, zeroAddress, []⟩]
          [parentValidator]).map Validator.addr) = some ErrUnauthorized :=
  Crypto.backendVerifyHeader_admits_outside_committee outsiderCrypto outsiderChain 0 outsiderHeader
    outsiderHeader [] [⟨parentValidator, ValidatorBase, zeroAddress, []⟩] [parentValidator]
    { validators := [outsider], proposerSeal := [1], committedSeal := [[2]] } outsider
    (by decide) (by decide) rfl rfl (by decide) (by decide) (by decide)

end Erbie
