import Erbie.Proofs.Frame

/-! The staking ledger. A stake of `S` on `V` is written twice, as the entry of
`V` in the staker extension of `S` and as the entry of `S` in the validator
extension of `V`, and `V`'s pledged balance is the sum of its validator
extension. `LedgerInv` says that the two records agree, that a recorded stake
is at least `StakerBase`, and that the pledged balance is the sum.

A stake credits both records and the pledged balance by one amount; an unstake
that passes `HandleCSBT`'s checks takes the whole stake or leaves at least
`StakerBase`, on both records; the refund loop of `RevocateAllStakers` drops
every staker's record and then empties the validator extension. Everything
else keeps the ledger (`Erbie.Proofs.Frame`). So the invariant holds along
every run of `StakingStep` from a state where it holds. -/

namespace Erbie

/-- The transitions of the staking ledger: a call through `EVM.Call` (its
value check, the callee's creation, `HandleCSBT` of an Erbie transaction of any
type or the plain transfer, the precompile or the contract code, and the
revert to the snapshot when they fail), with an interpreter whose contract
code writes nothing; and the finalisation of a block that does not panic. -/
inductive StakingStep : StateDB → StateDB → Prop
  | call (evm : EVM) (hinert : evm.Inert) (s : StateDB) (caller addr : Address) (input : List UInt8)
      (gas value : Nat) : StakingStep s (evm.call s caller addr input gas value).1
  | finalize (c : Crypto) (view : ChainView) (codec : EmptyCodec) (h : Header) {s s' : StateDB}
      (hs : c.finalize view codec h s = .done s' ∨ c.finalize view codec h s = .stopped s') :
      StakingStep s s'

namespace StateDB

/-- The stake of `fromAddr` on `addr`, as `fromAddr`'s staker extension has it. -/
def stakeOf (s : StateDB) (fromAddr addr : Address) : Option Int :=
  BalanceList.lookup (s.worm fromAddr).stakerExtension addr

/-- The stake of `fromAddr` on `addr`, as `addr`'s validator extension has it. -/
def backingOf (s : StateDB) (addr fromAddr : Address) : Option Int :=
  BalanceList.lookup (s.worm addr).validatorExtension fromAddr

variable (s : StateDB)

theorem getStakerPledged_balance (fromAddr addr : Address) :
    (s.getStakerPledged fromAddr addr).balance = (s.stakeOf fromAddr addr).getD 0 := by
  rw [getStakerPledged, stakeOf, ← BalanceList.find?_map_balance]
  cases (s.worm fromAddr).stakerExtension.find? (fun e => e.addr = addr) <;> rfl

end StateDB

theorem LedgerFrame.stakeOf_eq {s s' : StateDB} (hf : LedgerFrame s s') :
    s'.stakeOf = s.stakeOf := by
  funext S V
  exact congrArg (fun st => BalanceList.lookup st.1 V) (hf.stakes S)

/-! ### What a stake and an unstake can do

`HandleCSBT` reads the stake of the caller, which creates the caller's object,
and then either fails or stakes (`StakerPledge` and `ResetMinerBecome`) or
unstakes (`NewCancelStakerPledge`). An unstake moves balances and coefficients
and then removes the stake, and when a validator withdraws its whole stake on
itself it refunds every other staker. -/

namespace StateDB

variable (s : StateDB)

theorem newCancelStakerPledge_cases (f a : Address) (amount : Int) (bn : Nat) :
    ∃ t, LedgerFrame s t ∧ ((s.newCancelStakerPledge f a amount bn).1 = t ∨
      (s.newCancelStakerPledge f a amount bn).1 = t.removePledge f a amount ∨
      (s.newCancelStakerPledge f a amount bn).1 = (t.removePledge f a amount).revocateAllStakers a bn) := by
  set s₀ := ((s.getOrNewAccountStateObject a).getOrNewAccountStateObject f).getOrNewStakerStateObject
    ValidatorStorageAddress
  have h₀ : LedgerFrame s s₀ := ((s.ledgerFrame_getOrNewAccountStateObject a).trans
    (ledgerFrame_getOrNewAccountStateObject _ f)).trans (ledgerFrame_getOrNewStakerStateObject _ _)
  unfold newCancelStakerPledge
  dsimp only
  split_ifs
  · exact ⟨s₀, h₀, .inl rfl⟩
  · -- the punishment goes to the zero address, the rest to the validator
    refine ⟨_, ?_, .inr (.inr rfl)⟩
    exact ((h₀.trans (ledgerFrame_addBalance _ f _)).trans (ledgerFrame_addBalance _ zeroAddress _)).trans
      (ledgerFrame_setCoefficient _ f VALIDATOR_COEFFICIENT)
  · refine ⟨_, ?_, .inr (.inl rfl)⟩
    exact ((h₀.trans (ledgerFrame_addBalance _ f _)).trans (ledgerFrame_addBalance _ zeroAddress _)).trans
      (ledgerFrame_setCoefficient _ f VALIDATOR_COEFFICIENT)
  · refine ⟨_, ?_, .inr (.inr rfl)⟩
    exact h₀.trans (ledgerFrame_addBalance _ f _)
  · refine ⟨_, ?_, .inr (.inl rfl)⟩
    exact h₀.trans (ledgerFrame_addBalance _ f _)
  · refine ⟨_, ?_, .inr (.inl rfl)⟩
    exact h₀.trans (ledgerFrame_addBalance _ f _)

end StateDB

namespace EVM

variable (evm : EVM) (s : StateDB)

/-- A stake fails after reading the caller's stake, or passes the check of
`StakerBase` and stakes. -/
theorem handleCSBT_stake_cases (caller addr : Address) (wh : Wormholes) (value : Nat)
    (h3 : wh.type = 3) :
    (evm.handleCSBT s caller addr wh value).1 = s.getOrNewAccountStateObject caller ∨
      (¬((s.getStakerPledged caller addr).balance < StakerBase ∧ (value : Int) < StakerBase) ∧
        (evm.handleCSBT s caller addr wh value) =
          ((s.getOrNewAccountStateObject caller).stakerPledge caller addr value evm.blockNumber
            wh.proxyAddress).resetMinerBecome addr) := by
  have hfmt : wh.checkFormat = none := by simp [Wormholes.checkFormat, h3]
  unfold handleCSBT
  simp only [hfmt, h3]
  unfold StateDB.readStakerPledged
  dsimp only
  by_cases hcheck : (s.getStakerPledged caller addr).balance < StakerBase ∧ (value : Int) < StakerBase
  · left
    simp only [if_pos hcheck]
  · by_cases ht : canTransfer (s.getOrNewAccountStateObject caller) caller value = true
    · exact .inr ⟨hcheck, by simp only [if_neg hcheck, if_pos ht]⟩
    · left
      simp only [if_neg hcheck, if_neg ht]

theorem handleCSBT_stake_eq (caller addr : Address) (wh : Wormholes) (value : Nat) (h3 : wh.type = 3)
    (hcheck : ¬((s.getStakerPledged caller addr).balance < StakerBase ∧ (value : Int) < StakerBase))
    (hpay : (value : Int) ≤ s.getBalance caller) :
    evm.handleCSBT s caller addr wh value =
      ((s.getOrNewAccountStateObject caller).stakerPledge caller addr value evm.blockNumber
        wh.proxyAddress).resetMinerBecome addr := by
  have hfmt : wh.checkFormat = none := by simp [Wormholes.checkFormat, h3]
  have ht : canTransfer (s.getOrNewAccountStateObject caller) caller value = true := by
    simpa [canTransfer] using hpay
  unfold handleCSBT
  simp only [hfmt, h3]
  unfold StateDB.readStakerPledged
  dsimp only
  rw [if_neg hcheck, if_pos ht]

/-- An unstake fails after reading the caller's stake, or passes the check
that the whole stake goes or at least `StakerBase` stays, and unstakes. -/
theorem handleCSBT_unstake_cases (caller addr : Address) (wh : Wormholes) (value : Nat)
    (h4 : wh.type = 4) :
    (evm.handleCSBT s caller addr wh value).1 = s.getOrNewAccountStateObject caller ∨
      (¬((s.getStakerPledged caller addr).balance ≠ value ∧
          (s.getStakerPledged caller addr).balance - value < StakerBase) ∧
        (evm.handleCSBT s caller addr wh value) =
          (s.getOrNewAccountStateObject caller).newCancelStakerPledge caller addr value
            evm.blockNumber) := by
  have hfmt : wh.checkFormat = none := by simp [Wormholes.checkFormat, h4]
  unfold handleCSBT
  simp only [hfmt, h4]
  unfold StateDB.readStakerPledged
  dsimp only
  by_cases hcheck : (s.getStakerPledged caller addr).balance ≠ value ∧
      (s.getStakerPledged caller addr).balance - value < StakerBase
  · left
    simp only [if_pos hcheck]
  · -- an unstake within `CancelDayPledgedInterval` blocks of the stake fails
    by_cases ht : CancelDayPledgedInterval ≤
        (evm.blockNumber : Int) - (s.getStakerPledged caller addr).blockNumber
    · exact .inr ⟨hcheck, by simp only [if_neg hcheck, if_pos ht]⟩
    · left
      simp only [if_neg hcheck, if_neg ht]

end EVM

/-- The staking ledger is consistent. -/
structure LedgerInv (s : StateDB) : Prop where
  stakers_nodup : ∀ a, (BalanceList.keys (s.worm a).stakerExtension).Nodup
  backers_nodup : ∀ a, (BalanceList.keys (s.worm a).validatorExtension).Nodup
  mirror : ∀ S V, s.stakeOf S V = s.backingOf V S
  atLeastBase : ∀ S V b, s.stakeOf S V = some b → StakerBase ≤ b
  pledged : ∀ V, s.getPledgedBalance V = getAllBalance (s.worm V).validatorExtension

namespace LedgerInv

variable {s : StateDB}

theorem of_stakes (h : LedgerInv s) {s' : StateDB}
    (hs : ∀ a, (s'.worm a).stakes = (s.worm a).stakes) : LedgerInv s' := by
  have hse : ∀ a, (s'.worm a).stakerExtension = (s.worm a).stakerExtension :=
    fun a => congrArg Prod.fst (hs a)
  have hve : ∀ a, (s'.worm a).validatorExtension = (s.worm a).validatorExtension :=
    fun a => congrArg (·.2.1) (hs a)
  have hp : ∀ a, (s'.worm a).pledgedBalance = (s.worm a).pledgedBalance :=
    fun a => congrArg (·.2.2) (hs a)
  refine ⟨fun a => ?_, fun a => ?_, fun S V => ?_, fun S V b => ?_, fun V => ?_⟩
  · rw [hse]; exact h.stakers_nodup a
  · rw [hve]; exact h.backers_nodup a
  · simp only [StateDB.stakeOf, StateDB.backingOf, hse, hve]; exact h.mirror S V
  · simp only [StateDB.stakeOf, hse]; exact h.atLeastBase S V b
  · simp only [StateDB.getPledgedBalance, hp, hve]; exact h.pledged V

theorem of_frame (h : LedgerInv s) {s' : StateDB} (hf : LedgerFrame s s') : LedgerInv s' :=
  h.of_stakes hf.stakes

theorem lookup_mirror (h : LedgerInv s) (S V : Address) :
    BalanceList.lookup (s.worm S).stakerExtension V =
      BalanceList.lookup (s.worm V).validatorExtension S :=
  h.mirror S V

/-! ### A stake -/

/-- A stake that leaves the staker with at least `StakerBase` on the
validator keeps the ledger. -/
theorem stakerPledge (h : LedgerInv s) {f a : Address} {amount : Int} (bn : Nat) (px : String)
    (hbase : StakerBase ≤ (s.stakeOf f a).getD 0 + amount) :
    LedgerInv (s.stakerPledge f a amount bn px) := by
  set s' := s.stakerPledge f a amount bn px
  have hse : ∀ b, (s'.worm b).stakerExtension = if b = f then
      BalanceList.credit (s.worm f).stakerExtension a amount bn else (s.worm b).stakerExtension := by
    intro b
    rw [StateDB.worm_stakerPledge]
    dsimp only
    split_ifs with hb
    · subst hb; rfl
    · rfl
  have hve : ∀ b, (s'.worm b).validatorExtension = if b = a then
      BalanceList.credit (s.worm a).validatorExtension f amount bn
      else (s.worm b).validatorExtension := by
    intro b
    rw [StateDB.worm_stakerPledge]
    dsimp only
    split_ifs with hb
    · subst hb; rfl
    · rfl
  have hp : ∀ b, s'.getPledgedBalance b = if b = a then s.getPledgedBalance a + amount
      else s.getPledgedBalance b := by
    intro b
    rw [StateDB.getPledgedBalance, StateDB.worm_stakerPledge]
    dsimp only
    split_ifs with hb
    · subst hb; rfl
    · rfl
  have hm := h.lookup_mirror
  refine ⟨fun b => ?_, fun b => ?_, fun S V => ?_, fun S V x hx => ?_, fun V => ?_⟩
  · rw [hse]
    split_ifs
    · exact BalanceList.nodup_credit (h.stakers_nodup f) a amount bn
    · exact h.stakers_nodup b
  · rw [hve]
    split_ifs
    · exact BalanceList.nodup_credit (h.backers_nodup a) f amount bn
    · exact h.backers_nodup b
  · -- both records of the stake of `f` on `a` grow by `amount`
    simp only [StateDB.stakeOf, StateDB.backingOf, hse, hve]
    by_cases hS : S = f <;> by_cases hV : V = a <;>
      simp [hS, hV, BalanceList.lookup_credit, hm]
  · simp only [StateDB.stakeOf, hse] at hx
    by_cases hS : S = f
    · subst hS
      by_cases hV : V = a
      · subst hV
        simp only [if_true, BalanceList.lookup_credit, Option.some.injEq] at hx
        rw [← hx]
        exact hbase
      · simp only [if_true, BalanceList.lookup_credit, hV, if_false] at hx
        exact h.atLeastBase S V x hx
    · simp only [hS, if_false] at hx
      exact h.atLeastBase S V x hx
  · rw [hp, hve]
    split_ifs with hV
    · subst hV
      rw [h.pledged V, getAllBalance, getAllBalance, BalanceList.total_credit]
    · exact h.pledged V

/-! ### An unstake -/

/-- What `HandleCSBT` checks before an unstake: the whole stake is withdrawn,
or at least `StakerBase` stays. -/
def Unstakable (s : StateDB) (f a : Address) (amount : Int) : Prop :=
  0 ≤ amount ∧ ((s.stakeOf f a).getD 0 = amount ∨ StakerBase ≤ (s.stakeOf f a).getD 0 - amount)

theorem removePledge (h : LedgerInv s) {f a : Address} {amount : Int}
    (hu : Unstakable s f a amount) : LedgerInv (s.removePledge f a amount) := by
  obtain ⟨hnn, hcheck⟩ := hu
  set s' := s.removePledge f a amount
  have hse : ∀ b, (s'.worm b).stakerExtension = if b = f then
      BalanceList.debit (s.worm f).stakerExtension a amount else (s.worm b).stakerExtension := by
    intro b
    rw [StateDB.worm_removePledge]
    dsimp only
    split_ifs with hb
    · subst hb; rfl
    · rfl
  have hve : ∀ b, (s'.worm b).validatorExtension = if b = a then
      BalanceList.debit (s.worm a).validatorExtension f amount else (s.worm b).validatorExtension := by
    intro b
    rw [StateDB.worm_removePledge]
    dsimp only
    split_ifs with hb
    · subst hb; rfl
    · rfl
  have hp : ∀ b, s'.getPledgedBalance b = if b = a then s.getPledgedBalance a - amount
      else s.getPledgedBalance b := by
    intro b
    rw [StateDB.getPledgedBalance, StateDB.worm_removePledge]
    dsimp only
    split_ifs with hb
    · subst hb; rfl
    · rfl
  have hm := h.lookup_mirror
  have hbase := stakerBase_pos
  refine ⟨fun b => ?_, fun b => ?_, fun S V => ?_, fun S V x hx => ?_, fun V => ?_⟩
  · rw [hse]
    split_ifs
    · exact BalanceList.nodup_debit (h.stakers_nodup f) a amount
    · exact h.stakers_nodup b
  · rw [hve]
    split_ifs
    · exact BalanceList.nodup_debit (h.backers_nodup a) f amount
    · exact h.backers_nodup b
  · -- both records of the stake of `f` on `a` lose `amount`, or both go
    simp only [StateDB.stakeOf, StateDB.backingOf, hse, hve]
    by_cases hS : S = f <;> by_cases hV : V = a
    · subst hS hV
      simp [BalanceList.lookup_debit (h.stakers_nodup S), BalanceList.lookup_debit (h.backers_nodup V),
        hm]
    · simp [hS, hV, BalanceList.lookup_debit (h.stakers_nodup f), hm]
    · simp [hS, hV, BalanceList.lookup_debit (h.backers_nodup a), hm]
    · simp [hS, hV, hm]
  · simp only [StateDB.stakeOf, hse] at hx
    by_cases hSV : S = f ∧ V = a
    · obtain ⟨rfl, rfl⟩ := hSV
      simp only [if_true, BalanceList.lookup_debit (h.stakers_nodup S)] at hx
      obtain ⟨y, hy, hx⟩ := Option.bind_eq_some_iff.mp hx
      split_ifs at hx with hlt
      cases hx
      -- a partial withdrawal: the check left at least `StakerBase`
      simp only [StateDB.stakeOf, hy, Option.getD_some] at hcheck
      omega
    · have hx' : BalanceList.lookup (s.worm S).stakerExtension V = some x := by
        by_cases hS : S = f
        · subst hS
          have hV : V ≠ a := fun hV => hSV ⟨rfl, hV⟩
          simpa [BalanceList.lookup_debit (h.stakers_nodup S), hV] using hx
        · simpa [hS] using hx
      exact h.atLeastBase S V x hx'
  · rw [hp, hve]
    split_ifs with hV
    · subst hV
      rw [h.pledged V, getAllBalance, getAllBalance, BalanceList.total_debit (h.backers_nodup V)]
      -- the amount taken from the extension is `amount`: the whole stake, or less than it
      have hcheck' := hcheck
      simp only [StateDB.stakeOf, hm] at hcheck'
      cases hb : BalanceList.lookup (s.worm V).validatorExtension f with
      | none =>
        simp only [hb, Option.getD_none] at hcheck'
        simp only [Option.elim]
        omega
      | some y =>
        simp only [hb, Option.getD_some] at hcheck'
        simp only [Option.elim]
        split_ifs <;> omega
    · exact h.pledged V

end LedgerInv

/-! ### The refund of every staker -/

namespace StateDB

variable (s : StateDB)

theorem stakerExtension_revocateStaker (addr b : Address) (e : ValidatorExtension) :
    ((StateDB.revocateStaker addr s e).worm b).stakerExtension = if b = e.addr then
      BalanceList.debit (s.worm e.addr).stakerExtension addr e.balance
      else (s.worm b).stakerExtension := by
  rw [StateDB.worm_revocateStaker]
  dsimp only
  split_ifs with hb
  · subst hb; rfl
  · rfl

theorem validatorExtension_foldl_revocateStaker (addr b : Address) (l : List ValidatorExtension) :
    ((l.foldl (StateDB.revocateStaker addr) s).worm b).validatorExtension =
      (s.worm b).validatorExtension := by
  induction l generalizing s with
  | nil => rfl
  | cons e l ih => rw [List.foldl_cons, ih, StateDB.worm_revocateStaker]

theorem getPledgedBalance_foldl_revocateStaker (addr b : Address) (l : List ValidatorExtension) :
    (l.foldl (StateDB.revocateStaker addr) s).getPledgedBalance b =
      if b = addr then s.getPledgedBalance addr - BalanceList.total l else s.getPledgedBalance b := by
  induction l generalizing s with
  | nil => by_cases hb : b = addr <;> simp [hb]
  | cons e l ih =>
    rw [List.foldl_cons, ih]
    simp only [StateDB.getPledgedBalance, StateDB.worm_revocateStaker, BalanceList.total_cons]
    split_ifs <;> omega

theorem nodup_foldl_revocateStaker (addr : Address) (l : List ValidatorExtension)
    (hnd : ∀ S, (BalanceList.keys (s.worm S).stakerExtension).Nodup) (S : Address) :
    (BalanceList.keys ((l.foldl (StateDB.revocateStaker addr) s).worm S).stakerExtension).Nodup := by
  induction l generalizing s with
  | nil => exact hnd S
  | cons e l ih =>
    refine ih _ (fun S => ?_)
    rw [stakerExtension_revocateStaker]
    split_ifs
    · exact BalanceList.nodup_debit (hnd e.addr) addr e.balance
    · exact hnd S

theorem stakeOf_foldl_revocateStaker (addr : Address) (l : List ValidatorExtension)
    (hl : (BalanceList.keys l).Nodup)
    (hnd : ∀ S, (BalanceList.keys (s.worm S).stakerExtension).Nodup)
    (hin : ∀ e ∈ l, s.stakeOf e.addr addr = some e.balance) (S V : Address) :
    (l.foldl (StateDB.revocateStaker addr) s).stakeOf S V =
      if V = addr ∧ S ∈ BalanceList.keys l then none else s.stakeOf S V := by
  induction l generalizing s with
  | nil => simp
  | cons e l ih =>
    have he : e.addr ∉ BalanceList.keys l := (List.nodup_cons.mp hl).1
    set s₁ := StateDB.revocateStaker addr s e
    have hstake : ∀ S V, s₁.stakeOf S V =
        if S = e.addr ∧ V = addr then none else s.stakeOf S V := by
      intro S V
      simp only [StateDB.stakeOf, s₁, stakerExtension_revocateStaker]
      by_cases hS : S = e.addr
      · subst hS
        by_cases hV : V = addr
        · subst hV
          have := hin e List.mem_cons_self
          simp only [StateDB.stakeOf] at this
          simp [BalanceList.lookup_debit (hnd e.addr), this]
        · simp [BalanceList.lookup_debit (hnd e.addr), hV]
      · simp [hS]
    have hin₁ : ∀ e' ∈ l, s₁.stakeOf e'.addr addr = some e'.balance := by
      intro e' he'
      have hne : e'.addr ≠ e.addr := fun heq => he (heq ▸ List.mem_map_of_mem he')
      rw [hstake, if_neg (fun h => hne h.1)]
      exact hin e' (List.mem_cons_of_mem e he')
    have hnd₁ : ∀ S, (BalanceList.keys (s₁.worm S).stakerExtension).Nodup :=
      nodup_foldl_revocateStaker s addr [e] hnd
    rw [List.foldl_cons, ih s₁ (List.nodup_cons.mp hl).2 hnd₁ hin₁, hstake]
    by_cases hV : V = addr <;> by_cases hS : S = e.addr <;> simp [hV, hS, BalanceList.keys_cons]

end StateDB

namespace LedgerInv

variable {s : StateDB}

open StateDB in
theorem revocateAllStakers (h : LedgerInv s) (addr : Address) (bn : Nat) :
    LedgerInv (s.revocateAllStakers addr bn) := by
  unfold StateDB.revocateAllStakers
  dsimp only
  rw [StateDB.worm_getOrNewAccountStateObject]
  set s₀ := (s.getOrNewAccountStateObject addr).getOrNewStakerStateObject ValidatorStorageAddress
  have h₀ : LedgerInv s₀ := h.of_frame ((s.ledgerFrame_getOrNewAccountStateObject addr).trans
    (StateDB.ledgerFrame_getOrNewStakerStateObject _ _))
  have hL : (s.worm addr).validatorExtension = (s₀.worm addr).validatorExtension := by
    simp [s₀]
  rw [hL]
  set L := (s₀.worm addr).validatorExtension
  set s₁ := L.foldl (StateDB.revocateStaker addr) s₀
  -- every staker in the validator extension still holds its stake when the loop reaches it
  have hin : ∀ e ∈ L, s₀.stakeOf e.addr addr = some e.balance := fun e he => by
    rw [h₀.mirror]
    exact BalanceList.lookup_of_mem (h₀.backers_nodup addr) he
  have hstake := stakeOf_foldl_revocateStaker s₀ addr L (h₀.backers_nodup addr) h₀.stakers_nodup hin
  have hw : ∀ b, (s₁.updateAccount addr (·.setValidatorExtension [])).worm b =
      if b = addr then { s₁.worm addr with validatorExtension := [] } else s₁.worm b := by
    intro b
    simp [Account.setValidatorExtension]
  refine ⟨fun b => ?_, fun b => ?_, fun S V => ?_, fun S V x hx => ?_, fun V => ?_⟩
  · rw [hw]
    split_ifs
    · exact nodup_foldl_revocateStaker s₀ addr L h₀.stakers_nodup addr
    · exact nodup_foldl_revocateStaker s₀ addr L h₀.stakers_nodup b
  · rw [hw]
    split_ifs
    · exact List.nodup_nil
    · rw [validatorExtension_foldl_revocateStaker s₀]
      exact h₀.backers_nodup b
  · -- the records of stakes on `addr` are gone on both sides; the others are untouched
    have hS : (s₁.updateAccount addr (·.setValidatorExtension [])).stakeOf S V = s₁.stakeOf S V := by
      simp only [StateDB.stakeOf, hw]
      split_ifs with h'
      · subst h'; rfl
      · rfl
    rw [hS, hstake]
    simp only [StateDB.backingOf, hw]
    by_cases hV : V = addr
    · subst hV
      simp only [true_and, if_true, BalanceList.lookup_nil]
      split_ifs with hmem
      · rfl
      · rw [h₀.mirror, StateDB.backingOf, BalanceList.lookup_eq_none_iff]
        exact hmem
    · simp only [hV, false_and, if_false]
      rw [validatorExtension_foldl_revocateStaker s₀]
      exact h₀.mirror S V
  · have hS : (s₁.updateAccount addr (·.setValidatorExtension [])).stakeOf S V = s₁.stakeOf S V := by
      simp only [StateDB.stakeOf, hw]
      split_ifs with h'
      · subst h'; rfl
      · rfl
    rw [hS, hstake] at hx
    split_ifs at hx
    exact h₀.atLeastBase S V x hx
  · simp only [StateDB.getPledgedBalance, hw]
    split_ifs with hV
    · -- `addr` gave every staker back its stake, and its extension is empty
      subst hV
      have hp := getPledgedBalance_foldl_revocateStaker s₀ V V L
      simp only [StateDB.getPledgedBalance, if_true] at hp
      rw [hp, ← StateDB.getPledgedBalance, h₀.pledged V]
      simp [getAllBalance, L]
    · rw [← StateDB.getPledgedBalance, getPledgedBalance_foldl_revocateStaker s₀, if_neg hV,
        validatorExtension_foldl_revocateStaker s₀]
      exact h₀.pledged V

theorem stakeOf_getD_nonneg (h : LedgerInv s) (S V : Address) : 0 ≤ (s.stakeOf S V).getD 0 := by
  cases hx : s.stakeOf S V with
  | none => rfl
  | some x =>
    have := h.atLeastBase S V x hx
    have := stakerBase_pos
    simp only [Option.getD_some]
    omega

theorem handleCSBT (h : LedgerInv s) (evm : EVM) (caller addr : Address) (wh : Wormholes)
    (value : Nat) : LedgerInv (evm.handleCSBT s caller addr wh value).1 := by
  have hf₀ := s.ledgerFrame_getOrNewAccountStateObject caller
  have h₀ := h.of_frame hf₀
  by_cases h3 : wh.type = 3
  · rcases EVM.handleCSBT_stake_cases evm s caller addr wh value h3 with he | ⟨hcheck, he⟩
    · rw [he]; exact h₀
    · -- a stake that passes the check leaves at least `StakerBase` on the validator
      rw [he]
      have hbase : StakerBase ≤ ((s.getOrNewAccountStateObject caller).stakeOf caller addr).getD 0 +
          (value : Int) := by
        rw [StateDB.getStakerPledged_balance] at hcheck
        rw [hf₀.stakeOf_eq]
        have := h.stakeOf_getD_nonneg caller addr
        omega
      refine (h₀.stakerPledge evm.blockNumber wh.proxyAddress hbase).of_stakes fun b => ?_
      obtain ⟨c, hc⟩ := StateDB.worm_resetMinerBecome _ addr b
      rw [hc]
      rfl
  · by_cases h4 : wh.type = 4
    · rcases EVM.handleCSBT_unstake_cases evm s caller addr wh value h4 with he | ⟨hcheck, he⟩
      · rw [he]; exact h₀
      · rw [he]
        obtain ⟨t, hft, ht⟩ := StateDB.newCancelStakerPledge_cases _ caller addr value evm.blockNumber
        have hu : Unstakable t caller addr value := by
          refine ⟨Int.natCast_nonneg value, ?_⟩
          rw [StateDB.getStakerPledged_balance] at hcheck
          rw [hft.stakeOf_eq, hf₀.stakeOf_eq]
          omega
        have ht₀ := h₀.of_frame hft
        rcases ht with ht | ht | ht <;> rw [ht]
        · exact ht₀
        · exact ht₀.removePledge hu
        · exact (ht₀.removePledge hu).revocateAllStakers addr _
    · exact h.of_frame (EVM.ledgerFrame_handleCSBT evm s caller addr wh value ⟨h3, h4⟩)

theorem step (h : LedgerInv s) {s' : StateDB} (hs : StakingStep s s') : LedgerInv s' := by
  cases hs with
  | call evm hinert s caller addr input gas value =>
    exact evm.call_keeps s caller addr hinert (fun hf h => h.of_frame hf)
      (fun _ wh value h => h.handleCSBT evm caller addr wh value) input gas value h
  | finalize c view codec hd hs => exact h.of_frame (c.ledgerFrame_finalize view codec hd hs)

theorem of_reachable {s₀ : StateDB} (h₀ : LedgerInv s₀)
    (hrun : Relation.ReflTransGen StakingStep s₀ s) : LedgerInv s := by
  induction hrun with
  | refl => exact h₀
  | tail _ hstep ih => exact ih.step hstep

/-- A state in which no account has staking records, such as a genesis that
only allocates balances. -/
theorem of_no_stakes (h : ∀ a, s.worm a = {}) : LedgerInv s where
  stakers_nodup a := by rw [h a]; exact List.nodup_nil
  backers_nodup a := by rw [h a]; exact List.nodup_nil
  mirror S V := by rw [StateDB.stakeOf, StateDB.backingOf, h, h]; rfl
  atLeastBase S V b hb := by rw [StateDB.stakeOf, h] at hb; cases hb
  pledged V := by rw [StateDB.getPledgedBalance, h]; rfl

theorem empty : LedgerInv StateDB.empty := of_no_stakes fun _ => rfl

/-! ### What the invariant gives -/

theorem staker_entry_ge (h : LedgerInv s) {S : Address} {e : StakerExtension}
    (he : e ∈ (s.worm S).stakerExtension) : StakerBase ≤ e.balance :=
  h.atLeastBase S e.addr e.balance (BalanceList.lookup_of_mem (h.stakers_nodup S) he)

theorem validator_entry_ge (h : LedgerInv s) {V : Address} {e : ValidatorExtension}
    (he : e ∈ (s.worm V).validatorExtension) : StakerBase ≤ e.balance := by
  refine h.atLeastBase e.addr V e.balance ?_
  rw [h.mirror]
  exact BalanceList.lookup_of_mem (h.backers_nodup V) he

theorem pledgedBalance_nonneg (h : LedgerInv s) (V : Address) : 0 ≤ s.getPledgedBalance V := by
  rw [h.pledged V, getAllBalance]
  refine BalanceList.total_nonneg fun e he => ?_
  have := h.validator_entry_ge he
  have := stakerBase_pos
  omega

/-- The two records of a stake: both present with one balance of at least
`StakerBase`, or both absent. -/
theorem records (h : LedgerInv s) (S V : Address) :
    (∃ b, s.stakeOf S V = some b ∧ s.backingOf V S = some b ∧ StakerBase ≤ b) ∨
      (s.stakeOf S V = none ∧ s.backingOf V S = none) := by
  rw [← h.mirror S V]
  cases hx : s.stakeOf S V with
  | none => exact .inr ⟨rfl, rfl⟩
  | some b => exact .inl ⟨b, rfl, rfl, h.atLeastBase S V b hx⟩

end LedgerInv

/-- In every state that stakes, unstakes, coefficient buy-backs and
finalisations reach from a consistent ledger, the two records of every stake
agree and hold at least `StakerBase`, or are both absent; a pledged balance is
the sum of its validator extension; no pledged balance and no extension
balance is negative; and an unstake that passes its checks leaves the stake
whole or gone. -/
theorem stakingLedger_consistent {s₀ s : StateDB} (h₀ : LedgerInv s₀)
    (hrun : Relation.ReflTransGen StakingStep s₀ s) :
    (∀ S V, (∃ b, s.stakeOf S V = some b ∧ s.backingOf V S = some b ∧ StakerBase ≤ b) ∨
        (s.stakeOf S V = none ∧ s.backingOf V S = none)) ∧
    (∀ V, s.getPledgedBalance V = getAllBalance (s.worm V).validatorExtension) ∧
    (∀ V, 0 ≤ s.getPledgedBalance V) ∧
    (∀ S, ∀ e ∈ (s.worm S).stakerExtension, 0 ≤ e.balance) ∧
    (∀ V, ∀ e ∈ (s.worm V).validatorExtension, 0 ≤ e.balance) ∧
    (∀ (evm : EVM) (caller addr : Address) (wh : Wormholes) (value : Nat), wh.type = 4 →
      (evm.handleCSBT s caller addr wh value).2 = none →
      let s' := (evm.handleCSBT s caller addr wh value).1
      (s'.stakeOf caller addr = none ∧ s'.backingOf addr caller = none) ∨
        ∃ b, s'.stakeOf caller addr = some b ∧ s'.backingOf addr caller = some b ∧ StakerBase ≤ b) := by
  have h := h₀.of_reachable hrun
  have hbase := stakerBase_pos
  refine ⟨h.records, h.pledged, h.pledgedBalance_nonneg, fun S e he => ?_, fun V e he => ?_,
    fun evm caller addr wh value _ _ => ?_⟩
  · have := h.staker_entry_ge he
    omega
  · have := h.validator_entry_ge he
    omega
  · -- the state after the unstake is reachable too
    exact ((h.handleCSBT evm caller addr wh value).records caller addr).symm

/-! A genesis that gives account `0x0a` the ERB of one validator, as the
allocation of `ToBlock` writes it (through `GetOrNewAccountStateObject`, so
with an empty Erbie extension), and the state after `0x0a` stakes all of it on
itself through `Call`. -/

def fundedGenesis : StateDB :=
  ⟨fun a => if a = 10 then some { balance := ValidatorBase, worm := some {} } else none⟩

theorem LedgerInv.fundedGenesis : LedgerInv fundedGenesis := by
  refine LedgerInv.of_no_stakes fun a => ?_
  unfold Erbie.fundedGenesis StateDB.worm
  dsimp only
  split_ifs <;> rfl

/-- A genesis that funds `0x0a` with the stake of a validator and `0x0b` with
the stake of a staker and one ERB for gas. -/
def rewardGenesis : StateDB :=
  ⟨fun a => if a = 10 then some { balance := ValidatorBase, worm := some {} }
    else if a = 11 then some { balance := StakerBase + 10 ^ 18, worm := some {} } else none⟩

theorem LedgerInv.rewardGenesis : LedgerInv rewardGenesis := by
  refine LedgerInv.of_no_stakes fun a => ?_
  unfold Erbie.rewardGenesis StateDB.worm
  dsimp only
  split_ifs <;> rfl

/-- The JSON text of a `Wormholes` whose strings need no escaping, as
`json.Marshal` writes it: the fields in order, the empty strings left out. -/
def Wormholes.jsonText (w : Wormholes) : List UInt8 :=
  let field (key value : String) : String :=
    if value = "" then "" else ",\"" ++ key ++ "\":\"" ++ value ++ "\""
  ("\x7b\"type\":" ++ toString w.type.toNat ++ field "csbt_address" w.csbtAddress ++
    field "proxy_address" w.proxyAddress ++ field "proxy_sign" w.proxySign ++ field "creator" w.creator ++
    field "version" w.version ++ "\x7d").toUTF8.toList

/-- The input of a call that carries `w`: `erbie:` and its JSON text. -/
def Wormholes.input (w : Wormholes) : List UInt8 := TransactionType ++ w.jsonText

/-- A JSON decoder that reads back the text of each payload of `ws`. -/
def jsonDecoder (ws : List Wormholes) (b : List UInt8) : Option Wormholes := ws.find? (·.jsonText = b)

/-- The payloads the runs below send: a stake, a stake with the proxy `0x0a`,
and a transfer of the CSBT at `0x0c`. -/
def stakingPayloads : List Wormholes :=
  [{ type := 3 }, { type := 3, proxyAddress := "0x0a" },
    { type := 1, csbtAddress := "0x000000000000000000000000000000000000000c" }]

/-- An EVM at block 1 with the chain's precompiled contracts at `0x01` to
`0x09`, whose contract code writes nothing and succeeds. A precompile fails
out of gas, as `RunPrecompiledContract` does when the gas is below
`RequiredGas`; no run below calls one. -/
def stakingEvm : EVM where
  depth := 0
  noRecursion := false
  blockNumber := 1
  unmarshal := jsonDecoder stakingPayloads
  precompile a := decide (1 ≤ a.toNat ∧ a.toNat ≤ 9)
  runPrecompiled _ _ _ := ([], 0, some ErrOutOfGas)
  run s _ _ _ _ gas _ := (s, [], gas, none)

theorem stakingEvm_inert : stakingEvm.Inert := fun _ _ _ _ _ _ _ => rfl

def selfStaked : StateDB :=
  (stakingEvm.call fundedGenesis 10 10 (Wormholes.input { type := 3 }) 100000 ValidatorBase.toNat).1

example : selfStaked.stakeOf 10 10 = some ValidatorBase := by decide +kernel

theorem stakingLedger_consistent_after_self_stake :
    ((∃ b, selfStaked.stakeOf 10 10 = some b ∧ selfStaked.backingOf 10 10 = some b ∧ StakerBase ≤ b) ∨
        (selfStaked.stakeOf 10 10 = none ∧ selfStaked.backingOf 10 10 = none)) ∧
      selfStaked.getPledgedBalance 10 = getAllBalance (selfStaked.worm 10).validatorExtension :=
  have h := stakingLedger_consistent LedgerInv.fundedGenesis
    (.single (.call stakingEvm stakingEvm_inert fundedGenesis 10 10 (Wormholes.input { type := 3 }) 100000
      ValidatorBase.toNat))
  ⟨h.1 10 10, h.2.1 10⟩

end Erbie
