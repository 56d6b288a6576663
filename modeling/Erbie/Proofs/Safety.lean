import Erbie.Proofs.Agreement

/-! Agreement of the IBFT core over every run of a committee of `1 mod 3`
members with at most `F` Byzantine ones.

`Moves` says once what handling one message can do to a node: it keeps the
validator set and the view, adds at most the COMMIT it handles to its commits,
changes its proposal only while it waits for a PRE-PREPARE, appends at most its
proposal to what it committed, and broadcasts a COMMIT only for its subject and
only once per sequence. `NodeInv` is what an honest node keeps given the
messages broadcast so far, and `Inv` adds that an honest member never
broadcasts two COMMITs for different subjects. Every step keeps `Inv`; at the
end two commit quorums meet in more than `F` members, so in an honest one, and
the two COMMITs it sent are one. -/

namespace Erbie
namespace Ibft

namespace MessageSet

variable {ms ms' : MessageSet} {vs : ValidatorSet} {src : Address} {sub : Subject}

theorem add_eq_ok (h : ms.add vs src sub = .ok ms') :
    src ∈ vs ∧ ms' = (src, sub) :: ms.filter (·.1 ≠ src) := by
  unfold add at h
  by_cases hsrc : src ∈ vs
  · rw [if_pos hsrc] at h
    cases h
    exact ⟨hsrc, rfl⟩
  · rw [if_neg hsrc] at h
    cases h

theorem length_le_filter_ne (src : Address) (h : ms.senders.Nodup) :
    ms.length ≤ (ms.filter (·.1 ≠ src)).length + 1 := by
  induction ms with
  | nil => simp
  | cons m ms ih =>
    simp only [senders, List.map_cons, List.nodup_cons] at h
    obtain ⟨hm, hnd⟩ := h
    by_cases hsrc : m.1 = src
    · subst hsrc
      have hf : ms.filter (·.1 ≠ m.1) = ms := List.filter_eq_self.mpr fun x hx => by
        simp only [ne_eq, decide_eq_true_eq]
        exact fun h => hm (h ▸ List.mem_map_of_mem hx)
      rw [List.filter_cons_of_neg (by simp), hf, List.length_cons]
    · rw [List.filter_cons_of_pos (by simpa using hsrc), List.length_cons, List.length_cons]
      have := ih hnd
      omega

theorem nodup_senders_of_add (hnd : ms.senders.Nodup) (h : ms.add vs src sub = .ok ms') :
    ms'.senders.Nodup := by
  obtain ⟨-, rfl⟩ := add_eq_ok h
  simp only [senders, List.map_cons, List.nodup_cons]
  refine ⟨by simp, ?_⟩
  exact hnd.sublist (List.filter_sublist.map _)

theorem length_le_of_add (hnd : ms.senders.Nodup) (h : ms.add vs src sub = .ok ms') :
    ms.length ≤ ms'.length := by
  obtain ⟨-, rfl⟩ := add_eq_ok h
  rw [List.length_cons]
  exact length_le_filter_ne src hnd

theorem mem_of_add (h : ms.add vs src sub = .ok ms') {m : Address × Subject} (hm : m ∈ ms') :
    m = (src, sub) ∨ m ∈ ms := by
  obtain ⟨-, rfl⟩ := add_eq_ok h
  rcases List.mem_cons.mp hm with hm | hm
  · exact .inl hm
  · exact .inr (List.mem_of_mem_filter hm)

end MessageSet

theorem State.ne_committed {s : State} (h : s.toNat < State.committed.toNat) : s ≠ .committed := by
  rintro rfl
  exact absurd h (by decide)

namespace Core

variable {c c' d : Core} {msg : Message} {out : List Payload}

theorem subject_eq_some {sub : Subject} :
    c.subject = some sub ↔ ∃ p, c.proposal = some p ∧ sub = ⟨c.currentView, p⟩ := by
  unfold subject
  constructor
  · intro h
    obtain ⟨p, hp, rfl⟩ := Option.map_eq_some_iff.mp h
    exact ⟨p, hp, rfl⟩
  · rintro ⟨p, hp, rfl⟩
    rw [hp]
    rfl

theorem state_ne_of_checkMessage {view : View} (h : c.checkMessage false view = none) :
    c.state ≠ .acceptRequest := by
  intro hs
  unfold checkMessage at h
  split at h <;> simp_all

theorem View.eq_of_cmp_eq {a b : View} (h : a.cmp b = .eq) : a = b := by
  obtain ⟨s, r⟩ := a
  obtain ⟨s', r'⟩ := b
  unfold View.cmp at h
  split_ifs at h with hs
  · exact absurd (compare_eq_iff_eq.mp h) hs
  · have hr : r = r' := compare_eq_iff_eq.mp h
    simp only [ne_eq, not_not] at hs
    rw [hs, hr]

theorem view_eq_of_checkMessage {b : Bool} {view : View} (h : c.checkMessage b view = none) :
    view = c.currentView := by
  unfold checkMessage at h
  split at h
  · cases h
  · cases h
  · exact View.eq_of_cmp_eq ‹_›

theorem sendCommit_eq (c : Core) :
    c.sendCommit = (c, []) ∨ ∃ sub, c.subject = some sub ∧ c.commitHeight < c.sequence ∧
      c.sendCommit = ({ c with commitHeight := c.sequence }, [.commit sub]) := by
  unfold sendCommit
  cases hs : c.subject with
  | none => exact .inl rfl
  | some sub =>
    obtain ⟨p, -, rfl⟩ := subject_eq_some.mp hs
    by_cases hle : c.sequence ≤ c.commitHeight
    · left
      simp [currentView, hle]
    · right
      refine ⟨_, rfl, by omega, ?_⟩
      simp [currentView, hle]

/-- What handling `msg` can do to a node `c`, with `c'` the node after and
`out` what it broadcasts. -/
structure Moves (verify : Hash → Bool) (proposer : Address) (c c' : Core) (msg : Message)
    (out : List Payload) : Prop where
  valSet : c'.valSet = c.valSet
  sequence : c'.sequence = c.sequence
  round : c'.round = c.round
  commits : c'.commits = c.commits ∨ ∃ sub, msg.payload = .commit sub ∧ c.subject = some sub ∧
    c.state ≠ .acceptRequest ∧ c.commits.add c.valSet msg.address sub = .ok c'.commits
  proposal : c.state ≠ .acceptRequest → c'.proposal = c.proposal ∧ c'.state ≠ .acceptRequest
  proposed : c'.proposal = c.proposal ∨ ∃ p, c'.proposal = some p ∧ verify p = true ∧
    msg = ⟨proposer, .preprepare c.currentView (some p)⟩
  idle : c'.state = .acceptRequest → c'.commits = c.commits ∧ c'.committed = c.committed
  committed : c'.committed = c.committed ∨ ∃ p, c'.committed = c.committed ++ [(c.sequence, p)] ∧
    c'.proposal = some p ∧ c'.quorumSize ≤ c'.commits.length ∧ c.state ≠ .committed ∧
    c'.state = .committed
  done : c.state = .committed → c'.state = .committed
  height : c.commitHeight ≤ c'.commitHeight
  out : ∀ sub, .commit sub ∈ out → c.commitHeight < c.sequence ∧ c'.commitHeight = c.sequence ∧
    c'.subject = some sub

variable {verify : Hash → Bool} {proposer : Address}

theorem Moves.of_eq {r : Core × List Payload} (h : r = (c', out)) (hm : Moves verify proposer c r.1 msg r.2) :
    Moves verify proposer c c' msg out := by
  subst h
  exact hm

/-- A change of the prepares, the lock, or the proposal and state of a node
that waits for a PRE-PREPARE, with no COMMIT broadcast. -/
theorem Moves.of_frame (hv : c'.valSet = c.valSet) (hs : c'.sequence = c.sequence)
    (hr : c'.round = c.round) (hc : c'.commits = c.commits)
    (hp : c.state ≠ .acceptRequest → c'.proposal = c.proposal ∧ c'.state ≠ .acceptRequest)
    (hpr : c'.proposal = c.proposal ∨ ∃ p, c'.proposal = some p ∧ verify p = true ∧
      msg = ⟨proposer, .preprepare c.currentView (some p)⟩)
    (hcd : c'.committed = c.committed) (hh : c'.commitHeight = c.commitHeight)
    (hd : c.state = .committed → c'.state = .committed) (ho : ∀ sub, Payload.commit sub ∉ out) :
    Moves verify proposer c c' msg out :=
  ⟨hv, hs, hr, .inl hc, hp, hpr, fun _ => ⟨hc, hcd⟩, .inl hcd, hd, hh.ge, fun sub h => absurd h (ho sub)⟩

theorem Moves.sendCommit (h : Moves verify proposer c d msg []) : Moves verify proposer c d.sendCommit.1 msg d.sendCommit.2 := by
  rcases sendCommit_eq d with h' | ⟨sub, hsub, hlt, h'⟩
  · rw [h']
    exact h
  · rw [h']
    refine ⟨h.valSet, h.sequence, h.round, h.commits, h.proposal, h.proposed, h.idle, h.committed, h.done, ?_,
      ?_⟩
    · exact h.height.trans hlt.le
    · intro sub' hsub'
      obtain rfl : sub' = sub := by simpa using hsub'
      have hh := h.height
      have hs := h.sequence
      exact ⟨by omega, hs, hsub⟩

theorem moves_of_handlePreprepare {src : Address} {view : View} {proposal : Option Hash}
    (h : c.handlePreprepare verify proposer src view proposal = .ok (c', out)) :
    Moves verify proposer c c' ⟨src, .preprepare view proposal⟩ out := by
  have hrfl : Moves verify proposer c c ⟨src, .preprepare view proposal⟩ [] :=
    Moves.of_frame rfl rfl rfl rfl (fun hs => ⟨rfl, hs⟩) (.inl rfl) rfl rfl id (by simp)
  unfold handlePreprepare at h
  rcases proposal with _ | p
  · exact Moves.of_eq (Except.ok.inj h) hrfl
  · simp only at h
    split at h
    · cases h
    · rename_i hcheck
      split_ifs at h with hsrc hv hs
      · -- the proposer's PRE-PREPARE for the current view, with a proposal `verify` accepts
        have hnew : ∃ q, some p = some q ∧ verify q = true ∧
            (⟨src, .preprepare view (some p)⟩ : Message) = ⟨proposer, .preprepare c.currentView (some q)⟩ :=
          ⟨p, rfl, by simpa using hv, by rw [not_not.mp hsrc, view_eq_of_checkMessage hcheck]⟩
        split at h
        · split_ifs at h
          · -- a locked node commits to its locked proposal at once
            refine Moves.of_eq (Except.ok.inj h) (Moves.sendCommit ?_)
            exact Moves.of_frame rfl rfl rfl rfl (fun h => absurd hs h) (.inr hnew) rfl rfl
              (fun h => by simp_all) (by simp)
          · exact Moves.of_eq (Except.ok.inj h) hrfl
        · refine Moves.of_eq (Except.ok.inj h) ?_
          exact Moves.of_frame rfl rfl rfl rfl (fun h => absurd hs h) (.inr hnew) rfl rfl
            (fun h => by simp_all) (by simp)
      · exact Moves.of_eq (Except.ok.inj h) hrfl

theorem moves_of_handlePrepare {src : Address} {sub : Subject}
    (h : c.handlePrepare src sub = .ok (c', out)) : Moves verify proposer c c' ⟨src, .prepare sub⟩ out := by
  unfold handlePrepare at h
  split at h
  · cases h
  · rename_i hcheck
    have hs := state_ne_of_checkMessage hcheck
    dsimp only at h
    split_ifs at h with hsub hq
    -- the prepares change, and at the quorum the lock and the state
    · have hst : c.state.toNat < State.prepared.toNat := by split at hq <;> exact hq.2
      refine Moves.of_eq (Except.ok.inj h) (Moves.sendCommit ?_)
      refine Moves.of_frame ?_ ?_ ?_ ?_ ?_ ?_ ?_ ?_ (fun hc => absurd hst (by rw [hc]; decide)) (by simp) <;>
        split <;> simp [lockHash]
    · refine Moves.of_eq (Except.ok.inj h) ?_
      refine Moves.of_frame ?_ ?_ ?_ ?_ ?_ ?_ ?_ ?_ ?_ (by simp) <;> split <;> simp [hs]

theorem Moves.lockHash_commit {p : Hash} (h : Moves verify proposer c d msg []) (hcd : d.committed = c.committed)
    (hp : d.proposal = some p) (hq : d.quorumSize ≤ d.commits.length) (hst : c.state ≠ .committed) :
    Moves verify proposer c d.lockHash.commit msg [] := by
  have he : d.lockHash.commit = { d with
      lockedHash := some p, state := .committed, committed := d.committed ++ [(d.sequence, p)] } := by
    simp [commit, lockHash, hp]
  rw [he]
  refine ⟨h.valSet, h.sequence, h.round, h.commits, ?_, h.proposed, by simp, ?_, fun _ => rfl, h.height,
    by simp⟩
  · exact fun hs' => ⟨(h.proposal hs').1, by simp⟩
  · exact .inr ⟨p, by rw [hcd, h.sequence], hp, hq, hst, rfl⟩

theorem moves_of_handleCommit {src : Address} {sub : Subject}
    (h : c.handleCommit src sub = .ok (c', out)) : Moves verify proposer c c' ⟨src, .commit sub⟩ out := by
  have hrfl : Moves verify proposer c c ⟨src, .commit sub⟩ [] :=
    Moves.of_frame rfl rfl rfl rfl (fun hs => ⟨rfl, hs⟩) (.inl rfl) rfl rfl id (by simp)
  unfold handleCommit at h
  split at h
  · cases h
  · rename_i hcheck
    have hs := state_ne_of_checkMessage hcheck
    dsimp only at h
    by_cases hsub : c.subject = some sub
    · rw [if_neg (not_not.mpr hsub)] at h
      obtain ⟨p, hp, -⟩ := subject_eq_some.mp hsub
      rcases hadd : c.commits.add c.valSet src sub with err | ms
      · -- a sender outside the set is dropped
        simp only [hadd] at h
        split_ifs at h with hq
        · exact Moves.of_eq (Except.ok.inj h) (hrfl.lockHash_commit rfl hp hq.1 (State.ne_committed hq.2))
        · exact Moves.of_eq (Except.ok.inj h) hrfl
      · simp only [hadd] at h
        have hadd' : Moves verify proposer c { c with commits := ms } ⟨src, .commit sub⟩ [] :=
          ⟨rfl, rfl, rfl, .inr ⟨sub, rfl, hsub, hs, hadd⟩, fun _ => ⟨rfl, hs⟩, .inl rfl,
            fun h => absurd h hs, .inl rfl, id, le_rfl, by simp⟩
        split_ifs at h with hq
        · exact Moves.of_eq (Except.ok.inj h) (hadd'.lockHash_commit rfl hp hq.1 (State.ne_committed hq.2))
        · exact Moves.of_eq (Except.ok.inj h) hadd'
    · rw [if_pos hsub] at h
      cases h

theorem moves_of_handleMsg (h : c.handleMsg verify proposer msg = .ok (c', out)) :
    Moves verify proposer c c' msg out := by
  obtain ⟨src, payload⟩ := msg
  unfold handleMsg at h
  split_ifs at h
  cases payload with
  | preprepare view proposal => exact moves_of_handlePreprepare h
  | prepare sub => exact moves_of_handlePrepare h
  | commit sub => exact moves_of_handleCommit h

theorem Moves.subject_eq (h : Moves verify proposer c c' msg out) (hs : c.state ≠ .acceptRequest) :
    c'.subject = c.subject := by
  simp only [subject, currentView, (h.proposal hs).1, h.sequence, h.round]

theorem Moves.nodup (h : Moves verify proposer c c' msg out) (hnd : c.commits.senders.Nodup) :
    c'.commits.senders.Nodup := by
  rcases h.commits with heq | ⟨sub, -, -, -, hadd⟩
  · rwa [heq]
  · exact MessageSet.nodup_senders_of_add hnd hadd

theorem Moves.length_le (h : Moves verify proposer c c' msg out) (hnd : c.commits.senders.Nodup) :
    c.commits.length ≤ c'.commits.length := by
  rcases h.commits with heq | ⟨sub, -, -, -, hadd⟩
  · rw [heq]
  · exact MessageSet.length_le_of_add hnd hadd

theorem subject_of_proposal {p : Hash} (hp : c.proposal = some p) :
    c.subject = some ⟨c.currentView, p⟩ :=
  subject_eq_some.mpr ⟨p, hp, rfl⟩

end Core

theorem mem_sent_append {sent : List Message} {dst s : Address} {out : List Payload} {pl : Payload} :
    (⟨s, pl⟩ : Message) ∈ sent ++ out.map (fun p => ⟨dst, p⟩) ↔ ⟨s, pl⟩ ∈ sent ∨ s = dst ∧ pl ∈ out := by
  simp only [List.mem_append, List.mem_map, Message.mk.injEq]
  constructor
  · rintro (h | ⟨p, hp, rfl, rfl⟩)
    · exact .inl h
    · exact .inr ⟨rfl, hp⟩
  · rintro (h | ⟨rfl, hp⟩)
    · exact .inl h
    · exact .inr ⟨pl, hp, rfl, rfl⟩

section Run

variable (valSet : ValidatorSet) (seq : Nat) (Z : List Address)

/-- What an honest node `d` keeps in a run at `seq` whose broadcasts so far
are `sent`: the COMMITs it counts come from validators, one each, are for its
subject, and were broadcast when their sender is honest; what it committed is
its proposal at `seq`, backed by a quorum of them; and once it broadcast a
COMMIT its commit height stands at `seq`. -/
structure NodeInv (sent : List Message) (d : Address) (c : Core) : Prop where
  valSet_eq : c.valSet = valSet
  sequence_eq : c.sequence = seq
  round_eq : c.round = 0
  nodup : c.commits.senders.Nodup
  commits : ∀ m ∈ c.commits, m.1 ∈ valSet ∧ c.subject = some m.2 ∧
    (m.1 ∉ Z → (⟨m.1, .commit m.2⟩ : Message) ∈ sent)
  commits_state : c.commits ≠ [] → c.state ≠ .acceptRequest
  committed_done : c.committed ≠ [] → c.state = .committed
  committed_length : c.committed.length ≤ 1
  committed : ∀ e ∈ c.committed, e.1 = seq ∧ c.proposal = some e.2 ∧
    Quorum.size valSet.length ≤ c.commits.length
  height : ∀ sub, (⟨d, .commit sub⟩ : Message) ∈ sent → seq ≤ c.commitHeight

/-- What every run at `seq` with the Byzantine members `Z` keeps: each honest
node its `NodeInv`, and each honest member one COMMIT subject at most. -/
structure Inv (n : Net) : Prop where
  node : ∀ d, d ∉ Z → NodeInv valSet seq Z n.sent d (n.nodes d)
  one_commit : ∀ s, s ∉ Z → ∀ sub sub', (⟨s, .commit sub⟩ : Message) ∈ n.sent →
    (⟨s, .commit sub'⟩ : Message) ∈ n.sent → sub = sub'

variable {valSet seq Z}

theorem NodeInv.init (d : Address) : NodeInv valSet seq Z [] d (Core.init d valSet seq) := by
  constructor <;> simp [Core.init, MessageSet.senders]

theorem NodeInv.mono {sent sent' : List Message} {d : Address} {c : Core}
    (h : NodeInv valSet seq Z sent d c) (hsub : ∀ m ∈ sent, m ∈ sent')
    (hd : ∀ sub, (⟨d, .commit sub⟩ : Message) ∈ sent' → ⟨d, .commit sub⟩ ∈ sent) :
    NodeInv valSet seq Z sent' d c := by
  refine { h with commits := ?_, height := fun sub hs => h.height sub (hd sub hs) }
  intro m hm
  obtain ⟨hv, hsub', hsent⟩ := h.commits m hm
  exact ⟨hv, hsub', fun hZ => hsub _ (hsent hZ)⟩

/-- The node that handles a message keeps its invariant, given that an honest
sender's message was broadcast. -/
theorem NodeInv.step {sent : List Message} {d : Address} {c c' : Core} {msg : Message}
    {out : List Payload} {verify : Hash → Bool} {proposer : Address} (h : NodeInv valSet seq Z sent d c) (hm : Core.Moves verify proposer c c' msg out)
    (hmsg : msg.address ∉ Z → msg ∈ sent) :
    NodeInv valSet seq Z (sent ++ out.map fun p => ⟨d, p⟩) d c' := by
  have hold : ∀ m ∈ sent, m ∈ sent ++ out.map fun p => ⟨d, p⟩ := fun m => List.mem_append_left _
  -- a COMMIT the node counted before is still for its subject once it left `acceptRequest`
  have hkeep : c.state ≠ .acceptRequest → ∀ m ∈ c.commits, m.1 ∈ valSet ∧ c'.subject = some m.2 ∧
      (m.1 ∉ Z → (⟨m.1, .commit m.2⟩ : Message) ∈ sent ++ out.map fun p => ⟨d, p⟩) := by
    intro hs m hm'
    obtain ⟨hv, hsub, hsent⟩ := h.commits m hm'
    exact ⟨hv, (hm.subject_eq hs).trans hsub, fun hZ => hold _ (hsent hZ)⟩
  constructor
  · exact hm.valSet.trans h.valSet_eq
  · exact hm.sequence.trans h.sequence_eq
  · exact hm.round.trans h.round_eq
  · exact hm.nodup h.nodup
  · intro m hm'
    rcases hm.commits with heq | ⟨sub, hpay, hsub, hs, hadd⟩
    · rw [heq] at hm'
      exact hkeep (h.commits_state (List.ne_nil_of_mem hm')) m hm'
    · rcases MessageSet.mem_of_add hadd hm' with rfl | hm'
      · -- the COMMIT just handled
        refine ⟨h.valSet_eq ▸ (MessageSet.add_eq_ok hadd).1, (hm.subject_eq hs).trans hsub, fun hZ => ?_⟩
        have hmsg' : msg = ⟨msg.address, .commit sub⟩ := by rw [← hpay]
        exact hold _ (hmsg' ▸ hmsg hZ)
      · exact hkeep hs m hm'
  · intro hne hst
    obtain ⟨hc, -⟩ := hm.idle hst
    rw [hc] at hne
    exact (hm.proposal (h.commits_state hne)).2 hst
  · intro hne
    rcases hm.committed with heq | ⟨p, -, -, -, -, hst⟩
    · rw [heq] at hne
      exact hm.done (h.committed_done hne)
    · exact hst
  · rcases hm.committed with heq | ⟨p, heq, -, -, hst, -⟩
    · rw [heq]
      exact h.committed_length
    · -- a node commits only from a state short of `Committed`, where it has committed nothing
      have hnil : c.committed = [] := by
        by_contra hne
        exact hst (h.committed_done hne)
      rw [heq, hnil]
      rfl
  · intro e he
    have hq : Quorum.size valSet.length = c'.quorumSize := by
      rw [Core.quorumSize, hm.valSet, h.valSet_eq]
    -- an entry committed before keeps its proposal and its quorum
    have hprev : e ∈ c.committed → e.1 = seq ∧ c'.proposal = some e.2 ∧
        Quorum.size valSet.length ≤ c'.commits.length := by
      intro he'
      obtain ⟨hk, hp, hlen⟩ := h.committed e he'
      have hs : c.state ≠ .acceptRequest := by
        rw [h.committed_done (List.ne_nil_of_mem he')]
        decide
      exact ⟨hk, (hm.proposal hs).1.trans hp, hlen.trans (by exact_mod_cast hm.length_le h.nodup)⟩
    rcases hm.committed with heq | ⟨p, heq, hp, hlen, -⟩
    · rw [heq] at he
      exact hprev he
    · rw [heq] at he
      rcases List.mem_append.mp he with he | he
      · exact hprev he
      · obtain rfl := List.mem_singleton.mp he
        exact ⟨h.sequence_eq, hp, hq ▸ hlen⟩
  · intro sub hsent
    rcases mem_sent_append.mp hsent with hsent | ⟨-, hout⟩
    · exact (h.height sub hsent).trans hm.height
    · rw [(hm.out sub hout).2.1, h.sequence_eq]

theorem Inv.init : Inv valSet seq Z (Net.init valSet seq) :=
  ⟨fun d _ => NodeInv.init d, fun _ _ _ _ h => absurd h List.not_mem_nil⟩

variable {verify : Hash → Bool} {proposer : Address}

theorem Inv.step {n n' : Net} (h : Inv valSet seq Z n) (hs : Step (· ∉ Z) verify proposer n n') :
    Inv valSet seq Z n' := by
  cases hs with
  | deliver dst msg hdst hmsg =>
    unfold Net.deliver
    split
    · exact h
    · rename_i c' out hok
      have hm := Core.moves_of_handleMsg hok
      have hdinv := h.node dst hdst
      -- a COMMIT `dst` broadcasts now is its first
      have hfresh : ∀ sub sub', (⟨dst, .commit sub⟩ : Message) ∈ n.sent → Payload.commit sub' ∉ out := by
        intro sub sub' hsent hout
        have hle := hdinv.height sub hsent
        have hlt := (hm.out sub' hout).1
        rw [hdinv.sequence_eq] at hlt
        omega
      refine ⟨fun d hd => ?_, ?_⟩
      · dsimp only
        by_cases hdd : d = dst
        · subst hdd
          rw [Function.update_self]
          exact hdinv.step hm (fun hZ => hmsg.resolve_right (not_not.mpr hZ))
        · rw [Function.update_of_ne hdd]
          refine (h.node d hd).mono (fun m => List.mem_append_left _) (fun sub hsent => ?_)
          rcases mem_sent_append.mp hsent with hsent | ⟨hdd', -⟩
          · exact hsent
          · exact absurd hdd' hdd
      · intro s hsZ sub sub' h₁ h₂
        rcases mem_sent_append.mp h₁ with h₁ | ⟨rfl, o₁⟩ <;>
          rcases mem_sent_append.mp h₂ with h₂ | ⟨hsd, o₂⟩
        · exact h.one_commit s hsZ sub sub' h₁ h₂
        · exact absurd o₂ (hfresh sub sub' (hsd ▸ h₁))
        · exact absurd o₁ (hfresh sub' sub h₂)
        · -- both are the subject of `dst` after the step
          have e₁ := (hm.out sub o₁).2.2
          have e₂ := (hm.out sub' o₂).2.2
          exact Option.some.inj (e₁.symm.trans e₂)

theorem Inv.run {n : Net} (h : Relation.ReflTransGen (Step (· ∉ Z) verify proposer) (Net.init valSet seq) n) :
    Inv valSet seq Z n := by
  induction h with
  | refl => exact Inv.init
  | tail _ hs ih => exact ih.step hs

/-- The proposals of the honest nodes of a run all passed `verify`. -/
def ProposalsValid (verify : Hash → Bool) (Z : List Address) (n : Net) : Prop :=
  ∀ d, d ∉ Z → ∀ p, (n.nodes d).proposal = some p → verify p = true

theorem ProposalsValid.step {n n' : Net} (h : ProposalsValid verify Z n)
    (hs : Step (· ∉ Z) verify proposer n n') : ProposalsValid verify Z n' := by
  cases hs with
  | deliver dst msg hdst hmsg =>
    unfold Net.deliver
    split
    · exact h
    · rename_i c' out hok
      have hm := Core.moves_of_handleMsg hok
      intro d hd p hp
      dsimp only at hp
      by_cases hdd : d = dst
      · subst hdd
        rw [Function.update_self] at hp
        -- a new proposal comes with a PRE-PREPARE whose proposal `verify` accepted
        rcases hm.proposed with heq | ⟨q, hq, hv, -⟩
        · exact h d hd p (heq ▸ hp)
        · rw [hq, Option.some.injEq] at hp
          exact hp ▸ hv
      · rw [Function.update_of_ne hdd] at hp
        exact h d hd p hp

theorem ProposalsValid.run {n : Net}
    (h : Relation.ReflTransGen (Step (· ∉ Z) verify proposer) (Net.init valSet seq) n) :
    ProposalsValid verify Z n := by
  induction h with
  | refl =>
    intro d _ p hp
    simp [Net.init, Core.init] at hp
  | tail _ hs ih => exact ih.step hs

theorem NodeInv.card_senders {sent : List Message} {d : Address} {c : Core}
    (h : NodeInv valSet seq Z sent d c) : (c.commits.senders.toFinset.card : Int) = c.commits.length := by
  rw [List.toFinset_card_of_nodup h.nodup, MessageSet.senders, List.length_map]

theorem NodeInv.senders_subset {sent : List Message} {d : Address} {c : Core}
    (h : NodeInv valSet seq Z sent d c) : c.commits.senders.toFinset ⊆ valSet.toFinset := by
  intro s hs
  obtain ⟨m, hm, rfl⟩ := List.mem_map.mp (List.mem_toFinset.mp hs)
  exact List.mem_toFinset.mpr (h.commits m hm).1

/-- Behind what a node committed stands a COMMIT for its subject that an
honest member broadcast, when the Byzantine members are fewer than a quorum. -/
theorem NodeInv.exists_honest_commit {sent : List Message} {d : Address} {c : Core}
    (h : NodeInv valSet seq Z sent d c) (hZ : (Z.length : Int) < Quorum.size valSet.length)
    {e : Nat × Hash} (he : e ∈ c.committed) :
    ∃ s, s ∉ Z ∧ (⟨s, .commit ⟨c.currentView, e.2⟩⟩ : Message) ∈ sent := by
  obtain ⟨-, hp, hq⟩ := h.committed e he
  have hcard : Z.toFinset.card < c.commits.senders.toFinset.card := by
    have := List.toFinset_card_le Z
    have := h.card_senders
    omega
  obtain ⟨s, hs, hsZ⟩ := Finset.exists_mem_notMem_of_card_lt_card hcard
  obtain ⟨m, hm, rfl⟩ := List.mem_map.mp (List.mem_toFinset.mp hs)
  have hZm : m.1 ∉ Z := fun h' => hsZ (List.mem_toFinset.mpr h')
  obtain ⟨-, hsub, hsent⟩ := h.commits m hm
  rw [Core.subject_of_proposal hp, Option.some.injEq] at hsub
  exact ⟨m.1, hZm, hsub ▸ hsent hZm⟩

/-- Agreement: in every run of a committee of `1 mod 3` distinct validators
with at most `F` Byzantine members, whoever proposes, what two honest nodes
commit is one proposal at one sequence. -/
theorem committed_agree (hN : valSet.length % 3 = 1) (hnd : valSet.Nodup)
    (hZ : (Z.length : Int) ≤ Quorum.faulty valSet.length) {n : Net}
    (hrun : Relation.ReflTransGen (Step (· ∉ Z) verify proposer) (Net.init valSet seq) n)
    {a b : Address} (ha : a ∉ Z) (hb : b ∉ Z) :
    ∀ e ∈ (n.nodes a).committed, ∀ e' ∈ (n.nodes b).committed, e = e' := by
  intro e he e' he'
  have hinv := Inv.run hrun
  have hA := hinv.node a ha
  have hB := hinv.node b hb
  obtain ⟨hk, hpa, hqa⟩ := hA.committed e he
  obtain ⟨hk', hpb, hqb⟩ := hB.committed e' he'
  -- the two commit quorums share an honest member
  have hU : valSet.toFinset.card = valSet.length := List.toFinset_card_of_nodup hnd
  have hZU : (Z.toFinset.card : Int) ≤ Quorum.faulty valSet.toFinset.card := by
    have := List.toFinset_card_le Z
    rw [hU]
    omega
  obtain ⟨s, hs, hsZ⟩ := Quorum.exists_mem_inter_not_mem hA.senders_subset hB.senders_subset
    (by rw [hU]; exact hN) (by rw [hU, hA.card_senders]; exact hqa)
    (by rw [hU, hB.card_senders]; exact hqb) hZU
  obtain ⟨hsa, hsb⟩ := Finset.mem_inter.mp hs
  obtain ⟨m, hm, rfl⟩ := List.mem_map.mp (List.mem_toFinset.mp hsa)
  obtain ⟨m', hm', hmm'⟩ := List.mem_map.mp (List.mem_toFinset.mp hsb)
  have hZm : m.1 ∉ Z := fun h => hsZ (List.mem_toFinset.mpr h)
  obtain ⟨-, hsuba, hsenta⟩ := hA.commits m hm
  obtain ⟨-, hsubb, hsentb⟩ := hB.commits m' hm'
  rw [hmm'] at hsentb
  -- it broadcast one COMMIT, for the subject of each
  have hone := hinv.one_commit m.1 hZm m.2 m'.2 (hsenta hZm) (hsentb hZm)
  rw [Core.subject_of_proposal hpa] at hsuba
  rw [Core.subject_of_proposal hpb] at hsubb
  have hX : e.2 = e'.2 := by
    have := (Option.some.inj hsuba).trans (hone.trans (Option.some.inj hsubb).symm)
    exact (Subject.mk.inj this).2
  exact Prod.ext (hk.trans hk'.symm) hX

/-- Four validators. -/
def fourValidators : ValidatorSet := (List.range 4).map fun i => BitVec.ofNat 160 (0x31 + i)

/-- With four validators and the proposer Byzantine, two honest nodes commit
a proposal the backend accepts. -/
theorem fourValidators_commit (verify : Hash → Bool) (hH : verify 1 = true) :
    ∃ n, Relation.ReflTransGen (Step (· ∉ [0x31#160]) verify 0x31#160) (Net.init fourValidators 1) n ∧
      (n.nodes 0x32#160).committed = [(1, 1)] ∧ (n.nodes 0x33#160).committed = [(1, 1)] := by
  obtain ⟨n, hrun, hc, -⟩ := group_commits verify fourValidators 1 0x31#160 [0x31#160]
    [0x32#160, 0x33#160] 1 (Net.init fourValidators 1) (by decide) (by decide)
    (by simp [fourValidators, List.range_succ]) (by simp) hH (by decide) (fun _ _ => rfl)
  exact ⟨n, hrun, hc _ (by simp), hc _ (by simp)⟩

theorem fourValidators_agree :
    ∃ n, Relation.ReflTransGen (Step (· ∉ [0x31#160]) (fun _ => true) 0x31#160)
        (Net.init fourValidators 1) n ∧
      (n.nodes 0x32#160).committed = [(1, 1)] ∧ (n.nodes 0x33#160).committed = [(1, 1)] ∧
      ∀ e ∈ (n.nodes 0x32#160).committed, ∀ e' ∈ (n.nodes 0x33#160).committed, e = e' := by
  obtain ⟨n, hrun, ha, hb⟩ := fourValidators_commit (fun _ => true) rfl
  exact ⟨n, hrun, ha, hb, committed_agree (by decide) (by decide) (by decide) hrun (by decide) (by decide)⟩

/-- In every run, an honest node hands at most one proposal to the backend:
it commits on its way into `Committed`, which no message makes it leave. -/
theorem committed_length_le_one {n : Net}
    (hrun : Relation.ReflTransGen (Step (· ∉ Z) verify proposer) (Net.init valSet seq) n)
    {d : Address} (hd : d ∉ Z) : (n.nodes d).committed.length ≤ 1 :=
  ((Inv.run hrun).node d hd).committed_length

theorem fourValidators_commit_once :
    ∃ n, Relation.ReflTransGen (Step (· ∉ [0x31#160]) (fun _ => true) 0x31#160)
        (Net.init fourValidators 1) n ∧
      (n.nodes 0x32#160).committed = [(1, 1)] ∧ (n.nodes 0x32#160).committed.length ≤ 1 := by
  obtain ⟨n, hrun, ha, -⟩ := fourValidators_commit (fun _ => true) rfl
  exact ⟨n, hrun, ha, committed_length_le_one hrun (by decide)⟩

/-- Validity: in every run, whatever the committee and the Byzantine members,
each proposal an honest node hands to the backend passed its `verify`. -/
theorem committed_verified {n : Net}
    (hrun : Relation.ReflTransGen (Step (· ∉ Z) verify proposer) (Net.init valSet seq) n)
    {d : Address} (hd : d ∉ Z) : ∀ e ∈ (n.nodes d).committed, verify e.2 = true := by
  intro e he
  obtain ⟨-, hp, -⟩ := ((Inv.run hrun).node d hd).committed e he
  exact ProposalsValid.run hrun d hd e.2 hp

/-- A backend that accepts the proposal 1 and no other. -/
def acceptsOne (p : Hash) : Bool := p == 1

theorem fourValidators_commit_verified :
    acceptsOne 2 = false ∧
      ∃ n, Relation.ReflTransGen (Step (· ∉ [0x31#160]) acceptsOne 0x31#160) (Net.init fourValidators 1) n ∧
        (n.nodes 0x32#160).committed = [(1, 1)] ∧ ∀ e ∈ (n.nodes 0x32#160).committed, acceptsOne e.2 = true := by
  obtain ⟨n, hrun, ha, -⟩ := fourValidators_commit acceptsOne rfl
  exact ⟨by decide, n, hrun, ha, committed_verified hrun (by decide)⟩

/-- In every run, whatever the committee and the Byzantine members, an honest
member broadcasts COMMITs for one subject at most: `sendCommit` sends one per
sequence, guarded by the commit height. -/
theorem honest_commit_unique {n : Net}
    (hrun : Relation.ReflTransGen (Step (· ∉ Z) verify proposer) (Net.init valSet seq) n)
    {s : Address} (hs : s ∉ Z) {sub sub' : Subject} (h₁ : (⟨s, .commit sub⟩ : Message) ∈ n.sent)
    (h₂ : (⟨s, .commit sub'⟩ : Message) ∈ n.sent) : sub = sub' :=
  (Inv.run hrun).one_commit s hs sub sub' h₁ h₂

theorem fourValidators_commit_sent :
    ∃ n s sub, Relation.ReflTransGen (Step (· ∉ [0x31#160]) (fun _ => true) 0x31#160)
        (Net.init fourValidators 1) n ∧ s ∉ [0x31#160] ∧ (⟨s, .commit sub⟩ : Message) ∈ n.sent ∧
      ∀ sub', (⟨s, .commit sub'⟩ : Message) ∈ n.sent → sub' = sub := by
  obtain ⟨n, hrun, ha, -⟩ := fourValidators_commit (fun _ => true) rfl
  have hA := (Inv.run hrun).node 0x32#160 (by decide)
  have he : ((1 : Nat), (1 : Hash)) ∈ (n.nodes 0x32#160).committed := by
    rw [ha]
    exact List.mem_singleton_self _
  obtain ⟨s, hs, hsent⟩ := hA.exists_honest_commit (by decide) he
  exact ⟨n, s, _, hrun, hs, hsent, fun sub' h' => honest_commit_unique hrun hs h' hsent⟩

end Run

end Ibft
end Erbie
