import Erbie.Lib.Quorum
import Erbie.Spec.Ibft

/-! Agreement of the IBFT core, and how it fails.

A node accepts the PRE-PREPARE of the round's proposer, and then counts
PREPAREs and COMMITs for its own subject, one per validator, against
`QuorumSize() = 2F + 1`. Two quorums of `N` validators share at least
`2 * QuorumSize - N` members, which is more than `F` only when `N % 3 = 1`
(`Quorum.faulty_lt_overlap_iff`). For the other sizes, the chain's committee
of eleven among them, `F` Byzantine members can sit in both quorums.

The proofs below run the model. One lemma per handler says what a message does
to a node in the phase the attack needs; the fold lemmas carry a node through
a list of PREPAREs or COMMITs to the quorum; the delivery lemmas turn a list of
deliveries into a run of `Step`. The attack: the proposer, Byzantine, sends
one proposal to one group of honest nodes and another to a second group, and
the Byzantine members sign PREPAREs and COMMITs on both sides. Each group with
the Byzantine members is a quorum, so both commit. -/

namespace Erbie
namespace Ibft

@[simp] theorem View.cmp_self (v : View) : v.cmp v = .eq := by
  simp [View.cmp]

theorem MessageSet.filter_ne_of_not_mem_senders {ms : MessageSet} {src : Address}
    (h : src ∉ ms.senders) : ms.filter (fun m => !decide (m.1 = src)) = ms := by
  apply List.filter_eq_self.mpr
  intro m hm
  have : m.1 ≠ src := fun h' => h (List.mem_map.mpr ⟨m, hm, h'⟩)
  simpa using this

namespace Core

/-- A node that accepted the proposal `X` and collects PREPAREs for it. -/
structure Preprepared (c : Core) (X : Hash) : Prop where
  state : c.state = .preprepared
  proposal : c.proposal = some X
  commits : c.commits = []
  locked : c.lockedHash = none
  waiting : c.waitingForRoundChange = false
  height : c.commitHeight < c.sequence

/-- A node prepared on `X` that collects COMMITs for it. -/
structure Prepared (c : Core) (X : Hash) : Prop where
  state : c.state = .prepared
  proposal : c.proposal = some X
  waiting : c.waitingForRoundChange = false

variable (verify : Hash → Bool) (proposer : Address)

theorem handleMsg_preprepare (c : Core) (X : Hash) (hp : proposer ∈ c.valSet)
    (hstate : c.state = .acceptRequest) (hwait : c.waitingForRoundChange = false)
    (hlock : c.lockedHash = none) (hX : verify X = true) :
    c.handleMsg verify proposer ⟨proposer, .preprepare c.currentView (some X)⟩ =
      .ok ({ c with proposal := some X, state := .preprepared }, [.prepare ⟨c.currentView, X⟩]) := by
  simp [handleMsg, hp, handlePreprepare, checkMessage, hwait, hstate, hX, hlock, currentView]

theorem handleMsg_prepare (c : Core) (X : Hash) (src : Address) (hc : c.Preprepared X)
    (hsrc : src ∈ c.valSet) (hfresh : src ∉ c.prepares.senders) :
    c.handleMsg verify proposer ⟨src, .prepare ⟨c.currentView, X⟩⟩ =
      if c.quorumSize ≤ c.prepares.length + 1 then
        .ok ({ c with prepares := (src, ⟨c.currentView, X⟩) :: c.prepares, lockedHash := some X,
                      state := .prepared, commitHeight := c.sequence }, [.commit ⟨c.currentView, X⟩])
      else .ok ({ c with prepares := (src, ⟨c.currentView, X⟩) :: c.prepares }, []) := by
  obtain ⟨hstate, hprop, hcommits, hlock, hwait, hheight⟩ := hc
  obtain ⟨address, valSet, sequence, round, state, proposal, prepares, commits, lockedHash,
    commitHeight, waiting, committed⟩ := c
  simp only at hsrc hfresh hstate hprop hcommits hlock hwait hheight
  subst hstate hprop hcommits hlock hwait
  have hsize : ¬ sequence ≤ commitHeight := by omega
  simp [handleMsg, hsrc, handlePrepare, checkMessage, subject, currentView, MessageSet.add,
    MessageSet.filter_ne_of_not_mem_senders hfresh, prepareOrCommitSize, MessageSet.senders,
    quorumSize, lockHash, sendCommit, hsize, State.toNat]
  by_cases hq : Quorum.size valSet.length ≤ (prepares.length : Int) + 1 <;> simp [hq]

theorem handleMsg_commit (c : Core) (X : Hash) (src : Address) (hc : c.Prepared X)
    (hsrc : src ∈ c.valSet) (hfresh : src ∉ c.commits.senders) :
    c.handleMsg verify proposer ⟨src, .commit ⟨c.currentView, X⟩⟩ =
      if c.quorumSize ≤ c.commits.length + 1 then
        .ok ({ c with commits := (src, ⟨c.currentView, X⟩) :: c.commits, lockedHash := some X,
                      state := .committed, committed := c.committed ++ [(c.sequence, X)] }, [])
      else .ok ({ c with commits := (src, ⟨c.currentView, X⟩) :: c.commits }, []) := by
  obtain ⟨hstate, hprop, hwait⟩ := hc
  obtain ⟨address, valSet, sequence, round, state, proposal, prepares, commits, lockedHash,
    commitHeight, waiting, committed⟩ := c
  simp only at hsrc hfresh hstate hprop hwait
  subst hstate hprop hwait
  simp [handleMsg, hsrc, handleCommit, checkMessage, subject, currentView, MessageSet.add,
    MessageSet.filter_ne_of_not_mem_senders hfresh, quorumSize, lockHash, commit, State.toNat]
  by_cases hq : Quorum.size valSet.length ≤ (commits.length : Int) + 1 <;> simp [hq]

/-- The PREPAREs of the senders `S` for `sub`. -/
def prepareMsgs (S : List Address) (sub : Subject) : List Message := S.map fun s => ⟨s, .prepare sub⟩

/-- The COMMITs of the senders `S` for `sub`. -/
def commitMsgs (S : List Address) (sub : Subject) : List Message := S.map fun s => ⟨s, .commit sub⟩

/-- A node handles messages in order; a refused one changes nothing. -/
def handleAll (c : Core) : List Message → Core × List Payload
  | [] => (c, [])
  | m :: ms =>
    match c.handleMsg verify proposer m with
    | .error _ => handleAll c ms
    | .ok (c', out) => ((handleAll c' ms).1, out ++ (handleAll c' ms).2)

theorem handleAll_cons_ok {c c' : Core} {m : Message} {out : List Payload} (ms : List Message)
    (h : c.handleMsg verify proposer m = .ok (c', out)) :
    c.handleAll verify proposer (m :: ms) =
      ((c'.handleAll verify proposer ms).1, out ++ (c'.handleAll verify proposer ms).2) := by
  simp [handleAll, h]

/-- PREPAREs for its proposal from fresh validators bring a node, at the
quorum, to `Prepared`, and it sends one COMMIT. -/
theorem handleAll_prepares (X : Hash) (L : List Address) (c : Core) (hc : c.Preprepared X)
    (hne : L ≠ []) (hnd : L.Nodup) (hL : ∀ s ∈ L, s ∈ c.valSet ∧ s ∉ c.prepares.senders)
    (hq : (c.prepares.length + L.length : Int) = c.quorumSize) :
    ∃ ms, c.handleAll verify proposer (prepareMsgs L ⟨c.currentView, X⟩) =
      ({ c with prepares := ms, lockedHash := some X, state := .prepared,
                commitHeight := c.sequence }, [.commit ⟨c.currentView, X⟩]) := by
  induction L generalizing c with
  | nil => exact absurd rfl hne
  | cons s L ih =>
    obtain ⟨hs, hfresh⟩ := hL s List.mem_cons_self
    have hstep := handleMsg_prepare verify proposer c X s hc hs hfresh
    rw [prepareMsgs, List.map_cons, ← prepareMsgs]
    by_cases hL' : L = []
    · -- the last PREPARE reaches the quorum
      subst hL'
      have hq' : c.quorumSize ≤ c.prepares.length + 1 := by simp at hq; omega
      rw [if_pos hq'] at hstep
      rw [handleAll_cons_ok verify proposer _ hstep]
      exact ⟨_, rfl⟩
    · have hlen : 0 < L.length := List.length_pos_iff.mpr hL'
      have hq' : ¬ c.quorumSize ≤ c.prepares.length + 1 := by simp at hq; omega
      rw [if_neg hq'] at hstep
      rw [handleAll_cons_ok verify proposer _ hstep]
      obtain ⟨hnot, hnd'⟩ := List.nodup_cons.mp hnd
      let c' : Core := { c with prepares := (s, ⟨c.currentView, X⟩) :: c.prepares }
      have hview : c'.currentView = c.currentView := rfl
      have hnum : ((c.prepares.length + 1 : Nat) + L.length : Int) = c.quorumSize := by
        simp at hq
        omega
      obtain ⟨ms, hms⟩ := ih c' ⟨hc.state, hc.proposal, hc.commits, hc.locked, hc.waiting, hc.height⟩ hL' hnd'
        (fun s' hs' => ⟨(hL s' (List.mem_cons_of_mem _ hs')).1, by
          simp only [c', MessageSet.senders, List.map_cons, List.mem_cons, not_or]
          exact ⟨fun h => hnot (h ▸ hs'), (hL s' (List.mem_cons_of_mem _ hs')).2⟩⟩)
        hnum
      rw [hview] at hms
      exact ⟨ms, by rw [hms]; rfl⟩

/-- COMMITs for its proposal from fresh validators bring a prepared node, at
the quorum, to `Committed`: it hands the proposal on. -/
theorem handleAll_commits (X : Hash) (L : List Address) (c : Core) (hc : c.Prepared X)
    (hne : L ≠ []) (hnd : L.Nodup) (hL : ∀ s ∈ L, s ∈ c.valSet ∧ s ∉ c.commits.senders)
    (hq : (c.commits.length + L.length : Int) = c.quorumSize) :
    ∃ cs, c.handleAll verify proposer (commitMsgs L ⟨c.currentView, X⟩) =
      ({ c with commits := cs, lockedHash := some X, state := .committed,
                committed := c.committed ++ [(c.sequence, X)] }, []) := by
  induction L generalizing c with
  | nil => exact absurd rfl hne
  | cons s L ih =>
    obtain ⟨hs, hfresh⟩ := hL s List.mem_cons_self
    have hstep := handleMsg_commit verify proposer c X s hc hs hfresh
    rw [commitMsgs, List.map_cons, ← commitMsgs]
    by_cases hL' : L = []
    · subst hL'
      have hq' : c.quorumSize ≤ c.commits.length + 1 := by simp at hq; omega
      rw [if_pos hq'] at hstep
      rw [handleAll_cons_ok verify proposer _ hstep]
      exact ⟨_, rfl⟩
    · have hlen : 0 < L.length := List.length_pos_iff.mpr hL'
      have hq' : ¬ c.quorumSize ≤ c.commits.length + 1 := by simp at hq; omega
      rw [if_neg hq'] at hstep
      rw [handleAll_cons_ok verify proposer _ hstep]
      obtain ⟨hnot, hnd'⟩ := List.nodup_cons.mp hnd
      let c' : Core := { c with commits := (s, ⟨c.currentView, X⟩) :: c.commits }
      have hview : c'.currentView = c.currentView := rfl
      have hnum : ((c.commits.length + 1 : Nat) + L.length : Int) = c.quorumSize := by
        simp at hq
        omega
      obtain ⟨cs, hcs⟩ := ih c' ⟨hc.state, hc.proposal, hc.waiting⟩ hL' hnd'
        (fun s' hs' => ⟨(hL s' (List.mem_cons_of_mem _ hs')).1, by
          simp only [c', MessageSet.senders, List.map_cons, List.mem_cons, not_or]
          exact ⟨fun h => hnot (h ▸ hs'), (hL s' (List.mem_cons_of_mem _ hs')).2⟩⟩)
        hnum
      rw [hview] at hcs
      exact ⟨cs, by rw [hcs]; rfl⟩

end Core


namespace Net

variable (verify : Hash → Bool) (proposer : Address)

/-- Deliver messages, in order, to one node. -/
def deliverTo (n : Net) (dst : Address) : List Message → Net
  | [] => n
  | m :: ms => deliverTo (n.deliver verify proposer dst m) dst ms

/-- Deliver the same messages to each node of a list in turn. -/
def deliverEach (n : Net) (ds : List Address) (msgs : List Message) : Net :=
  ds.foldl (fun n d => n.deliverTo verify proposer d msgs) n

theorem deliverTo_eq (n : Net) (dst : Address) (ms : List Message) :
    n.deliverTo verify proposer dst ms =
      { nodes := Function.update n.nodes dst ((n.nodes dst).handleAll verify proposer ms).1,
        sent := n.sent ++ ((n.nodes dst).handleAll verify proposer ms).2.map fun p => ⟨dst, p⟩ } := by
  induction ms generalizing n with
  | nil => simp [deliverTo, Core.handleAll]
  | cons m ms ih =>
    rw [deliverTo, ih]
    unfold deliver
    cases hm : (n.nodes dst).handleMsg verify proposer m with
    | error e => simp [Core.handleAll, hm]
    | ok r =>
      obtain ⟨c', out⟩ := r
      simp [Core.handleAll, hm]

theorem mem_sent_deliverTo {n : Net} {m : Message} (dst : Address) (ms : List Message)
    (h : m ∈ n.sent) : m ∈ (n.deliverTo verify proposer dst ms).sent := by
  rw [deliverTo_eq]
  exact List.mem_append_left _ h

theorem mem_sent_deliver {n : Net} {m : Message} (dst : Address) (msg : Message)
    (h : m ∈ n.sent) : m ∈ (n.deliver verify proposer dst msg).sent := by
  unfold deliver
  split
  · exact h
  · exact List.mem_append_left _ h

theorem deliverEach_cons (n : Net) (d : Address) (ds : List Address) (msgs : List Message) :
    n.deliverEach verify proposer (d :: ds) msgs =
      (n.deliverTo verify proposer d msgs).deliverEach verify proposer ds msgs := rfl

theorem deliverEach_nodes_of_not_mem (n : Net) (ds : List Address) (msgs : List Message)
    {d : Address} (hd : d ∉ ds) : (n.deliverEach verify proposer ds msgs).nodes d = n.nodes d := by
  induction ds generalizing n with
  | nil => rfl
  | cons d' ds ih =>
    obtain ⟨hne, hds⟩ := List.ne_and_not_mem_of_not_mem_cons hd
    rw [deliverEach_cons, ih _ hds, deliverTo_eq]
    exact Function.update_of_ne hne _ _

theorem deliverEach_nodes_of_mem (n : Net) (ds : List Address) (msgs : List Message)
    {d : Address} (hnd : ds.Nodup) (hd : d ∈ ds) :
    (n.deliverEach verify proposer ds msgs).nodes d =
      ((n.nodes d).handleAll verify proposer msgs).1 := by
  induction ds generalizing n with
  | nil => cases hd
  | cons d' ds ih =>
    obtain ⟨hnot, hnd'⟩ := List.nodup_cons.mp hnd
    rw [deliverEach_cons]
    by_cases hdd : d = d'
    · subst hdd
      rw [deliverEach_nodes_of_not_mem _ _ _ _ _ hnot, deliverTo_eq]
      exact Function.update_self _ _ _
    · have hds : d ∈ ds := (List.mem_cons.mp hd).resolve_left hdd
      rw [ih _ hnd' hds, deliverTo_eq]
      simp only
      rw [Function.update_of_ne hdd]

theorem mem_sent_deliverEach {n : Net} {m : Message} (ds : List Address) (msgs : List Message)
    (h : m ∈ n.sent) : m ∈ (n.deliverEach verify proposer ds msgs).sent := by
  induction ds generalizing n with
  | nil => exact h
  | cons d ds ih =>
    rw [deliverEach_cons]
    exact ih (mem_sent_deliverTo verify proposer d msgs h)

theorem mem_sent_deliverEach_of_out (n : Net) (ds : List Address) (msgs : List Message)
    {d : Address} {out : Payload} (hnd : ds.Nodup) (hd : d ∈ ds)
    (hout : out ∈ ((n.nodes d).handleAll verify proposer msgs).2) :
    ⟨d, out⟩ ∈ (n.deliverEach verify proposer ds msgs).sent := by
  induction ds generalizing n with
  | nil => cases hd
  | cons d' ds ih =>
    obtain ⟨hnot, hnd'⟩ := List.nodup_cons.mp hnd
    rw [deliverEach_cons]
    by_cases hdd : d = d'
    · subst hdd
      apply mem_sent_deliverEach
      rw [deliverTo_eq]
      exact List.mem_append_right _ (List.mem_map.mpr ⟨out, hout, rfl⟩)
    · have hds : d ∈ ds := (List.mem_cons.mp hd).resolve_left hdd
      apply ih _ hnd' hds
      rw [deliverTo_eq]
      simp only
      rwa [Function.update_of_ne hdd]

variable (honest : Address → Prop)

/-- Delivering messages that were sent, or that a Byzantine member signs, to
an honest node is a run. -/
theorem reach_deliverTo (n : Net) (dst : Address) (ms : List Message) (hdst : honest dst)
    (hms : ∀ m ∈ ms, m ∈ n.sent ∨ ¬ honest m.address) :
    Relation.ReflTransGen (Step honest verify proposer) n (n.deliverTo verify proposer dst ms) := by
  induction ms generalizing n with
  | nil => exact Relation.ReflTransGen.refl
  | cons m ms ih =>
    apply Relation.ReflTransGen.head (Step.deliver n dst m hdst (hms m List.mem_cons_self))
    apply ih
    intro m' hm'
    rcases hms m' (List.mem_cons_of_mem _ hm') with h | h
    · exact .inl (mem_sent_deliver verify proposer dst m h)
    · exact .inr h

theorem reach_deliverEach (n : Net) (ds : List Address) (msgs : List Message)
    (hds : ∀ d ∈ ds, honest d) (hms : ∀ m ∈ msgs, m ∈ n.sent ∨ ¬ honest m.address) :
    Relation.ReflTransGen (Step honest verify proposer) n
      (n.deliverEach verify proposer ds msgs) := by
  induction ds generalizing n with
  | nil => exact Relation.ReflTransGen.refl
  | cons d ds ih =>
    rw [deliverEach_cons]
    apply (reach_deliverTo verify proposer honest n d msgs (hds d List.mem_cons_self) hms).trans
    apply ih _ (fun d' hd' => hds d' (List.mem_cons_of_mem _ hd'))
    intro m hm
    rcases hms m hm with h | h
    · exact .inl (mem_sent_deliverTo verify proposer d msgs h)
    · exact .inr h

end Net

section Attack

variable (verify : Hash → Bool) (valSet : ValidatorSet) (seq : Nat) (p : Address)
  (Z : List Address)

/-- A group `G` of honest nodes at the start of `seq` commits `H` when the
Byzantine proposer `p` proposes `H` to it and the Byzantine members `Z` sign
its PREPAREs and COMMITs, as soon as `Z` and `G` together make a quorum.
Nothing outside `G` changes. -/
theorem group_commits (G : List Address) (H : Hash) (n : Net) (hseq : 0 < seq)
    (hnd : (Z ++ G).Nodup) (hval : ∀ a ∈ Z ++ G, a ∈ valSet) (hp : p ∈ Z)
    (hH : verify H = true) (hq : ((Z ++ G).length : Int) = Quorum.size valSet.length)
    (hinit : ∀ d ∈ G, n.nodes d = Core.init d valSet seq) :
    ∃ n', Relation.ReflTransGen (Step (· ∉ Z) verify p) n n' ∧
      (∀ d ∈ G, (n'.nodes d).committed = [(seq, H)]) ∧ (∀ d ∉ G, n'.nodes d = n.nodes d) := by
  obtain ⟨-, hGnd, hdisj⟩ := List.nodup_append.mp hnd
  have hpval : p ∈ valSet := hval p (List.mem_append_left _ hp)
  have hhonest : ∀ d ∈ G, d ∉ Z := fun d hd hdZ => hdisj d hdZ d hd rfl
  have hne : Z ++ G ≠ [] := List.ne_nil_of_mem (List.mem_append_left _ hp)
  let sub : Subject := ⟨⟨seq, 0⟩, H⟩
  let pre : List Message := [⟨p, .preprepare ⟨seq, 0⟩ (some H)⟩]
  -- phase 1: the PRE-PREPARE of `p`; each node sends its PREPARE
  let c₁ (d : Address) : Core :=
    { Core.init d valSet seq with proposal := some H, state := .preprepared }
  have hpre : ∀ d ∈ G, (n.nodes d).handleAll verify p pre = (c₁ d, [.prepare sub]) := by
    intro d hd
    rw [hinit d hd]
    have hstep := Core.handleMsg_preprepare verify p (Core.init d valSet seq) H hpval rfl rfl rfl hH
    exact Core.handleAll_cons_ok verify p [] hstep
  let n₁ := n.deliverEach verify p G pre
  have hn₁ : ∀ d ∈ G, n₁.nodes d = c₁ d := by
    intro d hd
    rw [Net.deliverEach_nodes_of_mem _ _ _ _ _ hGnd hd, hpre d hd]
  have hsent₁ : ∀ d ∈ G, (⟨d, .prepare sub⟩ : Message) ∈ n₁.sent := by
    intro d hd
    apply Net.mem_sent_deliverEach_of_out _ _ _ _ _ hGnd hd
    rw [hpre d hd]
    exact List.mem_singleton_self _
  -- phase 2: the PREPAREs of `Z` and `G`; each node is prepared and sends its COMMIT
  have hprep : ∀ d ∈ G, ∃ ms, (c₁ d).handleAll verify p (Core.prepareMsgs (Z ++ G) sub) =
      ({ c₁ d with prepares := ms, lockedHash := some H, state := .prepared,
                   commitHeight := seq }, [.commit sub]) := by
    intro d _
    have hc : (c₁ d).Preprepared H := ⟨rfl, rfl, rfl, rfl, rfl, by simp [c₁, Core.init]; omega⟩
    exact Core.handleAll_prepares verify p H (Z ++ G) (c₁ d) hc hne hnd
      (fun s hs => ⟨hval s hs, by simp [c₁, Core.init, MessageSet.senders]⟩)
      (by simpa [c₁, Core.init, Core.quorumSize] using hq)
  let n₂ := n₁.deliverEach verify p G (Core.prepareMsgs (Z ++ G) sub)
  have hsent₂ : ∀ d ∈ G, (⟨d, .commit sub⟩ : Message) ∈ n₂.sent := by
    intro d hd
    apply Net.mem_sent_deliverEach_of_out _ _ _ _ _ hGnd hd
    obtain ⟨ms, hms⟩ := hprep d hd
    rw [hn₁ d hd, hms]
    exact List.mem_singleton_self _
  -- phase 3: the COMMITs of `Z` and `G`; each node commits `H`
  have hcom : ∀ d ∈ G, ((n₂.nodes d).handleAll verify p (Core.commitMsgs (Z ++ G) sub)).1.committed =
      [(seq, H)] := by
    intro d hd
    obtain ⟨ms, hms⟩ := hprep d hd
    rw [Net.deliverEach_nodes_of_mem _ _ _ _ _ hGnd hd, hn₁ d hd, hms]
    obtain ⟨cs, hcs⟩ := Core.handleAll_commits verify p H (Z ++ G)
      { c₁ d with prepares := ms, lockedHash := some H, state := .prepared, commitHeight := seq }
      ⟨rfl, rfl, rfl⟩ hne hnd
      (fun s hs => ⟨hval s hs, by simp [c₁, Core.init, MessageSet.senders]⟩)
      (by simpa [c₁, Core.init, Core.quorumSize] using hq)
    exact congrArg (fun r => r.1.committed) hcs
  -- each delivered message was sent by a node of `G` or is signed by `Z`
  have hsigned : ∀ (n' : Net) (pl : Payload), (∀ d ∈ G, (⟨d, pl⟩ : Message) ∈ n'.sent) →
      ∀ m ∈ (Z ++ G).map (fun s => (⟨s, pl⟩ : Message)), m ∈ n'.sent ∨ ¬ m.address ∉ Z := by
    intro n' pl hsent m hm
    obtain ⟨s, hs, rfl⟩ := List.mem_map.mp hm
    rcases List.mem_append.mp hs with hsZ | hsG
    · exact .inr (not_not.mpr hsZ)
    · exact .inl (hsent s hsG)
  refine ⟨n₂.deliverEach verify p G (Core.commitMsgs (Z ++ G) sub), ?_, ?_, ?_⟩
  · have r₁ := Net.reach_deliverEach verify p (· ∉ Z) n G pre hhonest
      (fun m hm => .inr (by simp only [pre, List.mem_singleton] at hm; subst hm; exact not_not.mpr hp))
    have r₂ := Net.reach_deliverEach verify p (· ∉ Z) n₁ G (Core.prepareMsgs (Z ++ G) sub) hhonest
      (hsigned n₁ (.prepare sub) hsent₁)
    have r₃ := Net.reach_deliverEach verify p (· ∉ Z) n₂ G (Core.commitMsgs (Z ++ G) sub) hhonest
      (hsigned n₂ (.commit sub) hsent₂)
    exact (r₁.trans r₂).trans r₃
  · intro d hd
    rw [Net.deliverEach_nodes_of_mem _ _ _ _ _ hGnd hd]
    exact hcom d hd
  · intro d hd
    rw [Net.deliverEach_nodes_of_not_mem _ _ _ _ _ hd, Net.deliverEach_nodes_of_not_mem _ _ _ _ _ hd,
      Net.deliverEach_nodes_of_not_mem _ _ _ _ _ hd]

/-- Equivocation: a Byzantine proposer and the Byzantine members `Z` bring two
disjoint groups of honest nodes, each a quorum together with `Z`, to commit
their own proposals for one sequence. -/
theorem equivocation_commits_both (A B : List Address) (X Y : Hash) (hseq : 0 < seq)
    (hnd : (Z ++ A ++ B).Nodup) (hval : ∀ a ∈ Z ++ A ++ B, a ∈ valSet) (hp : p ∈ Z)
    (hX : verify X = true) (hY : verify Y = true)
    (hA : ((Z ++ A).length : Int) = Quorum.size valSet.length)
    (hB : ((Z ++ B).length : Int) = Quorum.size valSet.length) :
    ∃ n, Relation.ReflTransGen (Step (· ∉ Z) verify p) (Net.init valSet seq) n ∧
      (∀ d ∈ A, (n.nodes d).committed = [(seq, X)]) ∧
      (∀ d ∈ B, (n.nodes d).committed = [(seq, Y)]) := by
  rw [List.append_assoc] at hnd hval
  have hndA : (Z ++ A).Nodup :=
    List.Nodup.sublist ((List.sublist_append_left A B).append_left Z) hnd
  have hndB : (Z ++ B).Nodup :=
    List.Nodup.sublist ((List.sublist_append_right A B).append_left Z) hnd
  have hAB : ∀ d ∈ A, d ∉ B := by
    intro d hdA hdB
    have hAB := (List.nodup_append.mp hnd).2.1
    exact (List.nodup_append.mp hAB).2.2 d hdA d hdB rfl
  have hvalA : ∀ a ∈ Z ++ A, a ∈ valSet := fun a ha => hval a (by
    rcases List.mem_append.mp ha with h | h <;> simp [h])
  have hvalB : ∀ a ∈ Z ++ B, a ∈ valSet := fun a ha => hval a (by
    rcases List.mem_append.mp ha with h | h <;> simp [h])
  -- first the group of `X` runs, then the group of `Y`, which the first left alone
  obtain ⟨n₁, r₁, hcA, hout₁⟩ := group_commits verify valSet seq p Z A X (Net.init valSet seq)
    hseq hndA hvalA hp hX hA (fun d _ => rfl)
  obtain ⟨n₂, r₂, hcB, hout₂⟩ := group_commits verify valSet seq p Z B Y n₁
    hseq hndB hvalB hp hY hB (fun d hd => by rw [hout₁ d (fun h => hAB d h hd)]; rfl)
  refine ⟨n₂, r₁.trans r₂, ?_, hcB⟩
  intro d hd
  rw [hout₂ d (hAB d hd)]
  exact hcA d hd

end Attack

section Committee

variable (verify : Hash → Bool) (seq : Nat)

/-- Every committee of five or more distinct validators whose size is not
`1 mod 3` loses agreement: whoever proposes, `F` Byzantine members with the
proposer among them make two honest nodes commit the two proposals `X` and `Y`
for one sequence. Two quorums of such a committee can meet in `F` members. -/
theorem agreement_fails (valSet : ValidatorSet) (p : Address) (hnd : valSet.Nodup)
    (hp : p ∈ valSet) (hN : valSet.length % 3 ≠ 1) (h5 : 5 ≤ valSet.length) (hseq : 0 < seq)
    (X Y : Hash) (hX : verify X = true) (hY : verify Y = true) :
    ∃ (Z : List Address) (a b : Address), p ∈ Z ∧ (Z.length : Int) = Quorum.faulty valSet.length ∧
      a ∉ Z ∧ b ∉ Z ∧ ∃ n, Relation.ReflTransGen (Step (· ∉ Z) verify p) (Net.init valSet seq) n ∧
        (n.nodes a).committed = [(seq, X)] ∧ (n.nodes b).committed = [(seq, Y)] := by
  -- `F = f`, and the committee holds `3f + 2` members or more
  obtain ⟨f, hf⟩ : ∃ f : Nat, f + 1 = (valSet.length + 2) / 3 := ⟨(valSet.length + 2) / 3 - 1, by omega⟩
  have hF : Quorum.faulty valSet.length = f := by unfold Quorum.faulty; omega
  have hQ : Quorum.size valSet.length = 2 * f + 1 := by unfold Quorum.size; omega
  have hf1 : 1 ≤ f := by omega
  -- the proposer and `f - 1` others are Byzantine; two groups of `f + 1` follow
  let rest := valSet.erase p
  have hrest : rest.length = valSet.length - 1 := List.length_erase_of_mem hp
  have hbig : 3 * f + 1 ≤ rest.length := by omega
  let Z := p :: rest.take (f - 1)
  let A := (rest.drop (f - 1)).take (f + 1)
  let B := (rest.drop (2 * f)).take (f + 1)
  have hsplit : Z ++ A ++ B = p :: rest.take (3 * f + 1) := by
    have h₁ : 3 * f + 1 = (f - 1) + (f + 1) + (f + 1) := by omega
    rw [h₁, List.take_add, List.take_add]
    have h₂ : f - 1 + (f + 1) = 2 * f := by omega
    simp only [Z, A, B, h₂, List.cons_append, List.append_assoc]
  have hndrest : (p :: rest).Nodup := List.nodup_cons.mpr ⟨hnd.not_mem_erase, hnd.erase p⟩
  have hndZAB : (Z ++ A ++ B).Nodup := by
    rw [hsplit]
    exact hndrest.sublist ((List.take_sublist _ _).cons_cons p)
  have hvalZAB : ∀ a ∈ Z ++ A ++ B, a ∈ valSet := by
    intro a ha
    rw [hsplit] at ha
    rcases List.mem_cons.mp ha with rfl | ha
    · exact hp
    · exact List.mem_of_mem_erase (List.mem_of_mem_take ha)
  have hlenA : A.length = f + 1 := by
    simp only [A, List.length_take, List.length_drop]
    omega
  have hlenB : B.length = f + 1 := by simp [B]; omega
  have hlenZ : Z.length = f := by simp [Z]; omega
  obtain ⟨a, ha⟩ := List.exists_mem_of_length_pos (by omega : 0 < A.length)
  obtain ⟨b, hb⟩ := List.exists_mem_of_length_pos (by omega : 0 < B.length)
  obtain ⟨n, hrun, hcA, hcB⟩ := equivocation_commits_both verify valSet seq p Z A B X Y hseq
    hndZAB hvalZAB List.mem_cons_self hX hY
    (by rw [List.length_append, hlenZ, hlenA, hQ]; push_cast; omega)
    (by rw [List.length_append, hlenZ, hlenB, hQ]; push_cast; omega)
  have hZA : ∀ d ∈ A, d ∉ Z := by
    intro d hd hdZ
    rw [List.append_assoc] at hndZAB
    exact (List.nodup_append.mp hndZAB).2.2 d hdZ d (List.mem_append_left _ hd) rfl
  have hZB : ∀ d ∈ B, d ∉ Z := by
    intro d hd hdZ
    rw [List.append_assoc] at hndZAB
    exact (List.nodup_append.mp hndZAB).2.2 d hdZ d (List.mem_append_right _ hd) rfl
  exact ⟨Z, a, b, List.mem_cons_self, by rw [hlenZ, hF], hZA a ha, hZB b hb, n, hrun, hcA a ha, hcB b hb⟩

/-- Eleven validators. -/
def elevenValidators : ValidatorSet := (List.range 11).map fun i => BitVec.ofNat 160 (0x31 + i)

theorem agreement_fails_eleven :
    ∃ (Z : List Address) (a b : Address), 0x31#160 ∈ Z ∧
      (Z.length : Int) = Quorum.faulty elevenValidators.length ∧ a ∉ Z ∧ b ∉ Z ∧
      ∃ n, Relation.ReflTransGen (Step (· ∉ Z) (fun _ => true) 0x31#160)
          (Net.init elevenValidators 1) n ∧
        (n.nodes a).committed = [(1, 1)] ∧ (n.nodes b).committed = [(1, 2)] :=
  agreement_fails (fun _ => true) 1 elevenValidators 0x31#160 (by decide) (by decide) (by decide)
    (by decide) (by decide) 1 2 rfl rfl

end Committee

end Ibft
end Erbie
