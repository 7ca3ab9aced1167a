import QuicTransport.Proofs.Lifecycle

set_option autoImplicit false

/-! # The queue of inbound packets

Packets that arrive are put at the end of a queue and are taken from its front. During the handshake
a 1-RTT packet may be moved on the way. A server sets it aside, and once the handshake is complete
all that was set aside comes in front again. A client that finds HANDSHAKE_DONE in it puts it back.
Neither changes the order of what was set aside followed by what waits (`QueueState.all`), and that
carries the proof.

What can happen to the queues is said once (`QueueState.Step`), and a run is a walk of such steps
(`Connection.walk_run`). A packet with a long header overtakes those that were set aside, but these
are all 1-RTT packets. So on a walk without failures, and for each kind of packet by itself, what
was accepted is what was processed followed by what still waits (`QueueState.Balanced`). -/

namespace QuicTransport

/-! ## What passes the queue -/

/-- Who looks at the frames of a packet. -/
inductive Dispatcher where
  | handshake
  /-- A client that waits for HANDSHAKE_DONE. It looks for nothing else. -/
  | confirmation
  | active
deriving DecidableEq, Repr

/-- What goes into the queue and what comes out of it. -/
structure Passage where
  accepted : List Packet := []
  dispatched : List (Dispatcher × Packet) := []

namespace Passage

instance : Append Passage where
  append m n := ⟨m.accepted ++ n.accepted, m.dispatched ++ n.dispatched⟩

@[simp] theorem accepted_append (m n : Passage) : (m ++ n).accepted = m.accepted ++ n.accepted :=
  rfl

@[simp] theorem dispatched_append (m n : Passage) :
    (m ++ n).dispatched = m.dispatched ++ n.dispatched := rfl

@[simp] theorem append_empty (m : Passage) : m ++ ({} : Passage) = m := by
  obtain ⟨accepted, dispatched⟩ := m
  exact congrArg₂ Passage.mk (List.append_nil _) (List.append_nil _)

@[simp] theorem empty_append (m : Passage) : ({} : Passage) ++ m = m := rfl

theorem append_assoc (l m n : Passage) : l ++ m ++ n = l ++ (m ++ n) :=
  congrArg₂ Passage.mk (List.append_assoc _ _ _) (List.append_assoc _ _ _)

/-- The packets whose frames were processed. -/
def processed (m : Passage) : List Packet :=
  (m.dispatched.filter fun x => x.1 != .confirmation).map Prod.snd

/-- The packets in which HANDSHAKE_DONE was looked for. -/
def confirmations (m : Passage) : List Packet :=
  (m.dispatched.filter fun x => x.1 == .confirmation).map Prod.snd

@[simp] theorem processed_append (m n : Passage) :
    (m ++ n).processed = m.processed ++ n.processed := by
  simp [processed]

@[simp] theorem confirmations_append (m n : Passage) :
    (m ++ n).confirmations = m.confirmations ++ n.confirmations := by
  simp [confirmations]

end Passage

namespace Connection

variable {Memory : Type}

/-- What a call puts into the queue, and what it takes out of it. A server that sets a packet aside
does not look at it. -/
def passage (c : Connection Memory) : ConnectionCall → Passage
  | .buffer p =>
    match (c.bufferPacket p).1 with
    | .ok true => { accepted := [p] }
    | _ => {}
  | .process =>
    match c.phase, c.buffered with
    | .handshaking _, p :: _ =>
      if p.isLong then { dispatched := [(.handshake, p)] }
      else
        match c.side with
        | .server => {}
        | .client => { dispatched := [(.confirmation, p)] }
    | .active, p :: _ => { dispatched := [(.active, p)] }
    | _, _ => {}
  | _ => {}

/-- What several calls put into the queue, and what they take out of it. -/
def passages (c : Connection Memory) : List ConnectionCall → Passage
  | [] => {}
  | x :: calls => c.passage x ++ (c.call x).2.passages calls

end Connection

/-! ## Steps -/

/-- What matters of a connection here: its stage and its two queues. -/
structure QueueState where
  stage : Stage
  /-- What was set aside. -/
  deferred : List Packet
  /-- What waits. -/
  buffered : List Packet

namespace QueueState

/-- All packets, in the order in which they came. -/
def all (q : QueueState) : List Packet := q.deferred ++ q.buffered

/-- What was set aside comes in front again. -/
def promoted (q : QueueState) : QueueState := ⟨.active, [], q.all⟩

/-- One thing that can happen to the queues of a side. Only a call that fails loses a packet. -/
inductive Step (s : Side) (limit : Nat) (fails : Bool) : QueueState → Passage → QueueState → Prop
  | begun {deferred buffered : List Packet} :
    Step s limit fails ⟨.idle, deferred, buffered⟩ {} ⟨.handshaking, deferred, buffered⟩
  | accepted {stage : Stage} {deferred buffered : List Packet} {p : Packet}
    (hstage : stage = .handshaking ∨ stage = .active)
    (hroom : (deferred ++ buffered).length < limit) :
    Step s limit fails ⟨stage, deferred, buffered⟩ { accepted := [p] }
      ⟨stage, deferred, buffered ++ [p]⟩
  | setAside {deferred rest : List Packet} {p : Packet} (hs : s = .server)
    (hp : p.isLong = false) :
    Step s limit fails ⟨.handshaking, deferred, p :: rest⟩ {} ⟨.handshaking, deferred ++ [p], rest⟩
  | handshake {deferred rest : List Packet} {p : Packet} (hp : p.isLong = true) :
    Step s limit fails ⟨.handshaking, deferred, p :: rest⟩ { dispatched := [(.handshake, p)] }
      ⟨.handshaking, deferred, rest⟩
  | confirmed {deferred rest : List Packet} {p : Packet} (hs : s = .client)
    (hp : p.isLong = false) (hdone : p.frames.any Frame.isHandshakeDone = true) :
    Step s limit fails ⟨.handshaking, deferred, p :: rest⟩ { dispatched := [(.confirmation, p)] }
      ⟨.active, [], deferred ++ p :: rest⟩
  | lost {deferred rest : List Packet} {p : Packet} (hs : s = .client) (hp : p.isLong = false)
    (hfails : fails = true) :
    Step s limit fails ⟨.handshaking, deferred, p :: rest⟩ { dispatched := [(.confirmation, p)] }
      ⟨.handshaking, deferred, rest⟩
  | active {deferred rest : List Packet} {p : Packet} :
    Step s limit fails ⟨.active, deferred, p :: rest⟩ { dispatched := [(.active, p)] }
      ⟨.active, deferred, rest⟩
  | promoted {deferred buffered : List Packet} :
    Step s limit fails ⟨.handshaking, deferred, buffered⟩ {}
      (promoted ⟨.handshaking, deferred, buffered⟩)
  | closed {q : QueueState} {stage : Stage} (hopen : q.stage.isClosed = false)
    (hclosed : stage.isClosed = true) : Step s limit fails q {} ⟨stage, [], []⟩

/-- Steps one after the other, with all that passes the queue on the way. -/
inductive Walk (s : Side) (limit : Nat) (fails : Bool) : QueueState → Passage → QueueState → Prop
  | nil (q : QueueState) : Walk s limit fails q {} q
  | snoc {q q' q'' : QueueState} {m n : Passage} (hwalk : Walk s limit fails q m q')
    (hstep : Step s limit fails q' n q'') : Walk s limit fails q (m ++ n) q''

variable {s : Side} {limit : Nat} {fails : Bool} {q q' q'' : QueueState} {m n : Passage}

/-- A connection that was closed stays closed. -/
theorem Step.isClosed_eq_false (h : Step s limit fails q m q') (hopen : q'.stage.isClosed = false) :
    q.stage.isClosed = false := by
  cases h with
  | accepted => exact hopen
  | closed hbefore => exact hbefore
  | _ => rfl

theorem Step.walk (h : Step s limit fails q m q') : Walk s limit fails q m q' := by
  have hwalk := Walk.snoc (.nil q) h
  rwa [Passage.empty_append] at hwalk

theorem Walk.trans (h : Walk s limit fails q m q') (hmore : Walk s limit fails q' n q'') :
    Walk s limit fails q (m ++ n) q'' := by
  induction hmore with
  | nil => rwa [Passage.append_empty]
  | snoc _ hstep ih =>
    rw [← Passage.append_assoc]
    exact ih.snoc hstep

theorem Walk.isClosed_eq_false (h : Walk s limit fails q m q') (hopen : q'.stage.isClosed = false) :
    q.stage.isClosed = false := by
  induction h with
  | nil => exact hopen
  | snoc _ hstep ih => exact ih (hstep.isClosed_eq_false hopen)

/-! ### What all walks keep -/

/-- The queues are within the limit. Until the connection is active, what waits is the end of all
that was accepted, and a server has set aside the 1-RTT packets among the rest. Nothing is set aside
otherwise. -/
structure Kept (s : Side) (limit : Nat) (q : QueueState) (m : Passage) : Prop where
  bounded : q.all.length ≤ limit
  early : q.stage.isEarly = true → ∃ early, m.accepted = early ++ q.buffered
    ∧ q.deferred = if s = .server then early.filter (fun p => !p.isLong) else []
  late : q.stage ≠ .handshaking → q.deferred = []

theorem kept_start (s : Side) (limit : Nat) : Kept s limit ⟨.idle, [], []⟩ {} where
  bounded := Nat.zero_le limit
  early := fun _ => ⟨[], rfl, by simp⟩
  late := fun _ => rfl

/-- Only 1-RTT packets are set aside. -/
theorem Kept.isLong_eq_false (h : Kept s limit q m) : ∀ p ∈ q.deferred, p.isLong = false := by
  intro p hp
  by_cases hstage : q.stage = .handshaking
  · obtain ⟨early, _, hdeferred⟩ := h.early (by rw [hstage]; rfl)
    rw [hdeferred] at hp
    split at hp
    · simpa using (List.mem_filter.1 hp).2
    · cases hp
  · rw [h.late hstage] at hp
    cases hp

theorem Kept.step (h : Kept s limit q m) (hstep : Step s limit fails q n q') :
    Kept s limit q' (m ++ n) := by
  have hbounded := h.bounded
  cases hstep with
  | begun =>
    refine ⟨hbounded, fun _ => ?_, fun _ => h.late (by simp)⟩
    simpa using h.early rfl
  | @accepted stage deferred buffered p hstage hroom =>
    refine ⟨?_, fun hearly => ?_, h.late⟩
    · simp only [all, List.length_append, List.length_singleton] at hroom ⊢
      omega
    · obtain ⟨early, haccepted, hdeferred⟩ := h.early hearly
      exact ⟨early, by simp [haccepted], hdeferred⟩
  | @setAside deferred rest p hs hp =>
    obtain ⟨early, haccepted, hdeferred⟩ := h.early rfl
    refine ⟨by simpa [all] using hbounded, fun _ => ⟨early ++ [p], by simp [haccepted], ?_⟩,
      fun hstage => absurd rfl hstage⟩
    rw [if_pos hs] at hdeferred ⊢
    simp [← hdeferred, hp]
  | @handshake deferred rest p hp =>
    obtain ⟨early, haccepted, hdeferred⟩ := h.early rfl
    refine ⟨?_, fun _ => ⟨early ++ [p], by simp [haccepted], ?_⟩, fun hstage => absurd rfl hstage⟩
    · simp only [all, List.length_append, List.length_cons] at hbounded ⊢
      omega
    · simpa [hp] using hdeferred
  | confirmed => exact ⟨by simpa [all] using hbounded, nofun, fun _ => rfl⟩
  | @lost deferred rest p hs hp _ =>
    obtain ⟨early, haccepted, hdeferred⟩ := h.early rfl
    refine ⟨?_, fun _ => ⟨early ++ [p], by simp [haccepted], ?_⟩, fun hstage => absurd rfl hstage⟩
    · simp only [all, List.length_append, List.length_cons] at hbounded ⊢
      omega
    · simpa [hs] using hdeferred
  | active =>
    refine ⟨?_, nofun, fun _ => h.late (by simp)⟩
    simp only [all, List.length_append, List.length_cons] at hbounded ⊢
    omega
  | promoted => exact ⟨by simpa [all, QueueState.promoted] using hbounded, nofun, fun _ => rfl⟩
  | closed hopen hclosed =>
    refine ⟨Nat.zero_le limit, fun hearly => ?_, fun _ => rfl⟩
    cases (Stage.isEarly_of_isClosed hclosed).symm.trans hearly

theorem Kept.walk (h : Kept s limit q m) (hwalk : Walk s limit fails q n q') :
    Kept s limit q' (m ++ n) := by
  induction hwalk with
  | nil => rwa [Passage.append_empty]
  | snoc _ hstep ih =>
    rw [← Passage.append_assoc]
    exact ih.step hstep

/-! ### What walks without failures keep -/

/-- The packets of one kind. -/
def ofKind (long : Bool) (packets : List Packet) : List Packet :=
  packets.filter fun p => p.isLong == long

@[simp] theorem ofKind_nil (long : Bool) : ofKind long [] = [] := rfl

@[simp] theorem ofKind_append (long : Bool) (front back : List Packet) :
    ofKind long (front ++ back) = ofKind long front ++ ofKind long back :=
  List.filter_append ..

theorem ofKind_eq_nil_iff {long : Bool} {packets : List Packet} :
    ofKind long packets = [] ↔ ∀ p ∈ packets, p.isLong = !long := by
  rw [ofKind, List.filter_eq_nil_iff]
  refine forall₂_congr fun p _ => ?_
  cases p.isLong <;> cases long <;> decide

/-- Lists that agree in both kinds have the same packets. -/
theorem perm_of_ofKind {before out left : List Packet}
    (h : ∀ long, ofKind long before = ofKind long out ++ ofKind long left) :
    before.Perm (out ++ left) := by
  have hsplit : ∀ packets : List Packet,
      (ofKind true packets ++ ofKind false packets).Perm packets := by
    intro packets
    have hperm := List.filter_append_perm (fun p : Packet => p.isLong == true) packets
    have hother : (fun p : Packet => !(p.isLong == true)) = fun p => p.isLong == false := by
      funext p
      cases p.isLong <;> rfl
    rwa [hother] at hperm
  refine (hsplit before).symm.trans (List.Perm.trans (List.Perm.of_eq ?_) (hsplit (out ++ left)))
  rw [h true, h false, ofKind_append, ofKind_append]

/-- What is there and what comes is what is processed and what is left. -/
theorem Step.conserves (hstep : Step s limit false q n q') (hkept : Kept s limit q m)
    (hopen : q'.stage.isClosed = false) (long : Bool) :
    ofKind long q.all ++ ofKind long n.accepted =
      ofKind long n.processed ++ ofKind long q'.all := by
  cases hstep with
  | begun | accepted | setAside | confirmed | promoted =>
    simp [all, QueueState.promoted, Passage.processed, ofKind]
  | @handshake deferred rest p hp =>
    have hdeferred : ∀ p ∈ deferred, p.isLong = false := hkept.isLong_eq_false
    cases long with
    | true =>
      have hnone : ofKind true deferred = [] := ofKind_eq_nil_iff.2 hdeferred
      simp [all, Passage.processed, hnone]
      simp [ofKind, hp]
    | false => simp [all, Passage.processed, ofKind, hp]
  | lost _ _ hfails => cases hfails
  | @active deferred rest p =>
    have hdeferred : deferred = [] := hkept.late (by simp)
    simpa [all, Passage.processed, hdeferred] using ofKind_append long [p] rest
  | closed _ hclosed => cases hopen.symm.trans hclosed

/-- The handshake gets packets with a long header only. -/
theorem Step.isLong_of_handshake (hstep : Step s limit fails q n q') {p : Packet}
    (hp : (.handshake, p) ∈ n.dispatched) : p.isLong = true := by
  cases hstep with
  | handshake hlong =>
    cases List.mem_singleton.1 hp
    exact hlong
  | confirmed | lost | active => cases List.mem_singleton.1 hp
  | _ => cases hp

/-- Before the connection is active, nobody else gets any. -/
theorem Step.early (hstep : Step s limit false q n q') (hearly : q'.stage.isEarly = true) :
    q.stage.isEarly = true ∧ ∀ x ∈ n.dispatched, x.1 = .handshake := by
  cases hstep with
  | handshake => exact ⟨rfl, by simp⟩
  | begun | setAside => exact ⟨rfl, by simp⟩
  | accepted => exact ⟨hearly, by simp⟩
  | lost _ _ hfails => cases hfails
  | closed _ hclosed => cases (Stage.isEarly_of_isClosed hclosed).symm.trans hearly
  | confirmed | promoted | active => cases hearly

/-- A client looks for HANDSHAKE_DONE in the packet in front, and finds it. -/
theorem Step.confirmations_cases (hstep : Step s limit false q n q') :
    n.confirmations = [] ∨ ∃ p rest, n.confirmations = [p] ∧ q.stage = .handshaking
      ∧ q.buffered = p :: rest ∧ s = .client ∧ p.isLong = false
      ∧ p.frames.any Frame.isHandshakeDone = true := by
  cases hstep with
  | @confirmed deferred rest p hs hp hdone =>
    exact Or.inr ⟨p, rest, rfl, rfl, rfl, hs, hp, hdone⟩
  | lost _ _ hfails => cases hfails
  | _ => exact Or.inl rfl

/-- Nothing is lost, doubled or put in another place: as long as the connection is not closed, the
packets of each kind that were accepted are those that were processed, followed by those that are
still there. -/
structure Balanced (s : Side) (q : QueueState) (m : Passage) : Prop where
  order : q.stage.isClosed = false → ∀ long,
    ofKind long m.accepted = ofKind long m.processed ++ ofKind long q.all
  handshake : ∀ p, (.handshake, p) ∈ m.dispatched → p.isLong = true
  early : q.stage.isEarly = true → ∀ x ∈ m.dispatched, x.1 = .handshake
  /-- A client looks for HANDSHAKE_DONE in the first 1-RTT packet and in no other. -/
  confirmed : m.confirmations.length ≤ 1 ∧ m.confirmations <+: ofKind false m.accepted
    ∧ ∀ p ∈ m.confirmations, s = .client ∧ p.frames.any Frame.isHandshakeDone = true

theorem balanced_start (s : Side) : Balanced s ⟨.idle, [], []⟩ {} where
  order := fun _ _ => rfl
  handshake := by simp
  early := by simp
  confirmed := ⟨Nat.zero_le 1, List.nil_prefix, by simp [Passage.confirmations]⟩

/-- Until the connection is active, all packets that were processed have a long header, and nobody
has looked for HANDSHAKE_DONE. -/
theorem Balanced.of_isEarly (h : Balanced s q m) (hearly : q.stage.isEarly = true) :
    (∀ p ∈ m.processed, p.isLong = true) ∧ m.confirmations = [] := by
  have hall := h.early hearly
  constructor
  · intro p hp
    obtain ⟨⟨d, p'⟩, hx, rfl⟩ := List.mem_map.1 hp
    have hmem := (List.mem_filter.1 hx).1
    obtain rfl : d = .handshake := hall _ hmem
    exact h.handshake _ hmem
  · rw [Passage.confirmations, List.map_eq_nil_iff, List.filter_eq_nil_iff]
    intro x hx
    rw [hall x hx]
    decide

theorem Balanced.step_confirmed (h : Balanced s q m) (hkept : Kept s limit q m)
    (hstep : Step s limit false q n q') :
    (m ++ n).confirmations.length ≤ 1
      ∧ (m ++ n).confirmations <+: ofKind false (m ++ n).accepted
      ∧ ∀ p ∈ (m ++ n).confirmations, s = .client ∧ p.frames.any Frame.isHandshakeDone = true := by
  obtain ⟨hlength, hprefix, hclient⟩ := h.confirmed
  rw [Passage.confirmations_append, Passage.accepted_append, ofKind_append]
  rcases hstep.confirmations_cases with hnone | ⟨p, rest, hone, hstage, hqueue, hs, hp, hdone⟩
  · rw [hnone, List.append_nil]
    exact ⟨hlength, hprefix.trans (List.prefix_append _ _), hclient⟩
  · -- no 1-RTT packet has been processed, so the one in front is the first
    have hearly : q.stage.isEarly = true := by rw [hstage]; rfl
    obtain ⟨hlong, hnothing⟩ := h.of_isEarly hearly
    obtain ⟨_, _, hdeferred⟩ := hkept.early hearly
    have hfirst : ofKind false m.accepted = p :: ofKind false rest := by
      rw [h.order (by rw [hstage]; rfl), ofKind_eq_nil_iff.2 hlong, all, hdeferred, hqueue, hs]
      simp [ofKind, hp]
    rw [hnothing, hone, hfirst]
    exact ⟨Nat.le_refl 1, by simp, List.forall_mem_singleton.2 ⟨hs, hdone⟩⟩

theorem Balanced.step (h : Balanced s q m) (hkept : Kept s limit q m)
    (hstep : Step s limit false q n q') : Balanced s q' (m ++ n) where
  order := by
    intro hopen long
    have hbefore : q.stage.isClosed = false := hstep.isClosed_eq_false hopen
    rw [Passage.accepted_append, Passage.processed_append, ofKind_append, ofKind_append,
      h.order hbefore, List.append_assoc, hstep.conserves hkept hopen, List.append_assoc]
  handshake := by
    intro p hp
    rcases List.mem_append.1 hp with hp | hp
    · exact h.handshake p hp
    · exact hstep.isLong_of_handshake hp
  early := by
    intro hearly
    obtain ⟨hbefore, hall⟩ := hstep.early hearly
    exact List.forall_mem_append.2 ⟨h.early hbefore, hall⟩
  confirmed := h.step_confirmed hkept hstep

theorem Balanced.walk (h : Balanced s q m) (hkept : Kept s limit q m)
    (hwalk : Walk s limit false q n q') : Balanced s q' (m ++ n) := by
  induction hwalk with
  | nil => rwa [Passage.append_empty]
  | snoc hwalk hstep ih =>
    rw [← Passage.append_assoc]
    exact ih.step (hkept.walk hwalk) hstep

end QueueState

/-! ## Calls -/

namespace Connection

open QueueState (Walk Step)

variable {Memory : Type} {c : Connection Memory} {s : Side} {limit : Nat} {fails : Bool}

def queueState (c : Connection Memory) : QueueState := ⟨c.phase.stage, c.deferred, c.buffered⟩

theorem queueState_of_stage {stage : Stage} (h : c.phase.stage = stage) :
    c.queueState = ⟨stage, c.deferred, c.buffered⟩ := by
  rw [queueState, h]

theorem walk_close (hopen : c.phase.isClosed = false) {phase : Phase Memory}
    (hclosed : phase.isClosed = true) :
    Walk s limit fails c.queueState {} (c.close phase).queueState := by
  refine Step.walk (Step.closed ?_ ?_)
  · exact c.phase.isClosed_stage.trans hopen
  · exact phase.isClosed_stage.trans hclosed

theorem walk_withHandshake (hstage : c.phase.stage = .handshaking) (h : Handshake Memory) :
    Walk s limit fails c.queueState {} (c.withHandshake h).queueState := by
  rw [queueState_of_stage hstage]
  exact .nil _

theorem walk_settle (hstage : c.phase.stage = .handshaking)
    (o : Outcome (Handshake Memory) (List Directive)) :
    Walk s limit fails c.queueState {} (c.settle o).2.queueState := by
  cases c.settleStep o with
  | failed _ hstep | stayed _ _ hstep =>
    rw [hstep]
    exact walk_withHandshake hstage _
  | completed _ _ hstep =>
    rw [hstep, queueState_of_stage hstage]
    exact Step.promoted.walk

theorem walk_handshakeLong (hstage : c.phase.stage = .handshaking) (h : Handshake Memory)
    (epoch : Epoch) (frames : List Frame) :
    Walk s limit fails c.queueState {} (c.handshakeLong h epoch frames).2.queueState := by
  cases c.longStep h epoch frames with
  | closed _ _ hstep =>
    have hopen : c.phase.isClosed = false := by
      rw [← c.phase.isClosed_stage, hstage]
      rfl
    rw [hstep]
    exact walk_close hopen rfl
  | settled _ hstep =>
    rw [hstep]
    exact walk_settle hstage _

/-- During the handshake a 1-RTT packet is set aside, put back or lost. -/
theorem walk_handshakeShort {h : Handshake Memory} (hphase : c.phase = .handshaking h) {p : Packet}
    (hp : p.isLong = false) {rest : List Packet} (hqueue : c.buffered = p :: rest)
    (hfails : (handshakeShort { c with buffered := rest } h p).1.isOk = false → fails = true) :
    Walk c.side limit fails c.queueState (c.passage .process)
      (handshakeShort { c with buffered := rest } h p).2.queueState := by
  have hstage : c.phase.stage = .handshaking := congrArg Phase.stage hphase
  have hleft : queueState { c with buffered := rest } = ⟨.handshaking, c.deferred, rest⟩ :=
    queueState_of_stage hstage
  have hserver : c.setup.side = .server → c.passage .process = {} := by
    intro hside
    simp [passage, hphase, hqueue, hp, side, hside]
  have hclient : c.setup.side = .client →
      c.passage .process = { dispatched := [(.confirmation, p)] } := by
    intro hside
    simp [passage, hphase, hqueue, hp, side, hside]
  rw [queueState_of_stage hstage, hqueue]
  cases shortStep { c with buffered := rest } h p with
  | setAside hside hstep =>
    have hmoved : queueState { c with buffered := rest, deferred := c.deferred ++ [p] } =
        ⟨.handshaking, c.deferred ++ [p], rest⟩ := queueState_of_stage hstage
    rw [hserver hside, hstep, hmoved]
    exact (Step.setAside hside hp).walk
  | confirmed hside hdone _ hstep =>
    rw [hclient hside, hstep]
    exact (Step.confirmed hside hp hdone).walk
  | undue hside _ _ hstep =>
    rw [hstep] at hfails ⊢
    rw [hclient hside]
    exact (Step.lost hside hp (hfails rfl)).walk
  | missing hside _ hstep =>
    rw [hstep] at hfails ⊢
    rw [hclient hside, hleft]
    exact (Step.lost hside hp (hfails rfl)).walk

/-- Processing a packet during the handshake takes it from the queue, and may move it. -/
theorem walk_handshakePacket {h : Handshake Memory} (hphase : c.phase = .handshaking h) {p : Packet}
    {rest : List Packet} (hqueue : c.buffered = p :: rest)
    (hfails : (handshakePacket { c with buffered := rest } h p).1.isOk = false → fails = true) :
    Walk c.side limit fails c.queueState (c.passage .process)
      (handshakePacket { c with buffered := rest } h p).2.queueState := by
  have hstage : c.phase.stage = .handshaking := congrArg Phase.stage hphase
  have htaken : p.isLong = true → Walk c.side limit fails c.queueState (c.passage .process)
      (queueState { c with buffered := rest }) := by
    intro hp
    have hpassage : c.passage .process = { dispatched := [(.handshake, p)] } := by
      simp [passage, hphase, hqueue, hp]
    rw [hpassage, queueState_of_stage hstage, hqueue,
      queueState_of_stage (c := { c with buffered := rest }) hstage]
    exact (Step.handshake hp).walk
  have hlong : p.isLong = true → ∀ epoch frames,
      Walk c.side limit fails c.queueState (c.passage .process)
        (handshakeLong { c with buffered := rest } h epoch frames).2.queueState := by
    intro hp epoch frames
    rw [← Passage.append_empty (c.passage .process)]
    exact (htaken hp).trans
      (walk_handshakeLong (c := { c with buffered := rest }) hstage h epoch frames)
  cases p with
  | initial q => exact hlong rfl .initial q.frames
  | handshake q => exact hlong rfl .handshake q.frames
  | versionNegotiation q => exact htaken rfl
  | oneRtt q => exact walk_handshakeShort hphase rfl hqueue hfails

theorem walk_activePacket (hphase : c.phase = .active) {p : Packet} {rest : List Packet}
    (hqueue : c.buffered = p :: rest) :
    Walk c.side limit fails c.queueState (c.passage .process)
      (activePacket { c with buffered := rest } p).2.queueState := by
  have hstage : c.phase.stage = .active := congrArg Phase.stage hphase
  have hpassage : c.passage .process = { dispatched := [(.active, p)] } := by
    simp [passage, hphase, hqueue]
  have htaken : Walk c.side limit fails c.queueState (c.passage .process)
      (queueState { c with buffered := rest }) := by
    rw [hpassage, queueState_of_stage hstage, hqueue,
      queueState_of_stage (c := { c with buffered := rest }) hstage]
    exact Step.active.walk
  cases activeStep { c with buffered := rest } p with
  | failed _ hstep | answered _ _ hstep =>
    rw [hstep]
    exact htaken
  | closed _ _ hstep =>
    have hopen : Phase.isClosed { c with buffered := rest }.phase = false := by
      rw [hphase]
      rfl
    rw [hstep, ← Passage.append_empty (c.passage .process)]
    exact htaken.trans (walk_close hopen rfl)

theorem walk_process (hfails : (c.call .process).1.isOk = false → fails = true) :
    Walk c.side limit fails c.queueState (c.passage .process) (c.call .process).2.queueState := by
  cases c.processStep with
  | refused hclosed hstep =>
    have hpassage : c.passage .process = {} := by
      unfold passage
      cases hphase : c.phase with
      | handshaking _ | active =>
        rw [hphase] at hclosed
        cases hclosed
      | _ => rfl
    rw [hstep, hpassage]
    exact .nil _
  | nothing _ hqueue hstep =>
    have hpassage : c.passage .process = {} := by
      rw [passage, hqueue]
      cases c.phase <;> rfl
    rw [hstep, hpassage]
    exact .nil _
  | handshake hphase hqueue hstep =>
    rw [hstep] at hfails ⊢
    exact walk_handshakePacket hphase hqueue hfails
  | active hphase hqueue hstep =>
    rw [hstep]
    exact walk_activePacket hphase hqueue

theorem walk_buffer (c : Connection Memory) (p : Packet) :
    Walk s c.setup.config.maxBufferedPackets fails c.queueState (c.passage (.buffer p))
      (c.call (.buffer p)).2.queueState := by
  cases c.bufferStep p with
  | accepted hopen hroom hstep =>
    rw [passage, call, hstep]
    refine (Step.accepted (Phase.isOpen_eq_true_iff.1 hopen) ?_).walk
    rw [List.length_append, Nat.add_comm]
    exact hroom
  | full _ _ hstep | refused _ hstep =>
    rw [passage, call, hstep]
    exact .nil _

theorem walk_outbound (c : Connection Memory) (f : Frame) (epoch : Epoch) :
    Walk s limit fails c.queueState {} (c.call (.outbound f epoch)).2.queueState := by
  cases c.outboundStep f epoch with
  | refused _ hstep | sent _ hstep =>
    rw [hstep]
    exact .nil _
  | closed hopen _ hstep =>
    rw [hstep]
    exact walk_close hopen rfl
  | crypto hphase _ hstep | plain hphase _ _ hstep =>
    rw [hstep]
    exact walk_settle (congrArg Phase.stage hphase) _

theorem walk_begin (c : Connection Memory) :
    Walk s limit fails c.queueState {} (c.call .begin).2.queueState := by
  rcases c.beginHandshake_cases with ⟨hidle, hstep⟩ | ⟨e, hstep⟩
  · rw [call, hstep, queueState_of_stage (congrArg Phase.stage hidle : c.phase.stage = .idle)]
    exact Step.begun.walk
  · rw [call, hstep]
    exact .nil _

theorem walk_disconnect (c : Connection Memory) :
    Walk s limit fails c.queueState {} (c.call .disconnect).2.queueState := by
  rcases c.disconnect_cases with ⟨hopen, hstep⟩ | ⟨_, hstep⟩
  · rw [call, hstep]
    exact walk_close hopen rfl
  · rw [call, hstep]
    exact .nil _

/-- What a call does to the queues. -/
theorem walk_call (c : Connection Memory) (x : ConnectionCall)
    (hfails : (c.call x).1.isOk = false → fails = true) :
    Walk c.side c.setup.config.maxBufferedPackets fails c.queueState (c.passage x)
      (c.call x).2.queueState := by
  cases x with
  | begin => exact walk_begin c
  | buffer p => exact walk_buffer c p
  | process => exact walk_process hfails
  | outbound f epoch => exact walk_outbound c f epoch
  | disconnect => exact walk_disconnect c

theorem setup_call (c : Connection Memory) (x : ConnectionCall) :
    (c.call x).2.setup = c.setup := by
  by_cases hphase : ∃ h, c.phase = .handshaking h
  · obtain ⟨h, hphase⟩ := hphase
    exact (follows_call hphase x).keeps
  · rw [not_exists] at hphase
    exact (phaseStep_call hphase x).keeps

/-- What a run does to the queues. -/
theorem walk_run (fails : Bool) (c : Connection Memory) (calls : List ConnectionCall)
    (hfails : ∀ entry ∈ c.journal calls, entry.answer.isOk = false → fails = true) :
    Walk c.side c.setup.config.maxBufferedPackets fails c.queueState (c.passages calls)
      (c.run calls).queueState := by
  induction calls generalizing c with
  | nil => exact .nil _
  | cons x calls ih =>
    obtain ⟨hnow, hlater⟩ := List.forall_mem_cons.1 hfails
    have hrest := ih (c.call x).2 hlater
    rw [side, setup_call] at hrest
    exact (walk_call c x hnow).trans hrest

/-- A connection that is open now was open all the time. -/
theorem isClosed_eq_false_of_run {calls : List ConnectionCall}
    (hopen : (c.run calls).phase.isClosed = false) : c.phase.isClosed = false := by
  rw [← Phase.isClosed_stage] at hopen ⊢
  exact (walk_run true c calls fun _ _ _ => rfl).isClosed_eq_false hopen

end Connection

end QuicTransport
