import QuicTransport.Proofs.ConnectionCalls

set_option autoImplicit false

/-! # Where directives come from

A handshake tells few kinds of things (`Directive.OfHandshake`): a message of our own goes out or is
left to the layer above, the handshake is confirmed, and something can be done with keys. A
connection passes this on and adds what its own stages bring. `Connection.Source` lists all that a
call can say, so what holds in each of its cases holds of every directive of every call
(`Connection.tells_call`). -/

namespace QuicTransport

namespace Outcome

variable {State State' Answer : Type} {P : Directive → Prop} {o : Outcome State (List Directive)}

/-- If the operation does not fail, all of its directives have a property. -/
def Tells (P : Directive → Prop) (o : Outcome State (List Directive)) : Prop :=
  ∀ directives, o.1 = .ok directives → ∀ d ∈ directives, P d

theorem tells_error (P : Directive → Prop) (e : Error) (s : State) : Tells P (.error e, s) := nofun

theorem tells_ok {directives : List Directive} (h : ∀ d ∈ directives, P d) (s : State) :
    Tells P (.ok directives, s) := by
  intro sent hok
  cases hok
  exact h

theorem tells_nil (P : Directive → Prop) (s : State) : Tells P (.ok [], s) :=
  tells_ok (List.forall_mem_nil P) s

/-- An answer of another kind is no directive. -/
theorem tells_map_nil (P : Directive → Prop) (answer : Result Answer) (s : State) :
    Tells P (answer.map fun _ => [], s) := by
  cases answer with
  | error e => exact tells_error P e s
  | ok _ => exact tells_nil P s

theorem tells_singleton {d : Directive} (h : P d) (s : State) : Tells P (.ok [d], s) :=
  tells_ok (by simpa using h) s

theorem Tells.append {directives more : List Directive} {s : State}
    (h : Tells P (.ok directives, s)) (hmore : ∀ d ∈ more, P d) (s' : State') :
    Tells P (.ok (directives ++ more), s') :=
  tells_ok (List.forall_mem_append.2 ⟨h directives rfl, hmore⟩) s'

theorem Tells.mono {Q : Directive → Prop} (h : Tells P o) (hPQ : ∀ d, P d → Q d) : Tells Q o :=
  fun directives hok d hd => hPQ d (h directives hok d hd)

theorem Tells.andThen (h : Tells P o) {next : State → Outcome State (List Directive)}
    (hnext : ∀ s, Tells P (next s)) : Tells P (o.andThen next) := by
  intro directives hok
  obtain ⟨front, middle, back, hfront, hback, rfl⟩ := andThen_eq_ok.1 (Prod.ext hok rfl)
  exact List.forall_mem_append.2
    ⟨h front (congrArg Prod.fst hfront), hnext middle back (congrArg Prod.fst hback)⟩

end Outcome

open Outcome (Tells)

/-! ## The handshake -/

/-- What a handshake tells. -/
inductive Directive.OfHandshake : Directive → Prop
  /-- A message of our own goes out. -/
  | message (e : Epoch) (offset : Nat) (data : Bytes) : OfHandshake (.emit e [.crypto offset data])
  /-- The first message of all is left to the layer above. -/
  | first (offset : Nat) (data : Bytes) : OfHandshake (.forwardFrame (.crypto offset data))
  | confirmation (token : Bytes) :
    OfHandshake (.emit .application [.handshakeDone, .newToken token])
  | updateDcid : OfHandshake .updateDcid
  | allowBufferedFlush (e : Epoch) : OfHandshake (.allowBufferedFlush e)
  | dropKeys (e : Epoch) : OfHandshake (.dropKeys e)

namespace HandshakeSetup

variable {Memory : Type} {setup : HandshakeSetup Memory}

theorem ofHandshake_sendings (d : Direction) (e : Expectation) (offset : Nat) (data : Bytes) :
    ∀ x ∈ setup.sendings d e (.crypto offset data), x.OfHandshake := by
  intro x hx
  unfold sendings at hx
  cases d with
  | outbound =>
    dsimp only at hx
    split at hx
    · rw [List.mem_singleton.1 hx]
      exact .first offset data
    · rw [List.mem_singleton.1 hx]
      exact .message _ offset data
  | inbound =>
    dsimp only at hx
    split at hx
    · rw [List.mem_singleton.1 hx]
      exact .confirmation _
    · cases hx

theorem ofHandshake_keyChanges (p : Progress) : ∀ x ∈ keyChanges p, x.OfHandshake := by
  intro x hx
  cases p with
  | serverHello =>
    simp only [keyChanges, List.mem_cons, List.not_mem_nil, or_false] at hx
    rcases hx with rfl | rfl | rfl
    · exact .allowBufferedFlush _
    · exact .updateDcid
    · exact .dropKeys _
  | serverFinished | clientFinished =>
    rw [List.mem_singleton.1 hx]
    exact .allowBufferedFlush _
  | _ => cases hx

theorem Draining.ofHandshake {d : Direction} {h h' : Handshake Memory} {founds : List Found}
    {directives : List Directive} (hdraining : setup.Draining d h founds directives h') :
    ∀ x ∈ directives, x.OfHandshake := by
  induction hdraining with
  | stop h memory => exact List.forall_mem_nil _
  | take htakes hrest ih =>
    refine List.forall_mem_append.2 ⟨List.forall_mem_append.2 ⟨?_, ?_⟩, ih⟩
    · exact ofHandshake_sendings _ _ _ _
    · exact ofHandshake_keyChanges _

theorem tells_processCrypto (h : Handshake Memory) (d : Direction) (epoch : Epoch) (offset : Nat)
    (data : Bytes) : Tells Directive.OfHandshake (setup.processCrypto h d epoch offset data) := by
  intro directives hok
  obtain ⟨sent, hdraining, hanswer⟩ := setup.draining_processCrypto h d epoch offset data
  rw [hanswer directives hok]
  exact hdraining.ofHandshake

end HandshakeSetup

theorem Handshake.tells_processDone {Memory : Type} (P : Directive → Prop) (h : Handshake Memory) :
    Tells P h.processDone := by
  unfold processDone
  split
  · exact Outcome.tells_nil P _
  · exact Outcome.tells_error P _ _

namespace Connection

variable {Memory : Type} {P : Directive → Prop}

theorem tells_handshakeFrame (setup : HandshakeSetup Memory) (epoch : Epoch) (h : Handshake Memory)
    (f : Frame) : Tells Directive.OfHandshake (handshakeFrame setup epoch h f) := by
  cases f with
  | crypto offset data => exact HandshakeSetup.tells_processCrypto _ _ _ _ _
  | handshakeDone =>
    unfold handshakeFrame
    cases setup.side with
    | server => exact Outcome.tells_error _ _ _
    | client => exact h.tells_processDone _
  | padding _ | ping | ack _ => exact Outcome.tells_nil _ _
  | _ => exact Outcome.tells_error _ _ _

theorem tells_handshakeFrames (setup : HandshakeSetup Memory) (epoch : Epoch) (frames : List Frame)
    (h : Handshake Memory) :
    Tells Directive.OfHandshake (handshakeFrames setup epoch frames h) := by
  induction frames generalizing h with
  | nil => exact Outcome.tells_nil _ _
  | cons f fs ih => exact (tells_handshakeFrame setup epoch h f).andThen ih

/-! ## The connection -/

/-- What a call can say in a stage. -/
inductive Source (phase : Phase Memory) (x : ConnectionCall) : Directive → Prop
  /-- The handshake has told it. -/
  | handshake {h : Handshake Memory} {d : Directive} (hphase : phase = .handshaking h)
    (hd : d.OfHandshake) : Source phase x d
  /-- The frame that the call is about goes out. -/
  | own {f : Frame} {e : Epoch} (hx : x = .outbound f e) : Source phase x (.emit e [f])
  | forwarded {f : Frame} (hphase : phase = .active) (hf : isForwarded f = true) :
    Source phase x (.forwardFrame f)
  /-- There is room for acknowledgements. -/
  | reply (hphase : phase = .active) : Source phase x (.emit .application [])
  | completed : Source phase x .installStreamMuxer
  | closed : Source phase x .disconnect

/-- Completing the handshake adds that it is complete. -/
theorem tells_settle {o : Outcome (Handshake Memory) (List Directive)} (h : Tells P o)
    (hcompleted : P .installStreamMuxer) (c : Connection Memory) : Tells P (c.settle o) := by
  cases c.settleStep o with
  | failed _ hstep =>
    rw [hstep]
    exact Outcome.tells_error _ _ _
  | stayed ho _ hstep =>
    rw [hstep]
    exact Outcome.tells_ok (h _ (congrArg Prod.fst ho)) _
  | completed ho _ hstep =>
    rw [hstep]
    exact (ho ▸ h).append (List.forall_mem_singleton.2 hcompleted) _

section Calls

variable {c : Connection Memory} {x : ConnectionCall}

theorem tells_handshakeLong {phase : Phase Memory} {h : Handshake Memory}
    (hphase : phase = .handshaking h) (epoch : Epoch) (frames : List Frame) :
    Tells (Source phase x) (c.handshakeLong h epoch frames) := by
  have htells : Tells (Source phase x)
      (handshakeFrames c.setup epoch (beforeClosing frames) h) :=
    (tells_handshakeFrames _ _ _ _).mono fun d hd => .handshake hphase hd
  cases c.longStep h epoch frames with
  | closed _ hframes hstep =>
    rw [hframes] at htells
    rw [hstep]
    exact htells.append (List.forall_mem_singleton.2 .closed) _
  | settled _ hstep =>
    rw [hstep]
    exact tells_settle htells .completed c

theorem tells_handshakeShort (phase : Phase Memory) (h : Handshake Memory) (p : Packet) :
    Tells (Source phase x) (c.handshakeShort h p) := by
  cases c.shortStep h p with
  | setAside _ hstep =>
    rw [hstep]
    exact Outcome.tells_nil _ _
  | confirmed _ _ _ hstep =>
    rw [hstep]
    exact Outcome.tells_singleton .completed _
  | undue _ _ _ hstep | missing _ _ hstep =>
    rw [hstep]
    exact Outcome.tells_error _ _ _

theorem tells_handshakePacket {phase : Phase Memory} {h : Handshake Memory}
    (hphase : phase = .handshaking h) (p : Packet) :
    Tells (Source phase x) (c.handshakePacket h p) := by
  cases p with
  | oneRtt q => exact tells_handshakeShort phase h (.oneRtt q)
  | versionNegotiation q => exact Outcome.tells_error _ _ _
  | initial q => exact tells_handshakeLong hphase .initial q.frames
  | handshake q => exact tells_handshakeLong hphase .handshake q.frames

theorem tells_activePacket {phase : Phase Memory} (hphase : phase = .active) (p : Packet) :
    Tells (Source phase x) (c.activePacket p) := by
  have hforwards : ∀ directives,
      activeFrames c.side (beforeClosing p.frames) = .ok directives →
        Tells (Source phase x) (.ok directives, c) := by
    intro directives hframes
    refine Outcome.tells_ok ?_ c
    rw [(activeFrames_ok hframes).2, List.forall_mem_map]
    exact fun f hf => .forwarded hphase (List.mem_filter.1 hf).2
  cases c.activeStep p with
  | failed _ hstep =>
    rw [hstep]
    exact Outcome.tells_error _ _ _
  | closed hframes _ hstep =>
    rw [hstep]
    exact (hforwards _ hframes).append (List.forall_mem_singleton.2 .closed) _
  | answered hframes _ hstep =>
    rw [hstep]
    exact (hforwards _ hframes).append (List.forall_mem_singleton.2 (.reply hphase)) _

theorem tells_process (c : Connection Memory) :
    Tells (Source c.phase .process) (c.call .process) := by
  cases c.processStep with
  | refused _ hstep =>
    rw [hstep]
    exact Outcome.tells_error _ _ _
  | nothing _ _ hstep =>
    rw [hstep]
    exact Outcome.tells_nil _ _
  | handshake hphase _ hstep =>
    rw [hstep]
    exact tells_handshakePacket hphase _
  | active hphase _ hstep =>
    rw [hstep]
    exact tells_activePacket hphase _

theorem tells_outbound (c : Connection Memory) (f : Frame) (epoch : Epoch) :
    Tells (Source c.phase (.outbound f epoch)) (c.call (.outbound f epoch)) := by
  have hown : Source c.phase (.outbound f epoch) (.emit epoch [f]) := .own rfl
  cases c.outboundStep f epoch with
  | refused _ hstep =>
    rw [hstep]
    exact Outcome.tells_error _ _ _
  | closed _ _ hstep =>
    rw [hstep]
    exact (Outcome.tells_singleton hown c).append (List.forall_mem_singleton.2 .closed) _
  | crypto hphase _ hstep =>
    rw [hstep]
    exact tells_settle ((HandshakeSetup.tells_processCrypto _ _ _ _ _).mono
      fun d hd => .handshake hphase hd) .completed c
  | plain _ _ _ hstep =>
    rw [hstep]
    exact tells_settle (Outcome.tells_singleton hown _) .completed c
  | sent _ hstep =>
    rw [hstep]
    exact Outcome.tells_singleton hown c

theorem tells_disconnect (c : Connection Memory) (phase : Phase Memory) :
    Tells (Source phase x) c.disconnect := by
  rcases c.disconnect_cases with ⟨_, hstep⟩ | ⟨_, hstep⟩
  · rw [hstep]
    exact Outcome.tells_singleton .closed _
  · rw [hstep]
    exact Outcome.tells_error _ _ _

/-- Whatever a call says has a source. -/
theorem tells_call (c : Connection Memory) (x : ConnectionCall) :
    Tells (Source c.phase x) (c.call x) := by
  cases x with
  | begin => exact Outcome.tells_map_nil _ c.beginHandshake.1 _
  | buffer p => exact Outcome.tells_map_nil _ (c.bufferPacket p).1 _
  | process => exact tells_process c
  | outbound f epoch => exact tells_outbound c f epoch
  | disconnect => exact tells_disconnect c _

end Calls

end Connection

end QuicTransport
