import QuicTransport.Proofs.FrameLegality
import QuicTransport.Proofs.LostSteps

set_option autoImplicit false

/-! # What an active connection makes of a packet

An active connection can go through the frames of a packet in one pass: a frame adds something to be
done or fails, one that closes the connection ends the pass, and a pass that has nothing to send
ends with an empty packet for acknowledgements (`Connection.dispatch`). What `activePacket` does is
this pass (`Connection.activePacket_eq_dispatch`).

The outcome depends on the frames up to the first CONNECTION_CLOSE and on nothing behind it. Either
one of them is refused, and then the packet is gone and nothing else has changed, or the frames for
the layer above are passed on as they came (`Connection.processInbound_active_exact`). -/

namespace QuicTransport

namespace Connection

variable {Memory : Type}

/-! ## The frames that are looked at -/

/-- What comes behind a CONNECTION_CLOSE has no effect. -/
theorem examined_of_closing {front back : List Frame} {f : Frame}
    (hfront : ∀ g ∈ front, isClosing g = false) (hclosing : isClosing f = true) :
    examined (front ++ f :: back) = front ++ [f] := by
  induction front with
  | nil => simp [examined, beforeClosing, hclosing]
  | cons g gs ih =>
    obtain ⟨hg, hgs⟩ := List.forall_mem_cons.1 hfront
    have hrest := ih hgs
    simpa [examined, beforeClosing, hg] using hrest

/-- They end with a CONNECTION_CLOSE if there is one. -/
theorem any_getLast?_examined (frames : List Frame) :
    (examined frames).getLast?.any isClosing = frames.any isClosing := by
  cases hfind : frames.find? isClosing with
  | none =>
    have hnone : ∀ f ∈ frames, isClosing f = false := by simpa using hfind
    have hself : examined frames = frames := by
      simpa [examined, hfind] using beforeClosing_of_any_eq_false (by simpa using hnone)
    rw [hself, List.any_eq_false.2 (by simpa using hnone)]
    cases hlast : frames.getLast? with
    | none => rfl
    | some f => simpa using hnone f (List.mem_of_getLast? hlast)
  | some f =>
    have hclosing := List.find?_some hfind
    have hmem := List.mem_of_find?_eq_some hfind
    rw [List.any_eq_true.2 ⟨f, hmem, hclosing⟩]
    simp [examined, hfind, hclosing]

/-! ## What frames come to -/

/-- Why an active connection refuses a frame. -/
def refusesActive? (self : Side) : Frame → Option Error
  | .handshakeDone =>
    if self = .server then some (.protocolViolation "server received HANDSHAKE_DONE") else none
  | .raw _ _ => some (.contractViolation "raw frame")
  | _ => none

theorem activeFrame_eq (s : Side) (f : Frame) :
    activeFrame s f =
      match refusesActive? s f with
      | some e => .error e
      | none => .ok (([f].filter isForwarded).map .forwardFrame) := by
  cases f with
  | handshakeDone => cases s <;> rfl
  | _ => rfl

/-- What several frames come to. The first that is refused decides the error. -/
def toldActive (self : Side) (frames : List Frame) : Result (List Directive) :=
  match frames.findSome? (refusesActive? self) with
  | some e => .error e
  | none => .ok ((frames.filter isForwarded).map .forwardFrame)

theorem toldActive_cons (s : Side) (f : Frame) (fs : List Frame) :
    toldActive s (f :: fs) = do
      let front ← activeFrame s f
      let back ← toldActive s fs
      return front ++ back := by
  rw [activeFrame_eq]
  cases hrefused : refusesActive? s f with
  | some e =>
    simp [toldActive, hrefused]
    rfl
  | none =>
    cases hmore : fs.findSome? (refusesActive? s) with
    | some e =>
      simp [toldActive, hrefused, hmore]
      rfl
    | none =>
      have hsplit : (f :: fs).filter isForwarded =
          [f].filter isForwarded ++ fs.filter isForwarded := by
        rw [← List.filter_append, List.singleton_append]
      simp [toldActive, hrefused, hmore, hsplit]
      rfl

theorem activeFrames_eq_toldActive (s : Side) (frames : List Frame) :
    activeFrames s frames = toldActive s frames := by
  induction frames with
  | nil => rfl
  | cons f fs ih => rw [toldActive_cons, activeFrames, ih]

/-- A frame that closes the connection neither fails nor is passed on. -/
theorem toldActive_examined (s : Side) (frames : List Frame) :
    toldActive s (examined frames) = toldActive s (beforeClosing frames) := by
  cases hfind : frames.find? isClosing with
  | none => simp [examined, hfind]
  | some f =>
    have hplain : refusesActive? s f = none ∧ isForwarded f = false := by
      have hclosing := List.find?_some hfind
      cases f with
      | connectionClose closing => exact ⟨rfl, rfl⟩
      | _ => cases hclosing
    simp [examined, toldActive, hfind, hplain.1, hplain.2]

/-! ## One pass -/

/-- Go through frames in one pass. The directives are those that the pass has come to so far. -/
def dispatch (c : Connection Memory) (directives : List Directive) :
    List Frame → Outcome (Connection Memory) (List Directive)
  | [] =>
    (.ok (if directives.any Directive.isEmit then directives
      else directives ++ [.emit .application []]), c)
  | f :: fs =>
    if isClosing f then (.ok (directives ++ [.disconnect]), c.close .receivedDisconnect)
    else
      match activeFrame c.side f with
      | .error e => (.error e, c)
      | .ok more => dispatch c (directives ++ more) fs

/-- Nothing that is passed on is sent. -/
theorem any_isEmit_of_activeFrame {s : Side} {f : Frame} {directives : List Directive}
    (h : activeFrame s f = .ok directives) : directives.any Directive.isEmit = false := by
  rw [(activeFrame_ok h).2]
  simp [Directive.isEmit]

/-- The pass in two parts: the frames before one that closes the connection, and how it ends. -/
theorem dispatch_eq (c : Connection Memory) {directives : List Directive}
    (hquiet : directives.any Directive.isEmit = false) (frames : List Frame) :
    c.dispatch directives frames =
      match activeFrames c.side (beforeClosing frames) with
      | .error e => (.error e, c)
      | .ok more =>
        if frames.any isClosing then
          (.ok (directives ++ more ++ [.disconnect]), c.close .receivedDisconnect)
        else (.ok (directives ++ more ++ [.emit .application []]), c) := by
  induction frames generalizing directives with
  | nil => simp [dispatch, beforeClosing, activeFrames, hquiet]
  | cons f fs ih =>
    by_cases hclosing : isClosing f = true
    · simp [dispatch, beforeClosing, activeFrames, hclosing]
    · have hbefore : beforeClosing (f :: fs) = f :: beforeClosing fs := by
        simp [beforeClosing, hclosing]
      rw [hbefore, activeFrames, dispatch, if_neg hclosing]
      cases hfirst : activeFrame c.side f with
      | error e => rfl
      | ok front =>
        have hstill : (directives ++ front).any Directive.isEmit = false := by
          rw [List.any_append, hquiet, any_isEmit_of_activeFrame hfirst]
          rfl
        have hany : (f :: fs).any isClosing = fs.any isClosing := by simp [hclosing]
        dsimp only
        rw [ih hstill, hany]
        cases activeFrames c.side (beforeClosing fs) with
        | error e => rfl
        | ok back => simp [bind, Except.bind, pure, Except.pure]

/-- What the state machine does is the pass. -/
theorem activePacket_eq_dispatch (c : Connection Memory) (p : Packet) :
    c.activePacket p = c.dispatch [] p.frames := by
  rw [dispatch_eq c rfl, activePacket]
  cases activeFrames c.side (beforeClosing p.frames) <;> rfl

/-! ## The next packet -/

theorem isSome_refusesActive?_iff {s : Side} {f : Frame} :
    (refusesActive? s f).isSome = true
      ↔ (∃ frameType payload, f = .raw frameType payload) ∨ f = .handshakeDone ∧ s = .server := by
  cases f with
  | handshakeDone => cases s <;> simp [refusesActive?]
  | _ => simp [refusesActive?]

/-- The packet in front of the queue goes through one pass, and only its frames up to the first
CONNECTION_CLOSE count. A raw frame among them fails, and so does HANDSHAKE_DONE at a server; the
packet is then gone and nothing else has changed. Otherwise the frames for the layer above are
passed on, each as it is and in order. What comes behind them is the end of the connection, or an
empty packet in return. -/
theorem processInbound_active_exact {c : Connection Memory} {p : Packet} {rest : List Packet}
    (hphase : c.phase = .active) (hqueue : c.buffered = p :: rest) :
    let fs := examined p.frames
    let forwards := (fs.filter isForwarded).map Directive.forwardFrame
    let refused : Frame → Prop := fun f =>
      (∃ frameType payload, f = .raw frameType payload) ∨ f = .handshakeDone ∧ c.side = .server
    let pass := dispatch { c with buffered := rest } [] p.frames
    c.processInbound = (pass.1.map some, pass.2)
      ∧ ((∃ f ∈ fs, refused f) →
        ∃ e, fs.findSome? (refusesActive? c.side) = some e
          ∧ c.processInbound = (.error e, { c with buffered := rest }))
      ∧ ((∀ f ∈ fs, ¬ refused f) →
        (fs.getLast?.any isClosing = true →
          c.processInbound = (.ok (some (forwards ++ [.disconnect])),
            { c with phase := .receivedDisconnect, buffered := [], deferred := [] }))
        ∧ (fs.getLast?.any isClosing = false →
          c.processInbound = (.ok (some (forwards ++ [.emit .application []])),
            { c with buffered := rest }))) := by
  intro fs forwards refused pass
  have honce : c.processInbound = (pass.1.map some, pass.2) := by
    rw [processInbound_of_active hphase hqueue, activePacket_eq_dispatch]
  refine ⟨honce, ?_⟩
  have hrefused : ∀ f, refused f ↔ (refusesActive? c.side f).isSome = true :=
    fun f => isSome_refusesActive?_iff.symm
  have hside : ({ c with buffered := rest } : Connection Memory).side = c.side := rfl
  rw [processInbound_of_active hphase hqueue, activePacket, hside, activeFrames_eq_toldActive,
    ← toldActive_examined, any_getLast?_examined]
  simp only [hrefused, toldActive]
  refine ⟨?_, ?_⟩
  · intro hfound
    obtain ⟨e, he⟩ := Option.isSome_iff_exists.1 (List.findSome?_isSome_iff.2 hfound)
    exact ⟨e, he, by rw [he]; rfl⟩
  · intro hpass
    have hnone : fs.findSome? (refusesActive? c.side) = none := by
      simpa [List.findSome?_eq_none_iff] using hpass
    refine ⟨?_, ?_⟩
    · intro hclosing
      rw [hnone, hclosing]
      rfl
    · intro hopen
      rw [hnone, hopen]
      rfl

/-- A server refuses HANDSHAKE_DONE and stays active, with the data in front of it lost. Behind a
CONNECTION_CLOSE even a raw frame does no harm. -/
theorem processInbound_active_exact_server :
    let data : Frame := .stream ⟨0, 0, false, true, false, [1, 2, 3]⟩
    let packet (frames : List Frame) : Packet := .oneRtt ⟨⟨.empty, false, false, 0, .one⟩, frames⟩
    let finished := Conversation.bearer (.crypto 0 (Message.frame .finished [])) .handshake
    let c (p : Packet) := plainServer.run (serverFlight ++ [.buffer finished, .process, .buffer p])
    let undue := packet [data, .handshakeDone]
    let last := packet [data, .ping, .connectionClose ⟨0, none, []⟩, .raw 0x40 []]
    (c undue).processInbound =
        (.error (.protocolViolation "server received HANDSHAKE_DONE"),
          { c undue with buffered := [] })
      ∧ (c last).processInbound = (.ok (some [.forwardFrame data, .disconnect]),
          { c last with phase := .receivedDisconnect, buffered := [], deferred := [] }) := by
  intro data packet finished c undue last
  have hphase : ∀ p, (c p).phase.isActive = true → (c p).phase = .active := by
    intro p hactive
    cases hphase : (c p).phase with
    | active => rfl
    | _ => cases hphase ▸ hactive
  have hundueQueue : (c undue).buffered = [undue] := by decide +kernel
  have hlastQueue : (c last).buffered = [last] := by decide +kernel
  have hundue := processInbound_active_exact (hphase undue (by decide +kernel)) hundueQueue
  have hlast := processInbound_active_exact (hphase last (by decide +kernel)) hlastQueue
  refine ⟨?_, ?_⟩
  · obtain ⟨e, he, hstep⟩ := hundue.2.1 ⟨.handshakeDone, by decide, Or.inr ⟨rfl, by decide +kernel⟩⟩
    have hside : (c undue).side = .server := by decide +kernel
    rw [hside] at he
    cases he
    exact hstep
  · refine (hlast.2.2 ?_).1 rfl
    intro f hf hrefused
    have hmem : f ∈ [data, .ping, .connectionClose ⟨0, none, []⟩] := hf
    rcases hrefused with ⟨frameType, payload, rfl⟩ | ⟨rfl, _⟩ <;> simp [data] at hmem

end Connection

end QuicTransport
