import QuicTransport.Proofs.ConnectionCalls

set_option autoImplicit false

/-! # What a failure loses

A call that fails returns no directives. But all steps before the failure keep their effect: a frame
may bring several messages and a packet several frames, and those in front of the failure have moved
the handshake on. So what these messages would have brought is lost.

This is the only way in which anything is lost. A call that fails leaves the progress as it was
exactly if it made no move, and a call that does not fail returns all that its moves bring
(`Connection.returned_of_calls`). -/

namespace QuicTransport

open HandshakeSetup (Found)

/-! ## Progress and moves -/

theorem Progress.rank_injective {p q : Progress} (h : p.rank = q.rank) : p = q := by
  cases p <;> cases q <;> first | rfl | cases h

theorem Move.passes_ne_nil (self : Side) (m : Move) : m.passes self ≠ [] := by
  cases m with
  | message d found =>
    unfold passes
    dsimp only
    split <;> exact List.cons_ne_nil _ _
  | confirmation => exact List.cons_ne_nil _ _

/-- Progress stays the same only where nothing moves. -/
theorem InOrder.progress_eq_iff {Memory : Type} {setup : HandshakeSetup Memory}
    {h : Handshake Memory} {moves : List Move} (hmoves : InOrder setup h.progress moves)
    (calls : List HandshakeCall) :
    (setup.run h calls).progress = h.progress ↔ setup.history h calls = [] := by
  have hbefore := hmoves.rank_eq
  have hafter := (hmoves.run calls).rank_eq
  rw [List.flatMap_append, List.length_append, ← hbefore] at hafter
  constructor
  · intro hsame
    rw [hsame] at hafter
    have hnone : (setup.history h calls).flatMap (Move.passes setup.side) = [] :=
      List.length_eq_zero_iff.1 (by omega)
    refine List.eq_nil_iff_forall_not_mem.2 fun m hm => ?_
    exact m.passes_ne_nil _ (List.flatMap_eq_nil_iff.1 hnone m hm)
  · intro hnone
    rw [hnone] at hafter
    exact Progress.rank_injective hafter

/-- How far a connection has come, as long as it is open. -/
def Phase.reached? {Memory : Type} : Phase Memory → Option Progress
  | .handshaking h => some h.progress
  | .active => some .done
  | _ => none

theorem Phase.reached?_of_isActive {Memory : Type} {phase : Phase Memory}
    (h : phase.isActive = true) : phase.reached? = some .done := by
  cases phase <;> first | rfl | cases h

namespace Connection

variable {Memory : Type}

/-! ## Journals -/

/-- What is recorded of a call: its answer, and the moves that it made the handshake take. -/
structure Entry where
  answer : Result (List Directive)
  moves : List Move

/-- The call did not fail, or it made no move. -/
def Entry.losesNothing (entry : Entry) : Bool := entry.answer.isOk || entry.moves.isEmpty

/-- The record of several calls. -/
def journal (c : Connection Memory) : List ConnectionCall → List Entry
  | [] => []
  | x :: calls => ⟨(c.call x).1, c.moves x⟩ :: (c.call x).2.journal calls

/-- The directives that were returned. -/
def returned (entries : List Entry) : List Directive :=
  entries.flatMap fun entry =>
    match entry.answer with
    | .ok directives => directives
    | .error _ => []

/-- The moves in a journal are those that the handshake takes when it is called on its own. -/
theorem Embedded.history_journal {setup : HandshakeSetup Memory} {c : Connection Memory}
    {asked : List HandshakeCall} (hc : Embedded setup c asked) (calls : List ConnectionCall) :
    setup.history setup.start (asked ++ c.asksAll calls) =
      setup.history setup.start asked ++ (c.journal calls).flatMap Entry.moves := by
  induction calls generalizing c asked with
  | nil => simp [asksAll, journal]
  | cons x calls ih =>
    obtain ⟨hnext, hmoves⟩ := hc.call x
    rw [asksAll, journal, List.flatMap_cons, ← List.append_assoc, ih hnext, hmoves,
      List.append_assoc]

/-! ## Failures -/

/-- A call that fails leaves the progress as it was exactly if it made no move. -/
theorem Embedded.failed {setup : HandshakeSetup Memory} {c c' : Connection Memory}
    {asked : List HandshakeCall} (hc : Embedded setup c asked) {x : ConnectionCall} {e : Error}
    (hfailed : c.call x = (.error e, c')) :
    c'.phase.progress? = c.phase.progress? ↔ c.moves x = [] := by
  have hanswer : (c.call x).1 = .error e := congrArg Prod.fst hfailed
  obtain rfl : (c.call x).2 = c' := congrArg Prod.snd hfailed
  by_cases hphase : ∃ h, c.phase = .handshaking h
  · obtain ⟨h, hphase⟩ := hphase
    have horder : InOrder setup h.progress (setup.history setup.start asked) :=
      hc.eq_run hphase ▸ InOrder.of_run setup asked
    rw [(follows_call hphase x).failed e hanswer, hphase]
    unfold moves
    rw [hphase, hc.keeps]
    simp only [Phase.progress?, Option.some.injEq]
    exact horder.progress_eq_iff _
  · rw [not_exists] at hphase
    rw [(phaseStep_call hphase x).failed e hanswer, (asks_moves_eq_nil hphase x).2]
    exact iff_of_true rfl rfl

/-! ## Successes -/

section Told

variable {setup : HandshakeSetup Memory} {text : Progress → Bytes}

/-- What messages bring. -/
def toldOf (setup : HandshakeSetup Memory) (text : Progress → Bytes) (messages : List Found) :
    List Directive :=
  messages.flatMap fun m => Progress.told setup.side text setup.newToken m.expectation.next

theorem toldOf_append (messages more : List Found) :
    toldOf setup text (messages ++ more) =
      toldOf setup text messages ++ toldOf setup text more :=
  List.flatMap_append

/-- A call that does not fail returns what its moves bring. -/
theorem Embedded.told {c : Connection Memory} {asked : List HandshakeCall}
    (hc : Embedded setup c asked) {x : ConnectionCall} {directives : List Directive}
    (hok : (c.call x).1 = .ok directives)
    (htext : ∀ m ∈ messagesOf (setup.history setup.start asked ++ c.moves x),
      text m.expectation.next = m.message) :
    (toldOf setup text (messagesOf (c.moves x))).Sublist directives := by
  rw [messagesOf_append] at htext
  by_cases hphase : ∃ h, c.phase = .handshaking h
  · obtain ⟨h, hphase⟩ := hphase
    have hrun := hc.eq_run hphase
    obtain ⟨front, hfront, hsub⟩ := (follows_call hphase x).answer directives hok
    unfold moves at htext ⊢
    rw [hphase] at htext ⊢
    rw [hc.keeps] at hfront htext ⊢
    -- the handshake has counted what it has written, so it names the right places
    obtain ⟨_, hbefore, _⟩ := (setup.counts_start text).answers fun m hm =>
      htext m (List.mem_append_left _ hm)
    rw [← hrun] at hbefore
    obtain ⟨told, hprogressed, hanswer⟩ := hbefore.counts.answers fun m hm =>
      htext m (List.mem_append_right _ hm)
    rw [hanswer front hfront, hprogressed.directives_eq] at hsub
    exact hsub
  · rw [not_exists] at hphase
    rw [(asks_moves_eq_nil hphase x).2]
    exact List.nil_sublist _

theorem Embedded.told_journal {c : Connection Memory} {asked : List HandshakeCall}
    (hc : Embedded setup c asked) {calls : List ConnectionCall}
    (htext : ∀ m ∈ messagesOf (setup.history setup.start asked
        ++ (c.journal calls).flatMap Entry.moves), text m.expectation.next = m.message) :
    ∀ entry ∈ c.journal calls, ∀ directives, entry.answer = .ok directives →
      (toldOf setup text (messagesOf entry.moves)).Sublist directives := by
  induction calls generalizing c asked with
  | nil =>
    intro entry hentry
    cases hentry
  | cons x calls ih =>
    obtain ⟨hnext, hmoves⟩ := hc.call x
    rw [journal, List.flatMap_cons, ← List.append_assoc] at htext
    intro entry hentry directives hok
    rcases List.mem_cons.1 hentry with rfl | hentry
    · refine hc.told hok fun m hm => htext m ?_
      rw [messagesOf_append]
      exact List.mem_append_left _ hm
    · rw [← hmoves] at htext
      exact ih hnext htext entry hentry directives hok

/-- If nothing is lost, all that the messages bring is returned. -/
theorem told_returned {entries : List Entry}
    (hall : ∀ entry ∈ entries, entry.losesNothing = true)
    (htold : ∀ entry ∈ entries, ∀ directives, entry.answer = .ok directives →
      (toldOf setup text (messagesOf entry.moves)).Sublist directives) :
    (toldOf setup text (messagesOf (entries.flatMap Entry.moves))).Sublist (returned entries) := by
  induction entries with
  | nil => exact List.nil_sublist _
  | cons entry entries ih =>
    have hrest := ih (fun a ha => hall a (List.mem_cons_of_mem entry ha))
      fun a ha => htold a (List.mem_cons_of_mem entry ha)
    have hfirst := hall entry List.mem_cons_self
    rw [List.flatMap_cons, messagesOf_append, toldOf_append]
    unfold returned at hrest ⊢
    rw [List.flatMap_cons]
    refine List.Sublist.append ?_ hrest
    cases hanswer : entry.answer with
    | ok directives => exact htold entry List.mem_cons_self directives hanswer
    | error e =>
      have hnone : entry.moves = [] := by
        unfold Entry.losesNothing at hfirst
        rw [hanswer] at hfirst
        exact List.isEmpty_iff.1 hfirst
      rw [hnone]
      exact List.nil_sublist _

end Told

/-- A failure loses what the messages in front of it bring, and nothing else is ever lost. A call
that fails leaves the progress as it was exactly if it made no move. A call that does not fail
returns all that its moves bring. So if no failing call has made a move, the whole trace up to the
progress reached has been returned, and a server that is active has returned HANDSHAKE_DONE. -/
theorem returned_of_calls (setup : HandshakeSetup Memory) (calls : List ConnectionCall) :
    let c := ({ setup } : Connection Memory).run calls
    let entries := ({ setup } : Connection Memory).journal calls
    let text := textOf (messagesOf (entries.flatMap Entry.moves))
    (∀ x e c', c.call x = (.error e, c') →
        (c'.phase.progress? = c.phase.progress? ↔ c.moves x = []))
      ∧ (∀ m ∈ messagesOf (entries.flatMap Entry.moves), text m.expectation.next = m.message)
      ∧ (∀ entry ∈ entries, ∀ directives, entry.answer = .ok directives →
        (toldOf setup text (messagesOf entry.moves)).Sublist directives)
      ∧ ((∀ entry ∈ entries, entry.losesNothing = true) →
        (∀ p, c.phase.reached? = some p →
          (p.trace setup.side text setup.newToken).Sublist (returned entries))
        ∧ (setup.side = .server → c.phase.isActive = true →
          .emit .application [.handshakeDone, .newToken setup.newToken] ∈ returned entries)) := by
  intro c entries text
  have hstart := embedded_start setup
  have hend : Embedded setup c (asksAll { setup } calls) := hstart.run calls
  have hhistory : setup.history setup.start (asksAll { setup } calls) =
      entries.flatMap Entry.moves := hstart.history_journal calls
  obtain ⟨htext, told, hprogressed, _⟩ := setup.messages_of_run (asksAll { setup } calls)
  rw [hhistory] at htext hprogressed
  have htold : ∀ entry ∈ entries, ∀ directives, entry.answer = .ok directives →
      (toldOf setup text (messagesOf entry.moves)).Sublist directives :=
    hstart.told_journal htext
  refine ⟨fun x e c' hfailed => hend.failed hfailed, htext, htold, fun hall => ?_⟩
  have hsub := told_returned hall htold
  have htrace : ∀ p, c.phase.reached? = some p →
      (p.trace setup.side text setup.newToken).Sublist (returned entries) := by
    intro p hp
    have hreached : p = (setup.run setup.start (asksAll { setup } calls)).progress := by
      have hstage := hend.phase
      generalize c.phase = phase at hp hstage
      cases phase with
      | handshaking h =>
        injection hp with hp
        rw [← hp]
        exact congrArg Handshake.progress hstage
      | active =>
        injection hp with hp
        rw [← hp]
        exact Eq.symm hstage
      | _ => cases hp
    rw [hreached, hprogressed.trace, hprogressed.directives_eq]
    exact hsub
  refine ⟨htrace, fun hserver hactive => ?_⟩
  have hdone := htrace .done (Phase.reached?_of_isActive hactive)
  rw [hserver] at hdone
  refine hdone.subset ?_
  simp [Progress.trace, Progress.told, Progress.toldToServer, Expectation.script, Progress.rank]

/-- A server of which nothing has happened. -/
def plainServer : Connection Unit :=
  { setup :=
      { side := .server, config := {}, parser := .framing, memory := (),
        randomness := fun _ => 0 } }

/-- A server up to its own Finished. -/
def serverFlight : List ConnectionCall :=
  let flight := Message.frame .encryptedExtensions [] ++ Message.frame .certificate []
    ++ Message.frame .certificateVerify [] ++ Message.frame .finished []
  [.begin, .buffer (Conversation.bearer (.crypto 0 (Message.frame .clientHello [])) .initial),
    .process, .outbound (.crypto 0 (Message.frame .serverHello [])) .initial,
    .outbound (.crypto 0 flight) .handshake]

/-- A server that gets HANDSHAKE_DONE refuses it and goes on. Nothing is lost. -/
theorem returned_of_calls_refusal :
    let calls : List ConnectionCall :=
      serverFlight ++ [.buffer (Conversation.bearer .handshakeDone .handshake), .process,
        .buffer (Conversation.bearer (.crypto 0 (Message.frame .finished [])) .handshake), .process]
    let entries := plainServer.journal calls
    entries.any (fun entry => !entry.answer.isOk) = true
      ∧ (plainServer.run calls).phase.isActive = true
      ∧ .emit .application [.handshakeDone, .newToken plainServer.setup.newToken]
        ∈ returned entries := by
  intro calls entries
  have hactive : (plainServer.run calls).phase.isActive = true := by decide +kernel
  have hall : entries.all Entry.losesNothing = true := by decide +kernel
  obtain ⟨_, _, _, htrace⟩ := returned_of_calls plainServer.setup calls
  refine ⟨by decide +kernel, hactive, ?_⟩
  exact (htrace (List.all_eq_true.1 hall)).2 rfl hactive

/-- A byte behind the client's Finished makes the call fail that has completed the handshake. The
server becomes active with the next frame of its own, and HANDSHAKE_DONE is never returned. -/
theorem handshakeDone_lost :
    let trailing := Message.frame .finished [] ++ [0]
    let early : List ConnectionCall :=
      serverFlight ++ [.buffer (Conversation.bearer (.crypto 0 trailing) .handshake)]
    let c := plainServer.run early
    let calls := early ++ [.process, .outbound .ping .application]
    (c.call .process).1 = .error (.unexpectedTrailingBytes 1)
      ∧ c.phase.progress? = some .serverFinished
      ∧ (c.call .process).2.phase.progress? = some .done
      ∧ (plainServer.run calls).phase.isActive = true
      ∧ ((returned (plainServer.journal calls)).flatMap (sentIn .outbound)).any
        (fun sent => sent.2.isHandshakeDone) = false := by
  decide +kernel

end Connection

end QuicTransport
