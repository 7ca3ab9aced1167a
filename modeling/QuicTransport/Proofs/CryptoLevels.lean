import QuicTransport.Proofs.HandshakeOrder
import QuicTransport.Proofs.HandshakeRecord

set_option autoImplicit false

/-! # Where the bytes of messages come from

CRYPTO data are reassembled for each epoch, but what the three streams of a direction give out goes
into one buffer, and messages are cut from that. So a message is a run of the bytes that the
direction has been given, each of which some CRYPTO frame has brought at that place of its stream.
It need not be a frame of the epoch in which such a message travels: nothing remembers in which
epoch a byte has arrived, so a ServerHello may end with bytes of the Handshake epoch.

Here every byte keeps its epoch. Where what is given out is made of messages that stand whole in
their epochs, each message is taken from its own. -/

namespace QuicTransport

open HandshakeSetup (Found)

/-! ## Bytes with their epochs -/

/-- Bytes that an epoch gives out. -/
def inEpoch (e : Epoch) (bs : Bytes) : List (Epoch × UInt8) := bs.map fun b => (e, b)

/-- The bytes of a message, in the epoch in which such a message travels. -/
def HandshakeSetup.Found.leveled (m : Found) : List (Epoch × UInt8) :=
  inEpoch m.expectation.kind.epoch m.message

/-- The bytes among them that have come from an epoch. -/
def fromEpoch (e : Epoch) (log : List (Epoch × UInt8)) : Bytes :=
  (log.filter fun x => x.1 = e).map Prod.snd

@[simp] theorem map_snd_inEpoch (e : Epoch) (bs : Bytes) : (inEpoch e bs).map Prod.snd = bs := by
  simp [inEpoch, Function.comp_def]

theorem fromEpoch_append (e : Epoch) (log more : List (Epoch × UInt8)) :
    fromEpoch e (log ++ more) = fromEpoch e log ++ fromEpoch e more := by
  simp [fromEpoch]

theorem fromEpoch_inEpoch (e d : Epoch) (bs : Bytes) :
    fromEpoch e (inEpoch d bs) = if d = e then bs else [] := by
  by_cases h : d = e <;> simp [fromEpoch, inEpoch, List.filter_map, Function.comp_def, h]

theorem map_snd_flatMap_leveled (ms : List Found) :
    (ms.flatMap Found.leveled).map Prod.snd = (ms.map Found.message).flatten := by
  induction ms with
  | nil => rfl
  | cons m ms ih =>
    rw [List.flatMap_cons, List.map_append, ih, Found.leveled, map_snd_inEpoch]
    rfl

/-- The messages from one direction. -/
def messagesFrom (d : Direction) (moves : List Move) : List Found :=
  moves.filterMap fun
    | .message d' found => if d' = d then some found else none
    | .confirmation => none

theorem messagesFrom_append (d : Direction) (moves more : List Move) :
    messagesFrom d (moves ++ more) = messagesFrom d moves ++ messagesFrom d more :=
  List.filterMap_append

theorem messagesFrom_map_message (d d' : Direction) (founds : List Found) :
    messagesFrom d (founds.map (.message d')) = if d' = d then founds else [] := by
  induction founds with
  | nil => simp [messagesFrom]
  | cons m founds ih =>
    rw [List.map_cons, ← List.singleton_append, messagesFrom_append, ih]
    by_cases h : d' = d <;> simp [messagesFrom, h]

/-! ## Cutting into messages -/

/-- Messages end where they say, so there is one way to cut bytes into messages. -/
theorem flatMap_leveled_prefix {ms script : List Found} {more : Bytes}
    (hms : ∀ m ∈ ms, Message.IsFramed m.expectation.kind m.message)
    (hscript : ∀ m ∈ script, Message.IsFramed m.expectation.kind m.message)
    (h : (ms.map Found.message).flatten ++ more <+: (script.map Found.message).flatten) :
    ms.flatMap Found.leveled <+: script.flatMap Found.leveled := by
  induction ms generalizing script with
  | nil => exact List.nil_prefix
  | cons m ms ih =>
    have hm := hms m List.mem_cons_self
    cases script with
    | nil =>
      have hnil := List.prefix_nil.1 h
      simp [hm.ne_nil] at hnil
    | cons n script =>
      simp only [List.map_cons, List.flatten_cons, List.append_assoc] at h
      obtain ⟨rest, hrest⟩ := h
      rw [List.append_assoc] at hrest
      obtain ⟨hkind, hmessage⟩ := hm.unique (hscript n List.mem_cons_self) hrest
      rw [hmessage, List.append_cancel_left_eq] at hrest
      have htail := ih (fun m h => hms m (List.mem_cons_of_mem _ h))
        (fun m h => hscript m (List.mem_cons_of_mem _ h)) ⟨rest, hrest⟩
      have hleveled : m.leveled = n.leveled := by simp only [Found.leveled, hkind, hmessage]
      rw [List.flatMap_cons, List.flatMap_cons, hleveled]
      exact (List.prefix_append_right_inj _).2 htail

/-! ## What a direction is given -/

/-- Some call has brought this byte at this position of an epoch's stream. -/
def BroughtBy (calls : List HandshakeCall) (d : Direction) (e : Epoch) (i : Nat) (b : UInt8) :
    Prop :=
  ∃ offset data, .crypto d e offset data ∈ calls ∧ offset ≤ i ∧ data[i - offset]? = some b

theorem placedAt_of_mem {calls : List HandshakeCall} {d : Direction} {e : Epoch} {offset : Nat}
    {data : Bytes} (h : .crypto d e offset data ∈ calls) :
    PlacedAt (BroughtBy calls d e) offset data := by
  intro i b hb
  refine ⟨offset, data, h, Nat.le_add_right _ _, ?_⟩
  rwa [Nat.add_sub_cancel_left]

namespace HandshakeSetup

variable {Memory : Type}

/-- The bytes that a call gives to a direction, with their epoch. -/
def given (setup : HandshakeSetup Memory) (d : Direction) (h : Handshake Memory) :
    HandshakeCall → List (Epoch × UInt8)
  | .crypto d' epoch offset data =>
    if d' = d then
      inEpoch epoch (CryptoStream.given
        (((h.flow d).streams.get epoch).insert offset data setup.config.maxCryptoBuffer).1)
    else []
  | .done => []

/-- The bytes that several calls give to a direction. -/
def givenAll (setup : HandshakeSetup Memory) (d : Direction) (h : Handshake Memory) :
    List HandshakeCall → List (Epoch × UInt8)
  | [] => []
  | c :: calls => setup.given d h c ++ setup.givenAll d (setup.call h c).2 calls

end HandshakeSetup

/-- The account of a direction: what it has been given, and the messages taken from it. -/
structure Accounted (calls : List HandshakeCall) (d : Direction) (f : CryptoFlow)
    (log : List (Epoch × UInt8)) (founds : List Found) : Prop where
  /-- What no message has claimed waits. -/
  bytes : log.map Prod.snd = (founds.map Found.message).flatten ++ f.waiting
  framed : ∀ m ∈ founds, Message.IsFramed m.expectation.kind m.message
  /-- What an epoch has given was brought to its stream. -/
  streams : ∀ e, ∃ arrived : List Chunk,
    (∀ c ∈ arrived, PlacedAt (BroughtBy calls d e) c.offset c.data)
      ∧ CryptoStream.Accounts (BroughtBy calls d e) arrived (fromEpoch e log) (f.streams.get e)

namespace Accounted

variable {calls : List HandshakeCall} {d : Direction} {log : List (Epoch × UInt8)}
  {founds : List Found}

theorem start (calls : List HandshakeCall) (d : Direction) : Accounted calls d {} [] [] where
  bytes := rfl
  framed := fun m hm => by cases hm
  streams := by
    intro e
    rw [PerEpoch.get_all]
    exact ⟨[], by simp, CryptoStream.accounts_empty _⟩

/-- What a stream gives out waits, and it has come from that stream. -/
theorem receive {f : CryptoFlow} (h : Accounted calls d f log founds) {epoch : Epoch} {offset : Nat}
    {data : Bytes} (hcall : .crypto d epoch offset data ∈ calls) (limit : Nat) :
    Accounted calls d (f.receive limit epoch offset data).2
      (log ++ inEpoch epoch
        (CryptoStream.given ((f.streams.get epoch).insert offset data limit).1)) founds := by
  rw [receive_snd]
  refine ⟨?_, h.framed, ?_⟩
  · rw [List.map_append, h.bytes, map_snd_inEpoch, List.append_assoc]
  · intro e
    obtain ⟨arrived, harrived, haccounts⟩ := h.streams e
    rw [fromEpoch_append, fromEpoch_inEpoch]
    dsimp only
    rw [PerEpoch.get_set]
    by_cases he : e = epoch
    · subst he
      have hchunk : PlacedAt (BroughtBy calls d e) offset data := placedAt_of_mem hcall
      rw [if_pos rfl, if_pos rfl]
      have hinsert := haccounts.insert harrived (c := ⟨offset, data⟩) hchunk limit
      refine ⟨arrived ++ [⟨offset, data⟩], ?_, hinsert⟩
      intro c hc
      rcases List.mem_append.1 hc with hc | hc
      · exact harrived c hc
      · rw [List.mem_singleton.1 hc]
        exact hchunk
    · rw [if_neg he, if_neg (Ne.symm he), List.append_nil]
      exact ⟨arrived, harrived, haccounts⟩

/-- A message that is taken stood in front of what waits. -/
theorem take {setup : HandshakeSetup Unit} (hparser : setup.parser = .framing)
    {h : Handshake Unit} {found : Found} {memory : Unit}
    (hflow : Accounted calls d (h.flow d) log founds) (htakes : setup.Takes d h found memory) :
    Accounted calls d ((setup.advance { h with memory } d found).2.flow d) log
      (founds ++ [found]) := by
  have hsplit :
      Message.split found.expectation.kind (h.flow d).waiting = .message found.message := by
    have hparsed := htakes.parsed
    rw [hparser] at hparsed
    exact congrArg Prod.fst hparsed
  obtain ⟨hframed, rest, hrest⟩ := Message.isFramed_and_prefix_of_split hsplit
  have hadvance : (setup.advance { h with memory } d found).2.flow d =
      (h.flow d).consume found.expectation.kind.epoch found.message.length := by
    cases d <;> rfl
  rw [hadvance]
  refine ⟨?_, ?_, hflow.streams⟩
  · rw [hflow.bytes, CryptoFlow.consume, ← hrest]
    simp
  · intro m hm
    rcases List.mem_append.1 hm with hm | hm
    · exact hflow.framed m hm
    · rw [List.mem_singleton.1 hm]
      exact hframed

theorem draining {setup : HandshakeSetup Unit} (hparser : setup.parser = .framing)
    {h h' : Handshake Unit} {more : List Found} {directives : List Directive}
    (hdraining : setup.Draining d h more directives h')
    (hflow : Accounted calls d (h.flow d) log founds) :
    Accounted calls d (h'.flow d) log (founds ++ more) := by
  induction hdraining generalizing founds with
  | stop h memory =>
    rw [List.append_nil]
    cases d <;> exact hflow
  | take htakes _ ih =>
    rw [List.append_cons]
    exact ih (hflow.take hparser htakes)

end Accounted

/-- Draining one direction leaves the other as it is. -/
theorem HandshakeSetup.Draining.flow_of_ne {Memory : Type} {setup : HandshakeSetup Memory}
    {d d' : Direction} (hne : d' ≠ d) {h h' : Handshake Memory} {founds : List Found}
    {directives : List Directive} (hdraining : setup.Draining d' h founds directives h') :
    h'.flow d = h.flow d := by
  induction hdraining with
  | stop h memory => cases d <;> rfl
  | take _ _ ih =>
    rw [ih]
    cases d <;> cases d' <;> first | rfl | exact absurd rfl hne

/-- CRYPTO data of one direction leave the other as it is. -/
theorem HandshakeSetup.flow_processCrypto_of_ne {Memory : Type} (setup : HandshakeSetup Memory)
    (h : Handshake Memory) {d d' : Direction} (hne : d' ≠ d) (epoch : Epoch) (offset : Nat)
    (data : Bytes) : (setup.processCrypto h d' epoch offset data).2.flow d = h.flow d := by
  obtain ⟨directives, hdraining, _⟩ := setup.draining_processCrypto h d' epoch offset data
  rw [hdraining.flow_of_ne hne]
  cases d <;> cases d' <;> first | rfl | exact absurd rfl hne

@[simp] theorem Handshake.flow_processDone {Memory : Type} (h : Handshake Memory) (d : Direction) :
    h.processDone.2.flow d = h.flow d := by
  unfold processDone
  split
  · cases d <;> rfl
  · rfl

namespace Accounted

variable {calls : List HandshakeCall} {d : Direction} {log : List (Epoch × UInt8)}
  {founds : List Found} {setup : HandshakeSetup Unit}

/-- The account is kept by a call, whatever its answer. -/
theorem call (hparser : setup.parser = .framing) {h : Handshake Unit}
    (hflow : Accounted calls d (h.flow d) log founds) {c : HandshakeCall} (hc : c ∈ calls) :
    Accounted calls d ((setup.call h c).2.flow d) (log ++ setup.given d h c)
      (founds ++ messagesFrom d (setup.moves h c)) := by
  cases c with
  | crypto d' epoch offset data =>
    rw [HandshakeSetup.given, HandshakeSetup.moves, messagesFrom_map_message]
    by_cases hd : d' = d
    · subst hd
      obtain ⟨directives, hdraining, _⟩ := setup.draining_processCrypto h d' epoch offset data
      rw [if_pos rfl, if_pos rfl]
      refine Accounted.draining hparser hdraining ?_
      rw [Handshake.flow_setFlow]
      exact hflow.receive hc _
    · rw [if_neg hd, if_neg hd, List.append_nil, List.append_nil, HandshakeSetup.call,
        setup.flow_processCrypto_of_ne h hd]
      exact hflow
  | done =>
    have hmoves : messagesFrom d (setup.moves h .done) = [] := by
      unfold HandshakeSetup.moves
      dsimp only
      split <;> rfl
    rw [hmoves, HandshakeSetup.call, Handshake.flow_processDone, HandshakeSetup.given,
      List.append_nil, List.append_nil]
    exact hflow

theorem run (hparser : setup.parser = .framing) {h : Handshake Unit}
    (hflow : Accounted calls d (h.flow d) log founds) {late : List HandshakeCall}
    (hlate : ∀ c ∈ late, c ∈ calls) :
    Accounted calls d ((setup.run h late).flow d) (log ++ setup.givenAll d h late)
      (founds ++ messagesFrom d (setup.history h late)) := by
  induction late generalizing h log founds with
  | nil =>
    rw [HandshakeSetup.givenAll, HandshakeSetup.history, List.append_nil]
    exact (List.append_nil founds).symm ▸ hflow
  | cons c late ih =>
    rw [HandshakeSetup.givenAll, HandshakeSetup.history, messagesFrom_append, ← List.append_assoc,
      ← List.append_assoc]
    exact ih (hflow.call hparser (hlate c List.mem_cons_self))
      fun a ha => hlate a (List.mem_cons_of_mem c ha)

end Accounted

/-! ## Levels -/

namespace HandshakeSetup

/-- In each direction the messages and what waits make up the bytes that have been given out, in
order. Every byte was brought in its epoch, at its position in the stream. Where the bytes are
messages that stand whole in their epochs, one after the other, each message that is taken consists
of bytes of its own epoch. -/
theorem messages_of_given {setup : HandshakeSetup Unit} (hparser : setup.parser = .framing)
    (calls : List HandshakeCall) (d : Direction) :
    let given := setup.givenAll d setup.start calls
    let messages := messagesFrom d (setup.history setup.start calls)
    given.map Prod.snd = (messages.map Found.message).flatten
        ++ ((setup.run setup.start calls).flow d).waiting
      ∧ (∀ m ∈ messages, Message.IsFramed m.expectation.kind m.message)
      ∧ (∀ e i b, (fromEpoch e given)[i]? = some b → BroughtBy calls d e i b)
      ∧ ∀ script : List Found, (∀ m ∈ script, Message.IsFramed m.expectation.kind m.message) →
        given <+: script.flatMap Found.leveled → messages.flatMap Found.leveled <+: given := by
  intro given messages
  have hstart : Accounted calls d (setup.start.flow d) [] [] := by
    cases d <;> exact .start calls _
  have haccount : Accounted calls d ((setup.run setup.start calls).flow d) given messages :=
    hstart.run hparser fun c hc => hc
  refine ⟨haccount.bytes, haccount.framed, ?_, ?_⟩
  · intro e i b hb
    obtain ⟨arrived, _, haccounts⟩ := haccount.streams e
    have hplaced := haccounts.placed i b hb
    rwa [Nat.zero_add] at hplaced
  · intro script hscript hgiven
    have hbytes := hgiven.map Prod.snd
    rw [haccount.bytes, map_snd_flatMap_leveled] at hbytes
    have hprefix := flatMap_leveled_prefix haccount.framed hscript hbytes
    refine List.prefix_of_prefix_length_le hprefix hgiven ?_
    -- as many bytes have been taken as were given, or fewer
    have hlength := congrArg List.length haccount.bytes
    rw [← map_snd_flatMap_leveled, List.length_append, List.length_map, List.length_map] at hlength
    omega

/-- A client before its handshake. -/
def plainClient : HandshakeSetup Unit :=
  { side := .client, config := {}, parser := .framing, memory := (), randomness := fun _ => 0 }

/-- The ServerHello comes in two pieces of the Initial epoch. -/
theorem messages_of_given_serverHello :
    let calls : List HandshakeCall := [.crypto .outbound .initial 0 [1, 0, 0, 0],
      .crypto .inbound .initial 4 [5, 6], .crypto .inbound .initial 0 [2, 0, 0, 2]]
    let given := plainClient.givenAll .inbound plainClient.start calls
    let messages := messagesFrom .inbound (plainClient.history plainClient.start calls)
    given = inEpoch .initial [2, 0, 0, 2, 5, 6] ∧ messages.length = 1
      ∧ messages.flatMap Found.leveled <+: given := by
  intro calls given messages
  have hgiven : given = inEpoch .initial [2, 0, 0, 2, 5, 6] := by decide +kernel
  refine ⟨hgiven, by decide +kernel, ?_⟩
  refine (messages_of_given rfl calls .inbound).2.2.2
    [⟨⟨.serverHello, .server, .serverHello⟩, [2, 0, 0, 2, 5, 6]⟩] ?_ ?_
  · intro m hm
    rw [List.mem_singleton.1 hm]
    exact ⟨[5, 6], by decide, by decide⟩
  · change given <+: _
    rw [hgiven]
    decide

/-- A message may have bytes of another epoch. Here the ServerHello begins in the Initial epoch, and
its last two bytes come in the Handshake epoch. -/
theorem serverHello_of_two_epochs :
    let calls : List HandshakeCall := [.crypto .outbound .initial 0 [1, 0, 0, 0],
      .crypto .inbound .initial 0 [2, 0, 0, 4, 1, 2], .crypto .inbound .handshake 0 [8, 0]]
    ¬ ∀ m ∈ messagesFrom .inbound (plainClient.history plainClient.start calls),
      ∀ b ∈ m.message, ∃ offset data,
        HandshakeCall.crypto .inbound m.expectation.kind.epoch offset data ∈ calls ∧ b ∈ data := by
  intro calls hlevels
  have hmixed : (messagesFrom .inbound (plainClient.history plainClient.start calls)).any
      (fun m => decide (m.expectation.kind.epoch = .initial ∧ 8 ∈ m.message)) = true := by
    decide +kernel
  obtain ⟨m, hm, hboth⟩ := List.any_eq_true.1 hmixed
  obtain ⟨hepoch, height⟩ := of_decide_eq_true hboth
  obtain ⟨offset, data, hcall, hdata⟩ := hlevels m hm 8 height
  rw [hepoch] at hcall
  simp only [calls, List.mem_cons, HandshakeCall.crypto.injEq, reduceCtorEq, false_and, and_false,
    or_false, false_or, List.not_mem_nil, true_and] at hcall
  rw [hcall.2] at hdata
  revert hdata
  decide

end HandshakeSetup

end QuicTransport
