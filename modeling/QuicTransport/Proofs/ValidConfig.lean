import QuicTransport.Proofs.ConnectionSteps
import QuicTransport.Proofs.DirectiveTrace
import QuicTransport.Proofs.FrameWriting
import QuicTransport.Proofs.PacketSplitting

set_option autoImplicit false

/-! # What a valid configuration rules out

A configuration is checked once, and the check is relied upon in other places, where a wrong length
would come up as a failure of a connection. `Config.IsValid` says what a valid configuration is, and
`ConfigProblem.Holds` what each problem says about a configuration; the check reports exactly the
problems that hold, in the order of `ConfigProblem.rank`.

The places that rely on it are a short header, which does not tell the length of its identifier
(`Datagram.split_short_eq_error_iff`), the queue of inbound packets, and the token that a server
issues when its handshake is complete (`HandshakeSetup.newToken_of_call`). -/

namespace QuicTransport

/-! ## Versions that cannot be offered -/

namespace Version

/-- The word has the form `0x?a?a?a?a`. -/
def IsKeptFree (v : Version) : Prop :=
  ∃ a b c d : Fin 16,
    v.word.toNat = 0x0a0a0a0a + 0x10000000 * a + 0x100000 * b + 0x1000 * c + 0x10 * d

private theorem land_byte (n mask : Nat) :
    n &&& (256 * mask + 15) = 256 * (n / 256 &&& mask) + n % 16 := by
  have hhigh : (n &&& (256 * mask + 15)) / 2 ^ 8 = n / 256 &&& mask := by
    rw [Nat.and_div_two_pow]
    congr 1
    omega
  have hlow : (n &&& (256 * mask + 15)) % 2 ^ 8 = n % 16 := by
    rw [Nat.and_mod_two_pow, show (256 * mask + 15) % 2 ^ 8 = 2 ^ 4 - 1 by omega,
      Nat.and_two_pow_sub_one_eq_mod]
    omega
  have hsplit := Nat.div_add_mod (n &&& (256 * mask + 15)) (2 ^ 8)
  rw [hhigh, hlow] at hsplit
  exact hsplit.symm

theorem isReserved_iff {v : Version} : v.isReserved = true ↔ v.IsKeptFree := by
  have hlt : v.word.toNat < 4294967296 := v.word.toNat_lt
  have hmask : v.word.toNat &&& 0x0f0f0f0f =
      256 * (256 * (256 * (v.word.toNat / 256 / 256 / 256 % 16) + v.word.toNat / 256 / 256 % 16)
        + v.word.toNat / 256 % 16) + v.word.toNat % 16 := by
    rw [show (0x0f0f0f0f : Nat) = 256 * (256 * (256 * (256 * 0 + 15) + 15) + 15) + 15 by rfl,
      land_byte, land_byte, land_byte, land_byte, Nat.and_zero]
    omega
  rw [isReserved, beq_iff_eq, ← UInt32.toNat_inj, UInt32.toNat_and]
  change v.word.toNat &&& 0x0f0f0f0f = 0x0a0a0a0a ↔ _
  rw [hmask]
  constructor
  · intro h
    refine ⟨⟨v.word.toNat / 0x10000000, by omega⟩, ⟨v.word.toNat / 0x100000 % 16, by omega⟩,
      ⟨v.word.toNat / 0x1000 % 16, by omega⟩, ⟨v.word.toNat / 0x10 % 16, by omega⟩, ?_⟩
    dsimp only
    omega
  · rintro ⟨a, b, c, d, h⟩
    omega

instance (v : Version) : Decidable v.IsKeptFree := decidable_of_iff _ isReserved_iff

theorem isNegotiation_iff_word {v : Version} : v.isNegotiation = true ↔ v.word = 0 := by
  rw [isNegotiation, beq_iff_eq]

/-- The word stands for something else than a version that one could speak. -/
def CannotBeOffered (v : Version) : Prop := v.word = 0 ∨ v.IsKeptFree

instance (v : Version) : Decidable v.CannotBeOffered :=
  inferInstanceAs (Decidable (_ ∨ _))

end Version

/-! ## Problems -/

namespace ConfigProblem

/-- What a problem says about a configuration. -/
def Holds (c : Config) : ConfigProblem → Prop
  | .noVersions => c.supportedVersions = []
  | .negotiationVersion => ∃ v ∈ c.supportedVersions, v.word = 0
  | .reservedVersion version => version ∈ c.supportedVersions ∧ version.IsKeptFree
  | .connectionIdTooLong length => length = c.maxConnectionIdLength ∧ 20 < length
  | .shortHeaderDcidTooLong length limit =>
    length = c.shortHeaderDcidLength ∧ limit = c.maxConnectionIdLength ∧ limit < length
  | .emptyToken => c.newTokenLength = 0
  | .noBuffer => c.maxBufferedPackets = 0

/-- The place of a problem in a report. -/
def rank : ConfigProblem → Nat
  | .noVersions => 0
  | .negotiationVersion => 1
  | .reservedVersion _ => 1
  | .connectionIdTooLong _ => 2
  | .shortHeaderDcidTooLong _ _ => 3
  | .emptyToken => 4
  | .noBuffer => 5

/-- The version that is the problem, if it is one. -/
def version? : ConfigProblem → Option Version
  | .negotiationVersion => some .negotiation
  | .reservedVersion version => some version
  | _ => none

/-- A problem belongs in front of another. Only versions share a place. -/
def Before (p q : ConfigProblem) : Prop := p.rank < q.rank ∨ p.rank = 1 ∧ q.rank = 1

/-- The problems stand in order, and their ranks stay below `n`. -/
def Below (n : Nat) (ps : List ConfigProblem) : Prop :=
  ps.Pairwise Before ∧ ∀ p ∈ ps, p.rank < n

theorem Below.append {n : Nat} {ps qs : List ConfigProblem} (h : Below n ps)
    (hqs : ∀ q ∈ qs, q.rank = n) (hpairs : qs.Pairwise Before) : Below (n + 1) (ps ++ qs) := by
  refine ⟨List.pairwise_append.2 ⟨h.1, hpairs, ?_⟩, ?_⟩
  · intro p hp q hq
    refine Or.inl ?_
    rw [hqs q hq]
    exact h.2 p hp
  · intro p hp
    rcases List.mem_append.1 hp with hp | hp
    · exact Nat.lt_succ_of_lt (h.2 p hp)
    · exact Nat.lt_succ_of_le (Nat.le_of_eq (hqs p hp))

theorem Below.problemIf {q : ConfigProblem} {ps : List ConfigProblem} (h : Below q.rank ps)
    (condition : Bool) : Below (q.rank + 1) (ps ++ Config.problemIf condition q) := by
  unfold Config.problemIf
  split
  · exact h.append (by simp) (List.pairwise_singleton _ _)
  · exact h.append (fun _ h => by cases h) .nil

end ConfigProblem

namespace Config

/-- A configuration that an endpoint can work with. -/
structure IsValid (c : Config) : Prop where
  versions_ne_nil : c.supportedVersions ≠ []
  offered : ∀ v ∈ c.supportedVersions, v.word ≠ 0 ∧ ¬ v.IsKeptFree
  maxConnectionIdLength_le : c.maxConnectionIdLength ≤ 20
  shortHeaderDcidLength_le : c.shortHeaderDcidLength ≤ c.maxConnectionIdLength
  newTokenLength_pos : 0 < c.newTokenLength
  maxBufferedPackets_pos : 0 < c.maxBufferedPackets

variable {c : Config}

theorem isValid_iff : c.IsValid ↔ ∀ p : ConfigProblem, ¬ p.Holds c := by
  constructor
  · rintro h p hp
    cases p with
    | noVersions => exact h.versions_ne_nil hp
    | negotiationVersion =>
      obtain ⟨v, hv, hword⟩ := hp
      exact (h.offered v hv).1 hword
    | reservedVersion version => exact (h.offered version hp.1).2 hp.2
    | connectionIdTooLong length =>
      exact absurd h.maxConnectionIdLength_le (Nat.not_le_of_lt (hp.1 ▸ hp.2))
    | shortHeaderDcidTooLong length limit =>
      obtain ⟨rfl, rfl, hlt⟩ := hp
      exact absurd h.shortHeaderDcidLength_le (Nat.not_le_of_lt hlt)
    | emptyToken => exact Nat.ne_of_gt h.newTokenLength_pos hp
    | noBuffer => exact Nat.ne_of_gt h.maxBufferedPackets_pos hp
  · intro h
    refine ⟨h .noVersions, fun v hv => ⟨?_, ?_⟩, ?_, ?_, ?_, ?_⟩
    · exact fun hword => h .negotiationVersion ⟨v, hv, hword⟩
    · exact fun hfree => h (.reservedVersion v) ⟨hv, hfree⟩
    · exact Nat.le_of_not_lt fun hlt => h (.connectionIdTooLong _) ⟨rfl, hlt⟩
    · exact Nat.le_of_not_lt fun hlt => h (.shortHeaderDcidTooLong _ _) ⟨rfl, rfl, hlt⟩
    · exact Nat.pos_of_ne_zero (h .emptyToken)
    · exact Nat.pos_of_ne_zero (h .noBuffer)

theorem mem_problemIf {condition : Bool} {p q : ConfigProblem} :
    p ∈ problemIf condition q ↔ condition = true ∧ p = q := by
  unfold problemIf
  split <;> simp_all

/-- What is wrong with a version. -/
theorem versionProblem?_eq_some_iff {v : Version} {p : ConfigProblem} :
    versionProblem? v = some p ↔
      p = .negotiationVersion ∧ v.word = 0 ∨ p = .reservedVersion v ∧ v.IsKeptFree := by
  have hzero : v.word = 0 → ¬ v.IsKeptFree := by
    rintro hword ⟨a, b, d, e, h⟩
    rw [hword, UInt32.toNat_zero] at h
    omega
  unfold versionProblem?
  simp only [Version.isNegotiation_iff_word, Version.isReserved_iff]
  split
  · next hword => simp [hword, hzero hword, eq_comm]
  · next hword =>
    split
    · next hfree => simp [hword, hfree, eq_comm]
    · next hfree => simp [hword, hfree]

/-- The report names exactly the problems that there are. -/
theorem mem_problems_iff {p : ConfigProblem} : p ∈ c.problems ↔ p.Holds c := by
  simp only [problems, List.mem_append, mem_problemIf, List.mem_filterMap,
    versionProblem?_eq_some_iff]
  cases p with
  | noVersions => simp [ConfigProblem.Holds]
  | negotiationVersion => simp [ConfigProblem.Holds]
  | reservedVersion version =>
    simp only [ConfigProblem.Holds]
    grind
  | connectionIdTooLong length => simp [ConfigProblem.Holds, ConnectionId.maxLength]; grind
  | shortHeaderDcidTooLong length limit => simp [ConfigProblem.Holds]; grind
  | emptyToken => simp [ConfigProblem.Holds]
  | noBuffer => simp [ConfigProblem.Holds]

/-- The report follows the order of the conditions, and nothing but versions is reported twice. -/
theorem pairwise_problems (c : Config) : c.problems.Pairwise ConfigProblem.Before := by
  have hversion : ∀ p ∈ c.supportedVersions.filterMap versionProblem?, p.rank = 1 := by
    intro p hp
    obtain ⟨v, _, hv⟩ := List.mem_filterMap.1 hp
    rcases versionProblem?_eq_some_iff.1 hv with ⟨rfl, _⟩ | ⟨rfl, _⟩ <;> rfl
  have hpairs : (c.supportedVersions.filterMap versionProblem?).Pairwise ConfigProblem.Before :=
    List.pairwise_of_forall_mem_list fun p hp q hq => Or.inr ⟨hversion p hp, hversion q hq⟩
  have hfirst : ConfigProblem.Below 1 (problemIf c.supportedVersions.isEmpty .noVersions) :=
    ConfigProblem.Below.problemIf (q := .noVersions) ⟨.nil, fun _ h => by cases h⟩ _
  have hversions := hfirst.append hversion hpairs
  have hlong := hversions.problemIf (q := .connectionIdTooLong c.maxConnectionIdLength)
    (ConnectionId.maxLength < c.maxConnectionIdLength)
  have hshort := hlong.problemIf
    (q := .shortHeaderDcidTooLong c.shortHeaderDcidLength c.maxConnectionIdLength)
    (c.maxConnectionIdLength < c.shortHeaderDcidLength)
  have htoken := hshort.problemIf (q := .emptyToken) (c.newTokenLength == 0)
  exact (htoken.problemIf (q := .noBuffer) (c.maxBufferedPackets == 0)).1

theorem filterMap_problemIf {α : Type} (f : ConfigProblem → Option α) (condition : Bool)
    (q : ConfigProblem) :
    (problemIf condition q).filterMap f = if condition then (f q).toList else [] := by
  cases condition with
  | false => rfl
  | true => cases hq : f q <;> simp [problemIf, hq]

/-- Every version that cannot be offered is reported, as often and in the order as it occurs. -/
theorem filterMap_version?_problems (c : Config) :
    c.problems.filterMap ConfigProblem.version? =
      c.supportedVersions.filter fun v => v.CannotBeOffered := by
  have hversion : ∀ v : Version, (versionProblem? v).bind ConfigProblem.version? =
      Option.guard (fun v => decide v.CannotBeOffered) v := by
    intro v
    cases hproblem : versionProblem? v with
    | none =>
      have hgood : ¬ v.CannotBeOffered := by
        rintro (hword | hfree)
        · have h := versionProblem?_eq_some_iff.2 (Or.inl ⟨rfl, hword⟩)
          simp [hproblem] at h
        · have h := versionProblem?_eq_some_iff.2 (Or.inr ⟨rfl, hfree⟩)
          simp [hproblem] at h
      simp [Option.guard, hgood]
    | some p =>
      rcases versionProblem?_eq_some_iff.1 hproblem with ⟨rfl, hword⟩ | ⟨rfl, hfree⟩
      · have hv : v = .negotiation := congrArg Version.mk hword
        simp [Option.guard, ConfigProblem.version?, Version.CannotBeOffered, hv,
          Version.negotiation]
      · simp [Option.guard, ConfigProblem.version?, Version.CannotBeOffered, hfree]
  rw [← List.filterMap_eq_filter, ← funext hversion]
  simp [problems, filterMap_problemIf, ConfigProblem.version?, List.filterMap_filterMap]

/-- A configuration is accepted exactly if it is valid. -/
theorem check_eq_ok_iff : c.check = .ok () ↔ c.IsValid := by
  have hnil : c.problems = [] ↔ c.IsValid := by
    simp only [List.eq_nil_iff_forall_not_mem, mem_problems_iff, isValid_iff]
  rw [← hnil, check]
  cases c.problems <;> simp

theorem check_of_not_isValid (h : ¬ c.IsValid) :
    c.check =
      .error (.invalidConfig ("; ".intercalate (c.problems.map ConfigProblem.message))) := by
  rw [← check_eq_ok_iff, check] at h
  rw [check]
  cases hproblems : c.problems with
  | nil => simp [hproblems] at h
  | cons p ps => rfl

end Config

/-! ## Short headers -/

namespace Datagram

variable {config : Config} {bs : Bytes} {e : Error}

theorem readCidOf_eq_error_iff {length : Nat} :
    readCidOf length bs = .error e ↔
      bs.length < length ∧ e = .malformedPacket "field exceeds datagram"
        ∨ length ≤ bs.length ∧ 20 < length ∧ e = .invalidConnectionIdLength length := by
  unfold readCidOf
  rw [Reader.bind_eq_error]
  refine or_congr Reader.bytes_eq_error ?_
  constructor
  · rintro ⟨front, rest, hfront, hlong⟩
    obtain ⟨rfl, rfl⟩ := Reader.bytes_eq_ok.1 hfront
    by_cases hle : front.length ≤ 20
    · rw [ConnectionId.ofBytes?, dif_pos hle] at hlong
      exact absurd hlong Reader.pure_ne_error
    · rw [ConnectionId.ofBytes?, dif_neg hle] at hlong
      cases hlong
      exact ⟨by simp, Nat.lt_of_not_le hle, rfl⟩
  · rintro ⟨hle, hlong, rfl⟩
    have hlength : (bs.take length).length = length := by
      rw [List.length_take, Nat.min_eq_left hle]
    refine ⟨bs.take length, bs.drop length,
      Reader.bytes_eq_ok.2 ⟨hlength, (List.take_append_drop _ _).symm⟩, ?_⟩
    rw [ConnectionId.ofBytes?, dif_neg (by omega)]
    rfl

theorem readShort_eq_error_iff {packet : Bytes} :
    readShort config packet bs = .error e ↔
      readCidOf config.shortHeaderDcidLength bs = .error e := by
  unfold readShort
  simp only [Reader.bind_eq_error, Reader.pure_ne_error, and_false, exists_false, or_false]
  refine or_iff_left ?_
  rintro ⟨_, _, _, h⟩
  cases h

/-- A datagram that begins with a short header is nothing else. It cannot be read if the fixed bit
is missing, or its identifier. -/
theorem split_short_eq_error_iff {first : UInt8} (hform : first.toNat.testBit 7 = false) :
    split config (first :: bs) = .error e ↔
      first.toNat.testBit 6 = false ∧ e = .malformedPacket "fixed bit not set"
        ∨ first.toNat.testBit 6 = true
          ∧ readCidOf config.shortHeaderDcidLength bs = .error e := by
  have hpacket : readPacket config (first :: bs) = .error e ↔
      first.toNat.testBit 6 = false ∧ e = .malformedPacket "fixed bit not set"
        ∨ first.toNat.testBit 6 = true
          ∧ readCidOf config.shortHeaderDcidLength bs = .error e := by
    change readAfter config (first :: bs) first bs = _ ↔ _
    rw [readAfter, HeaderForm.ofFirstByte_eq_short_iff.2 hform]
    simp only [insist, FirstByte.isFixed_eq_testBit, Reader.bind_eq_error, Reader.require_eq_error, Reader.require_eq_ok,
      Reader.map_eq_error]
    refine or_congr Iff.rfl ?_
    constructor
    · rintro ⟨_, _, ⟨hfixed, rfl⟩, h⟩
      exact ⟨hfixed, readShort_eq_error_iff.1 h⟩
    · rintro ⟨hfixed, h⟩
      exact ⟨(), bs, ⟨hfixed, rfl⟩, readShort_eq_error_iff.2 h⟩
  rw [← hpacket]
  cases hread : readPacket config (first :: bs) with
  | error e' => rw [split_of_readPacket_error (List.cons_ne_nil _ _) hread]; simp
  | ok found =>
    obtain ⟨item, rest⟩ := found
    obtain ⟨_, found, hfound, _⟩ := (readPacket_of_short hform).1 hread
    obtain ⟨_, _, _, _, rfl, _⟩ := readShort_eq_ok.1 hfound
    rw [split_of_readPacket hread, split_nil]
    simp [Except.map]

end Datagram

/-! ## The token -/

/-- What is told of a degree of progress has no other token in it. -/
theorem Progress.newToken_of_told {self : Side} {text : Progress → Bytes} {token : Bytes}
    {p : Progress} {d : Directive} (hd : d ∈ told self text token p) {e : Epoch} {issued : Bytes}
    (hsent : (e, .newToken issued) ∈ sentIn .outbound d) : issued = token := by
  have hall : ∀ sent ∈ (told self text token p).flatMap (sentIn .outbound),
      ∀ issued, sent.2 = .newToken issued → issued = token := by
    cases self <;> cases p <;>
      simp [told, toldToClient, toldToServer, sentIn, Directive.emit, eq_comm]
  exact hall _ (List.mem_flatMap.2 ⟨d, hd, hsent⟩) issued rfl

/-- A token can be written and read back if it is there and its length has room. -/
theorem Frame.newToken_roundTrips_iff {token : Bytes} (htoken : token ≠ []) :
    (∃ bs, (Frame.newToken token).encode = .ok bs
      ∧ Frame.decode bs = .ok (.newToken token, [])) ↔ FitsVarInt token.length := by
  constructor
  · rintro ⟨bs, hencode, _⟩
    exact (wireValid_of_encode (f := .newToken token) rfl (by simp) hencode rfl).2
  · intro hfits
    have hvalid : (Frame.newToken token).WireValid := ⟨htoken, hfits⟩
    obtain ⟨bs, hencode⟩ := exists_encode_of_wireValid hvalid
    exact ⟨bs, hencode, decode_eq_ok hvalid hencode⟩

namespace HandshakeSetup

variable {Memory : Type} {setup : HandshakeSetup Memory}

/-- Whatever calls went before, one that does not fail tells what its messages bring. -/
theorem exists_progressed_call {calls : List HandshakeCall} {x : HandshakeCall}
    {directives : List Directive}
    (hok : (setup.call (setup.run setup.start calls) x).1 = .ok directives) :
    ∃ text founds, setup.Progressed text (setup.run setup.start calls) founds directives
      (setup.call (setup.run setup.start calls) x).2 := by
  have hscripted := (InOrder.of_run setup (calls ++ [x])).scripted
  have hhistory : messagesOf (setup.history setup.start (calls ++ [x])) =
      messagesOf (setup.history setup.start calls)
        ++ messagesOf (setup.moves (setup.run setup.start calls) x) := by
    rw [history_append, messagesOf_append]
    simp [history]
  have htext : ∀ m ∈ messagesOf (setup.history setup.start (calls ++ [x])),
      textOf (messagesOf (setup.history setup.start (calls ++ [x]))) m.expectation.next =
        m.message := fun m hm => textOf_next hscripted hm
  obtain ⟨_, hbefore, _⟩ := (setup.counts_start _).answers fun m hm =>
    htext m (hhistory ▸ List.mem_append_left _ hm)
  obtain ⟨told, hprogressed, hanswer⟩ := hbefore.counts.call x fun m hm =>
    htext m (hhistory ▸ List.mem_append_right _ hm)
  rw [hanswer directives hok]
  exact ⟨_, _, hprogressed⟩

/-- No other token is ever sent, and a server sends it when its handshake is complete. -/
theorem newToken_of_call {calls : List HandshakeCall} {x : HandshakeCall}
    {directives : List Directive}
    (hok : (setup.call (setup.run setup.start calls) x).1 = .ok directives) :
    (∀ d ∈ directives, ∀ e token, (e, .newToken token) ∈ sentIn .outbound d →
        token = setup.newToken)
      ∧ (setup.side = .server → (setup.run setup.start calls).progress ≠ .done →
        (setup.call (setup.run setup.start calls) x).2.progress = .done →
        .emit .application [.handshakeDone, .newToken setup.newToken] ∈ directives) := by
  obtain ⟨text, founds, hprogressed⟩ := exists_progressed_call hok
  have htrace := hprogressed.trace
  constructor
  · intro d hd e token hsent
    rw [hprogressed.directives_eq] at hd
    obtain ⟨m, _, htold⟩ := List.mem_flatMap.1 hd
    exact Progress.newToken_of_told htold hsent
  · intro hserver hbefore hdone
    have hwaits := (InOrder.of_run setup calls).answered hserver
    rw [hdone, hserver] at htrace
    have hall : .emit .application [.handshakeDone, .newToken setup.newToken] ∈
        Progress.done.trace .server text setup.newToken := by
      simp [Progress.trace, Progress.told, Progress.toldToServer, Expectation.script, Progress.rank]
    rw [htrace] at hall
    refine (List.mem_append.1 hall).resolve_left fun hearly => ?_
    -- before the client's Finished a server is told of CRYPTO frames and keys only
    revert hbefore hwaits hearly
    generalize (setup.run setup.start calls).progress = p
    cases p <;>
      simp [Progress.trace, Progress.told, Progress.toldToServer, Expectation.script,
        Progress.rank, Directive.emit]

end HandshakeSetup

/-! ## The queue -/

/-- Into an empty queue with room a packet is put. -/
theorem Connection.bufferPacket_of_waiting_eq_zero {Memory : Type} {c : Connection Memory}
    {p : Packet} (hphase : c.phase = .active ∨ ∃ h, c.phase = .handshaking h)
    (hwaiting : c.waiting = 0) (hroom : c.waiting < c.setup.config.maxBufferedPackets) :
    c.bufferPacket p = (.ok true, { c with buffered := [p] }) := by
  have hopen : c.phase.isOpen = true := by
    rcases hphase with hphase | ⟨h, hphase⟩ <;> rw [hphase] <;> rfl
  have hempty : c.buffered = [] := List.length_eq_zero_iff.1 (Nat.eq_zero_of_add_eq_zero hwaiting).1
  cases c.bufferStep p with
  | accepted _ _ hstep => rw [hstep, hempty, List.nil_append]
  | full _ hfull _ => exact absurd hroom (Nat.not_lt.2 hfull)
  | refused hclosed _ => exact absurd (hopen.symm.trans hclosed) (by decide)

/-! ## What can be relied upon -/

/-- Two versions cannot be offered, and the queue has no room. -/
example :
    ({ supportedVersions := [⟨0x1a2a3a4a⟩, .v1, ⟨0⟩], maxBufferedPackets := 0 } : Config).problems =
      [.reservedVersion ⟨0x1a2a3a4a⟩, .negotiationVersion, .noBuffer] := by decide

end QuicTransport
