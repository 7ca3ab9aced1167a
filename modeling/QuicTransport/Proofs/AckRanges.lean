import QuicTransport.Proofs.FrameBoundaries

set_option autoImplicit false

/-! # Which packet numbers are acknowledged

An acknowledgement has the largest packet number that it acknowledges, and from there it counts
downwards: so many are acknowledged, so many are not, so many are acknowledged again. `Ack.spans`
does the counting. It gives the runs of acknowledged numbers, as runs of integers, so that nothing
stops it at zero.

That the runs descend and do not touch is due to the way in which they are counted. That they stay
above zero is what the reader sees to, and it is all that it asks for: if the fields of an
acknowledgement are there, it is refused exactly for the first run that goes below zero
(`Frame.decode_ack_of_opens`). -/

namespace QuicTransport

/-! ## Runs of numbers -/

/-- The numbers from `low` to `high`. -/
structure Span where
  low : Int
  high : Int
deriving DecidableEq, Repr

/-- A number is in the run. -/
def Span.Has (s : Span) (n : Int) : Prop := s.low ≤ n ∧ n ≤ s.high

namespace Ack

/-- Further runs below one that ends at `low`. Even with a gap of zero a number is left out, and
even with a length of zero there is a number in the run. -/
def spansBelow : (low : Int) → List AckRange → List Span
  | _, [] => []
  | low, r :: rs =>
    ⟨low - r.gap - 2 - r.length, low - r.gap - 2⟩ :: spansBelow (low - r.gap - 2 - r.length) rs

/-- The runs of acknowledged numbers, from the largest downwards. -/
def spans (a : Ack) : List Span :=
  ⟨a.largest - a.firstRange, a.largest⟩ :: spansBelow (a.largest - a.firstRange) a.ranges

theorem length_spansBelow (low : Int) (ranges : List AckRange) :
    (spansBelow low ranges).length = ranges.length := by
  induction ranges generalizing low with
  | nil => rfl
  | cons r rs ih => rw [spansBelow, List.length_cons, ih, List.length_cons]

theorem length_spans (a : Ack) : a.spans.length = a.ranges.length + 1 := by
  rw [spans, List.length_cons, length_spansBelow]

/-- A number is left out below the run in front. -/
theorem spansBelow_bounds {low : Int} {ranges : List AckRange} {s : Span}
    (hs : s ∈ spansBelow low ranges) : s.low ≤ s.high ∧ s.high + 1 < low := by
  induction ranges generalizing low with
  | nil => cases hs
  | cons r rs ih =>
    rw [spansBelow, List.mem_cons] at hs
    rcases hs with rfl | hs
    · dsimp only
      omega
    · have hrest := ih hs
      omega

theorem pairwise_spansBelow (low : Int) (ranges : List AckRange) :
    (spansBelow low ranges).Pairwise fun s t => t.high + 1 < s.low := by
  induction ranges generalizing low with
  | nil => exact .nil
  | cons r rs ih => exact .cons (fun _ ht => (spansBelow_bounds ht).2) (ih _)

theorem spans_bounds {a : Ack} {s : Span} (hs : s ∈ a.spans) :
    s.low ≤ s.high ∧ s.high ≤ a.largest := by
  rw [spans, List.mem_cons] at hs
  rcases hs with rfl | hs
  · dsimp only
    omega
  · have hbounds := spansBelow_bounds hs
    omega

theorem pairwise_spans (a : Ack) : a.spans.Pairwise fun s t => t.high + 1 < s.low :=
  .cons (fun _ ht => (spansBelow_bounds ht).2) (pairwise_spansBelow _ _)

/-- The number directly below a run is not acknowledged. -/
theorem not_has_below {a : Ack} {s t : Span} (hs : s ∈ a.spans) (ht : t ∈ a.spans) :
    ¬ t.Has (s.low - 1) := by
  have hlower : a.spans.Pairwise fun s t => ¬ t.Has (s.low - 1) := by
    refine a.pairwise_spans.imp fun h hhas => ?_
    have hhigh := hhas.2
    omega
  have hupper : a.spans.Pairwise fun t s => ¬ t.Has (s.low - 1) := by
    refine a.pairwise_spans.imp_of_mem fun _ hs h hhas => ?_
    have hlow := hhas.1
    have hbounds := spans_bounds hs
    omega
  refine List.Pairwise.forall_of_forall_of_flip (fun s _ hhas => ?_) hlower hupper hs ht
  have hlow := hhas.1
  omega

/-- The runs consist of packet numbers. They stand in descending order, and there is a number that
is not acknowledged between two of them. -/
structure Descends (a : Ack) : Prop where
  bounds : ∀ s ∈ a.spans, 0 ≤ s.low ∧ s.low ≤ s.high ∧ s.high ≤ VarInt.max.value
  descending : a.spans.Pairwise fun s t => t.high + 1 < s.low
  disjoint : a.spans.Pairwise fun s t => ∀ n, ¬ (s.Has n ∧ t.Has n)
  /-- The number directly below a run. -/
  missing : ∀ s ∈ a.spans, ∀ t ∈ a.spans, ¬ t.Has (s.low - 1)

/-- Runs that descend from a packet number consist of packet numbers as long as they stay above
zero. -/
theorem descends_of_nonneg {a : Ack} (hlargest : FitsVarInt a.largest)
    (hnonneg : ∀ s ∈ a.spans, 0 ≤ s.low) : a.Descends where
  bounds := by
    intro s hs
    have hbounds := spans_bounds hs
    have hmax : a.largest ≤ VarInt.max.value := Nat.le_of_lt_succ hlargest
    exact ⟨hnonneg s hs, hbounds.1, by omega⟩
  descending := a.pairwise_spans
  disjoint := by
    refine a.pairwise_spans.imp fun h n hboth => ?_
    obtain ⟨⟨hlow, _⟩, _, hhigh⟩ := hboth
    omega
  missing := fun _ hs _ ht => not_has_below hs ht

/-- What is said about the first run that goes below zero. -/
def complaint (a : Ack) (s : Span) : String :=
  if s.high = a.largest then "first ACK range exceeds largest acknowledged"
  else if s.high < 0 then "ACK gap below zero"
  else "ACK range below zero"

end Ack

namespace Frame

open QuicTransport.Field (Opens)

variable {a : Ack} {bs rest : Bytes}

/-! ## What the reader refuses -/

/-- The reader counts as `Ack.spans` does. -/
theorem rangesRefusal?_eq (smallest : Nat) (ranges : List AckRange) :
    rangesRefusal? smallest ranges =
      ((Ack.spansBelow smallest ranges).find? fun s => s.low < 0).map fun s =>
        if s.high < 0 then "ACK gap below zero" else "ACK range below zero" := by
  induction ranges generalizing smallest with
  | nil => rfl
  | cons r rs ih =>
    rw [rangesRefusal?, Ack.spansBelow]
    by_cases hgap : smallest < r.gap + 2
    · have hlow : (smallest : Int) - r.gap - 2 - r.length < 0 := by omega
      have hhigh : (smallest : Int) - r.gap - 2 < 0 := by omega
      simp [hgap, hlow, hhigh]
    · by_cases hlength : smallest - r.gap - 2 < r.length
      · have hlow : (smallest : Int) - r.gap - 2 - r.length < 0 := by omega
        have hhigh : ¬ (smallest : Int) - r.gap - 2 < 0 := by omega
        simp [hgap, hlength, hlow, hhigh]
      · have hlow : ¬ (smallest : Int) - r.gap - 2 - r.length < 0 := by omega
        have hcast : (smallest : Int) - r.gap - 2 - r.length =
            ((smallest - r.gap - 2 - r.length : Nat) : Int) := by
          omega
        rw [if_neg hgap, if_neg hlength, List.find?_cons_of_neg (by simpa using hlow), ih, hcast]

theorem readAck_eq_error_of_first (hfirst : a.largest < a.firstRange)
    (hopens : Opens a.layout bs rest) :
    readAck a.ecn.isSome bs =
      .error (.frameEncoding "first ACK range exceeds largest acknowledged") := by
  simp only [Ack.layout, List.cons_append, List.nil_append] at hopens
  obtain ⟨_, hlargest, hopens⟩ := readNumber_of_opens hopens "ACK largest acknowledged"
  obtain ⟨_, hdelay, hopens⟩ := readNumber_of_opens hopens "ACK delay"
  obtain ⟨_, hcount, hopens⟩ := readNumber_of_opens hopens "ACK range count"
  obtain ⟨_, hrange, hopens⟩ := readNumber_of_opens hopens "ACK first range"
  rw [readAck, Reader.bind_of_eq_ok hlargest, Reader.bind_of_eq_ok hdelay,
    Reader.bind_of_eq_ok hcount, Reader.bind_of_eq_ok hrange,
    decide_eq_false (Nat.not_le_of_lt hfirst)]
  rfl

/-- What is wrong with an acknowledgement is wrong with the frame. -/
theorem decode_ack_eq_error {what : String} (hopens : Opens (Frame.ack a).layout bs rest)
    (h : ∀ body, Opens a.layout body rest →
      readAck a.ecn.isSome body = .error (.frameEncoding what)) :
    decode bs = .error (.frameEncoding what) := by
  rw [layout_of_isPadding_eq_false rfl] at hopens
  obtain ⟨body, htype, hbody⟩ := readNumber_of_opens hopens "truncated frame type"
  have hpos : 0 < (Frame.ack a).typeNumber := (typeNumber_bounds rfl rfl).1
  refine (Reader.bind_of_eq_ok htype).trans ?_
  rw [if_neg (Nat.ne_of_gt hpos), readBody_ack]
  exact Reader.bind_of_eq_error (h body hbody)

/-- If its fields are there, an acknowledgement is read unless one of its runs goes below zero. The
first of these is what the reader complains about. -/
theorem decode_ack_of_opens (hopens : Opens (Frame.ack a).layout bs rest) :
    decode bs = match a.spans.find? fun s => s.low < 0 with
      | none => .ok (.ack a, rest)
      | some s => .error (.frameEncoding (a.complaint s)) := by
  by_cases hfirst : a.largest < a.firstRange
  · have hbelow : (a.largest : Int) - a.firstRange < 0 := by omega
    have hfind : (a.spans.find? fun s => s.low < 0) =
        some ⟨a.largest - a.firstRange, a.largest⟩ := by
      rw [Ack.spans, List.find?_cons_of_pos (by simpa using hbelow)]
    have htext : a.complaint ⟨a.largest - a.firstRange, a.largest⟩ =
        "first ACK range exceeds largest acknowledged" := if_pos rfl
    rw [hfind]
    dsimp only
    rw [htext]
    exact decode_ack_eq_error hopens fun _ => readAck_eq_error_of_first hfirst
  · have habove : ¬ (a.largest : Int) - a.firstRange < 0 := by omega
    have hcast : (a.largest : Int) - a.firstRange = ((a.largest - a.firstRange : Nat) : Int) := by
      omega
    have hfind : (a.spans.find? fun s => s.low < 0) =
        (Ack.spansBelow (a.largest - a.firstRange : Nat) a.ranges).find? fun s => s.low < 0 := by
      rw [Ack.spans, List.find?_cons_of_neg (by simpa using habove), hcast]
    have hrefusal := rangesRefusal?_eq (a.largest - a.firstRange) a.ranges
    rw [hfind]
    cases hbelow : (Ack.spansBelow (a.largest - a.firstRange : Nat) a.ranges).find?
        fun s => s.low < 0 with
    | none =>
      rw [hbelow] at hrefusal
      have hvalid : (Frame.ack a).WireValid :=
        wireValid_of_opens rfl rfl (if_neg hfirst) hrefusal hopens
      exact (decode_eq_ok_iff rfl).2 ⟨hvalid, rfl, hopens, nofun⟩
    | some s =>
      rw [hbelow] at hrefusal
      have hbounds := Ack.spansBelow_bounds (List.mem_of_find?_eq_some hbelow)
      have hother : s.high ≠ a.largest := by omega
      have htext : a.complaint s =
          if s.high < 0 then "ACK gap below zero" else "ACK range below zero" := if_neg hother
      dsimp only
      rw [htext]
      exact decode_ack_eq_error hopens fun _ =>
        readAck_eq_error (Nat.le_of_not_lt hfirst) hrefusal

/-! ## What the reader accepts -/

/-- How many further ranges the bytes announce: the third number behind the type. -/
def Announces (bs : Bytes) (count : Nat) : Prop :=
  ∃ type largest delay after,
    Opens [.number type, .number largest, .number delay, .number count] bs after

/-- There is only one number at the front. -/
theorem number_unique {m n : Nat} {fields more : List Field} {after : Bytes}
    (h : Opens (.number m :: fields) bs rest) (h' : Opens (.number n :: more) bs after) :
    m = n ∧ ∃ middle, Opens fields middle rest ∧ Opens more middle after := by
  obtain ⟨middle, hread, hfields⟩ := readNumber_of_opens h "number"
  obtain ⟨middle', hread', hmore⟩ := readNumber_of_opens h' "number"
  rw [hread] at hread'
  injection hread' with hsame
  injection hsame with hnumber hmiddle
  subst hmiddle
  exact ⟨hnumber, middle, hfields, hmore⟩

/-- As many ranges are announced as there are. -/
theorem announces_iff (hopens : Opens (Frame.ack a).layout bs rest) (count : Nat) :
    Announces bs count ↔ count = a.ranges.length := by
  rw [layout_of_isPadding_eq_false rfl, body, Ack.layout, List.append_assoc] at hopens
  constructor
  · rintro ⟨type, largest, delay, after, h⟩
    obtain ⟨_, _, h, hopens⟩ := number_unique h hopens
    obtain ⟨_, _, h, hopens⟩ := number_unique h hopens
    obtain ⟨_, _, h, hopens⟩ := number_unique h hopens
    exact (number_unique h hopens).1
  · rintro rfl
    change Opens ([_, _, _, _] ++ _) bs rest at hopens
    obtain ⟨after, hfront, _⟩ := Opens.of_append hopens
    exact ⟨_, _, _, after, hfront⟩

/-- Every range takes two bytes at least, and those in front of the first take more. -/
theorem two_mul_length_spans_le (hopens : Opens (Frame.ack a).layout bs rest) :
    2 * a.spans.length + rest.length ≤ bs.length := by
  obtain ⟨e, he, hle, _⟩ := hopens.exists_encodeAll
  have hlength := Field.length_of_encodeAll he
  rw [layout_of_isPadding_eq_false rfl, body, Ack.layout, List.append_assoc] at hlength
  simp only [List.cons_append, List.nil_append, List.foldr_cons] at hlength
  have htype : 0 < (Field.number (Frame.ack a).typeNumber).length := lengthOf_pos _
  have hlargest : 0 < (Field.number a.largest).length := lengthOf_pos _
  have hranges := two_mul_length_le a.ranges ((a.ecn.map EcnCounts.layout).getD [])
  rw [a.length_spans]
  omega

/-- Acknowledgements that are read acknowledge packet numbers: their runs lie between zero and the
largest packet number and descend with gaps in between, there are as many as announced behind the
first, and each of them took two bytes or more. All acknowledgements whose fields are there, with or
without congestion counts, are read unless one of their runs goes below zero. -/
theorem decode_ack_spans (bs rest : Bytes) (a : Ack) :
    (decode bs = .ok (.ack a, rest) →
      a.Descends ∧ a.spans.length = a.ranges.length + 1
        ∧ (∀ count, Announces bs count ↔ count = a.ranges.length)
        ∧ 2 * a.spans.length + rest.length ≤ bs.length)
      ∧ (Opens (Frame.ack a).layout bs rest →
        decode bs = match a.spans.find? fun s => s.low < 0 with
          | none => .ok (.ack a, rest)
          | some s => .error (.frameEncoding (a.complaint s))) := by
  refine ⟨fun h => ?_, decode_ack_of_opens⟩
  obtain ⟨hvalid, _, hopens, _⟩ := (decode_eq_ok_iff rfl).1 h
  refine ⟨Ack.descends_of_nonneg hvalid.1 ?_, a.length_spans, announces_iff hopens,
    two_mul_length_spans_le hopens⟩
  rw [decode_ack_of_opens hopens] at h
  cases hfind : a.spans.find? fun s => s.low < 0 with
  | none => simpa using hfind
  | some s =>
    rw [hfind] at h
    cases h

/-- Three runs with a PING behind them, and congestion counts behind a run that would end at minus
three. -/
theorem decode_ack_spans_three :
    ∃ a, decode [0x02, 10, 0, 2, 1, 0, 2, 1, 0, 0x01] = .ok (.ack a, [0x01])
      ∧ a.spans = [⟨9, 10⟩, ⟨5, 7⟩, ⟨2, 2⟩] ∧ a.Descends
      ∧ Announces [0x02, 10, 0, 2, 1, 0, 2, 1, 0, 0x01] 2
      ∧ decode [0x03, 10, 0, 2, 1, 0, 2, 1, 5, 7, 8, 9] =
        .error (.frameEncoding "ACK range below zero") := by
  have hread : decode [0x02, 10, 0, 2, 1, 0, 2, 1, 0, 0x01] = .ok (.ack
      { largest := 10, delay := 0, firstRange := 1, ranges := [⟨0, 2⟩, ⟨1, 0⟩], ecn := none },
      [0x01]) := rfl
  have hwritten : Field.encodeAll (Frame.ack
      { largest := 10, delay := 0, firstRange := 1, ranges := [⟨0, 2⟩, ⟨1, 5⟩],
        ecn := some ⟨7, 8, 9⟩ }).layout = .ok [0x03, 10, 0, 2, 1, 0, 2, 1, 5, 7, 8, 9] := rfl
  have hfields := Opens.of_encodeAll hwritten []
  obtain ⟨hdescends, _, hcount, _⟩ := (decode_ack_spans _ _ _).1 hread
  exact ⟨_, hread, by decide, hdescends, (hcount 2).2 rfl, (decode_ack_spans _ _ _).2 hfields⟩

end Frame

end QuicTransport
