import QuicTransport.Proofs.HeaderGrammar

set_option autoImplicit false

/-! # A datagram is split where its packets end

A datagram can be split exactly if it is a row of segments, where only the last may reach to the end
without saying so (`Datagram.split_eq_ok`). The packets that come out are those that the segments
spell out, one for each, except that nothing comes of a 0-RTT packet.

So the packets of a datagram have nothing to do with each other. Each is what would have been found
if its bytes had come alone, and a row of packets that all tell where they end may be put in front
of anything. -/

namespace QuicTransport.Datagram

variable {config : Config}

theorem split_nil (config : Config) : split config [] = .ok [] := by
  rw [split]

/-- The packets of a datagram are the first one and those in what is left. -/
theorem split_of_readPacket {config : Config} {whole rest : Bytes} {item : Option Item}
    (h : readPacket config whole = .ok (item, rest)) :
    split config whole = (split config rest).map (item.toList ++ ·) := by
  cases whole with
  | nil => cases h
  | cons b bs =>
    rw [split]
    split
    · next found after hfound =>
      rw [h] at hfound
      cases hfound
      rfl
    · next e herror =>
      rw [h] at herror
      cases herror

/-- A packet that cannot be read spoils all that starts with it. -/
theorem split_of_readPacket_error {whole : Bytes} {e : Error} (hwhole : whole ≠ [])
    (h : readPacket config whole = .error e) : split config whole = .error e := by
  cases whole with
  | nil => exact absurd rfl hwhole
  | cons b bs =>
    rw [split]
    split
    · next item rest hitem =>
      rw [h] at hitem
      cases hitem
    · next e' herror =>
      rw [h] at herror
      cases herror
      rfl

/-! ## Segments -/

namespace Segment

theorem bytes_ne_nil (s : Segment config) : s.bytes ≠ [] := by
  cases s <;> exact List.cons_ne_nil _ _

/-- What comes of the packet, as a list of one or none. -/
def items (s : Segment config) : List Item := s.item?.toList

/-- A segment on its own holds what it spells out. -/
theorem split_bytes (s : Segment config) : split config s.bytes = .ok s.items := by
  have hread := readPacket_bytes s [] (Or.inr rfl)
  rw [List.append_nil] at hread
  rw [split_of_readPacket hread, split_nil]
  exact congrArg Except.ok (List.append_nil _)

/-- What a segment has to do with what comes of it. -/
structure StandsAlone (s : Segment config) : Prop where
  bytes_ne_nil : s.bytes ≠ []
  /-- The rest of the datagram plays no role. -/
  split_bytes : split config s.bytes = .ok s.items
  length_items_le : s.items.length ≤ 1
  items_eq_nil_iff : s.items = [] ↔ s.isSkipped = true
  /-- A packet is found whole, and its number is inside. -/
  packet : ∀ q, .packet q ∈ s.items → q.bytes = s.bytes ∧ q.numberOffset ≤ s.bytes.length
  /-- Only packets of two kinds do not tell where they end. -/
  isDelimited_eq_false_iff : s.isDelimited = false ↔
    (∃ q, s.items = [.packet q] ∧ q.type = .oneRtt) ∨ ∃ v, s.items = [.negotiation v]

theorem standsAlone_short (s : ShortSegment config) : (short s).StandsAlone where
  bytes_ne_nil := bytes_ne_nil _
  split_bytes := split_bytes _
  length_items_le := Nat.le_refl 1
  items_eq_nil_iff := iff_of_false nofun nofun
  packet := by
    intro q hq
    obtain ⟨rfl⟩ := List.mem_singleton.1 hq
    refine ⟨rfl, ?_⟩
    change 1 + s.dcid.length ≤ (s.first :: s.dcid.bytes ++ s.body).length
    rw [List.length_append, List.length_cons, ConnectionId.length]
    omega
  isDelimited_eq_false_iff := iff_of_true rfl (Or.inl ⟨s.packet, rfl, rfl⟩)

theorem standsAlone_negotiation (s : NegotiationSegment config) :
    (negotiation s).StandsAlone where
  bytes_ne_nil := bytes_ne_nil _
  split_bytes := split_bytes _
  length_items_le := Nat.le_refl 1
  items_eq_nil_iff := iff_of_false nofun nofun
  packet := by
    intro q hq
    cases List.mem_singleton.1 hq
  isDelimited_eq_false_iff := iff_of_true rfl (Or.inr ⟨s.packet, rfl⟩)

theorem items_long_of_zeroRtt {s : LongSegment config} (h : s.type = .zeroRtt) :
    (long s).items = [] := by
  rw [items, item?, if_pos h]
  rfl

theorem items_long {s : LongSegment config} (h : s.type ≠ .zeroRtt) :
    (long s).items = [.packet s.packet] := by
  rw [items, item?, if_neg h]
  rfl

theorem standsAlone_long (s : LongSegment config) : (long s).StandsAlone where
  bytes_ne_nil := bytes_ne_nil _
  split_bytes := split_bytes _
  length_items_le := Option.length_toList_le
  items_eq_nil_iff := by
    by_cases h : s.type = .zeroRtt
    · simp [items_long_of_zeroRtt h, isSkipped, h]
    · simp [items_long h, isSkipped, h]
  packet := by
    intro q hq
    by_cases h : s.type = .zeroRtt
    · rw [items_long_of_zeroRtt h] at hq
      cases hq
    · rw [items_long h] at hq
      obtain ⟨rfl⟩ := List.mem_singleton.1 hq
      refine ⟨rfl, ?_⟩
      change s.header.length ≤ (s.header ++ s.body).length
      rw [List.length_append]
      exact Nat.le_add_right _ _
  isDelimited_eq_false_iff := by
    refine iff_of_false nofun ?_
    by_cases h : s.type = .zeroRtt
    · simp [items_long_of_zeroRtt h]
    · rw [items_long h]
      rintro (⟨q, hq, hshort⟩ | ⟨v, hv⟩)
      · injection hq with hq
        injection hq with hq
        subst hq
        rcases s.type_cases with htype | htype | htype <;> cases htype.symm.trans hshort
      · cases hv

theorem standsAlone (s : Segment config) : s.StandsAlone := by
  cases s with
  | short s => exact standsAlone_short s
  | negotiation s => exact standsAlone_negotiation s
  | long s => exact standsAlone_long s

end Segment

/-- The segments are a way to cut the datagram. Only the last may reach to the end without saying
so. -/
structure IsCut (segments : List (Segment config)) (datagram : Bytes) : Prop where
  bytes : segments.flatMap Segment.bytes = datagram
  isDelimited : ∀ s ∈ segments.dropLast, s.isDelimited = true

theorem isCut_nil_iff {datagram : Bytes} :
    IsCut ([] : List (Segment config)) datagram ↔ datagram = [] :=
  ⟨fun h => h.bytes.symm, fun h => ⟨h.symm, nofun⟩⟩

/-- Behind the first segment the rest of the datagram is cut. -/
theorem isCut_cons_iff {s : Segment config} {segments : List (Segment config)} {datagram : Bytes} :
    IsCut (s :: segments) datagram ↔
      ∃ rest, datagram = s.bytes ++ rest ∧ (s.isDelimited = true ∨ rest = [])
        ∧ IsCut segments rest := by
  cases segments with
  | nil =>
    constructor
    · rintro ⟨rfl, _⟩
      exact ⟨[], rfl, Or.inr rfl, isCut_nil_iff.2 rfl⟩
    · rintro ⟨rest, rfl, _, hrest⟩
      obtain rfl := isCut_nil_iff.1 hrest
      exact ⟨rfl, nofun⟩
  | cons t segments =>
    constructor
    · rintro ⟨rfl, hdelimited⟩
      rw [List.dropLast_cons_cons, List.forall_mem_cons] at hdelimited
      exact ⟨_, rfl, Or.inl hdelimited.1, rfl, hdelimited.2⟩
    · rintro ⟨rest, rfl, hs, hbytes, hdelimited⟩
      -- the second segment has bytes, so there is something behind the first
      have hrest : rest ≠ [] := by
        rw [← hbytes, List.flatMap_cons]
        exact List.append_ne_nil_of_left_ne_nil t.bytes_ne_nil _
      refine ⟨congrArg (s.bytes ++ ·) hbytes, ?_⟩
      rw [List.dropLast_cons_cons, List.forall_mem_cons]
      exact ⟨hs.resolve_right hrest, hdelimited⟩

theorem IsCut.split {segments : List (Segment config)} {datagram : Bytes}
    (h : IsCut segments datagram) :
    split config datagram = .ok (segments.flatMap Segment.items) := by
  induction segments generalizing datagram with
  | nil =>
    obtain rfl := isCut_nil_iff.1 h
    exact split_nil config
  | cons s segments ih =>
    obtain ⟨rest, rfl, hs, hrest⟩ := isCut_cons_iff.1 h
    rw [split_of_readPacket (readPacket_bytes s rest hs), ih hrest]
    rfl

theorem exists_isCut_of_split {datagram : Bytes} {items : List Item}
    (h : split config datagram = .ok items) :
    ∃ segments : List (Segment config), IsCut segments datagram := by
  fun_induction split config datagram generalizing items with
  | case1 => exact ⟨[], isCut_nil_iff.2 rfl⟩
  | case2 b bs item rest hread ih =>
    obtain ⟨s, hbytes, _, hs⟩ := exists_segment_of_readPacket hread
    cases hlater : split config rest with
    | error e =>
      rw [hlater] at h
      cases h
    | ok later =>
      obtain ⟨segments, hsegments⟩ := ih hlater
      exact ⟨s :: segments, isCut_cons_iff.2 ⟨rest, hbytes, hs, hsegments⟩⟩
  | case3 b bs e hread => cases h

/-- A datagram can be split exactly if it can be cut into segments, and into what they spell out. -/
theorem split_eq_ok {datagram : Bytes} {items : List Item} :
    split config datagram = .ok items ↔
      ∃ segments : List (Segment config), IsCut segments datagram
        ∧ segments.flatMap Segment.items = items := by
  constructor
  · intro h
    obtain ⟨segments, hcut⟩ := exists_isCut_of_split h
    exact ⟨segments, hcut, Except.ok.inj (hcut.split.symm.trans h)⟩
  · rintro ⟨segments, hcut, rfl⟩
    exact hcut.split

/-- Segments that all tell where they end can stand in front of anything. -/
theorem split_flatMap_append {segments : List (Segment config)}
    (h : ∀ s ∈ segments, s.isDelimited = true) (rest : Bytes) :
    split config (segments.flatMap Segment.bytes ++ rest) =
      (split config rest).map (segments.flatMap Segment.items ++ ·) := by
  induction segments with
  | nil => cases hrest : split config rest <;> rw [List.flatMap_nil, List.nil_append, hrest] <;> rfl
  | cons s segments ih =>
    rw [List.forall_mem_cons] at h
    rw [List.flatMap_cons, List.append_assoc,
      split_of_readPacket (readPacket_bytes s _ (Or.inl h.1)), ih h.2, List.flatMap_cons]
    cases split config rest with
    | error e => rfl
    | ok items =>
      simp only [Except.map, List.append_assoc]
      rfl

/-- Splitting is compositional. A datagram can be split exactly if it is a row of segments, each of
which can be taken for itself. If all of them tell where they end, then what follows the datagram is
split, or refused, as if it were alone. -/
theorem split_compositional {d₁ : Bytes} {items₁ : List Item} :
    (split config d₁ = .ok items₁ ↔
        ∃ segments : List (Segment config), IsCut segments d₁
          ∧ segments.flatMap Segment.items = items₁ ∧ ∀ s ∈ segments, s.StandsAlone)
      ∧ ∀ segments : List (Segment config), split config d₁ = .ok items₁ →
        segments.flatMap Segment.bytes = d₁ → (∀ s ∈ segments, s.isDelimited = true) → ∀ d₂,
          (∀ items₂, split config d₂ = .ok items₂ →
            split config (d₁ ++ d₂) = .ok (items₁ ++ items₂))
          ∧ ∀ e, split config d₂ = .error e → split config (d₁ ++ d₂) = .error e := by
  constructor
  · rw [split_eq_ok]
    constructor
    · rintro ⟨segments, hcut, hitems⟩
      exact ⟨segments, hcut, hitems, fun s _ => s.standsAlone⟩
    · rintro ⟨segments, hcut, hitems, _⟩
      exact ⟨segments, hcut, hitems⟩
  · rintro segments h rfl hdelimited d₂
    have hcut : IsCut segments (segments.flatMap Segment.bytes) :=
      ⟨rfl, fun s hs => hdelimited s (List.dropLast_subset _ hs)⟩
    have hitems : segments.flatMap Segment.items = items₁ :=
      Except.ok.inj (hcut.split.symm.trans h)
    have happend := split_flatMap_append hdelimited d₂
    rw [hitems] at happend
    constructor
    · intro items₂ h₂
      rw [happend, h₂]
      rfl
    · intro e h₂
      rw [happend, h₂]
      rfl

/-- A 0-RTT packet and a Handshake packet stand in front of a byte that no packet starts with. -/
theorem split_compositional_of_zeroRtt :
    ∃ q : ProtectedPacket, q.type = .handshake ∧ q.bytes = [0xe0, 0, 0, 0, 1, 0, 0, 1, 8]
      ∧ split {} [0xd0, 0, 0, 0, 1, 0, 0, 1, 7, 0xe0, 0, 0, 0, 1, 0, 0, 1, 8] = .ok [.packet q]
      ∧ split {} [0xd0, 0, 0, 0, 1, 0, 0, 1, 7, 0xe0, 0, 0, 0, 1, 0, 0, 1, 8, 0] =
        .error (.malformedPacket "fixed bit not set") := by
  let early : LongSegment {} := ⟨0xd0, .v1, .empty, .empty, .zeroRtt, [], [], [1], [7], by decide,
    by decide, by decide, rfl, by decide, by decide, ⟨rfl, rfl⟩, ⟨.one, by decide, by decide⟩⟩
  let late : LongSegment {} := ⟨0xe0, .v1, .empty, .empty, .handshake, [], [], [1], [8], by decide,
    by decide, by decide, rfl, by decide, by decide, ⟨rfl, rfl⟩, ⟨.one, by decide, by decide⟩⟩
  have hdelimited : ∀ s ∈ [Segment.long early, .long late], s.isDelimited = true := by
    simp [Segment.isDelimited]
  have hsplit : split {} [0xd0, 0, 0, 0, 1, 0, 0, 1, 7, 0xe0, 0, 0, 0, 1, 0, 0, 1, 8] =
      .ok [.packet late.packet] :=
    split_compositional.1.2 ⟨[.long early, .long late],
      ⟨by decide, fun s hs => hdelimited s (List.dropLast_subset _ hs)⟩, rfl,
      fun s _ => s.standsAlone⟩
  have hbehind : split {} [0] = .error (.malformedPacket "fixed bit not set") :=
    split_of_readPacket_error (List.cons_ne_nil _ _) rfl
  have hmore := split_compositional.2 [.long early, .long late] hsplit (by decide) hdelimited [0]
  exact ⟨late.packet, rfl, by decide, hsplit, hmore.2 _ hbehind⟩

/-! ## One packet -/

/-- A byte string is found as one packet exactly if it is written as one: behind a short header, or
as an Initial or Handshake packet whose fields are on the wire one after the other. -/
theorem split_eq_single_iff {b : Bytes} {q : ProtectedPacket} :
    split config b = .ok [.packet q] ∧ q.bytes = b ↔
      (∃ s : ShortSegment config, s.bytes = b ∧ s.packet = q)
        ∨ ∃ s : LongSegment config, (s.type = .initial ∨ s.type = .handshake)
          ∧ s.bytes = b ∧ s.packet = q := by
  constructor
  · rintro ⟨hsplit, hq⟩
    obtain ⟨segments, hcut, hitems⟩ := split_eq_ok.1 hsplit
    obtain ⟨s, hs, hmem⟩ : ∃ s ∈ segments, .packet q ∈ s.items := by
      rw [← List.mem_flatMap, hitems]
      exact List.mem_singleton_self _
    have hbytes : s.bytes = b := (s.standsAlone.packet q hmem).1.symm.trans hq
    cases s with
    | short s =>
      obtain ⟨rfl⟩ := List.mem_singleton.1 hmem
      exact Or.inl ⟨s, hbytes, rfl⟩
    | negotiation s => cases List.mem_singleton.1 hmem
    | long s =>
      by_cases hearly : s.type = .zeroRtt
      · rw [Segment.items_long_of_zeroRtt hearly] at hmem
        cases hmem
      · rw [Segment.items_long hearly] at hmem
        obtain ⟨rfl⟩ := List.mem_singleton.1 hmem
        exact Or.inr ⟨s, s.type_cases.resolve_left hearly, hbytes, rfl⟩
  · rintro (⟨s, rfl, rfl⟩ | ⟨s, htype, rfl, rfl⟩)
    · exact ⟨(Segment.short s).split_bytes, rfl⟩
    · have hnumbered : s.type ≠ .zeroRtt := by
        intro h
        rcases htype with htype | htype <;> cases htype.symm.trans h
      have halone := (Segment.long s).split_bytes
      rw [Segment.items_long hnumbered] at halone
      exact ⟨halone, rfl⟩

end QuicTransport.Datagram
