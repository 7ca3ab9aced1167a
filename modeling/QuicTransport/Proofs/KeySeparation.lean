import Mathlib.Logic.Basic
import QuicTransport.Protection.Suite

set_option autoImplicit false

/-! # Key separation

Many keys come from one secret, each for a purpose: a label, a context and a length. Whoever knows
the key for one purpose must not have learnt anything about the keys for the others. Next to the
length, the expansion gets to see nothing of a purpose but its description, so two purposes with one
description would share their key material.

No two purposes have one. A description can be taken apart from the front, because each of its parts
either has a fixed length or is behind its own length (`Purpose.description_append_inj`). This
needs a length that fits its field: the fields have one or two bytes, and what is cut off on the
way into them would be lost. What does not fit is refused (`Purpose.info_eq`).

Key material is a row of keyed digests, and every one of them is taken of a text that ends with the
description and a counter. So the purposes are kept apart in what is digested as well
(`HashFunction.messages_apart`). -/

namespace QuicTransport

/-! ## Parts behind their length -/

namespace Bytes

theorem eq_of_ofNat_eq {m n : Nat} (hm : m < 256) (hn : n < 256)
    (h : UInt8.ofNat m = UInt8.ofNat n) : m = n := by
  rw [← UInt8.toNat_ofNat_of_lt' hm, h, UInt8.toNat_ofNat_of_lt' hn]

/-- A byte string behind its length, for which there is one byte. -/
def behindLength (bs : Bytes) : Bytes := UInt8.ofNat bs.length :: bs

/-- What stands behind its length is told from what follows, if the length fits. -/
theorem behindLength_append_inj {a b x y : Bytes} (ha : a.length < 256) (hb : b.length < 256)
    (h : behindLength a ++ x = behindLength b ++ y) : a = b ∧ x = y := by
  rw [behindLength, behindLength, List.cons_append, List.cons_append, List.cons.injEq] at h
  obtain ⟨hbyte, hrest⟩ := h
  exact List.append_inj hrest (eq_of_ofNat_eq ha hb hbyte)

end Bytes

/-! ## Descriptions -/

/-- What key material is derived for. -/
@[ext]
structure Purpose where
  label : Bytes
  context : Bytes
  /-- How much key material there is to be. -/
  length : Nat
deriving DecidableEq, Repr

namespace Purpose

/-- The description of the key material, refused if it cannot be written. -/
def info (p : Purpose) : Result Bytes := labelInfo p.label p.context p.length

/-- There is room for the lengths of all parts. The label shares its field with the mark in front
of it. -/
def Fits (p : Purpose) : Prop :=
  p.length ≤ 65535 ∧ p.label.length ≤ 249 ∧ p.context.length ≤ 255

instance (p : Purpose) : Decidable p.Fits := inferInstanceAs (Decidable (_ ∧ _ ∧ _))

/-- The layout of a description. -/
def description (p : Purpose) : Bytes :=
  Bytes.bigEndian 2 p.length ++ Bytes.behindLength (asciiBytes "tls13 " ++ p.label)
    ++ Bytes.behindLength p.context

theorem length_marked (p : Purpose) :
    (asciiBytes "tls13 " ++ p.label).length = 6 + p.label.length := by
  rw [List.length_append]
  rfl

/-- The description is written if its parts fit, and refused otherwise. -/
theorem info_eq (p : Purpose) : p.info =
    if p.Fits then .ok p.description
    else .error (.crypto (.keyDerivation "HKDF label field too long")) := by
  have hfits : (p.length < UInt16.size ∧ (labelMark ++ p.label).length < UInt8.size
      ∧ p.context.length < UInt8.size) ↔ p.Fits := by
    have hmarked : (labelMark ++ p.label).length = 6 + p.label.length := p.length_marked
    rw [hmarked]
    unfold Fits UInt16.size UInt8.size
    omega
  exact if_congr hfits rfl rfl

example : (⟨asciiBytes "quic key", [], 16⟩ : Purpose).info =
    .ok ([0x00, 0x10, 0x0e] ++ asciiBytes "tls13 quic key" ++ [0x00]) := rfl

theorem info_eq_ok {p : Purpose} {info : Bytes} :
    p.info = .ok info ↔ p.Fits ∧ info = p.description := by
  rw [info_eq]
  split
  · next hfits => rw [Except.ok.injEq, eq_comm, and_iff_right hfits]
  · next hfits => exact iff_of_false nofun fun h => hfits h.1

/-- Two descriptions at the front of the same bytes are one, and they belong to one purpose. -/
theorem description_append_inj {p q : Purpose} (hp : p.Fits) (hq : q.Fits) {x y : Bytes}
    (h : p.description ++ x = q.description ++ y) : p = q ∧ x = y := by
  obtain ⟨hpLength, hpLabel, hpContext⟩ := hp
  obtain ⟨hqLength, hqLabel, hqContext⟩ := hq
  simp only [description, List.append_assoc] at h
  obtain ⟨hnumber, h⟩ := List.append_inj h (by simp only [Bytes.length_bigEndian])
  obtain ⟨hmarked, h⟩ := Bytes.behindLength_append_inj (by rw [length_marked]; omega)
    (by rw [length_marked]; omega) h
  obtain ⟨hcontext, hrest⟩ := Bytes.behindLength_append_inj (by omega) (by omega) h
  have hlabel : p.label = q.label := List.append_cancel_left hmarked
  have hlength : p.length = q.length := by
    have hspan : Bytes.span 2 = 65536 := rfl
    rw [← Bytes.ofBigEndian_bigEndian (show p.length < Bytes.span 2 by omega), hnumber,
      Bytes.ofBigEndian_bigEndian (by omega)]
  exact ⟨Purpose.ext hlabel hcontext hlength, hrest⟩

/-- No description is the beginning of another. -/
theorem info_prefix_iff {p q : Purpose} {info other : Bytes} (hp : p.info = .ok info)
    (hq : q.info = .ok other) : info <+: other ↔ p = q := by
  obtain ⟨hpFits, rfl⟩ := info_eq_ok.1 hp
  obtain ⟨hqFits, rfl⟩ := info_eq_ok.1 hq
  constructor
  · rintro ⟨rest, hrest⟩
    rw [← List.append_nil q.description] at hrest
    exact (description_append_inj hpFits hqFits hrest).1
  · rintro rfl
    exact List.prefix_rfl

theorem info_eq_iff {p q : Purpose} {info other : Bytes} (hp : p.info = .ok info)
    (hq : q.info = .ok other) : info = other ↔ p = q := by
  constructor
  · rintro rfl
    exact (info_prefix_iff hp hq).1 List.prefix_rfl
  · rintro rfl
    exact Except.ok.inj (hp.symm.trans hq)

/-! ## What the expansion is asked -/

/-- Key material for a purpose, by any expansion. The expansion is handed a description and a
length. -/
def materialBy (expand : Bytes → Nat → Result Bytes) (p : Purpose) : Result Bytes := do
  let info ← p.info
  expand info p.length

theorem materialBy_of_info {p : Purpose} {info : Bytes} (h : p.info = .ok info)
    (expand : Bytes → Nat → Result Bytes) : p.materialBy expand = expand info p.length := by
  rw [materialBy, h]
  rfl

theorem expandLabel_eq_materialBy (s : CipherSuite) (secret : Bytes) (p : Purpose) :
    s.expandLabel secret p.label p.context p.length = p.materialBy (s.hash.expand secret) :=
  rfl

/-- What an expansion does with a description, and with no other, makes a difference to the key
material for a purpose. -/
def Asks (p : Purpose) (info : Bytes) : Prop :=
  ∃ f g : Bytes → Nat → Result Bytes,
    (∀ other ≠ info, f other = g other) ∧ p.materialBy f ≠ p.materialBy g

/-- The expansion is asked about the description of the purpose, and about nothing else. -/
theorem asks_iff {p : Purpose} {info : Bytes} : p.Asks info ↔ p.info = .ok info := by
  constructor
  · rintro ⟨f, g, hagree, hdiffer⟩
    cases hinfo : p.info with
    | error e =>
      -- nothing is asked, so nothing can differ
      refine absurd ?_ hdiffer
      rw [materialBy, materialBy, hinfo]
      rfl
    | ok found =>
      rw [materialBy_of_info hinfo, materialBy_of_info hinfo] at hdiffer
      by_cases hsame : found = info
      · rw [hsame]
      · exact absurd (congrFun (hagree found hsame) p.length) hdiffer
  · intro hinfo
    refine ⟨fun _ _ => .ok [], fun other _ => if other = info then .ok [0] else .ok [], ?_, ?_⟩
    · intro other hother
      simp only [if_neg hother]
    · rw [materialBy_of_info hinfo, materialBy_of_info hinfo, if_pos rfl]
      exact nofun

end Purpose

/-! ## What is digested -/

namespace HashFunction

variable {h : HashFunction} {secret info : Bytes}

/-- The texts whose keyed digests are the blocks of key material. -/
def blockMessages (h : HashFunction) (secret info : Bytes) :
    (count counter : Nat) → (previous : Bytes) → List Bytes
  | 0, _, _ => []
  | count + 1, counter, previous =>
    let message := previous ++ info ++ [UInt8.ofNat counter]
    message :: blockMessages h secret info count (counter + 1) (h.keyedDigest secret message)

theorem expandBlocks_eq_flatMap (h : HashFunction) (secret info : Bytes) (count counter : Nat)
    (previous : Bytes) :
    h.expandBlocks secret info count counter previous =
      (h.blockMessages secret info count counter previous).flatMap (h.keyedDigest secret) := by
  induction count generalizing counter previous with
  | zero => rfl
  | succ count ih => rw [expandBlocks, blockMessages, List.flatMap_cons, ih]

/-- How long the digest is that stands in front of the description. There is none in the first
text. -/
def chainLength (h : HashFunction) (counter : Nat) : Nat :=
  if counter = 1 then 0 else h.digestLength

/-- Every text ends with the description and a counter. The counter tells how much there is in
front. -/
theorem exists_of_mem_blockMessages {count counter : Nat} {previous message : Bytes}
    (hcounter : 0 < counter) (hprevious : previous.length = h.chainLength counter)
    (hmem : message ∈ h.blockMessages secret info count counter previous) :
    ∃ i chain, i < counter + count ∧ chain.length = h.chainLength i
      ∧ message = chain ++ info ++ [UInt8.ofNat i] := by
  induction count generalizing counter previous with
  | zero => cases hmem
  | succ count ih =>
    rw [blockMessages, List.mem_cons] at hmem
    rcases hmem with rfl | hlater
    · exact ⟨counter, previous, by omega, hprevious, rfl⟩
    · have hchain : ∀ text, (h.keyedDigest secret text).length = h.chainLength (counter + 1) := by
        intro text
        rw [length_keyedDigest, chainLength, if_neg (by omega)]
      obtain ⟨i, chain, hi, hlength, hmessage⟩ := ih (Nat.succ_pos _) (hchain _) hlater
      exact ⟨i, chain, by omega, hlength, hmessage⟩

/-- The texts that are digested for `length` bytes of key material. -/
def messages (h : HashFunction) (secret info : Bytes) (length : Nat) : List Bytes :=
  h.blockMessages secret info (h.blockCount length) 1 []

/-- One byte is enough for the counter. -/
theorem blockCount_le {length : Nat} (hlimit : length ≤ 255 * h.digestLength) :
    h.blockCount length ≤ 255 := by
  unfold blockCount
  cases hdigest : h.digestLength with
  | zero =>
    rw [Nat.div_zero]
    exact Nat.zero_le _
  | succ d =>
    rw [hdigest] at hlimit
    exact Nat.le_of_lt_succ ((Nat.div_lt_iff_lt_mul (Nat.succ_pos d)).2 (by omega))

theorem expand_eq_ok {length : Nat} {bs : Bytes} :
    h.expand secret info length = .ok bs ↔
      h.digestLength ≤ secret.length ∧ length ≤ 255 * h.digestLength
        ∧ bs = ((h.messages secret info length).flatMap (h.keyedDigest secret)).take length := by
  rw [messages, ← expandBlocks_eq_flatMap, expand]
  split
  · next hshort => exact iff_of_false nofun fun hall => by omega
  · split
    · next hlong => exact iff_of_false nofun fun hall => by omega
    · rw [Except.ok.injEq, eq_comm, and_iff_right (by omega), and_iff_right (by omega)]

/-- What is digested for one description is never digested for another. -/
theorem messages_apart {other : Bytes} {length room : Nat} (hne : info ≠ other)
    (hlength : length ≤ 255 * h.digestLength) (hroom : room ≤ 255 * h.digestLength) :
    ∀ message ∈ h.messages secret info length, message ∉ h.messages secret other room := by
  intro message hmem hmem'
  have hcount := blockCount_le hlength
  have hcount' := blockCount_le hroom
  obtain ⟨i, chain, hi, hchain, rfl⟩ := exists_of_mem_blockMessages Nat.one_pos rfl hmem
  obtain ⟨j, chain', hj, hchain', hsame⟩ := exists_of_mem_blockMessages Nat.one_pos rfl hmem'
  -- the counters agree, so there is as much in front of one description as of the other
  obtain ⟨hfront, hlast⟩ := List.append_inj' hsame rfl
  obtain rfl : i = j :=
    Bytes.eq_of_ofNat_eq (by omega) (by omega) (List.head_eq_of_cons_eq hlast)
  exact hne (List.append_inj hfront (hchain.trans hchain'.symm)).2

end HashFunction

/-! ## Purposes are kept apart -/

/-- What the key material for a purpose is, and which secrets it can be had from. -/
theorem Purpose.expandLabel_eq_ok {s : CipherSuite} {secret info bs : Bytes} {p : Purpose}
    (hinfo : p.info = .ok info) :
    s.expandLabel secret p.label p.context p.length = .ok bs ↔
      s.secretLength ≤ secret.length ∧ p.length ≤ 255 * s.secretLength
        ∧ bs = ((s.hash.messages secret info p.length).flatMap (s.hash.keyedDigest secret)).take
          p.length := by
  rw [expandLabel_eq_materialBy, materialBy_of_info hinfo]
  exact HashFunction.expand_eq_ok

/-- A purpose has a description exactly if the lengths of its parts fit. What two purposes are
described by is equal only if they have the same label, the same context and the same length, and
not even the beginning of a description is another one. So the expansion, which is asked about the
description of the purpose and about nothing else, is never asked about one description for two
purposes. Key material consists of keyed digests under the secret, and none of the texts that are
digested for one purpose is digested for another. -/
theorem Purpose.info_unambiguous :
    (∀ p : Purpose,
        ((∃ info, p.info = .ok info) ↔
          p.length ≤ 65535 ∧ p.label.length ≤ 249 ∧ p.context.length ≤ 255)
        ∧ (p.Fits → p.info = .ok p.description)
        ∧ (¬ p.Fits → p.info = .error (.crypto (.keyDerivation "HKDF label field too long"))))
      ∧ (∀ {p q : Purpose} {info other : Bytes}, p.info = .ok info → q.info = .ok other →
          (info = other ↔ p.label = q.label ∧ p.context = q.context ∧ p.length = q.length)
            ∧ (info <+: other → info = other))
      ∧ (∀ (p : Purpose) (info : Bytes), p.Asks info ↔ p.info = .ok info)
      ∧ (∀ {p q : Purpose}, p ≠ q → ∀ info, ¬ (p.Asks info ∧ q.Asks info))
      ∧ ∀ (s : CipherSuite) (secret : Bytes),
          let material (p : Purpose) := s.expandLabel secret p.label p.context p.length
          let digested (p : Purpose) (info : Bytes) := s.hash.messages secret info p.length
          (∀ p, material p = p.materialBy (s.hash.expand secret))
          ∧ (∀ {p : Purpose} {info bs : Bytes}, p.info = .ok info →
              (material p = .ok bs ↔ s.secretLength ≤ secret.length
                ∧ p.length ≤ 255 * s.secretLength
                ∧ bs = ((digested p info).flatMap (s.hash.keyedDigest secret)).take p.length))
          ∧ ∀ {p q : Purpose} {info other : Bytes}, p ≠ q → p.info = .ok info →
              q.info = .ok other → (∃ bs, material p = .ok bs) → (∃ bs, material q = .ok bs) →
              ∀ message ∈ digested p info, message ∉ digested q other := by
  refine ⟨fun p => ⟨?_, fun hfits => info_eq_ok.2 ⟨hfits, rfl⟩,
      fun hfits => by rw [info_eq, if_neg hfits]⟩, ?_, fun p info => asks_iff, ?_,
    fun s secret => ⟨expandLabel_eq_materialBy s secret, expandLabel_eq_ok, ?_⟩⟩
  · simp only [info_eq_ok, exists_and_left, exists_eq, and_true]
    rfl
  · intro p q info other hp hq
    rw [info_eq_iff hp hq, info_prefix_iff hp hq]
    exact ⟨Purpose.ext_iff, id⟩
  · rintro p q hne info ⟨hp, hq⟩
    exact hne ((info_eq_iff (asks_iff.1 hp) (asks_iff.1 hq)).1 rfl)
  · rintro p q info other hne hp hq ⟨a, ha⟩ ⟨b, hb⟩
    obtain ⟨_, hpLimit, _⟩ := (expandLabel_eq_ok hp).1 ha
    obtain ⟨_, hqLimit, _⟩ := (expandLabel_eq_ok hq).1 hb
    exact HashFunction.messages_apart (mt (info_eq_iff hp hq).1 hne) hpLimit hqLimit

/-- In two purposes the last byte of the label and the length of the context have changed places.
The descriptions differ in the length of the label only, and that is enough. -/
theorem Purpose.info_unambiguous_shifted :
    let p : Purpose := ⟨[0x78], [0], 16⟩
    let q : Purpose := ⟨[0x78, 1], [], 16⟩
    let s := CipherSuite.aes128GcmSha256
    let secret : Bytes := List.replicate 32 7
    (⟨List.replicate 250 0x78, [], 16⟩ : Purpose).info =
        .error (.crypto (.keyDerivation "HKDF label field too long"))
      ∧ ∃ info other a b, p.info = .ok info ∧ q.info = .ok other ∧ info ≠ other
        ∧ info.drop 3 = other.drop 3 ∧ ¬ info <+: other ∧ p.Asks info ∧ ¬ q.Asks info
        ∧ s.expandLabel secret p.label p.context p.length = .ok a
        ∧ s.expandLabel secret q.label q.context q.length = .ok b
        ∧ ∀ message ∈ s.hash.messages secret info p.length,
          message ∉ s.hash.messages secret other q.length := by
  intro p q s secret
  obtain ⟨hwritten, hequal, hasks, hapart, hexpand⟩ := Purpose.info_unambiguous
  obtain ⟨_, hmaterial, hdigested⟩ := hexpand s secret
  obtain ⟨info, hp⟩ := (hwritten p).1.2 (by decide)
  obtain ⟨other, hq⟩ := (hwritten q).1.2 (by decide)
  have hlong : ¬ (⟨List.replicate 250 0x78, [], 16⟩ : Purpose).Fits := by
    rintro ⟨_, hlabel, _⟩
    rw [List.length_replicate] at hlabel
    omega
  have hne : p ≠ q := by decide
  have hdiffer : info ≠ other := fun h => absurd ((hequal hp hq).1.1 h).1 (by decide)
  have ha := (hmaterial hp).2 ⟨by decide, by decide, rfl⟩
  have hb := (hmaterial hq).2 ⟨by decide, by decide, rfl⟩
  refine ⟨(hwritten _).2.2 hlong, info, other, _, _, hp, hq, hdiffer, ?_,
    mt (hequal hp hq).2 hdiffer, (hasks p info).2 hp, ?_, ha, hb,
    hdigested hne hp hq ⟨_, ha⟩ ⟨_, hb⟩⟩
  · cases hp
    cases hq
    rfl
  · exact fun h => hapart hne info ⟨(hasks p info).2 hp, h⟩

end QuicTransport
