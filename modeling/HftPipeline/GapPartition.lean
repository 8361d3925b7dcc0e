import HftPipeline.MarketDataHandler

/-!
# What the gap detector asks for

The detector keeps one number. Over a whole history of packets, that is enough for the
numbers it asks for and the numbers that moved it forward to divide `1, …, m` between them.
-/
namespace HftPipeline

/-- One call of `has_gap`: the packet, the most recent number before and after, and the request. -/
structure Detection where
  packetId : UInt64
  before : UInt64
  request : Option RetransmitRequest
  after : UInt64
  deriving DecidableEq, Repr

/-- The detector and its calls so far. -/
structure DetectorHistory where
  detector : GapDetector
  detections : List Detection

/-- The number is in the range, whose upper end is exclusive. -/
def RetransmitRequest.Covers (request : RetransmitRequest) (id : UInt64) : Prop :=
  request.firstPacket ≤ id ∧ id < request.lastPacket

instance (request : RetransmitRequest) : DecidablePred request.Covers :=
  fun _ => inferInstanceAs (Decidable (_ ∧ _))

namespace DetectorHistory

def init : DetectorHistory := ⟨.init, []⟩

def receive (h : DetectorHistory) (header : MessageHeader) : DetectorHistory :=
  let (request, detector) := h.detector.hasGap header
  ⟨detector, h.detections ++
    [⟨header.sequenceNumber, h.detector.mostRecentPacketId, request, detector.mostRecentPacketId⟩]⟩

def run (h : DetectorHistory) (headers : List MessageHeader) : DetectorHistory := headers.foldl receive h

def requests (h : DetectorHistory) : List RetransmitRequest := h.detections.filterMap Detection.request

/-- A packet with this number moved the most recent number forward to it. -/
def Advanced (h : DetectorHistory) (id : UInt64) : Prop :=
  ∃ d ∈ h.detections, d.packetId = id ∧ d.before < id ∧ d.after = id

instance (h : DetectorHistory) : DecidablePred h.Advanced :=
  fun _ => inferInstanceAs (Decidable (∃ _ ∈ _, _))

/-- In how many of the requests the number is. -/
def timesRequested (h : DetectorHistory) (id : UInt64) : Nat := h.requests.countP fun q => q.Covers id

/-- The requests and the packets that moved the detector divide the numbers up to the most
recent one. -/
structure Divides (h : DetectorHistory) : Prop where
  nonempty : ∀ q ∈ h.requests, q.firstPacket < q.lastPacket
  disjoint : h.requests.Pairwise fun q q' => ∀ id, ¬(q.Covers id ∧ q'.Covers id)
  below : ∀ q ∈ h.requests, ∀ id, q.Covers id → id < h.detector.mostRecentPacketId
  reached : ∀ id, h.Advanced id → id ≤ h.detector.mostRecentPacketId
  divided : ∀ id, 1 ≤ id → id ≤ h.detector.mostRecentPacketId →
    (h.timesRequested id = 1 ∧ ¬ h.Advanced id) ∨ (h.timesRequested id = 0 ∧ h.Advanced id)

variable {h : DetectorHistory}

theorem divides_init : init.Divides where
  nonempty := by simp [init, requests]
  disjoint := by simp [init, requests]
  below := by simp [init, requests]
  reached := by simp [init, Advanced]
  divided := by
    intro id hone hle
    have hzero : init.detector.mostRecentPacketId = 0 := rfl
    rw [hzero] at hle
    exact absurd (UInt64.le_trans hone hle) (by decide)

/-! ## One packet -/

theorem requests_receive (h : DetectorHistory) (header : MessageHeader) :
    (h.receive header).requests = h.requests ++ (h.detector.hasGap header).1.toList := by
  cases hrequest : (h.detector.hasGap header).1 <;>
    simp [receive, requests, List.filterMap_append, hrequest]

theorem advanced_receive (h : DetectorHistory) (header : MessageHeader) (id : UInt64) :
    (h.receive header).Advanced id ↔ h.Advanced id ∨
      header.sequenceNumber = id ∧ h.detector.mostRecentPacketId < id ∧
        (h.detector.hasGap header).2.mostRecentPacketId = id := by
  simp [receive, Advanced, or_and_right, exists_or]

/-- A number beyond the most recent one has not come up. -/
theorem Divides.beyond (hd : h.Divides) {id : UInt64} (hid : h.detector.mostRecentPacketId < id) :
    h.timesRequested id = 0 ∧ ¬ h.Advanced id := by
  constructor
  · rw [timesRequested, List.countP_eq_zero]
    intro q hq hcovers
    exact UInt64.lt_asymm (hd.below q hq id (by simpa using hcovers)) hid
  · intro hadvanced
    exact UInt64.not_lt.mpr (hd.reached id hadvanced) hid

/-- A packet that is not new changes neither the requests nor what has advanced. -/
theorem Divides.old (hd : h.Divides) {header : MessageHeader}
    (hsame : h.detector.hasGap header = (none, h.detector)) : (h.receive header).Divides := by
  have hrequests : (h.receive header).requests = h.requests := by
    rw [requests_receive, hsame]
    exact List.append_nil _
  have hrecent : (h.receive header).detector = h.detector := by rw [receive, hsame]
  have hadvanced : ∀ id, (h.receive header).Advanced id ↔ h.Advanced id := by
    intro id
    rw [advanced_receive, hsame]
    refine or_iff_left ?_
    rintro ⟨-, hlt, heq⟩
    exact UInt64.lt_irrefl _ (heq ▸ hlt)
  constructor
  · rw [hrequests]; exact hd.nonempty
  · rw [hrequests]; exact hd.disjoint
  · rw [hrequests, hrecent]; exact hd.below
  · intro id hid
    rw [hrecent]
    exact hd.reached id ((hadvanced id).mp hid)
  · intro id hone hle
    rw [hrecent] at hle
    rw [timesRequested, hrequests, hadvanced]
    exact hd.divided id hone hle

/-! A new packet moves the detector to its number; what lies between is asked for. -/

section

variable {header : MessageHeader} {request : Option RetransmitRequest}
  (hnew : h.detector.mostRecentPacketId < header.sequenceNumber)
  (hgap : h.detector.hasGap header = (request, ⟨header.sequenceNumber⟩))
  (hcovers : ∀ id, (∃ q ∈ request, q.Covers id) ↔
    h.detector.mostRecentPacketId < id ∧ id < header.sequenceNumber)

include hnew hgap in
theorem advanced_new (id : UInt64) :
    (h.receive header).Advanced id ↔ h.Advanced id ∨ id = header.sequenceNumber := by
  rw [advanced_receive, hgap]
  refine or_congr_right ?_
  constructor
  · rintro ⟨heq, -⟩
    exact heq.symm
  · rintro rfl
    exact ⟨rfl, hnew, rfl⟩

include hgap hcovers in
theorem timesRequested_new (id : UInt64) :
    (h.receive header).timesRequested id =
      h.timesRequested id + if h.detector.mostRecentPacketId < id ∧ id < header.sequenceNumber then 1 else 0 := by
  rw [timesRequested, requests_receive, hgap, List.countP_append, ← timesRequested]
  congr 1
  simp only [← hcovers]
  cases request with
  | none => simp
  | some q => simp [List.countP_singleton]

include hnew hgap hcovers in
/-- A number between has been asked for once, and the new one has been reached. -/
theorem Divides.divided_new (hd : h.Divides) {id : UInt64} (hone : 1 ≤ id) (hle : id ≤ header.sequenceNumber) :
    ((h.receive header).timesRequested id = 1 ∧ ¬(h.receive header).Advanced id) ∨
      ((h.receive header).timesRequested id = 0 ∧ (h.receive header).Advanced id) := by
  rw [timesRequested_new hgap hcovers, advanced_new hnew hgap]
  by_cases hold : id ≤ h.detector.mostRecentPacketId
  · have hne : id ≠ header.sequenceNumber := fun heq => UInt64.not_lt.mpr (heq ▸ hold) hnew
    rw [if_neg fun hbetween => UInt64.not_lt.mpr hold hbetween.1, Nat.add_zero, or_iff_left hne]
    exact hd.divided id hone hold
  · have hlater := UInt64.not_le.mp hold
    obtain ⟨hnone, hnever⟩ := hd.beyond hlater
    by_cases heq : id = header.sequenceNumber
    · right
      rw [if_neg fun hbetween => UInt64.lt_irrefl _ (heq ▸ hbetween.2), hnone]
      exact ⟨rfl, Or.inr heq⟩
    · left
      have hlt := UInt64.lt_of_le_of_ne hle heq
      rw [if_pos ⟨hlater, hlt⟩, hnone]
      refine ⟨rfl, ?_⟩
      rintro (hold | hlast)
      · exact hnever hold
      · exact heq hlast

include hnew hgap hcovers in
theorem Divides.new (hd : h.Divides) (hnonempty : ∀ q ∈ request, q.firstPacket < q.lastPacket) :
    (h.receive header).Divides := by
  have hrequests : (h.receive header).requests = h.requests ++ request.toList := by
    rw [requests_receive, hgap]
  have hrecent : (h.receive header).detector.mostRecentPacketId = header.sequenceNumber := by
    rw [receive, hgap]
  constructor
  · rw [hrequests]
    intro q hq
    rcases List.mem_append.mp hq with hold | hlast
    · exact hd.nonempty q hold
    · exact hnonempty q (Option.mem_toList.mp hlast)
  · rw [hrequests, List.pairwise_append]
    refine ⟨hd.disjoint, ?_, ?_⟩
    · cases request <;> simp
    · rintro q hq q' hq' id ⟨hqid, hqid'⟩
      have hbelow := hd.below q hq id hqid
      have habove := ((hcovers id).mp ⟨q', Option.mem_toList.mp hq', hqid'⟩).1
      exact UInt64.lt_asymm hbelow habove
  · rw [hrequests, hrecent]
    intro q hq id hid
    rcases List.mem_append.mp hq with hold | hlast
    · exact UInt64.lt_trans (hd.below q hold id hid) hnew
    · exact ((hcovers id).mp ⟨q, Option.mem_toList.mp hlast, hid⟩).2
  · intro id hid
    rw [hrecent]
    rcases (advanced_new hnew hgap id).mp hid with hold | rfl
    · exact UInt64.le_trans (hd.reached id hold) (UInt64.le_of_lt hnew)
    · exact UInt64.le_refl _
  · intro id hone hle
    rw [hrecent] at hle
    exact hd.divided_new hnew hgap hcovers hone hle

end

theorem Divides.receive (hd : h.Divides) {header : MessageHeader}
    (hfits : h.detector.mostRecentPacketId.toNat < 2 ^ 64 - 1) : (h.receive header).Divides := by
  have hsucc : (h.detector.mostRecentPacketId + 1).toNat = h.detector.mostRecentPacketId.toNat + 1 := by
    rw [UInt64.toNat_add, UInt64.toNat_one]
    omega
  have hnext : ∀ id : UInt64, h.detector.mostRecentPacketId + 1 ≤ id ↔ h.detector.mostRecentPacketId < id := by
    intro id
    rw [UInt64.le_iff_toNat_le, UInt64.lt_iff_toNat_lt, hsucc]
    exact Nat.succ_le_iff
  by_cases hgap : h.detector.mostRecentPacketId + 1 < header.sequenceNumber
  · have hrequest : h.detector.hasGap header =
        (some ⟨h.detector.mostRecentPacketId + 1, header.sequenceNumber⟩, ⟨header.sequenceNumber⟩) := if_pos hgap
    refine hd.new ((hnext _).mp (UInt64.le_of_lt hgap)) hrequest ?_ ?_
    · intro id
      simp only [Option.mem_some_iff, exists_eq_left', RetransmitRequest.Covers, hnext]
    · intro q hq
      cases hq
      exact hgap
  · by_cases heq : header.sequenceNumber = h.detector.mostRecentPacketId + 1
    · have hnone : h.detector.hasGap header = (none, ⟨header.sequenceNumber⟩) := by
        rw [GapDetector.hasGap, if_neg hgap, if_pos heq, heq]
      refine hd.new ((hnext _).mp (UInt64.le_of_eq heq.symm)) hnone ?_ nofun
      intro id
      refine iff_of_false nofun ?_
      rintro ⟨hlower, hupper⟩
      rw [heq] at hupper
      exact UInt64.not_lt.mpr ((hnext id).mpr hlower) hupper
    · exact hd.old (by rw [GapDetector.hasGap, if_neg hgap, if_neg heq])

/-! ## Any sequence of packets -/

theorem receive_recent (header : MessageHeader) (hfits : h.detector.mostRecentPacketId.toNat < 2 ^ 64 - 1) :
    (h.receive header).detector.mostRecentPacketId.toNat =
      max h.detector.mostRecentPacketId.toNat header.sequenceNumber.toNat := by
  have hsucc : (h.detector.mostRecentPacketId + 1).toNat = h.detector.mostRecentPacketId.toNat + 1 := by
    rw [UInt64.toNat_add, UInt64.toNat_one]
    omega
  simp only [DetectorHistory.receive, GapDetector.hasGap]
  split
  · rename_i hgap
    have hgap := UInt64.lt_iff_toNat_lt.mp hgap
    show header.sequenceNumber.toNat = _
    omega
  · rename_i hgap
    have hgap := UInt64.le_iff_toNat_le.mp (UInt64.not_lt.mp hgap)
    split
    · rename_i heq
      show (h.detector.mostRecentPacketId + 1).toNat = _
      rw [heq]
      omega
    · rename_i hne
      have hne : header.sequenceNumber.toNat ≠ h.detector.mostRecentPacketId.toNat + 1 := by
        rw [← hsucc]
        exact fun heq => hne (UInt64.toNat_inj.mp heq)
      show h.detector.mostRecentPacketId.toNat = _
      omega

/-- From the initial state, over packets with any numbers below `2 ^ 64 - 1`: the most recent
number is the greatest, the requests are nonempty and disjoint, and each number up to the most
recent one is in one request or moved the detector there, and not both. -/
theorem requests_divide (headers : List MessageHeader)
    (hfits : ∀ header ∈ headers, header.sequenceNumber.toNat < 2 ^ 64 - 1) :
    (init.run headers).detector.mostRecentPacketId.toNat =
        (headers.map (·.sequenceNumber.toNat)).foldl max 0 ∧
      (∀ q ∈ (init.run headers).requests, q.firstPacket < q.lastPacket) ∧
      ((init.run headers).requests.Pairwise fun q q' => ∀ id, ¬(q.Covers id ∧ q'.Covers id)) ∧
      ∀ id, 1 ≤ id → id ≤ (init.run headers).detector.mostRecentPacketId →
        ((init.run headers).timesRequested id = 1 ∧ ¬ (init.run headers).Advanced id) ∨
          ((init.run headers).timesRequested id = 0 ∧ (init.run headers).Advanced id) := by
  have hrun : ∀ (h : DetectorHistory), h.Divides → h.detector.mostRecentPacketId.toNat < 2 ^ 64 - 1 →
      (h.run headers).Divides ∧ (h.run headers).detector.mostRecentPacketId.toNat =
        (headers.map (·.sequenceNumber.toNat)).foldl max h.detector.mostRecentPacketId.toNat := by
    induction headers with
    | nil => exact fun h hd _ => ⟨hd, rfl⟩
    | cons header headers ih =>
      intro h hd hrecent
      have hheader := hfits header List.mem_cons_self
      have hmax := h.receive_recent header hrecent
      obtain ⟨hdivides, hgreatest⟩ := ih (fun x hx => hfits x (List.mem_cons_of_mem _ hx)) (h.receive header)
        (hd.receive hrecent) (by omega)
      refine ⟨hdivides, ?_⟩
      rw [List.map_cons, List.foldl_cons, ← hmax]
      exact hgreatest
  obtain ⟨hdivides, hgreatest⟩ := hrun init divides_init (by decide)
  exact ⟨hgreatest, hdivides.nonempty, hdivides.disjoint, hdivides.divided⟩

end DetectorHistory

/-- Losses, a duplicate, an old packet and packet zero. -/
def unevenHeaders : List MessageHeader := [⟨1, 18⟩, ⟨4, 18⟩, ⟨0, 18⟩, ⟨4, 18⟩, ⟨2, 18⟩, ⟨5, 18⟩, ⟨9, 18⟩]

theorem requests_divide_unevenHeaders :
    (DetectorHistory.init.run unevenHeaders).requests = [⟨2, 4⟩, ⟨6, 9⟩] ∧
    (∀ q ∈ (DetectorHistory.init.run unevenHeaders).requests, q.firstPacket < q.lastPacket) ∧
    ∀ id, 1 ≤ id → id ≤ (DetectorHistory.init.run unevenHeaders).detector.mostRecentPacketId →
      ((DetectorHistory.init.run unevenHeaders).timesRequested id = 1 ∧
        ¬ (DetectorHistory.init.run unevenHeaders).Advanced id) ∨
      ((DetectorHistory.init.run unevenHeaders).timesRequested id = 0 ∧
        (DetectorHistory.init.run unevenHeaders).Advanced id) :=
  have h := DetectorHistory.requests_divide unevenHeaders (by decide)
  ⟨by decide, h.2.1, h.2.2.2⟩

end HftPipeline
