/-
ZGalaxy/QosMeasurement.lean

Measurements of links: `VERB_QOS_MEASUREMENT`, written and read.

A path keeps the ids of packets that came over it with the time they came at.  A measurement is a
row of records of ten bytes, an id and how long it was held, as many as were received since the last
one and no more than the table of the receiver has (`generateQoSPacket`).  The receiver reads
records while there is payload left (`readRecords`), so it reads whole records only if the payload
is made of them: `readRecords_end`.

Main results: `received_of_generated`, what is written is what is received, and
`measures_iff`, the payloads that are read inside.
-/
import ZGalaxy.Bytes

namespace ZGalaxy

open ByteList

/-! ### Bytes in the order of the host -/

/-- The `n` bytes of an integer in memory, the lowest first. -/
def leBytes (n v : ℕ) : Bytes := (beBytes n v).reverse

/-- The integer that bytes in memory are. -/
def leNat (b : Bytes) : ℕ := beNat b.reverse

theorem leNat_leBytes {n v : ℕ} (h : v < 256 ^ n) : leNat (leBytes n v) = v := by
  rw [leNat, leBytes, List.reverse_reverse, beNat_beBytes, Nat.mod_eq_of_lt h]

theorem length_leBytes (n v : ℕ) : (leBytes n v).length = n := by
  rw [leBytes, List.length_reverse, length_beBytes]

/-- What is in memory from `i` on. -/
def memory (mem : ℕ → UInt8) (i n : ℕ) : Bytes := (List.range n).map fun k => mem (i + k)

/-- The bytes `b` are in memory from `i` on. -/
def Stores (mem : ℕ → UInt8) (i : ℕ) (b : Bytes) : Prop :=
  ∀ k (h : k < b.length), mem (i + k) = b[k]

theorem Stores.memory_eq {mem : ℕ → UInt8} {i n : ℕ} {b : Bytes} (h : Stores mem i b)
    (hn : b.length = n) : memory mem i n = b := by
  subst hn
  refine List.ext_getElem ?_ fun k hk hb => ?_
  · rw [memory, List.length_map, List.length_range]
  · have hmem : (memory mem i b.length)[k] = mem (i + k) := by simp [memory]
    rw [hmem]
    exact h k hb

theorem Stores.append_iff {mem : ℕ → UInt8} {i : ℕ} {b c : Bytes} :
    Stores mem i (b ++ c) ↔ Stores mem i b ∧ Stores mem (i + b.length) c := by
  constructor
  · intro h
    refine ⟨fun k hk => ?_, fun k hk => ?_⟩
    · rw [h k (by rw [List.length_append]; omega), List.getElem_append_left hk]
    · rw [Nat.add_assoc, h (b.length + k) (by rw [List.length_append]; omega),
        List.getElem_append_right (by omega)]
      simp only [Nat.add_sub_cancel_left]
  · rintro ⟨hb, hc⟩ k hk
    by_cases hkb : k < b.length
    · rw [List.getElem_append_left hkb]
      exact hb k hkb
    · rw [List.getElem_append_right (by omega)]
      have hrest := hc (k - b.length) (by rw [List.length_append] at hk; omega)
      rwa [Nat.add_assoc, Nat.add_sub_cancel' (by omega)] at hrest

/-! ### Records -/

/-- `ZT_QOS_MIN_PACKET_SIZE` -/
def qosMinPacketSize : ℕ := 8 + 1

/-- `ZT_QOS_MAX_PACKET_SIZE` -/
def qosMaxPacketSize : ℕ := 1400

/-- `ZT_QOS_TABLE_SIZE` -/
def qosTableSize : ℕ := (qosMaxPacketSize * 8) / (64 + 16)

/-- The id of a packet, and how long it was held. -/
structure QosRecord where
  id : BitVec 64
  holdingTime : BitVec 16
deriving DecidableEq

/-- The ten bytes of a record. -/
def QosRecord.bytes (r : QosRecord) : Bytes := leBytes 8 r.id.toNat ++ leBytes 2 r.holdingTime.toNat

/-- The record that is in memory from `i` on. -/
def QosRecord.read (mem : ℕ → UInt8) (i : ℕ) : QosRecord where
  id := BitVec.ofNat 64 (leNat (memory mem i 8))
  holdingTime := BitVec.ofNat 16 (leNat (memory mem (i + 8) 2))

theorem QosRecord.length_bytes (r : QosRecord) : r.bytes.length = 10 := by
  rw [bytes, List.length_append, length_leBytes, length_leBytes]

theorem QosRecord.read_of_stores {mem : ℕ → UInt8} {i : ℕ} {r : QosRecord}
    (h : Stores mem i r.bytes) : read mem i = r := by
  obtain ⟨hid, htime⟩ := Stores.append_iff.mp h
  rw [length_leBytes] at htime
  unfold read
  rw [hid.memory_eq (length_leBytes _ _), htime.memory_eq (length_leBytes _ _),
    leNat_leBytes r.id.isLt, leNat_leBytes r.holdingTime.isLt, BitVec.ofNat_toNat,
    BitVec.ofNat_toNat, BitVec.setWidth_eq, BitVec.setWidth_eq]

/-! ### Sending -/

/-- What a nominated path keeps for measurements: `qosStatsIn` in the order of its ids, and
`packetsReceivedSinceLastQoS`. -/
structure QosPath where
  qosStatsIn : List (BitVec 64 × BitVec 64)
  packetsReceivedSinceLastQoS : ℤ

/-- The record of a packet that came at `e.2`. -/
def qosRecord (now : BitVec 64) (e : BitVec 64 × BitVec 64) : QosRecord :=
  ⟨e.1, (now - e.2).setWidth 16⟩

/-- The loop of `generateQoSPacket`: what it writes for at most `n` records, and what is left. -/
def writeRecords (now : BitVec 64) :
    ℕ → List (BitVec 64 × BitVec 64) → Bytes × List (BitVec 64 × BitVec 64)
  | 0, stats => ([], stats)
  | _ + 1, [] => ([], [])
  | n + 1, e :: stats =>
      let rest := writeRecords now n stats
      ((qosRecord now e).bytes ++ rest.1, rest.2)

namespace QosPath

/-- `numRecords` -/
def numRecords (p : QosPath) : ℕ := (min p.packetsReceivedSinceLastQoS qosTableSize).toNat

/-- `Bond::generateQoSPacket`, with what it writes to the buffer. -/
def generateQoSPacket (p : QosPath) (now : BitVec 64) : Bytes × QosPath :=
  let written := writeRecords now p.numRecords p.qosStatsIn
  (written.1, { p with qosStatsIn := written.2 })

/-- `Bond::sendQOS_MEASUREMENT`: the payload, if one is sent. -/
def sendQosMeasurement (p : QosPath) (now : BitVec 64) : Option Bytes × QosPath :=
  let generated := p.generateQoSPacket now
  if generated.1.length = 0 then (none, generated.2)
  else (some generated.1, { generated.2 with packetsReceivedSinceLastQoS := 0 })

/-- The records that are written. -/
def records (p : QosPath) (now : BitVec 64) : List QosRecord :=
  (p.qosStatsIn.take p.numRecords).map (qosRecord now)

end QosPath

/-! ### Receiving -/

/-- The loop of `_doQOS_MEASUREMENT`, with `left` records free in its tables: the records it reads
from `ptr` on, and where it stops. -/
def readRecords (mem : ℕ → UInt8) (len : ℕ) : ℕ → ℕ → List QosRecord × ℕ
  | 0, ptr => ([], ptr)
  | left + 1, ptr =>
      if ptr < len then
        let rest := readRecords mem len left (ptr + 10)
        (QosRecord.read mem ptr :: rest.1, rest.2)
      else ([], ptr)

/-- What came of a measurement: what `receivedQoS` is called with, if it is, and how much was read,
from the payload on. -/
structure QosReading where
  received : Option (List QosRecord)
  read : ℕ

/-- `IncomingPacket::_doQOS_MEASUREMENT`, with what the rate gate says and the memory from the
payload on. -/
def doQosMeasurement (rateGateQoS : Bool) (mem : ℕ → UInt8) (payloadLength : ℕ) : QosReading :=
  if rateGateQoS = false then ⟨none, 0⟩
  else if qosMaxPacketSize < payloadLength ∨ payloadLength < qosMinPacketSize then ⟨none, 0⟩
  else
    let read := readRecords mem payloadLength qosTableSize 0
    ⟨some read.1, read.2⟩

/-! ### What is written -/

variable {now : BitVec 64} {mem : ℕ → UInt8} {len : ℕ}

theorem writeRecords_eq (now : BitVec 64) (n : ℕ) (stats : List (BitVec 64 × BitVec 64)) :
    writeRecords now n stats =
      (((stats.take n).map (qosRecord now)).flatMap QosRecord.bytes, stats.drop n) := by
  induction n generalizing stats with
  | zero => rfl
  | succ n ih =>
      rcases stats with - | ⟨e, stats⟩
      · rfl
      · unfold writeRecords
        rw [ih]
        rfl

theorem length_flatMap_bytes (rs : List QosRecord) :
    (rs.flatMap QosRecord.bytes).length = 10 * rs.length := by
  induction rs with
  | nil => rfl
  | cons r rs ih =>
      rw [List.flatMap_cons, List.length_append, r.length_bytes, ih, List.length_cons]
      omega

theorem QosPath.generateQoSPacket_eq (p : QosPath) :
    (p.generateQoSPacket now).1 = (p.records now).flatMap QosRecord.bytes := by
  unfold generateQoSPacket records
  rw [writeRecords_eq]

/-- No more records are written than the tables of the receiver have. -/
theorem QosPath.length_records (p : QosPath) : (p.records now).length ≤ qosTableSize := by
  have hn : p.numRecords ≤ qosTableSize := by
    unfold numRecords
    omega
  rw [records, List.length_map, List.length_take]
  omega

/-! ### What is read -/

/-- The loop fills no more than its tables. -/
theorem length_readRecords (left ptr : ℕ) : (readRecords mem len left ptr).1.length ≤ left := by
  induction left generalizing ptr with
  | zero => exact Nat.le_refl 0
  | succ left ih =>
      unfold readRecords
      split_ifs
      · exact Nat.succ_le_succ (ih _)
      · exact Nat.zero_le _

/-- **Where the loop stops**: behind the last record that begins in the payload. -/
theorem readRecords_end {left ptr k : ℕ} (hlen : len ≤ ptr + 10 * k)
    (hk : k ≤ left) (hfirst : ∀ j < k, ptr + 10 * j < len) :
    (readRecords mem len left ptr).2 = ptr + 10 * k := by
  -- on the records, of ten bytes each
  induction k generalizing left ptr with
  | zero =>
      cases left with
      | zero => rfl
      | succ left =>
          unfold readRecords
          rw [if_neg (by omega)]
          rfl
  | succ k ih =>
      cases left with
      | zero => omega
      | succ left =>
          unfold readRecords
          rw [if_pos (by simpa using hfirst 0 (Nat.succ_pos k))]
          show (readRecords mem len left (ptr + 10)).2 = _
          rw [ih (by omega) (by omega) fun j hj => ?_]
          · omega
          · have := hfirst (j + 1) (by omega)
            omega

/-- **What is written is what is read.** -/
theorem readRecords_of_stores {left ptr : ℕ} {rs : List QosRecord} (hleft : rs.length ≤ left)
    (hstores : Stores mem ptr (rs.flatMap QosRecord.bytes)) (hlen : len = ptr + 10 * rs.length) :
    (readRecords mem len left ptr).1 = rs := by
  induction rs generalizing left ptr with
  | nil =>
      cases left with
      | zero => rfl
      | succ left =>
          unfold readRecords
          rw [if_neg (by simp [hlen])]
  | cons r rs ih =>
      rw [List.length_cons] at hleft hlen
      cases left with
      | zero => omega
      | succ left =>
          obtain ⟨hr, hrs⟩ := Stores.append_iff.mp hstores
          rw [r.length_bytes] at hrs
          unfold readRecords
          rw [if_pos (by omega)]
          show QosRecord.read mem ptr :: (readRecords mem len left (ptr + 10)).1 = r :: rs
          rw [QosRecord.read_of_stores hr, ih (by omega) hrs (by omega)]

/-! ### Measurements -/

/-- What a path sends is received as it was written, and nothing is sent of nothing. -/
def RoundTrips (p : QosPath) (now : BitVec 64) : Prop :=
  ((p.sendQosMeasurement now).1 = none ↔ p.records now = []) ∧
  ∀ payload mem, (p.sendQosMeasurement now).1 = some payload → Stores mem 0 payload →
    (doQosMeasurement true mem payload.length).received = some (p.records now)

/-- **A measurement that is sent** passes the limits of the receiver, and is received as it was
written. -/
theorem received_of_generated (p : QosPath) (now : BitVec 64) : RoundTrips p now := by
  have hlength : (p.generateQoSPacket now).1.length = 10 * (p.records now).length := by
    rw [p.generateQoSPacket_eq, length_flatMap_bytes]
  have htable : (p.records now).length ≤ qosTableSize := p.length_records
  have hsize : 10 * qosTableSize = qosMaxPacketSize := rfl
  constructor
  · unfold QosPath.sendQosMeasurement
    dsimp only
    rw [hlength, ← List.length_eq_zero_iff]
    split_ifs with hzero
    · exact iff_of_true rfl (by omega)
    · exact iff_of_false id (by omega)
  · intro payload mem hsent hstores
    unfold QosPath.sendQosMeasurement at hsent
    dsimp only at hsent
    split_ifs at hsent with hzero
    obtain rfl := Option.some.inj hsent
    rw [hlength] at hzero
    unfold doQosMeasurement
    rw [if_neg Bool.true_eq_false_eq_False, hlength, if_neg (by unfold qosMinPacketSize; omega)]
    rw [p.generateQoSPacket_eq] at hstores
    exact congrArg some (readRecords_of_stores htable hstores (Nat.zero_add _).symm)

/-- A payload is read inside, into the tables. -/
def ReadInside (rateGateQoS : Bool) (mem : ℕ → UInt8) (payloadLength : ℕ) : Prop :=
  (doQosMeasurement rateGateQoS mem payloadLength).read ≤ payloadLength ∧
  ∀ rs, (doQosMeasurement rateGateQoS mem payloadLength).received = some rs →
    rs.length ≤ qosTableSize

/-- **Exactly the payloads that are read inside**: those that the rate gate or the limits keep out,
and those made of whole records. -/
theorem readInside_iff (rateGateQoS : Bool) (mem : ℕ → UInt8) (payloadLength : ℕ) :
    ReadInside rateGateQoS mem payloadLength ↔
      rateGateQoS = false ∨ payloadLength < qosMinPacketSize ∨ qosMaxPacketSize < payloadLength ∨
        10 ∣ payloadLength := by
  unfold ReadInside doQosMeasurement
  by_cases hgate : rateGateQoS = false
  · rw [if_pos hgate]
    exact iff_of_true ⟨Nat.zero_le _, fun rs hrs => absurd hrs (Option.some_ne_none rs).symm⟩
      (.inl hgate)
  · rw [if_neg hgate]
    by_cases hlimits : qosMaxPacketSize < payloadLength ∨ payloadLength < qosMinPacketSize
    · rw [if_pos hlimits]
      exact iff_of_true ⟨Nat.zero_le _, fun rs hrs => absurd hrs (Option.some_ne_none rs).symm⟩
        (.inr (hlimits.symm.imp_right .inl))
    · rw [if_neg hlimits]
      rw [not_or, Nat.not_lt, Nat.not_lt] at hlimits
      -- as many records as begin in the payload
      have hend : (readRecords mem payloadLength qosTableSize 0).2 =
          10 * ((payloadLength + 9) / 10) := by
        have hmax : payloadLength ≤ 1400 := hlimits.1
        have htable : qosTableSize = 140 := rfl
        rw [readRecords_end (k := (payloadLength + 9) / 10) (by omega) (by omega)
          fun j hj => by omega, Nat.zero_add]
      dsimp only
      rw [hend]
      constructor
      · rintro ⟨hread, -⟩
        refine .inr (.inr (.inr ?_))
        omega
      · intro hcond
        refine ⟨?_, fun rs hrs => ?_⟩
        · rcases hcond with h | h | h | h
          · exact absurd h hgate
          · exact absurd hlimits.2 (Nat.not_le.mpr h)
          · exact absurd hlimits.1 (Nat.not_le.mpr h)
          · omega
        · obtain rfl := Option.some.inj hrs
          exact length_readRecords _ _

end ZGalaxy
