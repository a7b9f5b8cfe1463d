/-
ZGalaxy/OwnershipObject.lean

The object that a certificate of ownership is in memory: room for `maxThings` things, and how many
of them count.

`deserialize` takes the number of things from the bytes as it is, and reads no more than there is
room for.  So the number can be larger than the room, and what goes through the things by the
number (`owns`, `serialize`) then leaves the arrays, which is `none` here.

Main results: `sound_iff`, that what was read is sound exactly if the number in the bytes is not
larger than the room; `owns_eq` and `deserialize_certificate`, that the object then stands for a
`CertificateOfOwnership`.
-/
import ZGalaxy.CredentialReaders
import Mathlib.Logic.Function.Basic

namespace ZGalaxy

open ByteList Buffer

/-! ### The parts look at no more than they pass -/

namespace Buffer

theorem local_nextField (l : ℕ) : Reader.Local (nextField l) := by
  intro b p v q h
  unfold nextField at h
  rcases hf : Buffer.field b p l with e | x
  · rw [hf] at h
    cases h
  · rw [hf] at h
    obtain ⟨rfl, rfl⟩ := Prod.mk.inj (Except.ok.inj h)
    obtain ⟨hlen, hslice⟩ := field_ok.mp hf
    refine ⟨Nat.le_add_right p l, fun b' same => ?_⟩
    unfold nextField
    rw [field_ok.mpr ⟨same.length_le hlen, (same.slice_eq le_rfl).trans hslice⟩]
    rfl

theorem local_nextByte : Reader.Local nextByte := by
  intro b p v q h
  unfold nextByte Buffer.byte at h
  split_ifs at h with hlen
  · cases h
  obtain ⟨rfl, rfl⟩ := Prod.mk.inj (Except.ok.inj h)
  refine ⟨Nat.le_succ p, fun b' same => ?_⟩
  have hlen' := same.length_le (by omega)
  unfold nextByte Buffer.byte
  rw [if_neg (by omega)]
  show Except.ok (byteAt b' p, p + 1) = _
  rw [byteAt, byteAt, List.getD_eq_getElem?_getD, List.getD_eq_getElem?_getD, same p (by omega)]

theorem local_nextUInt (n : ℕ) : Reader.Local (nextUInt n) := by
  intro b p v q h
  unfold nextUInt uintAt at h
  rcases hf : Buffer.field b p n with e | x
  · rw [hf] at h
    cases h
  · rw [hf] at h
    obtain ⟨rfl, rfl⟩ := Prod.mk.inj (Except.ok.inj h)
    obtain ⟨hlen, hslice⟩ := field_ok.mp hf
    refine ⟨Nat.le_add_right p n, fun b' same => ?_⟩
    unfold nextUInt uintAt
    rw [field_ok.mpr ⟨same.length_le hlen, (same.slice_eq le_rfl).trans hslice⟩]
    rfl

theorem local_nextAddress : Reader.Local nextAddress :=
  (local_nextField addressLength).bind fun _ => Reader.Local.pure _

theorem local_nextSignature : Reader.Local nextSignature := by
  refine local_nextByte.bind fun type => (local_nextUInt 2).bind fun length => ?_
  split_ifs
  · exact Reader.Local.fail _
  · exact local_nextField _
  · exact (Reader.Local.skip length).bind fun _ => Reader.Local.pure _

theorem local_skipFields : Reader.Local skipFields := by
  refine (local_nextUInt 2).bind fun length => ?_
  intro b p v q h
  replace h : (if b.length < p + length then _ else _) = _ := h
  split_ifs at h with hlen
  obtain ⟨-, rfl⟩ := Prod.mk.inj (Except.ok.inj h)
  refine ⟨Nat.le_add_right p length, fun b' same => ?_⟩
  have := same.length_le (by omega)
  exact if_neg (by omega)

/-- The additional fields end within the bytes. -/
theorem skipFields_le {b : Bytes} {p q : ℕ} {u : Unit} (h : skipFields b p = .ok (u, q)) :
    q ≤ b.length := by
  obtain ⟨length, m, -, h⟩ := Reader.bind_ok.mp h
  replace h : (if b.length < m + length then _ else _) = _ := h
  split_ifs at h with hlen
  obtain ⟨-, rfl⟩ := Prod.mk.inj (Except.ok.inj h)
  omega

end Buffer

namespace CertificateOfOwnership

/-! ### The object -/

/-- `CertificateOfOwnership`, as it is in memory. -/
structure Object where
  networkId : NetworkId
  ts : Int64
  flags : UInt64
  id : UInt32
  /-- `_thingCount` -/
  thingCount : UInt16
  /-- `_thingTypes` and `_thingValues` -/
  slots : Fin maxThings → Thing
  issuedTo : Address
  signedBy : Address
  signature : Bytes

namespace Object

/-- The arrays as the constructor leaves them. -/
def emptySlots : Fin maxThings → Thing := fun _ => ⟨0, 0⟩

/-- The loop of `deserialize` over the things: `n` more after `i`. -/
def readSlots : ℕ → ℕ → (Fin maxThings → Thing) → Reader ZTException (Fin maxThings → Thing)
  | 0, _, slots => pure slots
  | n + 1, i, slots =>
      if h : i < maxThings then do
        let thing ← readThing
        readSlots n (i + 1) (Function.update slots ⟨i, h⟩ thing)
      else readSlots n (i + 1) slots

/-- `CertificateOfOwnership::deserialize`. -/
def deserialize : Reader ZTException Object := do
  let networkId ← nextUInt 8
  let ts ← nextUInt 8
  let flags ← nextUInt 8
  let id ← nextUInt 4
  let thingCount ← nextUInt 2
  let slots ← readSlots thingCount 0 emptySlots
  let issuedTo ← nextAddress
  let signedBy ← nextAddress
  let signature ← nextSignature
  skipFields
  pure {
    networkId := BitVec.ofNat 64 networkId
    ts := (UInt64.ofNat ts).toInt64
    flags := UInt64.ofNat flags
    id := UInt32.ofNat id
    thingCount := UInt16.ofNat thingCount
    slots := slots
    issuedTo := issuedTo
    signedBy := signedBy
    signature := signature }

variable (coo : Object)

/-- Entry `i` of the arrays, if they have one. -/
def thing? (i : ℕ) : Option Thing := if h : i < maxThings then some (coo.slots ⟨i, h⟩) else none

/-- The loop of `_owns`: `n` more things after `i`. -/
def ownsFrom (type : UInt8) {l : ℕ} (v : BitVec l) : ℕ → ℕ → Option Bool
  | 0, _ => some false
  | n + 1, i => do
      let thing ← coo.thing? i
      if thing.type == type && (thing.value >>> (128 - l)).setWidth l == v then some true
      else ownsFrom type v n (i + 1)

/-- `_owns`. -/
def owns (type : UInt8) {l : ℕ} (v : BitVec l) : Option Bool :=
  coo.ownsFrom type v coo.thingCount.toNat 0

/-- The loop of `serialize`: `n` more things after `i`. -/
def serializeFrom : ℕ → ℕ → Option Bytes
  | 0, _ => some []
  | n + 1, i => do
      let thing ← coo.thing? i
      let rest ← serializeFrom n (i + 1)
      some (thing.type :: (beBytes 16 thing.value.toNat ++ rest))

/-- `CertificateOfOwnership::serialize`. -/
def serialize (forSign : Bool) : Option Bytes :=
  (coo.serializeFrom coo.thingCount.toNat 0).map fun things =>
    (if forSign then signMarker else [])
      ++ (networkIdBytes coo.networkId ++ (timestampBytes coo.ts ++ (beBytes 8 coo.flags.toNat
        ++ (beBytes 4 coo.id.toNat ++ (beBytes 2 coo.thingCount.toNat ++ (things
          ++ (Address.toBytes coo.issuedTo ++ (Address.toBytes coo.signedBy
            ++ ((if forSign then [] else [1] ++ (beBytes 2 eccSignatureLen ++ coo.signature))
              ++ (beBytes 2 0 ++ (if forSign then signMarker else [])))))))))))

/-- `addThing`, of a type with a value. -/
def addThing (thing : Thing) : Option Object :=
  if maxThings ≤ coo.thingCount.toNat then some coo
  else if h : coo.thingCount.toNat < maxThings then
    some { coo with
      slots := Function.update coo.slots ⟨coo.thingCount.toNat, h⟩ thing
      thingCount := coo.thingCount + 1 }
  else none

/-! ### What is read -/

/-- The thing that stands at a place. -/
def thingAt (b : Bytes) (p : ℕ) : Thing :=
  ⟨byteAt b p, BitVec.ofNat 128 (beNat (slice b (p + 1) 16))⟩

/-- A thing takes 17 bytes. -/
theorem readThing_ok {b : Bytes} {p q : ℕ} {thing : Thing} (h : readThing b p = .ok (thing, q)) :
    p + 17 ≤ b.length ∧ thing = thingAt b p ∧ q = p + 17 := by
  obtain ⟨type, m, htype, h⟩ := Reader.bind_ok.mp h
  obtain ⟨value, m', hvalue, h⟩ := Reader.bind_ok.mp h
  obtain ⟨rfl, rfl⟩ := Prod.mk.inj (Reader.pure_ok.mp h)
  unfold nextByte Buffer.byte at htype
  split_ifs at htype with hlen
  · cases htype
  obtain ⟨rfl, rfl⟩ := Prod.mk.inj (Except.ok.inj htype)
  unfold nextField at hvalue
  rcases hf : Buffer.field b (p + 1) 16 with e | x
  · rw [hf] at hvalue
    cases hvalue
  · rw [hf] at hvalue
    obtain ⟨rfl, rfl⟩ := Prod.mk.inj (Except.ok.inj hvalue)
    obtain ⟨hlen', rfl⟩ := field_ok.mp hf
    exact ⟨by omega, rfl, by omega⟩

theorem local_readThing : Reader.Local readThing :=
  local_nextByte.bind fun _ => (local_nextField 16).bind fun _ => Reader.Local.pure _

theorem local_readSlots (n i : ℕ) (slots : Fin maxThings → Thing) :
    Reader.Local (readSlots n i slots) := by
  induction n generalizing i slots with
  | zero => exact Reader.Local.pure slots
  | succ n ih =>
      unfold readSlots
      split_ifs
      · exact local_readThing.bind fun thing => ih _ _
      · exact ih _ _

/-- The result is that of the bytes that count. -/
theorem local_deserialize : Reader.Local deserialize := by
  refine (local_nextUInt 8).bind fun networkId => (local_nextUInt 8).bind fun ts =>
    (local_nextUInt 8).bind fun flags => (local_nextUInt 4).bind fun id =>
      (local_nextUInt 2).bind fun thingCount => (local_readSlots thingCount 0 emptySlots).bind ?_
  intro slots
  exact local_nextAddress.bind fun issuedTo => local_nextAddress.bind fun signedBy =>
    local_nextSignature.bind fun signature => local_skipFields.bind fun _ => Reader.Local.pure _

/-- The loop fills the entries from `i` on, as many as there are things and room, from the bytes one
after another. -/
theorem readSlots_ok {n i : ℕ} {slots slots' : Fin maxThings → Thing} {b : Bytes} {p q : ℕ}
    (h : readSlots n i slots b p = .ok (slots', q)) :
    (∀ j (hj : j < maxThings), j < i → slots' ⟨j, hj⟩ = slots ⟨j, hj⟩) ∧
      ∀ j (hj : i + j < maxThings), j < n →
        p + 17 * (j + 1) ≤ b.length ∧ slots' ⟨i + j, hj⟩ = thingAt b (p + 17 * j) := by
  -- on the slots still to be read: those below `i` are not written any more
  induction n generalizing i slots p with
  | zero =>
      obtain ⟨rfl, -⟩ := Prod.mk.inj (Reader.pure_ok.mp h)
      exact ⟨fun _ _ _ => rfl, fun j _ hj => absurd hj (Nat.not_lt_zero j)⟩
  | succ n ih =>
      unfold readSlots at h
      split_ifs at h with hi
      · obtain ⟨thing, m, hthing, h⟩ := Reader.bind_ok.mp h
        obtain ⟨hlen, rfl, rfl⟩ := readThing_ok hthing
        obtain ⟨hbefore, hafter⟩ := ih h
        refine ⟨fun j hj hji => ?_, fun j hj hjn => ?_⟩
        · rw [hbefore j hj (by omega), Function.update_of_ne]
          intro he
          exact absurd (congrArg Fin.val he) (Nat.ne_of_lt hji)
        · cases j with
          | zero =>
              refine ⟨by omega, ?_⟩
              refine (hbefore i hi (Nat.lt_succ_self i)).trans ?_
              rw [Function.update_self]
              rfl
          | succ j =>
              obtain ⟨hle, hval⟩ := hafter j (by omega) (by omega)
              refine ⟨by omega, ?_⟩
              have hindex : (⟨i + (j + 1), hj⟩ : Fin maxThings) = ⟨i + 1 + j, by omega⟩ :=
                Fin.ext (show i + (j + 1) = i + 1 + j by omega)
              rw [hindex, hval]
              congr 1
              omega
      · obtain ⟨hbefore, -⟩ := ih h
        refine ⟨fun j hj hji => hbefore j hj (by omega), fun j hj _ => ?_⟩
        omega

/-- The integer that stands at a place. -/
theorem nextUInt_ok {n : ℕ} {b : Bytes} {p q v : ℕ} (h : nextUInt n b p = .ok (v, q)) :
    v = beNat (slice b p n) ∧ v < 256 ^ n ∧ q = p + n := by
  obtain ⟨hq, hbytes, hlt⟩ := nextUInt_bytes h
  refine ⟨?_, hlt, hq⟩
  rw [hbytes, beNat_beBytes, Nat.mod_eq_of_lt hlt]

/-- The number of things that the bytes name. -/
def countAt (b : Bytes) (startAt : ℕ) : ℕ := beNat (slice b (startAt + 28) 2)

/-- What a reader that succeeds has found: the number as it stands, and things as far as there is
room. -/
theorem deserialize_ok {b : Bytes} {startAt q : ℕ} {coo : Object}
    (h : deserialize b startAt = .ok (coo, q)) :
    coo.thingCount.toNat = countAt b startAt ∧ q ≤ b.length ∧
      ∀ i (hi : i < maxThings), i < coo.thingCount.toNat →
        startAt + 30 + 17 * (i + 1) ≤ b.length ∧
          coo.slots ⟨i, hi⟩ = thingAt b (startAt + 30 + 17 * i) := by
  obtain ⟨networkId, p₁, h₁, h⟩ := Reader.bind_ok.mp h
  obtain ⟨ts, p₂, h₂, h⟩ := Reader.bind_ok.mp h
  obtain ⟨flags, p₃, h₃, h⟩ := Reader.bind_ok.mp h
  obtain ⟨id, p₄, h₄, h⟩ := Reader.bind_ok.mp h
  obtain ⟨thingCount, p₅, h₅, h⟩ := Reader.bind_ok.mp h
  obtain ⟨slots, p₆, h₆, h⟩ := Reader.bind_ok.mp h
  obtain ⟨issuedTo, p₇, -, h⟩ := Reader.bind_ok.mp h
  obtain ⟨signedBy, p₈, -, h⟩ := Reader.bind_ok.mp h
  obtain ⟨signature, p₉, -, h⟩ := Reader.bind_ok.mp h
  obtain ⟨u, p₁₀, hfields, h⟩ := Reader.bind_ok.mp h
  obtain ⟨rfl, rfl⟩ := Prod.mk.inj (Reader.pure_ok.mp h)
  obtain ⟨-, -, rfl⟩ := nextUInt_ok h₁
  obtain ⟨-, -, rfl⟩ := nextUInt_ok h₂
  obtain ⟨-, -, rfl⟩ := nextUInt_ok h₃
  obtain ⟨-, -, rfl⟩ := nextUInt_ok h₄
  obtain ⟨hcount, hlt, rfl⟩ := nextUInt_ok h₅
  have hcount' : (UInt16.ofNat thingCount).toNat = thingCount := UInt16.toNat_ofNat_of_lt' hlt
  refine ⟨?_, skipFields_le hfields, fun i hi hcounted => ?_⟩
  · rw [hcount', hcount]
    rfl
  · have := (readSlots_ok h₆).2 i (by omega) (lt_of_lt_of_eq hcounted hcount')
    obtain ⟨hle, hval⟩ := this
    refine ⟨by omega, ?_⟩
    have hindex : (⟨i, hi⟩ : Fin maxThings) = ⟨0 + i, by omega⟩ :=
      Fin.ext (Nat.zero_add i).symm
    rw [hindex]
    exact hval

/-! ### Operations on what is read -/

section

variable {coo : Object}

theorem thing?_isSome {i : ℕ} (hi : i < maxThings) : coo.thing? i = some (coo.slots ⟨i, hi⟩) :=
  dif_pos hi

theorem ownsFrom_isSome (type : UInt8) {l : ℕ} (v : BitVec l) {n i : ℕ} (h : i + n ≤ maxThings) :
    (coo.ownsFrom type v n i).isSome = true := by
  induction n generalizing i with
  | zero => rfl
  | succ n ih =>
      unfold ownsFrom
      rw [thing?_isSome (show i < maxThings by omega)]
      show Option.isSome (if _ then _ else _) = true
      split_ifs
      · rfl
      · exact ih (by omega)

theorem serializeFrom_isSome {n i : ℕ} (h : i + n ≤ maxThings) :
    (coo.serializeFrom n i).isSome = true := by
  induction n generalizing i with
  | zero => rfl
  | succ n ih =>
      unfold serializeFrom
      obtain ⟨rest, hrest⟩ := Option.isSome_iff_exists.mp (ih (i := i + 1) (by omega))
      rw [thing?_isSome (show i < maxThings by omega), hrest]
      rfl

/-- With more things than there is room for, `serialize` leaves the arrays. -/
theorem serializeFrom_eq_none {n i : ℕ} (hi : i ≤ maxThings) (h : maxThings < i + n) :
    coo.serializeFrom n i = none := by
  induction n generalizing i with
  | zero => omega
  | succ n ih =>
      unfold serializeFrom
      rcases hi.eq_or_lt with rfl | hlt
      · rw [show coo.thing? maxThings = none from dif_neg (Nat.lt_irrefl _)]
        rfl
      · rw [thing?_isSome hlt, ih hlt (by omega)]
        rfl

/-- Adding looks at the number first. -/
theorem addThing_isSome (coo : Object) (thing : Thing) : (coo.addThing thing).isSome = true := by
  unfold addThing
  split_ifs
  · rfl
  · rfl
  · omega

end

/-- The object that was read from a place is as it should be. -/
structure Sound (b : Bytes) (startAt : ℕ) (coo : Object) (n : ℕ) : Prop where
  /-- as many things as there is room for -/
  thingCount : coo.thingCount.toNat ≤ maxThings
  /-- every thing that counts was read from the bytes -/
  things : ∀ i, i < coo.thingCount.toNat →
    startAt + 30 + 17 * (i + 1) ≤ b.length ∧
      coo.thing? i = some (thingAt b (startAt + 30 + 17 * i))
  /-- no operation leaves the arrays -/
  owns : ∀ (type : UInt8) (l : ℕ) (v : BitVec l), (coo.owns type v).isSome = true
  serialize : ∀ forSign, (coo.serialize forSign).isSome = true
  addThing : ∀ thing, (coo.addThing thing).isSome = true
  /-- the bytes returned are those consumed: they are there, and the others do not matter -/
  consumed : startAt + n ≤ b.length ∧ ∀ b', SameUntil (startAt + n) b b' →
    (Object.deserialize b' startAt).map (fun out => (out.1, out.2 - startAt)) = .ok (coo, n)

/-- **Certificates of ownership from bytes**: one that was read without an exception is sound
exactly if the bytes name no more things than there is room for. -/
theorem sound_iff (b : Bytes) (startAt : ℕ) (coo : Object) (n : ℕ)
    (h : (deserialize b startAt).map (fun out => (out.1, out.2 - startAt)) = .ok (coo, n)) :
    Sound b startAt coo n ↔ countAt b startAt ≤ maxThings := by
  rcases hread : deserialize b startAt with e | ⟨coo', q⟩
  · rw [hread] at h
    cases h
  rw [hread] at h
  obtain ⟨hcoo, hn⟩ := Prod.mk.inj (Except.ok.inj h)
  replace hcoo : coo' = coo := hcoo
  replace hn : q - startAt = n := hn
  subst hcoo hn
  obtain ⟨hcount, hq, hthings⟩ := deserialize_ok hread
  constructor
  · intro sound
    rw [← hcount]
    exact sound.thingCount
  · intro hle
    rw [← hcount] at hle
    refine ⟨hle, fun i hi => ?_, fun type l v => ?_, fun forSign => ?_, addThing_isSome coo',
      ?_, fun b' same => ?_⟩
    · obtain ⟨hlen, hval⟩ := hthings i (hi.trans_le hle) hi
      exact ⟨hlen, (thing?_isSome (hi.trans_le hle)).trans (congrArg some hval)⟩
    · exact ownsFrom_isSome type v (by omega)
    · unfold serialize
      rw [Option.isSome_map]
      exact serializeFrom_isSome (by omega)
    · have := (local_deserialize _ _ _ _ hread).1
      show startAt + (q - startAt) ≤ _
      omega
    · obtain ⟨hle', hlocal⟩ := local_deserialize _ _ _ _ hread
      rw [hlocal b' (same.mono (show q ≤ startAt + (q - startAt) by omega))]
      rfl

/-! ### The certificate that an object stands for -/

/-- The things that count, as far as there is room. -/
def certificate (coo : Object) : CertificateOfOwnership where
  networkId := coo.networkId
  ts := coo.ts
  flags := coo.flags
  id := coo.id
  things := (List.ofFn coo.slots).take coo.thingCount.toNat
  issuedTo := coo.issuedTo
  signedBy := coo.signedBy
  signature := coo.signature

theorem drop_ofFn (slots : Fin maxThings → Thing) {i : ℕ} (hi : i < maxThings) :
    (List.ofFn slots).drop i = slots ⟨i, hi⟩ :: (List.ofFn slots).drop (i + 1) := by
  rw [List.drop_eq_getElem_cons (by rwa [List.length_ofFn]), List.getElem_ofFn]

/-- A loop over the entries goes through the things in order. -/
theorem ownsFrom_eq (coo : Object) (type : UInt8) {l : ℕ} (v : BitVec l) {n i : ℕ}
    (h : i + n ≤ maxThings) :
    coo.ownsFrom type v n i = some ((((List.ofFn coo.slots).drop i).take n).any fun thing =>
      thing.type == type && (thing.value >>> (128 - l)).setWidth l == v) := by
  induction n generalizing i with
  | zero => rfl
  | succ n ih =>
      have hi : i < maxThings := by omega
      unfold ownsFrom
      rw [thing?_isSome hi, drop_ofFn coo.slots hi, List.take_succ_cons, List.any_cons]
      show (if _ then _ else _ : Option Bool) = _
      split_ifs with hthing
      · rw [hthing, Bool.true_or]
      · rw [ih (by omega), Bool.eq_false_of_not_eq_true hthing, Bool.false_or]

/-- **A sound object owns what its certificate owns.** -/
theorem owns_eq {coo : Object} (h : coo.thingCount.toNat ≤ maxThings) (type : UInt8) {l : ℕ}
    (v : BitVec l) : coo.owns type v = some (coo.certificate.ownsThing type v) :=
  ownsFrom_eq coo type v (by omega)

theorem many_of_readSlots {n i : ℕ} {slots slots' : Fin maxThings → Thing} {b : Bytes} {p q : ℕ}
    (h : readSlots n i slots b p = .ok (slots', q)) :
    Reader.many readThing (min n (maxThings - i)) b p =
      .ok (((List.ofFn slots').drop i).take n, q) := by
  -- on the slots still to be read
  induction n generalizing i slots p with
  | zero =>
      obtain ⟨rfl, rfl⟩ := Prod.mk.inj (Reader.pure_ok.mp h)
      rw [Nat.zero_min, List.take_zero]
      rfl
  | succ n ih =>
      have hrest := h
      unfold readSlots at h
      split_ifs at h with hi
      · obtain ⟨thing, m, hthing, h⟩ := Reader.bind_ok.mp h
        have hslot : slots' ⟨i, hi⟩ = thing := by
          refine ((readSlots_ok h).1 i hi (Nat.lt_succ_self i)).trans ?_
          rw [Function.update_self]
        rw [show min (n + 1) (maxThings - i) = min n (maxThings - (i + 1)) + 1 by omega,
          drop_ofFn slots' hi, List.take_succ_cons, hslot]
        exact Reader.bind_ok.mpr ⟨thing, m, hthing, Reader.bind_ok.mpr ⟨_, q, ih h, rfl⟩⟩
      · have := ih h
        have hfull : maxThings ≤ i := not_lt.mp hi
        rw [show min n (maxThings - (i + 1)) = 0 by omega, List.drop_eq_nil_of_le
          (by rw [List.length_ofFn]; omega), List.take_nil] at this
        rw [show min (n + 1) (maxThings - i) = 0 by omega, List.drop_eq_nil_of_le
          (by rw [List.length_ofFn]; omega), List.take_nil]
        exact this

/-- **What the object's reader reads** is the certificate's. -/
theorem deserialize_certificate {b : Bytes} {p q : ℕ} {coo : Object}
    (h : deserialize b p = .ok (coo, q)) :
    CertificateOfOwnership.deserialize b p = .ok (coo.certificate, q) := by
  obtain ⟨networkId, p₁, h₁, h⟩ := Reader.bind_ok.mp h
  obtain ⟨ts, p₂, h₂, h⟩ := Reader.bind_ok.mp h
  obtain ⟨flags, p₃, h₃, h⟩ := Reader.bind_ok.mp h
  obtain ⟨id, p₄, h₄, h⟩ := Reader.bind_ok.mp h
  obtain ⟨thingCount, p₅, h₅, h⟩ := Reader.bind_ok.mp h
  obtain ⟨slots, p₆, h₆, h⟩ := Reader.bind_ok.mp h
  obtain ⟨issuedTo, p₇, h₇, h⟩ := Reader.bind_ok.mp h
  obtain ⟨signedBy, p₈, h₈, h⟩ := Reader.bind_ok.mp h
  obtain ⟨signature, p₉, h₉, h⟩ := Reader.bind_ok.mp h
  obtain ⟨u, p₁₀, h₁₀, h⟩ := Reader.bind_ok.mp h
  obtain ⟨rfl, rfl⟩ := Prod.mk.inj (Reader.pure_ok.mp h)
  have hcount : (UInt16.ofNat thingCount).toNat = thingCount :=
    UInt16.toNat_ofNat_of_lt' (nextUInt_ok h₅).2.1
  have hthings := many_of_readSlots h₆
  rw [List.drop_zero, Nat.sub_zero] at hthings
  unfold certificate
  rw [hcount]
  exact Reader.bind_ok.mpr ⟨_, _, h₁, Reader.bind_ok.mpr ⟨_, _, h₂, Reader.bind_ok.mpr ⟨_, _, h₃,
    Reader.bind_ok.mpr ⟨_, _, h₄, Reader.bind_ok.mpr ⟨_, _, h₅, Reader.bind_ok.mpr ⟨_, _, hthings,
      Reader.bind_ok.mpr ⟨_, _, h₇, Reader.bind_ok.mpr ⟨_, _, h₈, Reader.bind_ok.mpr ⟨_, _, h₉,
        Reader.bind_ok.mpr ⟨_, _, h₁₀, rfl⟩⟩⟩⟩⟩⟩⟩⟩⟩⟩

/-! ### Bytes that name too many things -/

/-- A certificate without things but the number `n`, then zeros where the things may be. -/
def countedBytes (n : UInt16) : Bytes :=
  List.replicate 28 0 ++ (beBytes 2 n.toNat ++ (List.replicate (17 * maxThings) 0 ++
    (List.replicate 10 0 ++ ([1, 0, 96] ++ (List.replicate eccSignatureLen 0 ++ [0, 0])))))

/-- They are read, whatever the number. -/
theorem countedBytes_read {n : UInt16}
    (h : (deserialize (countedBytes n) 0).toOption.isSome = true) :
    ∃ coo l, (deserialize (countedBytes n) 0).map (fun out => (out.1, out.2 - 0)) =
      .ok (coo, l) := by
  generalize countedBytes n = b at *
  rcases hread : deserialize b 0 with e | ⟨coo, l⟩
  · rw [hread] at h
    cases h
  · exact ⟨coo, l, rfl⟩

theorem countedBytes_sound :
    ∃ coo l, (deserialize (countedBytes 16) 0).map (fun out => (out.1, out.2 - 0)) = .ok (coo, l) ∧
      (Sound (countedBytes 16) 0 coo l ↔ countAt (countedBytes 16) 0 ≤ maxThings) := by
  obtain ⟨coo, l, h⟩ := countedBytes_read (n := 16) (by decide +kernel)
  exact ⟨coo, l, h, sound_iff (countedBytes 16) 0 coo l h⟩

theorem countedBytes_unsound :
    ∃ coo l, (deserialize (countedBytes 17) 0).map (fun out => (out.1, out.2 - 0)) = .ok (coo, l) ∧
      coo.serialize true = none ∧ ¬Sound (countedBytes 17) 0 coo l := by
  obtain ⟨coo, l, h⟩ := countedBytes_read (n := 17) (by decide +kernel)
  have hcount : coo.thingCount.toNat = 17 := by
    have hat : countAt (countedBytes 17) 0 = 17 := by decide +kernel
    generalize countedBytes 17 = b at h hat
    rcases hread : deserialize b 0 with e | ⟨coo', q⟩
    · rw [hread] at h
      cases h
    · rw [hread] at h
      obtain rfl : coo' = coo := congrArg Prod.fst (Except.ok.inj h)
      rw [← hat]
      exact (deserialize_ok hread).1
  have hmax : maxThings = 16 := rfl
  refine ⟨coo, l, h, ?_, fun sound => ?_⟩
  · unfold serialize
    rw [hcount, serializeFrom_eq_none (Nat.zero_le _) (by omega)]
    rfl
  · have := sound.thingCount
    omega

end Object

end CertificateOfOwnership

end ZGalaxy
