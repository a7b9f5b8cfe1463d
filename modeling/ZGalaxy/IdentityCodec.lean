/-
ZGalaxy/IdentityCodec.lean

Identities with their private keys, as text and as bytes.

An identity object holds an address, a public key and perhaps a private key.  Both writers leave the
private key out unless they are asked for it; both readers write into an object that holds something
already.  `fromString` takes the fields at the colons one after another and writes each into the
object before it looks at the next one, so a text that is refused at its end has left its key
behind: what tells the caller is the address, which is zero then.

A text is canonical for an identity (`CanonicalText`) when it is read as this identity and has its
digits in lower case, ten for the address and two for each byte of a key, with one colon between the
fields; there is one such text (`CanonicalText.unique`).

Main result: `identityCodecs`.
-/
import ZGalaxy.IdentityText

namespace ZGalaxy

open ByteList CString

/-! ### Keys -/

/-- The bytes of a key, an array of fixed size. -/
structure Key (n : ℕ) where
  bytes : Bytes
  length_bytes : bytes.length = n

namespace Key

variable {n : ℕ}

theorem length_over (key : Key n) (b : Bytes) :
    ((b ++ key.bytes.drop b.length).take n).length = n := by
  rw [List.length_take, List.length_append, List.length_drop, key.length_bytes]
  omega

/-- The key with these bytes written over its first ones. -/
def write (key : Key n) (b : Bytes) : Key n :=
  ⟨(b ++ key.bytes.drop b.length).take n, length_over key b⟩

/-- `new ECC::Private()`. -/
def zero (n : ℕ) : Key n := ⟨List.replicate n 0, List.length_replicate⟩

/-- A key that is written over as a whole. -/
theorem write_self (key key' : Key n) : key.write key'.bytes = key' := by
  have hover : (key'.bytes ++ key.bytes.drop key'.bytes.length).take n = key'.bytes := by
    rw [key'.length_bytes, List.drop_of_length_le key.length_bytes.le, List.append_nil]
    exact List.take_of_length_le key'.length_bytes.le
  rcases key' with ⟨b, hb⟩
  unfold write
  congr 1

end Key

/-- `Identity`, with what `_privateKey` points to. -/
structure HeldIdentity where
  address : Address
  publicKey : Key eccPublicKeySetLen
  privateKey : Option (Key eccPrivateKeySetLen)

namespace HeldIdentity

/-- The private key with its length before it, which is zero where there is none. -/
def privateBytes : Option (Key eccPrivateKeySetLen) → Bytes
  | some key => [UInt8.ofNat eccPrivateKeySetLen] ++ key.bytes
  | none => [0]

variable (id : HeldIdentity)

/-- The private key that is written: `(_privateKey) && (includePrivate)`. -/
def written (includePrivate : Bool) : Option (Key eccPrivateKeySetLen) :=
  if includePrivate then id.privateKey else none

/-- The identity with the private key that is written. -/
def sent (includePrivate : Bool) : HeldIdentity :=
  { id with privateKey := id.written includePrivate }

/-! ### Bytes -/

/-- What `Identity::serialize` appends. -/
def bytes (includePrivate : Bool) : Bytes :=
  Address.toBytes id.address ++ ([0] ++ (id.publicKey.bytes ++
    privateBytes (id.written includePrivate)))

/-- `Identity::serialize`, appended to a buffer of the given capacity that holds `b`. -/
def serialize (capacity : ℕ) (b : Bytes) (includePrivate : Bool) : Except ZTException Bytes :=
  if capacity < b.length + (id.bytes includePrivate).length then .error .outOfBounds
  else .ok (b ++ id.bytes includePrivate)

/-- The key that a field of a buffer holds. -/
def nextKey (n : ℕ) : Reader ZTException (Key n) := fun b p =>
  if h : (slice b p n).length = n then .ok (⟨slice b p n, h⟩, p + n) else .error .outOfBounds

/-- The private key, of which the length is written before it. -/
def nextPrivateKey : Reader ZTException (Option (Key eccPrivateKeySetLen)) := do
  let privateKeyLength ← Buffer.nextByte
  if privateKeyLength ≠ 0 then
    if privateKeyLength.toNat ≠ eccPrivateKeySetLen then
      Reader.fail .invalidSerializedData
    else
      let privateKey ← nextKey eccPrivateKeySetLen
      pure (some privateKey)
  else
    pure none

/-- What `Identity::deserialize` reads. -/
def read : Reader ZTException HeldIdentity := do
  let address ← Buffer.nextField addressLength
  let type ← Buffer.nextByte
  if type ≠ 0 then
    Reader.fail .invalidSerializedData
  else
    let publicKey ← nextKey eccPublicKeySetLen
    let privateKey ← nextPrivateKey
    pure ⟨Address.ofBytes address, publicKey, privateKey⟩

/-- `Identity::deserialize`: the identity, and the number of bytes that were read. -/
def deserialize (b : Bytes) (startAt : ℕ) : Except ZTException (HeldIdentity × ℕ) :=
  (read b startAt).map fun out => (out.1, out.2 - startAt)

theorem readsBack_key {n : ℕ} (key : Key n) : Reader.ReadsBack (nextKey n) key key.bytes := by
  intro a c
  have hslice : slice (a ++ (key.bytes ++ c)) a.length n = key.bytes :=
    slice_middle rfl key.length_bytes
  have hlength : (slice (a ++ (key.bytes ++ c)) a.length n).length = n := by
    rw [hslice, key.length_bytes]
  unfold nextKey
  rw [dif_pos hlength, key.length_bytes]
  rcases key with ⟨b, hb⟩
  congr 3

theorem readsBack_privateKey (privateKey : Option (Key eccPrivateKeySetLen)) :
    Reader.ReadsBack nextPrivateKey privateKey (privateBytes privateKey) := by
  rcases privateKey with - | key
  · have hnone : Reader.ReadsBack nextPrivateKey none ([0] ++ []) :=
      (Buffer.readsBack_byte 0).bind (Reader.ReadsBack.pure none)
    exact hnone
  · exact (Buffer.readsBack_byte (UInt8.ofNat eccPrivateKeySetLen)).bind
      ((readsBack_key key).map some)

/-- An identity is read back with the private key that was written. -/
theorem readsBack_bytes (includePrivate : Bool) :
    Reader.ReadsBack read (id.sent includePrivate) (id.bytes includePrivate) := by
  have hpure : (⟨Address.ofBytes (Address.toBytes id.address), id.publicKey,
      id.written includePrivate⟩ : HeldIdentity) = id.sent includePrivate := by
    rw [Address.ofBytes_toBytes]
    rfl
  rw [← hpure]
  exact (Buffer.readsBack_field (Address.length_toBytes id.address)).bind
    ((Buffer.readsBack_byte 0).bind ((readsBack_key id.publicKey).bind
      ((readsBack_privateKey (id.written includePrivate)).map _)))

/-! ### Text -/

/-- The private key behind a colon. -/
def privateText : Option (Key eccPrivateKeySetLen) → List Char
  | some key => ':' :: Identity.keyDigits key.bytes
  | none => []

/-- The characters that `Identity::toString` writes. -/
def text (includePrivate : Bool) : List Char :=
  hexDigits 10 id.address.toNat ++ ':' :: '0' :: ':' ::
    (Identity.keyDigits id.publicKey.bytes ++ privateText (id.written includePrivate))

/-- `Identity::toString`. -/
def toText (includePrivate : Bool) : String := String.ofList (id.text includePrivate)

/-- `_address.zero()`. -/
def nilAddress : HeldIdentity := { id with address := 0 }

/-- One turn of the loop of `Identity::fromString`: whether the field with the number `fno` is
accepted, and the object after it. -/
def readField : ℕ → List Char → HeldIdentity → Bool × HeldIdentity
  | 0, f, id =>
      let address := Address.ofUInt64 (strtoull 16 (String.ofList f)).toBitVec
      (!address.isReserved, { id with address := address })
  | 1, f, id => (f == ['0'], id)
  | 2, f, id =>
      let key := unhex eccPublicKeySetLen f
      (key.length == eccPublicKeySetLen, { id with publicKey := id.publicKey.write key })
  | 3, f, id =>
      let key := unhex eccPrivateKeySetLen f
      (key.length == eccPrivateKeySetLen,
        { id with privateKey := some ((Key.zero eccPrivateKeySetLen).write key) })
  | _, _, id => (false, id)

/-- The loop of `Identity::fromString` from the field with the number `fno` on, and what is checked
behind it. -/
def readFields : ℕ → List (List Char) → HeldIdentity → Bool × HeldIdentity
  | fno, [], id => if fno < 3 then (false, id.nilAddress) else (true, id)
  | fno, f :: fields, id =>
      if (readField fno f id).1 then readFields (fno + 1) fields (readField fno f id).2
      else (false, (readField fno f id).2.nilAddress)

/-- `Identity::fromString`, of a null pointer or a C string: what it returns, and the object after
it. -/
def fromString : Option String → HeldIdentity → Bool × HeldIdentity
  | none, id => (false, id.nilAddress)
  | some str, id =>
      if identityStringBufferLength ≤ (cChars str).length then (false, id.nilAddress)
      else readFields 0 (stok ':' (cChars str)) { id with privateKey := none }

/-- **What is refused leaves a nil address.** -/
theorem readFields_refused {fno : ℕ} {fields : List (List Char)} {id : HeldIdentity}
    (h : (readFields fno fields id).1 = false) : (readFields fno fields id).2.address = 0 := by
  induction fields generalizing fno id with
  | nil =>
      unfold readFields at h ⊢
      split_ifs at h ⊢ with hfew
      · rfl
  | cons f fields ih =>
      unfold readFields at h ⊢
      by_cases hfield : (readField fno f id).1
      · rw [if_pos hfield] at h ⊢
        exact ih h
      · rw [if_neg hfield]
        rfl

theorem fromString_refused {str : Option String} {id : HeldIdentity}
    (h : (fromString str id).1 = false) : (fromString str id).2.address = 0 := by
  rcases str with - | str
  · rfl
  · rw [fromString] at h ⊢
    by_cases hlong : identityStringBufferLength ≤ (cChars str).length
    · rw [if_pos hlong]
      rfl
    · rw [if_neg hlong] at h ⊢
      exact readFields_refused h

/-- The address of what is accepted is not reserved. -/
theorem readFields_accepted {fno : ℕ} {fields : List (List Char)} {id : HeldIdentity}
    (hbefore : 0 < fno → id.address.isReserved = false) (h : (readFields fno fields id).1 = true) :
    (readFields fno fields id).2.address.isReserved = false := by
  induction fields generalizing fno id with
  | nil =>
      unfold readFields at h ⊢
      by_cases hfew : fno < 3
      · rw [if_pos hfew] at h
        cases h
      · rw [if_neg hfew]
        exact hbefore (by omega)
  | cons f fields ih =>
      unfold readFields at h ⊢
      by_cases hfield : (readField fno f id).1
      · rw [if_pos hfield] at h ⊢
        refine ih (fun _ => ?_) h
        rcases fno with - | - | - | - | fno
        · have hreserved : (!(readField 0 f id).2.address.isReserved) = true := hfield
          rwa [Bool.not_eq_true'] at hreserved
        -- no later field touches the address
        · exact hbefore (by omega)
        · exact hbefore (by omega)
        · exact hbefore (by omega)
        · exact hbefore (by omega)
      · rw [if_neg hfield] at h
        cases h

theorem fromString_accepted {str : Option String} {id : HeldIdentity}
    (h : (fromString str id).1 = true) :
    (fromString str id).2.address.isReserved = false := by
  rcases str with - | str
  · cases h
  · rw [fromString] at h ⊢
    by_cases hlong : identityStringBufferLength ≤ (cChars str).length
    · rw [if_pos hlong] at h
      cases h
    · rw [if_neg hlong] at h ⊢
      exact readFields_accepted (fun hzero => absurd hzero (Nat.lt_irrefl 0)) h

/-! ### Reading back a text -/

variable {id} {includePrivate : Bool}

theorem plain_of_mem_privateText {privateKey : Option (Key eccPrivateKeySetLen)} {c : Char}
    (h : c ∈ privateText privateKey) : IsPlain c := by
  rcases privateKey with - | key
  · cases h
  · rcases List.mem_cons.mp h with rfl | h
    · exact ⟨by decide, by decide⟩
    · exact (Identity.plain_of_mem_keyDigits h).1

theorem plain_of_mem_text {c : Char} (h : c ∈ id.text includePrivate) : IsPlain c := by
  rcases List.mem_append.mp h with h | h
  · exact (plain_of_mem_hexDigits h).1
  · rcases List.mem_cons.mp h with rfl | h
    · exact ⟨by decide, by decide⟩
    · rcases List.mem_cons.mp h with rfl | h
      · exact ⟨by decide, by decide⟩
      · rcases List.mem_cons.mp h with rfl | h
        · exact ⟨by decide, by decide⟩
        · rcases List.mem_append.mp h with h | h
          · exact (Identity.plain_of_mem_keyDigits h).1
          · exact plain_of_mem_privateText h

theorem cChars_toText : cChars (id.toText includePrivate) = id.text includePrivate :=
  cChars_ofList fun _ hc => plain_of_mem_text hc

theorem length_text_le : (id.text includePrivate).length ≤ 270 := by
  have hpublic : (Identity.keyDigits id.publicKey.bytes).length = 128 := by
    rw [Identity.length_keyDigits, id.publicKey.length_bytes]
    rfl
  have hprivate : (privateText (id.written includePrivate)).length ≤ 129 := by
    rcases id.written includePrivate with - | key
    · exact Nat.zero_le 129
    · show (Identity.keyDigits key.bytes).length + 1 ≤ 129
      rw [Identity.length_keyDigits, key.length_bytes]
      exact le_refl 129
  unfold text
  simp only [List.length_append, List.length_cons, length_hexDigits]
  omega

/-- The private key as a field. -/
def privateField : Option (Key eccPrivateKeySetLen) → List (List Char)
  | some key => [Identity.keyDigits key.bytes]
  | none => []

theorem keyDigits_ne_nil {n : ℕ} (hn : 0 < n) (key : Key n) :
    Identity.keyDigits key.bytes ≠ [] := by
  apply List.ne_nil_of_length_pos
  rw [Identity.length_keyDigits, key.length_bytes]
  omega

theorem stok_keys (privateKey : Option (Key eccPrivateKeySetLen)) (key : Key eccPublicKeySetLen) :
    stok ':' (Identity.keyDigits key.bytes ++ privateText privateKey) =
      Identity.keyDigits key.bytes :: privateField privateKey := by
  have hcolon : ∀ {k : Bytes}, ∀ c ∈ Identity.keyDigits k, c ≠ ':' :=
    fun c hc => (Identity.plain_of_mem_keyDigits hc).2
  have hkey := keyDigits_ne_nil (by decide) key
  rcases privateKey with - | secret
  · show stok ':' (Identity.keyDigits key.bytes ++ []) = [Identity.keyDigits key.bytes]
    rw [List.append_nil]
    exact stok_self hkey hcolon
  · show stok ':' (Identity.keyDigits key.bytes ++ ':' :: Identity.keyDigits secret.bytes) = _
    rw [stok_append hkey hcolon, stok_self (keyDigits_ne_nil (by decide) secret) hcolon]
    rfl

theorem stok_text :
    stok ':' (id.text includePrivate) =
      hexDigits 10 id.address.toNat :: ['0'] :: Identity.keyDigits id.publicKey.bytes ::
        privateField (id.written includePrivate) := by
  have hten : hexDigits 10 id.address.toNat ≠ [] := by
    apply List.ne_nil_of_length_pos
    rw [length_hexDigits]
    decide
  have hzero : ∀ c ∈ ['0'], c ≠ ':' := by
    intro c hc
    rw [List.mem_singleton.mp hc]
    decide
  have hkind := stok_append (List.cons_ne_nil _ _) hzero
    (Identity.keyDigits id.publicKey.bytes ++ privateText (id.written includePrivate))
  unfold text
  rw [stok_append hten fun c hc => (plain_of_mem_hexDigits hc).2]
  rw [List.singleton_append] at hkind
  rw [hkind, stok_keys]

/-- A key is read back from its digits. -/
theorem unhex_keyDigits {n : ℕ} (key : Key n) :
    unhex n (Identity.keyDigits key.bytes) = key.bytes := by
  have hback : unhex key.bytes.length (Identity.keyDigits key.bytes) = key.bytes :=
    unhex_flatMap key.bytes
  rwa [key.length_bytes] at hback

theorem readField_publicKey (self : HeldIdentity) (key : Key eccPublicKeySetLen) :
    readField 2 (Identity.keyDigits key.bytes) self = (true, { self with publicKey := key }) := by
  rw [readField]
  rw [unhex_keyDigits, key.length_bytes, Key.write_self]
  rfl

theorem readField_privateKey (self : HeldIdentity) (key : Key eccPrivateKeySetLen) :
    readField 3 (Identity.keyDigits key.bytes) self =
      (true, { self with privateKey := some key }) := by
  rw [readField]
  rw [unhex_keyDigits, key.length_bytes, Key.write_self]
  rfl

theorem readField_address (self : HeldIdentity) {address : Address}
    (h : address.isReserved = false) :
    readField 0 (hexDigits 10 address.toNat) self =
      (true, { self with address := address }) := by
  rw [readField]
  rw [Identity.ofUInt64_hexDigits, h]
  rfl

theorem readField_kind (self : HeldIdentity) : readField 1 ['0'] self = (true, self) := rfl

theorem readFields_cons {fno : ℕ} {f : List Char} {self next : HeldIdentity}
    (h : readField fno f self = (true, next)) (fields : List (List Char)) :
    readFields fno (f :: fields) self = readFields (fno + 1) fields next := by
  rw [readFields, h]
  rfl

/-- The last field, or none. -/
theorem readFields_privateField (self : HeldIdentity)
    (privateKey : Option (Key eccPrivateKeySetLen)) (h : self.privateKey = none) :
    readFields 3 (privateField privateKey) self =
      (true, { self with privateKey := privateKey }) := by
  rcases privateKey with - | key
  · show (true, self) = (true, { self with privateKey := none })
    rw [← h]
  · show readFields 3 [Identity.keyDigits key.bytes] self = _
    rw [readFields_cons (readField_privateKey self key)]
    rfl

/-- A text fits in the buffer it is copied to. -/
theorem length_text_fits : ¬ identityStringBufferLength ≤ (id.text includePrivate).length := by
  have hle : (id.text includePrivate).length ≤ 270 := length_text_le
  have hbuffer : identityStringBufferLength = 384 := rfl
  omega

/-- **An identity is read back from its text**, into any object. -/
theorem fromString_toText (haddress : id.address.isReserved = false) (self : HeldIdentity) :
    fromString (some (id.toText includePrivate)) self = (true, id.sent includePrivate) := by
  rw [fromString, cChars_toText, if_neg length_text_fits, stok_text,
    readFields_cons (readField_address _ haddress), readFields_cons (readField_kind _),
    readFields_cons (readField_publicKey _ id.publicKey), readFields_privateField]
  · rfl
  · rfl

theorem sent_isSome (id : HeldIdentity) : id.sent id.privateKey.isSome = id := by
  rcases id with ⟨address, publicKey, - | key⟩
  · rfl
  · rfl

/-! ### The canonical text -/

end HeldIdentity

/-- A row of `n` characters of `HEXCHARS`. -/
def LowerHex (n : ℕ) (l : List Char) : Prop :=
  l.length = n ∧ ∀ c ∈ l, ∃ d < 16, c = Nat.digitChar d

theorem lowerHex_hexDigits (n v : ℕ) : LowerHex n (hexDigits n v) :=
  ⟨length_hexDigits n v, fun _ hc => mem_hexDigits hc⟩

/-- The digits are those of a number. -/
theorem LowerHex.eq_hexDigits {n : ℕ} {l : List Char} (h : LowerHex n l) :
    ∃ v < 16 ^ n, l = hexDigits n v := by
  induction n generalizing l with
  | zero => exact ⟨0, Nat.one_pos, List.eq_nil_of_length_eq_zero h.1⟩
  | succ n ih =>
      rcases List.eq_nil_or_concat l with rfl | ⟨front, c, rfl⟩
      · cases h.1
      · have hlength := h.1
        rw [List.concat_eq_append, List.length_append, List.length_singleton] at hlength
        obtain ⟨d, hd, hc⟩ := h.2 c (by simp)
        obtain ⟨v, hv, hfront⟩ :=
          ih ⟨Nat.succ_injective hlength, fun c' hc' => h.2 c' (by simp [hc'])⟩
        refine ⟨v * 16 + d, ?_, ?_⟩
        · rw [Nat.pow_succ]
          omega
        · have hdiv : (v * 16 + d) / 16 = v := by omega
          have hmod : (v * 16 + d) % 16 = d := by omega
          rw [hexDigits, hdiv, hmod, ← hfront, hc, List.concat_eq_append]

/-- Twice as many digits are those of a key. -/
theorem LowerHex.eq_keyDigits {n : ℕ} {l : List Char} (h : LowerHex (2 * n) l) :
    ∃ key : Key n, l = Identity.keyDigits key.bytes := by
  -- on the bytes of the key, two digits at a time
  induction n generalizing l with
  | zero => exact ⟨⟨[], rfl⟩, List.eq_nil_of_length_eq_zero h.1⟩
  | succ n ih =>
      obtain ⟨hlength, hdigits⟩ := h
      rcases l with - | ⟨a, - | ⟨b, rest⟩⟩
      · cases hlength
      · exact absurd hlength (by simp; omega)
      · obtain ⟨d, hd, rfl⟩ := hdigits a (by simp)
        obtain ⟨e, he, rfl⟩ := hdigits b (by simp)
        have hrest : rest.length = 2 * n := by
          simp only [List.length_cons] at hlength
          omega
        obtain ⟨key, hkey⟩ := ih ⟨hrest, fun c hc => hdigits c (by simp [hc])⟩
        have hbyte : (UInt8.ofNat (d * 16 + e)).toNat = d * 16 + e :=
          UInt8.toNat_ofNat_of_lt' (show _ < 256 by omega)
        have hlist : (UInt8.ofNat (d * 16 + e) :: key.bytes).length = n + 1 := by
          rw [List.length_cons, key.length_bytes]
        refine ⟨⟨UInt8.ofNat (d * 16 + e) :: key.bytes, hlist⟩, ?_⟩
        have hdiv : (d * 16 + e) / 16 % 16 = d := by omega
        have hmod : (d * 16 + e) % 16 = e := by omega
        show _ = hexDigits 2 (UInt8.ofNat (d * 16 + e)).toNat ++ Identity.keyDigits key.bytes
        rw [hbyte, ← hkey]
        show _ = Nat.digitChar ((d * 16 + e) / 16 % 16) :: Nat.digitChar ((d * 16 + e) % 16) :: rest
        rw [hdiv, hmod]

theorem lowerHex_keyDigits {n : ℕ} (key : Key n) :
    LowerHex (2 * n) (Identity.keyDigits key.bytes) := by
  refine ⟨by rw [Identity.length_keyDigits, key.length_bytes], fun c hc => ?_⟩
  obtain ⟨b, -, hc⟩ := List.mem_flatMap.mp hc
  exact mem_hexDigits hc

namespace HeldIdentity

/-- The digits of a private key, if one is there, behind a colon. -/
def IsPrivateText (present : Bool) (l : List Char) : Prop :=
  if present then ∃ digits, LowerHex (2 * eccPrivateKeySetLen) digits ∧ l = ':' :: digits
  else l = []

/-- A text with a reserved address is refused. -/
theorem fromString_reserved {id : HeldIdentity} {includePrivate : Bool}
    (h : id.address.isReserved = true) (self : HeldIdentity) :
    (fromString (some (id.toText includePrivate)) self).1 = false := by
  rw [fromString, cChars_toText, if_neg length_text_fits, stok_text, readFields, readField,
    Identity.ofUInt64_hexDigits, h]
  rfl

/-- The canonical text of an identity: it is read as this identity, whatever the object held, and
consists of nothing but the digits of its fields, in lower case, and a colon between them. -/
structure CanonicalText (id : HeldIdentity) (str : String) : Prop where
  reads : ∀ self, fromString (some str) self = (true, id)
  shape : ∃ address publicKey privateKey, LowerHex 10 address ∧
    LowerHex (2 * eccPublicKeySetLen) publicKey ∧
    IsPrivateText id.privateKey.isSome privateKey ∧
    str = String.ofList (address ++ ':' :: '0' :: ':' :: (publicKey ++ privateKey))

/-- **What `toString` writes is canonical** for the identity. -/
theorem canonicalText_toText {id : HeldIdentity} (h : id.address.isReserved = false) :
    CanonicalText id (id.toText id.privateKey.isSome) where
  reads self := by rw [fromString_toText h, sent_isSome]
  shape := by
    refine ⟨_, _, _, lowerHex_hexDigits 10 id.address.toNat, lowerHex_keyDigits id.publicKey, ?_,
      rfl⟩
    rcases id with ⟨address, publicKey, - | key⟩
    · exact rfl
    · exact ⟨_, lowerHex_keyDigits key, rfl⟩

/-- **An identity has one canonical text.** -/
theorem CanonicalText.unique {id : HeldIdentity} {str : String} (h : CanonicalText id str) :
    str = id.toText id.privateKey.isSome := by
  obtain ⟨address, publicKey, privateKey, haddress, hpublic, hprivate, hstr⟩ := h.shape
  obtain ⟨v, hv, rfl⟩ := haddress.eq_hexDigits
  obtain ⟨key, rfl⟩ := hpublic.eq_keyDigits
  -- the text is written by some identity, which is the one that is read from it
  have hwritten : ∃ secret : Option (Key eccPrivateKeySetLen), privateKey = privateText secret := by
    unfold IsPrivateText at hprivate
    split_ifs at hprivate with hpresent
    · obtain ⟨digits, hdigits, rfl⟩ := hprivate
      obtain ⟨secret, rfl⟩ := hdigits.eq_keyDigits
      exact ⟨some secret, rfl⟩
    · exact ⟨none, hprivate⟩
  obtain ⟨secret, rfl⟩ := hwritten
  have hnat : (BitVec.ofNat 40 v).toNat = v := by
    rw [BitVec.toNat_ofNat]
    exact Nat.mod_eq_of_lt (lt_of_lt_of_eq hv (by norm_num))
  have htext : str = toText ⟨BitVec.ofNat 40 v, key, secret⟩ true := by
    rw [hstr]
    unfold toText text
    rw [hnat]
    rfl
  have hreads := h.reads id
  rw [htext] at hreads
  have haddress : Address.isReserved (BitVec.ofNat 40 v) = false := by
    by_contra hreserved
    rw [Bool.not_eq_false] at hreserved
    have hrefused : (fromString (some (toText ⟨BitVec.ofNat 40 v, key, secret⟩ true)) id).1 =
        false := fromString_reserved hreserved id
    rw [hreads] at hrefused
    cases hrefused
  have hid : id = ⟨BitVec.ofNat 40 v, key, secret⟩ := by
    rw [fromString_toText haddress] at hreads
    exact (Prod.mk.inj hreads).2.symm
  rw [htext, hid]
  rcases secret with - | secret
  · rfl
  · rfl

/-! ### Both codecs -/

/-- What a round trip through both forms keeps of an identity. -/
structure RoundTrips (id : HeldIdentity) (includePrivate : Bool) : Prop where
  text : ∀ self, fromString (some (id.toText includePrivate)) self = (true, id.sent includePrivate)
  fits : ∀ capacity b, b.length + (id.bytes includePrivate).length ≤ capacity →
    serialize id capacity b includePrivate = .ok (b ++ id.bytes includePrivate)
  binary : ∀ capacity b b', serialize id capacity b includePrivate = .ok b' → ∀ c,
    deserialize (b' ++ c) b.length = .ok (id.sent includePrivate, b'.length - b.length)

theorem roundTrips {id : HeldIdentity} (h : id.address.isReserved = false) (includePrivate : Bool) :
    RoundTrips id includePrivate where
  text := fromString_toText h
  fits capacity b hfits := by
    unfold serialize
    rw [if_neg (not_lt.mpr hfits)]
  binary capacity b b' hserialize c := by
    unfold serialize at hserialize
    split_ifs at hserialize with hfull
    obtain rfl := Except.ok.inj hserialize
    have hread := readsBack_bytes id includePrivate b c
    unfold deserialize
    rw [List.append_assoc, hread]
    show Except.ok (id.sent includePrivate,
      b.length + (id.bytes includePrivate).length - b.length) = _
    rw [List.length_append]

/-- What `fromString` leaves behind: a nil address, or an identity of which `toString` writes the
canonical text. -/
def ReadsOrRefuses (str : Option String) (self : HeldIdentity) : Prop :=
  ((fromString str self).1 = false ∧ (fromString str self).2.address = 0) ∨
    ∃ id, fromString str self = (true, id) ∧ CanonicalText id (id.toText id.privateKey.isSome)

theorem readsOrRefuses (str : Option String) (self : HeldIdentity) : ReadsOrRefuses str self := by
  by_cases haccepted : (fromString str self).1 = true
  · right
    exact ⟨(fromString str self).2, Prod.ext haccepted rfl,
      canonicalText_toText (fromString_accepted haccepted)⟩
  · left
    rw [Bool.not_eq_true] at haccepted
    exact ⟨haccepted, fromString_refused haccepted⟩

/-- **The codecs of identities.**  An identity with an address that is not reserved is read back
from its text and from its bytes, with its private key if that was written, and every text is
refused with a nil address left behind or read as an identity that has a canonical text. -/
theorem identityCodecs (id : HeldIdentity) (h : id.address.isReserved = false)
    (includePrivate : Bool) (str : Option String) (self : HeldIdentity) :
    RoundTrips id includePrivate ∧ ReadsOrRefuses str self :=
  ⟨roundTrips h includePrivate, readsOrRefuses str self⟩

/-- An identity with a private key, through both codecs. -/
theorem identityCodecs_one :
    RoundTrips ⟨1, Key.zero eccPublicKeySetLen, some (Key.zero eccPrivateKeySetLen)⟩ true ∧
      ReadsOrRefuses (some "1:0:")
        ⟨2, Key.zero eccPublicKeySetLen, some (Key.zero eccPrivateKeySetLen)⟩ :=
  identityCodecs ⟨1, Key.zero eccPublicKeySetLen, some (Key.zero eccPrivateKeySetLen)⟩
    (by decide) true (some "1:0:")
    ⟨2, Key.zero eccPublicKeySetLen, some (Key.zero eccPrivateKeySetLen)⟩

end HeldIdentity

end ZGalaxy
