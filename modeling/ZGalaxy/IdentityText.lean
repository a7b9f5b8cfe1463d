/-
ZGalaxy/IdentityText.lean

Identities as text.

An identity is written as its address, the number of its kind, which is `0`, and its public key, in
hexadecimal with colons between them (`toText`); behind that the private key may follow.  Reading
(`ofText`) takes the fields apart at the colons, of which any number may stand in a row, and refuses
a text with a field too many or too few, a reserved address, another kind or a key that is too
short.

Main result: `ofText_toText`, that an identity is read back from what is written.
-/
import ZGalaxy.InetText
import ZGalaxy.World

namespace ZGalaxy

open ByteList CString

/-! ### Fields -/

/-- `ZT_IDENTITY_STRING_BUFFER_LENGTH`. -/
def identityStringBufferLength : ℕ := 384

/-- The characters of a C string: one for each byte, up to the first zero. -/
def cChars (s : String) : List Char :=
  (s.toByteArray.data.toList.takeWhile (· ≠ 0)).map fun b => Char.ofNat b.toNat

/-- `strtok_r` with one delimiter: the rows of other characters, as far as they are not empty. -/
def stok (delim : Char) (s : List Char) : List (List Char) :=
  (s.splitOnP (· == delim)).filter fun field => !field.isEmpty

namespace Identity

/-! ### Text -/

/-- `Identity::toString`, without the private key. -/
def toText (id : Identity) : String :=
  String.ofList
    (hexDigits 10 id.address.toNat ++ ':' :: '0' :: ':' ::
      id.publicKey.flatMap fun b => hexDigits 2 b.toNat)

/-- A key that is written in a field, if it is long enough. -/
def readKey (n : ℕ) (field : List Char) : Option Bytes :=
  if (unhex n field).length = n then some (unhex n field) else none

/-- The fields of an identity. -/
def ofFields : List (List Char) → Option Identity
  | [address, kind, key] => fields address kind key
  | [address, kind, key, secret] =>
      (readKey eccPrivateKeySetLen secret).bind fun _ => fields address kind key
  | _ => none
where
  /-- The address, the kind and the public key. -/
  fields (address kind key : List Char) : Option Identity :=
    let a := Address.ofUInt64 (strtoull 16 (String.ofList address)).toBitVec
    if a.isReserved || kind != ['0'] then none
    else (readKey eccPublicKeySetLen key).map fun publicKey => ⟨a, publicKey⟩

/-- `Identity(const char *)`: nothing where it throws. -/
def ofText (s : String) : Option Identity :=
  if identityStringBufferLength ≤ (cChars s).length then none
  else ofFields (stok ':' (cChars s))

end Identity

/-! ### Plain text -/

/-- A character of one byte that ends no text. -/
def IsPlain (c : Char) : Prop := 0 < c.toNat ∧ c.toNat < 128

theorem char_of_plain {c : Char} (h : IsPlain c) :
    c.val.toUInt8 ≠ 0 ∧ Char.ofNat c.val.toUInt8.toNat = c := by
  have hnat : c.val.toUInt8.toNat = c.toNat := by
    rw [UInt32.toNat_toUInt8]
    exact Nat.mod_eq_of_lt (h.2.trans (by decide))
  refine ⟨fun hzero => h.1.ne' ?_, ?_⟩
  · rw [← hnat, hzero]
    rfl
  · rw [hnat, Char.ofNat_toNat]

/-- A C string has the characters that are written to it. -/
theorem cChars_ofList {l : List Char} (h : ∀ c ∈ l, IsPlain c) : cChars (String.ofList l) = l := by
  have hencode : l.flatMap String.utf8EncodeChar = l.map fun c => c.val.toUInt8 := by
    induction l with
    | nil => rfl
    | cons c l ih =>
        have hc : String.utf8EncodeChar c = [c.val.toUInt8] := by
          apply String.utf8EncodeChar_eq_singleton
          apply Char.utf8Size_eq_one_iff.mpr
          exact Nat.le_of_lt_succ (h c List.mem_cons_self).2
        rw [List.flatMap_cons, hc, List.map_cons, List.singleton_append,
          ih fun c' hc' => h c' (List.mem_cons_of_mem c hc')]
  have hbytes : (String.ofList l).toByteArray.data.toList = l.map fun c => c.val.toUInt8 := by
    rw [String.toByteArray_ofList, List.utf8Encode, List.data_toByteArray, hencode]
  unfold cChars
  rw [hbytes, List.takeWhile_eq_self_iff.mpr, List.map_map]
  · conv_rhs => rw [← List.map_id l]
    exact List.map_congr_left fun c hc => (char_of_plain (h c hc)).2
  · intro b hb
    obtain ⟨c, hc, rfl⟩ := List.mem_map.mp hb
    exact decide_eq_true (char_of_plain (h c hc)).1

theorem plain_of_mem_hexDigits {n v : ℕ} {c : Char} (h : c ∈ hexDigits n v) :
    IsPlain c ∧ c ≠ ':' := by
  have hall : ∀ d < 16, (0 < (Nat.digitChar d).toNat ∧ (Nat.digitChar d).toNat < 128) ∧
      Nat.digitChar d ≠ ':' := by decide
  obtain ⟨d, hd, rfl⟩ := mem_hexDigits h
  exact hall d hd

/-- The first field stands before the first delimiter. -/
theorem stok_append {delim : Char} {field : List Char} (hne : field ≠ [])
    (h : ∀ c ∈ field, c ≠ delim) (rest : List Char) :
    stok delim (field ++ delim :: rest) = field :: stok delim rest := by
  have hfirst := List.splitOnP_append_cons_of_forall_mem (p := (· == delim))
    (fun c hc => beq_false_of_ne (h c hc)) delim (beq_self_eq_true delim) rest
  unfold stok
  rw [hfirst, List.filter_cons_of_pos]
  rw [Bool.not_eq_true']
  exact List.isEmpty_eq_false_iff.mpr hne

/-- The last field has no delimiter behind it. -/
theorem stok_self {delim : Char} {field : List Char} (hne : field ≠ [])
    (h : ∀ c ∈ field, c ≠ delim) : stok delim field = [field] := by
  have hself := List.splitOnP_eq_singleton (p := (· == delim))
    (fun c hc => beq_false_of_ne (h c hc))
  unfold stok
  rw [hself, List.filter_cons_of_pos, List.filter_nil]
  rw [Bool.not_eq_true']
  exact List.isEmpty_eq_false_iff.mpr hne

namespace Identity

variable {id : Identity}

/-- The digits of a key. -/
def keyDigits (key : Bytes) : List Char := key.flatMap fun b => hexDigits 2 b.toNat

theorem plain_of_mem_keyDigits {key : Bytes} {c : Char} (h : c ∈ keyDigits key) :
    IsPlain c ∧ c ≠ ':' := by
  obtain ⟨b, _, hc⟩ := List.mem_flatMap.mp h
  exact plain_of_mem_hexDigits hc

theorem length_keyDigits (key : Bytes) : (keyDigits key).length = 2 * key.length := by
  unfold keyDigits
  induction key with
  | nil => rfl
  | cons b key ih =>
      rw [List.flatMap_cons, List.length_append, length_hexDigits, ih, List.length_cons]
      omega

theorem readKey_keyDigits {key : Bytes} {n : ℕ} (h : key.length = n) :
    readKey n (keyDigits key) = some key := by
  subst h
  have hback : unhex key.length (keyDigits key) = key := unhex_flatMap key
  unfold readKey
  rw [hback, if_pos rfl]

/-- The characters of an identity. -/
theorem cChars_toText (id : Identity) :
    cChars id.toText =
      hexDigits 10 id.address.toNat ++ ':' :: (['0'] ++ ':' :: keyDigits id.publicKey) := by
  refine cChars_ofList fun c hc => ?_
  rcases List.mem_append.mp hc with hc | hc
  · exact (plain_of_mem_hexDigits hc).1
  · rcases List.mem_cons.mp hc with rfl | hc
    · exact ⟨by decide, by decide⟩
    · rcases List.mem_cons.mp hc with rfl | hc
      · exact ⟨by decide, by decide⟩
      · rcases List.mem_cons.mp hc with rfl | hc
        · exact ⟨by decide, by decide⟩
        · exact (plain_of_mem_keyDigits hc).1

/-- The fields of an identity. -/
theorem stok_toText (hkey : id.publicKey.length = eccPublicKeySetLen) :
    stok ':' (cChars id.toText) =
      [hexDigits 10 id.address.toNat, ['0'], keyDigits id.publicKey] := by
  have hten : hexDigits 10 id.address.toNat ≠ [] := by
    apply List.ne_nil_of_length_pos
    rw [length_hexDigits]
    decide
  have hlong : keyDigits id.publicKey ≠ [] := by
    apply List.ne_nil_of_length_pos
    rw [length_keyDigits, hkey]
    decide
  have hzero : ∀ c ∈ ['0'], c ≠ ':' := by
    intro c hc
    rw [List.mem_singleton.mp hc]
    decide
  rw [cChars_toText, stok_append hten fun c hc => (plain_of_mem_hexDigits hc).2,
    stok_append (List.cons_ne_nil _ _) hzero,
    stok_self hlong fun c hc => (plain_of_mem_keyDigits hc).2]

/-- An address is read back from its digits. -/
theorem ofUInt64_hexDigits (a : Address) :
    Address.ofUInt64 (strtoull 16 (String.ofList (hexDigits 10 a.toNat))).toBitVec = a := by
  have hread : strtoull 16 (hex 10 a.toNat) = UInt64.ofNat a.toNat :=
    strtoull_hex (by decide) a.isLt
  unfold hex at hread
  rw [hread]
  apply BitVec.eq_of_toNat_eq
  have hlt := a.isLt
  show (BitVec.setWidth 40 (BitVec.ofNat 64 a.toNat)).toNat = _
  rw [BitVec.toNat_setWidth, BitVec.toNat_ofNat]
  omega

/-- **An identity is read back from its text.** -/
theorem ofText_toText (haddress : id.address.isReserved = false)
    (hkey : id.publicKey.length = eccPublicKeySetLen) : ofText id.toText = some id := by
  have hlength : (cChars id.toText).length = 141 := by
    rw [cChars_toText, List.length_append, length_hexDigits, List.length_cons, List.length_append,
      List.length_singleton, List.length_cons, length_keyDigits, hkey]
    rfl
  unfold ofText
  rw [hlength, if_neg (by decide), stok_toText hkey, ofFields]
  unfold ofFields.fields
  rw [ofUInt64_hexDigits, readKey_keyDigits hkey]
  dsimp only
  rw [haddress]
  rfl

end Identity

end ZGalaxy
