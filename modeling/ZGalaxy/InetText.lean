/-
ZGalaxy/InetText.lean

IP addresses as text.

`inet_pton` and `inet_ntop` are parameters (`InetText`).  What is relied on is that the one reads
what the other writes, and of what is written only which characters it can have and how long it can
be (`Lawful`).  With that an address with its port is read back from `toString`, and without its
port from `toIpString`.

`dotted` is an instance: IPv4 addresses are written in dotted decimal, IPv6 ones without leaving out
zeros.
-/
import Mathlib.Data.List.TakeWhile
import Mathlib.Data.String.Basic
import ZGalaxy.Numerals
import ZGalaxy.FileDB

namespace ZGalaxy

open ByteList CString

/-- `inet_pton` and `inet_ntop`. -/
structure InetText extends InetPton where
  ntop4 : BitVec 32 → String
  ntop6 : BitVec 128 → String

namespace InetText

/-- What the two do for each other. -/
structure Lawful (T : InetText) : Prop where
  pton4 : ∀ ip, T.v4 (T.ntop4 ip) = ip
  chars4 : ∀ ip, ∀ c ∈ (T.ntop4 ip).toList, c = '.' ∨ digit c < 10
  dot : ∀ ip, '.' ∈ (T.ntop4 ip).toList
  size4 : ∀ ip, (T.ntop4 ip).utf8ByteSize ≤ 15
  pton6 : ∀ ip, T.v6 (T.ntop6 ip) = ip
  chars6 : ∀ ip, ∀ c ∈ (T.ntop6 ip).toList, c = ':' ∨ c = '.' ∨ digit c < 16
  colon : ∀ ip, ':' ∈ (T.ntop6 ip).toList
  size6 : ∀ ip, (T.ntop6 ip).utf8ByteSize ≤ 45

end InetText

namespace InetAddress

variable (T : InetText)

/-- `InetAddress::toIpString`. -/
def toIpString : InetAddress → String
  | nil => ""
  | v4 ip _ => T.ntop4 ip
  | v6 ip _ => T.ntop6 ip

/-- `InetAddress::toString`. -/
def toString (a : InetAddress) : String :=
  let p := a.toIpString T
  if p = "" then p else p ++ "/" ++ decimal a.port.toNat

end InetAddress

/-! ### Reading back -/

theorem utf8Len_of_digits {s : List Char} (hs : ∀ c ∈ s, c.utf8Size = 1) :
    String.utf8Len s = s.length := by
  induction s with
  | nil => rfl
  | cons c s ih =>
      rw [String.utf8Len_cons, ih fun c' hc' => hs c' (List.mem_cons_of_mem c hc'),
        hs c List.mem_cons_self, List.length_cons]

theorem length_decimalDigits_le (n : ℕ) {v : ℕ} (hv : v < 10 ^ (n + 1)) :
    (decimalDigits v).length ≤ n + 1 := by
  induction n generalizing v with
  | zero =>
      rw [decimalDigits, if_pos (by omega)]
      exact le_rfl
  | succ n ih =>
      rw [decimalDigits]
      split_ifs
      · exact Nat.succ_le_succ (Nat.zero_le _)
      · rw [List.length_append]
        exact Nat.succ_le_succ (ih (by rw [pow_succ] at hv; omega))

theorem utf8Size_decimalDigits (v : ℕ) : ∀ c ∈ decimalDigits v, c.utf8Size = 1 := by
  have hdigit : ∀ d < 10, (Nat.digitChar d).utf8Size = 1 := by decide
  induction v using Nat.strongRecOn with
  | ind v ih =>
      intro c hc
      rw [decimalDigits] at hc
      split_ifs at hc with hv
      · rw [List.mem_singleton.mp hc]
        exact hdigit v hv
      · rcases List.mem_append.mp hc with hc | hc
        · exact ih (v / 10) (by omega) c hc
        · rw [List.mem_singleton.mp hc]
          exact hdigit _ (Nat.mod_lt v (by decide))

theorem size_decimal {v : ℕ} (hv : v < 65536) : (decimal v).utf8ByteSize ≤ 5 := by
  rw [decimal, String.utf8ByteSize_ofList, utf8Len_of_digits (utf8Size_decimalDigits v)]
  exact length_decimalDigits_le 4 (by omega)

/-- What stands before and after the slash. -/
theorem split_slash {s t : List Char} (hs : '/' ∉ s) :
    (s ++ '/' :: t).takeWhile (· != '/') = s ∧
    ((s ++ '/' :: t).dropWhile (· != '/')).drop 1 = t := by
  have hall : ∀ c ∈ s, (c != '/') = true := by
    intro c hc
    exact bne_iff_ne.mpr fun h => hs (h ▸ hc)
  constructor
  · rw [List.takeWhile_append_of_pos hall]
    simp
  · rw [List.dropWhile_append_of_pos hall]
    simp

namespace InetAddress

variable {pton : InetPton} {T : InetText}

/-- The address that a text without a port stands for, with one. -/
def ofIpString (pton : InetPton) (s : String) (port : UInt16) : InetAddress :=
  if ':' ∈ s.toList then v6 (pton.v6 s) port
  else if '.' ∈ s.toList then v4 (pton.v4 s) port
  else nil

/-- Reading an address with its port. -/
theorem fromString_slash {s : String} (hslash : '/' ∉ s.toList) (hsize : s.utf8ByteSize ≤ 45)
    (port : UInt16) :
    fromString pton (s ++ "/" ++ decimal port.toNat) = ofIpString pton s port := by
  have hport := port.toNat_lt
  have hdecimal := size_decimal (v := port.toNat) (by omega)
  have hlist : (s ++ "/" ++ decimal port.toNat).toList =
      s.toList ++ '/' :: decimalDigits port.toNat := by
    have hone : "/".toList = ['/'] := rfl
    rw [String.toList_append, String.toList_append, List.append_assoc, hone, decimal,
      String.toList_ofList]
    rfl
  have hread : (strtoull 10 (String.ofList (decimalDigits port.toNat))).toUInt16 = port := by
    have hsize : port.toNat < UInt64.size := hport.trans (by decide)
    rw [← decimal, strtoull_decimal hsize]
    refine UInt16.toNat_inj.mp ?_
    rw [UInt64.toNat_toUInt16, UInt64.toNat_ofNat', Nat.mod_eq_of_lt hsize, Nat.mod_eq_of_lt hport]
  obtain ⟨htake, hdrop⟩ := split_slash (t := decimalDigits port.toNat) hslash
  unfold fromString ofIpString
  rw [if_neg, hlist]
  · dsimp only
    rw [htake, hdrop, hread, String.ofList_toList]
  · have hone : "/".utf8ByteSize = 1 := rfl
    rw [String.utf8ByteSize_append, String.utf8ByteSize_append, hone]
    omega

/-- Reading an address without a port. -/
theorem fromString_ip {s : String} (hslash : '/' ∉ s.toList) (hsize : s.utf8ByteSize ≤ 45) :
    fromString pton s = ofIpString pton s 0 := by
  have hall : ∀ c ∈ s.toList, (c != '/') = true := by
    intro c hc
    exact bne_iff_ne.mpr fun h => hslash (h ▸ hc)
  have htake : s.toList.takeWhile (· != '/') = s.toList := List.takeWhile_eq_self_iff.mpr hall
  have hdrop : s.toList.dropWhile (· != '/') = [] := List.dropWhile_eq_nil_iff.mpr hall
  have hread : (strtoull 10 (String.ofList [])).toUInt16 = 0 := by decide
  unfold fromString ofIpString
  rw [if_neg (by omega)]
  dsimp only
  rw [htake, hdrop, List.drop_nil, hread, String.ofList_toList]

theorem noSlash4 (hT : T.Lawful) (ip : BitVec 32) : '/' ∉ (T.ntop4 ip).toList := by
  intro hmem
  rcases hT.chars4 ip _ hmem with h | h
  · exact absurd h (by decide)
  · exact absurd h (by decide)

theorem noSlash6 (hT : T.Lawful) (ip : BitVec 128) : '/' ∉ (T.ntop6 ip).toList := by
  intro hmem
  rcases hT.chars6 ip _ hmem with h | h | h
  · exact absurd h (by decide)
  · exact absurd h (by decide)
  · exact absurd h (by decide)

theorem ofIpString_ntop4 (hT : T.Lawful) (ip : BitVec 32) (port : UInt16) :
    ofIpString T.toInetPton (T.ntop4 ip) port = v4 ip port := by
  have hcolon : ':' ∉ (T.ntop4 ip).toList := by
    intro hmem
    rcases hT.chars4 ip _ hmem with h | h
    · exact absurd h (by decide)
    · exact absurd h (by decide)
  rw [ofIpString, if_neg hcolon, if_pos (hT.dot ip), hT.pton4]

theorem ofIpString_ntop6 (hT : T.Lawful) (ip : BitVec 128) (port : UInt16) :
    ofIpString T.toInetPton (T.ntop6 ip) port = v6 ip port := by
  rw [ofIpString, if_pos (hT.colon ip), hT.pton6]

/-- **An address is read back** with its port. -/
theorem fromString_toString (hT : T.Lawful) (a : InetAddress) :
    fromString T.toInetPton (a.toString T) = a := by
  cases a with
  | nil => rfl
  | v4 ip port =>
      have hne : T.ntop4 ip ≠ "" := by
        intro h
        have hdot := hT.dot ip
        rw [h] at hdot
        cases hdot
      show fromString _ (if T.ntop4 ip = "" then _ else T.ntop4 ip ++ "/" ++ decimal port.toNat) = _
      rw [if_neg hne, fromString_slash (noSlash4 hT ip) ((hT.size4 ip).trans (by decide)),
        ofIpString_ntop4 hT]
  | v6 ip port =>
      have hne : T.ntop6 ip ≠ "" := by
        intro h
        have hcolon := hT.colon ip
        rw [h] at hcolon
        cases hcolon
      show fromString _ (if T.ntop6 ip = "" then _ else T.ntop6 ip ++ "/" ++ decimal port.toNat) = _
      rw [if_neg hne, fromString_slash (noSlash6 hT ip) (hT.size6 ip), ofIpString_ntop6 hT]

/-- An address is read back without its port. -/
theorem fromString_toIpString (hT : T.Lawful) (a : InetAddress) :
    fromString T.toInetPton (a.toIpString T) = a.setPort 0 := by
  cases a with
  | nil => rfl
  | v4 ip port =>
      exact (fromString_ip (noSlash4 hT ip) ((hT.size4 ip).trans (by decide))).trans
        (ofIpString_ntop4 hT ip 0)
  | v6 ip port =>
      exact (fromString_ip (noSlash6 hT ip) (hT.size6 ip)).trans (ofIpString_ntop6 hT ip 0)

end InetAddress

/-! ### An instance -/

/-- The groups of 16 bits of an IPv6 address. -/
def groups16 (n : ℕ) : List ℕ := (List.range 8).map fun k => n / 65536 ^ (7 - k) % 65536

/-- The parts of an IPv4 address. -/
def texts4 (ip : BitVec 32) : List (List Char) :=
  (beBytes 4 ip.toNat).map fun b => decimalDigits b.toNat

/-- The parts of an IPv6 address. -/
def texts6 (ip : BitVec 128) : List (List Char) := (groups16 ip.toNat).map fun g => hexDigits 4 g

/-- IPv4 addresses in dotted decimal, IPv6 addresses with all their zeros. -/
def dotted : InetText where
  v4 s := BitVec.ofNat 32
    (beNat ((s.toList.splitOn '.').map fun t => UInt8.ofNat (digits 10 0 t)))
  v6 s := BitVec.ofNat 128 ((s.toList.splitOn ':').foldl (fun n t => n * 65536 + digits 16 0 t) 0)
  ntop4 ip := String.ofList (List.intercalate ['.'] (texts4 ip))
  ntop6 ip := String.ofList (List.intercalate [':'] (texts6 ip))

theorem length_intercalate_le {x : Char} {n : ℕ} {l : List (List Char)} (hne : l ≠ [])
    (hl : ∀ s ∈ l, s.length ≤ n) : (List.intercalate [x] l).length < l.length * (n + 1) := by
  induction l with
  | nil => exact absurd rfl hne
  | cons s l ih =>
      have hs := hl s List.mem_cons_self
      cases l with
      | nil =>
          rw [List.intercalate_singleton, List.length_singleton]
          omega
      | cons t l =>
          have ih := ih (List.cons_ne_nil t l) fun u hu => hl u (List.mem_cons_of_mem s hu)
          have hmul : (s :: t :: l).length * (n + 1) = (t :: l).length * (n + 1) + (n + 1) := by
            rw [List.length_cons, Nat.succ_mul]
          rw [List.intercalate_cons_cons, List.length_append, List.length_append,
            List.length_singleton, hmul]
          omega

/-- The separator is written between two texts. -/
theorem sep_mem_intercalate {x : Char} {l : List (List Char)} (h : 2 ≤ l.length) :
    x ∈ List.intercalate [x] l := by
  obtain ⟨s, l, rfl⟩ := List.exists_cons_of_length_pos (by omega : 0 < l.length)
  obtain ⟨t, l, rfl⟩ := List.exists_cons_of_length_pos (by simp at h; omega : 0 < l.length)
  rw [List.intercalate_cons_cons]
  exact List.mem_append_left _ (List.mem_append_right s List.mem_cons_self)

theorem length_hexDigits (n v : ℕ) : (hexDigits n v).length = n := by
  induction n generalizing v with
  | zero => rfl
  | succ n ih => rw [hexDigits, List.length_append, ih, List.length_singleton]

theorem utf8Size_hexDigits {n v : ℕ} {c : Char} (h : c ∈ hexDigits n v) : c.utf8Size = 1 := by
  have hdigit : ∀ d < 16, (Nat.digitChar d).utf8Size = 1 := by decide
  obtain ⟨d, hd, rfl⟩ := mem_hexDigits h
  exact hdigit d hd

/-- A number is made up of its groups, the highest one first. -/
theorem foldl_groups (base k n : ℕ) :
    ((List.range k).map fun i => n / base ^ (k - 1 - i) % base).foldl (fun m g => m * base + g) 0
      = n % base ^ k := by
  induction k generalizing n with
  | zero => exact (Nat.mod_one n).symm
  | succ k ih =>
      -- the groups before the last one are those of the quotient
      have hfirst : ((List.range k).map fun i => n / base ^ (k + 1 - 1 - i) % base) =
          (List.range k).map fun i => n / base / base ^ (k - 1 - i) % base := by
        refine List.map_congr_left fun i hi => ?_
        have hlt := List.mem_range.mp hi
        rw [Nat.div_div_eq_div_mul, ← pow_succ', show k - 1 - i + 1 = k + 1 - 1 - i by omega]
      rw [List.range_succ, List.map_append, List.foldl_append, hfirst, ih]
      show n / base % base ^ k * base + n / base ^ (k - k) % base = _
      rw [Nat.sub_self, pow_zero, Nat.div_one, pow_succ', Nat.mod_mul, Nat.mul_comm, Nat.add_comm]

/-- The groups of an address make it up. -/
theorem foldl_groups16 (ip : BitVec 128) :
    (groups16 ip.toNat).foldl (fun n g => n * 65536 + g) 0 = ip.toNat := by
  have hlt : ip.toNat < 65536 ^ 8 := lt_of_lt_of_eq ip.isLt (by norm_num)
  exact (foldl_groups 65536 8 ip.toNat).trans (Nat.mod_eq_of_lt hlt)

theorem mem_texts4 {ip : BitVec 32} {s : List Char} (h : s ∈ texts4 ip) :
    ∃ b : UInt8, s = decimalDigits b.toNat := by
  obtain ⟨b, -, rfl⟩ := List.mem_map.mp h
  exact ⟨b, rfl⟩

theorem mem_texts6 {ip : BitVec 128} {s : List Char} (h : s ∈ texts6 ip) :
    ∃ g, s = hexDigits 4 g := by
  obtain ⟨g, -, rfl⟩ := List.mem_map.mp h
  exact ⟨g, rfl⟩

theorem length_texts4 (ip : BitVec 32) : (texts4 ip).length = 4 := by
  rw [texts4, List.length_map, length_beBytes]

theorem length_texts6 (ip : BitVec 128) : (texts6 ip).length = 8 := by
  rw [texts6, List.length_map, groups16, List.length_map, List.length_range]

theorem mem_ntop4 {ip : BitVec 32} {c : Char} (h : c ∈ List.intercalate ['.'] (texts4 ip)) :
    c = '.' ∨ digit c < 10 ∧ c.utf8Size = 1 := by
  rcases mem_intercalate h with h | ⟨s, hs, hc⟩
  · exact .inl h
  · obtain ⟨b, rfl⟩ := mem_texts4 hs
    exact .inr ⟨allDigits_decimalDigits b.toNat c hc, utf8Size_decimalDigits b.toNat c hc⟩

theorem mem_ntop6 {ip : BitVec 128} {c : Char} (h : c ∈ List.intercalate [':'] (texts6 ip)) :
    c = ':' ∨ digit c < 16 ∧ c.utf8Size = 1 := by
  rcases mem_intercalate h with h | ⟨s, hs, hc⟩
  · exact .inl h
  · obtain ⟨g, rfl⟩ := mem_texts6 hs
    exact .inr ⟨allDigits_hexDigits 4 g c hc, utf8Size_hexDigits hc⟩

theorem toList_ntop4 (ip : BitVec 32) :
    (dotted.ntop4 ip).toList = List.intercalate ['.'] (texts4 ip) := String.toList_ofList

theorem toList_ntop6 (ip : BitVec 128) :
    (dotted.ntop6 ip).toList = List.intercalate [':'] (texts6 ip) := String.toList_ofList

theorem dotted_pton4 (ip : BitVec 32) : dotted.v4 (dotted.ntop4 ip) = ip := by
  have hdot : ∀ s ∈ texts4 ip, '.' ∉ s := by
    intro s hs hmem
    obtain ⟨b, rfl⟩ := mem_texts4 hs
    exact absurd (allDigits_decimalDigits b.toNat '.' hmem) (by decide)
  have hne : texts4 ip ≠ [] := List.ne_nil_of_length_pos (by rw [length_texts4]; decide)
  have hread : (texts4 ip).map (fun t => UInt8.ofNat (digits 10 0 t)) = beBytes 4 ip.toNat := by
    rw [texts4, List.map_map]
    refine (List.map_congr_left fun b _ => ?_).trans (List.map_id _)
    show UInt8.ofNat (digits 10 0 (decimalDigits b.toNat)) = b
    rw [digits_decimalDigits, UInt8.ofNat_toNat]
  have hlt := ip.isLt
  show BitVec.ofNat 32 (beNat (((dotted.ntop4 ip).toList.splitOn '.').map _)) = ip
  rw [toList_ntop4, List.splitOn_intercalate '.' hdot hne, hread, beNat_beBytes]
  refine BitVec.eq_of_toNat_eq ?_
  rw [BitVec.toNat_ofNat]
  omega

theorem dotted_pton6 (ip : BitVec 128) : dotted.v6 (dotted.ntop6 ip) = ip := by
  have hcolon : ∀ s ∈ texts6 ip, ':' ∉ s := by
    intro s hs hmem
    obtain ⟨g, rfl⟩ := mem_texts6 hs
    exact absurd (allDigits_hexDigits 4 g ':' hmem) (by decide)
  have hne : texts6 ip ≠ [] := List.ne_nil_of_length_pos (by rw [length_texts6]; decide)
  have hgroups : (texts6 ip).map (digits 16 0) = groups16 ip.toNat := by
    rw [texts6, List.map_map]
    refine (List.map_congr_left fun g hg => ?_).trans (List.map_id _)
    obtain ⟨k, -, rfl⟩ := List.mem_map.mp hg
    have hlt : ip.toNat / 65536 ^ (7 - k) % 65536 < 16 ^ 4 := Nat.mod_lt _ (by decide)
    exact (digits_hexDigits 4 _).trans (Nat.mod_eq_of_lt hlt)
  have hread : (texts6 ip).foldl (fun n t => n * 65536 + digits 16 0 t) 0 = ip.toNat := by
    rw [← foldl_groups16 ip, ← hgroups, List.foldl_map]
  show BitVec.ofNat 128 (((dotted.ntop6 ip).toList.splitOn ':').foldl _ 0) = ip
  rw [toList_ntop6, List.splitOn_intercalate ':' hcolon hne, hread, BitVec.ofNat_toNat,
    BitVec.setWidth_eq]

theorem dotted_size4 (ip : BitVec 32) : (dotted.ntop4 ip).utf8ByteSize ≤ 15 := by
  have hne : texts4 ip ≠ [] := List.ne_nil_of_length_pos (by rw [length_texts4]; decide)
  have hlength : ∀ s ∈ texts4 ip, s.length ≤ 3 := by
    intro s hs
    obtain ⟨b, rfl⟩ := mem_texts4 hs
    have hb := b.toNat_lt
    exact length_decimalDigits_le 2 (by omega)
  have hsize : ∀ c ∈ List.intercalate ['.'] (texts4 ip), c.utf8Size = 1 := by
    intro c hc
    rcases mem_ntop4 hc with rfl | ⟨-, h⟩
    · rfl
    · exact h
  have hlt := length_intercalate_le (x := '.') hne hlength
  rw [length_texts4] at hlt
  show (String.ofList _).utf8ByteSize ≤ 15
  rw [String.utf8ByteSize_ofList, utf8Len_of_digits hsize]
  omega

theorem dotted_size6 (ip : BitVec 128) : (dotted.ntop6 ip).utf8ByteSize ≤ 45 := by
  have hne : texts6 ip ≠ [] := List.ne_nil_of_length_pos (by rw [length_texts6]; decide)
  have hlength : ∀ s ∈ texts6 ip, s.length ≤ 4 := by
    intro s hs
    obtain ⟨g, rfl⟩ := mem_texts6 hs
    exact (length_hexDigits 4 g).le
  have hsize : ∀ c ∈ List.intercalate [':'] (texts6 ip), c.utf8Size = 1 := by
    intro c hc
    rcases mem_ntop6 hc with rfl | ⟨-, h⟩
    · rfl
    · exact h
  have hlt := length_intercalate_le (x := ':') hne hlength
  rw [length_texts6] at hlt
  show (String.ofList _).utf8ByteSize ≤ 45
  rw [String.utf8ByteSize_ofList, utf8Len_of_digits hsize]
  omega

/-- **Dotted decimal** is an instance. -/
theorem dotted_lawful : dotted.Lawful where
  pton4 := dotted_pton4
  chars4 ip c hc := by
    rw [toList_ntop4] at hc
    exact (mem_ntop4 hc).imp_right And.left
  dot ip := by
    rw [toList_ntop4]
    exact sep_mem_intercalate (by rw [length_texts4]; decide)
  size4 := dotted_size4
  pton6 := dotted_pton6
  chars6 ip c hc := by
    rw [toList_ntop6] at hc
    exact (mem_ntop6 hc).imp_right fun h => .inr h.1
  colon ip := by
    rw [toList_ntop6]
    exact sep_mem_intercalate (by rw [length_texts6]; decide)
  size6 := dotted_size6

end ZGalaxy
