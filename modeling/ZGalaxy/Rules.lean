/-
ZGalaxy/Rules.lean

Network flow rules and the bytes they are signed as.

A rule is a type with a NOT and an OR bit and the arguments of that type, which are the
member of the source's union that the type selects.  Types below 16 are actions, the
others matches; `reserved` stands for the types that have no meaning yet.

On the wire a rule is its type byte, the length of its arguments and the arguments,
each an unsigned integer of fixed width (`Body.fields`).  A rule read back from there is
its `wire` form: the bucket of a PRIORITY action is not written, and a ZeroTier address
loses what does not fit into 40 bits.

Main result: `serializeRules_inj`, equal bytes have equal wire forms.
-/
import ZGalaxy.InetAddress

namespace ZGalaxy

open ByteList

/-! ### Rules -/

/-- `ZT_MAX_NETWORK_RULES`. -/
def maxNetworkRules : ℕ := 1024

/-- The destination of a TEE, WATCH or REDIRECT. -/
structure Fwd where
  address : BitVec 64
  flags : UInt32
  length : UInt16
deriving DecidableEq

/-- The types up to `ZT_NETWORK_RULE_ACTION__MAX_ID`. -/
inductive Action
  | drop
  | accept
  | tee (fwd : Fwd)
  | watch (fwd : Fwd)
  | redirect (fwd : Fwd)
  | breakOut
  | priority (qosBucket : UInt8)
  | reserved (id : {t : Fin 16 // 7 ≤ t.val})
deriving DecidableEq

/-- How the two tags of a tag comparison are combined. -/
inductive TagsOp
  | difference
  | bitwiseAnd
  | bitwiseOr
  | bitwiseXor
  | equal
deriving DecidableEq

/-- The types from 16 up. -/
inductive Match
  | sourceZerotierAddress (zt : BitVec 64)
  | destZerotierAddress (zt : BitVec 64)
  | vlanId (vlanId : UInt16)
  | vlanPcp (vlanPcp : UInt8)
  | vlanDei (vlanDei : UInt8)
  | macSource (mac : Mac)
  | macDest (mac : Mac)
  | ipv4Source (ip : BitVec 32) (mask : UInt8)
  | ipv4Dest (ip : BitVec 32) (mask : UInt8)
  | ipv6Source (ip : BitVec 128) (mask : UInt8)
  | ipv6Dest (ip : BitVec 128) (mask : UInt8)
  | ipTos (mask value₀ value₁ : UInt8)
  | ipProtocol (ipProtocol : UInt8)
  | etherType (etherType : UInt16)
  | icmp (type code flags : UInt8)
  | ipSourcePortRange (port₀ port₁ : UInt16)
  | ipDestPortRange (port₀ port₁ : UInt16)
  | characteristics (characteristics : BitVec 64)
  | frameSizeRange (frameSize₀ frameSize₁ : UInt16)
  | random (randomProbability : UInt32)
  | tags (op : TagsOp) (id value : UInt32)
  | tagSender (id value : UInt32)
  | tagReceiver (id value : UInt32)
  | integerRange (start : UInt64) (end_ : UInt32) (idx : UInt16) (format : UInt8)
  | reserved (id : {t : Fin 64 // 16 ≤ t.val ∧ t.val < 24 ∨ 52 ≤ t.val})
deriving DecidableEq

/-- The type of a rule with its arguments. -/
inductive Body
  | action (a : Action)
  | entry (m : Match)
deriving DecidableEq

/-- `ZT_VirtualNetworkRule`. -/
structure Rule where
  not : Bool
  or : Bool
  body : Body
deriving DecidableEq

/-! ### Numbers -/

/-- `ZT_VirtualNetworkRuleType` of an action. -/
def Action.type : Action → ℕ
  | .drop => 0
  | .accept => 1
  | .tee _ => 2
  | .watch _ => 3
  | .redirect _ => 4
  | .breakOut => 5
  | .priority _ => 6
  | .reserved id => id.val

/-- `ZT_VirtualNetworkRuleType` of a tag comparison. -/
def TagsOp.type : TagsOp → ℕ
  | .difference => 44
  | .bitwiseAnd => 45
  | .bitwiseOr => 46
  | .bitwiseXor => 47
  | .equal => 48

/-- `ZT_VirtualNetworkRuleType` of a match. -/
def Match.type : Match → ℕ
  | .sourceZerotierAddress _ => 24
  | .destZerotierAddress _ => 25
  | .vlanId _ => 26
  | .vlanPcp _ => 27
  | .vlanDei _ => 28
  | .macSource _ => 29
  | .macDest _ => 30
  | .ipv4Source _ _ => 31
  | .ipv4Dest _ _ => 32
  | .ipv6Source _ _ => 33
  | .ipv6Dest _ _ => 34
  | .ipTos _ _ _ => 35
  | .ipProtocol _ => 36
  | .etherType _ => 37
  | .icmp _ _ _ => 38
  | .ipSourcePortRange _ _ => 39
  | .ipDestPortRange _ _ => 40
  | .characteristics _ => 41
  | .frameSizeRange _ _ => 42
  | .random _ => 43
  | .tags op _ _ => op.type
  | .tagSender _ _ => 49
  | .tagReceiver _ _ => 50
  | .integerRange _ _ _ _ => 51
  | .reserved id => id.val

/-- The lower six bits of a rule's type byte. -/
def Body.type : Body → ℕ
  | .action a => a.type
  | .entry m => m.type

/-- The type byte `t`: the type with the NOT bit 0x80 and the OR bit 0x40. -/
def Rule.t (r : Rule) : ℕ := (r.not.toNat * 2 + r.or.toNat) * 64 + r.body.type

theorem Action.type_lt (a : Action) : a.type < 16 := by
  cases a with
  | reserved id => exact id.val.isLt
  | _ => simp only [Action.type]; omega

theorem TagsOp.type_lt (op : TagsOp) : op.type < 64 := by
  cases op <;> simp only [TagsOp.type] <;> omega

theorem Match.type_lt (m : Match) : m.type < 64 := by
  cases m with
  | tags op _ _ => exact op.type_lt
  | reserved id => exact id.val.isLt
  | _ => simp only [Match.type]; omega

theorem Body.type_lt (b : Body) : b.type < 64 := by
  cases b with
  | action a => exact lt_trans a.type_lt (by decide)
  | entry m => exact m.type_lt

/-- A type byte determines the bits and the type. -/
theorem Rule.t_inj {r r' : Rule} (h : r.t = r'.t) :
    r.not = r'.not ∧ r.or = r'.or ∧ r.body.type = r'.body.type := by
  have hb := r.body.type_lt
  have hb' := r'.body.type_lt
  unfold Rule.t at h
  obtain ⟨n, o, b⟩ := r
  obtain ⟨n', o', b'⟩ := r'
  have hc : (n.toNat * 2 + o.toNat) = (n'.toNat * 2 + o'.toNat) := by
    simp only at h hb hb'
    omega
  refine ⟨?_, ?_, by simp only at h hc ⊢; omega⟩
  · revert hc
    cases n <;> cases n' <;> cases o <;> cases o' <;> simp
  · revert hc
    cases n <;> cases n' <;> cases o <;> cases o' <;> simp

/-! ### The wire form -/

/-- The arguments of a forwarding action, each with its width in bytes. -/
def Fwd.fields (fwd : Fwd) : List (ℕ × ℕ) :=
  [(8, fwd.address.toNat), (4, fwd.flags.toNat), (2, fwd.length.toNat)]

/-- The arguments of an action as `serializeRules` writes them. -/
def Action.fields : Action → List (ℕ × ℕ)
  | .tee fwd | .watch fwd | .redirect fwd => fwd.fields
  | .drop | .accept | .breakOut | .priority _ | .reserved _ => []

/-- The arguments of a match as `serializeRules` writes them. -/
def Match.fields : Match → List (ℕ × ℕ)
  | .sourceZerotierAddress zt | .destZerotierAddress zt =>
      [(addressLength, (Address.ofUInt64 zt).toNat)]
  | .vlanId v => [(2, v.toNat)]
  | .vlanPcp v => [(1, v.toNat)]
  | .vlanDei v => [(1, v.toNat)]
  | .macSource mac | .macDest mac => [(6, mac.toNat)]
  | .ipv4Source ip mask | .ipv4Dest ip mask => [(4, ip.toNat), (1, mask.toNat)]
  | .ipv6Source ip mask | .ipv6Dest ip mask => [(16, ip.toNat), (1, mask.toNat)]
  | .ipTos mask v₀ v₁ => [(1, mask.toNat), (1, v₀.toNat), (1, v₁.toNat)]
  | .ipProtocol p => [(1, p.toNat)]
  | .etherType e => [(2, e.toNat)]
  | .icmp type code flags => [(1, type.toNat), (1, code.toNat), (1, flags.toNat)]
  | .ipSourcePortRange p₀ p₁ | .ipDestPortRange p₀ p₁ => [(2, p₀.toNat), (2, p₁.toNat)]
  | .characteristics c => [(8, c.toNat)]
  | .frameSizeRange s₀ s₁ => [(2, s₀.toNat), (2, s₁.toNat)]
  | .random p => [(4, p.toNat)]
  | .tags _ id value | .tagSender id value | .tagReceiver id value =>
      [(4, id.toNat), (4, value.toNat)]
  | .integerRange start end_ idx format =>
      -- the end is written as an absolute number, which wraps
      [(8, start.toNat), (8, (start + end_.toUInt64).toNat), (2, idx.toNat), (1, format.toNat)]
  | .reserved _ => []

/-- The arguments of a rule as `serializeRules` writes them. -/
def Body.fields : Body → List (ℕ × ℕ)
  | .action a => a.fields
  | .entry m => m.fields

/-- One turn of the loop of `Capability::serializeRules`: the type, the size of the
arguments, the arguments. -/
def serializeRule (r : Rule) : Bytes :=
  UInt8.ofNat r.t :: UInt8.ofNat (r.body.fields.map Prod.fst).sum :: beFields r.body.fields

/-- `Capability::serializeRules`. -/
def serializeRules (rules : List Rule) : Bytes := rules.flatMap serializeRule

/-- What is left of a rule's arguments on the wire. -/
def Body.wire : Body → Body
  | .action (.priority _) => .action (.priority 0)
  | .entry (.sourceZerotierAddress zt) =>
      .entry (.sourceZerotierAddress ((Address.ofUInt64 zt).setWidth 64))
  | .entry (.destZerotierAddress zt) =>
      .entry (.destZerotierAddress ((Address.ofUInt64 zt).setWidth 64))
  | b => b

/-- The rule as it is read back from its bytes. -/
def Rule.wire (r : Rule) : Rule := { r with body := r.body.wire }

/-! ### Reading the arguments back -/

/-- The widths of the arguments of a type. -/
def fieldWidths : ℕ → List ℕ
  | 2 | 3 | 4 => [8, 4, 2]
  | 24 | 25 => [5]
  | 26 | 37 => [2]
  | 27 | 28 | 36 => [1]
  | 29 | 30 => [6]
  | 31 | 32 => [4, 1]
  | 33 | 34 => [16, 1]
  | 35 | 38 => [1, 1, 1]
  | 39 | 40 | 42 => [2, 2]
  | 41 => [8]
  | 43 => [4]
  | 44 | 45 | 46 | 47 | 48 | 49 | 50 => [4, 4]
  | 51 => [8, 8, 2, 1]
  | _ => []

/-- The forwarding destination with the given arguments. -/
def Fwd.ofValues (address flags length : ℕ) : Fwd :=
  ⟨BitVec.ofNat 64 address, UInt32.ofNat flags, UInt16.ofNat length⟩

/-- The rule of a type with the given arguments. -/
def Body.ofValues (rt : ℕ) (values : List ℕ) : Option Body :=
  match rt, values with
  | 0, _ => some (.action .drop)
  | 1, _ => some (.action .accept)
  | 2, [a, f, l] => some (.action (.tee (Fwd.ofValues a f l)))
  | 3, [a, f, l] => some (.action (.watch (Fwd.ofValues a f l)))
  | 4, [a, f, l] => some (.action (.redirect (Fwd.ofValues a f l)))
  | 5, _ => some (.action .breakOut)
  | 6, _ => some (.action (.priority 0))
  | 24, [zt] => some (.entry (.sourceZerotierAddress (BitVec.ofNat 64 zt)))
  | 25, [zt] => some (.entry (.destZerotierAddress (BitVec.ofNat 64 zt)))
  | 26, [v] => some (.entry (.vlanId (UInt16.ofNat v)))
  | 27, [v] => some (.entry (.vlanPcp (UInt8.ofNat v)))
  | 28, [v] => some (.entry (.vlanDei (UInt8.ofNat v)))
  | 29, [m] => some (.entry (.macSource (BitVec.ofNat 48 m)))
  | 30, [m] => some (.entry (.macDest (BitVec.ofNat 48 m)))
  | 31, [ip, m] => some (.entry (.ipv4Source (BitVec.ofNat 32 ip) (UInt8.ofNat m)))
  | 32, [ip, m] => some (.entry (.ipv4Dest (BitVec.ofNat 32 ip) (UInt8.ofNat m)))
  | 33, [ip, m] => some (.entry (.ipv6Source (BitVec.ofNat 128 ip) (UInt8.ofNat m)))
  | 34, [ip, m] => some (.entry (.ipv6Dest (BitVec.ofNat 128 ip) (UInt8.ofNat m)))
  | 35, [m, v₀, v₁] =>
      some (.entry (.ipTos (UInt8.ofNat m) (UInt8.ofNat v₀) (UInt8.ofNat v₁)))
  | 36, [p] => some (.entry (.ipProtocol (UInt8.ofNat p)))
  | 37, [e] => some (.entry (.etherType (UInt16.ofNat e)))
  | 38, [t, c, f] => some (.entry (.icmp (UInt8.ofNat t) (UInt8.ofNat c) (UInt8.ofNat f)))
  | 39, [p₀, p₁] => some (.entry (.ipSourcePortRange (UInt16.ofNat p₀) (UInt16.ofNat p₁)))
  | 40, [p₀, p₁] => some (.entry (.ipDestPortRange (UInt16.ofNat p₀) (UInt16.ofNat p₁)))
  | 41, [c] => some (.entry (.characteristics (BitVec.ofNat 64 c)))
  | 42, [s₀, s₁] => some (.entry (.frameSizeRange (UInt16.ofNat s₀) (UInt16.ofNat s₁)))
  | 43, [p] => some (.entry (.random (UInt32.ofNat p)))
  | 44, [i, v] => some (.entry (.tags .difference (UInt32.ofNat i) (UInt32.ofNat v)))
  | 45, [i, v] => some (.entry (.tags .bitwiseAnd (UInt32.ofNat i) (UInt32.ofNat v)))
  | 46, [i, v] => some (.entry (.tags .bitwiseOr (UInt32.ofNat i) (UInt32.ofNat v)))
  | 47, [i, v] => some (.entry (.tags .bitwiseXor (UInt32.ofNat i) (UInt32.ofNat v)))
  | 48, [i, v] => some (.entry (.tags .equal (UInt32.ofNat i) (UInt32.ofNat v)))
  | 49, [i, v] => some (.entry (.tagSender (UInt32.ofNat i) (UInt32.ofNat v)))
  | 50, [i, v] => some (.entry (.tagReceiver (UInt32.ofNat i) (UInt32.ofNat v)))
  | 51, [s, e, i, f] =>
      let start := UInt64.ofNat s
      some (.entry (.integerRange start (UInt64.ofNat e - start).toUInt32 (UInt16.ofNat i)
        (UInt8.ofNat f)))
  | rt, _ =>
      if h : 7 ≤ rt ∧ rt < 16 then some (.action (.reserved ⟨⟨rt, h.2⟩, h.1⟩))
      else if h : rt < 64 ∧ (16 ≤ rt ∧ rt < 24 ∨ 52 ≤ rt) then
        some (.entry (.reserved ⟨⟨rt, h.1⟩, h.2⟩))
      else none

/-- The widths of a rule's arguments are those of its type. -/
theorem Body.map_fst_fields (b : Body) : b.fields.map Prod.fst = fieldWidths b.type := by
  have hact : ∀ id : {t : Fin 16 // 7 ≤ t.val}, fieldWidths id.val.val = [] := by decide
  have hent : ∀ id : {t : Fin 64 // 16 ≤ t.val ∧ t.val < 24 ∨ 52 ≤ t.val},
      fieldWidths id.val.val = [] := by decide
  cases b with
  | action a =>
      cases a with
      | reserved id => exact (hact id).symm
      | _ => rfl
  | entry m =>
      cases m with
      | reserved id => exact (hent id).symm
      | tags op _ _ => cases op <;> rfl
      | _ => rfl

/-- The arguments of a rule fit their widths. -/
theorem Body.fields_lt (b : Body) : ∀ f ∈ b.fields, f.2 < 256 ^ f.1 := by
  have h₁ : ∀ v : UInt8, v.toNat < 256 ^ 1 := fun v => v.toNat_lt
  have h₂ : ∀ v : UInt16, v.toNat < 256 ^ 2 := fun v => v.toNat_lt
  have h₄ : ∀ v : UInt32, v.toNat < 256 ^ 4 := fun v => v.toNat_lt
  have h₈ : ∀ v : UInt64, v.toNat < 256 ^ 8 := fun v => v.toNat_lt
  have hbv : ∀ {w n : ℕ} (v : BitVec w), 2 ^ w = 256 ^ n → v.toNat < 256 ^ n :=
    fun v h => h ▸ v.isLt
  have hfwd : ∀ fwd : Fwd, ∀ f ∈ fwd.fields, f.2 < 256 ^ f.1 := by
    intro fwd
    simp only [Fwd.fields, List.forall_mem_cons, List.not_mem_nil, false_implies, implies_true,
      and_true]
    exact ⟨hbv _ (by norm_num), h₄ _, h₂ _⟩
  cases b with
  | action a =>
      cases a with
      | tee fwd | watch fwd | redirect fwd => exact hfwd fwd
      | _ => exact fun _ hf => absurd hf List.not_mem_nil
  | entry m =>
      cases m <;> simp only [Body.fields, Match.fields, addressLength, List.forall_mem_cons,
        List.not_mem_nil, false_implies, implies_true, and_true]
      case sourceZerotierAddress | destZerotierAddress => exact hbv _ (by norm_num)
      case macSource | macDest => exact hbv _ (by norm_num)
      case ipv4Source | ipv4Dest => exact ⟨hbv _ (by norm_num), h₁ _⟩
      case ipv6Source | ipv6Dest => exact ⟨hbv _ (by norm_num), h₁ _⟩
      case characteristics => exact hbv _ (by norm_num)
      case integerRange => exact ⟨h₈ _, h₈ _, h₂ _, h₁ _⟩
      case ipTos | icmp => exact ⟨h₁ _, h₁ _, h₁ _⟩
      case vlanPcp | vlanDei | ipProtocol => exact h₁ _
      case vlanId | etherType => exact h₂ _
      case random => exact h₄ _
      case tags | tagSender | tagReceiver => exact ⟨h₄ _, h₄ _⟩
      case ipSourcePortRange | ipDestPortRange | frameSizeRange => exact ⟨h₂ _, h₂ _⟩

theorem Fwd.ofValues_toNat (fwd : Fwd) :
    Fwd.ofValues fwd.address.toNat fwd.flags.toNat fwd.length.toNat = fwd := by
  obtain ⟨a, f, l⟩ := fwd
  simp [Fwd.ofValues]

/-- Type and arguments determine the wire form of a rule. -/
theorem Body.ofValues_fields (b : Body) :
    ofValues b.type (b.fields.map Prod.snd) = some b.wire := by
  have hact : ∀ id : {t : Fin 16 // 7 ≤ t.val},
      ofValues id.val.val [] = some (.action (.reserved id)) := by decide
  have hent : ∀ id : {t : Fin 64 // 16 ≤ t.val ∧ t.val < 24 ∨ 52 ≤ t.val},
      ofValues id.val.val [] = some (.entry (.reserved id)) := by decide
  have h₁ : ∀ v : UInt8, UInt8.ofNat v.toNat = v := fun v => UInt8.ofNat_toNat
  have h₂ : ∀ v : UInt16, UInt16.ofNat v.toNat = v := fun v => UInt16.ofNat_toNat
  have h₄ : ∀ v : UInt32, UInt32.ofNat v.toNat = v := fun v => UInt32.ofNat_toNat
  have hbv : ∀ {w : ℕ} (v : BitVec w), BitVec.ofNat w v.toNat = v := fun v => by simp
  have hzt : ∀ zt : BitVec 64, BitVec.ofNat 64 (Address.ofUInt64 zt).toNat
      = (Address.ofUInt64 zt).setWidth 64 := fun zt => BitVec.ofNat_toNat _ _
  -- the end comes back by subtracting the start again
  have hend : ∀ (s : UInt64) (e : UInt32),
      (UInt64.ofNat (s + e.toUInt64).toNat - UInt64.ofNat s.toNat).toUInt32 = e := by
    intro s e
    rw [UInt64.ofNat_toNat, UInt64.ofNat_toNat, UInt64.add_comm, UInt64.add_sub_cancel,
      UInt32.toUInt32_toUInt64]
  cases b with
  | action a =>
      cases a with
      | reserved id => exact hact id
      | tee fwd => exact congrArg (some <| action <| .tee ·) fwd.ofValues_toNat
      | watch fwd => exact congrArg (some <| action <| .watch ·) fwd.ofValues_toNat
      | redirect fwd => exact congrArg (some <| action <| .redirect ·) fwd.ofValues_toNat
      | _ => rfl
  | entry m =>
      cases m with
      | reserved id => exact hent id
      | sourceZerotierAddress zt =>
          exact congrArg (some <| entry <| .sourceZerotierAddress ·) (hzt zt)
      | destZerotierAddress zt => exact congrArg (some <| entry <| .destZerotierAddress ·) (hzt zt)
      | vlanId v => exact congrArg (some <| entry <| .vlanId ·) (h₂ v)
      | vlanPcp v => exact congrArg (some <| entry <| .vlanPcp ·) (h₁ v)
      | vlanDei v => exact congrArg (some <| entry <| .vlanDei ·) (h₁ v)
      | macSource v => exact congrArg (some <| entry <| .macSource ·) (hbv v)
      | macDest v => exact congrArg (some <| entry <| .macDest ·) (hbv v)
      | ipv4Source ip m => exact congrArg₂ (some <| entry <| .ipv4Source · ·) (hbv ip) (h₁ m)
      | ipv4Dest ip m => exact congrArg₂ (some <| entry <| .ipv4Dest · ·) (hbv ip) (h₁ m)
      | ipv6Source ip m => exact congrArg₂ (some <| entry <| .ipv6Source · ·) (hbv ip) (h₁ m)
      | ipv6Dest ip m => exact congrArg₂ (some <| entry <| .ipv6Dest · ·) (hbv ip) (h₁ m)
      | ipTos m v₀ v₁ =>
          show some (entry (.ipTos (UInt8.ofNat m.toNat) _ _)) = _
          rw [h₁, h₁, h₁]
          rfl
      | ipProtocol v => exact congrArg (some <| entry <| .ipProtocol ·) (h₁ v)
      | etherType v => exact congrArg (some <| entry <| .etherType ·) (h₂ v)
      | icmp t c f =>
          show some (entry (.icmp (UInt8.ofNat t.toNat) _ _)) = _
          rw [h₁, h₁, h₁]
          rfl
      | ipSourcePortRange p₀ p₁ =>
          exact congrArg₂ (some <| entry <| .ipSourcePortRange · ·) (h₂ p₀) (h₂ p₁)
      | ipDestPortRange p₀ p₁ =>
          exact congrArg₂ (some <| entry <| .ipDestPortRange · ·) (h₂ p₀) (h₂ p₁)
      | characteristics v => exact congrArg (some <| entry <| .characteristics ·) (hbv v)
      | frameSizeRange s₀ s₁ =>
          exact congrArg₂ (some <| entry <| .frameSizeRange · ·) (h₂ s₀) (h₂ s₁)
      | random v => exact congrArg (some <| entry <| .random ·) (h₄ v)
      | tags op i v =>
          cases op
          all_goals exact congrArg₂ (some <| entry <| .tags _ · ·) (h₄ i) (h₄ v)
      | tagSender i v => exact congrArg₂ (some <| entry <| .tagSender · ·) (h₄ i) (h₄ v)
      | tagReceiver i v => exact congrArg₂ (some <| entry <| .tagReceiver · ·) (h₄ i) (h₄ v)
      | integerRange s e i f =>
          show some (entry (.integerRange (UInt64.ofNat s.toNat) _ _ _)) = _
          rw [hend, UInt64.ofNat_toNat, h₂, h₁]
          rfl

/-! ### Equal bytes -/

/-- Rules with the same bytes in front of anything are the same on the wire. -/
theorem serializeRule_append_inj {r r' : Rule} {x y : Bytes}
    (h : serializeRule r ++ x = serializeRule r' ++ y) : r.wire = r'.wire ∧ x = y := by
  have htlt : ∀ q : Rule, q.t < 256 := by
    intro q
    have hb := q.body.type_lt
    have hn := q.not.toNat_lt
    have ho := q.or.toNat_lt
    unfold Rule.t
    omega
  simp only [serializeRule, List.cons_append, List.cons.injEq] at h
  obtain ⟨ht, -, hrest⟩ := h
  have ht' : r.t = r'.t := by
    have hn := congrArg UInt8.toNat ht
    rwa [UInt8.toNat_ofNat', UInt8.toNat_ofNat', Nat.mod_eq_of_lt (htlt r),
      Nat.mod_eq_of_lt (htlt r')] at hn
  obtain ⟨hnot, hor, htype⟩ := Rule.t_inj ht'
  obtain ⟨hf, hxy⟩ := beFields_append_inj
    (by rw [r.body.map_fst_fields, r'.body.map_fst_fields, htype]) r.body.fields_lt
    r'.body.fields_lt hrest
  have hbody : some r.body.wire = some r'.body.wire := by
    rw [← r.body.ofValues_fields, ← r'.body.ofValues_fields, htype, hf]
  refine ⟨?_, hxy⟩
  rw [Rule.wire, Rule.wire, hnot, hor, Option.some.inj hbody]

/-- **Rules with the same bytes are the same on the wire**. -/
theorem serializeRules_inj {rs rs' : List Rule} (h : serializeRules rs = serializeRules rs') :
    rs.map Rule.wire = rs'.map Rule.wire := by
  induction rs generalizing rs' with
  | nil =>
      rcases rs' with - | ⟨r', rs'⟩
      · rfl
      · cases h
  | cons r rs ih =>
      rcases rs' with - | ⟨r', rs'⟩
      · cases h
      · obtain ⟨hr, hrest⟩ := serializeRule_append_inj h
        rw [List.map_cons, List.map_cons, hr, ih hrest]

end ZGalaxy
