/-
ZGalaxy/RuleCodec.lean

Rules written and read back.

`serializeRules` and `deserializeRules` go through the types side by side, each with a layout for
every type; a type without one has no arguments.  The bucket of a PRIORITY action has no layout
either, so it is lost (`Rule.wire`).  What is read goes on where the size of the arguments says, so
a rule of a type without a meaning is passed over, whatever its arguments.

Main result: `ruleCodec`, which rules come back as they were.
-/
import ZGalaxy.CredentialReaders

namespace ZGalaxy

open ByteList Buffer

/-! ### One rule -/

/-- Fields are read back with their widths. -/
theorem readsBack_values {fs : List (ℕ × ℕ)} (h : ∀ f ∈ fs, f.2 < 256 ^ f.1) :
    Reader.ReadsBack (readValues (fs.map Prod.fst)) (fs.map Prod.snd) (beFields fs) := by
  induction fs with
  | nil => exact Reader.ReadsBack.pure []
  | cons f fs ih =>
      have hf := readsBack_uint (h f List.mem_cons_self)
      have hrest := ih fun g hg => h g (List.mem_cons_of_mem f hg)
      exact hf.bind (hrest.map (List.cons f.2))

theorem Rule.t_lt (r : Rule) : r.t < 256 := by
  have hb := r.body.type_lt
  have hn := r.not.toNat_lt
  have ho := r.or.toNat_lt
  unfold Rule.t
  omega

/-- A type byte and arguments are those of a rule on the wire. -/
theorem Rule.ofValues_t (r : Rule) :
    Rule.ofValues (UInt8.ofNat r.t) (r.body.fields.map Prod.snd) = some r.wire := by
  have ht : (UInt8.ofNat r.t).toNat = r.t := UInt8.toNat_ofNat_of_lt' r.t_lt
  have hb := r.body.type_lt
  have hmod : r.t % 64 = r.body.type := by
    unfold Rule.t
    omega
  unfold Rule.ofValues
  rw [ht, hmod, r.body.ofValues_fields]
  have hnot : decide (128 ≤ r.t) = r.not := by
    unfold Rule.t
    cases r.not <;> cases r.or <;> simp <;> omega
  have hor : decide (64 ≤ r.t % 128) = r.or := by
    unfold Rule.t
    cases r.not <;> cases r.or <;> simp <;> omega
  rw [Option.map_some, Rule.wire]
  simp only [hnot, hor]

theorem fieldWidths_sum_lt {rt : ℕ} (h : rt < 64) : (fieldWidths rt).sum < 256 := by
  revert rt
  decide

/-- One turn of the loop reads a rule whose arguments are found and make one, and ends where its
size says. -/
theorem readsBack_readRule {t size : UInt8} {values : List ℕ} {rule : Rule} {arguments : Bytes}
    (hvalues : ∀ a c, ∃ q, readValues (fieldWidths (t.toNat % 64)) (a ++ (arguments ++ c))
      a.length = .ok (values, q))
    (hrule : Rule.ofValues t values = some rule) (hsize : size.toNat = arguments.length) :
    Reader.ReadsBack readRule rule (t :: size :: arguments) := by
  show Reader.ReadsBack readRule rule ([t] ++ ([size] ++ arguments))
  refine (readsBack_byte t).bind ((readsBack_byte size).bind ?_)
  intro a c
  obtain ⟨q, hq⟩ := hvalues a c
  simp only [hq, hrule, hsize]

/-- **A rule is read back** as it is on the wire. -/
theorem readsBack_rule (r : Rule) : Reader.ReadsBack readRule r.wire (serializeRule r) := by
  have ht : (UInt8.ofNat r.t).toNat = r.t := UInt8.toNat_ofNat_of_lt' r.t_lt
  have hb := r.body.type_lt
  have hmod : r.t % 64 = r.body.type := by
    unfold Rule.t
    omega
  have hlen : (UInt8.ofNat (r.body.fields.map Prod.fst).sum).toNat =
      (beFields r.body.fields).length := by
    rw [length_beFields]
    refine UInt8.toNat_ofNat_of_lt' ?_
    rw [r.body.map_fst_fields]
    exact fieldWidths_sum_lt hb
  have hvalues := readsBack_values r.body.fields_lt
  rw [r.body.map_fst_fields] at hvalues
  refine readsBack_readRule (fun a c => ⟨a.length + (beFields r.body.fields).length, ?_⟩)
    r.ofValues_t hlen
  rw [ht, hmod]
  exact hvalues a c

/-! ### A row of rules -/

/-- **Rules are read one after another**, each from its own bytes, until there are as many as asked
for or the bytes end. -/
theorem deserializeRules_row (row : List (Rule × Bytes))
    (hrow : ∀ c ∈ row, Reader.ReadsBack readRule c.1 c.2 ∧ c.2 ≠ []) (n : ℕ) (a rest : Bytes)
    (hn : n = row.length ∨ row.length ≤ n ∧ rest = []) :
    ∃ out : {rules : List Rule // rules.length ≤ n}, out.val = row.map Prod.fst ∧
      deserializeRules n (a ++ (row.flatMap Prod.snd ++ rest)) a.length =
        .ok (out, a.length + (row.flatMap Prod.snd).length) := by
  induction row generalizing n a with
  | nil =>
      cases n with
      | zero => exact ⟨⟨[], le_rfl⟩, rfl, rfl⟩
      | succ n =>
          -- there is room for more, but the bytes end
          obtain rfl : rest = [] := (hn.resolve_left (Nat.succ_ne_zero n)).2
          refine ⟨⟨[], Nat.zero_le _⟩, rfl, if_pos ?_⟩
          rw [List.flatMap_nil, List.append_nil, List.append_nil]
  | cons c row ih =>
      obtain ⟨hc, hne⟩ := hrow c List.mem_cons_self
      cases n with
      | zero =>
          rw [List.length_cons] at hn
          omega
      | succ n =>
          have hn' : n = row.length ∨ row.length ≤ n ∧ rest = [] := by
            rcases hn with hn | ⟨hn, hrest⟩
            · exact Or.inl (Nat.succ.inj hn)
            · exact Or.inr ⟨Nat.le_of_succ_le_succ hn, hrest⟩
          obtain ⟨out, hout, hread⟩ := ih (fun c' hc' => hrow c' (List.mem_cons_of_mem c hc')) n
            (a ++ c.2) hn'
          have hpos := List.length_pos_of_ne_nil hne
          refine ⟨⟨c.1 :: out.val, Nat.succ_le_succ out.property⟩, ?_, ?_⟩
          · exact congrArg (List.cons c.1) hout
          · rw [List.flatMap_cons, List.append_assoc]
            refine (if_neg ?_).trans ?_
            · rw [List.length_append, List.length_append]
              omega
            · refine Reader.bind_ok.mpr ⟨c.1, _, hc a _, Reader.bind_ok.mpr ⟨out, _, ?_, rfl⟩⟩
              rw [List.length_append, List.append_assoc] at hread
              rw [hread, List.length_append, Nat.add_assoc]

/-- A row is read as one. -/
theorem serializeRules_eq (rules : List Rule) :
    serializeRules rules = (rules.map fun r => (r.wire, serializeRule r)).flatMap Prod.snd := by
  unfold serializeRules
  rw [List.flatMap_map]

theorem serializeRule_ne_nil (r : Rule) : serializeRule r ≠ [] := List.cons_ne_nil _ _

/-! ### Rules of types without a meaning -/

/-- The byte is that of a type that has no meaning yet. -/
def UnknownType (t : UInt8) : Prop :=
  7 ≤ t.toNat % 64 ∧ t.toNat % 64 < 24 ∨ 52 ≤ t.toNat % 64

/-- A rule as a later version may write it. -/
def unknownRule (t : UInt8) (arguments : Bytes) : Bytes :=
  t :: UInt8.ofNat arguments.length :: arguments

theorem ofValues_unknown {t : UInt8} (ht : UnknownType t) :
    ∃ rule, Rule.ofValues t [] = some rule ∧ rule.t = t.toNat := by
  have hlt := t.toNat_lt
  have hbits : ∀ b : Body, b.type = t.toNat % 64 →
      Rule.t ⟨128 ≤ t.toNat, 64 ≤ t.toNat % 128, b⟩ = t.toNat := by
    intro b hb
    unfold Rule.t
    rw [hb]
    by_cases h₁ : 128 ≤ t.toNat <;> by_cases h₂ : 64 ≤ t.toNat % 128 <;> simp [h₁, h₂] <;> omega
  unfold Rule.ofValues
  have hbody : ∃ b, Body.ofValues (t.toNat % 64) [] = some b ∧ b.type = t.toNat % 64 := by
    have key : ∀ rt : Fin 64, 7 ≤ rt.val ∧ rt.val < 24 ∨ 52 ≤ rt.val →
        ((Body.ofValues rt.val []).map Body.type) = some rt.val := by decide
    have := key ⟨t.toNat % 64, Nat.mod_lt _ (by decide)⟩ ht
    exact Option.map_eq_some_iff.mp this
  obtain ⟨b, hb, htype⟩ := hbody
  rw [hb]
  exact ⟨_, rfl, hbits b htype⟩

theorem fieldWidths_unknown {t : UInt8} (ht : UnknownType t) : fieldWidths (t.toNat % 64) = [] := by
  have key : ∀ rt : Fin 64, 7 ≤ rt.val ∧ rt.val < 24 ∨ 52 ≤ rt.val → fieldWidths rt.val = [] := by
    decide
  exact key ⟨t.toNat % 64, Nat.mod_lt _ (by decide)⟩ ht

/-- **A rule of an unknown type** is passed over, as far as its size says. -/
theorem readsBack_unknown {t : UInt8} (ht : UnknownType t) {arguments : Bytes}
    (hlen : arguments.length < 256) :
    ∃ rule : Rule, rule.t = t.toNat ∧
      Reader.ReadsBack readRule rule (unknownRule t arguments) := by
  obtain ⟨rule, hrule, htype⟩ := ofValues_unknown ht
  have hsize : (UInt8.ofNat arguments.length).toNat = arguments.length :=
    UInt8.toNat_ofNat_of_lt' hlen
  refine ⟨rule, htype, readsBack_readRule (fun a c => ⟨a.length, ?_⟩) hrule hsize⟩
  rw [fieldWidths_unknown ht]
  rfl

/-! ### What is written to the array -/

/-- The entries of `rules` that `deserializeRules` writes, `n` at most from `ruleCount` on. -/
def ruleWrites : (n ruleCount : ℕ) → Bytes → ℕ → List ℕ
  | 0, _, _, _ => []
  | n + 1, ruleCount, b, p =>
      if b.length ≤ p then []
      else
        ruleCount :: match readRule b p with
          | .error _ => []
          | .ok out => ruleWrites n (ruleCount + 1) b out.2

theorem ruleWrites_lt (n ruleCount : ℕ) (b : Bytes) (p : ℕ) :
    ∀ i ∈ ruleWrites n ruleCount b p, i < ruleCount + n := by
  induction n generalizing ruleCount p with
  | zero => exact fun i hi => absurd hi List.not_mem_nil
  | succ n ih =>
      unfold ruleWrites
      intro i hi
      split_ifs at hi
      · exact absurd hi List.not_mem_nil
      · rcases List.mem_cons.mp hi with rfl | hi
        · omega
        · rcases hr : readRule b p with e | out
          · rw [hr] at hi
            exact absurd hi List.not_mem_nil
          · rw [hr] at hi
            have := ih _ _ i hi
            omega

/-- What is returned was written. -/
theorem ruleWrites_length {n ruleCount : ℕ} {b : Bytes} {p q : ℕ}
    {out : {rules : List Rule // rules.length ≤ n}} (h : deserializeRules n b p = .ok (out, q)) :
    (ruleWrites n ruleCount b p).length = out.val.length := by
  induction n generalizing ruleCount p q with
  | zero =>
      obtain ⟨rfl, -⟩ := Prod.mk.inj (Reader.pure_ok.mp h)
      rfl
  | succ n ih =>
      unfold deserializeRules at h
      unfold ruleWrites
      split_ifs at h ⊢ with hend
      · obtain ⟨rfl, -⟩ := Prod.mk.inj (Except.ok.inj h)
        rfl
      · obtain ⟨rule, m, hrule, h⟩ := Reader.bind_ok.mp h
        obtain ⟨rules, m', hrules, h⟩ := Reader.bind_ok.mp h
        obtain ⟨rfl, -⟩ := Prod.mk.inj (Reader.pure_ok.mp h)
        rw [hrule, List.length_cons, List.length_cons]
        exact congrArg (· + 1) (ih hrules)

/-! ### The codec -/

/-- The arguments that count: of a ZeroTier address, 40 bits. -/
def Body.canonical : Body → Body
  | .entry (.sourceZerotierAddress zt) =>
      .entry (.sourceZerotierAddress ((Address.ofUInt64 zt).setWidth 64))
  | .entry (.destZerotierAddress zt) =>
      .entry (.destZerotierAddress ((Address.ofUInt64 zt).setWidth 64))
  | b => b

/-- Type, flags and arguments. -/
def Rule.canonical (r : Rule) : Rule := { r with body := r.body.canonical }

/-- The rule gives a bucket other than zero. -/
def Rule.SetsBucket (r : Rule) : Prop :=
  ∃ qosBucket, qosBucket ≠ 0 ∧ r.body = .action (.priority qosBucket)

/-- On the wire nothing is lost but the bucket. -/
theorem Rule.canonical_wire_iff (r : Rule) : r.wire.canonical = r.canonical ↔ ¬r.SetsBucket := by
  have hzt : ∀ zt : BitVec 64, (Address.ofUInt64 ((Address.ofUInt64 zt).setWidth 64)).setWidth 64 =
      (Address.ofUInt64 zt).setWidth 64 := by
    intro zt
    have hlt := (Address.ofUInt64 zt).isLt
    congr 1
    apply BitVec.eq_of_toNat_eq
    rw [show Address.ofUInt64 _ = BitVec.setWidth 40 _ from rfl, BitVec.toNat_setWidth,
      BitVec.toNat_setWidth]
    omega
  obtain ⟨n, o, b⟩ := r
  cases b with
  | action a =>
      cases a with
      | priority qosBucket =>
          constructor
          · rintro h ⟨bucket, hne, hb⟩
            obtain rfl : qosBucket = bucket := Action.priority.inj (Body.action.inj hb)
            exact hne (Action.priority.inj (Body.action.inj (congrArg Rule.body h))).symm
          · intro h
            have h0 : qosBucket = 0 := by
              by_contra hne
              exact h ⟨qosBucket, hne, rfl⟩
            subst h0
            rfl
      | _ => exact iff_of_true rfl fun ⟨_, _, hb⟩ => by cases hb
  | entry m =>
      cases m with
      | sourceZerotierAddress zt =>
          refine iff_of_true ?_ fun ⟨_, _, hb⟩ => by cases hb
          exact congrArg (fun z => Rule.mk n o (.entry (.sourceZerotierAddress z))) (hzt zt)
      | destZerotierAddress zt =>
          refine iff_of_true ?_ fun ⟨_, _, hb⟩ => by cases hb
          exact congrArg (fun z => Rule.mk n o (.entry (.destZerotierAddress z))) (hzt zt)
      | _ => exact iff_of_true rfl fun ⟨_, _, hb⟩ => by cases hb

/-- The rules come back from the bytes as they were, at any place: where as many are asked for as
were written, or where the bytes end after them. -/
def ComeBack (rules : List Rule) : Prop :=
  ∀ (a rest : Bytes) (n : ℕ), n = rules.length ∨ rules.length ≤ n ∧ rest = [] →
    ∃ out : {rules : List Rule // rules.length ≤ n},
      deserializeRules n (a ++ (serializeRules rules ++ rest)) a.length =
        .ok (out, a.length + (serializeRules rules).length) ∧
      out.val.map Rule.canonical = rules.map Rule.canonical

/-- Rules come back in their wire form. -/
theorem deserialize_serializeRules (rules : List Rule) (a rest : Bytes) {n : ℕ}
    (hn : n = rules.length ∨ rules.length ≤ n ∧ rest = []) :
    ∃ out : {rules : List Rule // rules.length ≤ n}, out.val = rules.map Rule.wire ∧
      deserializeRules n (a ++ (serializeRules rules ++ rest)) a.length =
        .ok (out, a.length + (serializeRules rules).length) := by
  obtain ⟨out, hout, hread⟩ := deserializeRules_row (rules.map fun r => (r.wire, serializeRule r))
    (by
      intro c hc
      obtain ⟨r, -, rfl⟩ := List.mem_map.mp hc
      exact ⟨readsBack_rule r, serializeRule_ne_nil r⟩)
    n a rest (by rwa [List.length_map])
  refine ⟨out, ?_, ?_⟩
  · rw [hout, List.map_map]
    rfl
  · rw [serializeRules_eq]
    exact hread

theorem comeBack_iff (rules : List Rule) : ComeBack rules ↔ ∀ r ∈ rules, ¬r.SetsBucket := by
  have hwire : (rules.map Rule.wire).map Rule.canonical = rules.map Rule.canonical ↔
      ∀ r ∈ rules, ¬r.SetsBucket := by
    rw [List.map_map, List.map_inj_left]
    exact forall₂_congr fun r _ => r.canonical_wire_iff
  constructor
  · intro h
    obtain ⟨out, hread, hsame⟩ := h [] [] rules.length (Or.inl rfl)
    obtain ⟨out', hout', hread'⟩ :=
      deserialize_serializeRules rules [] [] (Or.inl rfl)
    rw [hread'] at hread
    obtain rfl : out' = out := congrArg Prod.fst (Except.ok.inj hread)
    rw [hout'] at hsame
    exact hwire.mp hsame
  · intro h a rest n hn
    obtain ⟨out, hout, hread⟩ := deserialize_serializeRules rules a rest hn
    refine ⟨out, hread, ?_⟩
    rw [hout]
    exact hwire.mpr h

/-- A rule of an unknown type among others. -/
theorem unknown_among (rules rules' : List Rule) {t : UInt8} (ht : UnknownType t)
    {arguments : Bytes} (hlen : arguments.length < 256) {a rest : Bytes} {n : ℕ}
    (hn : n = rules.length + (rules'.length + 1) ∨
      rules.length + (rules'.length + 1) ≤ n ∧ rest = []) :
    ∃ (out : {rules : List Rule // rules.length ≤ n}) (rule : Rule), rule.t = t.toNat ∧
      out.val = rules.map Rule.wire ++ rule :: rules'.map Rule.wire ∧
      deserializeRules n (a ++ ((serializeRules rules ++ (unknownRule t arguments ++
        serializeRules rules')) ++ rest)) a.length =
          .ok (out, a.length + (serializeRules rules ++ (unknownRule t arguments ++
            serializeRules rules')).length) := by
  obtain ⟨rule, htype, hrule⟩ := readsBack_unknown ht hlen
  have hrow : ∀ (rs : List Rule), ∀ c ∈ rs.map (fun r => (r.wire, serializeRule r)),
      Reader.ReadsBack readRule c.1 c.2 ∧ c.2 ≠ [] := by
    intro rs c hc
    obtain ⟨r, -, rfl⟩ := List.mem_map.mp hc
    exact ⟨readsBack_rule r, serializeRule_ne_nil r⟩
  obtain ⟨out, hout, hread⟩ := deserializeRules_row
    (rules.map (fun r => (r.wire, serializeRule r)) ++
      (rule, unknownRule t arguments) :: rules'.map fun r => (r.wire, serializeRule r))
    (by
      intro c hc
      rcases List.mem_append.mp hc with hc | hc
      · exact hrow rules c hc
      · rcases List.mem_cons.mp hc with rfl | hc
        · exact ⟨hrule, List.cons_ne_nil _ _⟩
        · exact hrow rules' c hc)
    n a rest (by rwa [List.length_append, List.length_cons, List.length_map, List.length_map])
  refine ⟨out, rule, htype, ?_, ?_⟩
  · rw [hout, List.map_append, List.map_cons, List.map_map, List.map_map]
    rfl
  · rw [List.flatMap_append, List.flatMap_cons, ← serializeRules_eq, ← serializeRules_eq] at hread
    exact hread

namespace RuleCodec

/-- **The codec of rules.** A list comes back as it was exactly if none of its rules gives a
PRIORITY bucket other than zero.  From whatever bytes, no entry of the array is written beyond the
number asked for, and no more rules are returned.  A rule of an unknown type, of whatever size,
leaves the rules before and behind it as they are. -/
theorem ruleCodec (rules : List Rule) :
    (ComeBack rules ↔ ∀ r ∈ rules, ¬r.SetsBucket) ∧
    (∀ (n : ℕ) (b : Bytes) (p : ℕ), (∀ i ∈ ruleWrites n 0 b p, i < n) ∧
      ∀ out q, deserializeRules n b p = .ok (out, q) →
        out.val.length = (ruleWrites n 0 b p).length ∧ out.val.length ≤ n) ∧
    ∀ (rules' : List Rule) (t : UInt8) (arguments a rest : Bytes) (n : ℕ), UnknownType t →
      arguments.length < 256 →
      n = rules.length + (rules'.length + 1) ∨
        rules.length + (rules'.length + 1) ≤ n ∧ rest = [] →
      ∃ (out : {rules : List Rule // rules.length ≤ n}) (rule : Rule), rule.t = t.toNat ∧
        out.val = rules.map Rule.wire ++ rule :: rules'.map Rule.wire ∧
        deserializeRules n (a ++ ((serializeRules rules ++ (unknownRule t arguments ++
          serializeRules rules')) ++ rest)) a.length =
            .ok (out, a.length + (serializeRules rules ++ (unknownRule t arguments ++
              serializeRules rules')).length) := by
  refine ⟨comeBack_iff rules, fun n b p => ⟨fun i hi => ?_, fun out q h => ?_⟩, ?_⟩
  · have := ruleWrites_lt n 0 b p i hi
    rwa [Nat.zero_add] at this
  · exact ⟨(ruleWrites_length h).symm, out.property⟩
  · intro rules' t arguments a rest n ht hlen hn
    exact unknown_among rules rules' ht hlen hn

/-- A PRIORITY action comes back without its bucket. -/
theorem bucket_lost : ¬ComeBack [⟨false, false, .action (.priority 3)⟩] := by
  rw [comeBack_iff]
  intro h
  exact h _ List.mem_cons_self ⟨3, by decide, rfl⟩

end RuleCodec

end ZGalaxy
