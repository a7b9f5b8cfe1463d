/-
ZGalaxy/Endpoints.lean

The endpoints of a root, refreshed from resolved addresses.

A root keeps its private endpoints and gets the resolved ones that it does not have yet, IPv4
only; an address without a port takes the port of the root's first endpoint
(`zgMergeRootEndpoints`).  Resolved addresses that are private stay from then on.

Main results: `mem_merge`, which endpoints a merge yields, with `count_merge`, how often, and
`merge_again`, when a second merge of the same addresses changes nothing.
-/
import ZGalaxy.Fresh
import ZGalaxy.World

namespace ZGalaxy

open Fresh

namespace InetAddress

/-- `_zgIsPrivateIPv4`: RFC1918, link-local or CGNAT. -/
def isPrivateIPv4 : InetAddress → Bool
  | v4 ip _ =>
      let b0 := ip.toNat >>> 24
      let b1 := (ip.toNat >>> 16) &&& 0xff
      b0 == 10 || (b0 == 172 && decide (16 ≤ b1) && decide (b1 ≤ 31)) || (b0 == 192 && b1 == 168)
        || (b0 == 169 && b1 == 254) || (b0 == 100 && b1 &&& 0xC0 == 0x40)
  | _ => false

theorem eq_iff (e e' : InetAddress) :
    (e.ipsEqual e' && e.port == e'.port) = true ↔ e = e' := by
  rcases e with - | ⟨ip, port⟩ | ⟨ip, port⟩
  · rcases e' with - | ⟨ip', port'⟩ | ⟨ip', port'⟩
    · exact iff_of_true rfl rfl
    · exact iff_of_false Bool.false_ne_true nofun
    · exact iff_of_false Bool.false_ne_true nofun
  · rcases e' with - | ⟨ip', port'⟩ | ⟨ip', port'⟩
    · exact iff_of_false Bool.false_ne_true nofun
    · rw [Bool.and_eq_true, v4.injEq]
      exact and_congr beq_iff_eq beq_iff_eq
    · exact iff_of_false Bool.false_ne_true nofun
  · rcases e' with - | ⟨ip', port'⟩ | ⟨ip', port'⟩
    · exact iff_of_false Bool.false_ne_true nofun
    · exact iff_of_false Bool.false_ne_true nofun
    · rw [Bool.and_eq_true, v6.injEq]
      exact and_congr beq_iff_eq beq_iff_eq

end InetAddress

/-! ### Merging -/

/-- The port of the first endpoint, or the default. -/
def firstPort : List InetAddress → UInt16
  | [] => 9994
  | e :: _ => e.port

/-- One turn of the loop over the resolved addresses. -/
def mergeEndpoint (rootPort : UInt16) (newEps : List InetAddress) : InetAddress → List InetAddress
  | .v4 ip port =>
      let x := .v4 ip (if 0 < port then port else rootPort)
      if newEps.any fun n => n.ipsEqual x && n.port == x.port then newEps else newEps ++ [x]
  | _ => newEps

/-- `zgMergeRootEndpoints`. -/
def zgMergeRootEndpoints (root : Root) (eps : List InetAddress) : List InetAddress :=
  eps.foldl (mergeEndpoint (firstPort root.stableEndpoints))
    (root.stableEndpoints.filter fun e => e.isV4 && e.isPrivateIPv4)

/-- `zgSameEndpoints`. -/
def zgSameEndpoints (root : Root) (eps : List InetAddress) : Bool :=
  root.stableEndpoints.length == eps.length &&
    (root.stableEndpoints.zip eps).all fun e => e.1.ipsEqual e.2 && e.1.port == e.2.port

/-! ### What a merge is made of -/

/-- The resolved addresses that count, with their ports. -/
def resolved (rootPort : UInt16) (eps : List InetAddress) : List InetAddress :=
  eps.filterMap fun
    | .v4 ip port => some (.v4 ip (if 0 < port then port else rootPort))
    | _ => none

/-- The private endpoints of a root. -/
def Root.privateEndpoints (root : Root) : List InetAddress :=
  root.stableEndpoints.filter InetAddress.isPrivateIPv4

variable {root : Root} {eps : List InetAddress} {e : InetAddress}

theorem isV4_of_isPrivateIPv4 (h : e.isPrivateIPv4) : e.isV4 := by
  rcases e with - | ⟨ip, port⟩ | ⟨ip, port⟩
  · cases h
  · rfl
  · cases h

/-- **A merge** is the private endpoints and after them what was resolved and is not among them. -/
theorem zgMergeRootEndpoints_eq (root : Root) (eps : List InetAddress) :
    zgMergeRootEndpoints root eps = root.privateEndpoints
      ++ fresh root.privateEndpoints (resolved (firstPort root.stableEndpoints) eps) := by
  have hprivate : root.stableEndpoints.filter (fun e => e.isV4 && e.isPrivateIPv4)
      = root.privateEndpoints := by
    refine List.filter_congr fun e _ => ?_
    by_cases h : e.isPrivateIPv4 = true
    · rw [h, isV4_of_isPrivateIPv4 h]
      rfl
    · rw [Bool.not_eq_true _ |>.mp h, Bool.and_false]
  have hloop : ∀ (port : UInt16) (l : List InetAddress), eps.foldl (mergeEndpoint port) l
      = (resolved port eps).foldl (fun l x => if x ∈ l then l else l ++ [x]) l := by
    intro port l
    -- on the endpoints to merge: the list they are compared with grows
    induction eps generalizing l with
    | nil => rfl
    | cons e eps ih =>
        rcases e with - | ⟨ip, p⟩ | ⟨ip, p⟩
        · exact ih l
        · let x := InetAddress.v4 ip (if 0 < p then p else port)
          have hpush : mergeEndpoint port l (.v4 ip p) = if x ∈ l then l else l ++ [x] := by
            refine if_congr ?_ rfl rfl
            rw [List.any_eq_true]
            constructor
            · rintro ⟨n, hn, hsame⟩
              have hnx : n = x := (InetAddress.eq_iff _ _).mp hsame
              rwa [← hnx]
            · intro hx
              exact ⟨x, hx, (InetAddress.eq_iff _ _).mpr rfl⟩
          rw [List.foldl_cons, ih, hpush]
          rfl
        · exact ih l
  rw [zgMergeRootEndpoints, hprivate, hloop, foldl_push]

/-- Endpoints are the same when the lists are. -/
theorem zgSameEndpoints_iff : zgSameEndpoints root eps = true ↔ root.stableEndpoints = eps := by
  unfold zgSameEndpoints
  induction root.stableEndpoints generalizing eps with
  | nil =>
      rcases eps with - | ⟨e, eps⟩
      · exact iff_of_true rfl rfl
      · exact iff_of_false Bool.false_ne_true nofun
  | cons c cur ih =>
      rcases eps with - | ⟨e, eps⟩
      · exact iff_of_false Bool.false_ne_true nofun
      · have hstep : ((c :: cur).length == (e :: eps).length &&
            ((c :: cur).zip (e :: eps)).all fun e =>
              e.1.ipsEqual e.2 && e.1.port == e.2.port) = true ↔
            (c.ipsEqual e && c.port == e.port) = true ∧ (cur.length == eps.length &&
              (cur.zip eps).all fun e => e.1.ipsEqual e.2 && e.1.port == e.2.port) = true := by
          simp only [List.length_cons, List.zip_cons_cons, List.all_cons, Bool.and_eq_true,
            beq_iff_eq, Nat.add_right_cancel_iff]
          exact ⟨fun h => ⟨h.2.1, h.1, h.2.2⟩, fun h => ⟨h.2.1, h.1, h.2.2⟩⟩
        rw [hstep, InetAddress.eq_iff, ih, List.cons.injEq]

/-- **Which endpoints a merge yields.** -/
theorem mem_merge : e ∈ zgMergeRootEndpoints root eps ↔
    e ∈ root.privateEndpoints ∨ e ∈ resolved (firstPort root.stableEndpoints) eps := by
  rw [zgMergeRootEndpoints_eq, List.mem_append, mem_fresh]
  constructor
  · rintro (h | h)
    · exact Or.inl h
    · exact Or.inr h.1
  · intro h
    by_cases hp : e ∈ root.privateEndpoints
    · exact Or.inl hp
    · exact Or.inr ⟨h.resolve_left hp, hp⟩

/-- **How often**: once, unless the root has it several times. -/
theorem count_merge (h : e ∈ zgMergeRootEndpoints root eps) :
    (zgMergeRootEndpoints root eps).count e = max 1 (root.privateEndpoints.count e) := by
  rw [zgMergeRootEndpoints_eq] at h ⊢
  rw [List.count_append]
  by_cases hp : e ∈ root.privateEndpoints
  · rw [List.count_eq_zero.mpr fun hf => (mem_fresh.mp hf).2 hp, Nat.add_zero]
    exact (max_eq_right (List.count_pos_iff.mpr hp)).symm
  · have hf := (List.mem_append.mp h).resolve_left hp
    rw [List.count_eq_zero.mpr hp, List.count_eq_one_of_mem (nodup_fresh _ _) hf]
    rfl

/-! ### The same addresses once more -/

/-- The root after a merge. -/
def Root.merged (root : Root) (eps : List InetAddress) : Root :=
  { root with stableEndpoints := zgMergeRootEndpoints root eps }

theorem privateEndpoints_merged : (root.merged eps).privateEndpoints
    = root.privateEndpoints ++ (fresh root.privateEndpoints
        (resolved (firstPort root.stableEndpoints) eps)).filter InetAddress.isPrivateIPv4 := by
  unfold Root.merged
  rw [Root.privateEndpoints, zgMergeRootEndpoints_eq, List.filter_append]
  refine congrArg (· ++ _) (List.filter_eq_self.mpr fun e he => ?_)
  exact (List.mem_filter.mp he).2

/-- The port that addresses without one take the next time. -/
def Root.nextPort (root : Root) (eps : List InetAddress) : UInt16 :=
  firstPort (root.privateEndpoints ++ resolved (firstPort root.stableEndpoints) eps)

theorem firstPort_merged : firstPort (root.merged eps).stableEndpoints = root.nextPort eps := by
  unfold Root.merged Root.nextPort
  rw [zgMergeRootEndpoints_eq]
  rcases root.privateEndpoints with - | ⟨e, es⟩
  · rcases resolved (firstPort root.stableEndpoints) eps with - | ⟨x, xs⟩
    · rfl
    · rw [fresh_cons_of_notMem List.not_mem_nil]
      rfl
  · rfl

/-- **The addresses are settled**: no private one that the root does not have comes after a public
one, and with the port of the next time there are no other private ones and the same public ones
in the same order. -/
structure Settled (root : Root) (eps : List InetAddress) : Prop where
  privateFirst : First InetAddress.isPrivateIPv4 root.privateEndpoints
    (resolved (firstPort root.stableEndpoints) eps)
  privateKnown : ∀ e ∈ resolved (root.nextPort eps) eps, e.isPrivateIPv4 →
    e ∈ root.privateEndpoints ∨ e ∈ resolved (firstPort root.stableEndpoints) eps
  publicSame : fresh [] ((resolved (root.nextPort eps) eps).filter fun e => !e.isPrivateIPv4)
    = fresh [] ((resolved (firstPort root.stableEndpoints) eps).filter fun e => !e.isPrivateIPv4)

/-- **A second merge of the same addresses changes nothing exactly when they are settled.** -/
theorem merge_again : zgMergeRootEndpoints (root.merged eps) eps = zgMergeRootEndpoints root eps ↔
    Settled root eps := by
  have hprivate : ∀ e ∈ root.privateEndpoints, e.isPrivateIPv4 :=
    fun e he => (List.mem_filter.mp he).2
  rw [zgMergeRootEndpoints_eq (root.merged eps), zgMergeRootEndpoints_eq root, firstPort_merged,
    privateEndpoints_merged, List.append_assoc, List.append_cancel_left_eq, fresh_eq_iff hprivate]
  exact ⟨fun h => ⟨h.1, h.2.1, h.2.2⟩, fun h => ⟨h.privateFirst, h.privateKnown, h.publicSame⟩⟩

end ZGalaxy
