import CantonSigner.Tree.Root

/-!
# The verdict of the tree check

The tree check stops at the first child that it cannot claim, keeps the first error, and
compares two columns of marks at the end. `tree_verdict_iff` says which headers and events get a
good verdict: a condition on all events together, whatever their order.

- `childrenClaimed_iff`, `nodeSeen_iff`: one event;
- `eventsAccepted_iff`: events one after the other, by induction on them.
-/

namespace CantonSigner

open ByteCodec

/-! ## Events and verdict -/

/-- A node arrives: its children are claimed, then it is marked as seen. -/
structure NodeEvent where
  id : Int
  children : List Bytes

/-- The check of one node. -/
def treeEvent (t : TreeCheck) (e : NodeEvent) : TreeCheck :=
  treeMarkSeen (treeClaimChildren t e.id e.children) e.id

/-- The verdict on a header and the nodes that came after it. -/
def treeVerdict (roots : List Bytes) (n : Nat) (es : List NodeEvent) : TreeError :=
  (treeVerifyComplete (es.foldl treeEvent (treeCheckInit roots n))).err

/-- One to three digits, for a number below `n`. -/
structure IsNodeId (n : Nat) (s : Bytes) : Prop where
  ne_nil : s ≠ []
  short : s.length ≤ 3
  digits : IsDigits s
  lt : digitsValue s < n

/-- The numbers of the children of all nodes together. -/
def childNumbers (es : List NodeEvent) : List Nat := es.flatMap fun e => e.children.map digitsValue

/-- What the nodes have to be: `n` different ones, below one root, and each of the others the
child of exactly one. -/
structure WellFormedTree (root : Bytes) (n : Nat) (es : List NodeEvent) : Prop where
  rootId : IsNodeId n root
  seen : (es.map (·.id)).Perm ((List.range n).map Int.ofNat)
  children : ∀ e ∈ es, ∀ c ∈ e.children, IsNodeId n c
  notSelf : ∀ e ∈ es, ∀ c ∈ e.children, (digitsValue c : Int) ≠ e.id
  notRoot : ∀ e ∈ es, ∀ c ∈ e.children, digitsValue c ≠ digitsValue root
  once : ∀ k < n, k ≠ digitsValue root → (childNumbers es).count k = 1

/-! ## Node ids -/

variable {n : Nat} {s : Bytes}

/-- A string is read as an id if it has one to three digits. -/
theorem nodeIdFromStr_eq (hne : s ≠ []) (hshort : s.length ≤ 3) (hdigits : IsDigits s) :
    nodeIdFromStr s = digitsValue s := by
  have hall : s.all isDigit = true := List.all_eq_true.mpr fun c hc =>
    isDigit_iff.mpr (hdigits c hc)
  unfold nodeIdFromStr
  rw [if_neg (by simp [hne, hall, Nat.not_lt.mpr hshort])]
  exact atoint_digits hdigits (by omega)

theorem isNodeId_iff : IsNodeId n s ↔ 0 ≤ nodeIdFromStr s ∧ nodeIdFromStr s < n := by
  constructor
  · intro h
    rw [nodeIdFromStr_eq h.ne_nil h.short h.digits]
    exact ⟨Int.natCast_nonneg _, Int.ofNat_lt.mpr h.lt⟩
  · rintro ⟨h0, hlt⟩
    by_cases hbad : (s.isEmpty || decide (3 < s.length) || !s.all isDigit) = true
    · rw [nodeIdFromStr, if_pos hbad] at h0
      exact absurd h0 (by decide)
    · simp only [Bool.or_eq_true, List.isEmpty_iff, decide_eq_true_eq, Bool.not_eq_true',
        not_or, Bool.not_eq_false] at hbad
      obtain ⟨⟨hne, hshort⟩, hall⟩ := hbad
      have hdigits : IsDigits s := fun c hc =>
        isDigit_iff.mp (List.all_eq_true.mp hall c hc)
      refine ⟨hne, Nat.le_of_not_lt hshort, hdigits, ?_⟩
      rw [nodeIdFromStr_eq hne (Nat.le_of_not_lt hshort) hdigits] at hlt
      exact Int.ofNat_lt.mp hlt

theorem IsNodeId.value (h : IsNodeId n s) : nodeIdFromStr s = digitsValue s :=
  nodeIdFromStr_eq h.ne_nil h.short h.digits

/-! ## One event -/

variable {root : Int} {ids claims : List Int} {t : TreeCheck}

/-- A child can be claimed by this node. -/
def Claimable (n : Nat) (root parentId : Int) (c : Bytes) : Prop :=
  IsNodeId n c ∧ nodeIdFromStr c ≠ parentId ∧ nodeIdFromStr c ≠ root

/-- The check of a child that can be claimed, and was not. -/
theorem claimChild_eq {parentId : Int} {c : Bytes} (h : TreeInv n root ids claims t)
    (hc : Claimable n root parentId c) (hnew : nodeIdFromStr c ∉ claims) :
    claimChild t parentId (nodeIdFromStr c) = (t.setClaimed (nodeIdFromStr c), true) := by
  obtain ⟨h0, hlt⟩ := isNodeId_iff.mp hc.1
  have hrange : t.inRange (nodeIdFromStr c) = true :=
    TreeCheck.inRange_iff.mpr ⟨h0, by rw [h.length]; exact hlt⟩
  have hfree : (t.entry (nodeIdFromStr c)).claimed = false := by
    rw [Bool.eq_false_iff, Ne, h.claimed _ h0 hlt, not_or]
    exact ⟨hc.2.2, hnew⟩
  unfold claimChild
  rw [hrange, if_neg (by decide), if_neg hc.2.1, h.rootId, if_neg hc.2.2, hfree, if_neg (by decide)]

/-- The check of a child that cannot be claimed, or was. -/
theorem claimChild_err {parentId : Int} {c : Bytes} (h : TreeInv n root ids claims t)
    (hc : ¬ (Claimable n root parentId c ∧ nodeIdFromStr c ∉ claims)) :
    ∃ t', claimChild t parentId (nodeIdFromStr c) = (t', false) ∧ t'.err ≠ .ok := by
  unfold claimChild
  by_cases hrange : t.inRange (nodeIdFromStr c) = true
  · obtain ⟨h0, hlt⟩ := TreeCheck.inRange_iff.mp hrange
    rw [h.length] at hlt
    rw [hrange, if_neg (by decide)]
    by_cases hself : nodeIdFromStr c = parentId
    · rw [if_pos hself]
      exact ⟨_, rfl, TreeCheck.setTreeError_ne_ok (by decide)⟩
    · rw [if_neg hself]
      by_cases hroot : nodeIdFromStr c = t.rootId
      · rw [if_pos hroot]
        exact ⟨_, rfl, TreeCheck.setTreeError_ne_ok (by decide)⟩
      · rw [if_neg hroot]
        have hid : Claimable n root parentId c :=
          ⟨isNodeId_iff.mpr ⟨h0, hlt⟩, hself, h.rootId ▸ hroot⟩
        -- The child can be claimed, so it was.
        have hclaimed : (t.entry (nodeIdFromStr c)).claimed = true := by
          refine (h.claimed _ h0 hlt).mpr (.inr ?_)
          by_contra hnew
          exact hc ⟨hid, hnew⟩
        rw [hclaimed, if_pos rfl]
        exact ⟨_, rfl, TreeCheck.setTreeError_ne_ok (by decide)⟩
  · rw [Bool.not_eq_true] at hrange
    rw [hrange, Bool.not_false, if_pos rfl]
    exact ⟨_, rfl, TreeCheck.setTreeError_ne_ok (by decide)⟩

/-- The children of a node are claimed if each of them can be, and none was or comes twice. -/
theorem childrenClaimed_iff {parentId : Int} {children : List Bytes}
    (h : TreeInv n root ids claims t) (hok : t.err = .ok) :
    (treeClaimChildren t parentId children).err = .ok ↔
      (∀ c ∈ children, Claimable n root parentId c) ∧
        (claims ++ children.map nodeIdFromStr).Nodup := by
  induction children generalizing t claims with
  | nil =>
    rw [List.map_nil, List.append_nil]
    exact iff_of_true hok ⟨List.forall_mem_nil _, h.claims_nodup⟩
  | cons c cs ih =>
    unfold treeClaimChildren
    by_cases hc : Claimable n root parentId c ∧ nodeIdFromStr c ∉ claims
    · have hclaim := claimChild_eq h hc.1 hc.2
      obtain ⟨-, -, hrange, hnotroot, hfree, -⟩ := claimChild_ok hclaim hok
      rw [hclaim]
      show (treeClaimChildren _ parentId cs).err = .ok ↔ _
      rw [ih (h.claim hrange hnotroot hfree) hok, List.forall_mem_cons, and_iff_right hc.1,
        List.map_cons, List.append_assoc, List.singleton_append]
    · obtain ⟨t', hclaim, herr⟩ := claimChild_err h hc
      rw [hclaim]
      refine iff_of_false herr ?_
      rintro ⟨hall, hnodup⟩
      refine hc ⟨hall c List.mem_cons_self, fun hmem => ?_⟩
      exact (List.nodup_append.mp hnodup).2.2 _ hmem _ List.mem_cons_self rfl

/-- A node is marked if it is announced and did not arrive before. -/
theorem nodeSeen_iff {id : Int} (h : TreeInv n root ids claims t) (hok : t.err = .ok) :
    (treeMarkSeen t id).err = .ok ↔ (0 ≤ id ∧ id < n) ∧ id ∉ ids := by
  constructor
  · intro hmark
    obtain ⟨-, hrange, hnot, -⟩ := treeMarkSeen_ok hmark
    obtain ⟨h0, hlt⟩ := TreeCheck.inRange_iff.mp hrange
    rw [h.length] at hlt
    refine ⟨⟨h0, hlt⟩, fun hmem => ?_⟩
    rw [(h.seen id h0 hlt).mpr hmem] at hnot
    cases hnot
  · rintro ⟨⟨h0, hlt⟩, hnew⟩
    have hrange : t.inRange id = true :=
      TreeCheck.inRange_iff.mpr ⟨h0, by rw [h.length]; exact hlt⟩
    have hnot : (t.entry id).seen = false := by
      rw [Bool.eq_false_iff, Ne, h.seen id h0 hlt]
      exact hnew
    unfold treeMarkSeen
    rw [hrange, if_neg (by decide), hnot, if_neg (by decide)]
    exact hok

/-! ## All events -/

/-- A node that the check accepts, other nodes apart. -/
def SoundEvent (n : Nat) (root : Int) (e : NodeEvent) : Prop :=
  (0 ≤ e.id ∧ e.id < n) ∧ ∀ c ∈ e.children, Claimable n root e.id c

/-- The ids that nodes claim. -/
def eventClaims (es : List NodeEvent) : List Int :=
  es.flatMap fun e => e.children.map nodeIdFromStr

theorem treeEvent_err_ok {e : NodeEvent} (h : (treeEvent t e).err = .ok) : t.err = .ok :=
  treeClaimChildren_err_ok (treeMarkSeen_ok h).1

/-- An error stays. -/
theorem events_err_ok {es : List NodeEvent} (h : (es.foldl treeEvent t).err = .ok) :
    t.err = .ok := by
  induction es generalizing t with
  | nil => exact h
  | cons e es ih => exact treeEvent_err_ok (ih h)

/-- Events are accepted if each of them is sound, no node comes twice and none is claimed
twice. -/
theorem eventsAccepted_iff {es : List NodeEvent} (h : TreeInv n root ids claims t)
    (hok : t.err = .ok) :
    (es.foldl treeEvent t).err = .ok ↔ (∀ e ∈ es, SoundEvent n root e) ∧
      (ids ++ es.map (·.id)).Nodup ∧ (claims ++ eventClaims es).Nodup := by
  induction es generalizing t ids claims with
  | nil =>
    rw [eventClaims, List.map_nil, List.flatMap_nil, List.append_nil, List.append_nil]
    exact iff_of_true hok ⟨List.forall_mem_nil _, h.ids_nodup, h.claims_nodup⟩
  | cons e es ih =>
    have hclaims : (treeClaimChildren t e.id e.children).err = .ok ↔ _ := childrenClaimed_iff h hok
    rw [List.foldl_cons, List.forall_mem_cons, List.map_cons, eventClaims, List.flatMap_cons,
      ← eventClaims, ← List.append_assoc]
    by_cases hclaimed : (treeClaimChildren t e.id e.children).err = .ok
    · have hinv := h.claimChildren hclaimed
      have hseen : (treeEvent t e).err = .ok ↔ _ := nodeSeen_iff hinv hclaimed
      obtain ⟨hchildren, -⟩ := hclaims.mp hclaimed
      by_cases hmarked : (treeEvent t e).err = .ok
      · obtain ⟨hrange, -⟩ := hseen.mp hmarked
        obtain ⟨-, hr, hnot, heq⟩ := treeMarkSeen_ok hmarked
        have hinv' : TreeInv n root (ids ++ [e.id]) (claims ++ e.children.map nodeIdFromStr)
            (treeEvent t e) := by
          rw [treeEvent, heq]
          exact hinv.markSeen hr hnot
        rw [ih hinv' hmarked, List.append_assoc, List.singleton_append,
          and_iff_right (show SoundEvent n root e from ⟨hrange, hchildren⟩)]
      · -- The node itself is not accepted.
        refine iff_of_false (fun hrun => hmarked (events_err_ok hrun)) ?_
        rintro ⟨⟨hsound, -⟩, hnodup, -⟩
        refine hmarked (hseen.mpr ⟨hsound.1, fun hmem => ?_⟩)
        exact (List.nodup_append.mp hnodup).2.2 _ hmem _ List.mem_cons_self rfl
    · -- One of its children is not accepted.
      refine iff_of_false (fun hrun => hclaimed (treeMarkSeen_ok (events_err_ok hrun)).1) ?_
      rintro ⟨⟨hsound, -⟩, -, hnodup⟩
      exact hclaimed (hclaims.mpr ⟨hsound.2, (List.nodup_append.mp hnodup).1⟩)

/-- The marks of accepted events. -/
theorem treeInv_of_events {es : List NodeEvent} (h : TreeInv n root ids claims t)
    (hok : (es.foldl treeEvent t).err = .ok) :
    TreeInv n root (ids ++ es.map (·.id)) (claims ++ eventClaims es) (es.foldl treeEvent t) := by
  induction es generalizing t ids claims with
  | nil => simpa [eventClaims] using h
  | cons e es ih =>
    have hmarked : (treeEvent t e).err = .ok := events_err_ok hok
    obtain ⟨hclaimed, hr, hnot, heq⟩ := treeMarkSeen_ok hmarked
    have hinv : TreeInv n root (ids ++ [e.id]) (claims ++ e.children.map nodeIdFromStr)
        (treeEvent t e) := by
      rw [treeEvent, heq]
      exact (h.claimChildren hclaimed).markSeen hr hnot
    simpa [eventClaims] using ih hinv hok

/-! ## The verdict -/

theorem sweepNodes_ok_iff {nodes : List NodeCheck} :
    sweepNodes nodes = .ok ↔ ∀ n ∈ nodes, n.seen = n.claimed := by
  refine ⟨sweepNodes_ok, fun h => ?_⟩
  induction nodes with
  | nil => rfl
  | cons n ns ih =>
    rw [List.forall_mem_cons] at h
    unfold sweepNodes
    rw [h.1, ih h.2]
    cases n.claimed <;> rfl

theorem verdict_ok_iff {t : TreeCheck} : (treeVerifyComplete t).err = .ok ↔
    t.err = .ok ∧ ∀ n ∈ t.nodes, n.seen = n.claimed := by
  refine ⟨verdict_ok, fun ⟨hok, hmarks⟩ => ?_⟩
  show (t.setTreeError (sweepNodes t.nodes)).err = .ok
  rw [sweepNodes_ok_iff.mpr hmarks, TreeCheck.setTreeError, if_pos hok]

/-- The header is accepted if it names one root, and that is one of the announced ids. -/
theorem treeCheckInit_ok_iff {roots : List Bytes} (h0 : 0 < n) (hn : n ≤ maxTxNodes) :
    (treeCheckInit roots n).err = .ok ↔ ∃ root, roots = [root] ∧ IsNodeId n root := by
  constructor
  · intro h
    obtain ⟨root, hroot, hinv⟩ := treeCheckInit_inv h
    exact ⟨root, hroot, isNodeId_iff.mpr ⟨hinv.root_nonneg, by simpa using hinv.root_lt⟩⟩
  · rintro ⟨root, rfl, hroot⟩
    obtain ⟨h0', hlt⟩ := isNodeId_iff.mp hroot
    unfold treeCheckInit
    have hcount : ¬ ((n : Int) < 0 || (maxTxNodes : Int) < n) = true := by
      simp only [Bool.or_eq_true, decide_eq_true_eq]
      omega
    rw [if_neg hcount]
    dsimp only
    rw [if_pos (TreeCheck.inRange_iff.mpr ⟨h0', by simpa using hlt⟩)]
    rfl

/-- Claims that are ids are the numbers of the children. -/
theorem eventClaims_eq {es : List NodeEvent} (h : ∀ e ∈ es, ∀ c ∈ e.children, IsNodeId n c) :
    eventClaims es = (childNumbers es).map Int.ofNat := by
  unfold eventClaims childNumbers
  rw [List.map_flatMap]
  refine List.flatMap_congr fun e he => ?_
  rw [List.map_map]
  exact List.map_congr_left fun c hc => (h e he c hc).value

/-- A list of ids below `n` without repeats, as long as `n`, is a permutation of them. -/
theorem perm_range_iff {ids : List Int} (hlen : ids.length = n) :
    ids.Perm ((List.range n).map Int.ofNat) ↔ ids.Nodup ∧ ∀ k ∈ ids, 0 ≤ k ∧ k < n := by
  constructor
  · intro h
    refine ⟨h.nodup_iff.mpr (List.nodup_range.map Int.ofNat_injective), fun k hk => ?_⟩
    obtain ⟨m, hm, rfl⟩ := List.mem_map.mp (h.mem_iff.mp hk)
    exact ⟨Int.natCast_nonneg m, Int.ofNat_lt.mpr (List.mem_range.mp hm)⟩
  · rintro ⟨hnodup, hrange⟩
    refine (List.subperm_of_subset hnodup fun k hk => ?_).perm_of_length_le ?_
    · obtain ⟨h0, hlt⟩ := hrange k hk
      exact List.mem_map.mpr ⟨k.toNat, List.mem_range.mpr (by omega), by simp [h0]⟩
    · simp [hlen]

/-- The marks agree at the end exactly if the claimed ids are all but the root. -/
theorem marks_agree_iff {root : Bytes} (h : TreeInv n (nodeIdFromStr root) ids claims t)
    (hseen : ∀ k : Int, 0 ≤ k → k < n → k ∈ ids) :
    (∀ m ∈ t.nodes, m.seen = m.claimed) ↔
      ∀ k : Int, 0 ≤ k → k < n → k ≠ nodeIdFromStr root → k ∈ claims := by
  have hmark : ∀ k : Int, 0 ≤ k → k < n → ((t.entry k).seen = (t.entry k).claimed ↔
      k = nodeIdFromStr root ∨ k ∈ claims) := by
    intro k h0 hlt
    rw [(h.seen k h0 hlt).mpr (hseen k h0 hlt), ← h.claimed k h0 hlt]
    exact eq_comm
  have hentry : ∀ k : Int, 0 ≤ k → ∀ hlt : k < n, ∃ hk : k.toNat < t.nodes.length,
      t.entry k = t.nodes[k.toNat] := by
    intro k h0 hlt
    have hk : k.toNat < t.nodes.length := by rw [h.length]; omega
    exact ⟨hk, List.getD_eq_getElem _ _ hk⟩
  constructor
  · intro hall k h0 hlt hne
    obtain ⟨hk, heq⟩ := hentry k h0 hlt
    refine ((hmark k h0 hlt).mp ?_).resolve_left hne
    rw [heq]
    exact hall _ (List.getElem_mem hk)
  · intro hall m hm
    obtain ⟨i, hi, rfl⟩ := List.getElem_of_mem hm
    rw [h.length] at hi
    obtain ⟨hk, heq⟩ := hentry i (Int.natCast_nonneg i) (Int.ofNat_lt.mpr hi)
    have hthis := (hmark i (Int.natCast_nonneg i) (Int.ofNat_lt.mpr hi)).mpr (by
      by_cases hroot : (i : Int) = nodeIdFromStr root
      · exact .inl hroot
      · exact .inr (hall i (Int.natCast_nonneg i) (Int.ofNat_lt.mpr hi) hroot))
    simpa [heq] using hthis

/-- Each number but the root's comes once: none comes twice, and all of them come. -/
theorem once_iff {k₀ : Nat} {ks : List Nat} (hlt : ∀ k ∈ ks, k < n) (hroot : k₀ ∉ ks) :
    (∀ k < n, k ≠ k₀ → ks.count k = 1) ↔ ks.Nodup ∧ ∀ k < n, k ≠ k₀ → k ∈ ks := by
  constructor
  · intro h
    refine ⟨List.nodup_iff_count_le_one.mpr fun k => ?_, fun k hk hne => ?_⟩
    · by_cases hk : k ∈ ks
      · exact (h k (hlt k hk) fun heq => hroot (heq ▸ hk)).le
      · rw [List.count_eq_zero_of_not_mem hk]
        exact Nat.zero_le 1
    · exact List.one_le_count_iff.mp (h k hk hne).ge
  · rintro ⟨hnodup, hall⟩ k hk hne
    exact List.count_eq_one_of_mem hnodup (hall k hk hne)

/-- A good verdict on a header with one root. -/
theorem rootVerdict_iff {root : Bytes} {es : List NodeEvent} (h0 : 0 < n) (hn : n ≤ maxTxNodes)
    (hlen : es.length = n) (hroot : IsNodeId n root) :
    treeVerdict [root] n es = .ok ↔ WellFormedTree root n es := by
  have hinit : (treeCheckInit [root] n).err = .ok :=
    (treeCheckInit_ok_iff h0 hn).mpr ⟨root, rfl, hroot⟩
  have hinv : TreeInv n (nodeIdFromStr root) [] [] (treeCheckInit [root] n) := by
    obtain ⟨root', heq, hinv⟩ := treeCheckInit_inv hinit
    obtain rfl : root = root' := by simpa using heq
    simpa using hinv
  have hrun : (es.foldl treeEvent _).err = .ok ↔ _ := eventsAccepted_iff hinv hinit
  rw [List.nil_append, List.nil_append] at hrun
  have hids : (es.map (·.id)).length = n := by rw [List.length_map, hlen]
  -- What is claimed, in numbers.
  have hnumbers : (∀ e ∈ es, ∀ c ∈ e.children, IsNodeId n c) →
      (∀ e ∈ es, ∀ c ∈ e.children, digitsValue c ≠ digitsValue root) →
      (eventClaims es = (childNumbers es).map Int.ofNat) ∧ (∀ k ∈ childNumbers es, k < n) ∧
        digitsValue root ∉ childNumbers es := by
    intro hchildren hnotroot
    refine ⟨eventClaims_eq hchildren, fun k hk => ?_, fun hmem => ?_⟩
    · obtain ⟨e, he, hk⟩ := List.mem_flatMap.mp hk
      obtain ⟨c, hc, rfl⟩ := List.mem_map.mp hk
      exact (hchildren e he c hc).lt
    · obtain ⟨e, he, hmem⟩ := List.mem_flatMap.mp hmem
      obtain ⟨c, hc, heq⟩ := List.mem_map.mp hmem
      exact hnotroot e he c hc heq
  have hclaimable : ∀ e : NodeEvent, ∀ c, Claimable n (nodeIdFromStr root) e.id c ↔
      IsNodeId n c ∧ (digitsValue c : Int) ≠ e.id ∧ digitsValue c ≠ digitsValue root := by
    intro e c
    refine and_congr_right fun hc => ?_
    rw [hc.value, hroot.value, Ne, Ne, Int.natCast_inj]
  rw [treeVerdict, verdict_ok_iff]
  constructor
  · rintro ⟨hok, hmarks⟩
    obtain ⟨hsound, hnodup, hclaims⟩ := hrun.mp hok
    have hperm : (es.map (·.id)).Perm ((List.range n).map Int.ofNat) := by
      refine (perm_range_iff hids).mpr ⟨hnodup, fun k hk => ?_⟩
      obtain ⟨e, he, rfl⟩ := List.mem_map.mp hk
      exact (hsound e he).1
    have hseen : ∀ k : Int, 0 ≤ k → k < n → k ∈ es.map (·.id) := by
      intro k h0 hlt
      exact hperm.mem_iff.mpr
        (List.mem_map.mpr ⟨k.toNat, List.mem_range.mpr (by omega), by simp [h0]⟩)
    have hall := (marks_agree_iff (treeInv_of_events hinv hok) hseen).mp hmarks
    have hgood := fun e he c hc => (hclaimable e c).mp ((hsound e he).2 c hc)
    obtain ⟨heq, hlt, hnotroot⟩ :=
      hnumbers (fun e he c hc => (hgood e he c hc).1) fun e he c hc => (hgood e he c hc).2.2
    refine ⟨hroot, hperm, fun e he c hc => (hgood e he c hc).1,
      fun e he c hc => (hgood e he c hc).2.1, fun e he c hc => (hgood e he c hc).2.2, ?_⟩
    refine (once_iff hlt hnotroot).mpr ⟨?_, fun k hk hne => ?_⟩
    · rw [heq] at hclaims
      exact hclaims.of_map
    · have hmem := hall k (Int.natCast_nonneg k) (Int.ofNat_lt.mpr hk) (by
        rw [hroot.value, Ne, Int.natCast_inj]
        exact hne)
      rw [List.nil_append, heq] at hmem
      obtain ⟨k', hk', hkk⟩ := List.mem_map.mp hmem
      rwa [← Int.ofNat.inj hkk]
  · intro h
    obtain ⟨heq, hlt, hnotroot⟩ := hnumbers h.children h.notRoot
    obtain ⟨hnodup, hall⟩ := (once_iff hlt hnotroot).mp h.once
    obtain ⟨hids_nodup, hrange⟩ := (perm_range_iff hids).mp h.seen
    have hok : (es.foldl treeEvent (treeCheckInit [root] n)).err = .ok := by
      refine hrun.mpr ⟨fun e he => ⟨?_, fun c hc => ?_⟩, hids_nodup, ?_⟩
      · exact hrange e.id (List.mem_map_of_mem he)
      · exact (hclaimable e c).mpr ⟨h.children e he c hc, h.notSelf e he c hc, h.notRoot e he c hc⟩
      · rw [heq]
        exact hnodup.map Int.ofNat_injective
    refine ⟨hok, (marks_agree_iff (treeInv_of_events hinv hok) fun k h0 hlt => ?_).mpr ?_⟩
    · exact h.seen.mem_iff.mpr
        (List.mem_map.mpr ⟨k.toNat, List.mem_range.mpr (by omega), by simp [h0]⟩)
    · intro k h0 hlt hne
      have hmem := hall k.toNat (by omega) fun hk => hne (by
        rw [hroot.value, ← hk]
        exact (Int.toNat_of_nonneg h0).symm)
      rw [List.nil_append, heq]
      exact List.mem_map.mpr ⟨k.toNat, hmem, Int.toNat_of_nonneg h0⟩

theorem WellFormedTree.perm {root : Bytes} {es es' : List NodeEvent} (h : es.Perm es')
    (hes : WellFormedTree root n es) : WellFormedTree root n es' := by
  refine ⟨hes.rootId, (h.map _).symm.trans hes.seen, fun e he => hes.children e (h.mem_iff.mpr he),
    fun e he => hes.notSelf e (h.mem_iff.mpr he), fun e he => hes.notRoot e (h.mem_iff.mpr he),
    fun k hk hne => ?_⟩
  rw [← hes.once k hk hne]
  exact (h.symm.flatMap_right _).count_eq k

/-- **The verdict is exact**: it is good if there is one root and the nodes make a tree below it,
and then it is good in any order. -/
theorem tree_verdict_iff {roots : List Bytes} {es : List NodeEvent} (h0 : 0 < n)
    (hn : n ≤ maxTxNodes) (hlen : es.length = n) :
    (treeVerdict roots n es = .ok ↔ ∃ root, roots = [root] ∧ WellFormedTree root n es) ∧
      ∀ es', es.Perm es' → (treeVerdict roots n es' = .ok ↔ treeVerdict roots n es = .ok) := by
  have hiff : ∀ es : List NodeEvent, es.length = n →
      (treeVerdict roots n es = .ok ↔ ∃ root, roots = [root] ∧ WellFormedTree root n es) := by
    intro es hlen
    constructor
    · intro hok
      obtain ⟨root, rfl, hroot⟩ :=
        (treeCheckInit_ok_iff h0 hn).mp (events_err_ok (verdict_ok_iff.mp hok).1)
      exact ⟨root, rfl, (rootVerdict_iff h0 hn hlen hroot).mp hok⟩
    · rintro ⟨root, rfl, h⟩
      exact (rootVerdict_iff h0 hn hlen h.rootId).mpr h
  refine ⟨hiff es hlen, fun es' hperm => ?_⟩
  rw [hiff es' (hperm.length_eq.symm.trans hlen), hiff es hlen]
  constructor
  · rintro ⟨root, hroot, h⟩
    exact ⟨root, hroot, h.perm hperm.symm⟩
  · rintro ⟨root, hroot, h⟩
    exact ⟨root, hroot, h.perm hperm⟩

/-- A root with one child, in either order. -/
theorem tree_verdict_iff_oneChild :
    treeVerdict [str "0"] 2 [⟨1, []⟩, ⟨0, [str "1"]⟩] = .ok ∧
      treeVerdict [str "0"] 2 [⟨0, [str "1"]⟩, ⟨1, []⟩] = .ok := by
  have hok : treeVerdict [str "0"] 2 [⟨1, []⟩, ⟨0, [str "1"]⟩] = .ok := by decide
  obtain ⟨-, hperm⟩ : (treeVerdict [str "0"] 2 [⟨1, []⟩, ⟨0, [str "1"]⟩] = .ok ↔ _) ∧ _ :=
    tree_verdict_iff (by decide) (by decide) rfl
  exact ⟨hok, (hperm _ (List.Perm.swap _ _ _)).mpr hok⟩

end CantonSigner
