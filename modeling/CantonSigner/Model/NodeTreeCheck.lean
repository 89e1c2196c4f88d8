import CantonSigner.Model.CanonicalHash

/-!
# Node tree check (node_tree_check.c)

The bookkeeping that decides whether the node parts form one tree: one entry
per announced node, marked when the node arrives and when a parent claims it,
and the first error found. The tracking array and `nodes_count` are allocated
and freed together, so the length of `nodes` is `nodes_count`.
-/

namespace CantonSigner

open ByteCodec

/-- `tree_error_e`. -/
inductive TreeError where
  | ok
  | nodeIdOutOfRange
  | duplicateNode
  | childOutOfRange
  | selfChild
  | rootClaimed
  | duplicateClaim
  | rootCount
  | orphanNode
  | missingChild
  | tooManyNodes
deriving Repr, DecidableEq

/-- `node_check_t`. -/
structure NodeCheck where
  seen : Bool
  claimed : Bool
deriving Repr, DecidableEq

/-- `tree_check_context_t`. -/
structure TreeCheck where
  nodes : List NodeCheck
  rootId : Int
  err : TreeError
deriving Repr, DecidableEq

namespace TreeCheck

/-- `check_ctx.nodes_count`. -/
def nodesCount (t : TreeCheck) : Nat := t.nodes.length

/-- `set_tree_error`: the first error stays. -/
def setTreeError (t : TreeCheck) (e : TreeError) : TreeCheck :=
  if t.err = .ok then { t with err := e } else t

/-- The id is one of the tracked nodes. -/
def inRange (t : TreeCheck) (id : Int) : Bool := 0 ≤ id && id < t.nodesCount

/-- The entry of a node in range. -/
def entry (t : TreeCheck) (id : Int) : NodeCheck := t.nodes.getD id.toNat ⟨false, false⟩

/-- Mark a node as claimed. -/
def setClaimed (t : TreeCheck) (id : Int) : TreeCheck :=
  { t with nodes := t.nodes.set id.toNat { t.entry id with claimed := true } }

/-- Mark a node as seen. -/
def setSeen (t : TreeCheck) (id : Int) : TreeCheck :=
  { t with nodes := t.nodes.set id.toNat { t.entry id with seen := true } }

end TreeCheck

/-- `node_id_from_str` (node_tree_check.c:42–56): -1 when the string cannot be a
node id. -/
def nodeIdFromStr (s : Bytes) : Int :=
  if s.isEmpty || 3 < s.length || !s.all isDigit then -1 else atoint s

/-- `tree_check_reset`. -/
def treeCheckReset : TreeCheck := ⟨[], -1, .ok⟩

/-- `tree_check_init` (node_tree_check.c:70–103). -/
def treeCheckInit (roots : List Bytes) (nodesCount : Int) : TreeCheck :=
  if nodesCount < 0 || maxTxNodes < nodesCount then treeCheckReset.setTreeError .tooManyNodes
  else
    match roots with
    | [root] =>
      let t := { treeCheckReset with nodes := List.replicate nodesCount.toNat ⟨false, false⟩ }
      let rootId := nodeIdFromStr root
      if t.inRange rootId then { t with rootId := rootId }.setClaimed rootId
      else t.setTreeError .nodeIdOutOfRange
    | _ => treeCheckReset.setTreeError .rootCount

/-- `tree_mark_seen` (node_tree_check.c:107–119). -/
def treeMarkSeen (t : TreeCheck) (id : Int) : TreeCheck :=
  if !t.inRange id then t.setTreeError .nodeIdOutOfRange
  else if (t.entry id).seen then t.setTreeError .duplicateNode
  else t.setSeen id

/-- The check on one child of `tree_claim_children`; `false` stops the loop,
with the error set. -/
def claimChild (t : TreeCheck) (parentId child : Int) : TreeCheck × Bool :=
  if !t.inRange child then (t.setTreeError .childOutOfRange, false)
  else if child = parentId then (t.setTreeError .selfChild, false)
  else if child = t.rootId then (t.setTreeError .rootClaimed, false)
  else if (t.entry child).claimed then (t.setTreeError .duplicateClaim, false)
  else (t.setClaimed child, true)

/-- `tree_claim_children` (node_tree_check.c:121–149). -/
def treeClaimChildren (t : TreeCheck) (parentId : Int) : List Bytes → TreeCheck
  | [] => t
  | c :: cs =>
    match claimChild t parentId (nodeIdFromStr c) with
    | (t, false) => t
    | (t, true) => treeClaimChildren t parentId cs

/-- The first disagreement between arrived and claimed nodes. -/
def sweepNodes : List NodeCheck → TreeError
  | [] => .ok
  | n :: ns =>
    if n.seen && !n.claimed then .orphanNode
    else if !n.seen && n.claimed then .missingChild
    else sweepNodes ns

/-- `tree_verify_complete` (node_tree_check.c:151–181): the verdict is the
error of the result; the tracking array is freed. -/
def treeVerifyComplete (t : TreeCheck) : TreeCheck :=
  { t.setTreeError (sweepNodes t.nodes) with nodes := [] }

/-- `tree_can_clear_sign`. -/
def treeCanClearSign (t : TreeCheck) : Bool := t.err = .ok

/-- `tree_error_is_impossible`. -/
def treeErrorIsImpossible : TreeError → Bool
  | .nodeIdOutOfRange | .duplicateNode | .childOutOfRange | .selfChild | .rootClaimed
  | .duplicateClaim => true
  | _ => false

end CantonSigner
