import DeravelOs.Types.Basic

/-!
# The buddy allocator

`kernel/src/heap/buddy.rs`.  A node of `node_size` addresses is a tree whose leaves are
materialised on demand.  Node sizes start from a power of two and are only ever halved, so a node
size is carried as its binary logarithm, the *order*: `node_size` is `2 ^ order`, and
`node_size / 2` is the node size of the children.

`children: None` is the constructor `bare`, `children: Some(..)` the constructor `split`.
-/

namespace Deravel

/-- `Node`: the cached size of the largest free block below it, the size requested by the
allocation that took the whole node (0 if none did), and the children if there are any. -/
inductive Node
  | bare (maxAvailable allocated : ℕ)
  | split (maxAvailable allocated : ℕ) (left right : Node)
  deriving Repr

/-- `AllocError` -/
inductive AllocError
  | mk
  deriving DecidableEq, Repr

namespace Node

def maxAvailable : Node → ℕ
  | bare m _ => m
  | split m _ _ _ => m

def allocated : Node → ℕ
  | bare _ a => a
  | split _ a _ _ => a

@[simp] lemma maxAvailable_bare (m a : ℕ) : (bare m a).maxAvailable = m := rfl
@[simp] lemma maxAvailable_split (m a : ℕ) (l r : Node) : (split m a l r).maxAvailable = m := rfl
@[simp] lemma allocated_bare (m a : ℕ) : (bare m a).allocated = a := rfl
@[simp] lemma allocated_split (m a : ℕ) (l r : Node) : (split m a l r).allocated = a := rfl

/-- The node with its two scalar fields replaced; the children stay. -/
def setFields (maxAvailable allocated : ℕ) : Node → Node
  | bare _ _ => bare maxAvailable allocated
  | split _ _ l r => split maxAvailable allocated l r

/-- `Node::update` -/
def update (nodeSize : ℕ) : Node → Node
  | bare m a => bare m a
  | split _ a l r =>
      if l.maxAvailable = nodeSize / 2 ∧ r.maxAvailable = nodeSize / 2 then
        split nodeSize a l r
      else
        split (max l.maxAvailable r.maxAvailable) a l r

/-- `get_children`: two free halves are made when there are no children yet. -/
def getChildren (nodeSize : ℕ) : Node → Node × Node
  | bare _ _ => (bare (nodeSize / 2) 0, bare (nodeSize / 2) 0)
  | split _ _ l r => (l, r)

/-- The node after its children were changed through the reference from `get_children`. -/
def setChildren (node left right : Node) : Node :=
  split node.maxAvailable node.allocated left right

/-- `Node::new` -/
def new : (order : ℕ) → (size : ℕ) → Checked Node
  | order, size =>
      if size = 0 then
        pure (bare 0 0)
      else if size = 2 ^ order then
        pure (bare (2 ^ order) 0)
      else
        match order with
        | 0 => throw (.assertion .nodeNew)
        | n + 1 => do
            ensure (size < 2 ^ (n + 1)) (.assertion .nodeNew)
            let left ← new n (min (2 ^ n) size)
            let right ← new n (size - 2 ^ n)
            pure ((split 0 0 left right).update (2 ^ (n + 1)))

/-- `Node::alloc`.  The returned node is what `&mut self` holds afterwards. -/
def alloc (reqSize : ℕ) : (order : ℕ) → Node → Checked (Except AllocError ℕ × Node)
  | order, node =>
      if reqSize > node.maxAvailable then
        pure (.error .mk, node)
      else if reqSize > 2 ^ order / 2 then do
        ensure (node.maxAvailable = 2 ^ order) (.assertion .nodeAlloc)
        pure (.ok 0, node.setFields 0 reqSize)
      else
        match order with
        | 0 => throw (.stackOverflow .nodeAlloc)
        | n + 1 =>
            let (left, right) := node.getChildren (2 ^ (n + 1))
            if (left.maxAvailable ≥ reqSize ∧ left.maxAvailable ≤ right.maxAvailable) ∨
                right.maxAvailable < reqSize then do
              ensure (left.maxAvailable ≥ reqSize) (.assertion .nodeAlloc)
              let (result, left) ← alloc reqSize n left
              match result with
              | .error e => pure (.error e, node.setChildren left right)
              | .ok ptr => pure (.ok ptr, (node.setChildren left right).update (2 ^ (n + 1)))
            else do
              ensure (right.maxAvailable ≥ reqSize) (.assertion .nodeAlloc)
              let (result, right) ← alloc reqSize n right
              match result with
              | .error e => pure (.error e, node.setChildren left right)
              | .ok ptr =>
                  pure (.ok (ptr + 2 ^ n), (node.setChildren left right).update (2 ^ (n + 1)))

/-- `Node::dealloc` -/
def dealloc (reqSize : ℕ) : (order : ℕ) → (ptr : ℕ) → Node → Checked Node
  | order, ptr, node =>
      if ptr = 0 ∧ reqSize > 2 ^ order / 2 then do
        ensure (node.maxAvailable = 0) (.assertion .nodeDealloc)
        ensure (node.allocated = reqSize) (.assertion .nodeDealloc)
        pure (node.setFields (2 ^ order) 0)
      else
        match order, node with
        | _, bare _ _ => throw (.unwrap .nodeDealloc)
        | 0, split _ _ _ _ => throw (.stackOverflow .nodeDealloc)
        | n + 1, split m a left right =>
            if ptr < 2 ^ n then do
              let left ← dealloc reqSize n ptr left
              pure ((split m a left right).update (2 ^ (n + 1)))
            else do
              let right ← dealloc reqSize n (ptr - 2 ^ n) right
              pure ((split m a left right).update (2 ^ (n + 1)))

/-- `Node::reserve_range`.  The two halves of the range are reserved one after the other, each only
if the range reaches into that half.  A single address has two empty halves; a range that reaches
into the right one is handed down for ever. -/
def reserveRange : (order : ℕ) → (start stop : ℕ) → Node → Checked Node
  | order, start, stop, node =>
      if start = 0 ∧ stop = 2 ^ order then do
        ensure (node.maxAvailable = 2 ^ order) (.assertion .nodeReserve)
        pure (node.setFields 0 node.allocated)
      else
        match order with
        | 0 =>
            if stop > 0 then
              throw (.stackOverflow .nodeReserve)
            else
              let (left, right) := node.getChildren 1
              pure ((node.setChildren left right).update 1)
        | n + 1 => do
            let (left, right) := node.getChildren (2 ^ (n + 1))
            let left ← (if start < 2 ^ n then
                reserveRange n start (min stop (2 ^ n)) left
              else pure left : Checked Node)
            let right ← (if stop > 2 ^ n then
                reserveRange n (max start (2 ^ n) - 2 ^ n) (stop - 2 ^ n) right
              else pure right : Checked Node)
            pure ((node.setChildren left right).update (2 ^ (n + 1)))

end Node

/-- The request that a layout amounts to. -/
def Layout.reqSize (l : Layout) : ℕ := max l.size l.align

/-- `BuddyAllocator`; `root_node_size` is `2 ^ rootOrder`. -/
structure BuddyAllocator where
  root : Node
  rootOrder : ℕ
  range : AddressRange
  deriving Repr

namespace BuddyAllocator

/-- `BuddyAllocator::new`.  `next_power_of_two` overflows above `2 ^ 63`. -/
def new (range : AddressRange) : Checked BuddyAllocator := do
  let size ← usizeSub .buddyNew range.stop range.start
  ensure (size ≤ 2 ^ 63) (.overflow .buddyNew)
  let order := Nat.clog 2 size
  let root ← Node.new order size
  pure { root := root, rootOrder := order, range := range }

/-- `BuddyAllocator::alloc` -/
def alloc (self : BuddyAllocator) (layout : Layout) :
    Checked (Except AllocError ℕ × BuddyAllocator) := do
  let reqSize := layout.reqSize
  let (result, root) ← self.root.alloc reqSize self.rootOrder
  let self := { self with root := root }
  match result with
  | .error e => pure (.error e, self)
  | .ok unoffsetPtr =>
      let ptr ← usizeAdd .buddyAlloc self.range.start unoffsetPtr
      ensure (ptr ≥ self.range.start) (.assertion .buddyAlloc)
      let stop ← usizeAdd .buddyAlloc ptr reqSize
      ensure (stop ≤ self.range.stop) (.assertion .buddyAlloc)
      pure (.ok ptr, self)

/-- `BuddyAllocator::dealloc` -/
def dealloc (self : BuddyAllocator) (ptr : ℕ) (layout : Layout) : Checked BuddyAllocator := do
  let unoffsetPtr ← usizeSub .buddyDealloc ptr self.range.start
  let root ← self.root.dealloc layout.reqSize self.rootOrder unoffsetPtr
  pure { self with root := root }

/-- `BuddyAllocator::reserve_range` -/
def reserveRange (self : BuddyAllocator) (range : AddressRange) : Checked BuddyAllocator := do
  ensure (range.start ≥ self.range.start) (.assertion .buddyReserve)
  ensure (range.stop ≤ self.range.stop) (.assertion .buddyReserve)
  let start ← usizeSub .buddyReserve range.start self.range.start
  let stop ← usizeSub .buddyReserve range.stop self.range.start
  let root ← self.root.reserveRange self.rootOrder start stop
  pure { self with root := root }

end BuddyAllocator

end Deravel
