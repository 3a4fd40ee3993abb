import Axel.Fault
import Axel.Lib.Dyadic

/-!
# The buddy allocator

`BuddyAllocator` manages an array of objects in blocks of `2 ^ order` neighbours. The
free blocks of each order are chained in an intrusive list by their first objects,
which also store the order of the block and whether it is in use. Objects are named
by their index in the array, and a list holds indices. Resetting the links in `new`
makes every object unlinked, which the empty lists express.
-/

namespace Axel

/-- The trait `Object`: what the allocator reads and writes in an object. The laws say
that the two tags are independent cells. -/
class Object (T : Type) where
  /-- Set the state to used. -/
  markUsed : T → T
  /-- Set the state to free. -/
  markFree : T → T
  /-- Whether the state is used. -/
  isUsed : T → Bool
  /-- The stored order. -/
  order : T → ℕ
  /-- Store an order. -/
  setOrder : T → ℕ → T
  isUsed_markUsed : ∀ t, isUsed (markUsed t) = true
  isUsed_markFree : ∀ t, isUsed (markFree t) = false
  isUsed_setOrder : ∀ t k, isUsed (setOrder t k) = isUsed t
  order_markUsed : ∀ t, order (markUsed t) = order t
  order_markFree : ∀ t, order (markFree t) = order t
  order_setOrder : ∀ t k, order (setOrder t k) = k

attribute [simp] Object.isUsed_markUsed Object.isUsed_markFree Object.isUsed_setOrder
  Object.order_markUsed Object.order_markFree Object.order_setOrder

/-- `MAX_ORDER`, the number of free lists. -/
def maxOrder : ℕ := 15

/-- The state of the allocator, with the array of objects that it manages. -/
structure BuddyAllocator (T : Type) where
  /-- The physical address of the first managed frame. -/
  baseAddr : ℕ
  /-- The number of objects. -/
  objCount : ℕ
  /-- The objects behind `obj_ptr`. -/
  objs : ℕ → T
  /-- The free list of each order below `MAX_ORDER`. -/
  freeLists : ℕ → List ℕ
  /-- The stored length of each free list. -/
  freeCounts : ℕ → ℕ

namespace BuddyAllocator

open Dyadic

variable {T : Type} [Object T]

/-- The blocks on the free lists. -/
def freeBlocks (self : BuddyAllocator T) : List Block := blocksOf maxOrder self.freeLists

/-- Change one object. -/
def modifyObj (self : BuddyAllocator T) (obj : ℕ) (f : T → T) : BuddyAllocator T :=
  { self with objs := Function.update self.objs obj (f (self.objs obj)) }

/-- `LinkedList::push_back` of an object to the list of an order, with the count of
that list. The list panics if the object is linked. -/
def pushBack (self : BuddyAllocator T) (order obj : ℕ) : Except Fault (BuddyAllocator T) :=
  if maxOrder ≤ order then .error .indexOutOfBounds
  else if ∃ i < maxOrder, obj ∈ self.freeLists i then .error .alreadyLinked
  else .ok { self with
    freeLists := Function.update self.freeLists order (self.freeLists order ++ [obj])
    freeCounts := Function.update self.freeCounts order (self.freeCounts order + 1) }

/-- `free_counts[order] -= 1`. -/
def decrementCount (self : BuddyAllocator T) (order : ℕ) : Except Fault (BuddyAllocator T) := do
  let count ← checkedSub (self.freeCounts order) 1
  return { self with freeCounts := Function.update self.freeCounts order count }

/-- `free_lists[order].cursor_mut_from_ptr(obj).remove()`: the safety contract of the
cursor demands that the object is in this list. -/
def removeFrom (self : BuddyAllocator T) (order obj : ℕ) : Except Fault (BuddyAllocator T) :=
  if obj ∈ self.freeLists order then
    .ok { self with
      freeLists := Function.update self.freeLists order ((self.freeLists order).erase obj) }
  else .error .notInList

/-- `BuddyAllocator::is_managed_obj`. -/
def isManagedObj (self : BuddyAllocator T) (obj : ℕ) : Except Fault Bool := do
  let tail ← checkedSub self.objCount 1
  return decide (obj ≤ tail)

/-- `BuddyAllocator::buddy`. The range check compares with `<`, as the source does. -/
def buddy (self : BuddyAllocator T) (obj order : ℕ) : Except Fault (Option ℕ) := do
  let managed ← self.isManagedObj obj
  debugAssert managed
  if maxOrder ≤ order then
    return none
  if self.objCount < obj then
    return none
  let buddyIndex := obj ^^^ (1 <<< order)
  let managed ← self.isManagedObj buddyIndex
  if managed then return some buddyIndex else return none

/-- The `while` loop of `new` for one order. The number of remaining objects bounds
the iterations and serves as fuel. -/
def fillOrder (count order : ℕ) : ℕ → ℕ → BuddyAllocator T → Except Fault (ℕ × BuddyAllocator T)
  | 0, index, self => .ok (index, self)
  | fuel + 1, index, self => do
    let rest ← checkedSub count index
    if 2 ^ order ≤ rest then
      let self := self.modifyObj index (fun obj => Object.markFree (Object.setOrder obj order))
      let self ← self.pushBack order index
      fillOrder count order fuel (index + 2 ^ order) self
    else
      return (index, self)

/-- The `for` loop of `new` over the descending orders. -/
def fillOrders (count : ℕ) : List ℕ → ℕ → BuddyAllocator T → Except Fault (ℕ × BuddyAllocator T)
  | [], index, self => .ok (index, self)
  | order :: orders, index, self => do
    let (index, self) ← fillOrder count order (count + 1) index self
    fillOrders count orders index self

/-- `BuddyAllocator::new`. The objects may hold anything. -/
def new (baseAddr : ℕ) (objs : ℕ → T) (count : ℕ) : Except Fault (BuddyAllocator T) := do
  let empty : BuddyAllocator T := ⟨baseAddr, count, objs, fun _ => [], fun _ => 0⟩
  let (_, self) ← fillOrders count (List.range maxOrder).reverse 0 empty
  return self

/-- The loop of `allocate` that pushes the halves that are not needed. -/
def pushExtra (obj : ℕ) : List ℕ → BuddyAllocator T → Except Fault (BuddyAllocator T)
  | [], self => .ok self
  | i :: orders, self => do
    match ← self.buddy obj i with
    | some buddyObj =>
      let self := self.modifyObj buddyObj (fun o => Object.markFree (Object.setOrder o i))
      let self ← self.pushBack i buddyObj
      pushExtra obj orders self
    | none => return self

/-- The loop of `allocate` over the orders that can serve the request. -/
def allocateFrom (requestOrder : ℕ) :
    List ℕ → BuddyAllocator T → Except Fault (Option ℕ × BuddyAllocator T)
  | [], self => .ok (none, self)
  | order :: orders, self =>
    match self.freeLists order with
    | [] => allocateFrom requestOrder orders self
    | obj :: rest => do
      let self := { self with freeLists := Function.update self.freeLists order rest }
      let self ← self.decrementCount order
      let self := self.modifyObj obj (fun o => Object.markUsed (Object.setOrder o requestOrder))
      let self ← pushExtra obj (List.range' requestOrder (order - requestOrder)) self
      return (some obj, self)

/-- `BuddyAllocator::allocate`. -/
def allocate (self : BuddyAllocator T) (requestOrder : ℕ) :
    Except Fault (Option ℕ × BuddyAllocator T) :=
  if maxOrder ≤ requestOrder then .ok (none, self)
  else allocateFrom requestOrder (List.range' requestOrder (maxOrder - requestOrder)) self

/-- The loop of `free` that merges a block with its buddy as long as the first object
of the buddy is not marked as used. -/
def mergeFrom : List ℕ → ℕ → BuddyAllocator T → Except Fault (ℕ × BuddyAllocator T)
  | [], obj, self => .ok (obj, self)
  | i :: orders, obj, self => do
    match ← self.buddy obj i with
    | some buddyObj =>
      if Object.isUsed (self.objs buddyObj) then
        return (obj, self)
      let self ← self.removeFrom i buddyObj
      let self ← self.decrementCount i
      if buddyObj < obj then
        let self := self.modifyObj buddyObj Object.markFree
        let self := self.modifyObj buddyObj (fun o => Object.setOrder o (i + 1))
        mergeFrom orders buddyObj self
      else
        let self := self.modifyObj obj (fun o => Object.setOrder o (i + 1))
        mergeFrom orders obj self
    | none => return (obj, self)

/-- `BuddyAllocator::free`. -/
def free (self : BuddyAllocator T) (obj : ℕ) : Except Fault (BuddyAllocator T) := do
  let managed ← self.isManagedObj obj
  debugAssert managed
  let self := self.modifyObj obj Object.markFree
  let order := Object.order (self.objs obj)
  let (obj, self) ← mergeFrom (List.range' order (maxOrder - order)) obj self
  self.pushBack (Object.order (self.objs obj)) obj

/-- `BuddyAllocator::count_free_objs`. -/
def countFreeObjs (self : BuddyAllocator T) : ℕ :=
  (List.range maxOrder).foldl (fun acc order => acc + self.freeCounts order * (1 <<< order)) 0

end BuddyAllocator

end Axel
