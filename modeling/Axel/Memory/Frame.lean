import Axel.Memory.EarlyAllocator
import Axel.Buddy.Allocator

/-!
# Frames and frame allocators

A `Frame` names a physical memory block of 4096 bytes by its number and carries the
two tags of the buddy allocator. The page tables obtain and return frames through the
trait `FrameAllocator`.
-/

namespace Axel

/-- `frame::State`. -/
inductive FrameState where
  | used
  | free
  deriving DecidableEq, Repr

/-- `frame::Frame`, without the link of the free lists. -/
structure Frame where
  /-- The physical address divided by the frame size. -/
  number : ℕ
  /-- The order of the block that starts at this frame. -/
  order : ℕ
  /-- Whether that block is in use. -/
  state : FrameState
  deriving DecidableEq, Repr

/-- `Frame::from_address`. -/
def Frame.fromAddress (addr : ℕ) : Frame := ⟨addr / frameSize, 0, .free⟩

/-- `Frame::set_number`. -/
def Frame.setNumber (self : Frame) (i : ℕ) : Frame := { self with number := i }

/-- `Frame::address`. -/
def Frame.address (self : Frame) : Except Fault ℕ := checkedMul self.number frameSize

instance : Object Frame where
  markUsed self := { self with state := .used }
  markFree self := { self with state := .free }
  isUsed self := self.state == .used
  order self := self.order
  setOrder self order := { self with order }
  isUsed_markUsed _ := rfl
  isUsed_markFree _ := rfl
  isUsed_setOrder _ _ := rfl
  order_markUsed _ := rfl
  order_markFree _ := rfl
  order_setOrder _ _ := rfl

/-- The trait `FrameAllocator`. Either method may panic. -/
class FrameAllocator (α : Type) where
  /-- Hand out one frame, if there is one. -/
  allocOne : α → Except Fault (Option Frame × α)
  /-- Take a frame back. -/
  free : α → Frame → Except Fault α

/-- `FrameAllocator for BuddyAllocator<_, Frame>`. A frame is turned back into an
object by its number relative to the base address; the tags of the argument are
ignored and those of the object are used. -/
instance : FrameAllocator (BuddyAllocator Frame) where
  allocOne self := do
    let (obj, self) ← self.allocate 0
    return (obj.map self.objs, self)
  free self f := do
    let index ← checkedSub f.number (self.baseAddr / frameSize)
    BuddyAllocator.free self index

end Axel
