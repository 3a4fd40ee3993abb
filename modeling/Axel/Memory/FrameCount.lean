import Axel.Memory.EarlyAllocator

/-!
# How many frames fit

`allocate_frames` counts the whole pages of the region, takes the size of one structure for
each of them off the capacity, and counts the pages that remain. The array of structures is
then rounded up to a page. The two roundings go in opposite directions: the bytes behind the
last whole page are counted on, but they are of no use when the array ends in a page that is
not full.
-/

namespace Axel

/-- The numbers of `allocate_frames` for a region of `capacity` bytes behind the aligned begin
and structures of `size` bytes. -/
structure FramePlan where
  /-- The bytes of the region. -/
  capacity : ℕ
  /-- The size of a structure. -/
  size : ℕ
  /-- A structure is not empty. -/
  size_pos : 0 < size
  /-- A structure is smaller than a page. -/
  size_lt : size < frameSize

namespace FramePlan

/-- The whole pages of the region. -/
def pages (plan : FramePlan) : ℕ := plan.capacity / frameSize

/-- The bytes behind the last whole page. -/
def tail (plan : FramePlan) : ℕ := plan.capacity % frameSize

/-- The bytes of an array with one structure for each page. -/
def required (plan : FramePlan) : ℕ := plan.pages * plan.size

/-- The pages that are counted. -/
def count (plan : FramePlan) : ℕ := (plan.capacity - plan.required) / frameSize

/-- The pages that the array of structures takes up. -/
def arrayPages (plan : FramePlan) : ℕ := (plan.size * plan.count + (frameSize - 1)) / frameSize

/-- The bytes behind the last whole page do not fill the last page of the array that was
estimated, or the structures that the estimate has too many make up for it. -/
def Fits (plan : FramePlan) : Prop :=
  plan.tail < plan.required % frameSize ∨
    plan.required % frameSize ≤ plan.required / frameSize * plan.size

instance (plan : FramePlan) : Decidable plan.Fits := inferInstanceAs (Decidable (_ ∨ _))

/-- The array that is estimated is smaller than the pages it is for. -/
theorem required_le (plan : FramePlan) : plan.required ≤ plan.pages * (frameSize - 1) :=
  Nat.mul_le_mul_left _ (Nat.le_sub_one_of_lt plan.size_lt)

/-- The capacity in pages and bytes. -/
theorem capacity_eq (plan : FramePlan) :
    plan.capacity = plan.pages * frameSize + plan.tail ∧ plan.tail < frameSize :=
  ⟨(Nat.div_add_mod' _ _).symm, Nat.mod_lt _ (by decide)⟩

/-- The estimate in pages and bytes. -/
theorem required_eq (plan : FramePlan) :
    plan.required = plan.required / frameSize * frameSize + plan.required % frameSize ∧
      plan.required % frameSize < frameSize :=
  ⟨(Nat.div_add_mod' _ _).symm, Nat.mod_lt _ (by decide)⟩

/-- The pages that are counted and the pages of the estimate add up to all pages, and one page
is lost when the bytes behind the last page do not cover the rest of the estimate. -/
theorem count_eq (plan : FramePlan) :
    plan.count + plan.required / frameSize +
      (if plan.tail < plan.required % frameSize then 1 else 0) = plan.pages := by
  have hrequired := plan.required_le
  obtain ⟨hcapacity, htail⟩ := plan.capacity_eq
  obtain ⟨hparts, hrest⟩ := plan.required_eq
  unfold count
  rw [hcapacity]
  unfold frameSize at *
  split
  case isTrue hlt => omega
  case isFalse hge => omega

/-- No more pages are counted than there are. -/
theorem count_le (plan : FramePlan) : plan.count ≤ plan.pages := by
  have hcount := plan.count_eq
  unfold frameSize at hcount
  omega

/-- The bytes of the array, by the structures that the estimate has too many. -/
theorem size_mul_count (plan : FramePlan) :
    plan.size * plan.count + plan.size * (plan.pages - plan.count) = plan.required := by
  rw [← Nat.mul_add, Nat.add_sub_cancel' plan.count_le, Nat.mul_comm]
  rfl

/-- The array lies in the pages of the region. -/
theorem arrayPages_le (plan : FramePlan) : plan.arrayPages ≤ plan.pages := by
  have hrequired := plan.required_le
  have hsize := plan.size_mul_count
  unfold arrayPages
  unfold frameSize at *
  omega

/-- The pages that are counted are left behind the array exactly if the plan fits. -/
theorem count_le_iff (plan : FramePlan) :
    plan.count ≤ plan.pages - plan.arrayPages ↔ plan.Fits := by
  have hcount := plan.count_eq
  have hsize := plan.size_mul_count
  have harray := plan.arrayPages_le
  obtain ⟨hparts, hrest⟩ := plan.required_eq
  have hextra : plan.size * (plan.pages - plan.count) =
      plan.required / frameSize * plan.size +
        (if plan.tail < plan.required % frameSize then plan.size else 0) := by
    have hpages : plan.pages - plan.count = plan.required / frameSize +
        (if plan.tail < plan.required % frameSize then 1 else 0) := by
      rw [← hcount, Nat.add_assoc, Nat.add_sub_cancel_left]
    rw [hpages, Nat.mul_add, Nat.mul_comm]
    split
    case isTrue => rw [Nat.mul_one]
    case isFalse => rw [Nat.mul_zero]
  unfold Fits
  unfold arrayPages at *
  by_cases hlost : plan.tail < plan.required % frameSize
  · -- One page more is free, which takes up the rest of the estimate.
    rw [if_pos hlost] at hcount hextra
    refine iff_of_true ?_ (.inl hlost)
    unfold frameSize at *
    omega
  · rw [if_neg hlost] at hcount hextra
    unfold frameSize at *
    omega

/-- The pages of the region behind the array. -/
theorem remaining_pages (plan : FramePlan) :
    (plan.capacity - plan.arrayPages * frameSize) / frameSize =
      plan.pages - plan.arrayPages := by
  rw [Nat.mul_comm plan.arrayPages, Nat.sub_mul_div]
  rfl

variable {addr : ℕ}

/-- Rounding up the end of the array stays in the address space. -/
theorem arrayEnd_lt (plan : FramePlan) (hdvd : frameSize ∣ addr)
    (hend : addr + plan.capacity < usizeCount) :
    addr + plan.size * plan.count + (frameSize - 1) < usizeCount := by
  have harray := plan.arrayPages_le
  obtain ⟨hpages, htail⟩ := plan.capacity_eq
  unfold arrayPages at harray
  unfold frameSize at *
  unfold usizeCount at *
  omega

/-- The end of the array, rounded up to a page. -/
theorem alignUp_arrayEnd (plan : FramePlan) (hdvd : frameSize ∣ addr)
    (hend : addr + plan.capacity < usizeCount) :
    alignUp (addr + plan.size * plan.count) frameSize =
      .ok (addr + plan.arrayPages * frameSize) := by
  have hup := alignUp_eq (k := 12) (by decide) (plan.arrayEnd_lt hdvd hend)
  obtain ⟨n, rfl⟩ := hdvd
  have hquotient : (frameSize * n + plan.size * plan.count + (frameSize - 1)) / frameSize =
      n + plan.arrayPages := by
    rw [Nat.add_assoc, Nat.mul_add_div (by decide)]
    rfl
  have hpages : (frameSize * n + plan.size * plan.count + (frameSize - 1)) / frameSize *
      frameSize = frameSize * n + plan.arrayPages * frameSize := by
    rw [hquotient, Nat.add_mul, Nat.mul_comm n]
  exact hup.trans (congrArg Except.ok hpages)

end FramePlan

section AllocateFrames

variable {allocator : EarlyAllocator} {layout : StructLayout} {addr : ℕ} {plan : FramePlan}

/-- An array of structures begins where the region does when that is the begin of a page. -/
theorem EarlyAllocator.allocate_eq (addrEnd : ℕ) {count : ℕ} (hdvd : frameSize ∣ addr)
    (hfits : addr + layout.size * count + (frameSize - 1) < usizeCount) :
    (⟨addr, addrEnd⟩ : EarlyAllocator).allocate layout count =
      .ok (addr, ⟨addr + layout.size * count, addrEnd⟩) := by
  have hpow : 2 ^ layout.alignExponent ≤ 2 ^ 12 :=
    Nat.pow_le_pow_right (by decide) layout.alignExponent_le
  have hpow_dvd : 2 ^ layout.alignExponent ∣ addr :=
    Nat.dvd_trans (Nat.pow_dvd_pow 2 layout.alignExponent_le) hdvd
  have hframe : frameSize = 2 ^ 12 := rfl
  have halign : alignUp addr (2 ^ layout.alignExponent) = .ok addr :=
    alignUp_of_dvd (Nat.le_trans layout.alignExponent_le (by decide)) (by omega) hpow_dvd
  simp only [allocate, alignAddrBegin, halign, bind, Except.bind, pure, Except.pure,
    checkedMul_ok (by omega : layout.size * count < usizeCount),
    checkedAdd_ok (by omega : addr + layout.size * count < usizeCount)]

/-- What `allocate_frames` computes: its last assertion is the only thing that can fail. -/
theorem allocateFrames_eq (haddr : alignUp allocator.addrBegin frameSize = .ok addr)
    (hle : addr ≤ allocator.addrEnd) (hend : allocator.addrEnd < usizeCount)
    (hcapacity : plan.capacity = allocator.addrEnd - addr) (hsize : plan.size = layout.size) :
    allocateFrames allocator layout =
      if plan.count ≤ plan.pages - plan.arrayPages then
        .ok ((addr, plan.count),
          ⟨addr + plan.arrayPages * frameSize, allocator.addrEnd⟩)
      else .error .debugAssert := by
  obtain ⟨-, -, hdvd⟩ := alignUp_spec (k := 12) (by decide) haddr
  have hspace : addr + plan.capacity < usizeCount := by omega
  have hcapacityOk : checkedSub allocator.addrEnd addr = .ok plan.capacity := by
    rw [checkedSub_ok hle, hcapacity]
  have hrequired : plan.required ≤ plan.capacity := by
    have hestimate := plan.required_le
    obtain ⟨hpages, -⟩ := plan.capacity_eq
    unfold frameSize at *
    omega
  have hestimateOk : checkedMul (plan.capacity / frameSize) layout.size =
      .ok plan.required := by
    rw [← hsize]
    exact checkedMul_ok (by change plan.required < usizeCount; omega)
  have hrestOk : checkedSub plan.capacity plan.required =
      .ok (plan.capacity - plan.required) := checkedSub_ok hrequired
  have harrayEnd := plan.arrayEnd_lt hdvd hspace
  have hroundOk := plan.alignUp_arrayEnd hdvd hspace
  rw [hsize] at harrayEnd hroundOk
  have hallocateOk := EarlyAllocator.allocate_eq allocator.addrEnd hdvd harrayEnd
  have hremainingOk : checkedSub allocator.addrEnd (addr + plan.arrayPages * frameSize) =
      .ok (plan.capacity - plan.arrayPages * frameSize) := by
    have hmul : plan.arrayPages * frameSize ≤ plan.pages * frameSize :=
      Nat.mul_le_mul_right _ plan.arrayPages_le
    obtain ⟨hpages, -⟩ := plan.capacity_eq
    rw [checkedSub_ok (by omega), hcapacity, Nat.sub_sub]
  have hcount : (plan.capacity - plan.required) / frameSize = plan.count := rfl
  simp only [allocateFrames, EarlyAllocator.alignAddrBegin, EarlyAllocator.capacity, haddr,
    hcapacityOk, hestimateOk, hrestOk, hcount, hallocateOk, hroundOk, hremainingOk,
    plan.remaining_pages, debugAssert, bind, Except.bind, pure, Except.pure, decide_eq_true_eq]
  by_cases hfits : plan.count ≤ plan.pages - plan.arrayPages
  · simp only [if_pos hfits]
  · simp only [if_neg hfits]

/-- `allocate_frames` returns an array of structures that begins behind the aligned begin of
the region and ends before the page-aligned address that is left, and behind that address
there is room for all frames that are counted. -/
def FramesFit (allocator : EarlyAllocator) (layout : StructLayout) (addr : ℕ) : Prop :=
  ∃ frames count next, allocateFrames allocator layout = .ok ((frames, count), next) ∧
    next.addrEnd = allocator.addrEnd ∧ next.addrBegin ≤ next.addrEnd ∧
    frameSize ∣ next.addrBegin ∧ count * frameSize ≤ next.addrEnd - next.addrBegin ∧
    addr ≤ frames ∧ frames + count * layout.size ≤ next.addrBegin

/-- When the plan fits, `allocate_frames` places the array and the frames. -/
theorem framesFit_of_fits (haddr : alignUp allocator.addrBegin frameSize = .ok addr)
    (hle : addr ≤ allocator.addrEnd) (hend : allocator.addrEnd < usizeCount)
    (hcapacity : plan.capacity = allocator.addrEnd - addr) (hsize : plan.size = layout.size)
    (hfits : plan.Fits) : FramesFit allocator layout addr := by
  obtain ⟨-, -, hdvd⟩ := alignUp_spec (k := 12) (by decide) haddr
  have hcount := plan.count_le_iff.mpr hfits
  have heq := allocateFrames_eq haddr hle hend hcapacity hsize
  rw [if_pos hcount] at heq
  have harray : plan.arrayPages * frameSize ≤ plan.pages * frameSize :=
    Nat.mul_le_mul_right _ plan.arrayPages_le
  obtain ⟨hpages, -⟩ := plan.capacity_eq
  have hroom : plan.count * frameSize ≤ plan.capacity - plan.arrayPages * frameSize := by
    rw [← Nat.le_div_iff_mul_le (by decide), plan.remaining_pages]
    exact hcount
  have hstructures : plan.count * layout.size ≤ plan.arrayPages * frameSize := by
    rw [← hsize, Nat.mul_comm]
    unfold FramePlan.arrayPages frameSize
    omega
  refine ⟨addr, plan.count, _, heq, rfl, ?_, ?_, ?_, Nat.le_refl addr, ?_⟩
  · simp only
    omega
  · exact Nat.dvd_add hdvd (Nat.dvd_mul_left _ _)
  · simp only
    omega
  · simp only
    omega

/-- When the plan does not fit, the last assertion of `allocate_frames` fails. -/
theorem allocateFrames_of_not_fits (haddr : alignUp allocator.addrBegin frameSize = .ok addr)
    (hle : addr ≤ allocator.addrEnd) (hend : allocator.addrEnd < usizeCount)
    (hcapacity : plan.capacity = allocator.addrEnd - addr) (hsize : plan.size = layout.size)
    (hfits : ¬ plan.Fits) : allocateFrames allocator layout = .error .debugAssert := by
  rw [allocateFrames_eq haddr hle hend hcapacity hsize]
  exact if_neg (mt plan.count_le_iff.mp hfits)

/-- `allocate_frames` fits its own bookkeeping exactly if the plan for the region fits;
otherwise its last assertion fails. No subtraction underflows in any case. -/
theorem framesFit_iff (allocator : EarlyAllocator) (layout : StructLayout)
    (haddr : alignUp allocator.addrBegin frameSize = .ok addr)
    (hle : addr ≤ allocator.addrEnd) (hend : allocator.addrEnd < usizeCount)
    (hpos : 0 < layout.size) (hlt : layout.size < frameSize) :
    (FramesFit allocator layout addr ↔
        (⟨allocator.addrEnd - addr, layout.size, hpos, hlt⟩ : FramePlan).Fits) ∧
      (¬ (⟨allocator.addrEnd - addr, layout.size, hpos, hlt⟩ : FramePlan).Fits →
        allocateFrames allocator layout = .error .debugAssert) := by
  have hnot : ¬ (⟨allocator.addrEnd - addr, layout.size, hpos, hlt⟩ : FramePlan).Fits →
      allocateFrames allocator layout = .error .debugAssert :=
    allocateFrames_of_not_fits haddr hle hend rfl rfl
  refine ⟨⟨?_, framesFit_of_fits haddr hle hend rfl rfl⟩, hnot⟩
  rintro ⟨frames, count, next, hok, -⟩
  by_contra hfits
  rw [hnot hfits] at hok
  cases hok

/-- The first address is the begin of a page. -/
theorem alignUp_zero : alignUp 0 frameSize = .ok 0 :=
  alignUp_of_dvd (k := 12) (by decide) (by decide) (Nat.dvd_zero _)

/-- Structures of 40 bytes in a region of two pages. -/
theorem framesFit_iff_twoPages : FramesFit ⟨0, 8192⟩ ⟨40, 3, by decide⟩ 0 :=
  (framesFit_iff ⟨0, 8192⟩ ⟨40, 3, by decide⟩ alignUp_zero (by decide) (by decide) (by decide)
    (by decide)).1.mpr (by decide)

/-- In a region of one page and 100 bytes the page is counted as a frame, but the array of one
structure of 40 bytes takes it up. -/
theorem not_framesFit :
    ¬ ∀ (allocator : EarlyAllocator) (layout : StructLayout) (addr : ℕ),
      alignUp allocator.addrBegin frameSize = .ok addr → addr ≤ allocator.addrEnd →
      allocator.addrEnd < usizeCount → 0 < layout.size → layout.size < frameSize →
      FramesFit allocator layout addr := by
  intro hall
  obtain ⟨frames, count, next, hok, -⟩ := hall ⟨0, 4196⟩ ⟨40, 3, by decide⟩ 0 alignUp_zero
    (by decide) (by decide) (by decide) (by decide)
  have hfits : ¬ (⟨4196, 40, by decide, by decide⟩ : FramePlan).Fits := by decide
  have hfail : allocateFrames ⟨0, 4196⟩ ⟨40, 3, by decide⟩ = .error .debugAssert :=
    allocateFrames_of_not_fits alignUp_zero (by decide) (by decide) rfl rfl hfits
  rw [hfail] at hok
  cases hok

end AllocateFrames

end Axel
