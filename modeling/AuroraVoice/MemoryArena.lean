import Mathlib.Algebra.Ring.Nat
import Mathlib.Data.List.Sort

namespace AuroraVoice

/-- `size_t` has 64 bits, and its arithmetic wraps around. -/
def wrap (n : Nat) : Nat := n % 2 ^ 64

def wrapSub (a b : Nat) : Nat := wrap (a + 2 ^ 64 - b)

structure ArenaAllocWithUsageInterval where
  offset : Nat
  size : Nat
  tensor : Int
  firstNode : Int
  lastNode : Int
  deriving DecidableEq

def ArenaAllocWithUsageInterval.reset : ArenaAllocWithUsageInterval := ⟨0, 0, -1, -1, -1⟩

/-- The allocation plan of an arena, with the size and alignment of its buffer. -/
structure SimpleMemoryArena where
  committed : Bool
  highWaterMark : Nat
  bufferAlignment : Nat
  bufferSize : Nat
  activeAllocs : List ArenaAllocWithUsageInterval

def SimpleMemoryArena.new (alignment : Nat) : SimpleMemoryArena := ⟨false, 0, alignment, 0, []⟩

def alignTo (alignment offset : Nat) : Nat :=
  if offset % alignment = 0 then offset else wrap (offset + (alignment - offset % alignment))

def kOffsetNotAssigned : Nat := 2 ^ 64 - 1

/-- The variables of the loop of `Allocate`. -/
structure GapSearch where
  bestOffset : Nat
  bestOffsetFit : Nat
  currentOffset : Nat

def GapSearch.start : GapSearch := ⟨kOffsetNotAssigned, kOffsetNotAssigned, 0⟩

/-- The gap before one alloc. -/
def GapSearch.look (s : GapSearch) (alignment size : Nat) (alloc : ArenaAllocWithUsageInterval) : GapSearch :=
  let alignedCurrentOffset := alignTo alignment s.currentOffset
  let currentOffset := max s.currentOffset (wrap (alloc.offset + alloc.size))
  if wrap (alignedCurrentOffset + size) ≤ alloc.offset ∧
      wrapSub alloc.offset alignedCurrentOffset < s.bestOffsetFit then
    ⟨alignedCurrentOffset, wrapSub alloc.offset s.currentOffset, currentOffset⟩
  else ⟨s.bestOffset, s.bestOffsetFit, currentOffset⟩

def GapSearch.scan (alignment size : Nat) (firstNode lastNode : Int) :
    List ArenaAllocWithUsageInterval → GapSearch → GapSearch
  | [], s => s
  | alloc :: allocs, s =>
    if alloc.lastNode < firstNode ∨ alloc.firstNode > lastNode then scan alignment size firstNode lastNode allocs s
    else
      let s := s.look alignment size alloc
      -- a gap of zero is as good as it gets
      if s.bestOffsetFit = 0 then s else scan alignment size firstNode lastNode allocs s

def GapSearch.result (s : GapSearch) (alignment : Nat) : Nat :=
  if s.bestOffset = kOffsetNotAssigned then alignTo alignment s.currentOffset else s.bestOffset

/-- `insert` at the `upper_bound` of a vector that is sorted by offset. -/
def insertAlloc (a : ArenaAllocWithUsageInterval) :
    List ArenaAllocWithUsageInterval → List ArenaAllocWithUsageInterval :=
  List.orderedInsert (fun a b => a.offset < b.offset) a

structure Request where
  alignment : Nat
  size : Nat
  tensor : Int
  firstNode : Int
  lastNode : Int

def SimpleMemoryArena.findOffset (arena : SimpleMemoryArena) (r : Request) : Nat :=
  (GapSearch.scan r.alignment r.size r.firstNode r.lastNode arena.activeAllocs .start).result r.alignment

/-- `Allocate`, with none where the status is an error. -/
def SimpleMemoryArena.allocate (arena : SimpleMemoryArena) (r : Request) :
    Option (SimpleMemoryArena × ArenaAllocWithUsageInterval) :=
  if r.alignment ≤ arena.bufferAlignment then
    if r.size = 0 then some (arena, ⟨0, 0, r.tensor, r.firstNode, r.lastNode⟩)
    else
      let bestOffset := arena.findOffset r
      let newAlloc := ⟨bestOffset, r.size, r.tensor, r.firstNode, r.lastNode⟩
      some ({ arena with
        highWaterMark := max arena.highWaterMark (wrap (bestOffset + r.size))
        activeAllocs := insertAlloc newAlloc arena.activeAllocs }, newAlloc)
  else none

/-- Allocs are marked for deletion by their tensor index and then erased. -/
def SimpleMemoryArena.purge (arena : SimpleMemoryArena) (p : ArenaAllocWithUsageInterval → Bool) : SimpleMemoryArena :=
  let marked := arena.activeAllocs.map fun a => if p a then { a with tensor := -1 } else a
  { arena with activeAllocs := marked.filter fun a => a.tensor ≠ -1 }

def SimpleMemoryArena.purgeActiveAllocs (arena : SimpleMemoryArena) (node : Int) : SimpleMemoryArena :=
  arena.purge fun a => a.lastNode < node

def SimpleMemoryArena.purgeAfter (arena : SimpleMemoryArena) (node : Int) : SimpleMemoryArena :=
  arena.purge fun a => a.firstNode > node

def SimpleMemoryArena.resetAllocs (arena : SimpleMemoryArena) : SimpleMemoryArena :=
  { arena with activeAllocs := [] }

def SimpleMemoryArena.clearPlan (arena : SimpleMemoryArena) : SimpleMemoryArena :=
  { arena with committed := false, highWaterMark := 0, activeAllocs := [] }

/-- The buffer grows to the high water mark and never shrinks. -/
def SimpleMemoryArena.commit (arena : SimpleMemoryArena) : SimpleMemoryArena :=
  { arena with committed := true, bufferSize := max arena.bufferSize arena.highWaterMark }

/-- `ResolveAlloc`: the offset of the pointer into the buffer, or a null pointer for an empty alloc. -/
def SimpleMemoryArena.resolveAlloc (arena : SimpleMemoryArena) (a : ArenaAllocWithUsageInterval) :
    Option (Option Nat) :=
  if arena.committed ∧ wrap (a.offset + a.size) ≤ arena.bufferSize then
    some (if a.size = 0 then none else some a.offset)
  else none

section Arithmetic

theorem wrap_of_lt {n : Nat} (h : n < 2 ^ 64) : wrap n = n := Nat.mod_eq_of_lt h

/-- Without wrap-around `AlignTo` gives the next multiple of the alignment. -/
theorem alignTo_spec {alignment offset : Nat} (pos : 0 < alignment) (fits : offset + alignment < 2 ^ 64) :
    alignment ∣ alignTo alignment offset ∧ offset ≤ alignTo alignment offset ∧
      alignTo alignment offset < offset + alignment := by
  unfold alignTo
  have rest := Nat.mod_lt offset pos
  have whole := Nat.div_add_mod offset alignment
  split
  next h => exact ⟨Nat.dvd_of_mod_eq_zero h, by omega, by omega⟩
  next h =>
    rw [wrap_of_lt (by omega)]
    refine ⟨⟨offset / alignment + 1, ?_⟩, by omega, by omega⟩
    rw [Nat.mul_succ]
    omega

end Arithmetic

section Search

variable {alignment size bound : Nat} {firstNode lastNode : Int}

/-- Both are in use at one node at least. -/
def ArenaAllocWithUsageInterval.Meets (a : ArenaAllocWithUsageInterval) (firstNode lastNode : Int) : Prop :=
  firstNode ≤ a.lastNode ∧ a.firstNode ≤ lastNode

/-- The bytes from `offset` on are outside the alloc. -/
def ArenaAllocWithUsageInterval.Clear (a : ArenaAllocWithUsageInterval) (offset size : Nat) : Prop :=
  offset + size ≤ a.offset ∨ a.offset + a.size ≤ offset

abbrev SortedAllocs (l : List ArenaAllocWithUsageInterval) : Prop := l.Pairwise fun a b => a.offset ≤ b.offset

/-- The best gap so far ends before every alloc that is still to come. -/
def GapSearch.Good (s : GapSearch) (alignment size bound : Nat) (l : List ArenaAllocWithUsageInterval) : Prop :=
  s.currentOffset ≤ bound ∧
    (s.bestOffset = kOffsetNotAssigned ∧ s.bestOffsetFit = kOffsetNotAssigned ∨
      s.bestOffset < bound ∧ alignment ∣ s.bestOffset ∧ ∀ a ∈ l, s.bestOffset + size ≤ a.offset)

variable (pos : 0 < alignment) (nonempty : 0 < size) (fits : bound + alignment + size < 2 ^ 64)
include pos nonempty fits

/-- One step of the loop: the gap before the alloc becomes the best one, or the best one stays. -/
theorem GapSearch.Good.look {s : GapSearch} {a : ArenaAllocWithUsageInterval} {l : List ArenaAllocWithUsageInterval}
    (h : s.Good alignment size bound (a :: l)) (sorted : SortedAllocs (a :: l)) (ends : a.offset + a.size ≤ bound) :
    (s.look alignment size a).Good alignment size bound l ∧
      s.currentOffset ≤ (s.look alignment size a).currentOffset ∧
      a.offset + a.size ≤ (s.look alignment size a).currentOffset ∧
      ((s.look alignment size a).bestOffset = s.bestOffset ∨
        s.currentOffset ≤ (s.look alignment size a).bestOffset ∧
          (s.look alignment size a).bestOffset + size ≤ a.offset) := by
  obtain ⟨current, best⟩ := h
  obtain ⟨divides, above, below⟩ := alignTo_spec pos (show s.currentOffset + alignment < 2 ^ 64 by omega)
  have later := (List.pairwise_cons.mp sorted).1
  unfold GapSearch.look
  dsimp only
  rw [wrap_of_lt (n := a.offset + a.size) (by omega), wrap_of_lt (n := alignTo alignment s.currentOffset + size) (by omega)]
  split
  next gap =>
    have room : alignTo alignment s.currentOffset + size ≤ a.offset := gap.1
    refine ⟨⟨by simp; omega, Or.inr ⟨by simp; omega, divides, fun b hb => ?_⟩⟩, ?_, ?_, Or.inr ⟨above, room⟩⟩
    · have order := later b hb
      simp only
      omega
    · exact Nat.le_max_left _ _
    · exact Nat.le_max_right _ _
  next =>
    refine ⟨⟨by simp; omega, ?_⟩, Nat.le_max_left _ _, Nat.le_max_right _ _, Or.inl rfl⟩
    rcases best with free | ⟨low, aligned, before⟩
    · exact Or.inl free
    · exact Or.inr ⟨low, aligned, fun b hb => before b (List.mem_cons_of_mem a hb)⟩

theorem GapSearch.Good.result {s : GapSearch} {l : List ArenaAllocWithUsageInterval}
    (h : s.Good alignment size bound l) :
    alignment ∣ s.result alignment ∧ s.result alignment < bound + alignment ∧
      (s.bestOffset ≠ kOffsetNotAssigned ∧ s.result alignment = s.bestOffset ∨
        s.currentOffset ≤ s.result alignment) := by
  obtain ⟨current, best⟩ := h
  obtain ⟨divides, above, below⟩ := alignTo_spec pos (show s.currentOffset + alignment < 2 ^ 64 by omega)
  unfold GapSearch.result
  split
  next => exact ⟨divides, by omega, Or.inr above⟩
  next assigned =>
    rcases best with free | ⟨low, aligned, before⟩
    · exact absurd free.1 assigned
    · exact ⟨aligned, by omega, Or.inl ⟨assigned, rfl⟩⟩

/-- The offset that the search ends with is aligned, and clear of every alloc that is in use at the same time. -/
theorem GapSearch.Good.scan {s : GapSearch} {l : List ArenaAllocWithUsageInterval}
    (h : s.Good alignment size bound l) (sorted : SortedAllocs l) (ends : ∀ a ∈ l, a.offset + a.size ≤ bound) :
    let o := (GapSearch.scan alignment size firstNode lastNode l s).result alignment
    alignment ∣ o ∧ o < bound + alignment ∧
      (s.bestOffset ≠ kOffsetNotAssigned ∧ o = s.bestOffset ∨ s.currentOffset ≤ o) ∧
      ∀ a ∈ l, a.Meets firstNode lastNode → a.Clear o size := by
  induction l generalizing s with
  | nil =>
    obtain ⟨aligned, low, place⟩ := h.result pos nonempty fits
    exact ⟨aligned, low, place, by simp⟩
  | cons a l ih =>
    have tail : SortedAllocs l := (List.pairwise_cons.mp sorted).2
    have endsTail : ∀ b ∈ l, b.offset + b.size ≤ bound := fun b hb => ends b (List.mem_cons_of_mem a hb)
    have before : s.bestOffset ≠ kOffsetNotAssigned → s.bestOffset + size ≤ a.offset := by
      intro assigned
      rcases h.2 with free | ⟨_, _, all⟩
      · exact absurd free.1 assigned
      · exact all a List.mem_cons_self
    simp only [GapSearch.scan]
    split
    next skip =>
      -- the alloc is not in use at the same time
      have good : s.Good alignment size bound l := by
        refine ⟨h.1, h.2.imp_right fun ⟨low, aligned, all⟩ => ⟨low, aligned, fun b hb => ?_⟩⟩
        exact all b (List.mem_cons_of_mem a hb)
      obtain ⟨aligned, low, place, clear⟩ := ih good tail endsTail
      refine ⟨aligned, low, place, fun b hb meets => ?_⟩
      rcases List.mem_cons.mp hb with rfl | hb
      · have first := meets.1
        have last := meets.2
        omega
      · exact clear b hb meets
    next =>
      obtain ⟨good, grows, past, gap⟩ := h.look pos nonempty fits sorted (ends a List.mem_cons_self)
      set next := s.look alignment size a with hnext
      -- wherever the offset is, it is clear of this alloc and no worse placed against the earlier ones
      have settle : ∀ o, (next.bestOffset ≠ kOffsetNotAssigned ∧ o = next.bestOffset ∨ next.currentOffset ≤ o) →
          (s.bestOffset ≠ kOffsetNotAssigned ∧ o = s.bestOffset ∨ s.currentOffset ≤ o) ∧ a.Clear o size := by
        rintro o (⟨assigned, rfl⟩ | high)
        · rcases gap with same | ⟨above, room⟩
          · rw [same] at assigned ⊢
            exact ⟨Or.inl ⟨assigned, rfl⟩, Or.inl (before assigned)⟩
          · exact ⟨Or.inr above, Or.inl room⟩
        · exact ⟨Or.inr (by omega), Or.inr (by omega)⟩
      split
      next perfect =>
        obtain ⟨aligned, low, place⟩ := good.result pos nonempty fits
        obtain ⟨earlier, clear⟩ := settle _ place
        refine ⟨aligned, low, earlier, fun b hb _ => ?_⟩
        rcases List.mem_cons.mp hb with rfl | hb
        · exact clear
        · rcases good.2 with ⟨_, free⟩ | ⟨low, _, all⟩
          · rw [free] at perfect
            cases perfect
          · have assigned : next.bestOffset ≠ kOffsetNotAssigned := by
              unfold kOffsetNotAssigned
              omega
            have taken : next.result alignment = next.bestOffset := if_neg assigned
            rw [taken]
            exact Or.inl (all b hb)
      next =>
        obtain ⟨aligned, low, place, clear⟩ := ih good tail endsTail
        obtain ⟨earlier, own⟩ := settle _ place
        refine ⟨aligned, low, earlier, fun b hb meets => ?_⟩
        rcases List.mem_cons.mp hb with rfl | hb
        · exact own
        · exact clear b hb meets

end Search

section Plan

variable {arena next : SimpleMemoryArena} {r : Request} {a b : ArenaAllocWithUsageInterval}

/-- The two are never in use at one node, or have no byte in common. -/
def ArenaAllocWithUsageInterval.Compatible (a b : ArenaAllocWithUsageInterval) : Prop :=
  a.Meets b.firstNode b.lastNode → a.Clear b.offset b.size

theorem ArenaAllocWithUsageInterval.Compatible.symm (h : a.Compatible b) : b.Compatible a :=
  fun meets => (h ⟨meets.2, meets.1⟩).symm

structure SimpleMemoryArena.Sound (arena : SimpleMemoryArena) : Prop where
  sorted : SortedAllocs arena.activeAllocs
  ends : ∀ a ∈ arena.activeAllocs, a.offset + a.size ≤ arena.highWaterMark
  compatible : arena.activeAllocs.Pairwise ArenaAllocWithUsageInterval.Compatible

/-- The request fits above everything up to `bound`, with room for the padding. -/
structure Request.Fits (r : Request) (arena : SimpleMemoryArena) (bound : Nat) : Prop where
  pos : 0 < r.alignment
  aligned : r.alignment ≤ arena.bufferAlignment
  room : bound + r.alignment + r.size < 2 ^ 64

/-- What a successful `Allocate` has done where all that is active ends at `bound`. -/
structure Allocated (arena : SimpleMemoryArena) (bound : Nat) (r : Request) (next : SimpleMemoryArena)
    (a : ArenaAllocWithUsageInterval) : Prop where
  interval : a.firstNode = r.firstNode ∧ a.lastNode = r.lastNode
  tensor : a.tensor = r.tensor
  size : a.size = r.size
  aligned : r.alignment ∣ a.offset
  empty : r.size = 0 → a.offset = 0
  clear : ∀ b ∈ arena.activeAllocs, b.Compatible a
  ends : a.offset + a.size ≤ next.highWaterMark
  grows : arena.highWaterMark ≤ next.highWaterMark
  bounded : next.highWaterMark ≤ bound + r.alignment + r.size
  allocs : next.activeAllocs = if r.size = 0 then arena.activeAllocs else insertAlloc a arena.activeAllocs
  buffer : next.bufferAlignment = arena.bufferAlignment

theorem insertAlloc_mem (a b : ArenaAllocWithUsageInterval) (l : List ArenaAllocWithUsageInterval) :
    b ∈ insertAlloc a l ↔ b = a ∨ b ∈ l := by
  unfold insertAlloc
  rw [List.mem_orderedInsert]

theorem insertAlloc_sorted {l : List ArenaAllocWithUsageInterval} (h : SortedAllocs l)
    (a : ArenaAllocWithUsageInterval) : SortedAllocs (insertAlloc a l) := by
  unfold insertAlloc
  induction l with
  | nil => simp
  | cons b l ih =>
    obtain ⟨first, rest⟩ := List.pairwise_cons.mp h
    rw [List.orderedInsert_cons]
    split
    next lt =>
      refine List.pairwise_cons.mpr ⟨fun c hc => ?_, h⟩
      rcases List.mem_cons.mp hc with rfl | hc
      · omega
      · have order := first c hc
        omega
    next ge =>
      refine List.pairwise_cons.mpr ⟨fun c hc => ?_, ih rest⟩
      rcases (insertAlloc_mem a c l).mp hc with rfl | hc
      · omega
      · exact first c hc

/-- `Allocate` succeeds with any sorted allocs, also with some that overlap. -/
theorem SimpleMemoryArena.allocate_spec {bound : Nat} (sorted : SortedAllocs arena.activeAllocs)
    (ends : ∀ a ∈ arena.activeAllocs, a.offset + a.size ≤ bound) (mark : arena.highWaterMark ≤ bound)
    (fits : r.Fits arena bound) : ∃ next a, arena.allocate r = some (next, a) ∧ Allocated arena bound r next a := by
  unfold SimpleMemoryArena.allocate
  rw [if_pos fits.aligned]
  by_cases empty : r.size = 0
  · rw [if_pos empty]
    refine ⟨arena, _, rfl, ⟨rfl, rfl⟩, rfl, empty.symm, ⟨0, rfl⟩, fun _ => rfl, fun b _ _ => Or.inl (Nat.zero_le _), Nat.zero_le _,
      Nat.le_refl _, ?_, (if_pos empty).symm, rfl⟩
    omega
  · rw [if_neg empty]
    have room := fits.room
    have start : GapSearch.start.Good r.alignment r.size bound arena.activeAllocs :=
      ⟨Nat.zero_le _, Or.inl ⟨rfl, rfl⟩⟩
    have found : r.alignment ∣ arena.findOffset r ∧ arena.findOffset r < bound + r.alignment ∧ _ ∧
        ∀ a ∈ arena.activeAllocs, a.Meets r.firstNode r.lastNode → a.Clear (arena.findOffset r) r.size :=
      start.scan fits.pos (Nat.pos_of_ne_zero empty) room sorted ends
    obtain ⟨aligned, low, _, clear⟩ := found
    have small : wrap (arena.findOffset r + r.size) = arena.findOffset r + r.size := wrap_of_lt (by omega)
    simp only [small]
    refine ⟨_, _, rfl, ⟨rfl, rfl⟩, rfl, rfl, aligned, fun h => absurd h empty, fun b hb meets => (clear b hb meets), ?_, ?_, ?_,
      (if_neg empty).symm, rfl⟩
    · exact Nat.le_max_right _ _
    · exact Nat.le_max_left _ _
    · simp only
      omega

theorem Allocated.active {bound : Nat} (h : Allocated arena bound r next a) (b : ArenaAllocWithUsageInterval) :
    b ∈ next.activeAllocs ↔ (b = a ∧ 0 < r.size) ∨ b ∈ arena.activeAllocs := by
  rw [h.allocs]
  split
  next empty => simp [empty]
  next size => rw [insertAlloc_mem, and_iff_left (Nat.pos_of_ne_zero size)]

theorem Allocated.sorted {bound : Nat} (h : Allocated arena bound r next a) (sorted : SortedAllocs arena.activeAllocs) :
    SortedAllocs next.activeAllocs := by
  rw [h.allocs]
  split
  next => exact sorted
  next => exact insertAlloc_sorted sorted a

/-- `Allocate` succeeds on a sound plan, and keeps it sound. -/
theorem SimpleMemoryArena.Sound.allocate (h : arena.Sound) (fits : r.Fits arena arena.highWaterMark) :
    ∃ next a, arena.allocate r = some (next, a) ∧ Allocated arena arena.highWaterMark r next a ∧ next.Sound := by
  obtain ⟨next, a, eq, one⟩ := arena.allocate_spec h.sorted h.ends (Nat.le_refl _) fits
  refine ⟨next, a, eq, one, one.sorted h.sorted, fun b hb => ?_, ?_⟩
  · rcases (one.active b).mp hb with ⟨rfl, _⟩ | hb
    · exact one.ends
    · exact (h.ends b hb).trans one.grows
  · rw [one.allocs]
    split
    next => exact h.compatible
    next =>
      have perm := List.perm_orderedInsert (fun a b : ArenaAllocWithUsageInterval => a.offset < b.offset) a arena.activeAllocs
      refine (perm.pairwise_iff fun h => h.symm).mpr (List.pairwise_cons.mpr ⟨fun b hb => ?_, h.compatible⟩)
      exact (one.clear b hb).symm

theorem SimpleMemoryArena.purge_allocs (arena : SimpleMemoryArena) (p : ArenaAllocWithUsageInterval → Bool) :
    (arena.purge p).activeAllocs = arena.activeAllocs.filter fun a => !p a && a.tensor ≠ -1 := by
  unfold SimpleMemoryArena.purge
  dsimp only
  induction arena.activeAllocs with
  | nil => rfl
  | cons a l ih =>
    by_cases hp : p a = true
    · simpa [hp] using ih
    · by_cases ht : a.tensor = -1
      · simpa [hp, ht] using ih
      · simpa [hp, ht] using ih

theorem SimpleMemoryArena.purge_sublist (arena : SimpleMemoryArena) (p : ArenaAllocWithUsageInterval → Bool) :
    (arena.purge p).activeAllocs.Sublist arena.activeAllocs := by
  rw [arena.purge_allocs p]
  exact List.filter_sublist

end Plan

section Run

variable {arena : SimpleMemoryArena}

def SimpleMemoryArena.allocateAll (arena : SimpleMemoryArena) :
    List Request → Option (SimpleMemoryArena × List ArenaAllocWithUsageInterval)
  | [] => some (arena, [])
  | r :: rs => do
    let (arena, a) ← arena.allocate r
    let (arena, allocs) ← arena.allocateAll rs
    return (arena, a :: allocs)

/-- The sizes with their padding, which is less than the alignment for each. -/
def paddedSize (rs : List Request) : Nat := (rs.map fun r => r.alignment + r.size).sum

/-- What an alloc has to be for its request. -/
structure Serves (r : Request) (a : ArenaAllocWithUsageInterval) : Prop where
  interval : a.firstNode = r.firstNode ∧ a.lastNode = r.lastNode
  size : a.size = r.size
  aligned : r.alignment ∣ a.offset

structure AllocatedAll (arena : SimpleMemoryArena) (rs : List Request) (next : SimpleMemoryArena)
    (allocs : List ArenaAllocWithUsageInterval) : Prop where
  serves : List.Forall₂ Serves rs allocs
  compatible : allocs.Pairwise ArenaAllocWithUsageInterval.Compatible
  clear : ∀ a ∈ arena.activeAllocs, ∀ b ∈ allocs, a.Compatible b
  ends : ∀ a ∈ allocs, a.offset + a.size ≤ next.highWaterMark
  grows : arena.highWaterMark ≤ next.highWaterMark
  bounded : next.highWaterMark ≤ arena.highWaterMark + paddedSize rs

theorem SimpleMemoryArena.Sound.allocateAll (h : arena.Sound) (rs : List Request)
    (aligned : ∀ r ∈ rs, 0 < r.alignment ∧ r.alignment ≤ arena.bufferAlignment)
    (fits : arena.highWaterMark + paddedSize rs < 2 ^ 64) :
    ∃ next allocs, arena.allocateAll rs = some (next, allocs) ∧ AllocatedAll arena rs next allocs := by
  induction rs generalizing arena with
  | nil => exact ⟨arena, [], rfl, .nil, .nil, by simp, by simp, Nat.le_refl _, Nat.le_refl _⟩
  | cons r rs ih =>
    have total : paddedSize (r :: rs) = r.alignment + r.size + paddedSize rs := by simp [paddedSize]
    obtain ⟨pos, small⟩ := aligned r List.mem_cons_self
    obtain ⟨mid, a, eq, one, sound⟩ := h.allocate (r := r) ⟨pos, small, by omega⟩
    have bounded := one.bounded
    have grows := one.grows
    obtain ⟨last, allocs, rest, all⟩ := ih sound
      (fun q hq => one.buffer ▸ aligned q (List.mem_cons_of_mem r hq)) (by omega)
    have restBounded := all.bounded
    have restGrows := all.grows
    refine ⟨last, a :: allocs, by simp [SimpleMemoryArena.allocateAll, eq, rest], ?_, ?_, ?_, ?_, by omega, by omega⟩
    · exact .cons ⟨one.interval, one.size, one.aligned⟩ all.serves
    · refine List.pairwise_cons.mpr ⟨fun b hb => ?_, all.compatible⟩
      by_cases empty : r.size = 0
      · have size := one.size
        have offset := one.empty empty
        exact fun _ => Or.inr (by omega)
      · exact all.clear a ((one.active a).mpr (Or.inl ⟨rfl, Nat.pos_of_ne_zero empty⟩)) b hb
    · intro b hb c hc
      rcases List.mem_cons.mp hc with rfl | hc
      · exact one.clear b hb
      · exact all.clear b ((one.active b).mpr (Or.inr hb)) c hc
    · intro b hb
      rcases List.mem_cons.mp hb with rfl | hb
      · exact one.ends.trans restGrows
      · exact all.ends b hb

/-- Any requests whose padded sizes together stay below 2^64 are all served: each gets an aligned range,
two that are in use at one node get ranges without a common byte, and after `Commit` every one resolves. -/
theorem arena_allocations_disjoint (alignment : Nat) (rs : List Request)
    (aligned : ∀ r ∈ rs, 0 < r.alignment ∧ r.alignment ≤ alignment) (fits : paddedSize rs < 2 ^ 64) :
    ∃ arena allocs, (SimpleMemoryArena.new alignment).allocateAll rs = some (arena, allocs) ∧
      List.Forall₂ Serves rs allocs ∧ allocs.Pairwise ArenaAllocWithUsageInterval.Compatible ∧
      ∀ a ∈ allocs, arena.commit.resolveAlloc a = some (if a.size = 0 then none else some a.offset) := by
  have sound : (SimpleMemoryArena.new alignment).Sound := ⟨.nil, nofun, .nil⟩
  have start : (SimpleMemoryArena.new alignment).highWaterMark = 0 := rfl
  obtain ⟨arena, allocs, eq, all⟩ := sound.allocateAll rs aligned (by omega)
  refine ⟨arena, allocs, eq, all.serves, all.compatible, fun a ha => ?_⟩
  have ends := all.ends a ha
  have bounded := all.bounded
  have inside : wrap (a.offset + a.size) ≤ arena.commit.bufferSize := by
    rw [wrap_of_lt (by omega)]
    exact ends.trans (Nat.le_max_right _ _)
  exact if_pos ⟨rfl, inside⟩

/-- Three tensors, of which the first and the last are never in use together and share their bytes. -/
theorem three_allocations_disjoint :
    ∃ arena allocs, (SimpleMemoryArena.new 64).allocateAll [⟨64, 100, 0, 0, 1⟩, ⟨64, 50, 1, 1, 2⟩, ⟨64, 90, 2, 2, 3⟩] =
        some (arena, allocs) ∧
      List.Forall₂ Serves [⟨64, 100, 0, 0, 1⟩, ⟨64, 50, 1, 1, 2⟩, ⟨64, 90, 2, 2, 3⟩] allocs ∧
      allocs.Pairwise ArenaAllocWithUsageInterval.Compatible ∧
      ∀ a ∈ allocs, arena.commit.resolveAlloc a = some (if a.size = 0 then none else some a.offset) :=
  arena_allocations_disjoint 64 [⟨64, 100, 0, 0, 1⟩, ⟨64, 50, 1, 1, 2⟩, ⟨64, 90, 2, 2, 3⟩] (by decide) (by decide)

end Run

section Purge

variable {node : Int}

/-- A run of the planner: requests, and allocs that are forgotten once no request can meet them. -/
inductive ArenaStep
  | allocate (r : Request)
  | purgeActiveAllocs (node : Int)

def SimpleMemoryArena.run (arena : SimpleMemoryArena) :
    List ArenaStep → Option (SimpleMemoryArena × List ArenaAllocWithUsageInterval)
  | [] => some (arena, [])
  | .allocate r :: steps => do
    let (arena, a) ← arena.allocate r
    let (arena, allocs) ← arena.run steps
    return (arena, a :: allocs)
  | .purgeActiveAllocs node :: steps => (arena.purgeActiveAllocs node).run steps

def requests : List ArenaStep → List Request
  | [] => []
  | .allocate r :: steps => r :: requests steps
  | .purgeActiveAllocs _ :: steps => requests steps

/-- Tensor indices are not -1, and after a purge at a node the requests start there or later. -/
def Advancing : List ArenaStep → Prop
  | [] => True
  | .allocate r :: steps => r.tensor ≠ -1 ∧ Advancing steps
  | .purgeActiveAllocs node :: steps => (∀ r ∈ requests steps, node ≤ r.firstNode) ∧ Advancing steps

def Request.meets (r : Request) (a : ArenaAllocWithUsageInterval) : Bool :=
  decide (r.firstNode ≤ a.lastNode ∧ a.firstNode ≤ r.lastNode)

/-- The search sees only the allocs that are in use at the same time. -/
theorem GapSearch.scan_filter (r : Request) (l : List ArenaAllocWithUsageInterval) (s : GapSearch) :
    GapSearch.scan r.alignment r.size r.firstNode r.lastNode (l.filter r.meets) s =
      GapSearch.scan r.alignment r.size r.firstNode r.lastNode l s := by
  induction l generalizing s with
  | nil => rfl
  | cons a l ih =>
    by_cases meets : r.meets a = true
    · have seen : ¬ (a.lastNode < r.firstNode ∨ a.firstNode > r.lastNode) := by
        simp only [Request.meets, decide_eq_true_eq] at meets
        omega
      simp only [List.filter_cons_of_pos meets, GapSearch.scan, if_neg seen]
      split
      next => rfl
      next => exact ih _
    · have skipped : a.lastNode < r.firstNode ∨ a.firstNode > r.lastNode := by
        simp only [Request.meets, decide_eq_true_eq] at meets
        omega
      simp only [List.filter_cons_of_neg meets, GapSearch.scan, if_pos skipped]
      exact ih s

theorem insertAlloc_filter {l : List ArenaAllocWithUsageInterval} (sorted : SortedAllocs l)
    (p : ArenaAllocWithUsageInterval → Bool) (a : ArenaAllocWithUsageInterval) :
    (insertAlloc a l).filter p = if p a then insertAlloc a (l.filter p) else l.filter p := by
  unfold insertAlloc
  induction l with
  | nil => by_cases hp : p a = true <;> simp [hp]
  | cons b l ih =>
    obtain ⟨first, rest⟩ := List.pairwise_cons.mp sorted
    rw [List.orderedInsert_cons]
    split
    next lt =>
      -- everything after `b` is behind the place of `a` too
      have front : ∀ l', (∀ c ∈ l', a.offset < c.offset) →
          List.orderedInsert (fun a b : ArenaAllocWithUsageInterval => a.offset < b.offset) a l' = a :: l' := by
        intro l' all
        cases l' with
        | nil => rfl
        | cons c l' => rw [List.orderedInsert_cons, if_pos (all c List.mem_cons_self)]
      rw [front ((b :: l).filter p) fun c hc => ?_]
      · by_cases hp : p a = true <;> simp [hp]
      · rcases List.mem_cons.mp (List.mem_of_mem_filter hc) with rfl | hc
        · exact lt
        · have order := first c hc
          omega
    next ge =>
      rw [List.filter_cons, ih rest]
      by_cases hb : p b = true
      · by_cases hp : p a = true
        · simp [hb, hp, ge]
        · simp [hb, hp]
      · by_cases hp : p a = true
        · simp [hb, hp]
        · simp [hb, hp]

/-- Two plans that no request to come can tell apart. -/
structure Alike (rs : List Request) (arena other : SimpleMemoryArena) : Prop where
  mark : arena.highWaterMark = other.highWaterMark
  buffer : arena.bufferAlignment = other.bufferAlignment
  sorted : SortedAllocs arena.activeAllocs
  sortedOther : SortedAllocs other.activeAllocs
  tensors : ∀ a ∈ arena.activeAllocs, a.tensor ≠ -1
  seen : ∀ r ∈ rs, arena.activeAllocs.filter r.meets = other.activeAllocs.filter r.meets

variable {arena other : SimpleMemoryArena} {r : Request} {rs : List Request}

theorem Alike.purge (h : Alike rs arena other) (late : ∀ r ∈ rs, node ≤ r.firstNode) :
    Alike rs (arena.purgeActiveAllocs node) other := by
  have kept : (arena.purgeActiveAllocs node).activeAllocs =
      arena.activeAllocs.filter fun a => !decide (a.lastNode < node) && a.tensor ≠ -1 := arena.purge_allocs _
  refine ⟨h.mark, h.buffer, ?_, h.sortedOther, fun a ha => ?_, fun r hr => ?_⟩
  · rw [kept]
    exact h.sorted.sublist List.filter_sublist
  · rw [kept] at ha
    exact h.tensors a (List.mem_of_mem_filter ha)
  · rw [← h.seen r hr, kept, List.filter_filter]
    refine List.filter_congr fun a ha => ?_
    have first := late r hr
    have tensor := h.tensors a ha
    by_cases meets : r.meets a = true
    · have use := meets
      simp only [Request.meets, decide_eq_true_eq] at use
      have live : ¬ a.lastNode < node := by omega
      simp [meets, live, tensor]
    · simp [meets]

theorem Alike.findOffset (h : Alike rs arena other) (hr : r ∈ rs) : arena.findOffset r = other.findOffset r := by
  unfold SimpleMemoryArena.findOffset
  rw [← GapSearch.scan_filter r arena.activeAllocs, h.seen r hr, GapSearch.scan_filter]

theorem Alike.allocate (h : Alike (r :: rs) arena other) (tensor : r.tensor ≠ -1) :
    (arena.allocate r = none ∧ other.allocate r = none) ∨
      ∃ next last a, arena.allocate r = some (next, a) ∧ other.allocate r = some (last, a) ∧ Alike rs next last := by
  have rest : Alike rs arena other :=
    ⟨h.mark, h.buffer, h.sorted, h.sortedOther, h.tensors, fun q hq => h.seen q (List.mem_cons_of_mem r hq)⟩
  unfold SimpleMemoryArena.allocate
  rw [← h.findOffset List.mem_cons_self, ← h.buffer]
  split
  next =>
    split
    next => exact Or.inr ⟨arena, other, _, rfl, rfl, rest⟩
    next =>
      refine Or.inr ⟨_, _, _, rfl, rfl, ⟨?_, rfl, insertAlloc_sorted h.sorted _,
        insertAlloc_sorted h.sortedOther _, ?_, ?_⟩⟩
      · simp only [h.mark]
      · intro a ha
        rcases (insertAlloc_mem _ a _).mp ha with rfl | ha
        · exact tensor
        · exact h.tensors a ha
      · intro q hq
        simp only [insertAlloc_filter h.sorted, insertAlloc_filter h.sortedOther, rest.seen q hq]
  next => exact Or.inl ⟨rfl, rfl⟩

theorem Alike.run {steps : List ArenaStep} (h : Alike (requests steps) arena other) (advancing : Advancing steps) :
    (arena.run steps).map (fun x => (x.2, x.1.highWaterMark)) =
      (other.allocateAll (requests steps)).map fun x => (x.2, x.1.highWaterMark) := by
  induction steps generalizing arena other with
  | nil => simp [SimpleMemoryArena.run, SimpleMemoryArena.allocateAll, requests, h.mark]
  | cons step steps ih =>
    cases step with
    | allocate r =>
      rcases h.allocate advancing.1 with ⟨left, right⟩ | ⟨next, last, a, left, right, alike⟩
      · simp [SimpleMemoryArena.run, SimpleMemoryArena.allocateAll, requests, left, right]
      · have same := ih alike advancing.2
        have runs : (arena.run (.allocate r :: steps)).map (fun x => (x.2, x.1.highWaterMark)) =
            ((next.run steps).map fun x => (x.2, x.1.highWaterMark)).map fun y => (a :: y.1, y.2) := by
          cases hrun : next.run steps <;> simp [SimpleMemoryArena.run, left, hrun]
        have all : (other.allocateAll (r :: requests steps)).map (fun x => (x.2, x.1.highWaterMark)) =
            ((last.allocateAll (requests steps)).map fun x => (x.2, x.1.highWaterMark)).map
              fun y => (a :: y.1, y.2) := by
          cases hall : last.allocateAll (requests steps) <;> simp [SimpleMemoryArena.allocateAll, right, hall]
        rw [runs, same, requests, all]
    | purgeActiveAllocs node => exact ih (h.purge advancing.1) advancing.2

/-- `PurgeActiveAllocs` never changes the result: a run with purges gives every request the same range, and
ends with the same high water mark, as the run without them. -/
theorem purge_active_allocs_no_impact (alignment : Nat) (steps : List ArenaStep) (advancing : Advancing steps) :
    ((SimpleMemoryArena.new alignment).run steps).map (fun x => (x.2, x.1.highWaterMark)) =
      ((SimpleMemoryArena.new alignment).allocateAll (requests steps)).map fun x => (x.2, x.1.highWaterMark) := by
  have start : Alike (requests steps) (SimpleMemoryArena.new alignment) (SimpleMemoryArena.new alignment) :=
    ⟨rfl, rfl, .nil, .nil, nofun, fun _ _ => rfl⟩
  exact start.run advancing

theorem purge_between_two_requests :
    ((SimpleMemoryArena.new 64).run [.allocate ⟨64, 100, 0, 0, 1⟩, .purgeActiveAllocs 2, .allocate ⟨64, 90, 1, 2, 3⟩]).map
        (fun x => (x.2, x.1.highWaterMark)) =
      ((SimpleMemoryArena.new 64).allocateAll [⟨64, 100, 0, 0, 1⟩, ⟨64, 90, 1, 2, 3⟩]).map
        fun x => (x.2, x.1.highWaterMark) :=
  purge_active_allocs_no_impact 64 [.allocate ⟨64, 100, 0, 0, 1⟩, .purgeActiveAllocs 2, .allocate ⟨64, 90, 1, 2, 3⟩]
    (by simp [Advancing, requests])

end Purge

end AuroraVoice
