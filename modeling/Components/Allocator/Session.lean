import Components.Allocator.Free
import Components.Allocator.Init
import Components.Allocator.Malloc
import Components.Semantics.Machine

/-!
# Clients of one heap

A client calls `PortMalloc`, `PortFree` and `name_reinit` and writes to the memory
it was given. A session carries, beside the state of the allocator, what the client
holds: the live blocks, each with the pointer it was handed and the size its header
had then, and the free byte counts seen since the latest initialisation. Neither is
read by the allocator.

A pointer may be freed while it is live, and a byte may be written while it lies in
the payload of a live block. `name_reinit` ends the life of every pointer.

## Main definitions

* `Op`, `Op.exec` — the calls, and what they do to the state
* `Op.Allowed`, `Op.live` — what a client may do, and what it holds afterwards
* `Session`, `machine` — runs of a client
* `Managed` — the heap is blank, or represents a layout with the live blocks

## Main results

* `Managed.exec` — every allowed call completes and keeps the heap managed
* `Managed.exec_frame`, `Managed.exec_outside` — the bytes it leaves alone
-/

namespace Components.Allocator

open Word

/-- What a client of one heap can do. -/
inductive Op
  | malloc (xWantedSize : UInt32)
  | free (pv : ℕ)
  | reinit
  | write (address : ℕ) (byte : UInt8)
  deriving DecidableEq, Repr

/-- The payload of a block: what follows its header. -/
def Payload (b : Block) (x : ℕ) : Prop := b.start + 8 ≤ x ∧ x < b.stop

instance (b : Block) (x : ℕ) : Decidable (Payload b x) := inferInstanceAs (Decidable (_ ∧ _))

namespace Op

/-- Run the call. The result is the pointer `PortMalloc` returns, and `NULL` for the
others. -/
def exec (ndebug : Bool) (s : State) : Op → Except Fault (State × ℕ)
  | malloc n => portMalloc ndebug s n.toNat
  | free pv => do
    let s ← portFree ndebug s pv
    return (s, 0)
  | reinit => return (Allocator.reinit s, 0)
  | write a v => return ({ s with mem := Function.update s.mem a v }, 0)

/-- Only live pointers are freed, only live payloads are written. -/
def Allowed (live : List Block) : Op → Prop
  | malloc _ => True
  | free pv => pv = 0 ∨ ∃ b ∈ live, pv = b.start + 8
  | reinit => True
  | write a _ => ∃ b ∈ live, Payload b a

instance (live : List Block) (op : Op) : Decidable (op.Allowed live) :=
  match op with
  | malloc _ => inferInstanceAs (Decidable True)
  | free _ => inferInstanceAs (Decidable (_ ∨ _))
  | reinit => inferInstanceAs (Decidable True)
  | write _ _ => inferInstanceAs (Decidable (∃ b ∈ live, _))

/-- Calls of `PortMalloc` and `PortFree`. -/
def IsCall : Op → Prop
  | malloc _ | free _ => True
  | reinit | write _ _ => False

/-- The live blocks after the call, given the state it left and its result. -/
def live (op : Op) (s : State) (result : ℕ) (before : List Block) : List Block :=
  match op with
  | malloc _ =>
    if result = 0 then before
    else ⟨result - 8, s.size (result - 8) &&& wnot s.xBlockAllocatedBit⟩ :: before
  | free pv => before.filter fun b => b.start + 8 ≠ pv
  | reinit => []
  | write _ _ => before

end Op

/-- A heap and its client. -/
structure Session where
  state : State
  /-- The blocks handed out and not returned since, newest first. -/
  live : List Block
  /-- `xFreeBytesRemaining` after every call since the latest initialisation, newest
  first. -/
  freeBytes : List ℕ

/-- One call of the client. A call starts a new record of free byte counts when it
initialises the heap. -/
def Session.step (ndebug : Bool) (t : Session) (op : Op) : Except Fault (Session × ℕ) := do
  let (s, result) ← op.exec ndebug t.state
  let earlier := if t.state.heap.pxEnd = 0 ∨ op = .reinit then [] else t.freeBytes
  return ({ state := s
            live := op.live s result t.live
            freeBytes := s.heap.xFreeBytesRemaining :: earlier }, result)

/-- Sessions as a machine. -/
def machine (ndebug : Bool) : Machine Session Op ℕ Fault where
  step := Session.step ndebug
  Allowed t op := op.Allowed t.live

instance (ndebug : Bool) (t : Session) (op : Op) : Decidable ((machine ndebug).Allowed t op) :=
  inferInstanceAs (Decidable (op.Allowed t.live))

/-- The heap of the region is blank, or represents a layout with the live blocks. -/
structure Managed (r : Region) (s : State) (live : List Block) : Prop where
  configured : Configured r s
  blank_or : s.heap.pxEnd = 0 ∧ live = [] ∨ ∃ free, Represents r s free live

variable {r : Region} {s s' : State} {free live live' : List Block} {b : Block} {op : Op}
  {ndebug : Bool} {result x : ℕ}

theorem Represents.configured (h : Represents r s free live) : Configured r s :=
  ⟨h.ucHeap, h.total, h.xStartAddr⟩

theorem Represents.managed (h : Represents r s free live) : Managed r s live :=
  ⟨h.configured, .inr ⟨free, h⟩⟩

theorem Represents.pxEnd_ne (h : Represents r s free live) : s.heap.pxEnd ≠ 0 := by
  have room := r.lo_add_le_hi
  rw [h.pxEnd]
  omega

theorem Represents.ensureInit_eq (h : Represents r s free live) : ensureInit s = s :=
  if_neg h.pxEnd_ne

namespace Managed

theorem represents (h : Managed r s live) (init : s.heap.pxEnd ≠ 0) :
    ∃ free, Represents r s free live :=
  h.blank_or.resolve_left fun blank => init blank.1

theorem represents_of_mem (h : Managed r s live) (hb : b ∈ live) :
    ∃ free, Represents r s free live := by
  rcases h.blank_or with ⟨-, rfl⟩ | represents
  · simp at hb
  · exact represents

theorem nodup_live (h : Managed r s live) : live.Nodup := by
  rcases h.blank_or with ⟨-, rfl⟩ | ⟨free, represents⟩
  · exact List.nodup_nil
  · exact represents.layout.nodup_live

theorem ensureInit_represents (h : Managed r s live) :
    ∃ free, Represents r (ensureInit s) free live := by
  rcases h.blank_or with ⟨blank, rfl⟩ | ⟨free, represents⟩
  · rw [ensureInit, if_pos blank]
    exact ⟨_, heapInit_represents h.configured⟩
  · rw [represents.ensureInit_eq]
    exact ⟨free, represents⟩

end Managed

/-- A block that is handed out enters the live blocks with the size in its header, and the
rest of it stays in the free list. -/
theorem Represents.served {n : UInt32} {l₁ l₂ : List Block}
    (h : Represents r s (l₁ ++ b :: l₂) live) (fits : needed n.toNat ≤ b.size) :
    (Op.malloc n).live (handOut r s l₁ l₂ b (needed n.toNat)) (b.start + 8) live =
        taken b (needed n.toNat) :: live ∧
      Represents r (handOut r s l₁ l₂ b (needed n.toNat))
        (l₁ ++ remainder b (needed n.toNat) ++ l₂) (taken b (needed n.toNat) :: live) := by
  have after := h.handOut_represents (needed_mod n.toNat) (eight_le_needed n.toNat) fits
  refine ⟨?_, after⟩
  have small := after.layout.size_lt (b := taken b (needed n.toNat)) (by simp)
  have size := after.liveSize (taken b (needed n.toNat)) List.mem_cons_self
  rw [taken_start] at size
  have untagged : ((taken b (needed n.toNat)).size + 2 ^ 31) % 2 ^ 31 =
      (taken b (needed n.toNat)).size := by
    omega
  have block : (⟨b.start, (taken b (needed n.toNat)).size⟩ : Block) = taken b (needed n.toNat) := by
    rw [← taken_start (b := b) (k := needed n.toNat)]
  rw [Op.live, if_neg (by omega), Nat.add_sub_cancel, size, after.bit, land_wnot_top, untagged,
    block]

/-- Live blocks are told apart by where they start. -/
theorem Layout.live_ext {c : Block} (h : Layout r free live) (hc : c ∈ live) (hb : b ∈ live)
    (starts : c.start = b.start) : c = b := by
  have apart := (List.pairwise_append.mp h.nodes_apart).2.1
  exact List.inj_on_of_nodup_map (apart.imp fun separate => separate.ne) hc hb starts

theorem Layout.live_perm_filter (h : Layout r free live) (hb : b ∈ live) :
    live.Perm (b :: live.filter fun c => c.start + 8 ≠ b.start + 8) := by
  have nodup := h.nodup_live
  -- the filter is an `erase`, because no two live blocks start at one address
  have others : (live.filter fun c => c.start + 8 ≠ b.start + 8) = live.erase b := by
    rw [nodup.erase_eq_filter]
    refine List.filter_congr fun c hc => ?_
    by_cases same : c = b
    · simp [same]
    · have starts : c.start ≠ b.start := fun eq =>
        same (h.live_ext hc hb eq)
      simp [same, starts]
  rw [others]
  exact List.perm_cons_erase hb

/-! ### Bytes that are part of no header -/

/-- The byte is part of no header that lies in memory. -/
def Clear (r : Region) (free live : List Block) (x : ℕ) : Prop :=
  ∀ w ∈ nodes r free ++ live.map Block.start, w = r.xStartAddr ∨ x < w ∨ w + 8 ≤ x

/-- A header is the record, the end marker, or starts a block of its own. -/
theorem mem_headers {w : ℕ} (hw : w ∈ nodes r free ++ live.map Block.start) :
    w = r.xStartAddr ∨ w = r.hi ∨ ∃ d ∈ free ++ live, w = d.start := by
  simp only [nodes, List.cons_append, List.mem_cons, List.mem_append, List.mem_map,
    List.not_mem_nil, or_false] at hw
  rcases hw with rfl | (⟨d, hd, rfl⟩ | rfl) | ⟨d, hd, rfl⟩
  · exact .inl rfl
  · exact .inr (.inr ⟨d, List.mem_append_left _ hd, rfl⟩)
  · exact .inr (.inl rfl)
  · exact .inr (.inr ⟨d, List.mem_append_right _ hd, rfl⟩)

/-- No header reaches into the payload of a live block. -/
theorem Layout.clear_payload {c : Block} (h : Layout r free live) (hc : c ∈ live)
    (hx : Payload c x) : Clear r free live x := by
  intro w hw
  obtain ⟨low, high⟩ := hx
  have memC : c ∈ free ++ live := List.mem_append_right _ hc
  rcases mem_headers hw with rfl | rfl | ⟨d, hd, rfl⟩
  · exact .inl rfl
  · exact .inr (.inl (high.trans_le (h.stop_le memC)))
  · have large := h.large d hd
    by_cases same : c = d
    · subst same
      exact .inr (.inr low)
    · have separate := (h.tiles.pairwise_disjoint fun b hb => h.pos hb).forall memC hd same
      unfold Block.Disjoint Block.stop at separate
      unfold Block.stop at high
      omega

/-- No header reaches outside the array. -/
theorem Layout.clear_array (h : Layout r free live) (hx : ¬ r.Holds x) :
    Clear r free live x := by
  intro w hw
  have low := r.ucHeap_le_lo
  have high := r.hi_add_le
  have room := r.lo_add_le_hi
  unfold Region.Holds at hx
  rcases mem_headers hw with rfl | rfl | ⟨d, hd, rfl⟩
  · exact .inl rfl
  · omega
  · have start := h.le_start hd
    have stop := h.stop_le hd
    have large := h.large d hd
    unfold Block.stop at stop
    omega

/-- A byte that is part of no header can be written at will. -/
theorem Represents.write {a : ℕ} (h : Represents r s free live) (v : UInt8)
    (clear : Clear r free live a) :
    Represents r { s with mem := Function.update s.mem a v } free live := by
  have away : ∀ w, a < w ∨ w + 8 ≤ a → ∀ y, w ≤ y → y < w + 8 →
      Function.update s.mem a v y = s.mem y := by
    intro w hw y low high
    have ne : y ≠ a := by omega
    exact Function.update_of_ne ne v s.mem
  -- so every header reads as before
  have same : ∀ w ∈ nodes r free ++ live.map Block.start,
      State.next { s with mem := Function.update s.mem a v } w = s.next w ∧
      State.size { s with mem := Function.update s.mem a v } w = s.size w := by
    intro w hw
    unfold State.next State.size
    dsimp only
    by_cases record : w = s.xStartAddr
    · rw [if_pos record, if_pos record, if_pos record, if_pos record]
      exact ⟨rfl, rfl⟩
    · have apart := away w ((clear w hw).resolve_left (h.xStartAddr ▸ record))
      rw [if_neg record, if_neg record, if_neg record, if_neg record]
      exact ⟨ByteMemory.load32_congr fun y low high => apart y low (by omega),
        ByteMemory.load32_congr fun y low high => apart y (by omega) (by omega)⟩
  have node : ∀ w ∈ nodes r free, w ∈ nodes r free ++ live.map Block.start := fun w hw =>
    List.mem_append_left _ hw
  have used : ∀ b ∈ live, b.start ∈ nodes r free ++ live.map Block.start := fun b hb =>
    List.mem_append_right _ (List.mem_map_of_mem hb)
  have last : r.hi ∈ nodes r free := by simp [nodes]
  exact { h with
    linked := h.linked.congr fun w hw => (same w (node w hw)).1
    startSize := ((same _ (node _ (by simp [nodes]))).2).trans h.startSize
    freeSize := fun b hb => ((same _ (node _ (start_mem_nodes hb))).2).trans (h.freeSize b hb)
    endNext := ((same _ (node _ last)).1).trans h.endNext
    endSize := ((same _ (node _ last)).2).trans h.endSize
    liveNext := fun b hb => ((same _ (used b hb)).1).trans (h.liveNext b hb)
    liveSize := fun b hb => ((same _ (used b hb)).2).trans (h.liveSize b hb) }

/-! ### What each call does -/

namespace Managed

/-- `PortMalloc` hands out the first block that fits, or nothing. -/
theorem malloc_cases (h : Managed r s live) (n : UInt32) (ndebug : Bool) :
    ∃ free, Represents r (ensureInit s) free live ∧
      (firstFit free n.toNat = none ∧ (Op.malloc n).exec ndebug s = .ok (ensureInit s, 0) ∨
        ∃ l₁ b l₂, firstFit free n.toNat = some b ∧ free = l₁ ++ b :: l₂ ∧
          needed n.toNat ≤ b.size ∧
          (Op.malloc n).exec ndebug s =
            .ok (handOut r (ensureInit s) l₁ l₂ b (needed n.toNat), b.start + 8)) := by
  obtain ⟨free, represents⟩ := h.ensureInit_represents
  refine ⟨free, represents, ?_⟩
  cases fit : firstFit free n.toNat with
  | none => exact .inl ⟨rfl, represents.portMalloc_refused n.toNat_lt ndebug fit⟩
  | some b =>
    obtain ⟨l₁, l₂, rfl, small, fits⟩ := exists_split_of_firstFit fit
    exact .inr ⟨l₁, b, l₂, rfl, rfl, fits, represents.portMalloc_served ndebug fit small fits⟩

/-- `PortFree` returns a live block, or does nothing. -/
theorem free_cases (h : Managed r s live) {pv : ℕ} (allowed : (Op.free pv).Allowed live)
    (ndebug : Bool) :
    ((Op.free pv).exec ndebug s = .ok (s, 0) ∧ pv = 0) ∨
      ∃ free free' b p s', Represents r s free live ∧ b ∈ live ∧ pv = b.start + 8 ∧
        (Op.free pv).exec ndebug s = .ok (s', 0) ∧
        Represents r s' free' ((Op.free pv).live s' 0 live) ∧
        live.Perm (b :: (Op.free pv).live s' 0 live) ∧
        (p ∈ nodes r free ∧ p ∈ nodes r free' ∧ s'.size b.start < 2 ^ 31) ∧
        Touches s s' [p, b.start] ∧
        s'.heap = { s.heap with
          xStart := s'.heap.xStart
          xFreeBytesRemaining := s.heap.xFreeBytesRemaining + b.size
          xNumberOfSuccessfulFrees := wadd s.heap.xNumberOfSuccessfulFrees 1 } := by
  rcases allowed with rfl | ⟨b, hb, rfl⟩
  · exact .inl ⟨rfl, rfl⟩
  · rcases h.blank_or with ⟨-, rfl⟩ | ⟨free, represents⟩
    · simp at hb
    · have perm := represents.layout.live_perm_filter hb
      obtain ⟨s', free', p, done, after, node, touch, record⟩ :=
        represents.portFree_represents perm ndebug
      refine .inr ⟨free, free', b, p, s', represents, hb, rfl, ?_, after, perm, node, touch, record⟩
      rw [Op.exec, done]
      rfl

theorem reinit_represents (h : Managed r s live) :
    Represents r (Allocator.reinit s) [r.whole] [] :=
  heapInit_represents h.configured.cleared

/-- Every allowed call completes and leaves a managed heap. -/
theorem exec (h : Managed r s live) (allowed : op.Allowed live) (ndebug : Bool) :
    ∃ s' result, op.exec ndebug s = .ok (s', result) ∧
      Managed r s' (op.live s' result live) := by
  cases op with
  | malloc n =>
    obtain ⟨free, represents, ⟨-, done⟩ | ⟨l₁, b, l₂, -, rfl, fits, done⟩⟩ :=
      h.malloc_cases n ndebug
    · exact ⟨_, _, done, represents.managed⟩
    · obtain ⟨blocks, after⟩ := represents.served fits
      refine ⟨_, _, done, ?_⟩
      rw [blocks]
      exact after.managed
  | free pv =>
    rcases h.free_cases allowed ndebug with
      ⟨done, rfl⟩ | ⟨free, free', b, p, s', -, -, -, done, after, -⟩
    · refine ⟨_, _, done, ?_⟩
      have kept : (Op.free 0).live s 0 live = live := by simp [Op.live]
      rw [kept]
      exact h
    · exact ⟨_, _, done, after.managed⟩
  | reinit => exact ⟨_, _, rfl, h.reinit_represents.managed⟩
  | write a v =>
    obtain ⟨b, hb, payload⟩ := allowed
    rcases h.blank_or with ⟨-, rfl⟩ | ⟨free, represents⟩
    · simp at hb
    · have clear := represents.layout.clear_payload hb payload
      exact ⟨_, _, rfl, (represents.write v clear).managed⟩

/-! ### What each call leaves alone -/

/-- A call that writes only headers leaves the bytes that are part of none. -/
theorem mem_of_clear {headers : List ℕ} (h : Configured r s) (touch : Touches s s' headers)
    (owned : ∀ w ∈ headers, w ∈ nodes r free ++ live.map Block.start)
    (clear : Clear r free live x) : s'.mem x = s.mem x := by
  refine touch.mem x fun w hw => ?_
  rw [h.xStartAddr]
  exact clear w (owned w hw)

/-- Handing out a block writes only headers of the layout it leaves. -/
theorem handOut_mem {l₁ l₂ : List Block} {k : ℕ} (represents : Represents r s (l₁ ++ b :: l₂) live)
    (clear : Clear r (l₁ ++ remainder b k ++ l₂) (taken b k :: live) x) :
    (handOut r s l₁ l₂ b k).mem x = s.mem x := by
  refine mem_of_clear represents.configured (handOut_touches r s l₁ l₂ b k) (fun w hw => ?_) clear
  rcases List.mem_cons.mp hw with rfl | hw
  · rw [List.append_assoc]
    exact List.mem_append_left _ (lastNode_mem_nodes r l₁ _)
  rcases List.mem_cons.mp hw with rfl | hw
  · exact List.mem_append_right _ (by simp [taken_start])
  · obtain ⟨d, hd, rfl⟩ := List.mem_map.mp hw
    exact List.mem_append_left _ (start_mem_nodes (by simp [hd]))

/-- Returning a block writes only headers of the layout before. -/
theorem freed_mem {p : ℕ} (represents : Represents r s free live) (hb : b ∈ live)
    (node : p ∈ nodes r free) (touch : Touches s s' [p, b.start]) (clear : Clear r free live x) :
    s'.mem x = s.mem x := by
  refine mem_of_clear represents.configured touch (fun w hw => ?_) clear
  rcases List.mem_cons.mp hw with rfl | hw
  · exact List.mem_append_left _ node
  · rw [List.mem_singleton.mp hw]
    exact List.mem_append_right _ (List.mem_map_of_mem hb)

/-- Lazy initialisation writes inside the array. -/
theorem ensureInit_mem (h : Managed r s live) (hx : ¬ r.Holds x) :
    (ensureInit s).mem x = s.mem x := by
  unfold ensureInit
  split_ifs
  · rw [heapInit_eq h.configured]
    exact initialised_mem_outside hx
  · rfl

/-- A call writes no byte outside the array. -/
theorem exec_outside (h : Managed r s live) (allowed : op.Allowed live)
    (done : op.exec ndebug s = .ok (s', result)) (hx : ¬ r.Holds x) : s'.mem x = s.mem x := by
  cases op with
  | malloc n =>
    obtain ⟨free, represents, ⟨-, refused⟩ | ⟨l₁, b, l₂, -, rfl, fits, served⟩⟩ :=
      h.malloc_cases n ndebug
    · cases refused.symm.trans done
      exact h.ensureInit_mem hx
    · have layout := (represents.served fits).2.layout
      cases served.symm.trans done
      exact (handOut_mem represents (layout.clear_array hx)).trans (h.ensureInit_mem hx)
  | free pv =>
    rcases h.free_cases allowed ndebug with ⟨nothing, -⟩ |
      ⟨free, _, b, p, t, represents, hb, -, freed, -, -, ⟨node, -⟩, touch, -⟩
    · cases nothing.symm.trans done
      rfl
    · cases freed.symm.trans done
      exact freed_mem represents hb node touch (represents.layout.clear_array hx)
  | reinit =>
    cases done
    rw [reinit_eq h.configured]
    exact initialised_mem_outside hx
  | write a v =>
    obtain ⟨b, hb, low, high⟩ := allowed
    rcases h.blank_or with ⟨-, rfl⟩ | ⟨free, represents⟩
    · simp at hb
    · have mem : b ∈ free ++ live := List.mem_append_right _ hb
      have start := represents.layout.le_start mem
      have stop := represents.layout.stop_le mem
      have below := r.ucHeap_le_lo
      have above := r.hi_add_le
      have ne : x ≠ a := by
        rintro rfl
        exact hx ⟨by omega, by omega⟩
      cases done
      exact Function.update_of_ne ne v s.mem

/-- `PortMalloc` and `PortFree` leave the payloads of the other live blocks alone. -/
theorem exec_frame {c : Block} (h : Managed r s live) (allowed : op.Allowed live)
    (call : op.IsCall) (done : op.exec ndebug s = .ok (s', result)) (hc : c ∈ live)
    (other : op ≠ .free (c.start + 8)) (hx : Payload c x) : s'.mem x = s.mem x := by
  cases op with
  | malloc n =>
    -- a live block means that the heap is initialised
    have same : ensureInit s = s := by
      rcases h.blank_or with ⟨-, rfl⟩ | ⟨free, represents⟩
      · simp at hc
      · exact represents.ensureInit_eq
    obtain ⟨free, represents, ⟨-, refused⟩ | ⟨l₁, b, l₂, -, rfl, fits, served⟩⟩ :=
      h.malloc_cases n ndebug
    · cases refused.symm.trans done
      rw [same]
    · have layout := (represents.served fits).2.layout
      cases served.symm.trans done
      rw [handOut_mem represents (layout.clear_payload (List.mem_cons_of_mem _ hc) hx), same]
  | free pv =>
    rcases h.free_cases allowed ndebug with ⟨nothing, -⟩ |
      ⟨free, _, b, p, t, represents, hb, -, freed, -, -, ⟨node, -⟩, touch, -⟩
    · cases nothing.symm.trans done
      rfl
    · cases freed.symm.trans done
      exact freed_mem represents hb node touch (represents.layout.clear_payload hc hx)
  | reinit => exact call.elim
  | write a v => exact call.elim

end Managed

end Components.Allocator
