import Lacuna.Lib.RefCount

/-!
# Address spaces and swap contexts

The changes that `mm/mmap.c` and `mm/privos.c` make to `priv_ctx`. An address
space (`MmStruct`) and each of its areas (`Vma`) may point to a `priv_cipher_ctx`,
which is counted by `mapcount` and wiped when the count reaches zero.

`pagecount` concerns the memory of the structure, not the key, and is left out. Areas
are listed in address order, each with its bounds, its flags and the pointer. What the
code decides from anonymous areas, files, offsets and policies are arguments.
-/

namespace Lacuna.Mm

open Lacuna.Lib

def ENOMEM : Int := 12
def PAGE_SIZE : Nat := 4096

/-- `mapcount` of each context, and whether its key is still there. -/
abbrev CtxTable := RefTable Nat

def privCtxAlloc (T : CtxTable) (c : Nat) : CtxTable := T.alloc c

def privCtxGet (T : CtxTable) : Option Nat → Bool × CtxTable
  | none => (false, T)
  | some c => T.get c

def privCtxPut (T : CtxTable) (ctx : Option Nat) : CtxTable := T.put ctx

/-! ## Areas -/

abbrev VmFlags := BitVec 64

def VM_READ : VmFlags := 0x00000001
def VM_WRITE : VmFlags := 0x00000002
def VM_SHARED : VmFlags := 0x00000008
def VM_MAYREAD : VmFlags := 0x00000010
def VM_MAYWRITE : VmFlags := 0x00000020
def VM_MAYEXEC : VmFlags := 0x00000040
def VM_MAYSHARE : VmFlags := 0x00000080
def VM_GROWSDOWN : VmFlags := 0x00000100
def VM_PFNMAP : VmFlags := 0x00000400
def VM_LOCKED : VmFlags := 0x00002000
def VM_IO : VmFlags := 0x00004000
def VM_SEQ_READ : VmFlags := 0x00008000
def VM_RAND_READ : VmFlags := 0x00010000
def VM_DONTCOPY : VmFlags := 0x00020000
def VM_DONTEXPAND : VmFlags := 0x00040000
def VM_RESERVED : VmFlags := 0x00080000
def VM_ACCOUNT : VmFlags := 0x00100000
def VM_CAN_NONLINEAR : VmFlags := 0x08000000
def VM_MERGEABLE : VmFlags := 0x80000000
def VM_SPECIAL : VmFlags := VM_IO ||| VM_DONTEXPAND ||| VM_RESERVED ||| VM_PFNMAP

def VmFlags.any (flags mask : VmFlags) : Bool := flags &&& mask != 0

/-- `vm_flags & (VM_SHARED | VM_MAYSHARE | VM_MERGEABLE)`. -/
def VmFlags.shared (flags : VmFlags) : Bool :=
  VmFlags.any flags (VM_SHARED ||| VM_MAYSHARE ||| VM_MERGEABLE)

structure Vma where
  vmStart : Nat
  vmEnd : Nat
  vmFlags : VmFlags
  privCtx : Option Nat
  deriving DecidableEq

def Vma.shared (vma : Vma) : Bool := VmFlags.shared vma.vmFlags

structure MmStruct where
  mmUsers : Nat
  privCtx : Option Nat
  mmap : List Vma
  /-- areas that `do_munmap` has detached and not yet removed -/
  detached : List Vma
  deriving DecidableEq

/-! ## Linking and unlinking -/

def vmaLinkCtx (T : CtxTable) (mmCtx : Option Nat) (vma : Vma) : CtxTable × Vma :=
  let vma := { vma with privCtx := none }
  if vma.shared then (T, vma)
  else
    let r := privCtxGet T mmCtx
    if r.1 then (r.2, { vma with privCtx := mmCtx }) else (T, vma)

def vmaLinkList (vma : Vma) : List Vma → List Vma
  | [] => [vma]
  | next :: rest =>
    if vma.vmStart < next.vmStart then vma :: next :: rest
    else next :: vmaLinkList vma rest

def vmaLink (T : CtxTable) (mm : MmStruct) (vma : Vma) : CtxTable × MmStruct :=
  let r := vmaLinkCtx T mm.privCtx vma
  (r.1, { mm with mmap := vmaLinkList r.2 mm.mmap })

def detachVma (mm : MmStruct) (i : Nat) : MmStruct :=
  match mm.mmap[i]? with
  | none => mm
  | some vma => { mm with mmap := mm.mmap.eraseIdx i, detached := vma :: mm.detached }

def removeVma (T : CtxTable) (mm : MmStruct) (j : Nat) : CtxTable × MmStruct :=
  match mm.detached[j]? with
  | none => (T, mm)
  | some vma => (privCtxPut T vma.privCtx, { mm with detached := mm.detached.eraseIdx j })

/-! ## `vma_adjust` -/

/-- "Basic vma verification to see if we need to propogate the priv ctx", with a next area. In a
private address space one of two neighbours with a context gives both the context; in any other
`vma`'s is dropped, and `next`'s with it. -/
def propagate (T : CtxTable) (mmCtx : Option Nat) (vma next : Vma) : CtxTable × Vma × Vma :=
  match mmCtx with
  | some _ =>
    if vma.privCtx.isNone != next.privCtx.isNone then
      ((privCtxGet T mmCtx).2, { vma with privCtx := mmCtx }, { next with privCtx := mmCtx })
    else (T, vma, next)
  | none =>
    if vma.privCtx.isSome then (T, { vma with privCtx := none }, { next with privCtx := none })
    else (T, vma, next)

def propagateLast (mmCtx : Option Nat) (vma : Vma) : Vma :=
  match mmCtx with
  | some _ => vma
  | none => if vma.privCtx.isSome then { vma with privCtx := none } else vma

/-- From `again:` on: `vma` expands over the next area, which is unlinked and freed, and so on
if `end` was beyond it (`remove_next == 2`). `clone k` says whether the `anon_vma_clone` of the
round succeeds. The result is the return value, `vma` and what follows it. -/
def removeNext (T : CtxTable) (mmCtx : Option Nat) (start : Nat) (clone : Nat → Bool) :
    Nat → Vma → List Vma → Int × CtxTable × Vma × List Vma
  | _, vma, [] => (0, T, vma, [])
  | endAddr, vma, next :: rest =>
    if clone 0 then
      let r := propagate T mmCtx vma next
      let vma := { r.2.1 with vmStart := start, vmEnd := next.vmEnd }
      if next.vmEnd < endAddr then
        removeNext r.1 mmCtx start (fun k => clone (k + 1)) next.vmEnd vma rest
      else (0, r.1, vma, rest)
    else (-ENOMEM, T, vma, next :: rest)

/-- `vma_adjust` on `vma` and the areas `rest` that follow it, but for the insertion of another
area. -/
def vmaAdjustAt (T : CtxTable) (mmCtx : Option Nat) (start endAddr : Nat) (insert : Bool)
    (clone : Nat → Bool) (vma : Vma) : List Vma → Int × CtxTable × Vma × List Vma
  | [] =>
    (0, T, { propagateLast mmCtx vma with vmStart := start, vmEnd := endAddr }, [])
  | next :: rest =>
    let r := propagate T mmCtx vma next
    let moved := { r.2.1 with vmStart := start, vmEnd := endAddr }
    if insert then (0, r.1, moved, r.2.2 :: rest)
    else if next.vmEnd ≤ endAddr then
      removeNext T mmCtx start clone endAddr vma (next :: rest)
    else if next.vmStart < endAddr then
      -- the boundary to `next` is shifted up
      if clone 0 then
        let up := (endAddr - next.vmStart) / PAGE_SIZE * PAGE_SIZE
        (0, r.1, moved, { r.2.2 with vmStart := next.vmStart + up } :: rest)
      else (-ENOMEM, T, vma, next :: rest)
    else if endAddr < vma.vmEnd then
      -- the boundary to `next` is shifted down
      if clone 0 then
        let down := (vma.vmEnd - endAddr) / PAGE_SIZE * PAGE_SIZE
        (0, r.1, moved, { r.2.2 with vmStart := next.vmStart - down } :: rest)
      else (-ENOMEM, T, vma, next :: rest)
    else (0, r.1, moved, r.2.2 :: rest)

def vmaAdjust (T : CtxTable) (mm : MmStruct) (i start endAddr : Nat) (insert : Option Vma)
    (clone : Nat → Bool) : Int × CtxTable × MmStruct :=
  match mm.mmap.drop i with
  | [] => (0, T, mm)
  | vma :: rest =>
    let r := vmaAdjustAt T mm.privCtx start endAddr insert.isSome clone vma rest
    let mm := { mm with mmap := mm.mmap.take i ++ r.2.2.1 :: r.2.2.2 }
    match insert with
    | none => (r.1, r.2.1, mm)
    | some new => (r.1, vmaLink r.2.1 mm new)

/-! ## What user calls do to areas -/

inductive MmOp where
  /-- `vma_link` of a new area: `mmap_region`, `do_brk`, `insert_vm_struct` -/
  | vmaLink (vma : Vma)
  /-- `__split_vma` -/
  | splitVma (i addr : Nat) (newBelow : Bool)
  /-- `vma_merge`; `prev` is the position of the area before the range. The
  flags say whether what is not modelled (file, offset, anonymous areas,
  policy) allows `can_vma_merge_after(prev)`, `can_vma_merge_before(next)` and
  both together -/
  | vmaMerge (prev : Option Nat) (addr endAddr : Nat) (vmFlags : VmFlags)
      (after before both : Bool) (clone : Nat → Bool)
  /-- `copy_vma` when `vma_merge` found nothing -/
  | copyVma (i addr len : Nat)
  /-- other calls of `vma_adjust`: `mremap`, `shift_arg_pages` -/
  | vmaAdjust (i start endAddr : Nat) (clone : Nat → Bool)
  /-- `do_munmap`: detach one area, remove one that was detached -/
  | detachVma (i : Nat)
  | removeVma (j : Nat)

/-- The function of `mm/mmap.c` that an operation comes down to. -/
inductive MmCall where
  | nothing
  | link (vma : Vma)
  | adjust (i start endAddr : Nat) (insert : Option Vma) (clone : Nat → Bool)
  | detach (i : Nat)
  | remove (j : Nat)

def splitVma (mm : MmStruct) (i addr : Nat) (newBelow : Bool) : MmCall :=
  match mm.mmap[i]? with
  | none => .nothing
  | some vma =>
    if newBelow then
      .adjust i addr vma.vmEnd (some { vma with vmEnd := addr }) fun _ => true
    else .adjust i vma.vmStart addr (some { vma with vmStart := addr }) fun _ => true

def isMergeableVma (vma : Vma) (vmFlags : VmFlags) : Bool :=
  (vma.vmFlags ^^^ vmFlags) &&& ~~~ VM_CAN_NONLINEAR == 0 && !vma.shared

def vmaMerge (mm : MmStruct) (prev : Option Nat) (addr endAddr : Nat) (vmFlags : VmFlags)
    (after before both : Bool) (clone : Nat → Bool) : MmCall :=
  if VmFlags.any vmFlags VM_SPECIAL then .nothing
  else
    let area := match prev with
      | some p => p + 1
      | none => 0
    -- cases 6, 7, 8: the range is an area of its own
    let next := if (mm.mmap[area]?).any fun v => v.vmEnd == endAddr then area + 1 else area
    let prevVma := prev.bind fun p => mm.mmap[p]?
    let nextVma := mm.mmap[next]?
    let mergesNext := nextVma.any fun v =>
      v.vmStart == endAddr && isMergeableVma v vmFlags && before
    match prev, prevVma with
    | some p, some v =>
      if v.vmEnd == addr && isMergeableVma v vmFlags && after then
        match nextVma with
        | some n =>
          if mergesNext && both then .adjust p v.vmStart n.vmEnd none clone  -- cases 1, 6
          else .adjust p v.vmStart endAddr none clone  -- cases 2, 5, 7
        | none => .adjust p v.vmStart endAddr none clone
      else if mergesNext then
        if addr < v.vmEnd then .adjust p v.vmStart addr none clone  -- case 4
        else .adjust area addr (nextVma.elim 0 Vma.vmEnd) none clone  -- cases 3, 8
      else .nothing
    | _, _ =>
      if mergesNext then .adjust area addr (nextVma.elim 0 Vma.vmEnd) none clone
      else .nothing

/-- The copy: all fields but the bounds, then `vma_link`. -/
def copyVma (mm : MmStruct) (i addr len : Nat) : MmCall :=
  match mm.mmap[i]? with
  | none => .nothing
  | some vma => .link { vma with vmStart := addr, vmEnd := addr + len }

def MmOp.call (mm : MmStruct) : MmOp → MmCall
  | .vmaLink vma => .link vma
  | .splitVma i addr newBelow => Mm.splitVma mm i addr newBelow
  | .vmaMerge prev addr endAddr vmFlags after before both clone =>
    Mm.vmaMerge mm prev addr endAddr vmFlags after before both clone
  | .copyVma i addr len => Mm.copyVma mm i addr len
  | .vmaAdjust i start endAddr clone => .adjust i start endAddr none clone
  | .detachVma i => .detach i
  | .removeVma j => .remove j

def MmCall.run (T : CtxTable) (mm : MmStruct) : MmCall → CtxTable × MmStruct
  | .nothing => (T, mm)
  | .link vma => vmaLink T mm vma
  | .adjust i start endAddr insert clone => (vmaAdjust T mm i start endAddr insert clone).2
  | .detach i => (T, detachVma mm i)
  | .remove j => removeVma T mm j

end Lacuna.Mm
