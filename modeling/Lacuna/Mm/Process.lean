import Lacuna.Lib.Trace
import Lacuna.Mm.Vma

/-!
# Creation, exec and exit of private processes

`kernel/fork.c` and `fs/exec.c`, as far as swap contexts go. The system is the
table of contexts and all address spaces; `SysStep` is one call, in one of
them, of a function that touches `priv_ctx`.

Address spaces are named by their position; the place of one that is gone
stays empty.
-/

namespace Lacuna.Mm

open Lacuna.Lib

structure Sys where
  ctxs : CtxTable
  mms : List (Option MmStruct)

def Sys.mm (sys : Sys) (k : Nat) : Option MmStruct := (sys.mms[k]?).join

/-! ## `mmput` -/

/-- `mmput` by the last user: `exit_mmap` removes all areas, then the address space drops its
own reference. -/
def mmRelease (T : CtxTable) (mm : MmStruct) : CtxTable :=
  let T := mm.mmap.foldl (fun T vma => privCtxPut T vma.privCtx) T
  privCtxPut T mm.privCtx

def mmput (T : CtxTable) (mm : MmStruct) : CtxTable × Option MmStruct :=
  if mm.mmUsers - 1 = 0 then (mmRelease T mm, none)
  else (T, some { mm with mmUsers := mm.mmUsers - 1 })

/-! ## `copy_mm` -/

/-- The loop of `dup_mmap`: `*tmp = *mpnt`, `tmp->vm_flags &= ~VM_LOCKED`.
With `fail = some n` it gives up after `n` areas. -/
def dupMmap (oldmm : MmStruct) (fail : Option Nat) : List Vma :=
  let mpnts := match fail with
    | none => oldmm.mmap
    | some n => oldmm.mmap.take n
  (mpnts.filter fun mpnt => !VmFlags.any mpnt.vmFlags VM_DONTCOPY).map fun mpnt =>
    { mpnt with vmFlags := mpnt.vmFlags &&& ~~~ VM_LOCKED }

/-- `dup_mm` up to `dup_mmap`: `mm_init` has cleared `priv_ctx`. -/
def dupMm (oldmm : MmStruct) (fail : Option Nat) : MmStruct :=
  { mmUsers := 1, privCtx := none, mmap := dupMmap oldmm fail, detached := [] }

def privateMmHook (T : CtxTable) (mm : MmStruct) (alloc : Option Nat) :
    Int × CtxTable × MmStruct :=
  if mm.privCtx.isSome then (0, T, mm)
  else
    match alloc with
    | none => (-ENOMEM, T, mm)
    | some c => (0, privCtxAlloc T c, { mm with privCtx := some c })

/-- `copy_mm` without `CLONE_VM`: the return value and the new address space. -/
def copyMm (T : CtxTable) (oldmm : MmStruct) (clonePrivate : Bool) (fail alloc : Option Nat) :
    Int × CtxTable × Option MmStruct :=
  let mm := dupMm oldmm fail
  if fail.isSome then (-ENOMEM, mmput T mm)
  else
    let r := if clonePrivate then privateMmHook T mm alloc else (0, T, mm)
    if r.1 ≠ 0 then (r.1, mmput r.2.1 r.2.2)
    else
      let g := privCtxGet r.2.1 oldmm.privCtx
      if g.1 then
        (0, g.2, some (if clonePrivate then r.2.2 else { r.2.2 with privCtx := oldmm.privCtx }))
      else (0, r.2.1, some r.2.2)

/-! ## `bprm_mm_init` -/

def STACK_TOP_MAX : Nat := (1 <<< 47) - PAGE_SIZE

def VM_STACK_INCOMPLETE_SETUP : VmFlags := VM_RAND_READ ||| VM_SEQ_READ

def VM_STACK_FLAGS : VmFlags :=
  VM_GROWSDOWN ||| (VM_READ ||| VM_WRITE ||| VM_MAYREAD ||| VM_MAYWRITE ||| VM_MAYEXEC) |||
    VM_ACCOUNT

def stackVma : Vma where
  vmStart := STACK_TOP_MAX - PAGE_SIZE
  vmEnd := STACK_TOP_MAX
  vmFlags := VM_STACK_FLAGS ||| VM_STACK_INCOMPLETE_SETUP
  privCtx := none

def bprmMmInitStack (T : CtxTable) (mm : MmStruct) : CtxTable × MmStruct :=
  vmaLink T mm stackVma

/-- `bprm_mm_init` by a process with address space `current`; the new one comes from `mm_alloc`. -/
def bprmMmInit (T : CtxTable) (current : MmStruct) (alloc : Option Nat) :
    CtxTable × Option MmStruct :=
  let mm : MmStruct := { mmUsers := 1, privCtx := none, mmap := [], detached := [] }
  let r := bprmMmInitStack T mm
  let g := privCtxGet r.1 current.privCtx
  if g.1 then
    match alloc with
    | none => (g.2, none)  -- `goto err`
    | some c =>
      (privCtxPut (privCtxAlloc g.2 c) current.privCtx, some { r.2 with privCtx := some c })
  else (r.1, some r.2)

theorem bprmMmInitStack_eq (T : CtxTable) :
    bprmMmInitStack T { mmUsers := 1, privCtx := none, mmap := [], detached := [] } =
      (T, { mmUsers := 1, privCtx := none, mmap := [stackVma], detached := [] }) := by
  simp [bprmMmInitStack, vmaLink, vmaLinkCtx, privCtxGet, vmaLinkList, stackVma]

inductive SysOp where
  /-- `mmap`, `munmap`, `mprotect`, … in address space `k` -/
  | inMm (k : Nat) (op : MmOp)
  /-- a new thread: `copy_mm` with `CLONE_VM` -/
  | cloneVm (k : Nat)
  | copyMm (k : Nat) (clonePrivate : Bool) (fail alloc : Option Nat)
  | mmput (k : Nat)
  | bprmMmInit (k : Nat) (alloc : Option Nat)

/-- Put the address space that a call returned in a place of its own. -/
def Sys.add (sys : Sys) (r : CtxTable × Option MmStruct) : Sys where
  ctxs := r.1
  mms := sys.mms ++ [r.2]

/-- Memory for a context is not that of a live one; an address space that is given up has no
`munmap` going on in it. -/
inductive SysStep : Sys → SysOp → Sys → Prop
  | inMm (sys k mm op) (hMm : sys.mm k = some mm) :
      SysStep sys (.inMm k op)
        { ctxs := ((op.call mm).run sys.ctxs mm).1,
          mms := sys.mms.set k (some ((op.call mm).run sys.ctxs mm).2) }
  | cloneVm (sys k mm) (hMm : sys.mm k = some mm) :
      SysStep sys (.cloneVm k)
        { sys with mms := sys.mms.set k (some { mm with mmUsers := mm.mmUsers + 1 }) }
  | copyMm (sys k mm clonePrivate fail alloc) (hMm : sys.mm k = some mm)
      (hAlloc : ∀ c, alloc = some c → (sys.ctxs c).live = false) :
      SysStep sys (.copyMm k clonePrivate fail alloc)
        (sys.add (Mm.copyMm sys.ctxs mm clonePrivate fail alloc).2)
  | mmput (sys k mm) (hMm : sys.mm k = some mm) (hIdle : mm.detached = []) :
      SysStep sys (.mmput k)
        { ctxs := (Mm.mmput sys.ctxs mm).1, mms := sys.mms.set k (Mm.mmput sys.ctxs mm).2 }
  | bprmMmInit (sys k mm alloc) (hMm : sys.mm k = some mm)
      (hAlloc : ∀ c, alloc = some c → (sys.ctxs c).live = false) :
      SysStep sys (.bprmMmInit k alloc) (sys.add (Mm.bprmMmInit sys.ctxs mm alloc))

end Lacuna.Mm
