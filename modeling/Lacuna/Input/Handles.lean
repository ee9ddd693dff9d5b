import Mathlib.Data.List.Perm.Basic

/-!
# Private and ordinary input handles

`input_attach_handler`, `input_register_handle` and `input_pass_event` of
`drivers/input/input.c`. A handler that can do private input is connected twice
to a device that can; the last handle in the device's list is then the private one.
An event is passed only to handles of the current privacy mode.

Modelling conventions:

* devices, handlers, and the handles of a device are numbered as they come;
* a `connect` that succeeds registers one handle, and one that fails none; what
  each call comes to is part of the operation;
* a registration is one step, as `input_mutex` is held. A pass takes a step for each
  handle, the check and the call that follows it.
-/

namespace Lacuna.Input

open List

structure InputHandler where
  privacyCapable : Bool
  filter : Bool
  slot : Option Nat
  filter_eq : privacyCapable = true → filter = false

structure InputHandle where
  id : Nat
  handler : Nat
  isOpen : Bool
  privateMode : Bool
  deriving DecidableEq

/-- `walk` is a pass that is not done yet: the handles still to come and `filtered`. `attached` is
what `input_attach_handler` has returned for each handler. -/
structure InputDev where
  privacyCapable : Bool
  hList : List InputHandle
  grab : Option Nat
  walk : Option (List Nat × Bool)
  attached : List (Nat × Int)
  deriving DecidableEq

/-- An event handed to a handle, and the privacy mode of that moment. -/
structure Delivery where
  handle : InputHandle
  mode : Bool
  deriving DecidableEq

structure State where
  devs : List InputDev
  handlers : List InputHandler
  mode : Bool
  delivered : List Delivery

/-- What `__input_attach_handler` comes to: no id matches, `connect` fails, or it
succeeds. -/
inductive Connect where
  | noMatch
  | failed (errno : Nat)
  | connected
  deriving DecidableEq

def Connect.rc : Connect → Int
  | .noMatch => -19
  | .failed errno => -(errno + 1 : Nat)
  | .connected => 0

/-- A handle added at the tail is still seen by a pass. -/
def inputRegisterHandle (k : Nat) (h : InputHandler) (d : InputDev) : InputDev :=
  let handle : InputHandle := ⟨d.hList.length, k, false, false⟩
  if h.filter then { d with hList := handle :: d.hList }
  else
    { d with
      hList := d.hList ++ [handle]
      walk := d.walk.map fun w => (w.1 ++ [handle.id], w.2) }

def attachHandler (c : Connect) (k : Nat) (h : InputHandler) (d : InputDev) : InputDev :=
  if c = .connected then inputRegisterHandle k h d else d

def markLast (l : List InputHandle) : List InputHandle :=
  l.dropLast ++ l.getLast?.toList.map fun x => { x with privateMode := true }

/-- `__input_attach_priv_handler`, and what it returns. -/
def attachPrivHandler (c : Connect) (k : Nat) (h : InputHandler) (d : InputDev) : InputDev × Int :=
  if d.privacyCapable ∧ h.privacyCapable then
    let d' := attachHandler c k h d
    if c.rc < 0 then (d', c.rc) else ({ d' with hList := markLast d'.hList }, c.rc)
  else (d, 0)

def inputAttachHandler (c : Connect × Connect) (k : Nat) (h : InputHandler) (d : InputDev) :
    InputDev :=
  let d' := attachHandler c.1 k h d
  if c.1.rc < 0 then { d' with attached := d'.attached ++ [(k, c.1.rc)] }
  else
    let r := attachPrivHandler c.2 k h d'
    { r.1 with attached := r.1.attached ++ [(k, r.2)] }

/-- The loop of `input_register_device` over the handlers, from the `k`-th on. -/
def attachAll (connects : Nat → Connect × Connect) : List InputHandler → Nat → InputDev → InputDev
  | [], _, d => d
  | h :: hs, k, d => attachAll connects hs (k + 1) (inputAttachHandler (connects k) k h d)

def inputRegisterDevice (ok capable : Bool) (connects : Nat → Connect × Connect) (s : State) :
    State :=
  if ok then
    { s with devs := s.devs ++ [attachAll connects s.handlers 0 ⟨capable, [], none, none, []⟩] }
  else s

def inputRegisterHandler (ok : Bool) (h : InputHandler) (connects : Nat → Connect × Connect)
    (s : State) : State :=
  -- `input_table` has the handler of each slot
  if ok = false ∨ h.slot.isSome ∧ ∃ h' ∈ s.handlers, h'.slot = h.slot then s
  else
    { s with
      handlers := s.handlers ++ [h]
      devs := s.devs.mapIdx fun i d => inputAttachHandler (connects i) s.handlers.length h d }

def enabledStore (buf : List UInt8) (s : State) : State :=
  match buf with
  | [] => s
  | c :: _ => { s with mode := c != 48 }

def onDev (i : Nat) (f : InputDev → InputDev) (s : State) : State :=
  { s with devs := s.devs.mapIdx fun j d => if j = i then f d else d }

def privPassOk (s : State) (x : InputHandle) : Bool := s.mode == x.privateMode

def deliver (x : InputHandle) (s : State) : State :=
  { s with delivered := s.delivered ++ [⟨x, s.mode⟩] }

def passEvent (i : Nat) (s : State) : State :=
  match s.devs[i]? with
  | none => s
  | some d =>
    -- `dev->event_lock` is held during a pass
    if d.walk.isSome then s
    else
      match d.grab with
      | none => onDev i (fun d => { d with walk := some (d.hList.map (·.id), false) }) s
      | some id =>
        match d.hList.find? (·.id = id) with
        | none => s
        | some x => if privPassOk s x then deliver x s else s

/-- One turn of the loop of `input_pass_event`; `answer` is what a filter
returns. -/
def passNext (i : Nat) (answer : Bool) (s : State) : State :=
  let setWalk (w : Option (List Nat × Bool)) := onDev i fun d => { d with walk := w }
  match s.devs[i]? with
  | none => s
  | some d =>
    match d.walk with
    | none => s
    | some ([], _) => setWalk none s
    | some (id :: rest, filtered) =>
      match d.hList.find? (·.id = id) with
      | none => setWalk (some (rest, filtered)) s
      | some x =>
        if x.isOpen = false ∨ privPassOk s x = false then setWalk (some (rest, filtered)) s
        else if (s.handlers[x.handler]?.map (·.filter)).getD false then
          deliver x (setWalk (some (rest, filtered || answer)) s)
        else if filtered then setWalk none s
        else deliver x (setWalk (some (rest, filtered)) s)

inductive Op where
  | registerDevice (ok capable : Bool) (connects : Nat → Connect × Connect)
  | registerHandler (ok : Bool) (h : InputHandler) (connects : Nat → Connect × Connect)
  | enabledStore (buf : List UInt8)
  /-- A handle is opened or closed. -/
  | setOpen (dev id : Nat) (isOpen : Bool)
  /-- The device is grabbed or released. -/
  | setGrab (dev : Nat) (grab : Option Nat)
  | passEvent (dev : Nat)
  | passNext (dev : Nat) (answer : Bool)

def step (s : State) : Op → State
  | .registerDevice ok capable connects => inputRegisterDevice ok capable connects s
  | .registerHandler ok h connects => inputRegisterHandler ok h connects s
  | .enabledStore buf => enabledStore buf s
  | .setOpen dev id isOpen =>
    onDev dev (fun d => { d with
      hList := d.hList.map fun x => if x.id = id then { x with isOpen := isOpen } else x }) s
  | .setGrab dev grab => onDev dev (fun d => { d with grab := grab }) s
  | .passEvent dev => passEvent dev s
  | .passNext dev answer => passNext dev answer s

def run (ops : List Op) : State := ops.foldl step ⟨[], [], false, []⟩

/-! ## What should hold -/

/-- One private and one ordinary handle for each handler that can do private input and was
attached, if the device can, and no other private handle. -/
structure Separated (handlers : List InputHandler) (d : InputDev) : Prop where
  pair : d.privacyCapable = true → ∀ k h, handlers[k]? = some h → h.privacyCapable = true →
    (k, 0) ∈ d.attached →
    d.hList.countP (fun x => x.handler = k ∧ x.privateMode = true) = 1 ∧
      d.hList.countP (fun x => x.handler = k ∧ x.privateMode = false) = 1
  only : ∀ x ∈ d.hList, x.privateMode = true → d.privacyCapable = true ∧
    ∃ h, handlers[x.handler]? = some h ∧ h.privacyCapable = true ∧ (x.handler, 0) ∈ d.attached

/-! ## One device -/

section Device

variable {hs : List InputHandler} {n : Nat} {d d' : InputDev} {h : InputHandler}

def marks (d : InputDev) : List (Nat × Bool) := d.hList.map fun x => (x.handler, x.privateMode)

def capable (hs : List InputHandler) (k : Nat) : Prop :=
  ∃ h, hs[k]? = some h ∧ h.privacyCapable = true

/-- The first `n` handlers have been tried, and the handles are as they should
be. -/
structure DevInv (hs : List InputHandler) (n : Nat) (d : InputDev) : Prop where
  marks_lt : ∀ m ∈ marks d, m.1 < n
  attached_lt : ∀ a ∈ d.attached, a.1 < n
  priv : ∀ k, (d.privacyCapable = true ∧ capable hs k ∧ (k, 0) ∈ d.attached →
      (marks d).count (k, true) = 1) ∧
    ((k, true) ∈ marks d → d.privacyCapable = true ∧ capable hs k ∧ (k, 0) ∈ d.attached)
  plain : ∀ k, (k, 0) ∈ d.attached → (marks d).count (k, false) = 1

theorem DevInv.separated (hInv : DevInv hs n d) : Separated hs d := by
  have hCount (k : Nat) (b : Bool) : d.hList.countP (fun x => x.handler = k ∧ x.privateMode = b) =
      (marks d).count (k, b) := by
    rw [count_eq_countP, marks, countP_map]
    refine countP_congr fun x _ => ?_
    simp
  refine ⟨fun hDev k h hk hCap hAtt => ?_, fun x hx hPriv => ?_⟩
  · rw [hCount, hCount]
    exact ⟨(hInv.priv k).1 ⟨hDev, ⟨h, hk, hCap⟩, hAtt⟩, hInv.plain k hAtt⟩
  · have hMem : (x.handler, true) ∈ marks d := List.mem_map.mpr ⟨x, hx, by rw [hPriv]⟩
    obtain ⟨hDev, ⟨h, hk, hCap⟩, hAtt⟩ := (hInv.priv x.handler).2 hMem
    exact ⟨hDev, h, hk, hCap, hAtt⟩

theorem DevInv.extend (hInv : DevInv hs n d) (new : List (Nat × Bool)) (rc : Int)
    (hMarks : (marks d').Perm (marks d ++ new)) (hNew : ∀ m ∈ new, m.1 = n)
    (hCap : d'.privacyCapable = d.privacyCapable) (hAtt : d'.attached = d.attached ++ [(n, rc)])
    (hPriv : d.privacyCapable = true ∧ capable hs n ∧ rc = 0 → new.count (n, true) = 1)
    (hOnly : (n, true) ∈ new → d.privacyCapable = true ∧ capable hs n ∧ rc = 0)
    (hPlain : rc = 0 → new.count (n, false) = 1) : DevInv hs (n + 1) d' := by
  have hCount (m : Nat × Bool) : (marks d').count m = (marks d).count m + new.count m := by
    rw [hMarks.count_eq, count_append]
  have hMem (m : Nat × Bool) : m ∈ marks d' ↔ m ∈ marks d ∨ m ∈ new := by
    rw [hMarks.mem_iff, mem_append]
  have hAttMem (k : Nat) : (k, 0) ∈ d'.attached ↔ (k, 0) ∈ d.attached ∨ k = n ∧ rc = 0 := by
    rw [hAtt, mem_append, mem_singleton, Prod.mk.injEq, @eq_comm Int 0]
  have hOldMark (b : Bool) : (n, b) ∉ marks d := fun hm => Nat.lt_irrefl n (hInv.marks_lt _ hm)
  have hOldAtt : (n, 0) ∉ d.attached := fun ha => Nat.lt_irrefl n (hInv.attached_lt _ ha)
  have hOther {k : Nat} (hk : k ≠ n) (b : Bool) : (k, b) ∉ new := fun hm => hk (hNew _ hm)
  refine ⟨fun m hm => ?_, fun a ha => ?_, fun k => ?_, fun k hk => ?_⟩
  · rcases (hMem m).mp hm with hm | hm
    · exact Nat.lt_succ_of_lt (hInv.marks_lt m hm)
    · exact Nat.lt_succ_of_le (Nat.le_of_eq (hNew m hm))
  · rw [hAtt, mem_append, mem_singleton] at ha
    rcases ha with ha | rfl
    · exact Nat.lt_succ_of_lt (hInv.attached_lt a ha)
    · exact Nat.lt_succ_self n
  · rw [hCap, hAttMem, hCount, hMem]
    by_cases hk : k = n
    · subst hk
      rw [count_eq_zero_of_not_mem (hOldMark true)]
      simp only [hOldAtt, hOldMark, false_or, true_and, Nat.zero_add]
      exact ⟨hPriv, hOnly⟩
    · rw [count_eq_zero_of_not_mem (hOther hk true)]
      simp only [hOther hk, hk, or_false, false_and, Nat.add_zero]
      exact hInv.priv k
  · rw [hCount]
    rcases (hAttMem k).mp hk with hOld | ⟨rfl, hrc⟩
    · have hne : k ≠ n := fun h => hOldAtt (h ▸ hOld)
      rw [count_eq_zero_of_not_mem (hOther hne false), hInv.plain k hOld]
    · rw [count_eq_zero_of_not_mem (hOldMark false), hPlain hrc]

/-! ### Attaching a handler -/

theorem Connect.rc_neg {c : Connect} (h : c ≠ .connected) : c.rc < 0 := by
  cases c with
  | noMatch => decide
  | failed errno =>
    simp only [Connect.rc]
    omega
  | connected => exact absurd rfl h

theorem marks_register (k : Nat) (h : InputHandler) (d : InputDev) :
    (marks (inputRegisterHandle k h d)).Perm (marks d ++ [(k, false)]) := by
  unfold inputRegisterHandle marks
  cases h.filter with
  | true => exact (perm_append_singleton _ _).symm
  | false => simp

theorem hList_register {k : Nat} {h : InputHandler} (hFilter : h.filter = false) (d : InputDev) :
    (inputRegisterHandle k h d).hList = d.hList ++ [⟨d.hList.length, k, false, false⟩] := by
  simp [inputRegisterHandle, hFilter]

theorem register_frame (k : Nat) (h : InputHandler) (d : InputDev) :
    (inputRegisterHandle k h d).privacyCapable = d.privacyCapable ∧
      (inputRegisterHandle k h d).attached = d.attached := by
  unfold inputRegisterHandle
  split <;> exact ⟨rfl, rfl⟩

theorem markLast_concat (l : List InputHandle) (x : InputHandle) :
    markLast (l ++ [x]) = l ++ [{ x with privateMode := true }] := by
  simp [markLast]

theorem DevInv.attach (hInv : DevInv hs n d) (hn : hs[n]? = some h) (c : Connect × Connect) :
    DevInv hs (n + 1) (inputAttachHandler c n h d) := by
  obtain ⟨hCap, hAtt⟩ := register_frame n h d
  have hCapable : capable hs n ↔ h.privacyCapable = true := by simp [capable, hn]
  unfold inputAttachHandler attachHandler
  by_cases h₁ : c.1 = .connected
  · rw [if_pos h₁, if_neg (by rw [h₁]; decide)]
    unfold attachPrivHandler attachHandler
    rw [hCap]
    by_cases hBoth : d.privacyCapable = true ∧ h.privacyCapable = true
    · rw [if_pos hBoth]
      have hFilter := h.filter_eq hBoth.2
      by_cases h₂ : c.2 = .connected
      · -- the second handle is at the tail, and is marked
        rw [if_neg (by rw [h₂]; decide), if_pos h₂]
        refine hInv.extend [(n, false), (n, true)] c.2.rc ?_ (by simp) ?_ ?_ (by simp) ?_ (by simp)
        · simp only [marks, hList_register hFilter, markLast_concat]
          simp
        · rw [← hCap]
          exact (register_frame n h _).1
        · rw [← hAtt, (register_frame n h _).2]
        · exact fun _ => ⟨hBoth.1, hCapable.mpr hBoth.2, by rw [h₂]; rfl⟩
      · have hNeg := Connect.rc_neg h₂
        rw [if_pos hNeg, if_neg h₂]
        refine hInv.extend [(n, false)] c.2.rc (marks_register n h d) (by simp) hCap ?_ (by omega)
          (by simp) (by simp)
        exact congrArg (· ++ _) hAtt
    · rw [if_neg hBoth]
      refine hInv.extend [(n, false)] 0 (marks_register n h d) (by simp) hCap ?_ ?_ (by simp) (by simp)
      · exact congrArg (· ++ _) hAtt
      · rintro ⟨hDev, hk, -⟩
        exact absurd ⟨hDev, hCapable.mp hk⟩ hBoth
  · have hNeg := Connect.rc_neg h₁
    rw [if_neg h₁, if_pos hNeg]
    refine hInv.extend [] c.1.rc ?_ (by simp) rfl rfl (by omega) (by simp) (by omega)
    rw [append_nil]
    exact List.Perm.refl _

theorem DevInv.weaken (hInv : DevInv hs hs.length d) (h : InputHandler) :
    DevInv (hs ++ [h]) hs.length d := by
  refine ⟨hInv.marks_lt, hInv.attached_lt, fun k => ?_, hInv.plain⟩
  obtain ⟨hPriv, hOnly⟩ := hInv.priv k
  have hSame (hAtt : (k, 0) ∈ d.attached) : capable (hs ++ [h]) k ↔ capable hs k := by
    rw [capable, List.getElem?_append_left (hInv.attached_lt _ hAtt)]
    rfl
  constructor
  · rintro ⟨hDev, hk, hAtt⟩
    exact hPriv ⟨hDev, (hSame hAtt).mp hk, hAtt⟩
  · intro hMem
    obtain ⟨hDev, hk, hAtt⟩ := hOnly hMem
    exact ⟨hDev, (hSame hAtt).mpr hk, hAtt⟩

theorem DevInv.attachAll (connects : Nat → Connect × Connect) {rest : List InputHandler}
    (hRest : ∀ i, hs[n + i]? = rest[i]?) (hInv : DevInv hs n d) :
    DevInv hs (n + rest.length) (attachAll connects rest n d) := by
  induction rest generalizing n d with
  | nil => exact hInv
  | cons h rest ih =>
    have hNext (i : Nat) : hs[n + 1 + i]? = rest[i]? := by
      rw [Nat.add_right_comm]
      exact hRest (i + 1)
    have := ih hNext (hInv.attach (hRest 0) (connects n))
    rwa [length_cons, Nat.add_comm rest.length, ← Nat.add_assoc]

theorem DevInv.frame (hInv : DevInv hs n d) (hCap : d'.privacyCapable = d.privacyCapable)
    (hAtt : d'.attached = d.attached) (hMarks : marks d' = marks d) : DevInv hs n d' := by
  obtain ⟨hLt, hAttLt, hPriv, hPlain⟩ := hInv
  constructor
  · rwa [hMarks]
  · rwa [hAtt]
  · rwa [hCap, hAtt, hMarks]
  · rwa [hAtt, hMarks]

end Device

/-! ## All runs -/

/-- The handles of every device are as they should be, and so are the events
passed. -/
structure Inv (s : State) : Prop where
  devs : ∀ d ∈ s.devs, DevInv s.handlers s.handlers.length d
  delivered : ∀ e ∈ s.delivered, e.handle.privateMode = e.mode

section Step

variable {s : State}

theorem Inv.onDev (h : Inv s) (i : Nat) {f : InputDev → InputDev}
    (hf : ∀ d, (f d).privacyCapable = d.privacyCapable ∧ (f d).attached = d.attached ∧
      marks (f d) = marks d) : Inv (onDev i f s) := by
  refine ⟨fun d hd => ?_, h.delivered⟩
  obtain ⟨j, hj, rfl⟩ := List.mem_mapIdx.mp hd
  have hInv := h.devs _ (getElem_mem hj)
  split
  · exact hInv.frame (hf _).1 (hf _).2.1 (hf _).2.2
  · exact hInv

theorem Inv.setWalk (h : Inv s) (i : Nat) (w : Option (List Nat × Bool)) :
    Inv (Input.onDev i (fun d => { d with walk := w }) s) :=
  h.onDev i fun _ => ⟨rfl, rfl, rfl⟩

theorem Inv.deliver (h : Inv s) {x : InputHandle} (hPass : privPassOk s x = true) :
    Inv (deliver x s) := by
  refine ⟨h.devs, fun e he => ?_⟩
  rcases List.mem_append.mp he with he | he
  · exact h.delivered e he
  · rw [List.mem_singleton.mp he]
    exact (beq_iff_eq.mp hPass).symm

theorem Inv.passEvent (h : Inv s) (i : Nat) : Inv (passEvent i s) := by
  unfold Input.passEvent
  split
  · exact h
  · split
    · exact h
    · split
      · exact h.onDev i fun _ => ⟨rfl, rfl, rfl⟩
      · split
        · exact h
        · split
          · exact h.deliver ‹_›
          · exact h

theorem Inv.passNext (h : Inv s) (i : Nat) (answer : Bool) : Inv (passNext i answer s) := by
  unfold Input.passNext
  split
  · exact h
  · split
    · exact h
    · exact h.setWalk i _
    · split
      · exact h.setWalk i _
      · split
        · exact h.setWalk i _
        · rename_i hPass
          have hPass := eq_true_of_ne_false fun hFalse => hPass (.inr hFalse)
          split
          · exact (h.setWalk i _).deliver hPass
          · split
            · exact h.setWalk i _
            · exact (h.setWalk i _).deliver hPass

theorem Inv.registerDevice (h : Inv s) (ok capable : Bool) (connects : Nat → Connect × Connect) :
    Inv (inputRegisterDevice ok capable connects s) := by
  unfold inputRegisterDevice
  split
  · refine ⟨fun d hd => ?_, h.delivered⟩
    rcases List.mem_append.mp hd with hd | hd
    · exact h.devs d hd
    · have hNew : DevInv s.handlers 0 ⟨capable, [], none, none, []⟩ :=
        ⟨by simp [marks], by simp, by simp [marks], by simp⟩
      have := hNew.attachAll connects fun i => by rw [Nat.zero_add]
      rw [List.mem_singleton.mp hd]
      rwa [Nat.zero_add] at this
  · exact h

theorem Inv.registerHandler (h : Inv s) (ok : Bool) (hr : InputHandler)
    (connects : Nat → Connect × Connect) : Inv (inputRegisterHandler ok hr connects s) := by
  unfold inputRegisterHandler
  split
  · exact h
  · refine ⟨fun d hd => ?_, h.delivered⟩
    obtain ⟨j, hj, rfl⟩ := List.mem_mapIdx.mp hd
    rw [length_append]
    exact ((h.devs _ (getElem_mem hj)).weaken hr).attach (by simp) (connects j)

theorem Inv.step (h : Inv s) (op : Op) : Inv (step s op) := by
  cases op with
  | registerDevice ok capable connects => exact h.registerDevice ok capable connects
  | registerHandler ok hr connects => exact h.registerHandler ok hr connects
  | enabledStore buf =>
    cases buf with
    | nil => exact h
    | cons c _ => exact ⟨h.devs, h.delivered⟩
  | setOpen dev id isOpen =>
    refine h.onDev dev fun d => ⟨rfl, rfl, ?_⟩
    rw [marks, map_map]
    refine map_congr_left fun x _ => ?_
    simp only [Function.comp_apply]
    split <;> rfl
  | setGrab dev grab => exact h.onDev dev fun _ => ⟨rfl, rfl, rfl⟩
  | passEvent dev => exact h.passEvent dev
  | passNext dev answer => exact h.passNext dev answer

end Step

theorem inv_run (ops : List Op) : Inv (run ops) := by
  have hStart : Inv ⟨[], [], false, []⟩ := ⟨by simp, by simp⟩
  unfold run
  generalize (⟨[], [], false, []⟩ : State) = s at hStart
  induction ops generalizing s with
  | nil => exact hStart
  | cons op ops ih => exact ih _ (hStart.step op)

def keyboard : List Op :=
  [.registerHandler true ⟨true, false, some 2, fun _ => rfl⟩ fun _ => (.connected, .connected),
    .registerDevice true true fun _ => (.connected, .connected), .setOpen 0 0 true,
    .setOpen 0 1 true, .enabledStore [49], .passEvent 0, .passNext 0 false, .passNext 0 false]

example : (run keyboard).delivered = [⟨⟨1, 0, true, true⟩, true⟩] := by decide

end Lacuna.Input
