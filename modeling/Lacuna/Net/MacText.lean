import Lacuna.Net.Privnet

/-!
# The text of a registration

`privnet_store` of `drivers/priv_sysfs/privnet/privnet.c` reads the text that is
written to `add_mac`, `remove_mac` and `delay`, and `priv_nic_register` of QEMU's
`net.c` prints it. A pointer into the text is what is left of it, up to the NUL
that sysfs puts behind it; reading on from there is reading past the buffer, and
the result is `none`. The two loops over the ids stop at what is not a digit, and the
second begins one past where the first has stopped.
-/

namespace Lacuna.Net

open Lacuna.Lib Lacuna.Crypt List

variable {d : Nat}

/-- A digit in `hex2char`. A `char` is signed, but no comparison here depends on it. -/
def hexNibble (c : UInt8) : UInt8 :=
  if 'A'.toUInt8 ≤ c ∧ c ≤ 'F'.toUInt8 then c - 'A'.toUInt8 + 10
  else if 'a'.toUInt8 ≤ c ∧ c ≤ 'f'.toUInt8 then c - 'a'.toUInt8 + 10
  else if '0'.toUInt8 ≤ c ∧ c ≤ '9'.toUInt8 then c - '0'.toUInt8
  else 0

def hex2char (h l : UInt8) : UInt8 := (hexNibble h) <<< 4 + hexNibble l

def isHexDigit (c : UInt8) : Bool :=
  ('0'.toUInt8 ≤ c && c ≤ '9'.toUInt8) || ('a'.toUInt8 ≤ c && c ≤ 'f'.toUInt8) ||
    ('A'.toUInt8 ≤ c && c ≤ 'F'.toUInt8)

/-- A loop over the digits of an id: the id, and the pointer afterwards. -/
def idLoop : List UInt8 → UInt32 → Option (UInt32 × List UInt8)
  | [], _ => none
  | c :: rest, id =>
    if isHexDigit c then idLoop rest (id <<< 4 + (hex2char '0'.toUInt8 c).toUInt32)
    else some (id, c :: rest)

/-- The loop of `atoi_dec`, from the last digit to the first. -/
def atoiLoop (str : List UInt8) : Nat → BitVec 32 → BitVec 32 → Option (BitVec 32)
  | 0, _, res => some res
  | i + 1, weight, res => do
    let c ← str[i]?
    atoiLoop str i (weight * 10) (res + weight * (c.toBitVec.signExtend 32 - 48))

def atoiDec (str : List UInt8) (len : Nat) : Option (BitVec 32) := atoiLoop str len 1 0

def readMac (str : List UInt8) : Option (List UInt8) :=
  (List.range 6).mapM fun i => do
    let h ← str[i * 3]?
    let l ← str[i * 3 + 1]?
    return hex2char h l

inductive PrivnetAttr where
  | addMac
  | removeMac
  | showMacs
  | delay
  deriving DecidableEq

inductive StoreCall where
  | nothing
  | privnetAddMac (mac : List UInt8) (idIn idOut : UInt32)
  | privnetRemoveMac (mac : List UInt8)
  | setDelay (delay : BitVec 32)
  deriving DecidableEq

def privnetStore (attr : PrivnetAttr) (buffer : List UInt8) : Option StoreCall :=
  let size := buffer.length
  let str := buffer ++ [0]
  match attr with
  | .addMac =>
    if size < 17 then some .nothing
    else do
      let mac ← readMac str
      if size < 21 then return .nothing
      else
        let (idIn, i) ← idLoop (str.drop 18) 0
        -- `i++`
        let (idOut, _) ← idLoop (i.drop 1) 0
        return .privnetAddMac mac idIn idOut
  | .removeMac =>
    if size < 17 then some .nothing
    else do
      let mac ← readMac str
      return .privnetRemoveMac mac
  | .showMacs => some .nothing
  | .delay => do
    let delay ← atoiDec str (size - 1)
    return .setDelay delay

/-! ## Printing -/

def upperDigit (d : Nat) : UInt8 :=
  if d < 10 then '0'.toUInt8 + UInt8.ofNat d else 'A'.toUInt8 + UInt8.ofNat (d - 10)

def hexText (n : Nat) : List UInt8 :=
  if n < 16 then [upperDigit n] else hexText (n / 16) ++ [upperDigit (n % 16)]

def hexText02 (n : Nat) : List UInt8 :=
  List.replicate (2 - (hexText n).length) '0'.toUInt8 ++ hexText n

def macText (mac : MacAddr) : List UInt8 :=
  mac.val.flatMap fun b => hexText02 b.toNat ++ [':'.toUInt8]

def registerText (mac : MacAddr) (idIn idOut : UInt32) : List UInt8 :=
  macText mac ++ hexText idIn.toNat ++ [','.toUInt8] ++ hexText idOut.toNat

/-! ## What is printed is read -/

theorem isHexDigit_upperDigit (h : d < 16) : isHexDigit (upperDigit d) = true := by
  have hAll : ∀ d < 16, isHexDigit (upperDigit d) = true := by decide
  exact hAll d h

theorem hexNibble_upperDigit (h : d < 16) : hexNibble (upperDigit d) = UInt8.ofNat d := by
  have hAll : ∀ d < 16, hexNibble (upperDigit d) = UInt8.ofNat d := by decide
  exact hAll d h

theorem hex2char_zero (h : d < 16) : hex2char '0'.toUInt8 (upperDigit d) = UInt8.ofNat d := by
  have hAll : ∀ d < 16, hex2char '0'.toUInt8 (upperDigit d) = UInt8.ofNat d := by decide
  exact hAll d h

theorem hexText02_byte (b : UInt8) :
    hexText02 b.toNat = [upperDigit (b.toNat / 16), upperDigit (b.toNat % 16)] := by
  have hb : b.toNat < 256 := b.toNat_lt
  unfold hexText02
  rw [hexText]
  by_cases hSmall : b.toNat < 16
  · rw [if_pos hSmall, Nat.div_eq_of_lt hSmall, Nat.mod_eq_of_lt hSmall]
    rfl
  · rw [if_neg hSmall, hexText, if_pos (by omega)]
    rfl

theorem hex2char_byte (b : UInt8) :
    hex2char (upperDigit (b.toNat / 16)) (upperDigit (b.toNat % 16)) = b := by
  have hb : b.toNat < 256 := b.toNat_lt
  rw [hex2char, hexNibble_upperDigit (by omega), hexNibble_upperDigit (by omega)]
  refine UInt8.toNat_inj.mp ?_
  simp only [UInt8.toNat_add, UInt8.toNat_shiftLeft, UInt8.toNat_ofNat', Nat.shiftLeft_eq,
    UInt8.reduceToNat, Nat.reduceMod, Nat.reducePow]
  omega

theorem shiftLeft_add_digit (n : Nat) (h : d < 16) :
    UInt32.ofNat n <<< 4 + (UInt8.ofNat d).toUInt32 = UInt32.ofNat (16 * n + d) := by
  refine UInt32.toNat_inj.mp ?_
  simp only [UInt32.toNat_add, UInt32.toNat_shiftLeft, UInt32.toNat_ofNat', Nat.shiftLeft_eq,
    UInt32.reduceToNat, UInt8.toNat_toUInt32, UInt8.toNat_ofNat', Nat.reduceMod, Nat.reducePow]
  omega

theorem idLoop_digit (h : d < 16) (n : Nat) (rest : List UInt8) :
    idLoop (upperDigit d :: rest) (UInt32.ofNat n) = idLoop rest (UInt32.ofNat (16 * n + d)) := by
  rw [idLoop, if_pos (isHexDigit_upperDigit h), hex2char_zero h, shiftLeft_add_digit n h]

theorem idLoop_hexText (n : Nat) (rest : List UInt8) :
    idLoop (hexText n ++ rest) 0 = idLoop rest (UInt32.ofNat n) := by
  induction n using Nat.strong_induction_on generalizing rest with
  | _ n ih =>
  rw [hexText]
  by_cases hSmall : n < 16
  · rw [if_pos hSmall, singleton_append]
    have hDigit := idLoop_digit hSmall 0 rest
    rwa [Nat.mul_zero, Nat.zero_add] at hDigit
  · have hMod : n % 16 < 16 := Nat.mod_lt _ (by decide)
    rw [if_neg hSmall, append_assoc, ih (n / 16) (by omega), singleton_append,
      idLoop_digit hMod, Nat.div_add_mod]

theorem hexText_ne_nil (n : Nat) : hexText n ≠ [] := by
  rw [hexText]
  split
  · exact cons_ne_nil _ _
  · exact append_ne_nil_of_right_ne_nil _ (cons_ne_nil _ _)

theorem readMac_macText (mac : MacAddr) (rest : List UInt8) :
    readMac (macText mac ++ rest) = some mac.val ∧ (macText mac).length = 18 := by
  obtain ⟨m, hm⟩ := mac
  obtain ⟨a, b, c, d, e, f, rfl⟩ : ∃ a b c d e f, m = [a, b, c, d, e, f] := by
    match m, hm with
    | [a, b, c, d, e, f], _ => exact ⟨a, b, c, d, e, f, rfl⟩
  simp only [macText, flatMap_cons, flatMap_nil, hexText02_byte]
  refine ⟨?_, rfl⟩
  show some [hex2char _ _, hex2char _ _, hex2char _ _, hex2char _ _, hex2char _ _, hex2char _ _] = _
  simp only [hex2char_byte]

theorem privnetStore_registerText (mac : MacAddr) (idIn idOut : UInt32) :
    privnetStore .addMac (registerText mac idIn idOut) =
      some (.privnetAddMac mac.val idIn idOut) := by
  have hIn := List.length_pos_iff.mpr (hexText_ne_nil idIn.toNat)
  have hOut := List.length_pos_iff.mpr (hexText_ne_nil idOut.toNat)
  have hStr : registerText mac idIn idOut ++ [0] =
      macText mac ++ (hexText idIn.toNat ++ (','.toUInt8 :: (hexText idOut.toNat ++ [0]))) := by
    simp only [registerText, append_assoc, cons_append, nil_append]
  obtain ⟨hMac, hLen⟩ := readMac_macText mac
    (hexText idIn.toNat ++ (','.toUInt8 :: (hexText idOut.toNat ++ [0])))
  have hSize : 21 ≤ (registerText mac idIn idOut).length := by
    have hAll := congrArg length hStr
    simp only [length_append, length_cons, length_nil, hLen] at hAll
    omega
  have hComma : idLoop (','.toUInt8 :: (hexText idOut.toNat ++ [0])) idIn =
      some (idIn, ','.toUInt8 :: (hexText idOut.toNat ++ [0])) := rfl
  have hEnd : idLoop [0] idOut = some (idOut, [0]) := rfl
  simp only [privnetStore, if_neg (show ¬ (registerText mac idIn idOut).length < 17 by omega),
    if_neg (Nat.not_lt.mpr hSize), hStr, hMac, List.drop_left' hLen, idLoop_hexText,
    UInt32.ofNat_toNat, hComma, Option.bind_eq_bind, Option.bind_some, drop_one,
    tail_cons, hEnd]
  rfl

/-- **The text of a registration is read back**, whatever the address and the
ids. -/
theorem register_text (mac : MacAddr) (idIn idOut : UInt32) :
    privnetStore .addMac (registerText mac idIn idOut) =
      some (.privnetAddMac mac.val idIn idOut) :=
  privnetStore_registerText mac idIn idOut

/-! ## What is read -/

theorem isSome_mapM {α β : Type} {f : α → Option β} {l : List α} (h : ∀ x ∈ l, (f x).isSome) :
    (l.mapM f).isSome := by
  induction l with
  | nil => rfl
  | cons x l ih =>
    obtain ⟨y, hy⟩ := Option.isSome_iff_exists.mp (h x mem_cons_self)
    obtain ⟨ys, hys⟩ := Option.isSome_iff_exists.mp (ih fun z hz => h z (mem_cons_of_mem _ hz))
    rw [mapM_cons, hy, hys]
    rfl

theorem isSome_readMac {str : List UInt8} (h : 17 ≤ str.length) : (readMac str).isSome := by
  refine isSome_mapM fun i hi => ?_
  have hLt : i < 6 := List.mem_range.mp hi
  rw [List.getElem?_eq_getElem (show i * 3 < str.length by omega),
    List.getElem?_eq_getElem (show i * 3 + 1 < str.length by omega)]
  rfl

theorem isSome_atoiLoop {str : List UInt8} {n : Nat} (h : n ≤ str.length) (weight res : BitVec 32) :
    (atoiLoop str n weight res).isSome := by
  induction n generalizing weight res with
  | zero => rfl
  | succ i ih =>
    rw [atoiLoop, List.getElem?_eq_getElem h]
    exact ih (Nat.le_of_succ_le h) _ _

theorem idLoop_stops {digits : List UInt8} (hDigits : ∀ c ∈ digits, isHexDigit c = true) {c : UInt8}
    (hc : isHexDigit c = false) (rest : List UInt8) (id : UInt32) :
    ∃ id', idLoop (digits ++ c :: rest) id = some (id', c :: rest) := by
  induction digits generalizing id with
  | nil =>
    refine ⟨id, ?_⟩
    rw [nil_append, idLoop, hc]
    rfl
  | cons d digits ih =>
    rw [cons_append, idLoop, if_pos (hDigits d mem_cons_self)]
    exact ih (fun c hc => hDigits c (mem_cons_of_mem _ hc)) _

theorem digits_cases (text : List UInt8) :
    (∀ c ∈ text, isHexDigit c = true) ∨ ∃ digits c rest, text = digits ++ c :: rest ∧
      (∀ d ∈ digits, isHexDigit d = true) ∧ isHexDigit c = false := by
  induction text with
  | nil => exact .inl fun _ hMem => absurd hMem not_mem_nil
  | cons x text ih =>
    cases hx : isHexDigit x with
    | false => exact .inr ⟨[], x, text, rfl, fun _ hMem => absurd hMem not_mem_nil, hx⟩
    | true =>
      rcases ih with hAll | ⟨digits, c, rest, rfl, hDigits, hc⟩
      · exact .inl (List.forall_mem_cons.mpr ⟨hx, hAll⟩)
      · exact .inr ⟨x :: digits, c, rest, rfl, List.forall_mem_cons.mpr ⟨hx, hDigits⟩, hc⟩

theorem isSome_idLoop_text (text : List UInt8) (id : UInt32) : (idLoop (text ++ [0]) id).isSome := by
  rcases digits_cases text with hAll | ⟨digits, c, rest, rfl, hDigits, hc⟩
  · obtain ⟨id', h⟩ := idLoop_stops hAll (show isHexDigit 0 = false by decide) [] id
    rw [h]
    rfl
  · obtain ⟨id', h⟩ := idLoop_stops hDigits hc (rest ++ [0]) id
    rw [append_assoc, cons_append, h]
    rfl

theorem isSome_idLoops (text : List UInt8) :
    ((idLoop (text ++ [0]) 0).bind fun r => idLoop (r.2.drop 1) 0).isSome ↔
      ∃ c ∈ text, isHexDigit c = false := by
  rcases digits_cases text with hAll | ⟨digits, c, rest, rfl, hDigits, hc⟩
  · obtain ⟨id', h⟩ := idLoop_stops hAll (show isHexDigit 0 = false by decide) [] 0
    rw [h]
    refine ⟨fun hSome => ?_, ?_⟩
    · cases hSome
    · rintro ⟨c, hMem, hc⟩
      rw [hAll c hMem] at hc
      cases hc
  · obtain ⟨id', h⟩ := idLoop_stops hDigits hc (rest ++ [0]) 0
    rw [append_assoc, cons_append, h]
    refine ⟨fun _ => ⟨c, mem_append_right _ mem_cons_self, hc⟩, fun _ => ?_⟩
    exact isSome_idLoop_text rest 0

/-- **`privnet_store` reads nothing past its buffer** exactly if, in a registration, some byte
after the address is not a digit. -/
theorem store_reads_iff (attr : PrivnetAttr) (buffer : List UInt8) :
    (privnetStore attr buffer).isSome ↔
      (attr = .addMac → 21 ≤ buffer.length → ∃ c ∈ buffer.drop 18, isHexDigit c = false) := by
  have hStr : (buffer ++ [0]).length = buffer.length + 1 := by
    rw [length_append, length_singleton]
  cases attr with
  | addMac =>
    by_cases hMac : buffer.length < 17
    · simp only [privnetStore, if_pos hMac]
      exact ⟨fun _ _ hLong => absurd hLong (by omega), fun _ => rfl⟩
    · obtain ⟨mac, hRead⟩ := Option.isSome_iff_exists.mp
        (@isSome_readMac (buffer ++ [0]) (by omega))
      by_cases hIds : buffer.length < 21
      · simp only [privnetStore, if_neg hMac, hRead, if_pos hIds]
        exact ⟨fun _ _ hLong => absurd hLong (by omega), fun _ => rfl⟩
      · have hDrop : (buffer ++ [0]).drop 18 = buffer.drop 18 ++ [0] :=
          drop_append_of_le_length (by omega)
        have hLoops := isSome_idLoops (buffer.drop 18)
        have hStore : (privnetStore .addMac buffer).isSome ↔
            ((idLoop (buffer.drop 18 ++ [0]) 0).bind fun r => idLoop (r.2.drop 1) 0).isSome := by
          simp only [privnetStore, if_neg hMac, hRead, if_neg hIds, hDrop, Option.bind_eq_bind,
            Option.bind_some]
          cases idLoop (buffer.drop 18 ++ [0]) 0 with
          | none => rfl
          | some r =>
            simp only [Option.bind_some]
            cases idLoop (r.2.drop 1) 0 <;> rfl
        rw [hStore, hLoops]
        exact ⟨fun h _ _ => h, fun h => h rfl (by omega)⟩
  | removeMac =>
    refine ⟨fun _ => nofun, fun _ => ?_⟩
    by_cases hMac : buffer.length < 17
    · simp only [privnetStore, if_pos hMac]
      rfl
    · obtain ⟨mac, hRead⟩ := Option.isSome_iff_exists.mp
        (@isSome_readMac (buffer ++ [0]) (by omega))
      simp only [privnetStore, if_neg hMac, hRead]
      rfl
  | showMacs => exact ⟨fun _ => nofun, fun _ => rfl⟩
  | delay =>
    refine ⟨fun _ => nofun, fun _ => ?_⟩
    obtain ⟨n, hRead⟩ := Option.isSome_iff_exists.mp
      (@isSome_atoiLoop (buffer ++ [0]) (buffer.length - 1) (by omega) 1 0)
    simp only [privnetStore, atoiDec, hRead]
    rfl

/-- After the NUL, where the first loop stops, the second goes on. -/
theorem missing_comma_read_past :
    privnetStore .addMac ("02:00:00:00:00:01,abc".toList.map Char.toUInt8) = none := by
  decide

end Lacuna.Net
