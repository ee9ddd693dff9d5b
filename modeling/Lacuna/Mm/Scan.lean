import Mathlib.Data.Nat.ModEq
import Lacuna.Lib.Mem
import Lacuna.Lib.Search
import Lacuna.Mm.Vma

/-!
# Scanning memory for sensitive data

`scan_region` and `scan_physical` of `mm/privos.c` (`CONFIG_DEATH_SCAN`) look for a
token of eight bytes in a region, and in all pages of the physical memory.

`scan_region` stops when eight bytes are left, and so does not look at the last eight:
it finds what there is to be found in the region without its last byte
(`scanRegion_eq`). `scan_physical` counts a page if the number of all tokens found up
to it is not 0.
-/

namespace Lacuna.Mm

open Lacuna.Lib List

def PATTERN_LEN : Nat := 7

def pattern : List UInt8 := [0x17, 0x56, 0x13, 0x4a, 0xef, 0xde, 0xab]

def token : List UInt8 := 2 :: pattern

/-! ## Regions -/

def matchPattern (mem : Mem) (bytes : Nat) : Bool :=
  mem bytes == 2 && load mem (bytes + 1) PATTERN_LEN == pattern

/-- The addresses that `match_pattern` reads, if `memcmp` reads all it may. -/
def matchReads (mem : Mem) (bytes : Nat) : List Nat :=
  bytes :: if mem bytes == 2 then List.range' (bytes + 1) PATTERN_LEN else []

/-- The loop of `scan_region`: the count, and the addresses read. -/
def scanLoop (mem : Mem) (bytes len : Nat) (count : Int32) : Int32 × List Nat :=
  if len > PATTERN_LEN + 1 then
    if matchPattern mem bytes then
      let r := scanLoop mem (bytes + 8) (len - 8) (count + 1)
      (r.1, matchReads mem bytes ++ r.2)
    else
      let r := scanLoop mem (bytes + 1) (len - 1) count
      (r.1, matchReads mem bytes ++ r.2)
  else (count, [])
termination_by len

def scanRegion (mem : Mem) (bytes len : Nat) : Int32 × List Nat := scanLoop mem bytes len 0

section Region

variable {mem : Mem} {bytes len : Nat}

theorem load_token (mem : Mem) (bytes : Nat) :
    load mem bytes 8 = mem bytes :: load mem (bytes + 1) PATTERN_LEN := by
  rw [show (8 : Nat) = 1 + PATTERN_LEN from rfl, load_add]
  rfl

theorem matchPattern_iff (hLen : 8 ≤ len) :
    matchPattern mem bytes = true ↔ token <+: load mem bytes len := by
  have hPrefix : token <+: load mem bytes len ↔ load mem bytes 8 = token := by
    rw [prefix_iff_eq_take, show token.length = 8 from rfl, take_load mem bytes hLen, eq_comm]
  rw [hPrefix, load_token, matchPattern, Bool.and_eq_true, beq_iff_eq, beq_iff_eq, token,
    List.cons.injEq]

theorem dropLast_load (mem : Mem) (bytes len : Nat) :
    (load mem bytes len).dropLast = load mem bytes (len - 1) := by
  rw [dropLast_eq_take, length_load, take_load mem bytes (Nat.sub_le len 1)]

theorem load_cons (mem : Mem) (bytes : Nat) {len : Nat} (hLen : 0 < len) :
    load mem bytes len = mem bytes :: load mem (bytes + 1) (len - 1) := by
  obtain ⟨n, rfl⟩ := Nat.exists_eq_succ_of_ne_zero hLen.ne'
  rw [Nat.succ_eq_add_one, Nat.add_comm n 1, load_add, Nat.add_sub_cancel_left]
  rfl

theorem load_of_match (hLen : 8 ≤ len) (hMatch : matchPattern mem bytes = true) :
    load mem bytes len = token ++ load mem (bytes + 8) (len - 8) := by
  have hToken : load mem bytes 8 = token := by
    rw [← take_load mem bytes hLen]
    exact (List.prefix_iff_eq_take.mp ((matchPattern_iff hLen).mp hMatch)).symm
  obtain ⟨n, rfl⟩ := Nat.exists_eq_add_of_le hLen
  rw [load_add, hToken, Nat.add_sub_cancel_left]

theorem scanLoop_eq (mem : Mem) (bytes len : Nat) (count : Int32) :
    (scanLoop mem bytes len count).1 =
      count + Int32.ofNat (occurrences token (load mem bytes (len - 1))) := by
  fun_induction scanLoop mem bytes len count with
  | case1 bytes len count hLong hMatch r ih =>
    have hLen : 8 ≤ len - 1 := Nat.le_sub_one_of_lt hLong
    have hRest : len - 1 - 8 = len - 8 - 1 := by omega
    have hFound : occurrences token (load mem bytes (len - 1)) =
        occurrences token (load mem (bytes + 8) (len - 8 - 1)) + 1 := by
      rw [load_of_match hLen hMatch, hRest]
      exact occurrences_append 2 pattern _
    show r.1 = _
    rw [ih, hFound, Int32.ofNat_add, Int32.add_assoc, Int32.add_comm (Int32.ofNat _) (Int32.ofNat 1)]
    rfl
  | case2 bytes len count hLong hMatch r ih =>
    have hLen : 8 ≤ len - 1 := Nat.le_sub_one_of_lt hLong
    have hNot : ¬ token <+: load mem bytes (len - 1) := fun h =>
      hMatch ((matchPattern_iff hLen).mpr h)
    rw [load_cons mem bytes (show 0 < len - 1 by omega)] at hNot ⊢
    rw [occurrences_cons_of_not hNot]
    exact ih
  | case3 bytes len count hShort =>
    have hNone : occurrences token (load mem bytes (len - 1)) = 0 := by
      refine occurrences_of_length_lt ?_
      rw [length_load]
      exact Nat.lt_of_le_of_lt (Nat.sub_le_sub_right (Nat.not_lt.mp hShort) 1) (by decide)
    rw [hNone]
    exact (Int32.add_zero count).symm

theorem scanRegion_eq (mem : Mem) (bytes len : Nat) : (scanRegion mem bytes len).1 =
      Int32.ofNat (occurrences token (load mem bytes len).dropLast) := by
  rw [scanRegion, scanLoop_eq, Int32.zero_add, dropLast_load]

theorem scanLoop_reads (mem : Mem) (bytes len : Nat) (count : Int32) :
    ∀ a ∈ (scanLoop mem bytes len count).2, bytes ≤ a ∧ a < bytes + len := by
  have hHere : ∀ bytes len a, len > PATTERN_LEN + 1 → a ∈ matchReads mem bytes →
      bytes ≤ a ∧ a < bytes + len := by
    intro bytes len a hLong ha
    simp only [PATTERN_LEN] at hLong
    rcases List.mem_cons.mp ha with rfl | ha
    · omega
    · split at ha
      · obtain ⟨i, hi, rfl⟩ := List.mem_range'.mp ha
        simp only [PATTERN_LEN] at hi
        omega
      · cases ha
  fun_induction scanLoop mem bytes len count with
  | case1 bytes len count hLong hMatch r ih =>
    intro a ha
    rcases List.mem_append.mp ha with ha | ha
    · exact hHere bytes len a hLong ha
    · have hIn := ih a ha
      simp only [PATTERN_LEN] at hLong
      omega
  | case2 bytes len count hLong hMatch r ih =>
    intro a ha
    rcases List.mem_append.mp ha with ha | ha
    · exact hHere bytes len a hLong ha
    · have hIn := ih a ha
      omega
  | case3 bytes len count hShort =>
    intro a ha
    cases ha

theorem toInt_ofNat_eq_iff {m n : Nat} (h : m ≤ n) :
    (Int32.ofNat m).toInt = n ↔ m = n ∧ n < 2 ^ 31 := by
  rw [Int32.toInt_ofNat', Int.bmod_def, show Int32.size = 4294967296 from rfl]
  omega

end Region

/-! ## Pages -/

def PAGE_OFFSET : Nat := 0xffff880000000000

def pageStart (addrOn : Nat) : Nat := (PAGE_OFFSET + addrOn * PAGE_SIZE) % 2 ^ 64

/-- `matched` and `matched_pages` after the page at an address. -/
def scanPage (mem : Mem) (acc : UInt64 × UInt32) (page : Nat) : UInt64 × UInt32 :=
  let matched := acc.1 + (scanRegion mem page PAGE_SIZE).1.toInt64.toUInt64
  (matched, if matched ≠ 0 then acc.2 + 1 else acc.2)

/-- The loop of `scan_physical`, for so many turns. `kernAddrValid` is `kern_addr_valid`. -/
def scanPhysicalLoop (mem : Mem) (kernAddrValid : Nat → Bool) (totalPages : Nat) :
    Nat → Nat → Nat → UInt64 × UInt32 → Option (UInt64 × UInt32)
  | 0, _, _, _ => none
  | turns + 1, numScanned, addrOn, acc =>
    if numScanned < totalPages then
      if kernAddrValid (pageStart addrOn) then
        scanPhysicalLoop mem kernAddrValid totalPages turns (numScanned + 1) (addrOn + 1)
          (scanPage mem acc (pageStart addrOn))
      else scanPhysicalLoop mem kernAddrValid totalPages turns numScanned (addrOn + 1) acc
    else some acc

def scanPhysical (mem : Mem) (kernAddrValid : Nat → Bool) (totalPages turns : Nat) :
    Option (UInt64 × UInt32) :=
  scanPhysicalLoop mem kernAddrValid totalPages turns 0 0 (0, 0)

/-- The valid pages among `n`, from the page number `addrOn` on. -/
def validPages (kernAddrValid : Nat → Bool) (addrOn n : Nat) : List Nat :=
  ((List.range' addrOn n).map pageStart).filter kernAddrValid

def HasToken (mem : Mem) (page : Nat) : Prop := token <:+: load mem page PAGE_SIZE

instance (mem : Mem) (page : Nat) : Decidable (HasToken mem page) :=
  inferInstanceAs (Decidable (token <:+: load mem page PAGE_SIZE))

def innerTokens (mem : Mem) (page : Nat) : Nat :=
  occurrences token (load mem page PAGE_SIZE).dropLast

/-- The pages, each with the number of such tokens up to it. -/
def tokensSoFar (mem : Mem) : Nat → List Nat → List (Nat × Nat)
  | _, [] => []
  | n, page :: pages =>
    (page, n + innerTokens mem page) :: tokensSoFar mem (n + innerTokens mem page) pages

/-- A token has been found up to this page, as an `unsigned long` can tell. -/
def anyFound (p : Nat × Nat) : Bool := p.2 % 2 ^ 64 != 0

/-- The pages without a token that come behind one where a token was found. -/
def counted (mem : Mem) (pages : List Nat) : Nat :=
  (tokensSoFar mem 0 pages).countP fun p => anyFound p && !decide (HasToken mem p.1)

/-- The pages with a token at their end, behind none where a token was found. -/
def leftOut (mem : Mem) (pages : List Nat) : Nat :=
  (tokensSoFar mem 0 pages).countP fun p => decide (HasToken mem p.1) && !anyFound p

section Pages

variable {mem : Mem} {kernAddrValid : Nat → Bool} {totalPages : Nat}

theorem scanPhysicalLoop_eq {n numScanned : Nat} (addrOn : Nat) (acc : UInt64 × UInt32)
    (hEnough : totalPages - numScanned ≤ (validPages kernAddrValid addrOn n).length) :
    scanPhysicalLoop mem kernAddrValid totalPages (n + 1) numScanned addrOn acc =
      some (((validPages kernAddrValid addrOn n).take (totalPages - numScanned)).foldl
        (scanPage mem) acc) := by
  induction n generalizing numScanned addrOn acc with
  | zero =>
    have hDone : ¬ numScanned < totalPages := by
      have hZero : totalPages - numScanned ≤ 0 := hEnough
      omega
    rw [scanPhysicalLoop, if_neg hDone, Nat.le_zero.mp hEnough]
    rfl
  | succ n ih =>
    by_cases hMore : numScanned < totalPages
    · rw [scanPhysicalLoop, if_pos hMore]
      have hLeft : totalPages - numScanned = (totalPages - (numScanned + 1)) + 1 := by omega
      have hRange : List.range' addrOn (n + 1) = addrOn :: List.range' (addrOn + 1) n :=
        List.range'_succ ..
      by_cases hValid : kernAddrValid (pageStart addrOn) = true
      · have hPages : validPages kernAddrValid addrOn (n + 1) =
            pageStart addrOn :: validPages kernAddrValid (addrOn + 1) n := by
          rw [validPages, hRange, map_cons, filter_cons_of_pos hValid]
          rfl
        rw [hPages, hLeft, length_cons] at hEnough
        rw [if_pos hValid, hPages, hLeft, take_succ_cons, foldl_cons]
        exact ih (addrOn + 1) _ (Nat.le_of_succ_le_succ hEnough)
      · have hPages : validPages kernAddrValid addrOn (n + 1) =
            validPages kernAddrValid (addrOn + 1) n := by
          rw [validPages, hRange, map_cons, filter_cons_of_neg hValid]
          rfl
        rw [hPages] at hEnough ⊢
        rw [if_neg hValid]
        exact ih (addrOn + 1) acc hEnough
    · have hZero : totalPages - numScanned = 0 := by omega
      rw [scanPhysicalLoop, if_neg hMore, hZero]
      rfl

theorem toUInt64_ofNat {n : Nat} (h : n < 2 ^ 31) :
    (Int32.ofNat n).toInt64.toUInt64 = UInt64.ofNat n := by
  have hEq : (Int32.ofNat n).toInt64 = Int64.ofNat n := by
    refine Int64.toInt_inj.mp ?_
    rw [Int32.toInt_toInt64, Int32.toInt_ofNat_of_lt h, Int64.toInt_ofNat_of_lt (by omega)]
  rw [hEq, Int64.toUInt64_ofNat']

theorem scanPage_eq (acc : UInt64 × UInt32) (page : Nat) : scanPage mem acc page =
      (acc.1 + UInt64.ofNat (innerTokens mem page),
        if acc.1 + UInt64.ofNat (innerTokens mem page) ≠ 0 then acc.2 + 1 else acc.2) := by
  have hFew : innerTokens mem page < 2 ^ 31 := by
    have hLe := occurrences_mul_le 2 pattern (load mem page PAGE_SIZE).dropLast
    rw [length_dropLast, length_load] at hLe
    have hPage : innerTokens mem page * 8 ≤ 4095 := hLe
    omega
  rw [scanPage, scanRegion_eq]
  exact congrArg (fun m => (acc.1 + m, if acc.1 + m ≠ 0 then acc.2 + 1 else acc.2))
    (toUInt64_ofNat hFew)

theorem ofNat_ne_zero_iff (page n : Nat) : UInt64.ofNat n ≠ 0 ↔ anyFound (page, n) = true := by
  rw [ne_eq, ← UInt64.toNat_inj, UInt64.toNat_ofNat', UInt64.toNat_zero, anyFound, bne_iff_ne]

theorem scanPages_eq (pages : List Nat) (n : Nat) (count : UInt32) :
    (pages.foldl (scanPage mem) (UInt64.ofNat n, count)).2 =
      count + UInt32.ofNat ((tokensSoFar mem n pages).countP anyFound) := by
  induction pages generalizing n count with
  | nil => exact (UInt32.add_zero count).symm
  | cons page pages ih =>
    rw [foldl_cons, scanPage_eq, tokensSoFar]
    simp only [← UInt64.ofNat_add, ofNat_ne_zero_iff page]
    rw [ih]
    by_cases hFound : anyFound (page, n + innerTokens mem page) = true
    · rw [if_pos hFound, countP_cons_of_pos hFound, UInt32.ofNat_add, UInt32.add_assoc,
        UInt32.add_comm 1]
      rfl
    · rw [if_neg hFound, countP_cons_of_neg hFound]

theorem map_fst_tokensSoFar (n : Nat) (pages : List Nat) :
    (tokensSoFar mem n pages).map Prod.fst = pages := by
  induction pages generalizing n with
  | nil => rfl
  | cons page pages ih => rw [tokensSoFar, map_cons, ih]

theorem countP_balance {β : Type} (p q : β → Bool) (l : List β) :
    l.countP p + l.countP (fun x => q x && !p x) = l.countP q + l.countP fun x => p x && !q x := by
  induction l with
  | nil => rfl
  | cons x l ih =>
    simp only [countP_cons]
    cases p x <;> cases q x <;> simp <;> omega

theorem scanPages_right_iff (pages : List Nat) :
    ((pages.foldl (scanPage mem) (0, 0)).2).toNat = (pages.countP fun page => HasToken mem page) ↔
      (pages.countP fun page => HasToken mem page) < 2 ^ 32 ∧
        counted mem pages ≡ leftOut mem pages [MOD 2 ^ 32] := by
  have hBalance := countP_balance anyFound (fun p => decide (HasToken mem p.1))
    (tokensSoFar mem 0 pages)
  have hPages : (tokensSoFar mem 0 pages).countP (fun p => decide (HasToken mem p.1)) =
      pages.countP fun page => HasToken mem page := by
    conv_rhs => rw [← @map_fst_tokensSoFar mem 0 pages, countP_map, Function.comp_def]
  have hReport : ((pages.foldl (scanPage mem) (0, 0)).2).toNat =
      (tokensSoFar mem 0 pages).countP anyFound % 2 ^ 32 := by
    have hEq := @scanPages_eq mem pages 0 0
    rw [UInt32.zero_add] at hEq
    rw [show (0 : UInt64) = UInt64.ofNat 0 from rfl, hEq, UInt32.toNat_ofNat']
  rw [hPages] at hBalance
  rw [hReport, counted, leftOut]
  generalize (tokensSoFar mem 0 pages).countP anyFound = found at *
  generalize (pages.countP fun page => decide (HasToken mem page)) = right at *
  generalize (tokensSoFar mem 0 pages).countP _ = missed at *
  generalize (tokensSoFar mem 0 pages).countP _ = wrong at *
  rw [Nat.ModEq]
  omega

end Pages

def oneToken : Mem := store (fun _ => 0) (pageStart 0) token

theorem load_oneToken : load oneToken (pageStart 0) PAGE_SIZE = token ++ replicate 4088 0 := by
  rw [show PAGE_SIZE = token.length + 4088 from rfl, load_add, oneToken, load_store_self]
  refine congrArg (token ++ ·) (List.eq_replicate_iff.mpr ⟨length_load .., fun b hb => ?_⟩)
  obtain ⟨i, -, rfl⟩ := List.mem_map.mp hb
  exact store_of_le (Nat.le_add_right _ _)

theorem two_notMem_secondPage : 2 ∉ load oneToken (pageStart 1) PAGE_SIZE := by
  intro hMem
  obtain ⟨i, -, hTwo⟩ := List.mem_map.mp hMem
  have hBehind : pageStart 0 + token.length ≤ pageStart 1 + i :=
    Nat.le_trans (by decide) (Nat.le_add_right _ _)
  rw [oneToken, store_of_le hBehind] at hTwo
  exact absurd hTwo (by decide)

theorem innerTokens_oneToken :
    innerTokens oneToken (pageStart 0) = 1 ∧ innerTokens oneToken (pageStart 1) = 0 := by
  constructor
  · rw [innerTokens, load_oneToken, dropLast_append_of_ne_nil (by decide), token,
      occurrences_append, occurrences_of_notMem]
    intro hMem
    exact absurd (eq_of_mem_replicate (dropLast_subset _ hMem)) (by decide)
  · exact occurrences_of_notMem fun hMem => two_notMem_secondPage (dropLast_subset _ hMem)

theorem hasToken_oneToken :
    HasToken oneToken (pageStart 0) ∧ ¬ HasToken oneToken (pageStart 1) := by
  refine ⟨⟨[], _, load_oneToken.symm⟩, fun hToken => two_notMem_secondPage ?_⟩
  exact hToken.subset mem_cons_self

end Lacuna.Mm
