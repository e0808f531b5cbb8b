import MxSdk.Lib.BigEndian
import MxSdk.Vendor.Arithmetic

/-! The vendored `integer` as it is stored: a sign and a deque of bytes, the highest byte
first. The loops over the bytes carry, borrow and shift; each comes to the operation on
numbers that stands for it in the rest of the development. -/

namespace MxSdk.Integer

/-- `gt` past the lengths: the first difference. -/
def gtLoop : Bytes → Bytes → Bool
  | l :: lhs, r :: rhs => if l ≠ r then r < l else gtLoop lhs rhs
  | _, _ => false

/-- `gt`, which does not look at the signs. -/
def gtDigits (lhs rhs : Bytes) : Bool :=
  if lhs.length > rhs.length then true
  else if lhs.length < rhs.length then false
  else if lhs = rhs then false
  else gtLoop lhs rhs

/-- `lt` is `gt` with the comparisons turned round. -/
def ltDigits (lhs rhs : Bytes) : Bool := gtDigits rhs lhs

/-- One digit of a sum, put in front of the digits so far, and the carry. -/
def addTurn (digits : Nat) (out : Bytes × Bool) : Bytes × Bool :=
  let sum := digits + out.2.toNat
  (UInt8.ofNat sum :: out.1, sum > 255)

/-- The digits of both, then the extra digits of either. The lowest digit comes first. -/
def addLoop : Bytes → Bytes → Bytes × Bool → Bytes × Bool
  | l :: lhs, r :: rhs, out => addLoop lhs rhs (addTurn (l.toNat + r.toNat) out)
  | lhs, rhs, out =>
    rhs.foldl (fun out j => addTurn j.toNat out) (lhs.foldl (fun out i => addTurn i.toNat out) out)

def addDigits (lhs rhs : Bytes) : Bytes :=
  let out := addLoop lhs.reverse rhs.reverse ([], false)
  if out.2 then 1 :: out.1 else out.1

/-- The digits above the one that needs a carry: zeros become `NEG1`, up to the digit that
is made smaller. There is none when the search runs out of the deque. -/
def borrow : Bytes → Option Bytes
  | [] => none
  | d :: above => if d = 0 then (borrow above).map (255 :: ·) else some ((d - 1) :: above)

/-- The loop of `long_sub`, the lowest digit first. -/
def subLoop : Bytes → Bytes → Option Bytes
  | lhs, [] => some lhs
  | [], _ :: _ => none
  | l :: lhs, r :: rhs =>
    if l ≥ r then (subLoop lhs rhs).map ((l - r) :: ·)
    else do
      let lhs ← borrow lhs
      let out ← subLoop lhs rhs
      some (UInt8.ofNat (l.toNat + 2 ^ 8 - r.toNat) :: out)

def longSub (lhs rhs : Bytes) : Option Bytes :=
  (subLoop lhs.reverse rhs.reverse).map List.reverse

/-- One digit of a shift, with the bits pulled from the digit below. -/
def pushDigit (push : Nat) (d below : UInt8) : UInt8 :=
  UInt8.ofNat (d.toNat <<< push ||| below.toNat >>> (8 - push))

def pushLoop (push : Nat) : List UInt8 → List UInt8
  | d :: below :: out => pushDigit push d below :: pushLoop push (below :: out)
  | out => out

/-- `operator<<`, on the digits. `dm` of the shift by `BITS` gives the whole digits and the
bits to push. -/
def shiftLeft (value : Bytes) (shift : Nat) : Bytes :=
  if value = [] ∨ shift = 0 then value
  else
    let out := pushLoop (shift % 8) (0 :: (value ++ [0]))
    let out := if out.head? = some 0 then out.tail else out
    if shift / 8 = 0 then out.dropLast else out ++ List.replicate (shift / 8 - 1) 0

open BigEndian

theorem gtLoop_iff {lhs rhs : Bytes} (hlen : lhs.length = rhs.length) :
    gtLoop lhs rhs = true ↔ value rhs < value lhs := by
  induction lhs generalizing rhs with
  | nil =>
    rw [List.length_eq_zero_iff.mp hlen.symm]
    simp [gtLoop]
  | cons l lhs ih =>
    cases rhs with
    | nil => cases hlen
    | cons r rhs =>
      have hrest : lhs.length = rhs.length := Nat.succ.inj hlen
      rw [gtLoop]
      split
      · next hne =>
        by_cases hlt : r < l
        · exact iff_of_true (decide_eq_true hlt) (value_lt_of_first hrest.symm hlt)
        · have hgt : l < r := by
            have hnat : l.toNat ≠ r.toNat := fun h => hne (UInt8.toNat_inj.mp h)
            rw [UInt8.lt_iff_toNat_lt] at hlt ⊢
            omega
          exact iff_of_false (by simp [hlt]) (value_lt_of_first hrest hgt).not_gt
      · next heq =>
        have hlr : l = r := not_not.mp heq
        rw [ih hrest, value_cons, value_cons, hlr, hrest]
        omega

theorem gtDigits_iff {lhs rhs : Bytes} (hl : Trimmed lhs) (hr : Trimmed rhs) :
    gtDigits lhs rhs = true ↔ value rhs < value lhs := by
  rw [gtDigits]
  split_ifs with hgt hlt heq
  · exact iff_of_true rfl (hl.value_lt_of_length hgt)
  · exact iff_of_false (by simp) (hr.value_lt_of_length hlt).not_gt
  · rw [heq]
    simp
  · exact gtLoop_iff (by omega)

theorem ltDigits_iff {lhs rhs : Bytes} (hl : Trimmed lhs) (hr : Trimmed rhs) :
    ltDigits lhs rhs = true ↔ value lhs < value rhs := gtDigits_iff hr hl

/-- The number of a sum so far, and of what is to come above it. -/
def sumValue (out : Bytes × Bool) (above : Nat) : Nat :=
  value out.1 + (out.2.toNat + above) * 256 ^ out.1.length

theorem sumValue_turn {digits : Nat} (h : digits ≤ 2 * 255) (out : Bytes × Bool) (above : Nat) :
    sumValue (addTurn digits out) above = sumValue out (digits + 256 * above) := by
  obtain ⟨ds, carry⟩ := out
  have hcarry := carry.toNat_le
  have hsplit : (UInt8.ofNat (digits + carry.toNat)).toNat +
      256 * (decide (digits + carry.toNat > 255)).toNat = digits + carry.toNat := by
    rw [UInt8.toNat_ofNat']
    by_cases hsum : digits + carry.toNat > 255
    · simp only [hsum, decide_true, Bool.toNat_true]
      omega
    · simp only [hsum, decide_false, Bool.toNat_false]
      omega
  calc sumValue (addTurn digits (ds, carry)) above
      = value ds + ((UInt8.ofNat (digits + carry.toNat)).toNat +
          256 * (decide (digits + carry.toNat > 255)).toNat + 256 * above) * 256 ^ ds.length := by
        simp only [sumValue, addTurn, value_cons, List.length_cons, Nat.pow_succ]
        ring
    _ = sumValue (ds, carry) (digits + 256 * above) := by
        rw [hsplit, sumValue]
        ring

theorem sumValue_foldl (ds : Bytes) (out : Bytes × Bool) (above : Nat) :
    sumValue (ds.foldl (fun out i => addTurn i.toNat out) out) above =
      sumValue out (value ds.reverse + above * 256 ^ ds.length) := by
  induction ds generalizing out with
  | nil => simp [value]
  | cons d ds ih =>
    have hd : d.toNat < 256 := d.toNat_lt
    have habove : d.toNat + 256 * (value ds.reverse + above * 256 ^ ds.length) =
        value (d :: ds).reverse + above * 256 ^ (d :: ds).length := by
      rw [value_reverse_cons, List.length_cons, Nat.pow_succ]
      ring
    rw [List.foldl_cons, ih, sumValue_turn (by omega), habove]

theorem sumValue_loop (lhs rhs : Bytes) (out : Bytes × Bool) :
    sumValue (addLoop lhs rhs out) 0 = sumValue out (value lhs.reverse + value rhs.reverse) := by
  induction lhs generalizing rhs out with
  | nil =>
    have hloop : addLoop [] rhs out = rhs.foldl (fun out j => addTurn j.toNat out) out := by
      cases rhs <;> rfl
    rw [hloop, sumValue_foldl]
    simp [value]
  | cons l lhs ih =>
    cases rhs with
    | nil =>
      have hloop : addLoop (l :: lhs) [] out =
          (l :: lhs).foldl (fun out i => addTurn i.toNat out) out := rfl
      rw [hloop, sumValue_foldl]
      simp [value]
    | cons r rhs =>
      have hl : l.toNat < 256 := l.toNat_lt
      have hr : r.toNat < 256 := r.toNat_lt
      have habove : l.toNat + r.toNat + 256 * (value lhs.reverse + value rhs.reverse) =
          value (l :: lhs).reverse + value (r :: rhs).reverse := by
        rw [value_reverse_cons, value_reverse_cons]
        ring
      rw [addLoop, ih, sumValue_turn (by omega), habove]

theorem value_addDigits (lhs rhs : Bytes) :
    value (addDigits lhs rhs) = value lhs + value rhs := by
  have hloop := sumValue_loop lhs.reverse rhs.reverse ([], false)
  rw [List.reverse_reverse, List.reverse_reverse] at hloop
  simp only [addDigits]
  generalize addLoop lhs.reverse rhs.reverse ([], false) = out at hloop ⊢
  obtain ⟨ds, carry⟩ := out
  cases carry with
  | false => simpa [sumValue, value] using hloop
  | true =>
    rw [if_pos rfl, value_cons]
    simpa [sumValue, value, Nat.add_comm] using hloop

theorem borrow_spec {ds : Bytes} (h : 0 < value ds.reverse) : ∃ out, borrow ds = some out ∧
    out.length = ds.length ∧ value out.reverse + 1 = value ds.reverse := by
  induction ds with
  | nil => cases h
  | cons d ds ih =>
    rw [value_reverse_cons] at h
    by_cases hd : d = 0
    · subst hd
      obtain ⟨out, hout, hlen, hvalue⟩ := ih (by simpa using h)
      refine ⟨255 :: out, by simp [borrow, hout], by simp [hlen], ?_⟩
      rw [value_reverse_cons, value_reverse_cons]
      change 256 * value out.reverse + 255 + 1 = 256 * value ds.reverse + 0
      omega
    · have hpos : 0 < d.toNat := Nat.pos_of_ne_zero fun hzero => hd (UInt8.toNat_inj.mp hzero)
      have hle : (1 : UInt8) ≤ d := UInt8.le_iff_toNat_le.mpr hpos
      refine ⟨(d - 1) :: ds, by simp [borrow, hd], rfl, ?_⟩
      rw [value_reverse_cons, value_reverse_cons, UInt8.toNat_sub_of_le _ _ hle]
      change 256 * value ds.reverse + (d.toNat - 1) + 1 = _
      omega

theorem subLoop_spec {lhs rhs : Bytes} (hlen : rhs.length ≤ lhs.length)
    (h : value rhs.reverse ≤ value lhs.reverse) :
    ∃ out, subLoop lhs rhs = some out ∧ value out.reverse + value rhs.reverse =
      value lhs.reverse := by
  induction rhs generalizing lhs with
  | nil => exact ⟨lhs, by cases lhs <;> rfl, by simp [value]⟩
  | cons r rhs ih =>
    cases lhs with
    | nil => cases hlen
    | cons l lhs =>
      have hl : l.toNat < 256 := l.toNat_lt
      have hr : r.toNat < 256 := r.toNat_lt
      have hrest : rhs.length ≤ lhs.length := Nat.le_of_succ_le_succ hlen
      simp only [value_reverse_cons] at h ⊢
      rw [subLoop]
      by_cases hle : r ≤ l
      · have hnat := UInt8.le_iff_toNat_le.mp hle
        obtain ⟨out, hout, hvalue⟩ := ih hrest (by omega)
        refine ⟨(l - r) :: out, by simp [hle, hout], ?_⟩
        rw [value_reverse_cons, UInt8.toNat_sub_of_le _ _ hle]
        omega
      · have hnat : l.toNat < r.toNat := by
          rw [UInt8.le_iff_toNat_le] at hle
          omega
        obtain ⟨above, habove, hsame, hone⟩ := borrow_spec (show 0 < value lhs.reverse by omega)
        obtain ⟨out, hout, hvalue⟩ := ih (hsame ▸ hrest) (by omega)
        refine ⟨UInt8.ofNat (l.toNat + 2 ^ 8 - r.toNat) :: out, by simp [hle, habove, hout], ?_⟩
        rw [value_reverse_cons, UInt8.toNat_ofNat']
        omega

/-- The search for a digit to carry from stays inside the deque. -/
theorem longSub_spec {lhs rhs : Bytes} (hl : Trimmed lhs) (hr : Trimmed rhs)
    (h : gtDigits lhs rhs = true) :
    ∃ out, longSub lhs rhs = some out ∧ value out = value lhs - value rhs := by
  have hlt := (gtDigits_iff hl hr).mp h
  have hlen : rhs.length ≤ lhs.length := by
    by_contra hnot
    exact absurd (hr.value_lt_of_length (Nat.not_le.mp hnot)) hlt.not_gt
  obtain ⟨out, hout, hvalue⟩ :=
    @subLoop_spec lhs.reverse rhs.reverse (by simpa using hlen) (by simpa using hlt.le)
  refine ⟨out.reverse, by simp [longSub, hout], ?_⟩
  rw [List.reverse_reverse, List.reverse_reverse] at hvalue
  omega

theorem toNat_pushDigit {push : Nat} (h : push < 8) (d below : UInt8) :
    (pushDigit push d below).toNat =
      d.toNat * 2 ^ push % 256 + below.toNat / 2 ^ (8 - push) := by
  have hd : d.toNat < 256 := d.toNat_lt
  have hbelow : below.toNat < 256 := below.toNat_lt
  have hlow : below.toNat >>> (8 - push) < 2 ^ push := by
    rw [Nat.shiftRight_eq_div_pow]
    interval_cases push <;> omega
  rw [pushDigit, UInt8.toNat_ofNat', ← Nat.shiftLeft_add_eq_or_of_lt hlow, Nat.shiftLeft_eq,
    Nat.shiftRight_eq_div_pow]
  interval_cases push <;> omega

theorem push_split {push : Nat} (h : push < 8) (d : Nat) :
    d * 2 ^ push = d * 2 ^ push % 256 + 256 * (d / 2 ^ (8 - push)) := by
  interval_cases push <;> omega

theorem length_pushLoop (push : Nat) (ds : Bytes) :
    (pushLoop push ds).length = ds.length := by
  induction ds using pushLoop.induct with
  | case1 d below out ih =>
    rw [pushLoop, List.length_cons, ih]
    rfl
  | case2 out hnot => rw [pushLoop]; exact hnot

/-- The bits pushed out of the first digit are missing, nothing else is. -/
theorem pushLoop_spec {push : Nat} (h : push < 8) (d : UInt8) (ds : Bytes) :
    ∃ out, pushLoop push (d :: (ds ++ [0])) = out ++ [0] ∧ out ≠ [] ∧
      value out + d.toNat / 2 ^ (8 - push) * 256 ^ (ds.length + 1) =
        value (d :: ds) * 2 ^ push := by
  induction ds generalizing d with
  | nil =>
    refine ⟨[pushDigit push d 0], rfl, List.cons_ne_nil _ _, ?_⟩
    have hsplit := push_split h d.toNat
    rw [value_cons, value_cons, toNat_pushDigit h]
    simp only [value, List.foldl_nil, List.length_nil, UInt8.toNat_zero, Nat.zero_div,
      Nat.pow_zero, Nat.mul_one, Nat.add_zero, Nat.zero_add, Nat.pow_one]
    omega
  | cons e ds ih =>
    obtain ⟨out, hout, -, hvalue⟩ := ih e
    refine ⟨pushDigit push d e :: out, by rw [List.cons_append, pushLoop, hout]; rfl,
      List.cons_ne_nil _ _, ?_⟩
    have hlen : out.length = ds.length + 1 := by
      have hboth := congrArg List.length hout
      rw [length_pushLoop] at hboth
      simpa using hboth.symm
    have hsplit := push_split h d.toNat
    calc value (pushDigit push d e :: out) +
          d.toNat / 2 ^ (8 - push) * 256 ^ ((e :: ds).length + 1)
        = (d.toNat * 2 ^ push % 256 + 256 * (d.toNat / 2 ^ (8 - push))) * 256 ^ (ds.length + 1) +
            (value out + e.toNat / 2 ^ (8 - push) * 256 ^ (ds.length + 1)) := by
          rw [value_cons, toNat_pushDigit h, hlen, List.length_cons]
          ring
      _ = value (d :: e :: ds) * 2 ^ push := by
          rw [← hsplit, hvalue, value_cons d, List.length_cons]
          ring

theorem exists_stripped {front : Bytes} (hne : front ≠ []) : ∃ out : Bytes,
    (if (front ++ [0]).head? = some 0 then (front ++ [0]).tail else front ++ [0]) = out ++ [0] ∧
      value out = value front := by
  cases front with
  | nil => exact absurd rfl hne
  | cons b front =>
    by_cases hb : b = 0
    · exact ⟨front, by simp [hb], by simp [value_cons, hb]⟩
    · exact ⟨b :: front, by simp [hb], rfl⟩

theorem value_shiftLeft (ds : Bytes) (shift : Nat) :
    value (shiftLeft ds shift) = value ds * 2 ^ shift := by
  rw [shiftLeft]
  split
  · next h =>
    rcases h with rfl | rfl
    · simp [value]
    · simp
  · obtain ⟨front, hfront, hne, hvalue⟩ :=
      pushLoop_spec (Nat.mod_lt shift (by decide)) 0 ds
    rw [UInt8.toNat_zero, Nat.zero_div, Nat.zero_mul, Nat.add_zero, value_cons, UInt8.toNat_zero,
      Nat.zero_mul, Nat.zero_add] at hvalue
    obtain ⟨out, hout, hsame⟩ := exists_stripped hne
    simp only [hfront, hout]
    have hpow : 2 ^ shift = 2 ^ (shift % 8) * 256 ^ (shift / 8) := by
      rw [show (256 : Nat) = 2 ^ 8 from rfl, ← Nat.pow_mul, ← Nat.pow_add, Nat.mod_add_div]
    rw [hpow, ← Nat.mul_assoc, ← hvalue, ← hsame]
    split
    · next hwhole => rw [List.dropLast_concat, hwhole, Nat.pow_zero, Nat.mul_one]
    · next hwhole =>
      have hzeros : [(0 : UInt8)] ++ List.replicate (shift / 8 - 1) 0 =
          List.replicate (shift / 8) 0 := by
        rw [List.singleton_append, ← List.replicate_succ, Nat.sub_add_cancel (by omega)]
      rw [List.append_assoc, hzeros, value_append, value_replicate_zero, List.length_replicate,
        Nat.add_zero]

end MxSdk.Integer
