import Mathlib.Data.List.TakeWhile
import Mathlib.Tactic

/-! The parts of a C++ string library that a fixed-width decimal format rests on:
substr and stoul with the exceptions they throw. A string is the characters before
its terminator. -/

namespace CString

inductive Exception where
  | outOfRange
  | invalidArgument
  deriving DecidableEq, Repr

/-- substr throws when the position lies beyond the end, and shortens the length. -/
def substr (s : List Char) (pos len : Nat) : Except Exception (List Char) :=
  if pos ≤ s.length then .ok ((s.drop pos).take len) else .error .outOfRange

/-- isspace of the C locale. -/
def isSpace (c : Char) : Bool := c = ' ' || (9 ≤ c.toNat && c.toNat ≤ 13)

def splitSign : List Char → Bool × List Char
  | '-' :: s => (true, s)
  | '+' :: s => (false, s)
  | s => (false, s)

/-- What stoul reads after blanks and a sign: the longest run of digits. -/
def numeral (s : List Char) : List Char :=
  (splitSign (s.dropWhile isSpace)).2.takeWhile Char.isDigit

/-- stoul in base ten for a 64-bit unsigned long: a minus sign negates modulo 2^64, and
what follows the digits is ignored. -/
def stoul (s : List Char) : Except Exception Nat :=
  let digits := numeral s
  if digits = [] then .error .invalidArgument
  else
    let value := Nat.ofDigitChars 10 digits 0
    if value < 18446744073709551616 then
      .ok (if (splitSign (s.dropWhile isSpace)).1 then
        (18446744073709551616 - value) % 18446744073709551616 else value)
    else .error .outOfRange

theorem ofDigitChars_lt (l : List Char) (h : ∀ c ∈ l, c.isDigit = true) (n : Nat) :
    Nat.ofDigitChars 10 l n < 10 ^ l.length * (n + 1) := by
  induction l generalizing n with
  | nil => simp
  | cons c l ih =>
      have hc : c.toNat - '0'.toNat ≤ 9 := by
        have hd := h c List.mem_cons_self
        simp only [Char.isDigit, Bool.and_eq_true, decide_eq_true_eq] at hd
        have hle : c.toNat ≤ 57 := hd.2
        have hzero : '0'.toNat = 48 := rfl
        omega
      have ih' := ih (fun d hd => h d (List.mem_cons_of_mem _ hd)) (10 * n + (c.toNat - '0'.toNat))
      rw [Nat.ofDigitChars_cons, List.length_cons, pow_succ]
      calc Nat.ofDigitChars 10 l (10 * n + (c.toNat - '0'.toNat))
          < 10 ^ l.length * (10 * n + (c.toNat - '0'.toNat) + 1) := ih'
        _ ≤ 10 ^ l.length * (10 * (n + 1)) := Nat.mul_le_mul_left _ (by omega)
        _ = 10 ^ l.length * 10 * (n + 1) := by ring

theorem isDigit_of_mem_numeral {s : List Char} : ∀ c ∈ numeral s, c.isDigit = true :=
  fun _ hc => List.mem_takeWhile_imp hc

theorem splitSign_length_le (s : List Char) : (splitSign s).2.length ≤ s.length := by
  unfold splitSign
  split <;> simp

theorem numeral_length_le (s : List Char) : (numeral s).length ≤ s.length := by
  calc (numeral s).length ≤ (splitSign (s.dropWhile isSpace)).2.length :=
        (List.takeWhile_prefix _).length_le
    _ ≤ (s.dropWhile isSpace).length := splitSign_length_le _
    _ ≤ s.length := (List.dropWhile_suffix _).length_le

/-- A short string is accepted exactly when some digit follows the blanks and the sign. -/
theorem stoul_ok_iff {s : List Char} (h : s.length ≤ 19) :
    (∃ n, stoul s = .ok n) ↔ numeral s ≠ [] := by
  have hlt : Nat.ofDigitChars 10 (numeral s) 0 < 18446744073709551616 := by
    have hbound := ofDigitChars_lt (numeral s) isDigit_of_mem_numeral 0
    have hlen := (numeral_length_le s).trans h
    have hpow : 10 ^ (numeral s).length ≤ 10 ^ 19 := Nat.pow_le_pow_right (by omega) hlen
    omega
  unfold stoul
  dsimp only
  by_cases hn : numeral s = []
  · rw [if_pos hn]
    constructor
    · rintro ⟨n, hok⟩
      cases hok
    · intro hne
      exact absurd hn hne
  · rw [if_neg hn, if_pos hlt]
    constructor
    · intro _
      exact hn
    · intro _
      exact ⟨_, rfl⟩

theorem stoul_error {s : List Char} (h : s.length ≤ 19) {e : Exception} (he : stoul s = .error e) :
    e = .invalidArgument := by
  by_cases hn : numeral s = []
  · unfold stoul at he
    dsimp only at he
    rw [if_pos hn] at he
    cases he
    rfl
  · obtain ⟨n, hok⟩ := (stoul_ok_iff h).mpr hn
    rw [hok] at he
    cases he

theorem not_isSpace_of_isDigit {c : Char} (h : c.isDigit = true) : isSpace c = false := by
  simp only [Char.isDigit, Bool.and_eq_true, decide_eq_true_eq] at h
  have hge : 48 ≤ c.toNat := h.1
  have hne : c ≠ ' ' := by
    intro hc
    rw [hc] at hge
    exact absurd hge (by decide)
  simp [isSpace, hne]
  omega

theorem dropWhile_isSpace_digits {s : List Char} (h : ∀ c ∈ s, c.isDigit = true) :
    s.dropWhile isSpace = s := by
  cases s with
  | nil => rfl
  | cons c s =>
      rw [List.dropWhile_cons, not_isSpace_of_isDigit (h c List.mem_cons_self)]
      rfl

theorem splitSign_digits {s : List Char} (h : ∀ c ∈ s, c.isDigit = true) :
    splitSign s = (false, s) := by
  unfold splitSign
  split
  · exact absurd (h _ List.mem_cons_self) (by decide)
  · exact absurd (h _ List.mem_cons_self) (by decide)
  · rfl

theorem numeral_digits {s : List Char} (h : ∀ c ∈ s, c.isDigit = true) : numeral s = s := by
  rw [numeral, dropWhile_isSpace_digits h, splitSign_digits h]
  exact List.takeWhile_eq_self_iff.mpr h

/-- A string of digits is read whole. -/
theorem stoul_digits {s : List Char} (hs : s ≠ []) (h : ∀ c ∈ s, c.isDigit = true)
    (hlt : Nat.ofDigitChars 10 s 0 < 18446744073709551616) :
    stoul s = .ok (Nat.ofDigitChars 10 s 0) := by
  unfold stoul
  dsimp only
  rw [numeral_digits h, if_neg hs, if_pos hlt, dropWhile_isSpace_digits h, splitSign_digits h]
  rfl

/-- The text of a number of a given width, with zeros in front. -/
def zeroPadded (n width : Nat) : List Char :=
  List.replicate (width - (Nat.toDigits 10 n).length) '0' ++ Nat.toDigits 10 n

theorem zeroPadded_length {n width : Nat} (hw : 0 < width) (h : n < 10 ^ width) :
    (zeroPadded n width).length = width := by
  have hle := (Nat.length_toDigits_le_iff (b := 10) (by decide) hw).mpr h
  rw [zeroPadded, List.length_append, List.length_replicate]
  omega

/-- Reading undoes writing, for every number of at most nineteen digits. -/
theorem stoul_zeroPadded {n width : Nat} (hw : 0 < width) (hle : width ≤ 19) (h : n < 10 ^ width) :
    stoul (zeroPadded n width) = .ok n := by
  have hvalue : Nat.ofDigitChars 10 (zeroPadded n width) 0 = n := by
    rw [zeroPadded, Nat.ofDigitChars_append, Nat.ofDigitChars_replicate_zero, Nat.mul_zero,
      Nat.ofDigitChars_ten_toDigits]
  have hdigits : ∀ c ∈ zeroPadded n width, c.isDigit = true := by
    intro c hc
    rcases List.mem_append.mp hc with hc | hc
    · rw [(List.mem_replicate.mp hc).2]
      decide
    · exact Nat.isDigit_of_mem_toDigits (by decide) (by decide) hc
  have hne : zeroPadded n width ≠ [] := by
    apply List.ne_nil_of_length_pos
    rw [zeroPadded_length hw h]
    exact hw
  have hpow : 10 ^ width ≤ 10 ^ 19 := Nat.pow_le_pow_right (by omega) hle
  rw [stoul_digits hne hdigits (by rw [hvalue]; omega), hvalue]

/-- A field is read back from its place, whatever stands around it. -/
theorem substr_field (before field after : List Char) {pos len : Nat} (hp : before.length = pos)
    (hl : field.length = len) : substr (before ++ (field ++ after)) pos len = .ok field := by
  have hle : pos ≤ (before ++ (field ++ after)).length := by
    rw [List.length_append, hp]
    omega
  rw [substr, if_pos hle, List.drop_left' hp, List.take_left' hl]

end CString
