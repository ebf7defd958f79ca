import Mathlib.Data.List.TakeWhile
import FaultChain.Number.Decimal
import FaultChain.Proofs.Text.Basic

/-!
# Decimal integers read back

* `Decimal.Denotes`: the texts that denote an integer of 64 bits.
* `Decimal.parseChars_eq_ok_iff`: what is read is what a text denotes.
* `Decimal.parse_ofInt`: an integer of 64 bits that is written is read back.
* `Decimal.parse_bounds`: what is read is an integer of 64 bits.
* `Decimal.word_ofInt`, `Decimal.word_pad`: a written integer is a word.
-/

namespace FaultChain
namespace Decimal

/-! ## Reading digits -/

theorem le_ofDigitChars (cs : List Char) (acc : Nat) : acc ≤ Nat.ofDigitChars 10 cs acc := by
  induction cs generalizing acc with
  | nil => exact Nat.le_refl _
  | cons c cs ih =>
    rw [Nat.ofDigitChars_cons]
    have hrest := ih (10 * acc + (c.toNat - '0'.toNat))
    omega

theorem next_digit (acc : Nat) (c : Char) :
    acc * 10 + (c.toNat - 48) = 10 * acc + (c.toNat - '0'.toNat) := by
  rw [Nat.mul_comm]
  rfl

/-- Digits are read unless their number is too large. -/
theorem digits_eq_ok {cs : List Char} {acc : Nat} (hdigits : ∀ c ∈ cs, c.isDigit = true)
    (hsmall : Nat.ofDigitChars 10 cs acc < Word64.count) :
    digits acc cs = .ok (Nat.ofDigitChars 10 cs acc) := by
  induction cs generalizing acc with
  | nil => rfl
  | cons c cs ih =>
    obtain ⟨hc, hcs⟩ := List.forall_mem_cons.mp hdigits
    rw [Nat.ofDigitChars_cons] at hsmall ⊢
    -- No intermediate number exceeds the final one.
    have hlt : 10 * acc + (c.toNat - '0'.toNat) < Word64.count :=
      Nat.lt_of_le_of_lt (le_ofDigitChars cs _) hsmall
    simp only [digits, hc, if_true, next_digit, hlt]
    exact ih hcs hsmall

/-- A text of one or more digits. -/
structure Numeral (cs : List Char) : Prop where
  ne_nil : cs ≠ []
  digits : ∀ c ∈ cs, c.isDigit = true

/-- What has been read consists of digits. -/
theorem of_digits_eq_ok {cs : List Char} {acc n : Nat} (h : digits acc cs = .ok n)
    (hacc : acc < Word64.count) :
    (∀ c ∈ cs, c.isDigit = true) ∧ n = Nat.ofDigitChars 10 cs acc ∧ n < Word64.count := by
  induction cs generalizing acc with
  | nil =>
    cases h
    exact ⟨by simp, rfl, hacc⟩
  | cons c cs ih =>
    unfold digits at h
    split at h
    · rename_i hc
      -- The number so far has stayed in range, so one more digit does not wrap around unnoticed.
      simp only [next_digit] at h
      split at h
      · rename_i hlt
        obtain ⟨hcs, hn, hcount⟩ := ih h hlt
        exact ⟨List.forall_mem_cons.mpr ⟨hc, hcs⟩, by rw [Nat.ofDigitChars_cons, hn], hcount⟩
      · cases h
    · cases h

theorem magnitude_eq_ok_iff {cs : List Char} {n : Nat} :
    magnitude cs = .ok n ↔
      Numeral cs ∧ n = Nat.ofDigitChars 10 cs 0 ∧ n < Word64.count := by
  cases cs with
  | nil =>
    constructor
    · intro h
      cases h
    · intro h
      -- No digits at all are no number, although their value would be zero.
      exact absurd rfl h.1.ne_nil
  | cons c cs =>
    constructor
    · intro h
      obtain ⟨hdigits, hn⟩ := of_digits_eq_ok h (by decide)
      exact ⟨⟨by simp, hdigits⟩, hn⟩
    · rintro ⟨hnumeral, rfl, hcount⟩
      exact digits_eq_ok hnumeral.digits hcount

theorem numeral_toDigits (n : Nat) : Numeral (Nat.toDigits 10 n) :=
  ⟨Nat.toDigits_ne_nil, fun _ hc => Nat.isDigit_of_mem_toDigits (by decide) (by decide) hc⟩

theorem ofDigitChars_toDigits (n : Nat) : Nat.ofDigitChars 10 (Nat.toDigits 10 n) 0 = n :=
  Nat.ofDigitChars_toDigits (by decide) (by decide)

theorem ofNat_injective {n m : Nat} (h : ofNat n = ofNat m) : n = m := by
  have hdigits : Nat.toDigits 10 n = Nat.toDigits 10 m := by
    simpa [ofNat] using congrArg String.toList h
  rw [← ofDigitChars_toDigits n, hdigits, ofDigitChars_toDigits]

/-! ## Integers -/

/-- The texts that denote an integer of 64 bits: digits, with or without a sign in front. -/
inductive Denotes : List Char → Int → Prop
  | plain {cs : List Char} (h : Numeral cs) (hsmall : Nat.ofDigitChars 10 cs 0 < Word64.half) :
    Denotes cs (Nat.ofDigitChars 10 cs 0)
  | plus {cs : List Char} (h : Numeral cs) (hsmall : Nat.ofDigitChars 10 cs 0 < Word64.half) :
    Denotes ('+' :: cs) (Nat.ofDigitChars 10 cs 0)
  | minus {cs : List Char} (h : Numeral cs) (hsmall : Nat.ofDigitChars 10 cs 0 ≤ Word64.half) :
    Denotes ('-' :: cs) (-(Nat.ofDigitChars 10 cs 0 : Int))

/-- The step from a number to an integer in its range. -/
theorem bounded_eq_ok_iff {x : Except Fault Nat} {p : Nat → Prop} [DecidablePred p]
    {g : Nat → Int} {i : Int} :
    (x >>= fun n => if p n then .ok (g n) else .error .outOfRange) = Except.ok i ↔
      ∃ n, x = .ok n ∧ p n ∧ g n = i := by
  cases x with
  | error why => simp [bind, Except.bind]
  | ok n => by_cases hn : p n <;> simp [bind, Except.bind, hn]

/-- What is read is what a text denotes. -/
theorem parseChars_eq_ok_iff {cs : List Char} {i : Int} :
    parseChars cs = .ok i ↔ Denotes cs i := by
  have hcount : ∀ {n}, n ≤ Word64.half → n < Word64.count := fun h =>
    Nat.lt_of_le_of_lt h (by decide)
  constructor
  · intro h
    -- A sign decides which range the magnitude has to be in.
    -- What begins with a digit begins with no sign.
    unfold parseChars at h
    split at h <;> obtain ⟨n, hn, hsmall, rfl⟩ := bounded_eq_ok_iff.mp h <;>
      obtain ⟨hnumeral, rfl, -⟩ := magnitude_eq_ok_iff.mp hn
    · exact .minus hnumeral hsmall
    · exact .plus hnumeral hsmall
    · exact .plain hnumeral hsmall
  · intro h
    cases h with
    | plain hnumeral hsmall =>
      have hmagnitude := magnitude_eq_ok_iff.mpr ⟨hnumeral, rfl, hcount (Nat.le_of_lt hsmall)⟩
      unfold parseChars
      split
      · exact absurd (hnumeral.digits '-' (by simp)) (by decide)
      · exact absurd (hnumeral.digits '+' (by simp)) (by decide)
      · exact bounded_eq_ok_iff.mpr ⟨_, hmagnitude, hsmall, rfl⟩
    | plus hnumeral hsmall =>
      exact bounded_eq_ok_iff.mpr
        ⟨_, magnitude_eq_ok_iff.mpr ⟨hnumeral, rfl, hcount (Nat.le_of_lt hsmall)⟩, hsmall, rfl⟩
    | minus hnumeral hsmall =>
      exact bounded_eq_ok_iff.mpr
        ⟨_, magnitude_eq_ok_iff.mpr ⟨hnumeral, rfl, hcount hsmall⟩, hsmall, rfl⟩

/-- An integer of 64 bits that is written is read back. -/
theorem parse_ofInt {i : Int} (hlow : -(Word64.half : Int) ≤ i) (hhigh : i < Word64.half) :
    parse (ofInt i) = .ok i := by
  refine parseChars_eq_ok_iff.mpr ?_
  cases i with
  | ofNat n =>
    have hdenotes := Denotes.plain (numeral_toDigits n)
    rw [ofDigitChars_toDigits] at hdenotes
    simpa [ofInt, ofNat] using hdenotes (by simpa using hhigh)
  | negSucc n =>
    have hn : n + 1 ≤ Word64.half := by
      rw [Int.negSucc_eq] at hlow
      omega
    have hdenotes := Denotes.minus (numeral_toDigits (n + 1))
    rw [ofDigitChars_toDigits] at hdenotes
    simpa [ofInt, ofNat, Int.negSucc_eq] using hdenotes hn

theorem Denotes.bounds {cs : List Char} {i : Int} (h : Denotes cs i) :
    -(Word64.half : Int) ≤ i ∧ i < Word64.half := by
  have hhalf : 0 < Word64.half := by decide
  cases h <;> omega

/-- What is read is an integer of 64 bits. -/
theorem parse_bounds {s : String} {i : Int} (h : parse s = .ok i) :
    -(Word64.half : Int) ≤ i ∧ i < Word64.half :=
  (parseChars_eq_ok_iff.mp h).bounds

/-! ## Written integers are words -/

theorem not_blank_of_isDigit {c : Char} (h : c.isDigit = true) : Text.isBlank c = false := by
  simp only [Char.isDigit, Bool.and_eq_true, decide_eq_true_eq, UInt32.le_iff_toNat_le] at h
  have hlow : 48 ≤ c.toNat := h.1
  have hhigh : c.toNat ≤ 57 := h.2
  simp only [Text.isBlank, Bool.or_eq_false_iff, Bool.and_eq_false_iff, decide_eq_false_iff_not,
    beq_eq_false_iff_ne]
  omega

theorem Numeral.word {cs : List Char} (h : Numeral cs) : Text.Word cs :=
  ⟨h.ne_nil, fun c hc => not_blank_of_isDigit (h.digits c hc)⟩

theorem Denotes.word {cs : List Char} {i : Int} (h : Denotes cs i) : Text.Word cs := by
  have hsigned : ∀ {sign cs}, Text.isBlank sign = false → Numeral cs → Text.Word (sign :: cs) :=
    fun hsign hcs => ⟨by simp, List.forall_mem_cons.mpr ⟨hsign, hcs.word.no_blank⟩⟩
  cases h with
  | plain h _ => exact h.word
  | plus h _ => exact hsigned (by decide) h
  | minus h _ => exact hsigned (by decide) h

theorem word_toDigits (n : Nat) : Text.Word (Nat.toDigits 10 n) := (numeral_toDigits n).word

theorem word_ofInt (i : Int) : Text.Word (ofInt i).toList := by
  cases i with
  | ofNat n => simpa [ofInt, ofNat] using word_toDigits n
  | negSucc n =>
    have hchars : (ofInt (.negSucc n)).toList = '-' :: Nat.toDigits 10 (n + 1) := by
      simp [ofInt, ofNat]
    rw [hchars]
    exact ⟨by simp, List.forall_mem_cons.mpr ⟨by decide, (word_toDigits (n + 1)).no_blank⟩⟩

theorem word_pad (width n : Nat) : Text.Word (pad width n).toList := by
  have hword := word_toDigits n
  simp only [pad, String.toList_ofList]
  refine ⟨by simp [hword.ne_nil], fun c hc => ?_⟩
  rcases List.mem_append.mp hc with hc | hc
  · rw [List.eq_of_mem_replicate hc]
    decide
  · exact hword.no_blank c hc

end Decimal
end FaultChain
