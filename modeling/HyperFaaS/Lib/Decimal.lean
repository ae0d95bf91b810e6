import Mathlib.Data.Nat.Init
import Mathlib.Data.List.Basic

/-!
Decimal numerals as lists of characters, and keys that join them with a separator.
Proved here:

* `parse_decimal`: reading a number that was written gives it back;
* `decimal_digit`: a written number has digits only;
* `split_join`: a key is cut where it was joined, if its parts do not hold the
  separator.
-/

namespace Lib

/-- The digit of a number below ten. -/
def digitChar (n : Nat) : Char := Char.ofNat (48 + n)

/-- The number of a digit. -/
def digitValue (c : Char) : Option Nat :=
  if 48 ≤ c.toNat ∧ c.toNat ≤ 57 then some (c.toNat - 48) else none

/-- Digits of `n` in front of `acc`; the first argument bounds the turns. -/
def decimalLoop : Nat → Nat → List Char → List Char
  | 0, _, acc => acc
  | k + 1, n, acc =>
      if n < 10 then digitChar n :: acc
      else decimalLoop k (n / 10) (digitChar (n % 10) :: acc)

def decimal (n : Nat) : List Char := decimalLoop (n + 1) n []

/-- Read on from the value `v`. -/
def parseLoop : Nat → List Char → Option Nat
  | v, [] => some v
  | v, c :: cs =>
      match digitValue c with
      | some d => parseLoop (10 * v + d) cs
      | none => none

/-- The empty text is no number. -/
def parse : List Char → Option Nat
  | [] => none
  | c :: cs => parseLoop 0 (c :: cs)

variable {n : Nat}

theorem digitValue_digitChar (h : n < 10) : digitValue (digitChar n) = some n := by
  revert n
  decide

theorem decimalLoop_append (k n : Nat) (acc : List Char) :
    decimalLoop k n acc = decimalLoop k n [] ++ acc := by
  induction k generalizing n acc with
  | zero => rfl
  | succ k ih =>
    simp only [decimalLoop]
    split
    · rfl
    · rw [ih (n / 10) (digitChar (n % 10) :: acc), ih (n / 10) [digitChar (n % 10)]]
      simp

theorem parseLoop_append (v : Nat) (cs ds : List Char) :
    parseLoop v (cs ++ ds) = (parseLoop v cs).bind fun u => parseLoop u ds := by
  induction cs generalizing v with
  | nil => rfl
  | cons c cs ih =>
    simp only [List.cons_append, parseLoop]
    cases digitValue c with
    | none => rfl
    | some d => exact ih (10 * v + d)

theorem parseLoop_decimalLoop (k n : Nat) (h : n < k) :
    parseLoop 0 (decimalLoop k n []) = some n := by
  induction k generalizing n with
  | zero => omega
  | succ k ih =>
    simp only [decimalLoop]
    split
    · rename_i hlt
      simp [parseLoop, digitValue_digitChar hlt]
    · rename_i hge
      have hmod : n % 10 < 10 := Nat.mod_lt n (by omega)
      rw [decimalLoop_append, parseLoop_append, ih (n / 10) (by omega)]
      simp only [Option.bind_some, parseLoop, digitValue_digitChar hmod, Option.some.injEq]
      omega

theorem decimalLoop_ne_nil (k n : Nat) (acc : List Char) (hk : 0 < k) :
    decimalLoop k n acc ≠ [] := by
  induction k generalizing n acc with
  | zero => omega
  | succ k ih =>
    simp only [decimalLoop]
    split
    · exact List.cons_ne_nil _ _
    · cases k with
      | zero => exact List.cons_ne_nil _ _
      | succ k => exact ih (n / 10) _ (by omega)

theorem parse_decimal (n : Nat) : parse (decimal n) = some n := by
  have hne := decimalLoop_ne_nil (n + 1) n [] (by omega)
  have hparse := parseLoop_decimalLoop (n + 1) n (by omega)
  unfold decimal at *
  cases hd : decimalLoop (n + 1) n [] with
  | nil => exact absurd hd hne
  | cons c cs =>
    rw [hd] at hparse
    exact hparse

theorem decimal_injective {m : Nat} (h : decimal m = decimal n) : m = n := by
  have hparse := parse_decimal m
  rw [h, parse_decimal n] at hparse
  exact (Option.some.inj hparse).symm

theorem decimalLoop_digit (k n : Nat) (acc : List Char) (c : Char)
    (hc : c ∈ decimalLoop k n acc) : c ∈ acc ∨ ∃ d, d < 10 ∧ c = digitChar d := by
  induction k generalizing n acc with
  | zero => exact .inl hc
  | succ k ih =>
    simp only [decimalLoop] at hc
    split at hc
    · rename_i hlt
      rcases List.mem_cons.mp hc with rfl | hc
      · exact .inr ⟨n, hlt, rfl⟩
      · exact .inl hc
    · rcases ih (n / 10) _ hc with hc | hd
      · rcases List.mem_cons.mp hc with rfl | hc
        · exact .inr ⟨n % 10, Nat.mod_lt n (by omega), rfl⟩
        · exact .inl hc
      · exact .inr hd

theorem decimal_digit {c : Char} (hc : c ∈ decimal n) : ∃ d, d < 10 ∧ c = digitChar d := by
  rcases decimalLoop_digit (n + 1) n [] c hc with hc | hd
  · cases hc
  · exact hd

/-! ## Splitting -/

/-- `strings.Split` at every separator; the first argument is the part read so far. -/
def splitLoop (sep : Char) : List Char → List Char → List (List Char)
  | part, [] => [part]
  | part, c :: cs => if c = sep then part :: splitLoop sep [] cs else splitLoop sep (part ++ [c]) cs

def split (sep : Char) (cs : List Char) : List (List Char) := splitLoop sep [] cs

theorem splitLoop_part (sep : Char) (part cs ds : List Char) (h : sep ∉ cs) :
    splitLoop sep part (cs ++ ds) = splitLoop sep (part ++ cs) ds := by
  induction cs generalizing part with
  | nil => simp
  | cons c cs ih =>
    have hc : c ≠ sep := fun he => h (he ▸ List.mem_cons_self)
    simp only [List.cons_append, splitLoop, if_neg hc]
    rw [ih (part ++ [c]) fun hm => h (List.mem_cons_of_mem c hm)]
    simp

theorem split_single (sep : Char) (cs : List Char) (h : sep ∉ cs) : split sep cs = [cs] := by
  have hpart := splitLoop_part sep [] cs [] h
  simpa [split, splitLoop] using hpart

theorem split_join (sep : Char) (cs ds : List Char) (h : sep ∉ cs) :
    split sep (cs ++ sep :: ds) = cs :: split sep ds := by
  have hpart := splitLoop_part sep [] cs (sep :: ds) h
  simpa [split, splitLoop] using hpart

theorem splitLoop_append (sep : Char) (part cs ds : List Char) :
    splitLoop sep part (cs ++ sep :: ds) = splitLoop sep part cs ++ split sep ds := by
  induction cs generalizing part with
  | nil => simp [splitLoop, split]
  | cons c cs ih =>
    simp only [List.cons_append, splitLoop]
    split
    · rw [ih []]
      rfl
    · exact ih (part ++ [c])

theorem getLast_split (sep : Char) (cs ds : List Char) (h : sep ∉ ds) :
    (split sep (cs ++ sep :: ds)).getLast? = some ds := by
  rw [split, splitLoop_append, split_single sep ds h, List.getLast?_append]
  rfl

end Lib
