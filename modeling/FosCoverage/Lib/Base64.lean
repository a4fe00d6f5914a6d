import Mathlib.Data.List.Basic

/-!
# Base 64

Bytes as text in the alphabet that may stand in a URL, as `base64.urlsafe_b64encode` writes it and
`base64.urlsafe_b64decode` reads it.

* `encode` turns three bytes into four characters; the last group is filled up with `=`.
* `decode` is the lenient reader: it skips characters outside of the alphabet, takes those of the
  other alphabet (`+` and `/`) as well, and stops at the first padding that completes a group.
* `decode_encode` is the round trip.
-/

set_option autoImplicit false

namespace Base64

/-! ## The alphabet -/

/-- The characters that stand for 0 to 63. -/
def alphabet : List Char :=
  "ABCDEFGHIJKLMNOPQRSTUVWXYZabcdefghijklmnopqrstuvwxyz0123456789-_".toList

/-- The character for six bits. -/
def letter (n : Nat) : Char := alphabet.getD n '='

/-- The six bits a character stands for. -/
def sextet (c : Char) : Option Nat :=
  if c = '+' then some 62 else if c = '/' then some 63 else alphabet.findIdx? (· = c)

/-- A letter is read as the bits it was written for, and it is an ASCII character other than the
padding. -/
theorem letter_spec : ∀ n < 64,
    sextet (letter n) = some n ∧ letter n ≠ '=' ∧ (letter n).toNat < 128 := by
  decide +kernel

theorem sextet_letter (n : Nat) (hn : n < 64) : sextet (letter n) = some n := (letter_spec n hn).1

theorem letter_ne_pad (n : Nat) (hn : n < 64) : letter n ≠ '=' := (letter_spec n hn).2.1

theorem letter_lt (n : Nat) (hn : n < 64) : (letter n).toNat < 128 := (letter_spec n hn).2.2

/-! ## Writing and reading -/

/-- `base64.urlsafe_b64encode` -/
def encode : List UInt8 → List Char
  | [] => []
  | [a] => [letter (a.toNat / 4), letter (a.toNat % 4 * 16), '=', '=']
  | [a, b] =>
    [letter (a.toNat / 4), letter (a.toNat % 4 * 16 + b.toNat / 16), letter (b.toNat % 16 * 4), '=']
  | a :: b :: c :: rest =>
    letter (a.toNat / 4) :: letter (a.toNat % 4 * 16 + b.toNat / 16) ::
      letter (b.toNat % 16 * 4 + c.toNat / 64) :: letter (c.toNat % 64) :: encode rest

/-- The reader in the middle of a group: `quad` characters of it are read, `left` are the bits they
have left over, and `pads` paddings stand behind them. -/
def decodeFrom (quad left pads : Nat) : List Char → Option (List UInt8)
  | [] => if quad = 0 then some [] else none
  | c :: cs =>
    if c = '=' then
      if quad < 2 then decodeFrom quad left pads cs
      else if 4 ≤ quad + (pads + 1) then some []
      else decodeFrom quad left (pads + 1) cs
    else
      match sextet c with
      | none => decodeFrom quad left pads cs
      | some v =>
        match quad with
        | 0 => decodeFrom 1 v 0 cs
        | 1 => (decodeFrom 2 (v % 16) 0 cs).map (UInt8.ofNat (left * 4 + v / 16) :: ·)
        | 2 => (decodeFrom 3 (v % 4) 0 cs).map (UInt8.ofNat (left * 16 + v / 4) :: ·)
        | _ => (decodeFrom 0 0 0 cs).map (UInt8.ofNat (left * 64 + v) :: ·)

/-- `base64.urlsafe_b64decode` -/
def decode (cs : List Char) : Option (List UInt8) := decodeFrom 0 0 0 cs

/-! ## The round trip -/

section Steps

variable {left pads v : Nat} (hv : v < 64) (cs : List Char)

include hv

/-- A letter gives six bits, which complete a byte with those that are left over. -/
theorem decodeFrom_letter (quad : Nat) : decodeFrom quad left pads (letter v :: cs) =
    match quad with
    | 0 => decodeFrom 1 v 0 cs
    | 1 => (decodeFrom 2 (v % 16) 0 cs).map (UInt8.ofNat (left * 4 + v / 16) :: ·)
    | 2 => (decodeFrom 3 (v % 4) 0 cs).map (UInt8.ofNat (left * 16 + v / 4) :: ·)
    | _ => (decodeFrom 0 0 0 cs).map (UInt8.ofNat (left * 64 + v) :: ·) := by
  rw [decodeFrom, if_neg (letter_ne_pad v hv), sextet_letter v hv]

theorem decodeFrom_zero : decodeFrom 0 left pads (letter v :: cs) = decodeFrom 1 v 0 cs :=
  decodeFrom_letter hv cs 0

theorem decodeFrom_one : decodeFrom 1 left pads (letter v :: cs) =
    (decodeFrom 2 (v % 16) 0 cs).map (UInt8.ofNat (left * 4 + v / 16) :: ·) :=
  decodeFrom_letter hv cs 1

theorem decodeFrom_two : decodeFrom 2 left pads (letter v :: cs) =
    (decodeFrom 3 (v % 4) 0 cs).map (UInt8.ofNat (left * 16 + v / 4) :: ·) :=
  decodeFrom_letter hv cs 2

theorem decodeFrom_three : decodeFrom 3 left pads (letter v :: cs) =
    (decodeFrom 0 0 0 cs).map (UInt8.ofNat (left * 64 + v) :: ·) :=
  decodeFrom_letter hv cs 3

end Steps

theorem ofNat_eq {b : UInt8} {n : Nat} (h : n = b.toNat) : UInt8.ofNat n = b := by
  rw [h, UInt8.ofNat_toNat]

/-- **What is written is read back.** -/
theorem decode_encode (bytes : List UInt8) : decode (encode bytes) = some bytes := by
  unfold decode
  fun_induction encode bytes with
  | case1 => rfl
  | case2 a =>
    have ha := a.toNat_lt
    rw [decodeFrom_zero (by omega), decodeFrom_one (by omega)]
    have hpad : decodeFrom 2 (a.toNat % 4 * 16 % 16) 0 ['=', '='] = some [] := rfl
    rw [hpad, Option.map_some, ofNat_eq (b := a) (by omega)]
  | case3 a b =>
    have ha := a.toNat_lt
    have hb := b.toNat_lt
    rw [decodeFrom_zero (by omega), decodeFrom_one (by omega), decodeFrom_two (by omega)]
    have hpad : decodeFrom 3 (b.toNat % 16 * 4 % 4) 0 ['='] = some [] := rfl
    rw [hpad, Option.map_some, Option.map_some, ofNat_eq (b := a) (by omega),
      ofNat_eq (b := b) (by omega)]
  | case4 a b c rest ih =>
    have ha := a.toNat_lt
    have hb := b.toNat_lt
    have hc := c.toNat_lt
    rw [decodeFrom_zero (by omega), decodeFrom_one (by omega), decodeFrom_two (by omega),
      decodeFrom_three (by omega), ih, Option.map_some, Option.map_some, Option.map_some,
      ofNat_eq (b := a) (by omega), ofNat_eq (b := b) (by omega), ofNat_eq (b := c) (by omega)]

/-- What is written is ASCII. -/
theorem lt_of_mem_encode {bytes : List UInt8} {c : Char} (h : c ∈ encode bytes) :
    c.toNat < 128 := by
  fun_induction encode bytes with
  | case1 => cases h
  | case2 a =>
    have ha := a.toNat_lt
    simp only [List.mem_cons, List.not_mem_nil, or_false] at h
    rcases h with rfl | rfl | rfl | rfl
    · exact letter_lt _ (by omega)
    · exact letter_lt _ (by omega)
    · decide
    · decide
  | case3 a b =>
    have ha := a.toNat_lt
    have hb := b.toNat_lt
    simp only [List.mem_cons, List.not_mem_nil, or_false] at h
    rcases h with rfl | rfl | rfl | rfl
    · exact letter_lt _ (by omega)
    · exact letter_lt _ (by omega)
    · exact letter_lt _ (by omega)
    · decide
  | case4 a b c' rest ih =>
    have ha := a.toNat_lt
    have hb := b.toNat_lt
    have hc := c'.toNat_lt
    simp only [List.mem_cons] at h
    rcases h with rfl | rfl | rfl | rfl | h
    · exact letter_lt _ (by omega)
    · exact letter_lt _ (by omega)
    · exact letter_lt _ (by omega)
    · exact letter_lt _ (by omega)
    · exact ih h

/-- Some bytes are some characters. -/
theorem encode_ne_nil {bytes : List UInt8} (h : bytes ≠ []) : encode bytes ≠ [] := by
  fun_cases encode bytes with
  | case1 => exact absurd rfl h
  | case2 => exact List.cons_ne_nil _ _
  | case3 => exact List.cons_ne_nil _ _
  | case4 => exact List.cons_ne_nil _ _

end Base64
