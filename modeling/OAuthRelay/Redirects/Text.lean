import Mathlib.Algebra.Group.Nat.Defs
import Mathlib.Data.List.Basic

/-!
# Splitting texts and reading addresses

Texts are lists of characters. Splitting a text at a separator gives what stands before it and
what stands after it. IP addresses and port numbers are read as a standard library reads them:
an IPv6 address is eight groups of hexadecimal digits, with one run of zero groups left out if
`::` stands for it, and the last two groups perhaps written as an IPv4 address.
-/

set_option autoImplicit false

namespace OAuthRelay.Text

/-- The characters of a text are looked at one by one. -/
instance (priority := 2000) decidableForallMem (text : List Char) (p : Char → Prop)
    [DecidablePred p] : Decidable (∀ c ∈ text, p c) :=
  List.decidableBAll p text

instance (priority := 2000) decidableForallMemOption (first : Option Char) (p : Char → Prop)
    [DecidablePred p] : Decidable (∀ c ∈ first, p c) :=
  Option.decidableForallMem first

/-! ## Splitting -/

section Splitting

variable {α : Type} [DecidableEq α]

/-- What stands before and after the first occurrence of the separator. -/
def splitOnce (separator : List α) : List α → Option (List α × List α)
  | [] => if separator = [] then some ([], []) else none
  | x :: xs =>
      if separator.isPrefixOf (x :: xs) then some ([], (x :: xs).drop separator.length)
      else (splitOnce separator xs).map fun parts => (x :: parts.1, parts.2)

/-- What stands before and after the last occurrence of an element. -/
def rsplitOnce (separator : α) (text : List α) : Option (List α × List α) :=
  (splitOnce [separator] text.reverse).map fun parts => (parts.2.reverse, parts.1.reverse)

theorem append_of_splitOnce {separator text before after : List α}
    (parts : splitOnce separator text = some (before, after)) :
    text = before ++ separator ++ after := by
  induction text generalizing before with
  | nil =>
      unfold splitOnce at parts
      split at parts
      · rename_i empty
        cases parts
        rw [empty]
        rfl
      · cases parts
  | cons x xs ih =>
      unfold splitOnce at parts
      split at parts
      · rename_i found
        cases parts
        obtain ⟨rest, whole⟩ := List.isPrefixOf_iff_prefix.mp found
        rw [← whole, List.drop_left, List.nil_append]
      · obtain ⟨⟨first, second⟩, found, same⟩ := Option.map_eq_some_iff.mp parts
        cases same
        rw [ih found]
        rfl

theorem append_of_rsplitOnce {separator : α} {text before after : List α}
    (parts : rsplitOnce separator text = some (before, after)) :
    text = before ++ separator :: after := by
  obtain ⟨⟨first, second⟩, found, same⟩ := Option.map_eq_some_iff.mp parts
  cases same
  have whole := congrArg List.reverse (append_of_splitOnce found)
  simpa using whole

/-- A text without the separator is not split. -/
theorem splitOnce_eq_none {separator : α} {text : List α} (plain : separator ∉ text) :
    splitOnce [separator] text = none := by
  induction text with
  | nil => rfl
  | cons x rest ih =>
      have other : ¬ [separator].isPrefixOf (x :: rest) = true := by
        intro found
        simp only [List.isPrefixOf, Bool.and_true, beq_iff_eq] at found
        exact plain (found ▸ List.mem_cons_self ..)
      rw [splitOnce, if_neg other, ih (plain ∘ List.mem_cons_of_mem _), Option.map_none]

/-- **Splitting undoes appending**, if the separator does not begin any earlier. -/
theorem splitOnce_append {first : α} {others before : List α} (plain : first ∉ before)
    (after : List α) : splitOnce (first :: others) (before ++ first :: others ++ after) =
      some (before, after) := by
  induction before with
  | nil =>
      rw [List.nil_append, List.cons_append, splitOnce, if_pos]
      · rw [← List.cons_append, List.drop_left]
      · exact List.isPrefixOf_iff_prefix.mpr (List.prefix_append _ _)
  | cons x rest ih =>
      have other : ¬ (first :: others).isPrefixOf (x :: (rest ++ first :: others ++ after)) =
          true := by
        intro found
        simp only [List.isPrefixOf, Bool.and_eq_true, beq_iff_eq] at found
        exact plain (found.1 ▸ List.mem_cons_self ..)
      rw [List.cons_append, List.cons_append, splitOnce, if_neg other,
        ih (plain ∘ List.mem_cons_of_mem _), Option.map_some]

theorem rsplitOnce_eq_none {separator : α} {text : List α} (plain : separator ∉ text) :
    rsplitOnce separator text = none := by
  rw [rsplitOnce, splitOnce_eq_none (by simpa using plain), Option.map_none]

theorem rsplitOnce_append {separator : α} {after : List α} (plain : separator ∉ after)
    (before : List α) :
    rsplitOnce separator (before ++ separator :: after) = some (before, after) := by
  have reversed : (before ++ separator :: after).reverse =
      after.reverse ++ [separator] ++ before.reverse := by simp
  rw [rsplitOnce, reversed, splitOnce_append (by simpa using plain), Option.map_some,
    List.reverse_reverse, List.reverse_reverse]

/-- The separator is somewhere in a text that is split. -/
theorem splitOnce_isSome {separator text : List α} :
    (splitOnce separator text).isSome = true ↔ separator <:+: text := by
  constructor
  · intro found
    obtain ⟨⟨before, after⟩, parts⟩ := Option.isSome_iff_exists.mp found
    exact ⟨before, after, (append_of_splitOnce parts).symm⟩
  · rintro ⟨before, after, whole⟩
    induction text generalizing before with
    | nil =>
        have empty : separator = [] := by
          simp only [List.append_eq_nil_iff] at whole
          exact whole.1.2
        simp [splitOnce, empty]
    | cons x rest ih =>
        unfold splitOnce
        split
        · rfl
        · rename_i other
          cases before with
          | nil =>
              rw [List.nil_append] at whole
              rw [← whole] at other
              exact absurd (List.isPrefixOf_iff_prefix.mpr (List.prefix_append _ _)) other
          | cons y before =>
              simp only [List.cons_append, List.cons.injEq] at whole
              rw [Option.isSome_map]
              exact ih before whole.2

end Splitting

/-- A text without regard to ASCII case. -/
def lower (text : List Char) : List Char := text.map Char.toLower

/-- A character that is no letter has only itself for its lowercase form. -/
theorem eq_of_toLower_eq {c d : Char} (same : c.toLower = d)
    (plain : d.toNat < 65 ∨ 122 < d.toNat) : c = d := by
  subst same
  unfold Char.toLower at plain ⊢
  split at plain
  · rename_i upper
    have low := UInt32.le_iff_toNat_le.mp upper.1
    have high := UInt32.le_iff_toNat_le.mp upper.2
    simp only [Char.toNat, UInt32.toNat_add] at plain low high
    simp at plain low high
    omega
  · rename_i other
    rw [dif_neg other]

/-- Texts that differ in case only have the same characters that are no letters. -/
theorem mem_of_lower_eq {text text' : List Char} (same : lower text = lower text') {c : Char}
    (plain : c.toNat < 65 ∨ 122 < c.toNat) (unchanged : c.toLower = c) (member : c ∈ text) :
    c ∈ text' := by
  have inside : c ∈ lower text' := by
    rw [← same]
    exact List.mem_map.mpr ⟨c, member, unchanged⟩
  obtain ⟨d, there, lowered⟩ := List.mem_map.mp inside
  rwa [← eq_of_toLower_eq lowered plain]

/-! ## Numbers -/

/-- The value of a digit. -/
def digit (radix : ℕ) (c : Char) : Option ℕ :=
  let value :=
    if '0' ≤ c ∧ c ≤ '9' then some (c.toNat - '0'.toNat)
    else if 'a' ≤ c ∧ c ≤ 'z' then some (c.toNat - 'a'.toNat + 10)
    else if 'A' ≤ c ∧ c ≤ 'Z' then some (c.toNat - 'A'.toNat + 10)
    else none
  value.filter (· < radix)

def numeral (radix : ℕ) (digits : List Char) : ℕ :=
  digits.foldl (fun value c => value * radix + (digit radix c).getD 0) 0

/-- Reads a number below a bound that has some digits, but not too many. -/
def readNumber (radix maxDigits bound : ℕ) (zeroPrefix : Bool) (text : List Char) :
    Option (ℕ × List Char) :=
  let digits := text.takeWhile fun c => (digit radix c).isSome
  if digits = [] ∨ maxDigits < digits.length then none
  else if !zeroPrefix && digits.head? = some '0' && 1 < digits.length then none
  else if numeral radix digits < bound then some (numeral radix digits, text.drop digits.length)
  else none

/-- `parse::<u16>()`. -/
def parseU16 (text : List Char) : Option ℕ :=
  let digits := if text.head? = some '+' then text.tail else text
  if digits ≠ [] ∧ digits.all (fun c => (digit 10 c).isSome) ∧ numeral 10 digits < 2 ^ 16 then
    some (numeral 10 digits)
  else none

theorem digit_ten {c : Char} (isDigit : c.isDigit = true) :
    digit 10 c = some (c.toNat - '0'.toNat) := by
  have bounds := isDigit
  simp only [Char.isDigit, Bool.and_eq_true, decide_eq_true_eq] at bounds
  have low : '0' ≤ c := bounds.1
  have high : c ≤ '9' := bounds.2
  have value : c.toNat ≤ '9'.toNat := high
  have small : c.toNat - '0'.toNat < 10 := by
    have nine : '9'.toNat = 57 := rfl
    have zero : '0'.toNat = 48 := rfl
    omega
  simp only [digit, low, high, and_self, if_true]
  exact Option.filter_some_pos (decide_eq_true small)

theorem numeral_eq_ofDigitChars {digits : List Char} (all : digits.all Char.isDigit = true)
    (value : ℕ) : digits.foldl (fun value c => value * 10 + (digit 10 c).getD 0) value =
      Nat.ofDigitChars 10 digits value := by
  induction digits generalizing value with
  | nil => rfl
  | cons c rest ih =>
      rw [List.all_cons, Bool.and_eq_true] at all
      rw [List.foldl_cons, ih all.2, Nat.ofDigitChars_cons, digit_ten all.1, Option.getD_some,
        Nat.mul_comm]

theorem isDigit_toString (n : ℕ) : (toString n).toList.all Char.isDigit = true := by
  rw [List.all_eq_true]
  intro c inside
  rw [Nat.toString_eq_ofList_toDigits, String.toList_ofList] at inside
  exact Nat.isDigit_of_mem_toDigits (by decide) (by decide) inside

theorem toString_ne_nil (n : ℕ) : (toString n).toList ≠ [] := by
  rw [Nat.toString_eq_ofList_toDigits, String.toList_ofList]
  exact Nat.toDigits_ne_nil

/-- A number is not written with zeros in front. -/
theorem head?_toString (n : ℕ) : (toString n).toList = ['0'] ∨
    (toString n).toList.head? ≠ some '0' := by
  rw [Nat.toString_eq_ofList_toDigits, String.toList_ofList]
  induction n using Nat.strongRecOn with
  | ind n ih =>
      by_cases small : n < 10
      · rw [Nat.toDigits_of_lt_base small]
        by_cases zero : n = 0
        · exact .inl (by rw [zero]; rfl)
        · refine .inr ?_
          rw [List.head?_cons, ne_eq, Option.some.injEq]
          intro same
          have values : ∀ m < 10, Nat.digitChar m = '0' → m = 0 := by decide
          exact zero (values n small same)
      · rw [Nat.toDigits_of_base_le (by decide) (by omega), List.head?_append]
        refine .inr ?_
        rcases ih (n / 10) (by omega) with zero | other
        · have value := congrArg (Nat.ofDigitChars 10 · 0) zero
          simp only [Nat.ofDigitChars_ten_toDigits] at value
          have none : n / 10 = 0 := value
          omega
        · obtain ⟨c, rest, same⟩ := List.exists_cons_of_ne_nil
            (Nat.toDigits_ne_nil (n := n / 10) (b := 10))
          rw [same] at other ⊢
          exact other

/-- **A port is read as it is written.** -/
theorem parseU16_toString {n : ℕ} (small : n < 2 ^ 16) : parseU16 (toString n).toList = some n := by
  have digits := isDigit_toString n
  have plus : ¬ (toString n).toList.head? = some '+' := by
    intro first
    have inside := List.all_eq_true.mp digits '+' (List.mem_of_mem_head? first)
    exact absurd inside (by decide)
  have value : numeral 10 (toString n).toList = n := by
    rw [numeral, numeral_eq_ofDigitChars digits, Nat.toString_eq_ofList_toDigits,
      String.toList_ofList, Nat.ofDigitChars_ten_toDigits]
  have reads : (toString n).toList.all (fun c => (digit 10 c).isSome) = true := by
    rw [List.all_eq_true] at digits ⊢
    intro c inside
    rw [digit_ten (digits c inside)]
    rfl
  simp only [parseU16, plus, if_false, value, reads, small, toString_ne_nil n, ne_eq,
    not_false_eq_true, and_self, if_true]

/-! ## Addresses -/

/-- Reads something after a separator, which the first one goes without. -/
def readSeparated {α : Type} (separator : Char) (first : Bool)
    (read : List Char → Option (α × List Char)) (text : List Char) : Option (α × List Char) :=
  if first then read text
  else
    match text with
    | c :: rest => if c = separator then read rest else none
    | [] => none

/-- Reads the numbers of an IPv4 address, `count` of them. -/
def readOctets (first : Bool) : ℕ → List Char → Option (List ℕ × List Char)
  | 0, text => some ([], text)
  | count + 1, text => do
      let (octet, rest) ← readSeparated '.' first (readNumber 10 3 256 false) text
      let (octets, rest) ← readOctets false count rest
      pure (octet :: octets, rest)

/-- An IPv4 address as two groups of an IPv6 address. -/
def readIpv4Groups (text : List Char) : Option (List ℕ × List Char) :=
  match readOctets true 4 text with
  | some ([a, b, c, d], rest) => some ([a * 256 + b, c * 256 + d], rest)
  | _ => none

/-- Reads as many groups as there are, up to a limit, and whether an IPv4 address was the end of
them. -/
def readGroups (first : Bool) : ℕ → List Char → List ℕ × Bool × List Char
  | 0, text => ([], false, text)
  | limit + 1, text =>
      match if 0 < limit then readSeparated ':' first readIpv4Groups text else none with
      | some (groups, rest) => (groups, true, rest)
      | none =>
          match readSeparated ':' first (readNumber 16 4 65536 true) text with
          | none => ([], false, text)
          | some (group, rest) =>
              let (groups, embedded, rest) := readGroups false limit rest
              (group :: groups, embedded, rest)

abbrev Ipv6Addr := BitVec 128

def ofGroups (groups : List ℕ) : Ipv6Addr :=
  BitVec.ofNat 128 (groups.foldl (fun address group => address * 65536 + group) 0)

/-- `parse::<Ipv6Addr>()`. -/
def parseIpv6 (text : List Char) : Option Ipv6Addr :=
  match readGroups true 8 text with
  | (front, embedded, rest) =>
      if front.length = 8 then if rest = [] then some (ofGroups front) else none
      else if embedded then none
      else
        match rest with
        | ':' :: ':' :: rest =>
            match readGroups true (8 - (front.length + 1)) rest with
            | (back, _, []) =>
                some (ofGroups (front ++
                  List.replicate (8 - front.length - back.length) 0 ++ back))
            | _ => none
        | _ => none

example : parseIpv6 "::1".toList = some 1 ∧ parseIpv6 "0:0:0:0:0:0:0:1".toList = some 1 ∧
    parseIpv6 "::0.0.1.2".toList = some 258 ∧ parseIpv6 "1::2::3".toList = none ∧
    parseIpv6 "::00001".toList = none := by
  decide +kernel

end OAuthRelay.Text
