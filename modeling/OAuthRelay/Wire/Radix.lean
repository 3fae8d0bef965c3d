import Mathlib.Algebra.Group.Nat.Defs
import Mathlib.Data.List.Induction
import Mathlib.Data.Nat.Notation

/-!
# Bytes as digits

Encodings such as base32 and base64 take the bits of some bytes, the highest of each byte
first, and cut them anew into digits of a smaller width. The last digit is filled up with zeros.
This is a relation between the bytes and the digits (`Regroups`). The bytes determine the digits,
and the digits the bytes. So every way of computing one from the other computes the same.

`digits` is one way of computing them, and `bytes` the way back, which refuses digits that stand
for no bytes or have something else than zeros at the end.
-/

set_option autoImplicit false

namespace OAuthRelay.Wire.Radix

variable {w : ℕ}

/-! ## Bits -/

/-- The low bits of a number, the highest of them first. -/
def bits : ℕ → ℕ → List Bool
  | 0, _ => []
  | w + 1, n => bits w (n / 2) ++ [decide (n % 2 = 1)]

/-- The number of a list of bits. -/
def ofBits (l : List Bool) : ℕ := l.foldl (fun n b => 2 * n + b.toNat) 0

@[simp] theorem length_bits (w n : ℕ) : (bits w n).length = w := by
  induction w generalizing n with
  | zero => rfl
  | succ w ih => rw [bits, List.length_append, ih, List.length_singleton]

/-- **The bits of a number are those of its upper part and those of its lower.** -/
theorem bits_add (a b n : ℕ) : bits (a + b) n = bits a (n / 2 ^ b) ++ bits b n := by
  induction b generalizing n with
  | zero => simp [bits]
  | succ b ih =>
      rw [← Nat.add_assoc, bits, ih, bits, List.append_assoc, Nat.div_div_eq_div_mul,
        ← Nat.pow_succ']

/-- The upper part of a number does not matter for its lower bits. -/
theorem bits_mod (b n : ℕ) : bits b (n % 2 ^ b) = bits b n := by
  induction b generalizing n with
  | zero => rfl
  | succ b ih =>
      have half : n % 2 ^ (b + 1) / 2 = n / 2 % 2 ^ b := by
        rw [Nat.pow_succ', Nat.mod_mul_right_div_self]
      have parity : n % 2 ^ (b + 1) % 2 = n % 2 := by
        rw [Nat.pow_succ', Nat.mod_mul_right_mod]
      rw [bits, half, parity, ih, bits]

/-- Two numbers, one after the other. -/
theorem bits_append (a b m n : ℕ) (small : n < 2 ^ b) :
    bits (a + b) (m * 2 ^ b + n) = bits a m ++ bits b n := by
  have upper : (m * 2 ^ b + n) / 2 ^ b = m := by
    rw [Nat.mul_comm, Nat.mul_add_div (Nat.two_pow_pos b), Nat.div_eq_of_lt small, Nat.add_zero]
  have lower : (m * 2 ^ b + n) % 2 ^ b = n := by
    rw [Nat.mul_comm, Nat.mul_add_mod, Nat.mod_eq_of_lt small]
  rw [bits_add, upper, ← bits_mod b (m * 2 ^ b + n), lower]

@[simp] theorem bits_zero (w : ℕ) : bits w 0 = List.replicate w false := by
  induction w with
  | zero => rfl
  | succ w ih =>
      rw [bits, Nat.zero_div, ih, List.replicate_succ']
      rfl

@[simp] theorem ofBits_concat (l : List Bool) (b : Bool) :
    ofBits (l ++ [b]) = 2 * ofBits l + b.toNat := by
  rw [ofBits, List.foldl_append]
  rfl

theorem ofBits_lt (l : List Bool) : ofBits l < 2 ^ l.length := by
  induction l using List.reverseRecOn with
  | nil => decide
  | append_singleton l b ih =>
      have one := Bool.toNat_lt b
      rw [ofBits_concat, List.length_append, List.length_singleton, Nat.pow_succ]
      omega

@[simp] theorem bits_ofBits (l : List Bool) : bits l.length (ofBits l) = l := by
  induction l using List.reverseRecOn with
  | nil => rfl
  | append_singleton l b ih =>
      rw [List.length_append, List.length_singleton, bits, ofBits_concat]
      have half : (2 * ofBits l + b.toNat) / 2 = ofBits l := by
        cases b <;> simp only [Bool.toNat_false, Bool.toNat_true] <;> omega
      have parity : decide ((2 * ofBits l + b.toNat) % 2 = 1) = b := by
        cases b <;> simp [Nat.add_mod]
      rw [half, parity, ih]

/-- A number that has room in so many bits is determined by them. -/
theorem bits_injOn {m n : ℕ} (small : m < 2 ^ w) (small' : n < 2 ^ w)
    (same : bits w m = bits w n) : m = n := by
  induction w generalizing m n with
  | zero => omega
  | succ w ih =>
      rw [Nat.pow_succ] at small small'
      obtain ⟨upper, lower⟩ := List.append_inj same (by simp)
      have halves := ih (by omega) (by omega) upper
      have parity : m % 2 = 1 ↔ n % 2 = 1 := by simpa using lower
      omega

/-! ## Regrouping -/

/-- The bits of a list of numbers. -/
def allBits (w : ℕ) (numbers : List ℕ) : List Bool := numbers.flatMap (bits w)

@[simp] theorem allBits_nil (w : ℕ) : allBits w [] = [] := rfl

@[simp] theorem allBits_cons (w n : ℕ) (numbers : List ℕ) :
    allBits w (n :: numbers) = bits w n ++ allBits w numbers :=
  List.flatMap_cons

@[simp] theorem allBits_append (w : ℕ) (front back : List ℕ) :
    allBits w (front ++ back) = allBits w front ++ allBits w back :=
  List.flatMap_append

@[simp] theorem length_allBits (w : ℕ) (numbers : List ℕ) :
    (allBits w numbers).length = w * numbers.length := by
  induction numbers with
  | nil => rfl
  | cons n rest ih =>
      rw [allBits_cons, List.length_append, length_bits, ih, List.length_cons, Nat.mul_succ,
        Nat.add_comm]

theorem allBits_injOn {l l' : List ℕ} (positive : 0 < w) (small : ∀ n ∈ l, n < 2 ^ w)
    (small' : ∀ n ∈ l', n < 2 ^ w) (same : allBits w l = allBits w l') : l = l' := by
  have lengths : l.length = l'.length := by
    have lengths := congrArg List.length same
    rw [length_allBits, length_allBits] at lengths
    exact Nat.eq_of_mul_eq_mul_left positive lengths
  induction l generalizing l' with
  | nil => exact (List.length_eq_zero_iff.mp lengths.symm).symm
  | cons n rest ih =>
      cases l' with
      | nil => cases lengths
      | cons m rest' =>
          obtain ⟨first, others⟩ := List.append_inj same (by simp)
          rw [bits_injOn (small n (List.mem_cons_self ..)) (small' m (List.mem_cons_self ..)) first,
            ih (fun n inside => small n (List.mem_cons_of_mem _ inside))
              (fun n inside => small' n (List.mem_cons_of_mem _ inside)) others
              (Nat.succ.inj lengths)]

/-- The digits have the bits of the bytes, and zeros for what the last digit lacks. -/
structure Regroups (w : ℕ) (bytes : List UInt8) (digits : List ℕ) : Prop where
  small : ∀ d ∈ digits, d < 2 ^ w
  fills : ∃ missing < w,
    allBits w digits = allBits 8 (bytes.map UInt8.toNat) ++ List.replicate missing false

namespace Regroups

variable {bytes bytes' : List UInt8} {digits digits' : List ℕ}

theorem length_eq (regroups : Regroups w bytes digits) :
    ∃ missing < w, w * digits.length = 8 * bytes.length + missing := by
  obtain ⟨missing, less, same⟩ := regroups.fills
  refine ⟨missing, less, ?_⟩
  have lengths := congrArg List.length same
  rwa [length_allBits, List.length_append, length_allBits, List.length_map,
    List.length_replicate] at lengths

/-- **The bytes determine the digits.** -/
theorem digits_unique (regroups : Regroups w bytes digits) (regroups' : Regroups w bytes digits') :
    digits = digits' := by
  obtain ⟨small, missing, less, same⟩ := regroups
  obtain ⟨small', missing', less', same'⟩ := regroups'
  have positive : 0 < w := Nat.zero_lt_of_lt less
  have lengths := congrArg List.length same
  have lengths' := congrArg List.length same'
  rw [length_allBits, List.length_append, List.length_replicate] at lengths lengths'
  have modulo : missing % w = missing' % w := by
    have sum : (w * digits.length + missing') % w = (w * digits'.length + missing) % w := by
      rw [lengths, lengths']
      congr 1
      omega
    rwa [Nat.mul_add_mod, Nat.mul_add_mod, eq_comm] at sum
  rw [Nat.mod_eq_of_lt less, Nat.mod_eq_of_lt less'] at modulo
  subst modulo
  exact allBits_injOn positive small small' (same.trans same'.symm)

/-- **The digits determine the bytes.** -/
theorem bytes_unique (narrow : w ≤ 8) (regroups : Regroups w bytes digits)
    (regroups' : Regroups w bytes' digits) : bytes = bytes' := by
  obtain ⟨_, missing, less, same⟩ := regroups
  obtain ⟨_, missing', less', same'⟩ := regroups'
  have whole := same.symm.trans same'
  have lengths := congrArg List.length whole
  simp only [List.length_append, length_allBits, List.length_map, List.length_replicate] at lengths
  have count : bytes.length = bytes'.length := by omega
  have front := (List.append_inj whole (by simp [count])).1
  have numbers := allBits_injOn (by decide)
    (fun n inside => by
      obtain ⟨byte, _, rfl⟩ := List.mem_map.mp inside
      exact byte.toNat_lt)
    (fun n inside => by
      obtain ⟨byte, _, rfl⟩ := List.mem_map.mp inside
      exact byte.toNat_lt) front
  exact (List.map_inj_right fun _ _ => UInt8.toNat_inj.mp).mp numbers

end Regroups

/-! ## Computing them -/

/-- The list cut into pieces of this length, the last of them filled up. -/
def cut (w : ℕ) : ℕ → List Bool → List (List Bool)
  | 0, _ => []
  | _ + 1, [] => []
  | fuel + 1, l => (l.take w ++ List.replicate (w - l.length) false) :: cut w fuel (l.drop w)

theorem cut_spec (positive : 0 < w) :
    ∀ (fuel : ℕ) (l : List Bool), l.length ≤ fuel →
      (∀ piece ∈ cut w fuel l, piece.length = w) ∧
      ∃ missing < w, (cut w fuel l).flatten = l ++ List.replicate missing false := by
  intro fuel
  induction fuel with
  | zero =>
      intro l short
      obtain rfl := List.length_eq_zero_iff.mp (Nat.le_zero.mp short)
      exact ⟨fun _ inside => (by cases inside), 0, positive, rfl⟩
  | succ fuel ih =>
      intro l short
      cases l with
      | nil => exact ⟨fun _ inside => (by cases inside), 0, positive, rfl⟩
      | cons b rest =>
          have shorter : ((b :: rest).drop w).length ≤ fuel := by
            rw [List.length_drop]
            simp only [List.length_cons] at short ⊢
            omega
          obtain ⟨lengths, missing, less, same⟩ := ih _ shorter
          refine ⟨fun piece inside => ?_, ?_⟩
          · rcases List.mem_cons.mp inside with rfl | later
            · rw [List.length_append, List.length_take, List.length_replicate]
              omega
            · exact lengths piece later
          · rw [cut, List.flatten_cons, same]
            swap
            · simp
            by_cases full : w ≤ (b :: rest).length
            · refine ⟨missing, less, ?_⟩
              rw [Nat.sub_eq_zero_of_le full, List.replicate_zero, List.append_nil,
                ← List.append_assoc, List.take_append_drop]
            · -- nothing is left behind a piece that is filled up
              have empty : (b :: rest).drop w = [] := List.drop_eq_nil_of_le (by omega)
              have none : missing = 0 := by
                have lengths := congrArg List.length same
                rw [empty] at lengths
                cases fuel with
                | zero => simpa [cut] using lengths.symm
                | succ fuel => simpa [cut] using lengths.symm
              subst none
              refine ⟨w - (b :: rest).length, by simp only [List.length_cons]; omega, ?_⟩
              rw [List.take_of_length_le (by omega), empty]
              simp

/-- The digits of some bytes. -/
def digits (w : ℕ) (bytes : List UInt8) : List ℕ :=
  let whole := allBits 8 (bytes.map UInt8.toNat)
  (cut w whole.length whole).map ofBits

/-- The bytes of some digits. -/
def bytes (w : ℕ) (digits : List ℕ) : Option (List UInt8) :=
  let whole := allBits w digits
  let count := whole.length / 8
  let rest := whole.drop (8 * count)
  if rest.length < w ∧ ∀ b ∈ rest, b = false then
    some ((cut 8 (8 * count) (whole.take (8 * count))).map fun piece => UInt8.ofNat (ofBits piece))
  else none

theorem allBits_ofBits {pieces : List (List Bool)} (lengths : ∀ piece ∈ pieces, piece.length = w) :
    allBits w (pieces.map ofBits) = pieces.flatten := by
  induction pieces with
  | nil => rfl
  | cons piece rest ih =>
      rw [List.map_cons, allBits_cons, List.flatten_cons,
        ← ih fun piece inside => lengths piece (List.mem_cons_of_mem _ inside)]
      congr 1
      rw [← lengths piece (List.mem_cons_self ..), bits_ofBits]

theorem regroups_digits (positive : 0 < w) (bytes : List UInt8) :
    Regroups w bytes (digits w bytes) := by
  obtain ⟨lengths, missing, less, same⟩ :=
    cut_spec positive _ (allBits 8 (bytes.map UInt8.toNat)) (Nat.le_refl _)
  refine ⟨fun d inside => ?_, missing, less, ?_⟩
  · obtain ⟨piece, there, rfl⟩ := List.mem_map.mp inside
    rw [← lengths piece there]
    exact ofBits_lt piece
  · rw [digits, allBits_ofBits lengths, same]

/-- **Digits are read as bytes when they are the digits of these bytes.** -/
theorem bytes_eq_some_iff (narrow : w ≤ 8) {digits : List ℕ} (small : ∀ d ∈ digits, d < 2 ^ w)
    {read : List UInt8} : bytes w digits = some read ↔ Regroups w read digits := by
  have sound : ∀ {read : List UInt8}, bytes w digits = some read → Regroups w read digits := by
    intro read found
    simp only [bytes] at found
    split at found
    · rename_i fits
      cases found
      obtain ⟨short, zeros⟩ := fits
      have inside : ((allBits w digits).take (8 * ((allBits w digits).length / 8))).length =
          8 * ((allBits w digits).length / 8) := by
        rw [List.length_take]
        omega
      obtain ⟨lengths, missing, less, same⟩ := cut_spec (w := 8) (by decide) _
        ((allBits w digits).take (8 * ((allBits w digits).length / 8))) (Nat.le_of_eq inside)
      have none : missing = 0 := by
        have total := congrArg List.length same
        rw [List.length_append, inside, List.length_replicate, ← allBits_ofBits lengths,
          length_allBits] at total
        omega
      subst none
      refine ⟨small, _, short, ?_⟩
      have numbers : (((cut 8 (8 * ((allBits w digits).length / 8))
          ((allBits w digits).take (8 * ((allBits w digits).length / 8)))).map
            fun piece => UInt8.ofNat (ofBits piece)).map UInt8.toNat) =
          (cut 8 (8 * ((allBits w digits).length / 8))
            ((allBits w digits).take (8 * ((allBits w digits).length / 8)))).map ofBits := by
        rw [List.map_map]
        refine List.map_congr_left fun piece there => ?_
        have below := ofBits_lt piece
        rw [lengths piece there] at below
        exact UInt8.toNat_ofNat_of_lt below
      rw [numbers, allBits_ofBits lengths, same, List.replicate_zero, List.append_nil,
        ← List.eq_replicate_iff.mpr ⟨rfl, zeros⟩, List.take_append_drop]
    · cases found
  refine ⟨sound, fun regroups => ?_⟩
  obtain ⟨missing, less, same⟩ := regroups.fills
  have total := congrArg List.length same
  rw [List.length_append, List.length_replicate, length_allBits 8, List.length_map] at total
  have count : (allBits w digits).length / 8 = read.length := by omega
  have rest : (allBits w digits).drop (8 * read.length) = List.replicate missing false := by
    rw [same, List.drop_append_of_le_length (by simp), List.drop_of_length_le (by simp)]
    rfl
  have fits : bytes w digits ≠ none := by
    simp only [bytes, count, rest]
    rw [if_pos]
    · simp
    · exact ⟨by rwa [List.length_replicate], fun b inside => (List.mem_replicate.mp inside).2⟩
  obtain ⟨read', found⟩ := Option.ne_none_iff_exists'.mp fits
  rw [found, regroups.bytes_unique narrow (sound found)]

/-- **Bytes are read back from their digits.** -/
theorem bytes_digits (positive : 0 < w) (narrow : w ≤ 8) (read : List UInt8) :
    bytes w (digits w read) = some read :=
  (bytes_eq_some_iff narrow (regroups_digits positive read).small).mpr
    (regroups_digits positive read)

/-- Digits that are read are the digits of what they are read as. -/
theorem digits_of_bytes (narrow : w ≤ 8) {ds : List ℕ} (small : ∀ d ∈ ds, d < 2 ^ w)
    {read : List UInt8} (found : bytes w ds = some read) : digits w read = ds := by
  have regroups := (bytes_eq_some_iff narrow small).mp found
  obtain ⟨_, less, _⟩ := regroups.fills
  exact (regroups_digits (Nat.zero_lt_of_lt less) read).digits_unique regroups

end OAuthRelay.Wire.Radix
