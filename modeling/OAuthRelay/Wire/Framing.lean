import Mathlib.Algebra.Group.Nat.Defs
import Mathlib.Data.Nat.Notation
import Mathlib.Logic.Basic

/-!
# Framings

A framing writes a value so that the end of what it has written can be seen: whatever
follows, the value and the rest are determined by the whole. Values written one after the
other are then determined by the text they make together, which is what a text that is
hashed or authenticated has to give.

A framing may need its values to fit, such as a length in the field it is written in.
-/

set_option autoImplicit false

namespace OAuthRelay.Wire

variable {α β γ S : Type}

/-- Whatever follows, the text determines the value and what follows. -/
def Framing (Fits : α → Prop) (encode : α → List S) : Prop :=
  ∀ a b x y, Fits a → Fits b → encode a ++ x = encode b ++ y → a = b ∧ x = y

namespace Framing

variable {Fits : α → Prop} {Fits' : β → Prop} {encode : α → List S} {encode' : β → List S}

/-- **A framing is injective.** -/
theorem injective (framing : Framing Fits encode) {a b : α} (fits : Fits a) (fits' : Fits b)
    (same : encode a = encode b) : a = b := by
  apply (framing a b [] [] fits fits' _).1
  rw [same]

/-- A text that can be read back frames its value. -/
theorem of_decode {decode : List S → Option (α × List S)}
    (back : ∀ a rest, Fits a → decode (encode a ++ rest) = some (a, rest)) :
    Framing Fits encode := by
  intro a b x y fits fits' same
  have read := back a x fits
  rw [same, back b y fits'] at read
  have equal := Prod.mk.inj (Option.some.inj read)
  exact ⟨equal.1.symm, equal.2.symm⟩

/-- Texts of one length frame what they determine. -/
theorem of_length {n : ℕ} (length : ∀ a, Fits a → (encode a).length = n)
    (injective : ∀ a b, Fits a → Fits b → encode a = encode b → a = b) : Framing Fits encode := by
  intro a b x y fits fits' same
  have equal := List.append_inj same (by rw [length a fits, length b fits'])
  exact ⟨injective a b fits fits' equal.1, equal.2⟩

/-- Two framings, one after the other. -/
theorem pair (first : Framing Fits encode) (second : Framing Fits' encode') :
    Framing (fun p : α × β => Fits p.1 ∧ Fits' p.2) (fun p => encode p.1 ++ encode' p.2) := by
  intro p q x y fits fits' same
  rw [List.append_assoc, List.append_assoc] at same
  obtain ⟨equal, rest⟩ := first _ _ _ _ fits.1 fits'.1 same
  obtain ⟨equal', rest'⟩ := second _ _ _ _ fits.2 fits'.2 rest
  exact ⟨Prod.ext equal equal', rest'⟩

/-- A framing of what determines the value frames the value. -/
theorem comap (framing : Framing Fits encode) {f : γ → α} (injective : ∀ c d, f c = f d → c = d) :
    Framing (fun c => Fits (f c)) (fun c => encode (f c)) := by
  intro c d x y fits fits' same
  obtain ⟨equal, rest⟩ := framing _ _ _ _ fits fits' same
  exact ⟨injective c d equal, rest⟩

/-- A tag in front of a value that may be missing. -/
theorem option (framing : Framing Fits encode) {absent present : S} (differ : absent ≠ present) :
    Framing (fun value : Option α => ∀ a ∈ value, Fits a)
      (fun value => match value with
        | none => [absent]
        | some a => present :: encode a) := by
  intro v w x y fits fits' same
  cases v with
  | none =>
      cases w with
      | none => exact ⟨rfl, (List.cons.inj same).2⟩
      | some b => exact absurd (List.cons.inj same).1 differ
  | some a =>
      cases w with
      | none => exact absurd (List.cons.inj same).1.symm differ
      | some b =>
          obtain ⟨equal, rest⟩ := framing a b x y (fits a rfl) (fits' b rfl) (List.cons.inj same).2
          exact ⟨congrArg some equal, rest⟩

/-- The length in front of a sequence. -/
theorem prefixed {length : ℕ → List S} {Small : ℕ → Prop} (framing : Framing Small length) :
    Framing (fun xs : List S => Small xs.length) (fun xs => length xs.length ++ xs) := by
  intro xs ys x y fits fits' same
  rw [List.append_assoc, List.append_assoc] at same
  obtain ⟨equal, rest⟩ := framing _ _ _ _ fits fits' same
  exact List.append_inj rest equal

/-- Framed values up to an end that starts none of them. -/
theorem terminated (framing : Framing Fits encode) {stop : S}
    (differs : ∀ a x rest, Fits a → encode a ++ x ≠ stop :: rest) :
    Framing (fun xs : List α => ∀ a ∈ xs, Fits a) (fun xs => xs.flatMap encode ++ [stop]) := by
  intro xs
  induction xs with
  | nil =>
      intro ys x y _ fits' same
      cases ys with
      | nil => exact ⟨rfl, (List.cons.inj same).2⟩
      | cons b ys =>
          simp only [List.flatMap_nil, List.flatMap_cons, List.nil_append, List.append_assoc] at same
          exact absurd same.symm (differs _ _ _ (fits' b (List.mem_cons_self ..)))
  | cons a xs ih =>
      intro ys x y fits fits' same
      cases ys with
      | nil =>
          simp only [List.flatMap_nil, List.flatMap_cons, List.nil_append, List.append_assoc] at same
          exact absurd same (differs _ _ _ (fits a (List.mem_cons_self ..)))
      | cons b ys =>
          simp only [List.flatMap_cons, List.append_assoc] at same
          obtain ⟨rfl, rest⟩ := framing a b _ _ (fits a (List.mem_cons_self ..))
            (fits' b (List.mem_cons_self ..)) same
          obtain ⟨rfl, rfl⟩ := ih ys x y (fun c member => fits c (List.mem_cons_of_mem _ member))
            (fun c member => fits' c (List.mem_cons_of_mem _ member))
            (by simpa only [List.append_assoc] using rest)
          exact ⟨rfl, rfl⟩

/-- A text ends at the first symbol that it cannot have. -/
theorem delimited (stop : S) : Framing (stop ∉ ·) fun xs => xs ++ [stop] := by
  have symbol : Framing (· ≠ stop) fun x : S => [x] :=
    .of_length (fun _ _ => rfl) fun _ _ _ _ same => (List.cons.inj same).1
  have listed : Framing (fun xs : List S => ∀ x ∈ xs, x ≠ stop)
      fun xs => xs.flatMap (fun x => [x]) ++ [stop] :=
    symbol.terminated fun x _ _ other same => other (List.cons.inj same).1
  intro xs ys x y without without' same
  have differs : ∀ {zs : List S}, stop ∉ zs → ∀ z ∈ zs, z ≠ stop := by
    rintro zs absent _ inside rfl
    exact absent inside
  exact listed xs ys x y (differs without) (differs without') (by simpa using same)

/-- Values with a symbol between them and another at the end. -/
def joined (encode : α → List S) (between stop : S) : α → List α → List S
  | a, [] => encode a ++ [stop]
  | a, b :: rest => encode a ++ between :: joined encode between stop b rest

/-- The end of a value can be seen in front of the texts of a kind. -/
def Ends (Follow : List S → Prop) (Fits : α → Prop) (encode : α → List S) (a : α) : Prop :=
  ∀ b x y, Fits b → Follow x → Follow y → encode a ++ x = encode b ++ y → a = b ∧ x = y

/-- **Joined values end at the last symbol.** -/
theorem joined_ends {Follow : List S → Prop} {between stop : S} (differ : between ≠ stop)
    (separates : ∀ rest, Follow (between :: rest)) (closes : ∀ rest, Follow (stop :: rest)) :
    ∀ {as bs : List α} {a b : α} {x y : List S}, (∀ c ∈ a :: as, Ends Follow Fits encode c) →
      (∀ c ∈ b :: bs, Fits c) →
      joined encode between stop a as ++ x = joined encode between stop b bs ++ y →
      a :: as = b :: bs ∧ x = y := by
  intro as
  induction as with
  | nil =>
      intro bs a b x y ends fits same
      cases bs with
      | nil =>
          simp only [joined, List.append_assoc, List.singleton_append] at same
          obtain ⟨rfl, rest⟩ := ends a (List.mem_cons_self ..) b _ _ (fits b (List.mem_cons_self ..))
            (closes _) (closes _) same
          exact ⟨rfl, (List.cons.inj rest).2⟩
      | cons d bs =>
          simp only [joined, List.append_assoc, List.cons_append] at same
          obtain ⟨_, rest⟩ := ends a (List.mem_cons_self ..) b _ _ (fits b (List.mem_cons_self ..))
            (closes _) (separates _) same
          exact absurd (List.cons.inj rest).1.symm differ
  | cons c as ih =>
      intro bs a b x y ends fits same
      cases bs with
      | nil =>
          simp only [joined, List.append_assoc, List.cons_append] at same
          obtain ⟨_, rest⟩ := ends a (List.mem_cons_self ..) b _ _ (fits b (List.mem_cons_self ..))
            (separates _) (closes _) same
          exact absurd (List.cons.inj rest).1 differ
      | cons d bs =>
          simp only [joined, List.append_assoc, List.cons_append] at same
          obtain ⟨rfl, rest⟩ := ends a (List.mem_cons_self ..) b _ _ (fits b (List.mem_cons_self ..))
            (separates _) (separates _) same
          obtain ⟨equal, rfl⟩ := ih (fun e member => ends e (List.mem_cons_of_mem _ member))
            (fun e member => fits e (List.mem_cons_of_mem _ member)) (List.cons.inj rest).2
          exact ⟨by rw [equal], rfl⟩

/-- A symbol in front. -/
theorem headed (framing : Framing Fits encode) (start : S) :
    Framing Fits fun a => start :: encode a := by
  intro a b x y fits fits' same
  exact framing a b x y fits fits' (List.cons.inj same).2

end Framing

/-! ## Numbers of a fixed width -/

/-- The `k` lowest bytes of a number, the highest first. -/
def bigEndian : ℕ → ℕ → List UInt8
  | 0, _ => []
  | k + 1, n => bigEndian k (n / 256) ++ [(n % 256).toUInt8]

theorem length_bigEndian (k : ℕ) : ∀ n, (bigEndian k n).length = k := by
  induction k with
  | zero => simp [bigEndian]
  | succ k ih => simp [bigEndian, ih]

theorem bigEndian_injective (k : ℕ) : ∀ {m n : ℕ}, m < 256 ^ k → n < 256 ^ k →
    bigEndian k m = bigEndian k n → m = n := by
  induction k with
  | zero =>
      intro m n below below' _
      simp only [Nat.pow_zero, Nat.lt_one_iff] at below below'
      rw [below, below']
  | succ k ih =>
      intro m n below below' same
      obtain ⟨high, low⟩ := List.append_inj' same rfl
      have bound : ∀ {n}, n < 256 ^ (k + 1) → n / 256 < 256 ^ k := by
        intro n below
        rw [Nat.div_lt_iff_lt_mul (by decide), ← Nat.pow_succ]
        exact below
      have quotient : m / 256 = n / 256 := ih (bound below) (bound below') high
      have rest : m % 256 = n % 256 := by
        have bytes := congrArg UInt8.toNat (List.cons.inj low).1
        simpa using bytes
      rw [← Nat.div_add_mod m 256, ← Nat.div_add_mod n 256, quotient, rest]

/-- A number of a fixed width frames itself. -/
theorem Framing.bigEndian (k : ℕ) : Framing (· < 256 ^ k) (Wire.bigEndian k) :=
  .of_length (fun n _ => length_bigEndian k n) fun _ _ below below' same =>
    bigEndian_injective k below below' same

end OAuthRelay.Wire
