import OAuthRelay.Wire.Json

/-!
# JSON texts

The grammar of JSON values: numbers and keywords, strings, and arrays and objects with white
space around their parts. A text that is a value ends where it has to: whatever follows that
does not go on with a number or a keyword, the value and the rest can be told apart
(`IsValue.ends`). So the members of an object are determined by its text
(`Object.members_unique`).
-/

set_option autoImplicit false

namespace OAuthRelay.Wire.Json

/-! ## Runs of characters -/

/-- The text does not begin with such a character. -/
def Stops (p : Char → Bool) (text : List Char) : Prop := ∀ c rest, text = c :: rest → p c = false

theorem Stops.of_head {p : Char → Bool} {c : Char} {rest : List Char} (stop : p c = false) :
    Stops p (c :: rest) := by
  intro c' rest' same
  rw [← (List.cons.inj same).1]
  exact stop

/-- **A run of characters ends where it stops.** -/
theorem run_ends {p : Char → Bool} : ∀ {a b x y : List Char}, a.all p = true → b.all p = true →
    Stops p x → Stops p y → a ++ x = b ++ y → a = b ∧ x = y := by
  intro a
  induction a with
  | nil =>
      intro b x y _ inside stops _ same
      cases b with
      | nil => exact ⟨rfl, same⟩
      | cons c b =>
          have outside := stops c (b ++ y) same
          rw [List.all_cons, outside] at inside
          cases inside
  | cons c a ih =>
      intro b x y inside inside' stops stops' same
      cases b with
      | nil =>
          have outside := stops' c (a ++ x) same.symm
          rw [List.all_cons, outside] at inside
          cases inside
      | cons d b =>
          rw [List.all_cons, Bool.and_eq_true] at inside inside'
          obtain ⟨rfl, rest⟩ := List.cons.inj same
          obtain ⟨rfl, rfl⟩ := ih inside.2 inside'.2 stops stops' rest
          exact ⟨rfl, rfl⟩

def isSpace (c : Char) : Bool := c = ' ' || c = '\t' || c = '\n' || c = '\r'

/-- Insignificant white space. -/
structure Space where
  text : List Char
  valid : text.all isSpace = true
  deriving DecidableEq

def Space.none : Space := ⟨[], rfl⟩

theorem Space.ends {a b : Space} {x y : List Char} (stops : Stops isSpace x)
    (stops' : Stops isSpace y) (same : a.text ++ x = b.text ++ y) : a = b ∧ x = y := by
  obtain ⟨equal, rest⟩ := run_ends a.valid b.valid stops stops' same
  cases a
  cases b
  exact ⟨by simpa using equal, rest⟩

/-! ## Numbers and keywords -/

def isDigit (c : Char) : Bool := '0' ≤ c && c ≤ '9'

structure Digits where
  text : List Char
  nonempty : text ≠ []
  valid : text.all isDigit = true
  deriving DecidableEq

structure Exponent where
  upper : Bool
  negative : Option Bool
  digits : Digits
  deriving DecidableEq

def Exponent.text (exponent : Exponent) : List Char :=
  (if exponent.upper then 'E' else 'e') ::
    ((match exponent.negative with
      | none => []
      | some false => ['+']
      | some true => ['-']) ++ exponent.digits.text)

structure Number where
  negative : Bool
  integer : Digits
  /-- No zeros in front. -/
  canonical : integer.text.head? = some '0' → integer.text = ['0']
  fraction : Option Digits
  exponent : Option Exponent
  deriving DecidableEq

def Number.text (number : Number) : List Char :=
  (if number.negative then ['-'] else []) ++ number.integer.text ++
    (match number.fraction with
      | none => []
      | some digits => '.' :: digits.text) ++
    (match number.exponent with
      | none => []
      | some exponent => exponent.text)

inductive Scalar where
  | null
  | bool (value : Bool)
  | number (number : Number)
  deriving DecidableEq

def Scalar.text : Scalar → List Char
  | null => ['n', 'u', 'l', 'l']
  | bool true => ['t', 'r', 'u', 'e']
  | bool false => ['f', 'a', 'l', 's', 'e']
  | number n => n.text

/-- A character of a number or a keyword. -/
def isWord (c : Char) : Bool := isDigit c || c.isAlpha || c = '+' || c = '-' || c = '.'

theorem Digits.word (digits : Digits) : digits.text.all isWord = true := by
  rw [List.all_eq_true]
  intro c inside
  have digit := List.all_eq_true.mp digits.valid c inside
  simp [isWord, digit]

theorem Exponent.word (exponent : Exponent) : exponent.text.all isWord = true := by
  obtain ⟨upper, negative, digits⟩ := exponent
  have letter : isWord (if upper = true then 'E' else 'e') = true := by cases upper <;> decide
  have signs : isWord '+' = true ∧ isWord '-' = true := by decide
  rcases negative with _ | _ | _ <;> simp [Exponent.text, letter, signs, digits.word]

theorem Number.word (number : Number) : number.text.all isWord = true := by
  obtain ⟨negative, integer, _, fraction, exponent⟩ := number
  simp only [Number.text, List.all_append, integer.word, Bool.and_true]
  have sign : (if negative = true then ['-'] else []).all isWord = true := by
    cases negative <;> decide
  cases fraction with
  | none =>
      cases exponent with
      | none => simp [sign]
      | some exponent => simp [sign, exponent.word]
  | some digits =>
      have point : isWord '.' = true := by decide
      cases exponent with
      | none => simp [sign, point, digits.word]
      | some exponent => simp [sign, point, digits.word, exponent.word]

theorem Scalar.word (scalar : Scalar) : scalar.text.all isWord = true := by
  cases scalar with
  | null => decide
  | bool value => cases value <;> decide
  | number number => exact number.word

theorem Scalar.text_ne_nil (scalar : Scalar) : scalar.text ≠ [] := by
  cases scalar with
  | null => exact List.cons_ne_nil _ _
  | bool value => cases value <;> exact List.cons_ne_nil _ _
  | number number =>
      intro empty
      simp only [Scalar.text, Number.text, List.append_eq_nil_iff] at empty
      exact number.integer.nonempty empty.1.1.2

/-! ## Values -/

/-- A value of an array, with the white space around it. -/
structure Item where
  before : Space
  value : List Char
  after : Space
  deriving DecidableEq

def Item.text (item : Item) : List Char := item.before.text ++ (item.value ++ item.after.text)

/-- A member of an object, with its value as it is written. -/
structure Member where
  before : Space
  name : List Piece
  beforeColon : Space
  item : Item
  deriving DecidableEq

def Member.value (member : Member) : List Char := member.item.value

def Member.text (member : Member) : List Char :=
  member.before.text ++ (literal member.name ++
    (member.beforeColon.text ++ ':' :: member.item.text))

/-- What stands between brackets, and the closing one. -/
def container {α : Type} (text : α → List Char) (inner : Space) (stop : Char) :
    List α → List Char
  | [] => inner.text ++ [stop]
  | a :: rest => Framing.joined text ',' stop a rest

/-- The text is a JSON value. -/
inductive IsValue : List Char → Prop
  | scalar (scalar : Scalar) : IsValue scalar.text
  | string (pieces : List Piece) : IsValue (literal pieces)
  | array (inner : Space) (items : List Item) (valid : ∀ item ∈ items, IsValue item.value) :
      IsValue ('[' :: container Item.text inner ']' items)
  | object (inner : Space) (members : List Member)
      (valid : ∀ member ∈ members, IsValue member.item.value) :
      IsValue ('{' :: container Member.text inner '}' members)

/-- A character that a value begins with. -/
def isStart (c : Char) : Bool := isWord c || c = '"' || c = '[' || c = '{'

theorem IsValue.starts {value : List Char} (valid : IsValue value) :
    ∃ c rest, value = c :: rest ∧ isStart c = true := by
  cases valid with
  | scalar scalar =>
      obtain ⟨c, rest, same⟩ := List.exists_cons_of_ne_nil scalar.text_ne_nil
      refine ⟨c, rest, same, ?_⟩
      have word := scalar.word
      rw [same, List.all_cons, Bool.and_eq_true] at word
      simp [isStart, word.1]
  | string pieces => exact ⟨_, _, rfl, by decide⟩
  | array => exact ⟨_, _, rfl, by decide⟩
  | object => exact ⟨_, _, rfl, by decide⟩

/-- What begins a value is neither white space nor a closing bracket. -/
theorem not_space_of_isStart {c : Char} (start : isStart c = true) :
    isSpace c = false ∧ c ≠ ']' ∧ c ≠ '}' := by
  have others : [' ', '\t', '\n', '\r', ']', '}'].all (fun d => !isStart d) = true := by decide
  have differs : ∀ d ∈ [' ', '\t', '\n', '\r', ']', '}'], c ≠ d := by
    rintro d inside rfl
    have other := List.all_eq_true.mp others c inside
    rw [start] at other
    cases other
  simp only [List.mem_cons, List.not_mem_nil, or_false, forall_eq_or_imp, forall_eq] at differs
  obtain ⟨blank, tab, line, back, bracket, brace⟩ := differs
  exact ⟨by simp [isSpace, blank, tab, line, back], bracket, brace⟩

/-! ## Where a value ends -/

/-- What may not follow a value and the white space after it. -/
def isGlue (c : Char) : Bool := isSpace c || isWord c

theorem Stops.glue {x : List Char} (stops : Stops isGlue x) : Stops isSpace x ∧ Stops isWord x := by
  constructor <;> intro c rest same
  · have outside := stops c rest same
    simp only [isGlue, Bool.or_eq_false_iff] at outside
    exact outside.1
  · have outside := stops c rest same
    simp only [isGlue, Bool.or_eq_false_iff] at outside
    exact outside.2

/-- White space does not go on with a word. -/
theorem stops_after (after : Space) {x : List Char} (stops : Stops isWord x) :
    Stops isWord (after.text ++ x) := by
  obtain ⟨text, valid⟩ := after
  cases text with
  | nil => exact stops
  | cons c text =>
      apply Stops.of_head
      have space : isSpace c = true := by simpa using (List.all_eq_true.mp valid) c (by simp)
      simp only [isSpace, Bool.or_eq_true, decide_eq_true_eq] at space
      rcases space with ((rfl | rfl) | rfl) | rfl <;> decide

theorem IsValue.stops {value : List Char} (valid : IsValue value) (x : List Char) :
    Stops isSpace (value ++ x) := by
  obtain ⟨c, rest, rfl, start⟩ := valid.starts
  exact Stops.of_head (not_space_of_isStart start).1

theorem Item.ends {item : Item} (valid : IsValue item.value)
    (value : Framing.Ends (Stops isWord) IsValue id item.value) :
    Framing.Ends (Stops isGlue) (fun item : Item => IsValue item.value) Item.text item := by
  intro item' x y valid' stops stops' same
  simp only [Item.text, List.append_assoc] at same
  obtain ⟨before, rest⟩ := Space.ends (valid.stops _) (valid'.stops _) same
  obtain ⟨equal, rest⟩ := value _ _ _ valid' (stops_after _ stops.glue.2)
    (stops_after _ stops'.glue.2) rest
  obtain ⟨after, rest⟩ := Space.ends stops.glue.1 stops'.glue.1 rest
  obtain ⟨_, _, _⟩ := item
  obtain ⟨_, _, _⟩ := item'
  simp_all

theorem Member.ends {member : Member} (valid : IsValue member.item.value)
    (value : Framing.Ends (Stops isWord) IsValue id member.item.value) :
    Framing.Ends (Stops isGlue) (fun member : Member => IsValue member.item.value) Member.text
      member := by
  intro member' x y valid' stops stops' same
  simp only [Member.text, List.append_assoc, List.cons_append] at same
  have quote : ∀ name rest, Stops isSpace (literal name ++ rest) :=
    fun name rest => Stops.of_head (by decide)
  have colon : ∀ rest, Stops isSpace (':' :: rest) := fun rest => Stops.of_head (by decide)
  obtain ⟨before, rest⟩ := Space.ends (quote _ _) (quote _ _) same
  obtain ⟨name, rest⟩ := literal_framing _ _ _ _ trivial trivial rest
  obtain ⟨beforeColon, rest⟩ := Space.ends (colon _) (colon _) rest
  obtain ⟨item, rest⟩ := Item.ends valid value _ _ _ valid' stops stops' (List.cons.inj rest).2
  obtain ⟨_, _, _, _⟩ := member
  obtain ⟨_, _, _, _⟩ := member'
  simp_all

/-- What begins an entry is not a closing bracket. -/
def Opens (stop : Char) (text : List Char) : Prop :=
  ∃ (before : Space) (c : Char) (rest : List Char),
    text = before.text ++ c :: rest ∧ isSpace c = false ∧ c ≠ stop

theorem Item.opens {item : Item} (valid : IsValue item.value) : Opens ']' item.text := by
  obtain ⟨c, rest, same, start⟩ := valid.starts
  obtain ⟨space, bracket, _⟩ := not_space_of_isStart start
  exact ⟨item.before, c, rest ++ item.after.text, by simp [Item.text, same], space, bracket⟩

theorem Member.opens (member : Member) : Opens '}' member.text :=
  ⟨member.before, _, _, rfl, by decide, by decide⟩

section Container

variable {α : Type} {Fits : α → Prop} {text : α → List Char} {stop : Char}

theorem not_opens_joined (closing : isSpace stop = false) {inner : Space} {a : α} {as : List α}
    (opens : Opens stop (text a)) (x y : List Char) :
    inner.text ++ stop :: x ≠ Framing.joined text ',' stop a as ++ y := by
  intro same
  obtain ⟨before, c, rest, begins, space, differs⟩ := opens
  have front : ∃ more, Framing.joined text ',' stop a as ++ y = before.text ++ c :: more := by
    cases as with
    | nil => exact ⟨rest ++ ([stop] ++ y), by simp [Framing.joined, begins]⟩
    | cons b as =>
        exact ⟨rest ++ (',' :: Framing.joined text ',' stop b as ++ y), by
          simp [Framing.joined, begins]⟩
  obtain ⟨more, front⟩ := front
  rw [front] at same
  obtain ⟨_, rest⟩ := Space.ends (Stops.of_head closing) (Stops.of_head space) same
  exact differs (List.cons.inj rest).1.symm

/-- **What stands between brackets ends at the closing one.** -/
theorem container_ends (closing : isGlue stop = false) (differ : ',' ≠ stop) {inner inner' : Space}
    {as bs : List α} {x y : List Char} (ends : ∀ a ∈ as, Framing.Ends (Stops isGlue) Fits text a)
    (fits : ∀ b ∈ bs, Fits b) (opens : ∀ a ∈ as, Opens stop (text a))
    (opens' : ∀ b ∈ bs, Opens stop (text b))
    (same : container text inner stop as ++ x = container text inner' stop bs ++ y) :
    as = bs ∧ x = y := by
  have space : isSpace stop = false := by
    simp only [isGlue, Bool.or_eq_false_iff] at closing
    exact closing.1
  cases as with
  | nil =>
      simp only [container, List.append_assoc, List.singleton_append] at same
      cases bs with
      | nil =>
          simp only [List.append_assoc, List.singleton_append] at same
          obtain ⟨_, rest⟩ := Space.ends (Stops.of_head space) (Stops.of_head space) same
          exact ⟨rfl, (List.cons.inj rest).2⟩
      | cons b bs => exact absurd same (not_opens_joined space (opens' b (by simp)) x y)
  | cons a as =>
      cases bs with
      | nil =>
          simp only [container, List.append_assoc, List.singleton_append] at same
          exact absurd same.symm (not_opens_joined space (opens a (by simp)) y x)
      | cons b bs =>
          exact Framing.joined_ends differ (fun rest => Stops.of_head (by decide))
            (fun rest => Stops.of_head closing) ends fits same

end Container

/-- A word begins with no bracket and no quote. -/
theorem Scalar.append_ne {scalar : Scalar} {c : Char} (other : isWord c = false)
    (x rest : List Char) : scalar.text ++ x ≠ c :: rest := by
  intro same
  obtain ⟨d, more, begins⟩ := List.exists_cons_of_ne_nil scalar.text_ne_nil
  have word := scalar.word
  rw [begins] at same word
  rw [List.all_cons, (List.cons.inj same).1, other] at word
  cases word

/-- **A value ends where it has to.** -/
theorem IsValue.ends {value : List Char} (valid : IsValue value) :
    Framing.Ends (Stops isWord) IsValue id value := by
  induction valid with
  | scalar scalar =>
      intro value' x y valid' stops stops' same
      cases valid' with
      | scalar scalar' => exact run_ends scalar.word scalar'.word stops stops' same
      | string => exact absurd same (Scalar.append_ne (by decide) _ _)
      | array => exact absurd same (Scalar.append_ne (by decide) _ _)
      | object => exact absurd same (Scalar.append_ne (by decide) _ _)
  | string pieces =>
      intro value' x y valid' stops stops' same
      cases valid' with
      | scalar => exact absurd same.symm (Scalar.append_ne (by decide) _ _)
      | string pieces' =>
          obtain ⟨rfl, rfl⟩ := literal_framing _ _ _ _ trivial trivial same
          exact ⟨rfl, rfl⟩
      | array => exact absurd (List.cons.inj same).1 (by decide)
      | object => exact absurd (List.cons.inj same).1 (by decide)
  | array inner items valid ih =>
      intro value' x y valid' stops stops' same
      cases valid' with
      | scalar => exact absurd same.symm (Scalar.append_ne (by decide) _ _)
      | string => exact absurd (List.cons.inj same).1 (by decide)
      | array inner' items' valid' =>
          obtain ⟨_, rfl⟩ := container_ends (by decide) (by decide)
            (fun item inside => Item.ends (valid item inside) (ih item inside)) valid'
            (fun item inside => Item.opens (valid item inside))
            (fun item inside => Item.opens (valid' item inside)) (List.cons.inj same).2
          exact ⟨List.append_cancel_right same, rfl⟩
      | object => exact absurd (List.cons.inj same).1 (by decide)
  | object inner members valid ih =>
      intro value' x y valid' stops stops' same
      cases valid' with
      | scalar => exact absurd same.symm (Scalar.append_ne (by decide) _ _)
      | string => exact absurd (List.cons.inj same).1 (by decide)
      | array => exact absurd (List.cons.inj same).1 (by decide)
      | object inner' members' valid' =>
          obtain ⟨_, rfl⟩ := container_ends (by decide) (by decide)
            (fun member inside => Member.ends (valid member inside) (ih member inside)) valid'
            (fun member _ => member.opens) (fun member _ => member.opens) (List.cons.inj same).2
          exact ⟨List.append_cancel_right same, rfl⟩

/-! ## Objects -/

/-- A text that is a JSON object. -/
structure Object where
  before : Space
  inner : Space
  members : List Member
  after : Space
  valid : ∀ member ∈ members, IsValue member.value

def Object.text (object : Object) : List Char :=
  object.before.text ++ '{' ::
    (container Member.text object.inner '}' object.members ++ object.after.text)

/-- **The text of an object determines its members.** -/
theorem Object.members_unique {object object' : Object} (same : object.text = object'.text) :
    object.members = object'.members := by
  have brace : ∀ rest, Stops isSpace ('{' :: rest) := fun rest => Stops.of_head (by decide)
  obtain ⟨_, rest⟩ := Space.ends (brace _) (brace _) same
  exact (container_ends (by decide) (by decide)
    (fun member inside => Member.ends (object.valid member inside)
      (object.valid member inside).ends) object'.valid
    (fun member _ => member.opens) (fun member _ => member.opens) (List.cons.inj rest).2).1

end OAuthRelay.Wire.Json
