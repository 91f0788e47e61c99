/-! # Texts and byte offsets

A text is a list of characters. Every offset into a text counts the bytes of its UTF-8 form, so a
position may fall inside a character; `cut` then moves forward to the end of that character.
-/

namespace Marginalia

abbrev Text := List Char

instance : Coe String Text := ⟨String.toList⟩

namespace Text

/-- The number of bytes of the UTF-8 form. -/
def size : Text → Nat
  | [] => 0
  | c :: t => c.utf8Size + size t

@[simp] theorem size_nil : size [] = 0 := rfl

@[simp] theorem size_cons (c : Char) (t : Text) : size (c :: t) = c.utf8Size + size t := rfl

@[simp] theorem size_append (s t : Text) : size (s ++ t) = size s + size t := by
  induction s with
  | nil => simp
  | cons c s ih => simp [ih, Nat.add_assoc]

theorem length_le_size (t : Text) : t.length ≤ size t := by
  induction t with
  | nil => simp
  | cons c t ih =>
    have := Char.utf8Size_pos c
    simp only [List.length_cons, size_cons]
    omega

theorem size_eq_zero_iff {t : Text} : size t = 0 ↔ t = [] := by
  cases t with
  | nil => simp
  | cons c t =>
    have := Char.utf8Size_pos c
    simp only [size_cons, reduceCtorEq, iff_false]
    omega

/-- Cuts a text in two at the first character boundary at or after `pos`. -/
def cut (pos : Nat) : Text → Text × Text
  | [] => ([], [])
  | c :: t =>
    if pos = 0 then ([], c :: t)
    else
      let parts := cut (pos - c.utf8Size) t
      (c :: parts.1, parts.2)

def upTo (pos : Nat) (t : Text) : Text := (cut pos t).1

def after (pos : Nat) (t : Text) : Text := (cut pos t).2

theorem cut_append (pos : Nat) (t : Text) : (cut pos t).1 ++ (cut pos t).2 = t := by
  induction t generalizing pos with
  | nil => rfl
  | cons c t ih =>
    rw [cut]
    split
    · rfl
    · simp [ih]

@[simp] theorem upTo_append_after (pos : Nat) (t : Text) : upTo pos t ++ after pos t = t :=
  cut_append pos t

@[simp] theorem cut_zero (t : Text) : cut 0 t = ([], t) := by cases t <;> rfl

/-- A cut at the size of the first part of an append separates the parts. -/
theorem cut_size_append (s t : Text) : cut (size s) (s ++ t) = (s, t) := by
  induction s with
  | nil => simp
  | cons c s ih =>
    have := Char.utf8Size_pos c
    rw [List.cons_append, cut, if_neg (by simp only [size_cons]; omega)]
    simp [ih]

theorem append_inj_of_size {r s t u : Text} (h : r ++ s = t ++ u) (hsize : size r = size t) :
    r = t ∧ s = u := by
  have hcut := cut_size_append r s
  rw [h, hsize, cut_size_append] at hcut
  exact ⟨(congrArg Prod.fst hcut).symm, (congrArg Prod.snd hcut).symm⟩

/-- The bytes from `start` up to `stop`. -/
def slice (start stop : Nat) (t : Text) : Text := upTo (stop - start) (after start t)

/-- What follows `head` in a text that starts with it. -/
def afterHead? : Text → Text → Option Text
  | [], t => some t
  | _ :: _, [] => none
  | c :: head, d :: t => if c = d then afterHead? head t else none

theorem afterHead?_eq_some_iff {head t rest : Text} :
    afterHead? head t = some rest ↔ t = head ++ rest := by
  induction head generalizing t with
  | nil => simp [afterHead?]
  | cons c head ih =>
    cases t with
    | nil => simp [afterHead?]
    | cons d t =>
      simp only [afterHead?, List.cons_append, List.cons.injEq]
      split <;> rename_i h
      · subst h; simp [ih]
      · simp [Ne.symm h]

/-- What stands before `tail` in a text that ends with it. -/
def beforeTail? (tail t : Text) : Option Text :=
  (afterHead? tail.reverse t.reverse).map List.reverse

theorem beforeTail?_eq_some_iff {tail t rest : Text} :
    beforeTail? tail t = some rest ↔ t = rest ++ tail := by
  simp only [beforeTail?, Option.map_eq_some_iff, afterHead?_eq_some_iff]
  constructor
  · rintro ⟨r, h, rfl⟩
    simpa using congrArg List.reverse h
  · rintro rfl
    exact ⟨rest.reverse, by simp, by simp⟩

def startsWith (head t : Text) : Bool := (afterHead? head t).isSome

def endsWith (tail t : Text) : Bool := (beforeTail? tail t).isSome

/-- Whether `part` stands somewhere in the text. -/
def holds (part : Text) : Text → Bool
  | [] => part.isEmpty
  | c :: t => startsWith part (c :: t) || holds part t

/-- Drops the longest tail of characters that satisfy `p`. -/
def dropEndWhile (p : Char → Bool) (t : Text) : Text := (t.reverse.dropWhile p).reverse

/-- Puts `separator` between the texts. -/
def join (separator : Text) : List Text → Text
  | [] => []
  | [t] => t
  | t :: u :: rest => t ++ separator ++ join separator (u :: rest)

end Text

end Marginalia
