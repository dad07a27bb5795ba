/-
The compact JSON text: a printer and a reader for `Serde.Json`, as a library.

The printer writes what `serde_json::to_string` writes, no blanks and the short
escapes, except that a float is written by its bits. The reader takes compact
text only. It is a recursive descent with fuel, and `parse_print` is its one
theorem: with more fuel than there are characters, it reads a printed tree back
and leaves what follows. The two properties of `Serde.JsonText` come from it:
nothing is lost, and a bracketed text is not complete before its last bracket.
-/
import DigIpc.Encodings
import DigIpc.Serde

set_option autoImplicit false

open Serde

namespace CompactJson

/-! ## Strings -/

def quote : Char := Char.ofNat 34

def backslash : Char := Char.ofNat 92

/-- The characters with a short escape, and its letter. -/
def shorts : List (Char × Char) :=
  [(quote, quote), (backslash, backslash), (Char.ofNat 8, 'b'), (Char.ofNat 12, 'f'),
    (Char.ofNat 10, 'n'), (Char.ofNat 13, 'r'), (Char.ofNat 9, 't')]

def short (c : Char) : Option Char := (shorts.find? fun p => p.1 = c).map Prod.snd

def unshort (e : Char) : Option Char := (shorts.find? fun p => p.2 = e).map Prod.fst

/-- One character inside a string. -/
def escape (c : Char) : List Char :=
  match short c with
  | some e => [backslash, e]
  | none =>
    if c.toNat < 32 then
      [backslash, 'u', '0', '0', Encodings.Hex.digit (c.toNat / 16),
        Encodings.Hex.digit (c.toNat % 16)]
    else [c]

/-- The characters of a string and its closing quote. -/
def printText : List Char → List Char
  | [] => [quote]
  | c :: cs => escape c ++ printText cs

/-- Read up to the closing quote. -/
def text : List Char → Option (List Char × List Char)
  | [] => none
  | c :: cs =>
    if c = quote then some ([], cs)
    else if c = backslash then
      match cs with
      | [] => none
      | e :: cs =>
        if e = 'u' then
          match cs with
          | _ :: _ :: hi :: lo :: cs =>
            match Encodings.Hex.value hi, Encodings.Hex.value lo, text cs with
            | some h, some l, some (ds, rest) => some (Char.ofNat (16 * h + l) :: ds, rest)
            | _, _, _ => none
          | _ => none
        else
          match unshort e, text cs with
          | some d, some (ds, rest) => some (d :: ds, rest)
          | _, _ => none
    else (text cs).map fun r => (c :: r.1, r.2)

theorem unshort_short {c e : Char} (h : short c = some e) : unshort e = some c ∧ e ≠ 'u' := by
  have hall : (shorts.all fun p => unshort p.2 = some p.1 ∧ p.2 ≠ 'u') = true := rfl
  unfold short at h
  obtain ⟨p, hp, rfl⟩ := Option.map_eq_some_iff.mp h
  have hc : p.1 = c := by simpa using List.find?_some hp
  rw [← hc]
  exact of_decide_eq_true (List.all_eq_true.mp hall p (List.mem_of_find?_eq_some hp))

/-- An escaped character is read as the character. -/
theorem text_escape (c : Char) {cs ds rest : List Char} (h : text cs = some (ds, rest)) :
    text (escape c ++ cs) = some (c :: ds, rest) := by
  have hquote : backslash ≠ quote := by decide
  cases hs : short c with
  | some e =>
      obtain ⟨hun, hu⟩ := unshort_short hs
      simp only [escape, hs, List.cons_append, List.nil_append]
      rw [text.eq_def]
      simp only [if_neg hquote, if_true, if_neg hu, hun, h]
  | none =>
      by_cases hctl : c.toNat < 32
      · have hhi := Encodings.Hex.value_digit (n := c.toNat / 16) (by omega)
        have hlo := Encodings.Hex.value_digit (n := c.toNat % 16) (by omega)
        have hval : 16 * (c.toNat / 16) + c.toNat % 16 = c.toNat := by omega
        simp only [escape, hs, if_pos hctl, List.cons_append, List.nil_append]
        rw [text.eq_def]
        simp only [if_neg hquote, if_true, hhi, hlo, h, hval, Char.ofNat_toNat]
      · -- neither of the two characters that mean something inside a string
        have hq : c ≠ quote := by
          rintro rfl
          exact absurd hs (by decide)
        have hb : c ≠ backslash := by
          rintro rfl
          exact absurd hs (by decide)
        simp only [escape, hs, if_neg hctl, List.cons_append, List.nil_append]
        rw [text.eq_def]
        simp only [if_neg hq, if_neg hb, h, Option.map_some]

theorem text_printText (s rest : List Char) : text (printText s ++ rest) = some (s, rest) := by
  induction s with
  | nil =>
      rw [printText, List.cons_append, text.eq_def]
      exact if_pos rfl
  | cons c s ih =>
      rw [printText, List.append_assoc]
      exact text_escape c ih

/-! ## Numbers -/

def printNumber : Number → List Char
  | .PosInt n => Nat.toDigits 10 n.toNat
  | .NegInt n _ _ => '-' :: Nat.toDigits 10 n.natAbs
  | .Float x => Nat.toDigits 10 x.bits.toNat ++ ['.', '0']

/-- A number, from the digits read, the sign before and the text after them. -/
def numberOf (neg : Bool) (n : ℕ) (rest : List Char) : Option (Json × List Char) :=
  if neg then
    if h : -(n : ℤ) < 0 ∧ -2 ^ 63 ≤ -(n : ℤ) then some (.number (.NegInt (-n) h.1 h.2), rest)
    else none
  else match rest with
    | '.' :: '0' :: rest =>
      if h : (UInt64.ofNat n).toNat / 2 ^ 52 % 2 ^ 11 ≠ 2 ^ 11 - 1 then
        some (.number (.Float ⟨UInt64.ofNat n, h⟩), rest)
      else none
    | _ => if n < 2 ^ 64 then some (.number (.PosInt (UInt64.ofNat n)), rest) else none

def number (neg : Bool) (cs : List Char) : Option (Json × List Char) :=
  numberOf neg (Nat.ofDigitChars 10 (cs.takeWhile Char.isDigit) 0) (cs.dropWhile Char.isDigit)

/-- What may follow a number: nothing that would continue it. -/
def Stops (rest : List Char) : Prop := ∀ c ∈ rest.head?, c.isDigit = false ∧ c ≠ '.'

theorem takeWhile_digits (n : ℕ) {rest : List Char} (h : ∀ c ∈ rest.head?, c.isDigit = false) :
    (Nat.toDigits 10 n ++ rest).takeWhile Char.isDigit = Nat.toDigits 10 n ∧
      (Nat.toDigits 10 n ++ rest).dropWhile Char.isDigit = rest := by
  have hall : ∀ c ∈ Nat.toDigits 10 n, c.isDigit = true := fun c hc =>
    Nat.isDigit_of_mem_toDigits (by decide) (by decide) hc
  rw [List.takeWhile_append_of_pos hall, List.dropWhile_append_of_pos hall]
  cases rest with
  | nil => simp
  | cons c rest =>
      have hc : c.isDigit = false := h c rfl
      simp [hc]

/-- The digits of a number, read back whole. -/
theorem number_digits (neg : Bool) (n : ℕ) {rest : List Char}
    (h : ∀ c ∈ rest.head?, c.isDigit = false) :
    number neg (Nat.toDigits 10 n ++ rest) = numberOf neg n rest := by
  obtain ⟨htake, hdrop⟩ := takeWhile_digits n h
  rw [number, htake, hdrop, Nat.ofDigitChars_ten_toDigits]

theorem numberOf_posInt (n : UInt64) {rest : List Char} (h : Stops rest) :
    numberOf false n.toNat rest = some (.number (.PosInt n), rest) := by
  unfold numberOf
  have hn : n.toNat < 2 ^ 64 := n.toNat_lt
  rw [if_neg Bool.false_ne_true]
  split
  · exact absurd rfl (h '.' rfl).2
  · rw [if_pos hn, UInt64.ofNat_toNat]

theorem numberOf_negInt (n : ℤ) (neg : n < 0) (min : -2 ^ 63 ≤ n) (rest : List Char) :
    numberOf true n.natAbs rest = some (.number (.NegInt n neg min), rest) := by
  unfold numberOf
  have hn : -(n.natAbs : ℤ) = n := by omega
  have hbound : -(n.natAbs : ℤ) < 0 ∧ -2 ^ 63 ≤ -(n.natAbs : ℤ) := by omega
  rw [if_pos rfl, dif_pos hbound]
  simp only [hn]

theorem numberOf_float (x : F64) (rest : List Char) :
    numberOf false x.bits.toNat ('.' :: '0' :: rest) = some (.number (.Float x), rest) := by
  unfold numberOf
  rw [if_neg Bool.false_ne_true]
  simp only [UInt64.ofNat_toNat]
  exact dif_pos x.finite

/-! ## Trees -/

mutual

def print : Json → List Char
  | .null => ['n', 'u', 'l', 'l']
  | .bool true => ['t', 'r', 'u', 'e']
  | .bool false => ['f', 'a', 'l', 's', 'e']
  | .number n => printNumber n
  | .string s => quote :: printText s.toList
  | .array [] => ['[', ']']
  | .array (x :: xs) => '[' :: (print x ++ printMore xs)
  | .object [] => ['{', '}']
  | .object ((k, v) :: m) => '{' :: quote :: (printText k.toList ++ ':' :: (print v ++ printFields m))

/-- The rest of an array after an item. -/
def printMore : List Json → List Char
  | [] => [']']
  | x :: xs => ',' :: (print x ++ printMore xs)

/-- The rest of an object after a field. -/
def printFields : List (String × Json) → List Char
  | [] => ['}']
  | (k, v) :: m => ',' :: quote :: (printText k.toList ++ ':' :: (print v ++ printFields m))

end

/-- Read a fixed word. -/
def literal (word : List Char) (j : Json) (cs : List Char) : Option (Json × List Char) :=
  if cs.take word.length = word then some (j, cs.drop word.length) else none

theorem literal_append (word : List Char) (j : Json) (rest : List Char) :
    literal word j (word ++ rest) = some (j, rest) := by
  rw [literal, List.take_left, List.drop_left, if_pos rfl]

/-- Read a key and its colon. -/
def key (cs : List Char) : Option (String × List Char) :=
  match cs with
  | [] => none
  | c :: cs =>
    if c = quote then
      match text cs with
      | some (k, ':' :: rest) => some (String.ofList k, rest)
      | _ => none
    else none

theorem key_print (k : String) (rest : List Char) :
    key (quote :: (printText k.toList ++ ':' :: rest)) = some (k, rest) := by
  simp only [key, if_true, text_printText, String.ofList_toList]

mutual

def parse : ℕ → List Char → Option (Json × List Char)
  | 0, _ => none
  | _ + 1, [] => none
  | n + 1, c :: cs =>
    if c = 'n' then literal ['u', 'l', 'l'] .null cs
    else if c = 't' then literal ['r', 'u', 'e'] (.bool true) cs
    else if c = 'f' then literal ['a', 'l', 's', 'e'] (.bool false) cs
    else if c = quote then (text cs).map fun r => (.string (String.ofList r.1), r.2)
    else if c = '[' then
      if cs.head? = some ']' then some (.array [], cs.tail)
      else match parse n cs with
        | some (x, rest) => (parseMore n rest).map fun r => (.array (x :: r.1), r.2)
        | none => none
    else if c = '{' then
      if cs.head? = some '}' then some (.object [], cs.tail)
      else match key cs with
        | some (k, rest) => match parse n rest with
          | some (v, rest) => (parseFields n rest).map fun r => (.object ((k, v) :: r.1), r.2)
          | none => none
        | none => none
    else if c = '-' then number true cs
    else number false (c :: cs)

def parseMore : ℕ → List Char → Option (List Json × List Char)
  | 0, _ => none
  | _ + 1, [] => none
  | n + 1, c :: cs =>
    if c = ']' then some ([], cs)
    else if c = ',' then
      match parse n cs with
      | some (x, rest) => (parseMore n rest).map fun r => (x :: r.1, r.2)
      | none => none
    else none

def parseFields : ℕ → List Char → Option (List (String × Json) × List Char)
  | 0, _ => none
  | _ + 1, [] => none
  | n + 1, c :: cs =>
    if c = '}' then some ([], cs)
    else if c = ',' then
      match key cs with
      | some (k, rest) => match parse n rest with
        | some (v, rest) => (parseFields n rest).map fun r => ((k, v) :: r.1, r.2)
        | none => none
      | none => none
    else none

end

/-! ## Reading back what was printed -/

theorem printMore_stops (xs : List Json) (rest : List Char) : Stops (printMore xs ++ rest) := by
  cases xs <;> (intro c hc; simp only [printMore, List.cons_append, List.head?_cons,
    Option.mem_some_iff] at hc; subst hc; decide)

theorem printFields_stops (m : List (String × Json)) (rest : List Char) :
    Stops (printFields m ++ rest) := by
  cases m <;> (intro c hc; simp only [printFields, List.cons_append, List.head?_cons,
    Option.mem_some_iff] at hc; subst hc; decide)

/-- The first character of a number is none of those the reader looks for. -/
theorem digit_ne (n : ℕ) : ∃ c cs, Nat.toDigits 10 n = c :: cs ∧ c.isDigit = true := by
  cases hd : Nat.toDigits 10 n with
  | nil => exact absurd hd Nat.toDigits_ne_nil
  | cons c cs =>
      refine ⟨c, cs, rfl, Nat.isDigit_of_mem_toDigits (b := 10) (n := n) (by decide) (by decide) ?_⟩
      rw [hd]
      exact List.mem_cons_self

theorem parse_digit {n : ℕ} {c : Char} {cs : List Char} (hc : c.isDigit = true) :
    parse (n + 1) (c :: cs) = number false (c :: cs) := by
  have hne : ∀ d : Char, d.isDigit = false → c ≠ d := by
    rintro d hd rfl
    rw [hc] at hd
    cases hd
  rw [parse, if_neg (hne 'n' rfl), if_neg (hne 't' rfl), if_neg (hne 'f' rfl),
    if_neg (hne quote rfl), if_neg (hne '[' rfl), if_neg (hne '{' rfl), if_neg (hne '-' rfl)]

theorem parse_number (n : ℕ) (x : Number) {rest : List Char} (h : Stops rest) :
    parse (n + 1) (printNumber x ++ rest) = some (.number x, rest) := by
  have hdigits : ∀ (m : ℕ) (tail : List Char), (∀ c ∈ tail.head?, c.isDigit = false) →
      parse (n + 1) (Nat.toDigits 10 m ++ tail) = numberOf false m tail := by
    intro m tail htail
    rw [← number_digits false m htail]
    obtain ⟨c, cs, hcs, hc⟩ := digit_ne m
    rw [hcs, List.cons_append]
    exact parse_digit hc
  cases x with
  | PosInt m =>
      rw [printNumber, hdigits _ _ fun c hc => (h c hc).1]
      exact numberOf_posInt m h
  | NegInt m neg min =>
      rw [printNumber, List.cons_append, parse]
      simp only [show ('-' : Char) ≠ 'n' from by decide, show ('-' : Char) ≠ 't' from by decide,
        show ('-' : Char) ≠ 'f' from by decide, show ('-' : Char) ≠ quote from by decide,
        show ('-' : Char) ≠ '[' from by decide, show ('-' : Char) ≠ '{' from by decide, if_false,
        if_true]
      rw [number_digits true m.natAbs fun c hc => (h c hc).1]
      exact numberOf_negInt m neg min rest
  | Float y =>
      rw [printNumber, List.append_assoc, hdigits _ _ (by rintro c ⟨⟩; decide)]
      exact numberOf_float y rest

/-- What a printed tree starts with. -/
theorem head_print (j : Json) : ∃ c cs, print j = c :: cs ∧
    (c ∈ ['n', 't', 'f', quote, '[', '{', '-'] ∨ c.isDigit = true) := by
  cases j with
  | null => exact ⟨'n', _, rfl, Or.inl (by decide)⟩
  | bool b => cases b with
    | true => exact ⟨'t', _, rfl, Or.inl (by decide)⟩
    | false => exact ⟨'f', _, rfl, Or.inl (by decide)⟩
  | number x => cases x with
    | PosInt n =>
        obtain ⟨c, cs, hcs, hc⟩ := digit_ne n.toNat
        exact ⟨c, cs, by rw [print, printNumber, hcs], Or.inr hc⟩
    | NegInt n _ _ => exact ⟨'-', _, by rw [print, printNumber], Or.inl (by decide)⟩
    | Float x =>
        obtain ⟨c, cs, hcs, hc⟩ := digit_ne x.bits.toNat
        exact ⟨c, cs ++ ['.', '0'], by rw [print, printNumber, hcs, List.cons_append], Or.inr hc⟩
  | string s => exact ⟨quote, _, by rw [print], Or.inl (by decide)⟩
  | array xs => cases xs with
    | nil => exact ⟨'[', _, by rw [print], Or.inl (by decide)⟩
    | cons x xs => exact ⟨'[', _, by rw [print], Or.inl (by decide)⟩
  | object m =>
      rcases m with _ | ⟨⟨k, v⟩, m⟩
      · exact ⟨'{', _, by rw [print], Or.inl (by decide)⟩
      · exact ⟨'{', _, by rw [print], Or.inl (by decide)⟩

/-- A printed tree starts with nothing else. -/
theorem head_print_ne (j : Json) (rest : List Char) (d : Char)
    (hd : d ∉ ['n', 't', 'f', quote, '[', '{', '-'] ∧ d.isDigit = false) :
    ¬ (print j ++ rest).head? = some d := by
  obtain ⟨c, cs, hcs, hc⟩ := head_print j
  rw [hcs, List.cons_append, List.head?_cons]
  rintro ⟨⟩
  rcases hc with hc | hc
  · exact hd.1 hc
  · rw [hd.2] at hc; cases hc

/-- No number starts like an array or an object. -/
theorem number_ne_bracketed (x : Number) (rest : List Char) {j : Json} (hj : j.Bracketed) :
    ¬ print (.number x) ++ rest = print j := by
  have hhead : ∀ {c : Char}, c.isDigit = true → c ≠ '[' ∧ c ≠ '{' := by
    intro c hc
    constructor <;> (rintro rfl; revert hc; decide)
  have hfirst : ∃ c cs, print (.number x) = c :: cs ∧ c ≠ '[' ∧ c ≠ '{' := by
    cases x with
    | PosInt n =>
        obtain ⟨c, cs, hcs, hc⟩ := digit_ne n.toNat
        exact ⟨c, cs, by rw [print, printNumber, hcs], hhead hc⟩
    | NegInt n _ _ => exact ⟨'-', _, by rw [print, printNumber], by decide⟩
    | Float x =>
        obtain ⟨c, cs, hcs, hc⟩ := digit_ne x.bits.toNat
        exact ⟨c, cs ++ ['.', '0'], by rw [print, printNumber, hcs, List.cons_append], hhead hc⟩
  obtain ⟨c, cs, hcs, hne, hne'⟩ := hfirst
  intro heq
  rw [hcs] at heq
  cases j with
  | array xs =>
      cases xs with
      | nil => rw [print] at heq; exact hne (List.cons.inj heq).1
      | cons y ys => rw [print] at heq; exact hne (List.cons.inj heq).1
  | object m =>
      rcases m with _ | ⟨⟨k, v⟩, m⟩
      · rw [print] at heq; exact hne' (List.cons.inj heq).1
      · rw [print] at heq; exact hne' (List.cons.inj heq).1
  | null => exact hj
  | bool b => exact hj
  | number y => exact hj
  | string s => exact hj

mutual

/-- **Reading back a printed tree.** More fuel than characters is enough, and
what follows is left, unless it would continue a number. -/
theorem parse_print : ∀ (j : Json) (n : ℕ) (rest : List Char), (print j).length < n →
    (∀ x, j = .number x → Stops rest) → parse n (print j ++ rest) = some (j, rest)
  | _, 0, _, h, _ => absurd h (Nat.not_lt_zero _)
  | .null, n + 1, rest, _, _ => literal_append ['u', 'l', 'l'] .null rest
  | .bool true, n + 1, rest, _, _ => literal_append ['r', 'u', 'e'] (.bool true) rest
  | .bool false, n + 1, rest, _, _ => literal_append ['a', 'l', 's', 'e'] (.bool false) rest
  | .number x, n + 1, rest, _, hstop => by
      rw [print]
      exact parse_number n x (hstop x rfl)
  | .string s, n + 1, rest, _, _ => by
      have hchars : (text (printText s.toList ++ rest)).map (fun r =>
          (Json.string (String.ofList r.1), r.2)) = some (.string s, rest) := by
        rw [text_printText, Option.map_some, String.ofList_toList]
      rw [print]
      exact hchars
  | .array [], n + 1, rest, _, _ => rfl
  | .object [], n + 1, rest, _, _ => rfl
  | .array (x :: xs), n + 1, rest, h, _ => by
      rw [print, List.length_cons, List.length_append] at h
      have hx := parse_print x n (printMore xs ++ rest) (by omega)
        fun _ _ => printMore_stops xs rest
      have hxs := parseMore_printMore xs n rest (by omega)
      -- no value starts like the end of an array
      have hhead : ¬ (print x ++ (printMore xs ++ rest)).head? = some ']' :=
        head_print_ne x _ ']' (by decide)
      have hcons : parse (n + 1) ('[' :: (print x ++ (printMore xs ++ rest)))
          = match parse n (print x ++ (printMore xs ++ rest)) with
            | some (x, rest) => (parseMore n rest).map fun r => (.array (x :: r.1), r.2)
            | none => none := if_neg hhead
      rw [print, List.cons_append, List.append_assoc, hcons, hx]
      simp only [hxs, Option.map_some]
  | .object ((k, v) :: m), n + 1, rest, h, _ => by
      rw [print, List.length_cons, List.length_cons, List.length_append, List.length_cons,
        List.length_append] at h
      have hv := parse_print v n (printFields m ++ rest) (by omega)
        fun _ _ => printFields_stops m rest
      have hm := parseFields_printFields m n rest (by omega)
      have hkey := key_print k (print v ++ (printFields m ++ rest))
      have hcons : parse (n + 1) ('{' :: quote :: (printText k.toList ++ ':' ::
            (print v ++ (printFields m ++ rest))))
          = match key (quote :: (printText k.toList ++ ':' ::
              (print v ++ (printFields m ++ rest)))) with
            | some (k, rest) => match parse n rest with
              | some (v, rest) => (parseFields n rest).map fun r => (.object ((k, v) :: r.1), r.2)
              | none => none
            | none => none := rfl
      rw [print]
      simp only [List.cons_append, List.append_assoc]
      rw [hcons, hkey]
      simp only [hv, hm, Option.map_some]

theorem parseMore_printMore : ∀ (xs : List Json) (n : ℕ) (rest : List Char),
    (printMore xs).length < n → parseMore n (printMore xs ++ rest) = some (xs, rest)
  | _, 0, _, h => absurd h (Nat.not_lt_zero _)
  | [], n + 1, rest, _ => rfl
  | x :: xs, n + 1, rest, h => by
      rw [printMore, List.length_cons, List.length_append] at h
      have hx := parse_print x n (printMore xs ++ rest) (by omega)
        fun _ _ => printMore_stops xs rest
      have hxs := parseMore_printMore xs n rest (by omega)
      have hcons : parseMore (n + 1) (',' :: (print x ++ (printMore xs ++ rest)))
          = match parse n (print x ++ (printMore xs ++ rest)) with
            | some (x, rest) => (parseMore n rest).map fun r => (x :: r.1, r.2)
            | none => none := rfl
      rw [printMore, List.cons_append, List.append_assoc, hcons, hx]
      simp only [hxs, Option.map_some]

theorem parseFields_printFields : ∀ (m : List (String × Json)) (n : ℕ) (rest : List Char),
    (printFields m).length < n → parseFields n (printFields m ++ rest) = some (m, rest)
  | _, 0, _, h => absurd h (Nat.not_lt_zero _)
  | [], n + 1, rest, _ => rfl
  | (k, v) :: m, n + 1, rest, h => by
      rw [printFields, List.length_cons, List.length_cons, List.length_append, List.length_cons,
        List.length_append] at h
      have hv := parse_print v n (printFields m ++ rest) (by omega)
        fun _ _ => printFields_stops m rest
      have hm := parseFields_printFields m n rest (by omega)
      have hkey := key_print k (print v ++ (printFields m ++ rest))
      have hcons : parseFields (n + 1) (',' :: quote :: (printText k.toList ++ ':' ::
            (print v ++ (printFields m ++ rest))))
          = match key (quote :: (printText k.toList ++ ':' ::
              (print v ++ (printFields m ++ rest)))) with
            | some (k, rest) => match parse n rest with
              | some (v, rest) => (parseFields n rest).map fun r => ((k, v) :: r.1, r.2)
              | none => none
            | none => none := rfl
      rw [printFields]
      simp only [List.cons_append, List.append_assoc]
      rw [hcons, hkey]
      simp only [hv, hm, Option.map_some]

end

/-! ## Control characters -/

/-- Nothing below the blank. -/
def Printable (cs : List Char) : Prop := (cs.all fun c => Nat.ble 32 c.toNat) = true

instance (cs : List Char) : Decidable (Printable cs) :=
  inferInstanceAs (Decidable ((cs.all fun c => Nat.ble 32 c.toNat) = true))

theorem printable_iff {cs : List Char} : Printable cs ↔ ∀ c ∈ cs, 32 ≤ c.toNat := by
  unfold Printable
  rw [List.all_eq_true]
  exact forall₂_congr fun c _ => by rw [Nat.ble_eq]

theorem Printable.cons {c : Char} {cs : List Char} (hc : Nat.ble 32 c.toNat = true)
    (h : Printable cs) : Printable (c :: cs) := by
  rw [Printable, List.all_cons, hc, Bool.true_and]
  exact h

theorem Printable.append {cs ds : List Char} (h : Printable cs) (h' : Printable ds) :
    Printable (cs ++ ds) := by
  rw [printable_iff] at *
  exact List.forall_mem_append.mpr ⟨h, h'⟩

theorem printable_digits (n : ℕ) : Printable (Nat.toDigits 10 n) := by
  rw [printable_iff]
  intro c hc
  have hdigit : c.isDigit = true := Nat.isDigit_of_mem_toDigits (by decide) (by decide) hc
  have h48 : 48 ≤ c.toNat := by
    simp only [Char.isDigit, Bool.and_eq_true, decide_eq_true_eq] at hdigit
    exact hdigit.1
  omega

/-- Control characters are escaped. -/
theorem printable_escape (c : Char) : Printable (escape c) := by
  unfold escape
  cases hs : short c with
  | some e =>
      have hall : (shorts.all fun p => Printable [backslash, p.2]) = true := rfl
      obtain ⟨p, hp, rfl⟩ := Option.map_eq_some_iff.mp hs
      exact of_decide_eq_true (List.all_eq_true.mp hall p (List.mem_of_find?_eq_some hp))
  | none =>
      by_cases hctl : c.toNat < 32
      · have hhex : ∀ n : Fin 32, Printable [backslash, 'u', '0', '0',
            Encodings.Hex.digit (n / 16), Encodings.Hex.digit (n % 16)] := by decide
        simp only [if_pos hctl]
        exact hhex ⟨c.toNat, hctl⟩
      · simp only [if_neg hctl]
        rw [printable_iff]
        exact List.forall_mem_singleton.mpr (Nat.not_lt.mp hctl)

theorem printable_text (s : List Char) : Printable (printText s) := by
  induction s with
  | nil => decide
  | cons c s ih => exact (printable_escape c).append ih

theorem printable_number (x : Number) : Printable (printNumber x) := by
  cases x with
  | PosInt n => exact printable_digits _
  | NegInt n _ _ => exact (printable_digits _).cons (by decide)
  | Float x => exact (printable_digits _).append (by decide)

mutual

/-- **A printed tree is one line.** -/
theorem printable_print : ∀ j : Json, Printable (print j)
  | .null => by rw [print]; decide
  | .bool true => by rw [print]; decide
  | .bool false => by rw [print]; decide
  | .number x => by rw [print]; exact printable_number x
  | .string s => by rw [print]; exact (printable_text _).cons (by decide)
  | .array [] => by rw [print]; decide
  | .object [] => by rw [print]; decide
  | .array (x :: xs) => by
      rw [print]
      exact ((printable_print x).append (printable_more xs)).cons (by decide)
  | .object ((k, v) :: m) => by
      rw [print]
      have htail := ((printable_print v).append (printable_fields m)).cons (c := ':') (by decide)
      exact (((printable_text k.toList).append htail).cons (by decide)).cons (by decide)

theorem printable_more : ∀ xs : List Json, Printable (printMore xs)
  | [] => by rw [printMore]; decide
  | x :: xs => by
      rw [printMore]
      exact ((printable_print x).append (printable_more xs)).cons (by decide)

theorem printable_fields : ∀ m : List (String × Json), Printable (printFields m)
  | [] => by rw [printFields]; decide
  | (k, v) :: m => by
      rw [printFields]
      have htail := ((printable_print v).append (printable_fields m)).cons (c := ':') (by decide)
      exact (((printable_text k.toList).append htail).cons (by decide)).cons (by decide)

end

/-! ## The codec -/

/-- `from_str` on compact text. -/
def from_str (s : String) : Option Json :=
  match parse (s.toList.length + 1) s.toList with
  | some (j, []) => if print j = s.toList then some j else none
  | _ => none

/-- The codec of compact text. -/
def codec : JsonText where
  to_string j := String.ofList (print j)
  from_str := from_str

/-- The texts accepted are the texts printed. -/
theorem from_str_eq_some {s : String} {j : Json} : from_str s = some j ↔ s.toList = print j := by
  have hread : s.toList = print j → parse (s.toList.length + 1) s.toList = some (j, []) := by
    intro h
    have hstop : ∀ x, j = .number x → Stops [] := fun _ _ _ hc => by cases hc
    have := parse_print j (s.toList.length + 1) [] (by rw [h]; omega) hstop
    rwa [List.append_nil, ← h] at this
  constructor
  · intro h
    unfold from_str at h
    split at h
    · split at h
      · rename_i hprint
        cases h
        exact hprint.symm
      · cases h
    · cases h
  · intro h
    unfold from_str
    rw [hread h]
    exact if_pos h.symm

theorem codec_lossless : codec.Lossless where
  from_str_to_string _ := from_str_eq_some.mpr String.toList_ofList

/-- A bracketed text is not complete before its last character: a shorter text
that were complete would be read off its front, and nothing would be left. -/
theorem codec_delimited : codec.Delimited where
  from_str_cut cut rest j hwhole hj hrest := by
    by_contra hcut
    obtain ⟨j', hj'⟩ := Option.ne_none_iff_exists'.mp hcut
    have hwhole' := from_str_eq_some.mp hwhole
    have hcut' := from_str_eq_some.mp hj'
    rw [String.toList_append, hcut'] at hwhole'
    -- the shorter text starts with the same bracket, so it is no number
    have hnum : ∀ x, j' = .number x → Stops rest.toList := by
      rintro x rfl
      exact absurd hwhole' (number_ne_bracketed x rest.toList hj)
    have hshort := parse_print j' ((print j).length + 1) rest.toList
      (by rw [← hwhole', List.length_append]; omega) hnum
    have hlong := parse_print j ((print j).length + 1) [] (by omega) fun _ _ _ hc => by cases hc
    rw [List.append_nil] at hlong
    rw [hwhole', hlong] at hshort
    obtain ⟨c, hc, -⟩ := hrest
    have hnil : rest.toList = [] := (congrArg Prod.snd (Option.some.inj hshort)).symm
    rw [hnil] at hc
    cases hc

theorem getLast_printMore (xs : List Json) : (printMore xs).getLast? = some ']' := by
  induction xs with
  | nil => rfl
  | cons x xs ih =>
    rw [printMore, List.getLast?_cons, List.getLast?_append, ih]
    rfl

theorem getLast_printFields (m : List (String × Json)) : (printFields m).getLast? = some '}' := by
  induction m with
  | nil => rfl
  | cons field m ih =>
    rw [printFields, List.getLast?_cons, List.getLast?_cons, List.getLast?_append,
      List.getLast?_cons, List.getLast?_append, ih]
    rfl

/-- A bracketed text ends in its bracket. -/
theorem getLast_print {j : Json} (hj : j.Bracketed) :
    ∃ c, (print j).getLast? = some c ∧ c.isWhitespace = false := by
  cases j with
  | array xs =>
    refine ⟨']', ?_, by decide⟩
    cases xs with
    | nil => rfl
    | cons x xs =>
      rw [print, List.getLast?_cons, List.getLast?_append, getLast_printMore xs]
      rfl
  | object m =>
    refine ⟨'}', ?_, by decide⟩
    cases m with
    | nil => rfl
    | cons field m =>
      rw [print, List.getLast?_cons, List.getLast?_cons, List.getLast?_append, List.getLast?_cons,
        List.getLast?_append, getLast_printFields m]
      rfl
  | _ => cases hj

/-- A compact text has no blanks after it. -/
theorem codec_padded : codec.Padded where
  from_str_pad text blanks j hwhole hj hblanks := by
    have hprint := from_str_eq_some.mp hwhole
    rw [String.toList_append] at hprint
    have hnil : blanks.toList = [] := by
      by_contra hne
      obtain ⟨c, hlast, hc⟩ := getLast_print hj
      rw [← hprint, List.getLast?_append_of_ne_nil _ hne] at hlast
      rw [hblanks c (List.mem_of_getLast? hlast)] at hc
      cases hc
    rw [hnil, List.append_nil] at hprint
    exact from_str_eq_some.mpr hprint

end CompactJson
