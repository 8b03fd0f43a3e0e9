import Mathlib.Data.List.Basic
import Resumable.Value.Repr

/-!
# Literals

Absence, truth values, integers, texts, and tuples of them at any depth are literals: what is
written for them can be read again. `Literal.read` reads a literal off the front of a longer text,
and finds its structure, its contents and what follows it. A quoted text ends by itself, whatever
it contains; an integer ends where no digit follows; a tuple shows where its items end.
-/

namespace Resumable

-- ---------------------------------------------------------------------------
-- Quoted texts
-- ---------------------------------------------------------------------------

namespace Text.Quoted

theorem delimiter_eq (text : List Char) : delimiter text = '\x27' ∨ delimiter text = '\x22' := by
  unfold delimiter
  split
  · exact .inr rfl
  · exact .inl rfl

/-- A character that is neither the delimiter nor a backslash stands for itself. -/
theorem body_cons {q c : Char} (hq : c ≠ q) (hc : c ≠ '\x5c') {cs : List Char} (hcs : cs ≠ []) :
    body q (c :: cs) = (body q cs).map fun (text, tail) => (c :: text, tail) := by
  cases cs with
  | nil => exact absurd rfl hcs
  | cons d cs => simp [body, hq, hc]

theorem body_escape {q : Char} (hq : q = '\x27' ∨ q = '\x22') (c : Char) {cs : List Char}
    (hcs : cs ≠ []) :
    body q (escape q c ++ cs) = (body q cs).map fun (text, tail) => (c :: text, tail) := by
  have hbackslash : '\x5c' ≠ q := by rcases hq with rfl | rfl <;> decide
  have hpair : ∀ d, body q ('\x5c' :: d :: cs) =
      (body q cs).map fun (text, tail) => (unescape d :: text, tail) := by
    intro d
    simp [body, hbackslash]
  unfold escape
  split
  · next h => simpa [unescape, h] using hpair '\x5c'
  · next hc =>
    split
    · next h => simpa [unescape, h] using hpair 'n'
    · split
      · next h => simpa [unescape, h] using hpair 'r'
      · split
        · next h => simpa [unescape, h] using hpair 't'
        · split
          · next h =>
            have hself : unescape q = q := by rcases hq with rfl | rfl <;> rfl
            simpa [h, hself] using hpair q
          · next h => simpa using body_cons h hc hcs

theorem body_escaped {q : Char} (hq : q = '\x27' ∨ q = '\x22') (text rest : List Char) :
    body q (text.flatMap (escape q) ++ q :: rest) = some (text, rest) := by
  induction text with
  | nil => cases rest <;> simp [body]
  | cons c text ih => simp [List.append_assoc, body_escape hq c, ih]

theorem decode_encode (text rest : List Char) :
    decode (encode text ++ rest) = some (text, rest) := by
  simp [encode, decode, delimiter_eq, body_escaped]

theorem decode_quoted (s : String) (rest : List Char) :
    decode ((quoted s).toList ++ rest) = some (s.toList, rest) := by
  simp [quoted, decode_encode]

end Text.Quoted

-- ---------------------------------------------------------------------------
-- Reading
-- ---------------------------------------------------------------------------

/-- The structure and the contents of a literal, without the identities of its objects. -/
inductive Literal where
  | none
  | bool (b : Bool)
  | int (i : Int64)
  | text (s : String)
  | tuple (items : List Literal)

namespace Literal

def words : List (List Char × Literal) :=
  [(['N', 'o', 'n', 'e'], .none), (['T', 'r', 'u', 'e'], .bool true),
    (['F', 'a', 'l', 's', 'e'], .bool false)]

def readWord (cs : List Char) : Option (Literal × List Char) :=
  words.findSome? fun (word, x) => (word.isPrefixOf? cs).map (x, ·)

def readDigits (cs : List Char) : Nat × List Char :=
  (Nat.ofDigitChars 10 (cs.takeWhile Char.isDigit) 0, cs.dropWhile Char.isDigit)

def ofDigits (sign : Int) (digits : Nat × List Char) : Literal × List Char :=
  (.int (.ofInt (sign * digits.1)), digits.2)

mutual

def read : Nat → List Char → Option (Literal × List Char)
  | 0, _ => Option.none
  | _, [] => Option.none
  | n + 1, c :: cs =>
    if c = '(' then (readItems n cs).map fun (items, rest) => (tuple items, rest)
    else if c = '\x27' ∨ c = '\x22' then
      (Text.Quoted.body c cs).map fun (s, rest) => (text (String.ofList s), rest)
    else if c = '-' then some (ofDigits (-1) (readDigits cs))
    else if c.isDigit then some (ofDigits 1 (readDigits (c :: cs)))
    else readWord (c :: cs)

def readItems : Nat → List Char → Option (List Literal × List Char)
  | 0, _ => Option.none
  | n + 1, cs =>
    match read n cs, cs with
    | some (x, ',' :: ')' :: rest), _ => some ([x], rest)
    | some (x, ',' :: ' ' :: rest), _ =>
      (readItems n rest).map fun (items, rest) => (x :: items, rest)
    | some (x, ')' :: rest), _ => some ([x], rest)
    | Option.none, ')' :: rest => some ([], rest)
    | _, _ => Option.none

end

def ofText? (s : String) : Option Literal :=
  match read s.length s.toList with
  | some (x, []) => some x
  | _ => Option.none

end Literal

namespace Value

mutual

def literal? : Value → Option Literal
  | .none => some .none
  | .bool b => some (.bool b)
  | .int i => some (.int i)
  | .text t => some (.text t.text)
  | .tuple _ items => (literals? items).map .tuple
  | _ => Option.none

def literals? : List Value → Option (List Literal)
  | [] => some []
  | v :: rest => do return (← v.literal?) :: (← literals? rest)

end

end Value

-- ---------------------------------------------------------------------------
-- Integers
-- ---------------------------------------------------------------------------

def NoDigit (cs : List Char) : Prop := ∀ c ∈ cs.head?, c.isDigit = false

@[simp] theorem NoDigit.nil : NoDigit [] := by simp [NoDigit]

@[simp] theorem NoDigit.cons {c : Char} {cs : List Char} :
    NoDigit (c :: cs) ↔ c.isDigit = false := by
  simp [NoDigit]

namespace Literal

theorem isDigit_toDigits {m : Nat} : ∀ c ∈ Nat.toDigits 10 m, c.isDigit = true :=
  fun _ hc => Nat.isDigit_of_mem_toDigits (by decide) (by decide) hc

theorem readDigits_toDigits (m : Nat) {rest : List Char} (hrest : NoDigit rest) :
    readDigits (Nat.toDigits 10 m ++ rest) = (m, rest) := by
  have hends : rest.takeWhile Char.isDigit = [] ∧ rest.dropWhile Char.isDigit = rest := by
    cases rest with
    | nil => simp
    | cons c cs => simp [NoDigit.cons.mp hrest]
  simp [readDigits, List.takeWhile_append_of_pos isDigit_toDigits,
    List.dropWhile_append_of_pos isDigit_toDigits, hends]

theorem read_digits (m n : Nat) {rest : List Char} (hrest : NoDigit rest) :
    read (n + 1) (Nat.toDigits 10 m ++ rest) = some (.int (.ofInt m), rest) := by
  have hread := readDigits_toDigits m hrest
  obtain ⟨c, cs, hm⟩ := List.exists_cons_of_ne_nil (Nat.toDigits_ne_nil (n := m) (b := 10))
  have hc : c.isDigit = true := isDigit_toDigits c (hm ▸ List.mem_cons_self)
  have hother : c ≠ '(' ∧ c ≠ '\x27' ∧ c ≠ '\x22' ∧ c ≠ '-' := by
    refine ⟨?_, ?_, ?_, ?_⟩ <;> rintro rfl <;> exact absurd hc (by decide)
  rw [hm, List.cons_append] at hread ⊢
  simp [read, hother, hc, ofDigits, hread]

theorem read_negative (m n : Nat) {rest : List Char} (hrest : NoDigit rest) :
    read (n + 1) ('-' :: (Nat.toDigits 10 m ++ rest)) = some (.int (.ofInt (-m)), rest) := by
  simp [read, readDigits_toDigits m hrest, ofDigits]

theorem read_int (i : Int64) (n : Nat) {rest : List Char} (hrest : NoDigit rest) :
    read (n + 1) (i.toInt.repr.toList ++ rest) = some (.int i, rest) := by
  have hi := Int64.ofInt_toInt i
  cases h : i.toInt with
  | ofNat m =>
    rw [h] at hi
    simpa [Int.repr, ← hi] using read_digits m n hrest
  | negSucc m =>
    rw [h] at hi
    simpa [Int.repr, ← hi, Int.negSucc_eq] using read_negative (m + 1) n hrest

-- ---------------------------------------------------------------------------
-- Tuples
-- ---------------------------------------------------------------------------

/-- The characters are read as the literal, whatever follows them but a digit. -/
def Reads (cs : List Char) (x : Literal) : Prop :=
  ∀ n rest, cs.length ≤ n → NoDigit rest → read n (cs ++ rest) = some (x, rest)

theorem read_closing (n : Nat) (rest : List Char) : read n (')' :: rest) = Option.none := by
  cases n with
  | zero => simp [read]
  | succ n => simp [read, readWord, words, List.isPrefixOf?]

theorem readItems_intercalate {parts : List (List Char)} {items : List Literal}
    (h : List.Forall₂ Reads parts items) (hne : parts ≠ []) :
    ∀ n rest, ([',', ' '].intercalate parts).length < n →
      readItems n ([',', ' '].intercalate parts ++ ')' :: rest) = some (items, rest) := by
  induction h with
  | nil => exact absurd rfl hne
  | @cons part x _ _ hx hrest ih =>
    intro n rest hn
    obtain ⟨n, rfl⟩ : ∃ k, n = k + 1 := ⟨n - 1, by omega⟩
    cases hrest with
    | nil =>
      have hread := hx n (')' :: rest) (by simp at hn; omega) (by simp)
      simp [readItems, hread]
    | cons hy hrest =>
      simp only [List.intercalate_cons_cons, List.length_append, List.append_assoc] at hn ⊢
      have hread : ∀ tail, read n (part ++ ',' :: tail) = some (x, ',' :: tail) := fun tail =>
        hx n (',' :: tail) (by omega) (by simp)
      have hitems := ih (by simp) n rest (by simp at hn; omega)
      simp [readItems, hread, hitems]

/-- How a tuple's items stand before its last parenthesis: one item alone is followed by a
comma. -/
def inside : List (List Char) → List Char
  | [part] => part ++ [',', ')']
  | parts => [',', ' '].intercalate parts ++ [')']

theorem length_inside_pos (parts : List (List Char)) : 0 < (inside parts).length := by
  unfold inside
  split <;> simp

theorem toList_parenthesized : ∀ items : List String,
    (Value.parenthesized items).toList = '(' :: inside (items.map String.toList)
  | [] => rfl
  | [_] => by simp [Value.parenthesized, inside]
  | _ :: _ :: _ => by simp [Value.parenthesized, inside, String.toList_intercalate]

theorem readItems_inside {parts : List (List Char)} {items : List Literal}
    (h : List.Forall₂ Reads parts items) (n : Nat) (rest : List Char)
    (hn : (inside parts).length ≤ n) :
    readItems n (inside parts ++ rest) = some (items, rest) := by
  obtain ⟨k, rfl⟩ : ∃ k, n = k + 1 :=
    ⟨n - 1, by have := length_inside_pos parts; omega⟩
  match h with
  | .nil => simp [inside, readItems, read_closing]
  | .cons hx .nil =>
    have hread := hx k (',' :: ')' :: rest) (by simp [inside] at hn; omega) (by simp)
    simp [inside, readItems, hread]
  | .cons hx (.cons hy hrest) =>
    have hitems := readItems_intercalate (.cons hx (.cons hy hrest)) (by simp) (k + 1) rest
      (by simp only [inside, List.length_append, List.length_singleton] at hn; omega)
    simpa [inside] using hitems

theorem Reads.tuple {parts : List (List Char)} {items : List Literal}
    (h : List.Forall₂ Reads parts items) : Reads ('(' :: inside parts) (tuple items) := by
  intro n rest hn _
  obtain ⟨k, rfl⟩ : ∃ k, n = k + 1 := ⟨n - 1, by simp at hn; omega⟩
  simp [read, readItems_inside h k rest (by simpa using hn)]

end Literal

-- ---------------------------------------------------------------------------
-- Values
-- ---------------------------------------------------------------------------

namespace Value

variable (l : Lookup)

@[simp] theorem repr_none : Value.none.repr l = "None" := rfl

@[simp] theorem repr_bool (b : Bool) : (Value.bool b).repr l = if b then "True" else "False" := by
  cases b <;> rfl

@[simp] theorem repr_int (i : Int64) : (Value.int i).repr l = i.toInt.repr := rfl

@[simp] theorem repr_text (t : TextRef) : (Value.text t).repr l = Text.quoted t.text := rfl

@[simp] theorem repr_tuple (id : Identity) (items : List Value) :
    (Value.tuple id items).repr l = parenthesized (reprs l items) := rfl

@[simp] theorem reprs_nil : reprs l [] = [] := rfl

@[simp] theorem reprs_cons (v : Value) (vs : List Value) :
    reprs l (v :: vs) = v.repr l :: reprs l vs := rfl

end Value

namespace Literal

theorem reads_word {word : List Char} {x : Literal} (h : (word, x) ∈ words) : Reads word x := by
  intro n rest hn _
  simp only [words, List.mem_cons, Prod.mk.injEq, List.not_mem_nil, or_false] at h
  obtain ⟨rfl, rfl⟩ | ⟨rfl, rfl⟩ | ⟨rfl, rfl⟩ := h <;>
    obtain ⟨k, rfl⟩ : ∃ k, n = k + 1 := ⟨n - 1, by simp at hn; omega⟩ <;>
    simp [read, readWord, words, List.isPrefixOf?]

theorem reads_int (i : Int64) : Reads i.toInt.repr.toList (int i) := by
  intro n rest hn hrest
  have hpos : 0 < i.toInt.repr.toList.length := by
    cases h : i.toInt <;> simp [Int.repr, Nat.length_toDigits_pos]
  obtain ⟨k, rfl⟩ : ∃ k, n = k + 1 := ⟨n - 1, by omega⟩
  exact read_int i k hrest

theorem reads_quoted (s : String) : Reads (Text.quoted s).toList (text s) := by
  intro n rest hn _
  obtain ⟨k, rfl⟩ : ∃ k, n = k + 1 :=
    ⟨n - 1, by simp [Text.quoted, Text.Quoted.encode] at hn; omega⟩
  have hq := Text.Quoted.delimiter_eq s.toList
  have hother : Text.Quoted.delimiter s.toList ≠ '(' := by
    rcases hq with h | h <;> simp [h]
  have hbody := Text.Quoted.body_escaped hq s.toList rest
  have hchars : (Text.quoted s).toList ++ rest = Text.Quoted.delimiter s.toList ::
      (s.toList.flatMap (Text.Quoted.escape (Text.Quoted.delimiter s.toList)) ++
        Text.Quoted.delimiter s.toList :: rest) := by
    simp [Text.quoted, Text.Quoted.encode]
  rw [hchars, read, if_neg hother, if_pos hq, hbody]
  simp

variable {l : Lookup}

mutual

theorem reads_repr : ∀ (v : Value) {x : Literal}, v.literal? = some x → Reads (v.repr l).toList x
  | .none, x, h => by
    obtain rfl : none = x := by simpa [Value.literal?] using h
    exact reads_word (by simp [words])
  | .bool b, x, h => by
    obtain rfl : bool b = x := by simpa [Value.literal?] using h
    cases b <;> exact reads_word (by simp [words])
  | .int i, x, h => by
    obtain rfl : int i = x := by simpa [Value.literal?] using h
    simpa using reads_int i
  | .text t, x, h => by
    obtain rfl : text t.text = x := by simpa [Value.literal?] using h
    simpa using reads_quoted t.text
  | .tuple _ items, x, h => by
    obtain ⟨xs, hxs, rfl⟩ : ∃ xs, Value.literals? items = some xs ∧ tuple xs = x := by
      simpa [Value.literal?] using h
    simpa [toList_parenthesized] using Reads.tuple (reads_reprs items hxs)
  | .unbound, _, h | .float _, _, h | .cell _, _, h | .excType _, _, h | .cls _, _, h
  | .exception .., _, h | .inst .., _, h | .traceback _, _, h | .generator _, _, h => by
    simp [Value.literal?] at h

theorem reads_reprs : ∀ (vs : List Value) {xs : List Literal}, Value.literals? vs = some xs →
    List.Forall₂ Reads ((Value.reprs l vs).map String.toList) xs
  | [], xs, h => by
    obtain rfl : [] = xs := by simpa [Value.literals?] using h
    exact .nil
  | v :: vs, ys, h => by
    obtain ⟨x, hx, xs, hxs, rfl⟩ : ∃ x, v.literal? = some x ∧
        ∃ xs, Value.literals? vs = some xs ∧ x :: xs = ys := by
      simpa [Value.literals?, Option.bind_eq_some_iff] using h
    exact .cons (reads_repr v hx) (reads_reprs vs hxs)

end

theorem ofText?_repr {v : Value} {x : Literal} (h : v.literal? = some x) :
    ofText? (v.repr l) = some x := by
  have hlength : (v.repr l).toList.length ≤ (v.repr l).length := Nat.le_of_eq String.length_toList
  have hread := reads_repr v h (v.repr l).length [] hlength .nil
  rw [List.append_nil] at hread
  simp only [ofText?, hread]

end Literal

/-- Every literal is found again in its text, so two literals that are written alike have the same
structure and the same contents; a quoted text is found again in front of any other text. -/
theorem literals_uniquely_readable :
    (∀ (l : Lookup) (v : Value) (x : Literal),
      v.literal? = some x → Literal.ofText? (v.repr l) = some x) ∧
    (∀ (l l' : Lookup) (a b : Value) (x y : Literal),
      a.literal? = some x → b.literal? = some y → a.repr l = b.repr l' → x = y) ∧
    ∀ (s : String) (rest : List Char),
      Text.Quoted.decode ((Text.quoted s).toList ++ rest) = some (s.toList, rest) := by
  refine ⟨fun l v x => Literal.ofText?_repr, ?_, Text.Quoted.decode_quoted⟩
  intro l l' a b x y hx hy heq
  have hread := Literal.ofText?_repr (l := l) hx
  rw [heq, Literal.ofText?_repr hy] at hread
  exact (Option.some.inj hread).symm

def nestedLiteral : Value := .tuple 0 [.text ⟨1, "it's"⟩, .tuple 2 [.int (-1)], .tuple 3 []]

theorem nested_literal_read :
    (∀ l, nestedLiteral.repr l = "(\"it's\", (-1,), ())") ∧
    ∀ l, Literal.ofText? (nestedLiteral.repr l) =
      some (.tuple [.text "it's", .tuple [.int (-1)], .tuple []]) := by
  have hwritten : ∀ l, nestedLiteral.repr l = "(\"it's\", (-1,), ())" := by
    intro l
    have hquoted : Text.quoted "it's" = "\"it's\"" := by decide
    simp only [nestedLiteral, Value.repr_tuple, Value.reprs_cons, Value.reprs_nil,
      Value.repr_text, Value.repr_int, hquoted]
    decide
  exact ⟨hwritten, fun l => literals_uniquely_readable.1 l nestedLiteral _ rfl⟩

end Resumable
